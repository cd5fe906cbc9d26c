import LibWing.Tools.Published

/-!
# What a publication leaves behind

* `NoLitter` : where there was nothing, and no output goes, there is nothing in the end;
* `Tidy` : a path with nothing at it but for the files that are still to be cleared away;
* `noLitter_iff` : a publication leaves no litter unless what fails first is writing or syncing a
  staged file.
-/

namespace LibWing

namespace AtomicWrite

open Files Stateful

/-- No file that the call made is left: there is nothing where there was nothing, destinations
apart. -/
def NoLitter (env : Env) (outputs : List Output) (s : Host) : Prop :=
  ∀ p, p ∉ outputs.map Prod.fst → s.disk p = none →
    (outcome (publishOutputs env outputs) s).2.disk p = none

/-- There is nothing at `p` if it is not one of the files that are still to be cleared away. -/
structure Tidy (destinations : List FilePath) (p : FilePath) (files : List FilePath)
    (d : Disk FilePath) : Prop where
  /-- What is at a destination is a file. -/
  regular : ∀ q ∈ destinations, d q ≠ some .other
  /-- What is at the path is a file. -/
  regularHere : d p ≠ some .other
  /-- And it is there only if a file is to be there. -/
  gone : p ∉ files → d p = none

namespace Tidy

variable {destinations files files' : List FilePath} {p q : FilePath} {d : Disk FilePath}

theorem subset (h : Tidy destinations p files d) (hsub : p ∈ files → p ∈ files') :
    Tidy destinations p files' d :=
  ⟨h.regular, h.regularHere, fun hp => h.gone fun hmem => hp (hsub hmem)⟩

/-- A file that is not there is cleared away. -/
theorem cleared (h : Tidy destinations p (q :: files) d) (hq : p = q → d p = none) :
    Tidy destinations p files d := by
  refine ⟨h.regular, h.regularHere, fun hp => ?_⟩
  by_cases hpq : p = q
  · exact hq hpq
  · refine h.gone ?_
    rw [List.mem_cons, not_or]
    exact ⟨hpq, hp⟩

theorem update_none (h : Tidy destinations p (q :: files) d) :
    Tidy destinations p files (Function.update d q none) := by
  have hother : ∀ r, d r ≠ some .other → Function.update d q none r ≠ some .other := by
    intro r hr
    by_cases hrq : r = q
    · rw [hrq, Function.update_self]
      exact (Option.some_ne_none _).symm
    · rwa [Function.update_of_ne hrq]
  refine ⟨fun r hr => hother r (h.regular r hr), hother p h.regularHere, fun hp => ?_⟩
  by_cases hpq : p = q
  · rw [hpq, Function.update_self]
  · rw [Function.update_of_ne hpq]
    refine h.gone ?_
    rw [List.mem_cons, not_or]
    exact ⟨hpq, hp⟩

theorem update_file (h : Tidy destinations p files d) (contents : List UInt8)
    (hq : p ≠ q ∨ q ∈ files) :
    Tidy destinations p files (Function.update d q (some (.file contents))) := by
  have hother : ∀ r, d r ≠ some .other →
      Function.update d q (some (.file contents)) r ≠ some .other := by
    intro r hr
    by_cases hrq : r = q
    · rw [hrq, Function.update_self]
      intro heq
      cases heq
    · rwa [Function.update_of_ne hrq]
  refine ⟨fun r hr => hother r (h.regular r hr), hother p h.regularHere, fun hp => ?_⟩
  have hpq : p ≠ q := hq.elim id fun hmem heq => hp (heq ▸ hmem)
  rw [Function.update_of_ne hpq]
  exact h.gone hp

theorem eq_none (h : Tidy destinations p files d)
    (hfile : ∀ contents, d p ≠ some (.file contents)) :
    d p = none := by
  have hother := h.regularHere
  rcases hp : d p with _ | ⟨contents⟩ | _
  · rfl
  · exact absurd hp (hfile contents)
  · exact absurd hp hother

end Tidy

variable {env : Env} {destinations files : List FilePath} {p q : FilePath} {op : Op}

theorem remove_tidy (hop : env.refused op = none) :
    Triple (fun s => Tidy destinations p (q :: files) s.disk) (perform env op (Disk.remove q))
      (fun _ s => Tidy destinations p files s.disk)
      (fun _ s => Tidy destinations p files s.disk) := by
  refine perform_triple ?_ ?_ ?_
  · intro s e _ hrefused
    rw [hop] at hrefused
    cases hrefused
  · intro s fault hs _ hfault
    refine hs.cleared fun hpq => hs.eq_none fun contents hfile => ?_
    rw [Disk.remove_eq_ok.2 ⟨⟨contents, hpq ▸ hfile⟩, rfl⟩] at hfault
    cases hfault
  · intro s d hs _ hd
    obtain ⟨-, rfl⟩ := Disk.remove_eq_ok.1 hd
    exact hs.update_none

theorem discardAll_tidy (hundoes : env.Undoes) :
    Triple (fun s => Tidy destinations p files s.disk) (discardAll env files)
      (fun _ s => Tidy destinations p [] s.disk) (fun _ _ => False) := by
  induction files with
  | nil => exact Triple.pure fun s hs => hs
  | cons q files ih =>
    rw [discardAll]
    exact Triple.bind_attempt (remove_tidy (hundoes _ id)) (fun _ => ih) fun _ => ih

theorem clearAll_tidy (hundoes : env.Undoes) {backups : List (FilePath × FilePath)} :
    Triple (fun s => Tidy destinations p (backups.map Prod.snd) s.disk) (clearAll env backups)
      (fun _ s => Tidy destinations p [] s.disk) (fun _ _ => False) := by
  induction backups with
  | nil => exact Triple.pure fun s hs => hs
  | cons x backups ih =>
    obtain ⟨original, backup⟩ := x
    rw [clearAll]
    exact Triple.bind_attempt (remove_tidy (hundoes _ id)) (fun _ => ih) fun _ => ih

theorem restoreAll_tidy (hundoes : env.Undoes) {backups : List (FilePath × FilePath)}
    (hp : p ∉ destinations) (horiginals : ∀ x ∈ backups, x.1 ∈ destinations) :
    Triple (fun s => Tidy destinations p (backups.map Prod.snd ++ files) s.disk)
      (restoreAll env backups) (fun _ s => Tidy destinations p files s.disk)
      (fun _ _ => False) := by
  induction backups with
  | nil => exact Triple.pure fun s hs => hs
  | cons x backups ih =>
    obtain ⟨original, saved⟩ := x
    obtain ⟨horiginal, horiginals⟩ := List.forall_mem_cons.1 horiginals
    have hne : p ≠ original := fun heq => hp (heq ▸ horiginal)
    rw [restoreAll]
    refine Triple.bind_attempt
      (Q := fun _ s => Tidy destinations p (backups.map Prod.snd ++ files) s.disk)
      (E := fun _ s => Tidy destinations p (backups.map Prod.snd ++ files) s.disk)
      (perform_triple ?_ ?_ ?_)
      (fun _ => (ih horiginals).bind fun errors => Triple.pure fun s hs => hs)
      fun _ => (ih horiginals).bind fun errors => Triple.pure fun s hs => hs
    · intro s e _ hrefused
      rw [hundoes _ id] at hrefused
      cases hrefused
    · intro s fault hs _ hfault
      refine hs.cleared fun hpq => hs.eq_none fun contents hfile => ?_
      change p = saved at hpq
      rw [Disk.rename_eq_ok.2 ⟨contents, hpq ▸ hfile, hs.regular _ horiginal, rfl⟩] at hfault
      cases hfault
    · intro s d hs _ hd
      obtain ⟨contents, -, -, rfl⟩ := Disk.rename_eq_ok.1 hd
      exact hs.update_none.update_file contents (Or.inl hne)

theorem restoreAll_reverse_tidy (hundoes : env.Undoes) {backups : List (FilePath × FilePath)}
    (hp : p ∉ destinations) (horiginals : ∀ x ∈ backups, x.1 ∈ destinations) :
    Triple (fun s => Tidy destinations p (backups.map Prod.snd ++ files) s.disk)
      (restoreAll env backups.reverse) (fun _ s => Tidy destinations p files s.disk)
      (fun _ _ => False) := by
  refine (restoreAll_tidy hundoes hp fun x hx => horiginals x (List.mem_reverse.1 hx)).conseq
    (fun s hs => hs.subset fun hmem => ?_) (fun _ _ h => h) (fun _ _ h => h)
  rwa [List.map_reverse, List.mem_append, List.mem_reverse, ← List.mem_append]

theorem withdrawAll_tidy (hundoes : env.Undoes) {published : List FilePath}
    (hpublished : ∀ q ∈ published, q ∈ destinations) :
    Triple (fun s => Tidy destinations p files s.disk) (withdrawAll env published)
      (fun _ s => Tidy destinations p files s.disk) (fun _ _ => False) := by
  induction published with
  | nil => exact Triple.pure fun s hs => hs
  | cons q published ih =>
    obtain ⟨hq, hpublished⟩ := List.forall_mem_cons.1 hpublished
    rw [withdrawAll]
    refine Triple.bind_attempt
      ((remove_tidy (q := q) (hundoes _ id)).conseq (fun s hs => hs.subset (List.mem_cons_of_mem q))
        (fun _ _ h => h) (fun _ _ h => h))
      (fun _ => (ih hpublished).bind fun errors => Triple.pure fun s hs => hs)
      fun _ => (ih hpublished).bind fun errors => Triple.pure fun s hs => hs

/-- Moving a destination aside adds its backup to the files that are to be cleared away; where it
fails, it has been. -/
theorem moveAside_tidy (hundoes : env.Undoes) {i : ℕ} {path backup : FilePath} :
    Triple (fun s => Tidy destinations p files s.disk) (moveAside env i path backup)
      (fun _ s => Tidy destinations p (backup :: files) s.disk)
      (fun _ s => Tidy destinations p files s.disk) := by
  rw [moveAside]
  refine Triple.bind (Q := fun _ s => Tidy destinations p (backup :: files) s.disk)
    (perform_triple (fun s e hs _ => hs) (fun s fault hs _ _ => hs) ?_) fun _ => ?_
  · intro s d hs _ hd
    obtain ⟨contents, -, -, rfl⟩ := Disk.hardLink_eq_ok.1 hd
    exact (hs.subset (List.mem_cons_of_mem _)).update_file contents (Or.inr List.mem_cons_self)
  refine Triple.bind_attempt (Q := fun _ s => Tidy destinations p (backup :: files) s.disk)
    (E := fun _ s => Tidy destinations p (backup :: files) s.disk)
    (perform_triple (fun s e hs _ => hs) (fun s fault hs _ _ => hs) ?_)
    (fun _ => Triple.pure fun s hs => hs) fun e => ?_
  · intro s d hs _ hd
    obtain ⟨-, rfl⟩ := Disk.remove_eq_ok.1 hd
    exact (hs.subset (List.mem_cons_of_mem path)).update_none
  · exact Triple.bind_attempt (remove_tidy (hundoes _ id)) (fun _ => Triple.throw fun s hs => hs)
      fun _ => Triple.throw fun s hs => hs

theorem backupAll_tidy (hundoes : env.Undoes) (hp : p ∉ destinations) {i : ℕ} {rest : List Output}
    {backups : List (FilePath × FilePath)} (hrest : ∀ o ∈ rest, o.1 ∈ destinations)
    (horiginals : ∀ x ∈ backups, x.1 ∈ destinations) :
    Triple (fun s => Tidy destinations p (backups.map Prod.snd ++ files) s.disk)
      (backupAll env files i rest backups)
      (fun backups' s => (∀ x ∈ backups', x.1 ∈ destinations) ∧
        Tidy destinations p (backups'.map Prod.snd ++ files) s.disk)
      (fun _ s => Tidy destinations p [] s.disk) := by
  induction rest generalizing i backups with
  | nil => exact Triple.pure fun s hs => ⟨horiginals, hs⟩
  | cons o rest ih =>
    obtain ⟨path, contents⟩ := o
    obtain ⟨hpath, hrest⟩ := List.forall_mem_cons.1 hrest
    rw [backupAll]
    refine Triple.bind_get fun s hs => ?_
    split_ifs
    · refine Triple.bind
        (Q := fun _ s => Tidy destinations p (backups.map Prod.snd ++ files) s.disk)
        ?_ fun backup => Triple.bind_attempt (moveAside_tidy hundoes) (fun _ => ?_) fun e => ?_
      · rintro s' rfl
        exact hs
      · refine (ih hrest ?_).conseq (fun s hs => ?_)
          (fun _ _ h => h) (fun _ _ h => h)
        · intro x hx
          rcases List.mem_append.1 hx with hx | hx
          · exact horiginals x hx
          · rw [List.mem_singleton.1 hx]
            exact hpath
        · refine hs.subset fun hmem => ?_
          rw [List.map_append, List.map_singleton, List.append_assoc, List.singleton_append,
            List.mem_append, List.mem_cons]
          rw [List.mem_cons, List.mem_append] at hmem
          rcases hmem with hmem | hmem | hmem
          · exact Or.inr (Or.inl hmem)
          · exact Or.inl hmem
          · exact Or.inr (Or.inr hmem)
      · refine Triple.bind (restoreAll_reverse_tidy hundoes hp horiginals).of_never fun errors => ?_
        exact (discardAll_tidy hundoes).of_never.bind fun _ => Triple.throw fun s hs => hs
    · refine (ih hrest horiginals).conseq ?_ (fun _ _ h => h) (fun _ _ h => h)
      rintro s' rfl
      exact hs

theorem publishAll_tidy (hundoes : env.Undoes) (hp : p ∉ destinations) {i : ℕ}
    {published : List FilePath} {pending : List (Output × FilePath)}
    {backups : List (FilePath × FilePath)} (hpublished : ∀ q ∈ published, q ∈ destinations)
    (hpending : ∀ x ∈ pending, x.1.1 ∈ destinations)
    (horiginals : ∀ x ∈ backups, x.1 ∈ destinations) :
    Triple (fun s => Tidy destinations p (backups.map Prod.snd ++ pending.map Prod.snd) s.disk)
      (publishAll env backups i published pending)
      (fun _ s => Tidy destinations p (backups.map Prod.snd) s.disk)
      (fun _ s => Tidy destinations p [] s.disk) := by
  induction pending generalizing i published with
  | nil =>
    rw [List.map_nil, List.append_nil]
    exact Triple.pure fun s hs => hs
  | cons x pending ih =>
    obtain ⟨⟨path, contents⟩, temp⟩ := x
    obtain ⟨hpath, hpending⟩ := List.forall_mem_cons.1 hpending
    have hne : p ≠ path := fun heq => hp (heq ▸ hpath)
    rw [publishAll]
    refine Triple.bind_attempt
      (Q := fun _ s => Tidy destinations p (backups.map Prod.snd ++ pending.map Prod.snd) s.disk)
      (E := fun _ s => Tidy destinations p
        (backups.map Prod.snd ++ (((path, contents), temp) :: pending).map Prod.snd) s.disk)
      (perform_triple (fun s e hs _ => hs) (fun s fault hs _ _ => hs) ?_) (fun _ => ?_) fun e => ?_
    · intro s d hs _ hd
      obtain ⟨old, -, -, rfl⟩ := Disk.rename_eq_ok.1 hd
      refine (Tidy.update_none (hs.subset fun hmem => ?_)).update_file old (Or.inl hne)
      rw [List.map_cons, List.mem_append, List.mem_cons] at hmem
      rw [List.mem_cons, List.mem_append]
      rcases hmem with hmem | hmem | hmem
      · exact Or.inr (Or.inl hmem)
      · exact Or.inl hmem
      · exact Or.inr (Or.inr hmem)
    · refine ih (fun q hq => ?_) hpending
      rcases List.mem_append.1 hq with hq | hq
      · exact hpublished q hq
      · rw [List.mem_singleton.1 hq]
        exact hpath
    · refine Triple.bind (withdrawAll_tidy hundoes hpublished).of_never fun removeErrors => ?_
      refine Triple.bind (restoreAll_reverse_tidy hundoes hp horiginals).of_never fun errors => ?_
      exact (discardAll_tidy hundoes).of_never.bind fun _ => Triple.throw fun s hs => hs

/-! ### The whole publication -/

variable {d₀ : Disk FilePath} {start : UInt64} {outputs : List Output}

theorem checkAll_tells (hcheck : ∀ i, env.refused (.check i) = none) {i : ℕ} :
    Triple (fun s => s.disk = d₀ ∧ s.next = start) (checkAll env i outputs)
      (fun _ s => (∀ o ∈ outputs, d₀ o.1 ≠ some .other) ∧ s.disk = d₀ ∧ s.next = start)
      (fun _ s => ¬ (∀ o ∈ outputs, d₀ o.1 ≠ some .other) ∧ s.disk = d₀) := by
  induction outputs generalizing i with
  | nil => exact Triple.pure fun s hs => ⟨fun _ h => absurd h List.not_mem_nil, hs⟩
  | cons o outputs ih =>
    obtain ⟨path, contents⟩ := o
    rw [checkAll]
    refine Triple.bind_get fun s hs => ?_
    rw [hcheck i]
    by_cases hpath : s.disk path = some .other
    · rw [hpath]
      refine Triple.throw ?_
      rintro s' rfl
      refine ⟨fun hregular => ?_, hs.1⟩
      rw [hs.1] at hpath
      exact hregular _ List.mem_cons_self hpath
    · have hrest : Triple (· = s) (checkAll env (i + 1) outputs)
          (fun _ s => (∀ o ∈ (path, contents) :: outputs, d₀ o.1 ≠ some .other) ∧ s.disk = d₀ ∧
            s.next = start)
          (fun _ s => ¬ (∀ o ∈ (path, contents) :: outputs, d₀ o.1 ≠ some .other) ∧
            s.disk = d₀) := by
        refine ih.conseq ?_ ?_ ?_
        · rintro s' rfl
          exact hs
        · rintro _ s' ⟨hregular, hs'⟩
          refine ⟨List.forall_mem_cons.2 ⟨?_, hregular⟩, hs'⟩
          rwa [← hs.1]
        · rintro _ s' ⟨hregular, hs'⟩
          exact ⟨fun h => hregular fun o ho => h o (List.mem_cons_of_mem _ ho), hs'⟩
      split
      · rename_i hother
        exact absurd hother hpath
      · exact hrest

/-- **A publication clears away** what it made, unless it fails while it stages. -/
theorem publishOutputs_tidy (hundoes : env.Undoes) (hcheck : ∀ i, env.refused (.check i) = none)
    (hp : p ∉ outputs.map Prod.fst) (hnone : d₀ p = none) :
    Triple (fun s => s.disk = d₀ ∧ s.next = start) (publishOutputs env outputs)
      (fun _ s => Stageable env d₀ start outputs ∧ s.disk p = none)
      (fun _ s => ¬ (∀ o ∈ outputs, d₀ o.1 ≠ some .other) ∧ s.disk = d₀ ∨
        (∀ o ∈ outputs, d₀ o.1 ≠ some .other) ∧
          (StageFailed env (fun _ => True) d₀ start outputs s.disk ∨
            Stageable env d₀ start outputs ∧ s.disk p = none)) := by
  have hmem : ∀ o ∈ outputs, o.1 ∈ outputs.map Prod.fst := fun o ho => List.mem_map_of_mem ho
  have hend : ∀ {d}, Tidy (outputs.map Prod.fst) p [] d → d p = none :=
    fun h => h.gone List.not_mem_nil
  rw [publishOutputs]
  refine Triple.bind ((checkAll_tells hcheck).conseq (fun _ h => h) (fun _ _ h => h)
    fun _ _ h => Or.inl h) fun _ => Triple.assume fun hregular => ?_
  refine Triple.bind ((stageAll_spec hundoes fun _ _ => trivial).conseq ?_ (fun _ _ h => h)
    fun _ _ h => Or.inr ⟨hregular, Or.inl h⟩) fun staged => Triple.assume fun hstaged => ?_
  · rintro s ⟨rfl, rfl⟩
    exact ⟨Midway.init _ _, rfl⟩
  subst hstaged
  rw [zip_stagedOf]
  -- Only the staged files are new.
  have htidy : ∀ d, Midway (fun _ => True) d₀ [] [] (stagedOf env start outputs) d →
      Tidy (outputs.map Prod.fst) p ((stagedOf env start outputs).map Prod.snd) d := by
    intro d hd
    have hother : ∀ q, d₀ q ≠ some .other → d q ≠ some .other := by
      intro q hq
      by_cases hmem : q ∈ (stagedOf env start outputs).map Prod.snd
      · obtain ⟨x, hx, rfl⟩ := List.mem_map.1 hmem
        rw [hd.staged x hx]
        intro heq
        cases heq
      · rwa [hd.frame q hmem List.not_mem_nil List.not_mem_nil List.not_mem_nil]
    refine ⟨fun q hq => ?_, hother p ?_, fun hmem => ?_⟩
    · obtain ⟨o, ho, rfl⟩ := List.mem_map.1 hq
      exact hother _ (hregular o ho)
    · rw [hnone]
      exact (Option.some_ne_none _).symm
    · rw [hd.frame p hmem List.not_mem_nil List.not_mem_nil List.not_mem_nil, hnone]
  refine Triple.bind
    (Q := fun backups s => (Stageable env d₀ start outputs ∧
      ∀ x ∈ backups, x.1 ∈ outputs.map Prod.fst) ∧
      Tidy (outputs.map Prod.fst) p
        (backups.map Prod.snd ++ (stagedOf env start outputs).map Prod.snd) s.disk)
    ?_ fun backups => Triple.assume fun hdone => ?_
  · intro s hs
    obtain ⟨hmid, -, hstageable⟩ := hs
    have hbackup := @backupAll_tidy env (outputs.map Prod.fst)
      ((stagedOf env start outputs).map Prod.snd) p hundoes hp 0 outputs [] hmem
      fun _ h => absurd h List.not_mem_nil
    exact hbackup.conseq (fun _ h => h) (fun backups s hs => ⟨⟨hstageable, hs.1⟩, hs.2⟩)
      (fun _ s hs => Or.inr ⟨hregular, Or.inr ⟨hstageable, hend hs⟩⟩) s (htidy _ hmid)
  obtain ⟨hstageable, horiginals⟩ := hdone
  refine Triple.bind ((publishAll_tidy hundoes hp (fun _ h => absurd h List.not_mem_nil)
    (fun x hx => hmem _ ?_) horiginals).conseq (fun _ h => h) (fun _ _ h => h)
    fun _ s hs => Or.inr ⟨hregular, Or.inr ⟨hstageable, hend hs⟩⟩) fun _ => ?_
  · have hfst := List.mem_map_of_mem (f := Prod.fst) hx
    rwa [map_fst_stagedOf] at hfst
  · exact (clearAll_tidy hundoes).of_never.conseq (fun _ h => h)
      (fun _ s hs => ⟨hstageable, hend hs⟩) (fun _ _ h => h)

/-! ### When there is litter -/

/-- The first operation that fails is not the write or the sync of a staged file, or its file has
the name of a destination. -/
def WritesFirst (env : Env) (d₀ : Disk FilePath) (start : UInt64) (outputs : List Output) : Prop :=
  ∀ done o rest, outputs = done ++ o :: rest → (∀ x ∈ outputs, d₀ x.1 ≠ some .other) →
    Stageable env d₀ start done → Creatable env d₀ start done o →
      tempOf env start done o ∉ outputs.map Prod.fst →
        env.refused (.write done.length) = none ∧ env.refused (.sync done.length) = none

theorem cut_cases {α : Type} {done done' rest rest' : List α} {o o' : α}
    (h : done ++ o :: rest = done' ++ o' :: rest') :
    (∃ more, done' = done ++ o :: more) ∨ (done' = done ∧ o' = o) ∨
      ∃ more, done = done' ++ o' :: more := by
  rcases List.append_eq_append_iff.1 h with ⟨x, hdone', hrest⟩ | ⟨x, hdone, hrest⟩
  · cases x with
    | nil =>
      rw [List.append_nil] at hdone'
      exact Or.inr (Or.inl ⟨hdone', ((List.cons.inj hrest).1).symm⟩)
    | cons a x =>
      obtain ⟨rfl, -⟩ := List.cons.inj hrest
      exact Or.inl ⟨x, hdone'⟩
  · cases x with
    | nil =>
      rw [List.append_nil] at hdone
      exact Or.inr (Or.inl ⟨hdone.symm, (List.cons.inj hrest).1⟩)
    | cons a x =>
      obtain ⟨rfl, -⟩ := List.cons.inj hrest
      exact Or.inr (Or.inr ⟨x, hdone⟩)

/-- **A publication leaves no litter** exactly if what fails first is not the write or the sync of a
staged file. -/
theorem noLitter_iff (env : Env) (outputs : List Output) (s : Host) (hundoes : env.Undoes)
    (hcheck : ∀ i, env.refused (.check i) = none) :
    NoLitter env outputs s ↔ WritesFirst env s.disk s.next outputs := by
  constructor
  · intro hno done o rest heq hregular hdone hcreate hforeign
    by_contra hwrite
    -- Nothing later was staged.
    have hstops : ∀ more, ¬ Stageable env s.disk s.next (done ++ o :: more) :=
      fun more h => hwrite h.creatable.2
    have hgone := hno _ hforeign hcreate.vacant
    rcases (publishOutputs_tidy hundoes hcheck hforeign hcreate.vacant).outcome ⟨rfl, rfl⟩ with
      ⟨_, s', -, hstageable, -⟩ | ⟨e, s', herror, hleft⟩
    · exact hstops rest (heq ▸ hstageable)
    · rw [herror] at hgone
      rcases hleft with ⟨hirregular, -⟩ | ⟨-, hfailed | ⟨hstageable, -⟩⟩
      · exact hirregular hregular
      · rcases hfailed with ⟨done', o', rest', heq', hdone', hcreate', -⟩ |
          ⟨done', o', rest', heq', hdone', hcreate', hwrite', contents, hmid⟩
        all_goals
          rcases cut_cases (heq.symm.trans heq') with ⟨more, rfl⟩ | ⟨rfl, rfl⟩ | ⟨more, rfl⟩
        · exact hstops more hdone'
        · exact hcreate' hcreate
        · exact hcreate' hdone.creatable.1
        · exact hstops more hdone'
        · have hthere := hmid.staged _ List.mem_cons_self
          rw [hgone] at hthere
          cases hthere
        · obtain ⟨hwrite₁, hsync₁⟩ := hdone.creatable.2
          exact hwrite'.elim (fun h => h hwrite₁) fun h => h hsync₁
      · exact hstops rest (heq ▸ hstageable)
  · intro hwrites p hp hnone
    rcases (publishOutputs_tidy hundoes hcheck hp hnone).outcome ⟨rfl, rfl⟩ with
      ⟨_, s', hok, -, hgone⟩ | ⟨e, s', herror, hleft⟩
    · rw [hok]
      exact hgone
    · rw [herror]
      rcases hleft with ⟨-, hdisk⟩ | ⟨hregular, hfailed | ⟨-, hgone⟩⟩
      · rw [hdisk, hnone]
      · rcases hfailed with ⟨done, o, rest, heq, -, -, hmid⟩ |
          ⟨done, o, rest, heq, hdone, hcreate, hwrite, contents, hmid⟩
        · rw [hmid.eq_of_nil, hnone]
        · -- The file that could not be written stands at a destination.
          have hclash : tempOf env s.next done o ∈ outputs.map Prod.fst := by
            by_contra hforeign
            obtain ⟨hwrite₁, hsync₁⟩ := hwrites done o rest heq hregular hdone hcreate hforeign
            exact hwrite.elim (fun h => h hwrite₁) fun h => h hsync₁
          have hne : p ∉ [((o.1, contents), tempOf env s.next done o)].map Prod.snd := by
            rw [List.map_singleton, List.mem_singleton]
            exact fun heq => hp (heq ▸ hclash)
          rw [hmid.frame p hne List.not_mem_nil List.not_mem_nil List.not_mem_nil, hnone]
      · exact hgone

/-- Renaming the second output into place fails, and there is no litter. -/
theorem noLitter_iff_failsSecond :
    NoLitter failsSecond [(⟨"", "a"⟩, [2]), (⟨"", "b"⟩, [3])] withA ↔
      WritesFirst failsSecond withA.disk withA.next [(⟨"", "a"⟩, [2]), (⟨"", "b"⟩, [3])] :=
  noLitter_iff failsSecond _ withA failsSecond_undoes fun _ => rfl

/-- The operations that the call does once for each output, apart from looking whether it is
there. -/
def Op.IsStep : Op → Prop
  | .create _ | .write _ | .sync _ | .link _ | .unlink _ | .publish _ => True
  | _ => False

/-- A host on which the first output cannot be written. -/
def failsWriting : Env where
  pid := 1
  refused op := if op = .write 0 then some ⟨.other 28, "no space left on device"⟩ else none
  written _ := [2]
  errorOf _ := ⟨.other 2, "no such file"⟩

/-- Its staged file is left. -/
theorem not_noLitter_failsWriting :
    ¬ ∀ (env : Env) (outputs : List Output) (s : Host), env.Undoes → env.FailsOnce →
      (∀ op, env.refused op ≠ none → op.IsStep) → NoLitter env outputs s := by
  intro h
  have honly : ∀ op, failsWriting.refused op ≠ none → op = .write 0 := by
    intro op hop
    by_contra hne
    exact hop (if_neg hne)
  have hundoes : failsWriting.Undoes := by
    intro op hop
    by_contra hrefused
    rw [honly op hrefused] at hop
    exact hop trivial
  have hno := h failsWriting [(⟨"", "a"⟩, [2, 3])] emptyHost hundoes
    (fun op op' _ _ hop hop' => (honly op hop).trans (honly op' hop').symm)
    (fun op hop => by rw [honly op hop]; trivial)
  have hleft : (outcome (publishOutputs failsWriting [(⟨"", "a"⟩, [2, 3])]) emptyHost).2.disk
      ⟨"", ".a.1.0.tmp"⟩ = some (.file [2]) := by decide +kernel
  have hgone := hno ⟨"", ".a.1.0.tmp"⟩ (by decide) rfl
  rw [hleft] at hgone
  cases hgone

end AtomicWrite

end LibWing
