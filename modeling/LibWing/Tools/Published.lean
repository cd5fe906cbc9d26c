import LibWing.Tools.Rollback

/-!
# What a publication leaves

* `stagedOf` : the staged files of a call, with their outputs;
* `Stageable` : nothing fails while they are staged;
* `stageAll_spec`, `backupAll_spec`, `publishAll_spec` : what the loops leave, and what they leave
  when they fail;
* `publishOutputs_spec` : a publication leaves its outputs, or what was there, or, when a staged
  file could not be written, that file.
-/

namespace LibWing

namespace AtomicWrite

open Files Stateful

variable {env : Env} {own : FilePath → Prop} {d₀ : Disk FilePath} {start : UInt64}

/-! ### Names -/

/-- The staged files of a call that begins with the number `start`, with their outputs. -/
def stagedOf (env : Env) (start : UInt64) (outputs : List Output) : List (Output × FilePath) :=
  outputs.zipIdx.map fun x => (x.1, stagedName env x.1.1 (start + UInt64.ofNat x.2) "tmp")

/-- The staged file of the output `o` behind those of `done`. -/
def tempOf (env : Env) (start : UInt64) (done : List Output) (o : Output) : FilePath :=
  stagedName env o.1 (start + UInt64.ofNat done.length) "tmp"

/-- The names of the form that a call gives to the files it makes: beside some output, with one of
the numbers that it may draw. -/
def OwnName (env : Env) (start : UInt64) (outputs : List Output) (p : FilePath) : Prop :=
  ∃ o ∈ outputs, ∃ n < 2 * outputs.length, ∃ suffix ∈ ["tmp", "bak"],
    p = stagedName env o.1 (start + UInt64.ofNat n) suffix

theorem stagedOf_append (done : List Output) (o : Output) :
    stagedOf env start (done ++ [o]) = stagedOf env start done ++
      [(o, tempOf env start done o)] := by
  rw [stagedOf, List.zipIdx_append, List.map_append, Nat.zero_add]
  rfl

theorem map_fst_stagedOf (outputs : List Output) :
    (stagedOf env start outputs).map Prod.fst = outputs := by
  rw [stagedOf, List.map_map]
  exact List.zipIdx_map_fst ..

/-- The outputs beside their staged files. -/
theorem zip_stagedOf (outputs : List Output) :
    outputs.zip ((stagedOf env start outputs).map Prod.snd) = stagedOf env start outputs := by
  have h := List.zip_unzip (stagedOf env start outputs)
  rw [List.unzip_eq_map] at h
  rwa [map_fst_stagedOf] at h

theorem ownName_stagedOf {outputs : List Output} {x : Output × FilePath}
    (hx : x ∈ stagedOf env start outputs) : OwnName env start outputs x.2 := by
  obtain ⟨⟨o, i⟩, hi, rfl⟩ := List.mem_map.1 hx
  have hlt := List.snd_lt_of_mem_zipIdx hi
  have hmem := List.fst_mem_of_mem_zipIdx hi
  exact ⟨o, hmem, i, by omega, "tmp", List.mem_cons_self, rfl⟩

/-! ### Staging -/

/-- Nothing fails while the outputs are staged. -/
structure Stageable (env : Env) (d₀ : Disk FilePath) (start : UInt64) (outputs : List Output) :
    Prop where
  /-- No operation on them is refused. -/
  allowed : ∀ i < outputs.length, env.refused (.create i) = none ∧ env.refused (.write i) = none ∧
    env.refused (.sync i) = none
  /-- Nothing is there yet. -/
  vacant : ∀ t ∈ (stagedOf env start outputs).map Prod.snd, d₀ t = none
  /-- They have different names. -/
  nodup : ((stagedOf env start outputs).map Prod.snd).Nodup

/-- The staged file of the output `o` behind those of `done` can be made. -/
structure Creatable (env : Env) (d₀ : Disk FilePath) (start : UInt64) (done : List Output)
    (o : Output) : Prop where
  /-- Creating it is not refused. -/
  allowed : env.refused (.create done.length) = none
  /-- Nothing is there yet. -/
  vacant : d₀ (tempOf env start done o) = none
  /-- No file of the call has the name. -/
  new : tempOf env start done o ∉ (stagedOf env start done).map Prod.snd

theorem stageable_nil : Stageable env d₀ start [] where
  allowed _ h := absurd h (Nat.not_lt_zero _)
  vacant _ h := absurd h List.not_mem_nil
  nodup := List.nodup_nil

theorem Stageable.append {done : List Output} {o : Output} (h : Stageable env d₀ start done)
    (hcreate : Creatable env d₀ start done o) (hwrite : env.refused (.write done.length) = none)
    (hsync : env.refused (.sync done.length) = none) : Stageable env d₀ start (done ++ [o]) := by
  refine ⟨fun i hi => ?_, fun t ht => ?_, ?_⟩
  · rw [List.length_append, List.length_singleton] at hi
    rcases Nat.lt_succ_iff_lt_or_eq.1 hi with hi | rfl
    · exact h.allowed i hi
    · exact ⟨hcreate.allowed, hwrite, hsync⟩
  · rw [stagedOf_append, List.map_append, List.mem_append, List.map_singleton,
      List.mem_singleton] at ht
    rcases ht with ht | rfl
    · exact h.vacant t ht
    · exact hcreate.vacant
  · rw [stagedOf_append, List.map_append, List.map_singleton, List.nodup_append]
    refine ⟨h.nodup, List.nodup_singleton _, fun a ha b hb => ?_⟩
    rw [List.mem_singleton.1 hb]
    rintro rfl
    exact hcreate.new ha

/-- What is staged of outputs is staged of the first of them. -/
theorem Stageable.of_append {done rest : List Output} (h : Stageable env d₀ start (done ++ rest)) :
    Stageable env d₀ start done := by
  have hmap : ((stagedOf env start (done ++ rest)).map Prod.snd) =
      (stagedOf env start done).map Prod.snd ++
        ((rest.zipIdx (0 + done.length)).map fun x =>
          (x.1, stagedName env x.1.1 (start + UInt64.ofNat x.2) "tmp")).map Prod.snd := by
    rw [stagedOf, List.zipIdx_append, List.map_append, List.map_append]
    rfl
  refine ⟨fun i hi => h.allowed i ?_, fun t ht => h.vacant t ?_, ?_⟩
  · rw [List.length_append]
    omega
  · rw [hmap]
    exact List.mem_append_left _ ht
  · have hnodup := h.nodup
    rw [hmap] at hnodup
    exact (List.nodup_append.1 hnodup).1

/-- Of outputs that can be staged, each file can be made, written and synced. -/
theorem Stageable.creatable {done rest : List Output} {o : Output}
    (h : Stageable env d₀ start (done ++ o :: rest)) :
    Creatable env d₀ start done o ∧ env.refused (.write done.length) = none ∧
      env.refused (.sync done.length) = none := by
  have hlt : done.length < (done ++ o :: rest).length := by
    rw [List.length_append, List.length_cons]
    omega
  obtain ⟨hcreate, hwrite, hsync⟩ := h.allowed done.length hlt
  have hone : Stageable env d₀ start (done ++ [o]) := by
    refine @Stageable.of_append env d₀ start (done ++ [o]) rest ?_
    rwa [List.append_assoc]
  refine ⟨⟨hcreate, hone.vacant _ ?_, ?_⟩, hwrite, hsync⟩
  · rw [stagedOf_append, List.map_append]
    exact List.mem_append_right _ List.mem_cons_self
  · have hnodup := hone.nodup
    rw [stagedOf_append, List.map_append, List.nodup_append] at hnodup
    exact fun hmem => hnodup.2.2 _ hmem _ List.mem_cons_self rfl

/-- What there is when the staged file of `o` could not be made, or could not be written. -/
inductive Unwritten (env : Env) (own : FilePath → Prop) (d₀ : Disk FilePath) (start : UInt64)
    (done : List Output) (o : Output) (d : Disk FilePath) : Prop
  | creating (hcreate : ¬ Creatable env d₀ start done o)
      (hdisk : Midway own d₀ [] [] (stagedOf env start done) d)
  | writing (hcreate : Creatable env d₀ start done o)
      (hwrite : env.refused (.write done.length) ≠ none ∨ env.refused (.sync done.length) ≠ none)
      (contents : List UInt8)
      (hdisk : Midway own d₀ [] []
        (stagedOf env start done ++ [((o.1, contents), tempOf env start done o)]) d)

/-- How staging fails: at the first output whose file cannot be made, leaving what was there, or
whose file cannot be written, leaving that file. -/
inductive StageFailed (env : Env) (own : FilePath → Prop) (d₀ : Disk FilePath) (start : UInt64)
    (outputs : List Output) (d : Disk FilePath) : Prop
  | creating (done : List Output) (o : Output) (rest : List Output)
      (heq : outputs = done ++ o :: rest)
      (hdone : Stageable env d₀ start done) (hcreate : ¬ Creatable env d₀ start done o)
      (hdisk : Midway own d₀ [] [] [] d)
  | writing (done : List Output) (o : Output) (rest : List Output)
      (heq : outputs = done ++ o :: rest)
      (hdone : Stageable env d₀ start done) (hcreate : Creatable env d₀ start done o)
      (hwrite : env.refused (.write done.length) ≠ none ∨ env.refused (.sync done.length) ≠ none)
      (contents : List UInt8)
      (hdisk : Midway own d₀ [] [] [((o.1, contents), tempOf env start done o)] d)

theorem change_triple {f : Disk FilePath → Disk FilePath} {P : Host → Prop} {Q : Unit → Host → Prop}
    {E : IoError → Host → Prop} (h : ∀ s, P s → Q ⟨⟩ (s.moveTo (f s.disk))) :
    Triple P (change f) Q E := h

theorem writeStaged_spec {done : List Output} {o : Output} {n : UInt64}
    (hown : own (tempOf env start done o)) :
    Triple (fun s => Midway own d₀ [] [] (stagedOf env start done) s.disk ∧ s.next = n)
      (writeStaged env done.length (tempOf env start done o) o.2)
      (fun _ s => (Creatable env d₀ start done o ∧ env.refused (.write done.length) = none ∧
        env.refused (.sync done.length) = none) ∧
        Midway own d₀ [] [] (stagedOf env start (done ++ [o])) s.disk ∧ s.next = n)
      (fun _ s => Unwritten env own d₀ start done o s.disk) := by
  rw [writeStaged, stagedOf_append]
  refine Triple.bind (Q := fun _ s => Creatable env d₀ start done o ∧ s.next = n ∧
    ∃ d, Midway own d₀ [] [] (stagedOf env start done) d ∧ d (tempOf env start done o) = none ∧
      s.disk = Function.update d (tempOf env start done o) (some (.file []))) ?_ fun _ => ?_
  · refine perform_triple ?_ ?_ ?_
    · rintro s e ⟨hs, -⟩ hrefused
      refine .creating (fun hcreate => ?_) hs
      rw [hcreate.allowed] at hrefused
      cases hrefused
    · rintro s fault ⟨hs, -⟩ - hfault
      refine .creating (fun hcreate => ?_) hs
      -- The file was vacant, and the call has not made it.
      have hvacant := hs.frame _ hcreate.new List.not_mem_nil List.not_mem_nil List.not_mem_nil
      rw [Disk.createNew_eq_ok.2 ⟨hvacant.trans hcreate.vacant, rfl⟩] at hfault
      cases hfault
    · rintro s d ⟨hs, hnext⟩ hallowed hd
      obtain ⟨hnone, rfl⟩ := Disk.createNew_eq_ok.1 hd
      have hcreate : Creatable env d₀ start done o :=
        ⟨hallowed, hs.was_none hnone hown, (hs.not_mem_of_none hnone).1⟩
      exact ⟨hcreate, hnext, s.disk, hs, hnone, rfl⟩
  · cases hwrite : env.refused (.write done.length) with
    | some error =>
      refine Triple.bind (Q := fun _ s => Creatable env d₀ start done o ∧
        ∃ contents, Midway own d₀ [] []
          (stagedOf env start done ++ [((o.1, contents), tempOf env start done o)]) s.disk)
        (change_triple ?_) fun _ => Triple.throw ?_
      · rintro s ⟨hcreate, -, d, hd, hnone, hdisk⟩
        refine ⟨hcreate, env.written done.length, ?_⟩
        have hstage := hd.stage (o := (o.1, env.written done.length)) hnone hown
        rwa [Host.moveTo_disk, hdisk, Disk.write, Function.update_idem]
      · rintro s ⟨hcreate, contents, hs⟩
        refine .writing hcreate (Or.inl ?_) contents hs
        rw [hwrite]
        exact Option.some_ne_none _
    | none =>
      refine Triple.bind (Q := fun _ s => Creatable env d₀ start done o ∧ s.next = n ∧
        Midway own d₀ [] [] (stagedOf env start done ++ [(o, tempOf env start done o)]) s.disk)
        (change_triple ?_) fun _ => perform_triple ?_ ?_ ?_
      · rintro s ⟨hcreate, hnext, d, hd, hnone, hdisk⟩
        refine ⟨hcreate, hnext, ?_⟩
        have hstage := hd.stage (o := o) hnone hown
        rwa [Host.moveTo_disk, hdisk, Disk.write, Function.update_idem]
      · rintro s e ⟨hcreate, -, hs⟩ hrefused
        refine .writing hcreate (Or.inr ?_) o.2 hs
        rw [hrefused]
        exact Option.some_ne_none _
      · rintro s fault - - hfault
        cases hfault
      · rintro s d ⟨hcreate, hnext, hs⟩ hsync hd
        cases hd
        exact ⟨⟨hcreate, rfl, hsync⟩, hs, hnext⟩

/-- Staging leaves the staged files; when it fails, what is left depends on what is undone. -/
theorem stageAll_triple {done rest : List Output} {E : IoError → Host → Prop}
    (hown : ∀ x ∈ stagedOf env start (done ++ rest), own x.2)
    (hfail : ∀ done' o rest' error, done ++ rest = done' ++ o :: rest' →
      Stageable env d₀ start done' →
      Triple (fun s => Unwritten env own d₀ start done' o s.disk)
        (do discardAll env ((stagedOf env start done').map Prod.snd); throw error)
        (fun (_ : List FilePath) _ => False) E) :
    Triple (fun s => Midway own d₀ [] [] (stagedOf env start done) s.disk ∧
        s.next = start + UInt64.ofNat done.length ∧ Stageable env d₀ start done)
      (stageAll env done.length rest ((stagedOf env start done).map Prod.snd))
      (fun staged s => staged = (stagedOf env start (done ++ rest)).map Prod.snd ∧
        Midway own d₀ [] [] (stagedOf env start (done ++ rest)) s.disk ∧
        s.next = start + UInt64.ofNat (done ++ rest).length ∧ Stageable env d₀ start (done ++ rest))
      E := by
  induction rest generalizing done with
  | nil =>
    rw [List.append_nil]
    exact Triple.pure fun s hs => ⟨rfl, hs⟩
  | cons o rest ih =>
    have hmem : (o, tempOf env start done o) ∈ stagedOf env start (done ++ o :: rest) := by
      rw [stagedOf, List.zipIdx_append, List.map_append, Nat.zero_add]
      exact List.mem_append_right _ List.mem_cons_self
    have happ : done ++ o :: rest = (done ++ [o]) ++ rest := by rw [List.append_assoc]; rfl
    have hownTemp := hown _ hmem
    obtain ⟨path, contents⟩ := o
    rw [stageAll]
    refine Triple.bind (Q := fun temp s => temp = tempOf env start done (path, contents) ∧
      Stageable env d₀ start done ∧ Midway own d₀ [] [] (stagedOf env start done) s.disk ∧
      s.next = start + UInt64.ofNat (done ++ [(path, contents)]).length) ?_ fun temp => ?_
    · rintro s ⟨hs, hnext, hdone⟩
      refine ⟨congrArg (fun k => stagedName env path k "tmp") hnext, hdone, hs, ?_⟩
      change s.next + 1 = _
      rw [hnext, List.length_append, List.length_singleton, UInt64.ofNat_add, UInt64.add_assoc]
      rfl
    refine Triple.assume fun htemp => Triple.assume fun hdone => ?_
    subst htemp
    refine Triple.bind_attempt (writeStaged_spec (o := (path, contents)) hownTemp)
      (fun _ => Triple.assume fun hmade => ?_) fun e => ?_
    · obtain ⟨hcreate, hwrite, hsync⟩ := hmade
      have hdone' := hdone.append hcreate hwrite hsync
      rw [happ] at hown hfail ⊢
      have hrest := ih hown hfail
      rw [List.length_append, List.length_singleton, stagedOf_append, List.map_append,
        List.map_singleton, ← stagedOf_append] at hrest
      refine hrest.conseq ?_ (fun _ _ h => h) (fun _ _ h => h)
      rintro s ⟨hs, hnext⟩
      rw [List.length_append] at hnext
      exact ⟨hs, hnext, hdone'⟩
    · exact (hfail done _ rest e rfl hdone).conseq (fun _ h => h) (fun _ _ h => h.elim)
        (fun _ _ h => h)

/-- **Staging** leaves the staged files, or fails. -/
theorem stageAll_spec (hundoes : env.Undoes) {outputs : List Output}
    (hown : ∀ x ∈ stagedOf env start outputs, own x.2) :
    Triple (fun s => Midway own d₀ [] [] [] s.disk ∧ s.next = start) (stageAll env 0 outputs [])
      (fun staged s => staged = (stagedOf env start outputs).map Prod.snd ∧
        Midway own d₀ [] [] (stagedOf env start outputs) s.disk ∧
        s.next = start + UInt64.ofNat outputs.length ∧ Stageable env d₀ start outputs)
      (fun _ s => StageFailed env own d₀ start outputs s.disk) := by
  refine (@stageAll_triple env own d₀ start [] outputs _ hown ?_).conseq ?_ (fun _ _ h => h)
    (fun _ _ h => h)
  · intro done o rest error heq hdone s hs
    rcases hs with ⟨hcreate, hs⟩ | ⟨hcreate, hwrite, contents, hs⟩
    · have hdiscard := @discardAll_spec env own d₀ (stagedOf env start done) [] hundoes
      rw [List.append_nil] at hdiscard
      exact (hdiscard.of_never.bind fun _ => Triple.throw fun s hs =>
        .creating done o rest heq hdone hcreate hs) s hs
    · have hdiscard := @discardAll_spec env own d₀ (stagedOf env start done)
        [((o.1, contents), tempOf env start done o)] hundoes
      exact (hdiscard.of_never.bind fun _ => Triple.throw fun s hs =>
        .writing done o rest heq hdone hcreate hwrite contents hs) s hs
  · rintro s ⟨hs, rfl⟩
    exact ⟨hs, (UInt64.add_zero _).symm, stageable_nil⟩

/-! ### Backups -/

/-- The destinations of a call: different regular files, or nothing, with names that are not the
call's. -/
structure Destinations (own : FilePath → Prop) (d₀ : Disk FilePath) (outputs : List Output) :
    Prop where
  /-- What is there is a file. -/
  regular : ∀ o ∈ outputs, d₀ o.1 ≠ some .other
  /-- They are different. -/
  nodup : (outputs.map Prod.fst).Nodup
  /-- None has a name that a call gives. -/
  foreign : ∀ o ∈ outputs, ¬ own o.1

/-- The backups of the destinations that are there, or of which it cannot be told. -/
structure Backed (env : Env) (d₀ : Disk FilePath) (done : List Output)
    (backups : List (FilePath × FilePath)) : Prop where
  /-- They are of outputs that were gone through. -/
  originals : ∀ x ∈ backups, x.1 ∈ done.map Prod.fst
  /-- Of each at most one. -/
  length_le : backups.length ≤ done.length
  /-- What was there is backed up, or was not there. -/
  kept : ∀ o ∈ done, o.1 ∈ backups.map Prod.fst ∨ d₀ o.1 = none ∨
    ∃ i, env.refused (.present i) ≠ none

variable {backups : List (FilePath × FilePath)} {pending : List (Output × FilePath)}
  {outputs done rest : List Output}

theorem moveAside_spec (hundoes : env.Undoes) {i : ℕ} {p b : FilePath} {n : UInt64}
    (hforeign : ¬ own p) (hnew : p ∉ backups.map Prod.fst) (hown : own b) :
    Triple (fun s => Midway own d₀ backups [] pending s.disk ∧ s.next = n) (moveAside env i p b)
      (fun _ s => Midway own d₀ (backups ++ [(p, b)]) [] pending s.disk ∧ s.next = n)
      (fun _ s => Midway own d₀ backups [] pending s.disk) := by
  rw [moveAside]
  refine Triple.bind (Q := fun _ s => ∃ d contents, Midway own d₀ backups [] pending d ∧
    d p = some (.file contents) ∧ d b = none ∧
    s.disk = Function.update d b (some (.file contents)) ∧ s.next = n)
    (perform_triple (fun s e hs _ => hs.1) (fun s fault hs _ _ => hs.1) ?_) fun _ => ?_
  · rintro s d ⟨hs, hnext⟩ - hd
    obtain ⟨contents, hp, hb, rfl⟩ := Disk.hardLink_eq_ok.1 hd
    exact ⟨s.disk, contents, hs, hp, hb, rfl, hnext⟩
  refine Triple.bind_attempt
    (Q := fun _ s => Midway own d₀ (backups ++ [(p, b)]) [] pending s.disk ∧ s.next = n)
    (E := fun _ s => ∃ d contents, Midway own d₀ backups [] pending d ∧ d b = none ∧
      s.disk = Function.update d b (some (.file contents)))
    (perform_triple ?_ ?_ ?_) (fun _ => Triple.pure fun s hs => hs) fun e => ?_
  · rintro s e ⟨d, contents, hd, -, hb, hdisk, -⟩ -
    exact ⟨d, contents, hd, hb, hdisk⟩
  · rintro s fault ⟨d, contents, hd, -, hb, hdisk, -⟩ - -
    exact ⟨d, contents, hd, hb, hdisk⟩
  · rintro s d' ⟨d, contents, hd, hp, hb, hdisk, hnext⟩ - hremove
    obtain ⟨-, rfl⟩ := Disk.remove_eq_ok.1 hremove
    rw [hdisk]
    exact ⟨hd.aside hp hforeign hnew hb hown, hnext⟩
  · -- The backup goes again.
    refine attempt_perform_triple (Q := fun _ s => Midway own d₀ backups [] pending s.disk)
      (hundoes _ id) ?_ (Triple.throw fun s hs => hs)
    rintro s ⟨d, contents, hd, hb, hdisk⟩
    have hthere : s.disk b = some (.file contents) := by
      rw [hdisk, Function.update_self]
    refine ⟨_, Disk.remove_eq_ok.2 ⟨⟨contents, hthere⟩, rfl⟩, ?_⟩
    have hsame : Function.update d b none = d := by
      rw [← hb, Function.update_eq_self]
    rwa [Host.moveTo_disk, hdisk, Function.update_idem, hsame]

theorem disk_eq_of_not_aside {d : Disk FilePath} {p : FilePath}
    (h : Midway own d₀ backups [] pending d) (hforeign : ¬ own p)
    (hnew : p ∉ backups.map Prod.fst) :
    d p = d₀ p := by
  refine h.frame p (fun hmem => ?_) List.not_mem_nil hnew fun hmem => ?_
  · obtain ⟨x, hx, rfl⟩ := List.mem_map.1 hmem
    exact hforeign (h.own_pending hx).1
  · obtain ⟨x, hx, rfl⟩ := List.mem_map.1 hmem
    exact hforeign (h.own_backup hx).1

/-- **Backing up** leaves the backups, or what was there. -/
theorem backupAll_spec (hundoes : env.Undoes) (heq : outputs = done ++ rest)
    (hdest : Destinations (OwnName env start outputs) d₀ outputs)
    (hbacked : Backed env d₀ done backups) :
    Triple (fun s => Midway (OwnName env start outputs) d₀ backups [] pending s.disk ∧
        s.next = start + UInt64.ofNat (outputs.length + backups.length))
      (backupAll env (pending.map Prod.snd) done.length rest backups)
      (fun backups' s => Backed env d₀ outputs backups' ∧
        Midway (OwnName env start outputs) d₀ backups' [] pending s.disk)
      (fun _ s => s.disk = d₀) := by
  induction rest generalizing done backups with
  | nil =>
    rw [List.append_nil] at heq
    subst heq
    exact Triple.pure fun s hs => ⟨hbacked, hs.1⟩
  | cons o rest ih =>
    have hmem : o ∈ outputs := heq ▸ List.mem_append_right _ List.mem_cons_self
    have heq' : outputs = (done ++ [o]) ++ rest := by
      rw [heq, List.append_assoc]
      rfl
    have hlen : outputs.length = done.length + (rest.length + 1) := by
      rw [heq, List.length_append, List.length_cons]
    have hnew : o.1 ∉ backups.map Prod.fst := by
      intro h
      obtain ⟨x, hx, hxo⟩ := List.mem_map.1 h
      have hnodup := hdest.nodup
      rw [heq, List.map_append, List.map_cons, List.nodup_append] at hnodup
      exact hnodup.2.2 _ (hbacked.originals x hx) _ List.mem_cons_self hxo
    obtain ⟨path, contents⟩ := o
    have hdone : (done ++ [(path, contents)]).length = done.length + 1 := by
      rw [List.length_append, List.length_singleton]
    rw [backupAll]
    refine Triple.bind_get fun s hs => ?_
    have hsame := disk_eq_of_not_aside hs.1 (hdest.foreign _ hmem) hnew
    split_ifs with hpresent
    · refine Triple.bind
        (Q := fun backup s => OwnName env start outputs backup ∧
          Midway (OwnName env start outputs) d₀ backups [] pending s.disk ∧
          s.next = start + UInt64.ofNat (outputs.length + (backups ++ [(path, backup)]).length))
        ?_ fun backup => Triple.assume fun hown => ?_
      · rintro s' rfl
        refine ⟨⟨_, hmem, outputs.length + backups.length, ?_, "bak", ?_, ?_⟩, hs.1, ?_⟩
        · have hle := hbacked.length_le
          omega
        · exact List.mem_cons_of_mem _ List.mem_cons_self
        · exact congrArg (fun k => stagedName env path k "bak") hs.2
        · change s'.next + 1 = _
          rw [hs.2, List.length_append, List.length_singleton, ← Nat.add_assoc,
            UInt64.ofNat_add _ 1, UInt64.add_assoc]
          rfl
      refine Triple.bind_attempt (moveAside_spec hundoes (hdest.foreign _ hmem) hnew hown)
        (fun _ => ?_) fun e => ?_
      · have hbacked' : Backed env d₀ (done ++ [(path, contents)])
          (backups ++ [(path, backup)]) := by
          refine ⟨fun x hx => ?_, ?_, fun o ho => ?_⟩
          · rw [List.map_append, List.map_singleton, List.mem_append, List.mem_singleton]
            rcases List.mem_append.1 hx with hx | hx
            · exact Or.inl (hbacked.originals x hx)
            · rw [List.mem_singleton.1 hx]
              exact Or.inr rfl
          · rw [List.length_append, List.length_append, List.length_singleton,
              List.length_singleton]
            exact Nat.succ_le_succ hbacked.length_le
          · rw [List.map_append, List.map_singleton, List.mem_append, List.mem_singleton]
            rcases List.mem_append.1 ho with ho | ho
            · exact (hbacked.kept o ho).imp_left Or.inl
            · rw [List.mem_singleton.1 ho]
              exact Or.inl (Or.inr rfl)
        have hrest := ih heq' hbacked'
        rw [hdone] at hrest
        exact hrest
      · have hrestore := @restoreAll_spec env (OwnName env start outputs) d₀ backups.reverse pending
          hundoes
        have hdiscard := @discardAll_spec env (OwnName env start outputs) d₀ pending [] hundoes
        rw [List.append_nil] at hdiscard
        refine Triple.bind ((hrestore.conseq (fun s hs => hs.reverse) (fun _ _ h => h)
          (fun _ _ h => h)).of_never) fun errors => ?_
        exact hdiscard.of_never.bind fun _ => Triple.throw fun s hs => hs.eq_of_nil
    · have hbacked' : Backed env d₀ (done ++ [(path, contents)]) backups := by
        refine ⟨fun x hx => ?_, ?_, fun o ho => ?_⟩
        · rw [List.map_append]
          exact List.mem_append_left _ (hbacked.originals x hx)
        · rw [List.length_append]
          exact Nat.le_add_right_of_le hbacked.length_le
        · rcases List.mem_append.1 ho with ho | ho
          · exact hbacked.kept o ho
          · rw [List.mem_singleton.1 ho]
            rw [Bool.and_eq_true, not_and_or, Option.isNone_iff_eq_none, Bool.not_eq_true,
              Option.isSome_eq_false_iff, Option.isNone_iff_eq_none] at hpresent
            rcases hpresent with hpresent | hnone
            · exact Or.inr (Or.inr ⟨_, hpresent⟩)
            · exact Or.inr (Or.inl (hsame.symm.trans hnone))
      have hrest := ih heq' hbacked'
      rw [hdone] at hrest
      refine hrest.conseq ?_ (fun _ _ h => h) (fun _ _ h => h)
      rintro _ rfl
      exact hs

/-! ### Publication -/

theorem rename_ok {d : Disk FilePath} {published : List Output} {o : Output} {t : FilePath}
    (hs : Midway own d₀ backups published ((o, t) :: pending) d) (hregular : d₀ o.1 ≠ some .other)
    (hforeign : ¬ own o.1) (hnew : o.1 ∉ published.map Prod.fst) :
    Disk.rename t o.1 d =
      .ok (Function.update (Function.update d t none) o.1 (some (.file o.2))) := by
  refine Disk.rename_eq_ok.2 ⟨o.2, hs.staged (o, t) List.mem_cons_self, ?_, rfl⟩
  by_cases haside : o.1 ∈ backups.map Prod.fst
  · obtain ⟨x, hx, hxo⟩ := List.mem_map.1 haside
    rw [← hxo] at hnew ⊢
    rw [hs.vacated x hx hnew]
    exact (Option.some_ne_none _).symm
  · rw [hs.frame o.1 ?_ hnew haside ?_]
    · exact hregular
    · intro hmem
      obtain ⟨x, hx, hxo⟩ := List.mem_map.1 hmem
      exact hforeign (hxo ▸ (hs.own_pending hx).1)
    · intro hmem
      obtain ⟨x, hx, hxo⟩ := List.mem_map.1 hmem
      exact hforeign (hxo ▸ (hs.own_backup hx).1)

/-- **Publishing** leaves the outputs and the backups, or what was there. -/
theorem publishAll_spec (hundoes : env.Undoes) {published : List Output} {i : ℕ}
    (heq : outputs = published ++ pending.map Prod.fst) (hdest : Destinations own d₀ outputs)
    (hbacked : Backed env d₀ outputs backups)
    (hsure : (∃ i, env.refused (.present i) ≠ none) → ∀ i, env.refused (.publish i) = none) :
    Triple (fun s => Midway own d₀ backups published pending s.disk)
      (publishAll env backups i (published.map Prod.fst) pending)
      (fun _ s => Midway own d₀ backups outputs [] s.disk) (fun _ s => s.disk = d₀) := by
  induction pending generalizing published i with
  | nil =>
    rw [List.map_nil, List.append_nil] at heq
    subst heq
    exact Triple.pure fun s hs => hs
  | cons x pending ih =>
    obtain ⟨⟨path, contents⟩, t⟩ := x
    have heq' : outputs = (published ++ [(path, contents)]) ++ pending.map Prod.fst := by
      rw [heq, List.append_assoc]
      rfl
    have hmem : (path, contents) ∈ outputs := by
      rw [heq]
      exact List.mem_append_right _ List.mem_cons_self
    have hnodup := hdest.nodup
    rw [heq, List.map_append, List.nodup_append] at hnodup
    have hnew : path ∉ published.map Prod.fst :=
      fun h => hnodup.2.2 _ h _ List.mem_cons_self rfl
    rw [publishAll]
    refine Triple.bind_attempt
      (Q := fun _ s => Midway own d₀ backups (published ++ [(path, contents)]) pending s.disk)
      (E := fun _ s => env.refused (.publish i) ≠ none ∧
        Midway own d₀ backups published (((path, contents), t) :: pending) s.disk)
      (perform_triple ?_ ?_ ?_) (fun _ => ?_) fun e => Triple.assume fun hrefused => ?_
    · intro s e hs hrefused
      rw [hrefused]
      exact ⟨Option.some_ne_none _, hs⟩
    · intro s fault hs _ hfault
      rw [rename_ok hs (hdest.regular _ hmem) (hdest.foreign _ hmem) hnew] at hfault
      cases hfault
    · intro s d hs _ hd
      rw [rename_ok hs (hdest.regular _ hmem) (hdest.foreign _ hmem) hnew] at hd
      cases hd
      exact hs.publish (hdest.foreign _ hmem) hnew
    · have hrest := ih (i := i + 1) heq'
      rw [List.map_append, List.map_singleton] at hrest
      exact hrest
    · -- What was published took the place of a backup or of nothing.
      have hkept : ∀ o ∈ published, o.1 ∈ backups.map Prod.fst ∨ d₀ o.1 = none := by
        intro o ho
        have hkept := hbacked.kept o (heq ▸ List.mem_append_left _ ho)
        rw [← or_assoc] at hkept
        exact hkept.resolve_right fun hhidden => hrefused (hsure hhidden i)
      have hrestore := @restoreAll_spec env own d₀ backups.reverse
        (((path, contents), t) :: pending) hundoes
      have hdiscard := @discardAll_spec env own d₀ (((path, contents), t) :: pending) [] hundoes
      rw [List.append_nil] at hdiscard
      refine Triple.bind (withdrawAll_spec hundoes hnodup.1 hkept).of_never fun removeErrors => ?_
      refine Triple.bind ((hrestore.conseq (fun s hs => hs.reverse) (fun _ _ h => h)
        (fun _ _ h => h)).of_never) fun restoreErrors => ?_
      exact hdiscard.of_never.bind fun _ => Triple.throw fun s hs => hs.eq_of_nil

/-- Destinations that are regular files or absent are not refused. -/
theorem checkAll_spec {P : Host → Prop} {i : ℕ} (hregular : ∀ o ∈ outputs, d₀ o.1 ≠ some .other) :
    Triple (fun s => s.disk = d₀ ∧ P s) (checkAll env i outputs) (fun _ s => s.disk = d₀ ∧ P s)
      (fun _ _ => False) := by
  induction outputs generalizing i with
  | nil => exact Triple.pure fun s hs => hs
  | cons o outputs ih =>
    obtain ⟨path, contents⟩ := o
    obtain ⟨hpath, hregular⟩ := List.forall_mem_cons.1 hregular
    rw [checkAll]
    refine Triple.bind_get fun s hs => ?_
    have hrest : Triple (· = s) (checkAll env (i + 1) outputs) (fun _ s => s.disk = d₀ ∧ P s)
        (fun _ _ => False) := by
      refine (ih hregular).conseq ?_ (fun _ _ h => h) (fun _ _ h => h)
      rintro _ rfl
      exact hs
    split
    · rename_i hother
      rw [hs.1] at hother
      exact absurd hother hpath
    · exact hrest

/-- **A publication** leaves its outputs in place of what was at the destinations; where it fails,
it leaves what was there, and, if a staged file could not be written, that file. -/
theorem publishOutputs_spec (hundoes : env.Undoes)
    (hdest : Destinations (OwnName env start outputs) d₀ outputs)
    (hsure : (∃ i, env.refused (.present i) ≠ none) → ∀ i, env.refused (.publish i) = none) :
    Triple (fun s => s.disk = d₀ ∧ s.next = start) (publishOutputs env outputs)
      (fun _ s => Stageable env d₀ start outputs ∧
        Midway (OwnName env start outputs) d₀ [] outputs [] s.disk)
      (fun _ s => Stageable env d₀ start outputs ∧ s.disk = d₀ ∨
        StageFailed env (OwnName env start outputs) d₀ start outputs s.disk) := by
  have hown : ∀ x ∈ stagedOf env start outputs, OwnName env start outputs x.2 :=
    fun x hx => ownName_stagedOf hx
  have hbacked : Backed env d₀ [] [] :=
    ⟨fun _ h => absurd h List.not_mem_nil, le_rfl, fun _ h => absurd h List.not_mem_nil⟩
  rw [publishOutputs]
  refine Triple.bind (checkAll_spec hdest.regular).of_never fun _ => ?_
  refine Triple.bind ((stageAll_spec hundoes hown).conseq ?_ (fun _ _ h => h) fun _ _ h =>
    Or.inr h) fun staged => Triple.assume fun hstaged => ?_
  · rintro s ⟨rfl, rfl⟩
    exact ⟨Midway.init _ _, rfl⟩
  subst hstaged
  rw [zip_stagedOf]
  refine Triple.bind
    (Q := fun backups s => (Stageable env d₀ start outputs ∧ Backed env d₀ outputs backups) ∧
      Midway (OwnName env start outputs) d₀ backups [] (stagedOf env start outputs) s.disk)
    ?_ fun backups => Triple.assume fun hdone => ?_
  · intro s hs
    obtain ⟨hmid, hnext, hstageable⟩ := hs
    exact (backupAll_spec hundoes rfl hdest hbacked).conseq
      (fun _ h => h) (fun backups s hs => ⟨⟨hstageable, hs.1⟩, hs.2⟩)
      (fun _ s hs => Or.inl ⟨hstageable, hs⟩) s ⟨hmid, hnext⟩
  obtain ⟨hstageable, hbacked⟩ := hdone
  refine Triple.bind ((publishAll_spec hundoes ?_ hdest hbacked hsure).conseq
    (fun _ h => h) (fun _ _ h => h) fun _ s hs => Or.inl ⟨hstageable, hs⟩) fun _ => ?_
  · rw [map_fst_stagedOf]
    rfl
  · refine ((clearAll_spec hundoes fun x hx => hbacked.originals x hx).of_never).conseq
      (fun _ h => h) (fun _ s hs => ⟨hstageable, hs⟩) (fun _ _ h => h)

/-! ### Rolling back -/

/-- No two of the operations of staging, backup and publication are refused. -/
def Env.FailsOnce (env : Env) : Prop :=
  ∀ op op' : Op, op.IsMain → op'.IsMain → env.refused op ≠ none → env.refused op' ≠ none → op = op'

/-- A publication that fails leaves the destinations as they were, and one that succeeds leaves the
outputs. -/
def RollsBack (env : Env) (outputs : List Output) (s : Host) : Prop :=
  ∀ r s', outcome (publishOutputs env outputs) s = (r, s') →
    ∀ o ∈ outputs, s'.disk o.1 = match r with
      | .error _ => s.disk o.1
      | .ok _ => some (.file o.2)

/-- **A publication rolls back**, whichever of its operations fails, if no destination has a name
that the call gives to a file of its own. -/
theorem publishOutputs_rollsBack (env : Env) (outputs : List Output) (s : Host)
    (hundoes : env.Undoes) (honce : env.FailsOnce)
    (hregular : ∀ o ∈ outputs, s.disk o.1 ≠ some .other)
    (hnodup : (outputs.map Prod.fst).Nodup)
    (hforeign : ∀ o ∈ outputs, ¬ OwnName env s.next outputs o.1) : RollsBack env outputs s := by
  have hsure : (∃ i, env.refused (.present i) ≠ none) → ∀ i, env.refused (.publish i) = none := by
    rintro ⟨i, hi⟩ j
    by_contra hj
    cases honce (.present i) (.publish j) trivial trivial hi hj
  have hdest : Destinations (OwnName env s.next outputs) s.disk outputs :=
    ⟨hregular, hnodup, hforeign⟩
  intro r s' hrun o ho
  rcases (publishOutputs_spec hundoes hdest hsure).outcome ⟨rfl, rfl⟩ with
    ⟨_, s₁, hok, -, hmid⟩ | ⟨e, s₁, herror, hleft⟩
  · rw [hrun] at hok
    cases hok
    exact hmid.output o ho
  · rw [hrun] at herror
    cases herror
    rcases hleft with ⟨-, hdisk⟩ | hfailed
    · rw [hdisk]
    · -- What is left has a name of the call.
      rcases hfailed with ⟨done, o', rest, -, -, -, hmid⟩ | ⟨done, o', rest, -, -, -, -,
        contents, hmid⟩
      · rw [hmid.eq_of_nil]
      · refine hmid.frame o.1 (fun hmem => ?_) List.not_mem_nil List.not_mem_nil List.not_mem_nil
        rw [List.map_singleton, List.mem_singleton] at hmem
        have hown := (hmid.own_pending List.mem_cons_self).1
        exact hforeign o ho (hmem ▸ hown)

/-- A host on which the second of two outputs cannot be renamed into place. -/
def failsSecond : Env where
  pid := 1
  refused op := if op = .publish 1 then some ⟨.other 5, "input/output error"⟩ else none
  written _ := []
  errorOf _ := ⟨.other 2, "no such file"⟩

/-- A disk with the file `a`. -/
def withA : Host where
  disk p := if p = ⟨"", "a"⟩ then some (.file [1]) else none
  past := []
  next := 0

theorem failsSecond_undoes : failsSecond.Undoes := by
  intro op hop
  refine if_neg ?_
  rintro rfl
  exact hop trivial

theorem failsSecond_once : failsSecond.FailsOnce := by
  intro op op' _ _ hop hop'
  have hpublish : ∀ op, failsSecond.refused op ≠ none → op = .publish 1 := by
    intro op hop
    by_contra hne
    exact hop (if_neg hne)
  rw [hpublish op hop, hpublish op' hop']

theorem publishOutputs_rollsBack_withA :
    RollsBack failsSecond [(⟨"", "a"⟩, [2]), (⟨"", "b"⟩, [3])] withA :=
  publishOutputs_rollsBack failsSecond [(⟨"", "a"⟩, [2]), (⟨"", "b"⟩, [3])] withA failsSecond_undoes
    failsSecond_once (by decide) (by decide) (by unfold OwnName; decide)

/-- A host on which nothing fails. -/
def failsNothing : Env where
  pid := 1
  refused _ := none
  written _ := []
  errorOf _ := ⟨.other 2, "no such file"⟩

/-- A disk with nothing on it. -/
def emptyHost : Host := ⟨fun _ => none, [], 0⟩

/-- Two outputs, the first of which has the name of the staged file of the second: it is renamed to
the second after it was published. -/
def clashing : List Output := [(⟨"", ".x.1.1.tmp"⟩, [1]), (⟨"", "x"⟩, [2])]

theorem not_rollsBack_clashing :
    ¬ ∀ (env : Env) (outputs : List Output) (s : Host), env.Undoes → env.FailsOnce →
      (∀ o ∈ outputs, s.disk o.1 ≠ some .other) → (outputs.map Prod.fst).Nodup →
        RollsBack env outputs s := by
  intro h
  have hrolls := h failsNothing clashing emptyHost (fun _ _ => rfl)
    (fun _ _ _ _ hrefused => absurd rfl hrefused) (by decide) (by decide)
  have hok : (outcome (publishOutputs failsNothing clashing) emptyHost).1 = .ok ⟨⟩ := rfl
  have hx : (outcome (publishOutputs failsNothing clashing) emptyHost).2.disk ⟨"", "x"⟩ =
      some (.file [1]) := by decide +kernel
  have hnew := hrolls _ _ Prod.mk.eta.symm (⟨"", "x"⟩, [2]) (by decide)
  rw [hok, hx] at hnew
  cases hnew

end AtomicWrite

end LibWing
