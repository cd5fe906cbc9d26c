import LibWing.Tools.Published

/-!
# Stopping in the middle of a publication

* `CrashSafe` : wherever a publication stops, a destination that was there holds its old or its new
  contents;
* `Unharmed` : so far, what was there has not changed;
* `Seen` : at some point there was nothing at a path;
* `crashSafe_iff` : a publication is crash-safe exactly if it does not get to removing the first
  destination that is there.
-/

namespace LibWing

namespace AtomicWrite

open Files Stateful

/-- In every state of the disk, each destination that was there holds its old or its new
contents. -/
def CrashSafe (env : Env) (outputs : List Output) (disk : Disk FilePath) (next : UInt64) : Prop :=
  ∀ d ∈ (outcome (publishOutputs env outputs) ⟨disk, [], next⟩).2.history, ∀ o ∈ outputs,
    ∀ old, disk o.1 = some (.file old) → d o.1 = some (.file old) ∨ d o.1 = some (.file o.2)

/-- The backup of the first destination that is there. -/
def firstBackup (env : Env) (start : UInt64) (outputs : List Output) (o : Output) : FilePath :=
  stagedName env o.1 (start + UInt64.ofNat outputs.length) "bak"

/-- No destination is there, or an operation fails before the first one that is has been removed. -/
def RemovesNone (env : Env) (d₀ : Disk FilePath) (start : UInt64) (outputs : List Output) : Prop :=
  ∀ done o rest, outputs = done ++ o :: rest → (∀ x ∈ done, d₀ x.1 = none) → d₀ o.1 ≠ none →
    Stageable env d₀ start outputs → d₀ (firstBackup env start outputs o) = none →
      firstBackup env start outputs o ∉ (stagedOf env start outputs).map Prod.snd →
        env.refused (.link done.length) ≠ none ∨ env.refused (.unlink done.length) ≠ none

variable {env : Env} {d₀ : Disk FilePath} {start : UInt64} {outputs done rest : List Output}
  {staged : List FilePath} {op : Op} {p q : FilePath}

theorem exists_file {e : Option Entry} (hsome : e ≠ none) (hother : e ≠ some .other) :
    ∃ contents, e = some (.file contents) := by
  rcases e with _ | ⟨contents⟩ | _
  · exact absurd rfl hsome
  · exact ⟨contents, rfl⟩
  · exact absurd rfl hother

/-! ### What has not changed -/

/-- So far, what was there has not changed. -/
def Unharmed (d₀ : Disk FilePath) (s : Host) : Prop :=
  ∀ d ∈ s.history, ∀ p, d₀ p ≠ none → d p = d₀ p

theorem Unharmed.disk {s : Host} (h : Unharmed d₀ s) (hp : d₀ p ≠ none) : s.disk p = d₀ p :=
  h _ List.mem_cons_self p hp

/-- A path with nothing at it had nothing at it. -/
theorem Unharmed.vacant {s : Host} (h : Unharmed d₀ s) (hp : s.disk p = none) : d₀ p = none := by
  by_contra hne
  rw [h.disk hne] at hp
  exact hne hp

theorem Unharmed.update {s : Host} (h : Unharmed d₀ s) (hq : d₀ q = none) (e : Option Entry) :
    Unharmed d₀ (s.moveTo (Function.update s.disk q e)) := by
  intro d hd p hp
  rcases List.mem_cons.1 hd with rfl | hd
  · have hne : p ≠ q := fun heq => hp (heq ▸ hq)
    rw [Host.moveTo_disk, Function.update_of_ne hne]
    exact h.disk hp
  · exact h d hd p hp

theorem Unharmed.remove (hq : d₀ q = none) :
    Keeps (Unharmed d₀) (perform env op (Disk.remove q)) := by
  refine perform_triple (fun s e hs _ => hs) (fun s fault hs _ _ => hs) ?_
  intro s d hs _ hd
  obtain ⟨-, rfl⟩ := Disk.remove_eq_ok.1 hd
  exact hs.update hq none

theorem Unharmed.discardAll (hstaged : ∀ t ∈ staged, d₀ t = none) :
    Keeps (Unharmed d₀) (discardAll env staged) := by
  induction staged with
  | nil => exact Keeps.pure _
  | cons t staged ih =>
    obtain ⟨ht, hstaged⟩ := List.forall_mem_cons.1 hstaged
    rw [AtomicWrite.discardAll]
    exact Keeps.bind_attempt (Unharmed.remove ht) fun _ => ih hstaged

/-- Staging a file tells that there was none. -/
theorem Unharmed.writeStaged {i : ℕ} {t : FilePath} {contents : List UInt8} :
    Triple (Unharmed d₀) (writeStaged env i t contents) (fun _ s => Unharmed d₀ s ∧ d₀ t = none)
      (fun _ s => Unharmed d₀ s) := by
  rw [AtomicWrite.writeStaged]
  refine Triple.bind (Q := fun _ s => d₀ t = none ∧ Unharmed d₀ s)
    (perform_triple (fun s e hs _ => hs) (fun s fault hs _ _ => hs) ?_)
    fun _ => Triple.assume fun ht => ?_
  · intro s d hs _ hd
    obtain ⟨hnone, rfl⟩ := Disk.createNew_eq_ok.1 hd
    exact ⟨hs.vacant hnone, hs.update (hs.vacant hnone) _⟩
  cases env.refused (.write i) with
  | some error =>
    exact Triple.bind (Q := fun _ s => Unharmed d₀ s) (change_triple fun s hs => hs.update ht _)
      fun _ => Triple.throw fun s hs => hs
  | none =>
    refine Triple.bind (Q := fun _ s => Unharmed d₀ s) (change_triple fun s hs => hs.update ht _)
      fun _ => perform_triple (fun s e hs _ => hs) (fun s fault hs _ _ => hs) ?_
    intro s d hs _ hd
    cases hd
    refine ⟨fun d' hd' p hp => ?_, ht⟩
    rcases List.mem_cons.1 hd' with rfl | hd'
    · exact hs.disk hp
    · exact hs d' hd' p hp

theorem Unharmed.stageAll {i : ℕ} (hstaged : ∀ t ∈ staged, d₀ t = none) :
    Triple (Unharmed d₀) (stageAll env i outputs staged)
      (fun staged' s => Unharmed d₀ s ∧ ∀ t ∈ staged', d₀ t = none) (fun _ s => Unharmed d₀ s) := by
  induction outputs generalizing i staged with
  | nil => exact Triple.pure fun s hs => ⟨hs, hstaged⟩
  | cons o outputs ih =>
    obtain ⟨path, contents⟩ := o
    rw [AtomicWrite.stageAll]
    refine Triple.bind (Q := fun _ s => Unharmed d₀ s) (fun s hs => hs) fun temp => ?_
    refine Triple.bind_attempt Unharmed.writeStaged (fun _ => ?_) fun e =>
      Triple.bind (Unharmed.discardAll hstaged) fun _ => Triple.throw fun s hs => hs
    intro s hs
    refine ih (fun t ht => ?_) s hs.1
    rcases List.mem_append.1 ht with ht | ht
    · exact hstaged t ht
    · rw [List.mem_singleton.1 ht]
      exact hs.2

/-! ### The first destination that is there -/

theorem backupAll_skip {i : ℕ} {backups : List (FilePath × FilePath)} {s : Host}
    (hdone : ∀ o ∈ done, s.disk o.1 = none) :
    backupAll env staged i (done ++ rest) backups s =
      backupAll env staged (i + done.length) rest backups s := by
  induction done generalizing i with
  | nil => rfl
  | cons o done ih =>
    obtain ⟨path, contents⟩ := o
    obtain ⟨hpath, hdone⟩ := List.forall_mem_cons.1 hdone
    have habsent : ((env.refused (.present i)).isNone && (s.disk path).isSome) = false := by
      rw [hpath, Option.isSome_none, Bool.and_false]
    have hstep : backupAll env staged i ((path, contents) :: done ++ rest) backups s =
        backupAll env staged (i + 1) (done ++ rest) backups s := by
      rw [List.cons_append, backupAll]
      change (if ((env.refused (.present i)).isNone && (s.disk path).isSome) = true then _ else _ :
        Publication _) s = _
      rw [habsent, if_neg Bool.false_ne_true]
    rw [hstep, ih hdone, List.length_cons, Nat.add_assoc, Nat.add_comm 1]

theorem backupAll_there {i : ℕ} {o : Output} {backups : List (FilePath × FilePath)} {s : Host}
    {Q₁ : Unit → Host → Prop} {E₁ : IoError → Host → Prop}
    {Q : List (FilePath × FilePath) → Host → Prop} {E : IoError → Host → Prop}
    (hpresent : env.refused (.present i) = none) (hthere : s.disk o.1 ≠ none)
    (hmove : Triple (fun s' => s'.disk = s.disk ∧ s'.past = s.past)
      (moveAside env i o.1 (stagedName env o.1 s.next "bak")) Q₁ E₁)
    (hok : Triple (Q₁ ⟨⟩)
      (backupAll env staged (i + 1) rest (backups ++ [(o.1, stagedName env o.1 s.next "bak")])) Q E)
    (hfail : ∀ error, Triple (E₁ error)
      (do
        let errors ← restoreAll env backups.reverse
        discardAll env staged
        throw (publicationError error errors)) Q E) :
    Triple (· = s) (backupAll env staged i (o :: rest) backups) Q E := by
  obtain ⟨path, contents⟩ := o
  have hpresent' : ((env.refused (.present i)).isNone && (s.disk path).isSome) = true := by
    rw [hpresent, Bool.and_eq_true]
    exact ⟨rfl, Option.isSome_iff_ne_none.2 hthere⟩
  rw [backupAll]
  refine Triple.bind_get fun s' hs' => ?_
  subst hs'
  rw [if_pos hpresent']
  refine Triple.bind (Q := fun backup s => backup = stagedName env path s'.next "bak" ∧
    s.disk = s'.disk ∧ s.past = s'.past) ?_ fun backup => Triple.assume fun hbackup => ?_
  · rintro _ rfl
    exact ⟨rfl, rfl, rfl⟩
  · subst hbackup
    exact Triple.bind_attempt hmove (fun _ => hok) hfail

/-- Moving a destination aside fails, with nothing changed that was there, if one of its operations
is refused or the backup is there. -/
theorem moveAside_fails {i : ℕ} {b : FilePath} {d : Disk FilePath}
    (hfails : env.refused (.link i) = none → env.refused (.unlink i) = none → d b ≠ none) :
    Triple (fun s => Unharmed d₀ s ∧ s.disk = d) (moveAside env i p b) (fun _ _ => False)
      (fun _ s => Unharmed d₀ s) := by
  rw [moveAside]
  refine Triple.bind (Q := fun _ s => (d₀ b = none ∧ env.refused (.unlink i) ≠ none) ∧
    Unharmed d₀ s)
    (perform_triple (fun s e hs _ => hs.1) (fun s fault hs _ _ => hs.1) ?_)
    fun _ => Triple.assume fun hleft => ?_
  · rintro s d' ⟨hs, rfl⟩ hlink hd
    obtain ⟨contents, -, hnone, rfl⟩ := Disk.hardLink_eq_ok.1 hd
    exact ⟨⟨hs.vacant hnone, fun hunlink => hfails hlink hunlink hnone⟩,
      hs.update (hs.vacant hnone) _⟩
  · refine Triple.bind_attempt (Q := fun _ _ => False) (E := fun _ s => Unharmed d₀ s)
      (perform_triple (fun s e hs _ => hs) (fun s fault hs _ _ => hs) ?_)
      (fun _ s hs => hs.elim) fun e => ?_
    · intro s d _ hunlink _
      exact absurd hunlink hleft.2
    · exact Triple.bind_attempt (Unharmed.remove hleft.1) (fun _ => Triple.throw fun s hs => hs)
        fun _ => Triple.throw fun s hs => hs

theorem moveAside_removes {i : ℕ} {b : FilePath} {d : Disk FilePath} {contents : List UInt8}
    (hlink : env.refused (.link i) = none) (hunlink : env.refused (.unlink i) = none)
    (hp : d p = some (.file contents)) (hb : d b = none) :
    Triple (fun s => s.disk = d) (moveAside env i p b) (fun _ s => s.disk p = none)
      (fun _ _ => False) := by
  have hpb : p ≠ b := by
    rintro rfl
    rw [hb] at hp
    cases hp
  rw [moveAside]
  refine Triple.bind (Q := fun _ s => s.disk p = some (.file contents))
    (perform_triple ?_ ?_ ?_) fun _ => ?_
  · intro s e _ hrefused
    rw [hlink] at hrefused
    cases hrefused
  · rintro s fault rfl - hfault
    rw [Disk.hardLink_eq_ok.2 ⟨contents, hp, hb, rfl⟩] at hfault
    cases hfault
  · rintro s d' rfl - hd
    obtain ⟨old, -, -, rfl⟩ := Disk.hardLink_eq_ok.1 hd
    rw [Host.moveTo_disk, Function.update_of_ne hpb, hp]
  · refine attempt_perform_triple (Q := fun _ s => s.disk p = none) hunlink (fun s hs => ?_)
      (Triple.pure fun s hs => hs)
    refine ⟨_, Disk.remove_eq_ok.2 ⟨⟨contents, hs⟩, rfl⟩, ?_⟩
    rw [Host.moveTo_disk, Function.update_self]

/-! ### What has been seen -/

/-- At some point there was nothing at the path. -/
def Seen (p : FilePath) (s : Host) : Prop := ∃ d ∈ s.history, d p = none

namespace Seen

variable {f : Disk FilePath → Except Fault (Disk FilePath)} {backups : List (FilePath × FilePath)}

theorem perform : Keeps (Seen p) (perform env op f) := by
  refine perform_triple (fun s e hs _ => hs) (fun s fault hs _ _ => hs) ?_
  rintro s d ⟨d', hd', hp⟩ - -
  exact ⟨d', List.mem_cons_of_mem _ hd', hp⟩

theorem discardAll : Keeps (Seen p) (discardAll env staged) := by
  induction staged with
  | nil => exact Keeps.pure _
  | cons t staged ih => exact Keeps.bind_attempt perform fun _ => ih

theorem restoreAll : Keeps (Seen p) (restoreAll env backups) := by
  induction backups with
  | nil => exact Keeps.pure _
  | cons x backups ih =>
    rw [AtomicWrite.restoreAll]
    refine Keeps.bind_attempt perform fun r => Keeps.bind ih fun errors => ?_
    cases r with
    | error e => exact Keeps.pure _
    | ok _ => exact Keeps.pure _

theorem withdrawAll {published : List FilePath} : Keeps (Seen p) (withdrawAll env published) := by
  induction published with
  | nil => exact Keeps.pure _
  | cons q published ih =>
    rw [AtomicWrite.withdrawAll]
    refine Keeps.bind_attempt perform fun r => Keeps.bind ih fun errors => ?_
    cases r with
    | error e => exact Keeps.pure _
    | ok _ => exact Keeps.pure _

theorem clearAll : Keeps (Seen p) (clearAll env backups) := by
  induction backups with
  | nil => exact Keeps.pure _
  | cons x backups ih => exact Keeps.bind_attempt perform fun _ => ih

theorem moveAside {i : ℕ} {b : FilePath} : Keeps (Seen p) (moveAside env i q b) := by
  rw [AtomicWrite.moveAside]
  refine Keeps.bind perform fun _ => Keeps.bind_attempt perform fun r => ?_
  cases r with
  | error e => exact Keeps.bind_attempt perform fun _ => Keeps.throw e
  | ok _ => exact Keeps.pure _

theorem backupAll {i : ℕ} : Keeps (Seen p) (backupAll env staged i rest backups) := by
  induction rest generalizing i backups with
  | nil => exact Keeps.pure _
  | cons o rest ih =>
    obtain ⟨path, contents⟩ := o
    rw [AtomicWrite.backupAll]
    refine Keeps.bind_get fun s => ?_
    split_ifs
    · refine Keeps.bind (fun s hs => hs) fun backup => Keeps.bind_attempt moveAside fun r => ?_
      cases r with
      | error e =>
        exact Keeps.bind restoreAll fun errors => Keeps.bind discardAll fun _ => Keeps.throw _
      | ok _ => exact ih
    · exact ih

theorem publishAll {i : ℕ} {published : List FilePath} {pending : List (Output × FilePath)} :
    Keeps (Seen p) (publishAll env backups i published pending) := by
  induction pending generalizing i published with
  | nil => exact Keeps.pure _
  | cons x pending ih =>
    obtain ⟨⟨path, contents⟩, temp⟩ := x
    rw [AtomicWrite.publishAll]
    refine Keeps.bind_attempt perform fun r => ?_
    cases r with
    | error e =>
      exact Keeps.bind withdrawAll fun removeErrors => Keeps.bind restoreAll fun restoreErrors =>
        Keeps.bind discardAll fun _ => Keeps.throw _
    | ok _ => exact ih

end Seen

/-! ### The whole publication -/

/-- What staging leaves, if it succeeds. -/
structure AllStaged (env : Env) (d₀ : Disk FilePath) (start : UInt64) (outputs : List Output)
    (s : Host) : Prop where
  /-- All outputs are staged, and none is published. -/
  midway : Midway (fun _ => True) d₀ [] [] (stagedOf env start outputs) s.disk
  /-- As many names were used. -/
  next : s.next = start + UInt64.ofNat outputs.length
  /-- Nothing was in the way. -/
  stageable : Stageable env d₀ start outputs

theorem stageAll_allStaged {E : IoError → Host → Prop}
    (hfail : ∀ done o rest error, outputs = done ++ o :: rest → Stageable env d₀ start done →
      Triple (fun s => Unwritten env (fun _ => True) d₀ start done o s.disk)
        (do discardAll env ((stagedOf env start done).map Prod.snd); throw error)
        (fun (_ : List FilePath) _ => False) E) :
    Triple (fun s => s.disk = d₀ ∧ s.next = start) (stageAll env 0 outputs [])
      (fun staged s => staged = (stagedOf env start outputs).map Prod.snd ∧
        AllStaged env d₀ start outputs s) E := by
  have h := @stageAll_triple env (fun _ => True) d₀ start [] outputs E (fun _ _ => trivial) hfail
  refine h.conseq ?_ ?_ fun _ _ h => h
  · rintro s ⟨rfl, rfl⟩
    exact ⟨Midway.init _ _, (UInt64.add_zero _).symm, stageable_nil⟩
  · rintro staged s ⟨hstaged, hmid, hnext, hstageable⟩
    exact ⟨hstaged, hmid, hnext, hstageable⟩

theorem AllStaged.disk_eq {s : Host} (h : AllStaged env d₀ start outputs s)
    (hp : p ∉ (stagedOf env start outputs).map Prod.snd) : s.disk p = d₀ p :=
  h.midway.frame p hp List.not_mem_nil List.not_mem_nil List.not_mem_nil

theorem AllStaged.not_mem {s : Host} (h : AllStaged env d₀ start outputs s) (hp : d₀ p ≠ none) :
    p ∉ (stagedOf env start outputs).map Prod.snd :=
  fun hmem => hp (h.stageable.vacant p hmem)

theorem backupAll_first {o : Output} {s : Host} {Q₁ : Unit → Host → Prop}
    {E₁ : IoError → Host → Prop} {Q : List (FilePath × FilePath) → Host → Prop}
    {E : IoError → Host → Prop} (hs : AllStaged env d₀ start outputs s)
    (heq : outputs = done ++ o :: rest) (hdone : ∀ x ∈ done, d₀ x.1 = none) (ho : d₀ o.1 ≠ none)
    (hclash : ∀ x ∈ outputs, d₀ x.1 = none → x.1 ∉ (stagedOf env start outputs).map Prod.snd)
    (hpresent : ∀ i, env.refused (.present i) = none)
    (hmove : Triple (fun s' => s'.disk = s.disk ∧ s'.past = s.past)
      (moveAside env done.length o.1 (firstBackup env start outputs o)) Q₁ E₁)
    (hok : Triple (Q₁ ⟨⟩)
      (backupAll env staged (done.length + 1) rest [(o.1, firstBackup env start outputs o)]) Q E)
    (hfail : ∀ error, Triple (E₁ error)
      (do
        let errors ← restoreAll env []
        discardAll env staged
        throw (publicationError error errors)) Q E) :
    Triple (· = s) (backupAll env staged 0 outputs []) Q E := by
  have hskip : ∀ x ∈ done, s.disk x.1 = none := by
    intro x hx
    have hmem : x ∈ outputs := heq ▸ List.mem_append_left _ hx
    rw [hs.disk_eq (hclash x hmem (hdone x hx)), hdone x hx]
  have hthere : s.disk o.1 ≠ none := by
    rw [hs.disk_eq (hs.not_mem ho)]
    exact ho
  rw [firstBackup, ← hs.next] at hmove hok
  have hfirst := @backupAll_there env rest staged done.length o [] s Q₁ E₁ Q E
    (hpresent done.length) hthere hmove hok hfail
  have hrun : backupAll env staged 0 outputs [] s =
      backupAll env staged (0 + done.length) (o :: rest) [] s := by
    rw [heq]
    exact backupAll_skip hskip
  intro s' hs'
  rw [hs', hrun, Nat.zero_add]
  exact hfirst s rfl

/-- Nothing that was there changes if the first destination that is there cannot be moved aside. -/
theorem publishOutputs_unharmed {o : Output} (heq : outputs = done ++ o :: rest)
    (hregular : ∀ x ∈ outputs, d₀ x.1 ≠ some .other) (hdone : ∀ x ∈ done, d₀ x.1 = none)
    (ho : d₀ o.1 ≠ none)
    (hclash : ∀ x ∈ outputs, d₀ x.1 = none → x.1 ∉ (stagedOf env start outputs).map Prod.snd)
    (hpresent : ∀ i, env.refused (.present i) = none)
    (hremoves : RemovesNone env d₀ start outputs) :
    Triple (· = ⟨d₀, [], start⟩) (publishOutputs env outputs) (fun _ s => Unharmed d₀ s)
      (fun _ s => Unharmed d₀ s) := by
  rw [publishOutputs]
  refine Triple.bind ((@checkAll_spec env d₀ outputs (· = ⟨d₀, [], start⟩) 0
    hregular).of_never.conseq
    ?_ (fun _ _ h => h) (fun _ _ h => h)) fun _ => ?_
  · rintro s rfl
    exact ⟨rfl, rfl⟩
  refine Triple.bind (Q := fun staged s => (staged = (stagedOf env start outputs).map Prod.snd ∧
    AllStaged env d₀ start outputs s) ∧ Unharmed d₀ s) ?_ fun staged => ?_
  · have hunharmed := (@Unharmed.stageAll env d₀ outputs [] 0 fun _ h => absurd h List.not_mem_nil)
    have hstaged := @stageAll_allStaged env d₀ start outputs (fun _ _ => True)
      fun _ _ _ _ _ _ => Triple.bind (Q := fun _ _ => True) (fun s _ => by
        cases discardAll env _ s <;> trivial) fun _ => Triple.throw fun _ _ => trivial
    refine (hstaged.and hunharmed).conseq ?_ (fun _ _ h => ⟨h.1, h.2.1⟩) (fun _ _ h => h.2)
    rintro s ⟨hdisk, rfl⟩
    refine ⟨⟨rfl, rfl⟩, fun d hd p _ => ?_⟩
    rw [List.mem_singleton.1 hd]
  rintro s ⟨⟨hstaged, hall⟩, hunharmed⟩
  subst hstaged
  refine Triple.bind (P := (· = s)) (Q := fun _ _ => False) ?_ (fun _ s hs => hs.elim) s rfl
  have hmove : Triple (fun s' => s'.disk = s.disk ∧ s'.past = s.past)
      (moveAside env done.length o.1 (firstBackup env start outputs o)) (fun _ _ => False)
      fun _ s' => Unharmed d₀ s' := by
    refine (moveAside_fails (d := s.disk) ?_).conseq ?_ (fun _ _ h => h) fun _ _ h => h
    · intro hlink hunlink hvacant
      have hnew := (hall.midway.not_mem_of_none hvacant).1
      rw [hall.disk_eq hnew] at hvacant
      exact (hremoves done o rest heq hdone ho hall.stageable hvacant hnew).elim
        (fun h => h hlink) fun h => h hunlink
    · rintro s' ⟨hdisk, hpast⟩
      refine ⟨?_, hdisk⟩
      rwa [Unharmed, Host.history, hdisk, hpast]
  refine backupAll_first hall heq hdone ho hclash hpresent hmove (fun s hs => hs.elim) fun _ => ?_
  rw [restoreAll]
  exact Triple.bind (Q := fun _ s => Unharmed d₀ s) (Triple.pure fun s hs => hs) fun _ =>
    Triple.bind (Unharmed.discardAll hall.stageable.vacant) fun _ => Triple.throw fun s hs => hs

theorem publishOutputs_seen {o : Output} (heq : outputs = done ++ o :: rest)
    (hregular : ∀ x ∈ outputs, d₀ x.1 ≠ some .other) (hdone : ∀ x ∈ done, d₀ x.1 = none)
    (ho : d₀ o.1 ≠ none)
    (hclash : ∀ x ∈ outputs, d₀ x.1 = none → x.1 ∉ (stagedOf env start outputs).map Prod.snd)
    (hpresent : ∀ i, env.refused (.present i) = none) (hstageable : Stageable env d₀ start outputs)
    (hvacant : d₀ (firstBackup env start outputs o) = none)
    (hnew : firstBackup env start outputs o ∉ (stagedOf env start outputs).map Prod.snd)
    (hlink : env.refused (.link done.length) = none)
    (hunlink : env.refused (.unlink done.length) = none) :
    Triple (· = ⟨d₀, [], start⟩) (publishOutputs env outputs) (fun _ s => Seen o.1 s)
      (fun _ s => Seen o.1 s) := by
  rw [publishOutputs]
  refine Triple.bind ((@checkAll_spec env d₀ outputs (fun s => s.next = start) 0
    hregular).of_never.conseq
    ?_ (fun _ _ h => h) (fun _ _ h => h)) fun _ => ?_
  · rintro s rfl
    exact ⟨rfl, rfl⟩
  refine Triple.bind (stageAll_allStaged ?_) fun staged => Triple.assume fun hstaged => ?_
  · intro done' o' rest' error heq' _ s hs
    obtain ⟨hcreate, hwrite, hsync⟩ := Stageable.creatable (heq' ▸ hstageable)
    rcases hs with ⟨hcreate', -⟩ | ⟨-, hwrite', -, -⟩
    · exact absurd hcreate hcreate'
    · exact (hwrite'.elim (fun h => h hwrite) fun h => h hsync).elim
  intro s hall
  refine Triple.bind (P := (· = s)) (Q := fun _ s => Seen o.1 s) ?_ (fun backups => ?_) s rfl
  · obtain ⟨contents, hfile⟩ :=
      exists_file ho (hregular o (heq ▸ List.mem_append_right _ List.mem_cons_self))
    have hp : s.disk o.1 = some (.file contents) := (hall.disk_eq (hall.not_mem ho)).trans hfile
    have hb : s.disk (firstBackup env start outputs o) = none := (hall.disk_eq hnew).trans hvacant
    refine backupAll_first hall heq hdone ho hclash hpresent
      ((moveAside_removes hlink hunlink hp hb).conseq (fun _ h => h.1) (fun _ _ h => h)
        fun _ _ h => h) ?_ fun error s hs => hs.elim
    intro s' hs'
    exact Seen.backupAll s' ⟨s'.disk, List.mem_cons_self, hs'⟩
  · exact Keeps.bind Seen.publishAll fun _ => Seen.clearAll

/-- **A publication is crash-safe** exactly if it does not get to removing a destination that was
there. -/
theorem crashSafe_iff (env : Env) (outputs : List Output) (d₀ : Disk FilePath) (start : UInt64)
    (hregular : ∀ x ∈ outputs, d₀ x.1 ≠ some .other)
    (hclash : ∀ x ∈ outputs, d₀ x.1 = none → x.1 ∉ (stagedOf env start outputs).map Prod.snd)
    (hpresent : ∀ i, env.refused (.present i) = none) :
    CrashSafe env outputs d₀ start ↔ RemovesNone env d₀ start outputs := by
  constructor
  · intro hsafe done o rest heq hdone ho hstageable hvacant hnew
    by_contra hfree
    rw [not_or, not_not, not_not] at hfree
    have hmem : o ∈ outputs := heq ▸ List.mem_append_right _ List.mem_cons_self
    obtain ⟨contents, hfile⟩ := exists_file ho (hregular o hmem)
    have hseen := (publishOutputs_seen heq hregular hdone ho hclash hpresent hstageable hvacant hnew
      hfree.1 hfree.2).outcome (rfl : (⟨d₀, [], start⟩ : Host) = _)
    have hgone : Seen o.1 (outcome (publishOutputs env outputs) ⟨d₀, [], start⟩).2 := by
      rcases hseen with ⟨_, s', hrun, hseen⟩ | ⟨_, s', hrun, hseen⟩
      · rw [hrun]
        exact hseen
      · rw [hrun]
        exact hseen
    obtain ⟨d, hd, hnone⟩ := hgone
    have hholds := hsafe d hd o hmem contents hfile
    rw [hnone] at hholds
    rcases hholds with h | h <;> cases h
  · intro hremoves d hd o ho old hold
    -- There is a first destination that is there.
    have hfirst : ∃ done o rest, outputs = done ++ o :: rest ∧ (∀ x ∈ done, d₀ x.1 = none) ∧
        d₀ o.1 ≠ none := by
      cases hfind : outputs.find? fun x => (d₀ x.1).isSome with
      | none =>
        have hnone := List.find?_eq_none.1 hfind o ho
        rw [hold] at hnone
        exact absurd rfl hnone
      | some first =>
        obtain ⟨hthere, done, rest, heq, hdone⟩ := List.find?_eq_some_iff_append.1 hfind
        refine ⟨done, first, rest, heq, fun x hx => ?_, Option.isSome_iff_ne_none.1 hthere⟩
        have hx := hdone x hx
        rw [Bool.not_eq_true', Option.isSome_eq_false_iff, Option.isNone_iff_eq_none] at hx
        exact hx
    obtain ⟨done, first, rest, heq, hdone, hthere⟩ := hfirst
    have hunharmed := (publishOutputs_unharmed heq hregular hdone hthere hclash hpresent
      hremoves).outcome (rfl : (⟨d₀, [], start⟩ : Host) = _)
    have hsame : Unharmed d₀ (outcome (publishOutputs env outputs) ⟨d₀, [], start⟩).2 := by
      rcases hunharmed with ⟨_, s', hrun, hs'⟩ | ⟨_, s', hrun, hs'⟩
      · rw [hrun]
        exact hs'
      · rw [hrun]
        exact hs'
    have hne : d₀ o.1 ≠ none := by
      rw [hold]
      exact Option.some_ne_none _
    exact Or.inl ((hsame d hd o.1 hne).trans hold)

/-- The link to the second output cannot be made. -/
def refusesLink : Env where
  pid := 1
  refused op := if op = .link 1 then some ⟨.other 31, "too many links"⟩ else none
  written _ := []
  errorOf _ := ⟨.other 2, "no such file"⟩

/-- A new output, and one in place of another that cannot be moved aside. -/
theorem crashSafe_iff_refusesLink :
    CrashSafe refusesLink [(⟨"", "b"⟩, [2]), (⟨"", "a"⟩, [3])] withA.disk 0 := by
  refine (crashSafe_iff refusesLink _ withA.disk 0 (by decide) (by decide) fun _ => rfl).mpr ?_
  intro done o rest heq _ hthere _ _ _
  rcases done with _ | ⟨x, _ | ⟨y, done⟩⟩
  · obtain ⟨rfl, -⟩ := List.cons.inj heq
    exact absurd rfl hthere
  · exact Or.inl (by rw [List.length_singleton]; decide)
  · simp at heq

/-- An output in place of another: between moving the old one aside and publishing the new one there
is none. -/
theorem not_crashSafe_withA :
    ¬ ∀ (env : Env) (outputs : List Output) (d₀ : Disk FilePath) (start : UInt64),
      (∀ op, env.refused op = none) → (∀ x ∈ outputs, ∃ old, d₀ x.1 = some (.file old)) →
        CrashSafe env outputs d₀ start := by
  intro h
  have hsafe := h failsNothing [(⟨"", "a"⟩, [2])] withA.disk 0 (fun _ => rfl)
    (fun x hx => by rw [List.mem_singleton.1 hx]; exact ⟨[1], rfl⟩)
  have hgone : ∃ d ∈ (outcome (publishOutputs failsNothing [(⟨"", "a"⟩, [2])])
      ⟨withA.disk, [], 0⟩).2.history, d ⟨"", "a"⟩ = none := by decide +kernel
  obtain ⟨d, hd, hnone⟩ := hgone
  have hholds := hsafe d hd _ List.mem_cons_self [1] rfl
  rw [hnone] at hholds
  rcases hholds with h | h <;> cases h

end AtomicWrite

end LibWing
