import LibWing.Lib.Monitor
import LibWing.Tools.Recovery

/-!
# A capture keeps its recovery file

* `Guarded` : what may happen at a moment of a capture, behind the moments before it;
* `Held` : the invariant from the first selection to the removal of the recovery file, and
  `captureModels_held`, `restoreAll_held`, `checkAll_held` : the loops keep it;
* `captureModelSlot_guarded` : every moment of every capture is guarded.
-/

namespace LibWing

open Stateful Files Monitor

namespace Wingdrive

open AtomicWrite Console

variable {u : Setup} {c₀ : Console} {saved : List Saved} {ms : List Moment} {disk : Disk FilePath}
  {action : Action}

/-! ### What may happen -/

/-- The action is a set message. -/
def Action.IsSet : Action → Prop
  | .select _ _ => True
  | .restore _ _ _ => True
  | _ => False

/-- The final pass read the value of the entry. -/
def Checked (entry : Saved) (m : Moment) : Prop :=
  ∃ readback, m.action = .check entry (.ok readback) ∧ readback.eq entry.value = true

/-- The selector was put back, and read back equal. -/
def Confirmed (saved : List Saved) (before : List Moment) : Prop :=
  ∃ selector readback, saved.head? = some selector ∧ readback.eq selector.value = true ∧
    ∃ earlier later d d', before = earlier ++ ⟨.restore 0 selector (.ok ()), d⟩ ::
      ⟨.readback 0 selector (.ok readback), d'⟩ :: later

/-- There is a recovery file, and it lists the entries. -/
def Listed (u : Setup) (saved : List Saved) (disk : Disk FilePath) : Prop :=
  ∃ contents, disk u.recoveryPath = some (.file contents) ∧ Lists u.texts saved contents

/-- A moment that may come behind those of `before`. -/
structure Guarded (u : Setup) (before : List Moment) (m : Moment) : Prop where
  /-- A set message is sent when the recovery file of the selector and all leaves has been
  written. -/
  written : m.action.IsSet → Complete u (snapshots before) ∧
    ∃ m' ∈ before, m'.action = .published (.ok ())
  /-- From the first set message to its removal, the recovery file is there with every entry. -/
  listed : (∃ m' ∈ before ++ [m], m'.action.IsSet) →
    (∀ m' ∈ before ++ [m], m'.action ≠ .removed (.ok ())) → Listed u (snapshots before) m.disk
  /-- It is removed behind a final pass that has read all the original values. -/
  removed : m.action = .removed (.ok ()) →
    ∃ earlier final, before = earlier ++ final ∧ List.Forall₂ Checked (snapshots before) final
  /-- A leaf is written behind a selector that was read back. -/
  confirmed : ∀ index entry sent, m.action = .restore index entry sent → index ≠ 0 →
    Confirmed (snapshots before) before

theorem snapshots_concat (h : action.snapshotted = none) :
    snapshots (ms ++ [⟨action, disk⟩]) = snapshots ms := by
  simp [snapshots, h]

theorem Confirmed.append (h : Confirmed saved ms) (m : Moment) : Confirmed saved (ms ++ [m]) := by
  obtain ⟨selector, readback, hhead, heq, earlier, later, d, d', rfl⟩ := h
  refine ⟨selector, readback, hhead, heq, earlier, later ++ [m], d, d', ?_⟩
  rw [List.append_assoc]
  rfl

theorem Guarded.of_unset (hbefore : ∀ m ∈ ms, ¬ m.action.IsSet) {m : Moment}
    (hset : ¬ m.action.IsSet) (hremoved : m.action ≠ .removed (.ok ())) : Guarded u ms m where
  written h := absurd h hset
  listed := by
    rintro ⟨m', hm', hm'set⟩ -
    rcases List.mem_append.1 hm' with hm' | hm'
    · exact absurd hm'set (hbefore m' hm')
    · rw [List.mem_singleton.1 hm'] at hm'set
      exact absurd hm'set hset
  removed h := absurd h hremoved
  confirmed index entry sent h := by
    rw [h] at hset
    exact absurd trivial hset

theorem lawful_of_unset (h : ∀ m ∈ ms, ¬ m.action.IsSet ∧ m.action ≠ .removed (.ok ())) :
    Lawful (Guarded u) ms := by
  rintro before m after rfl
  have hm := h m (List.mem_append_right _ List.mem_cons_self)
  exact .of_unset (fun m' hm' => (h m' (List.mem_append_left _ hm')).1) hm.1 hm.2

/-! ### The invariant -/

/-- From the first selection to the removal of the recovery file. -/
structure Held (u : Setup) (saved : List Saved) (ms : List Moment) (disk : Disk FilePath) :
    Prop where
  /-- Every moment so far is guarded. -/
  lawful : Lawful (Guarded u) ms
  /-- These are the values that were saved. -/
  snapshots : snapshots ms = saved
  /-- They are all that are needed. -/
  complete : Complete u saved
  /-- The recovery file was published. -/
  published : ∃ m ∈ ms, m.action = .published (.ok ())
  /-- And it was not removed. -/
  present : ∀ m ∈ ms, m.action ≠ .removed (.ok ())
  /-- It lists what was saved. -/
  listed : Listed u saved disk

/-- An action that may happen keeps the invariant. -/
theorem Held.step (h : Held u saved ms disk) (hsnapshot : action.snapshotted = none)
    (hremoved : action ≠ .removed (.ok ()))
    (hconfirmed : ∀ index entry sent, action = .restore index entry sent → index ≠ 0 →
      Confirmed saved ms) : Held u saved (ms ++ [⟨action, disk⟩]) disk := by
  obtain ⟨hlawful, rfl, hcomplete, hpublished, hpresent, hlisted⟩ := h
  refine ⟨lawful_concat.2 ⟨hlawful, ?_⟩, ?_, hcomplete, ?_, ?_, hlisted⟩
  · exact ⟨fun _ => ⟨hcomplete, hpublished⟩, fun _ _ => hlisted, fun hm => absurd hm hremoved,
      hconfirmed⟩
  · exact snapshots_concat hsnapshot
  · obtain ⟨m, hm, hpub⟩ := hpublished
    exact ⟨m, List.mem_append_left _ hm, hpub⟩
  · intro m hm
    rcases List.mem_append.1 hm with hm | hm
    · exact hpresent m hm
    · rw [List.mem_singleton.1 hm]
      exact hremoved

/-- An action that takes no original value, puts none back and removes nothing. -/
def Action.plain : Action → Bool
  | .snapshot _ | .restore _ _ _ | .removed (.ok _) => false
  | _ => true

/-- Such an action keeps the invariant. -/
theorem Held.plain (h : Held u saved ms disk) (hplain : action.plain = true) :
    Held u saved (ms ++ [⟨action, disk⟩]) disk := by
  refine h.step ?_ ?_ ?_
  · cases action with
    | snapshot entry => cases hplain
    | _ => rfl
  · rintro rfl
    cases hplain
  · rintro index entry sent rfl
    cases hplain

/-- The removal behind a final pass. -/
theorem Held.remove (h : Held u saved ms disk) {disk' : Disk FilePath}
    (hchecked : ∃ earlier final, ms = earlier ++ final ∧ List.Forall₂ Checked saved final) :
    Lawful (Guarded u) (ms ++ [⟨.removed (.ok ()), disk'⟩]) := by
  obtain ⟨hlawful, rfl, -, -, -, -⟩ := h
  refine lawful_concat.2 ⟨hlawful, fun hset => hset.elim, fun _ hpresent => ?_, fun _ => hchecked,
    fun index entry sent hm => by cases hm⟩
  exact absurd rfl (hpresent _ (List.mem_append_right _ List.mem_cons_self))

theorem snapshots_eq {more : List Action} (hmore : ∀ a ∈ more, a.snapshotted = none)
    (h : ms.map Moment.action = saved.map .snapshot ++ more) : snapshots ms = saved := by
  have hmap : snapshots ms = (ms.map Moment.action).filterMap Action.snapshotted := by
    rw [List.filterMap_map]
    rfl
  rw [hmap, h, List.filterMap_append, List.filterMap_eq_nil_iff.2 hmore, List.append_nil,
    List.filterMap_map]
  exact List.filterMap_some

theorem unset_of_snapshots {more : List Action}
    (hmore : ∀ a ∈ more, ¬ a.IsSet ∧ a ≠ .removed (.ok ()))
    (h : ms.map Moment.action = saved.map .snapshot ++ more) :
    ∀ m ∈ ms, ¬ m.action.IsSet ∧ m.action ≠ .removed (.ok ()) := by
  intro m hm
  have hmem := List.mem_map_of_mem (f := Moment.action) hm
  rw [h] at hmem
  rcases List.mem_append.1 hmem with hmem | hmem
  · obtain ⟨entry, -, heq⟩ := List.mem_map.1 hmem
    rw [← heq]
    exact ⟨id, fun hne => by cases hne⟩
  · exact hmore _ hmem

theorem Ready.held {s : Drive} (h : Ready u saved s) : Held u saved s.moments s.host.disk where
  lawful := by
    refine lawful_of_unset (unset_of_snapshots (fun a ha => ?_) h.moments)
    rw [List.mem_singleton.1 ha]
    exact ⟨id, fun hne => by cases hne⟩
  snapshots := by
    refine snapshots_eq (fun a ha => ?_) h.moments
    rw [List.mem_singleton.1 ha]
    rfl
  complete := h.complete
  published := by
    have hmem : Action.published (.ok ()) ∈ s.moments.map Moment.action := by
      rw [h.moments]
      exact List.mem_append_right _ List.mem_cons_self
    obtain ⟨m, hm, heq⟩ := List.mem_map.1 hmem
    exact ⟨m, hm, heq⟩
  present := by
    refine fun m hm => (unset_of_snapshots (fun a ha => ?_) h.moments m hm).2
    rw [List.mem_singleton.1 ha]
    exact ⟨id, fun hne => by cases hne⟩
  listed := h.listed

/-! ### The loops -/

/-- The state of the tool is held. -/
def Holds (u : Setup) (saved : List Saved) (s : Drive) : Prop := Held u saved s.moments s.host.disk

theorem note_held (hplain : action.plain = true) : Keeps (Holds u saved) (note action) :=
  fun _ hs => hs.plain hplain

theorem call_held {α : Type} (x : ConsoleM α) : Keeps (Holds u saved) (call x) := fun _ hs => hs

theorem orFail_held {ε α : Type} (text : ε → String) (result : Except ε α) :
    Keeps (Holds u saved) (orFail text result) :=
  orFail_spec (fun _ _ _ h => h) fun _ _ _ h => h

theorem captureParams_held (paths : List String) :
    Keeps (Holds u saved) (captureParams u paths) := by
  induction paths with
  | nil => exact Keeps.pure _
  | cons path paths ih =>
    rw [captureParams]
    refine Keeps.bind (call_held _) fun result => ?_
    refine Keeps.bind (note_held rfl) fun _ => ?_
    exact Keeps.bind (orFail_held _ _) fun data => Keeps.bind (fun _ hs => hs) fun _ => ih

/-- Going through the models, whatever comes of it, keeps the recovery file. -/
theorem captureModels_held (models : List String) :
    Keeps (Holds u saved) (captureModels u models) := by
  induction models with
  | nil => exact Keeps.pure _
  | cons model models ih =>
    rw [captureModels]
    split_ifs
    · exact ih
    refine Keeps.bind (call_held _) fun sent => ?_
    refine Keeps.bind (note_held rfl) fun _ => ?_
    refine Keeps.bind (orFail_held _ _) fun _ => Keeps.bind (call_held _) fun result => ?_
    refine Keeps.bind (note_held rfl) fun _ => ?_
    refine Keeps.bind (orFail_held _ _) fun selected => ?_
    split_ifs
    · exact Keeps.bind (captureParams_held _) fun _ => ih
    · exact Keeps.throw _

theorem readBehind_spec {P : Drive → Prop} {E : String → Drive → Prop}
    (hconsole : ∀ s c, P s → P { s with console := c }) (d : WingNodeDef) (sent : Result Unit) :
    Triple P (readBehind u d sent) (fun _ => P) E := by
  cases sent with
  | ok v => exact fun s hs => hconsole s _ hs
  | error e => exact Triple.pure fun s hs => hs

theorem verifyRestore_ok {t : Texts} {path : String} {original : Snap} {sent : Result Unit}
    {result : Result Snap} {v : Unit} (h : verifyRestore t path original sent result = .ok v) :
    sent = .ok () ∧ ∃ readback, result = .ok readback ∧ readback.eq original = true := by
  rcases sent with e | ⟨⟩
  · cases h
  rcases result with e | readback
  · cases h
  rw [verifyRestore] at h
  split_ifs at h with heq
  exact ⟨rfl, readback, rfl, heq⟩

theorem restoreAll_leaves (index : ℕ) (rest : List Saved) (failures : List String)
    (restored : Bool) :
    Triple (fun s => Holds u saved s ∧ Confirmed saved s.moments)
      (restoreAll u (index + 1) rest failures restored)
      (fun r s => r.2 = restored ∧ Holds u saved s) (fun _ _ => False) := by
  induction rest generalizing index failures with
  | nil => exact Triple.pure fun s hs => ⟨rfl, hs.1⟩
  | cons entry rest ih =>
    rw [restoreAll]
    refine Triple.bind (Q := fun _ s => Holds u saved s ∧ Confirmed saved s.moments)
      (fun _ hs => hs)
      fun write => ?_
    refine Triple.bind (Q := fun _ s => Holds u saved s ∧ Confirmed saved s.moments)
      (fun s hs => ⟨hs.1.step rfl (fun h => by cases h) (fun _ _ _ _ _ => hs.2), hs.2.append _⟩)
      fun _ => ?_
    refine Triple.bind (readBehind_spec (fun _ _ hs => hs) _ _) fun readback => ?_
    refine Triple.bind (Q := fun _ s => Holds u saved s ∧ Confirmed saved s.moments)
      (fun s hs => ⟨hs.1.plain rfl, hs.2.append _⟩)
      fun _ => ?_
    cases verifyRestore u.texts entry.path entry.value write readback with
    | error error =>
      dsimp only
      rw [if_neg (Nat.succ_ne_zero index)]
      exact ih (index + 1) (failures ++ [error])
    | ok v =>
      dsimp only
      rw [decide_eq_false (Nat.succ_ne_zero index), Bool.false_or]
      exact ih (index + 1) failures

/-- **The restore** tells a failure, or has put the selector back. -/
theorem restoreAll_held {entry : Saved} {rest : List Saved} (hsaved : saved = entry :: rest) :
    Triple (Holds u saved) (restoreAll u 0 saved [] false)
      (fun r s => (r.1 = [] → r.2 = true) ∧ Holds u saved s) (fun _ _ => False) := by
  rw [hsaved, restoreAll, ← hsaved]
  refine Triple.bind (Q := fun _ s => Holds u saved s) (fun _ hs => hs) fun write => ?_
  refine Triple.bind (Q := fun _ s => Holds u saved s ∧
    ∃ earlier d, s.moments = earlier ++ [⟨.restore 0 entry write, d⟩]) ?_ fun _ => ?_
  · intro s hs
    exact ⟨hs.step rfl (fun h => by cases h) (fun _ _ _ h hne => by cases h; exact absurd rfl hne),
      s.moments, s.host.disk, rfl⟩
  refine Triple.bind (readBehind_spec (fun _ _ hs => hs) _ _) fun readback => ?_
  refine Triple.bind (Q := fun _ s => Holds u saved s ∧ ∃ earlier d d', s.moments = earlier ++
    ⟨.restore 0 entry write, d⟩ :: [⟨.readback 0 entry readback, d'⟩]) ?_ fun _ => ?_
  · rintro s ⟨hs, earlier, d, hms⟩
    refine ⟨hs.plain rfl, earlier, d, s.host.disk, ?_⟩
    show s.moments ++ [_] = _
    rw [hms, List.append_assoc]
    rfl
  cases hverify : verifyRestore u.texts entry.path entry.value write readback with
  | error error =>
    refine Triple.pure fun s hs => ⟨fun h => ?_, hs.1⟩
    cases h
  | ok v =>
    obtain ⟨rfl, value, rfl, heq⟩ := verifyRestore_ok hverify
    refine (restoreAll_leaves 0 rest [] true).conseq (fun s hs => ⟨hs.1, ?_⟩)
      (fun r s hs => ⟨fun _ => hs.1, hs.2⟩) fun _ _ h => h
    obtain ⟨earlier, d, d', hms⟩ := hs.2
    exact ⟨entry, value, by rw [hsaved]; rfl, heq, earlier, [], d, d', hms⟩

theorem checked_of_none {t : Texts} {entry : Saved} {result : Result Snap}
    (h : checkFailure t entry result = none) : Checked entry ⟨.check entry result, disk⟩ := by
  cases result with
  | error e => cases h
  | ok readback =>
    rw [checkFailure] at h
    split_ifs at h with heq
    exact ⟨readback, rfl, heq⟩

/-- **The final pass** tells a failure, or has read all the original values. -/
theorem checkAll_held (done rest : List Saved) (failures : List String) :
    Triple (fun s => Holds u saved s ∧ (failures = [] → ∃ earlier final,
        s.moments = earlier ++ final ∧ List.Forall₂ Checked done final))
      (checkAll u rest failures)
      (fun failures s => Holds u saved s ∧ (failures = [] → ∃ earlier final,
        s.moments = earlier ++ final ∧ List.Forall₂ Checked (done ++ rest) final))
      (fun _ _ => False) := by
  induction rest generalizing done failures with
  | nil =>
    rw [List.append_nil]
    exact Triple.pure fun s hs => hs
  | cons entry rest ih =>
    rw [checkAll, List.append_cons]
    refine Triple.bind (Q := fun _ s => Holds u saved s ∧ (failures = [] → ∃ earlier final,
      s.moments = earlier ++ final ∧ List.Forall₂ Checked done final)) (fun _ hs => hs)
      fun readback => ?_
    refine Triple.bind (Q := fun _ s => Holds u saved s ∧
      (failures ++ (checkFailure u.texts entry readback).toList = [] → ∃ earlier final,
        s.moments = earlier ++ final ∧ List.Forall₂ Checked (done ++ [entry]) final)) ?_ fun _ => ?_
    · rintro s ⟨hs, hchecked⟩
      refine ⟨hs.plain rfl, fun hnil => ?_⟩
      obtain ⟨hfailures, hentry⟩ := List.append_eq_nil_iff.1 hnil
      obtain ⟨earlier, final, hms, hall⟩ := hchecked hfailures
      refine ⟨earlier, final ++ [⟨.check entry readback, s.host.disk⟩], ?_, ?_⟩
      · show s.moments ++ [_] = _
        rw [hms, List.append_assoc]
      · exact List.rel_append hall (.cons
          (checked_of_none (Option.toList_eq_nil_iff.1 hentry)) .nil)
    · exact ih _ _

/-! ### The capture -/

/-- A capture that is over, however it ended. -/
structure Safe (u : Setup) (c₀ : Console) (s : Drive) : Prop where
  /-- At every moment, what happened was allowed behind what had been done. -/
  guarded : Lawful (Guarded u) s.moments
  /-- If a set message was sent and the recovery file was not removed, it is still there. -/
  kept : (∃ m ∈ s.moments, m.action.IsSet) → (∀ m ∈ s.moments, m.action ≠ .removed (.ok ())) →
    Listed u (snapshots s.moments) s.host.disk
  /-- If it was never written, the console wrote nothing but keepalives and requests. -/
  unsent : (∀ m ∈ s.moments, m.action ≠ .published (.ok ())) → OnlyAsks c₀ s.console

theorem Holds.safe {s : Drive} (h : Holds u saved s) : Safe u c₀ s where
  guarded := h.lawful
  kept _ _ := by
    have hlisted := h.listed
    rwa [← h.snapshots] at hlisted
  unsent hnone := by
    obtain ⟨m, hm, hpub⟩ := h.published
    exact absurd hpub (hnone m hm)

theorem Unsent.safe {s : Drive} (h : Unsent c₀ s) : Safe u c₀ s := by
  obtain ⟨⟨saved, more, hms, hmore⟩, hasks⟩ := h
  have hunset := unset_of_snapshots (fun a ha => ?_) hms
  · refine ⟨lawful_of_unset hunset, ?_, fun _ => hasks⟩
    rintro ⟨m, hm, hset⟩ -
    exact absurd hset (hunset m hm).1
  · obtain ⟨error, rfl⟩ := hmore a ha
    exact ⟨id, fun h => by cases h⟩

/-- The final pass is made unless something has failed. -/
theorem finalPass_held {restored : Bool} {failures : List String}
    (hrestored : failures = [] → restored = true) :
    Triple (Holds u saved) (finalPass u restored saved failures)
      (fun failures s => Holds u saved s ∧ (failures = [] → ∃ earlier final,
        s.moments = earlier ++ final ∧ List.Forall₂ Checked saved final)) (fun _ _ => False) := by
  rw [finalPass]
  split_ifs with h
  · refine (checkAll_held [] saved failures).conseq (fun s hs => ⟨hs, fun _ => ?_⟩)
      (fun _ _ hs => hs)
      fun _ _ hs => hs
    exact ⟨s.moments, [], (List.append_nil _).symm, .nil⟩
  · exact Triple.pure fun s hs => ⟨hs, fun hnil => absurd (hrestored hnil) h⟩

theorem removeFile_spec (env : AtomicWrite.Env) (refused : Option IoError) (path : FilePath) :
    Triple (fun s => s.disk = disk) (removeFile env refused path) (fun _ _ => True)
      (fun _ s => s.disk = disk) := by
  unfold removeFile
  cases refused with
  | some error => exact Triple.throw fun _ hs => hs
  | none =>
    refine Triple.bind_get fun s hs => ?_
    cases Disk.remove path s.disk with
    | error fault =>
      refine Triple.throw fun s' hs' => ?_
      rw [hs']
      exact hs
    | ok d => exact change_triple fun _ _ => True.intro

theorem restoreSlot_safe (captureResult : Except String Unit) :
    Triple (Holds u saved) (restoreSlot u saved captureResult) (fun _ => Safe u c₀)
      (fun _ => Safe u c₀) := by
  rw [restoreSlot]
  refine Triple.bind (Q := fun r s => (r.1 = [] → r.2 = true) ∧ Holds u saved s) ?_ fun r =>
    Triple.assume fun hrestored => ?_
  · intro s hs
    obtain ⟨original, hhead, -⟩ := hs.complete
    obtain ⟨rest, hsaved⟩ := List.head?_eq_some_iff.1 hhead
    exact (restoreAll_held hsaved).of_never s hs
  refine Triple.bind (finalPass_held hrestored).of_never fun failures => ?_
  split_ifs with hfailures
  · exact Triple.throw fun s hs => hs.1.safe
  rw [not_not] at hfailures
  refine Triple.bind (Q := fun removed s => ∃ disk, Held u saved s.moments disk ∧
    (∃ earlier final, s.moments = earlier ++ final ∧ List.Forall₂ Checked saved final) ∧
    (removed ≠ .ok () → s.host.disk = disk)) ?_ fun removed => ?_
  · rintro s ⟨hs, hchecked⟩
    rcases (removeFile_spec u.env u.removal u.recoveryPath).outcome (s := s.host) rfl with
      ⟨v, host, ho, -⟩ | ⟨e, host, ho, hdisk⟩
    · rw [onHost, ho]
      exact ⟨s.host.disk, hs, hchecked hfailures, fun h => absurd rfl h⟩
    · rw [onHost, ho]
      exact ⟨s.host.disk, hs, hchecked hfailures, fun _ => hdisk⟩
  cases removed with
  | error e =>
    refine Triple.bind (Q := fun _ => Holds u saved) ?_ fun _ => Triple.throw fun s hs => hs.safe
    rintro s ⟨disk, hs, -, hdisk⟩
    obtain rfl := hdisk (fun h => by cases h)
    exact hs.plain rfl
  | ok v =>
    refine Triple.bind (Q := fun _ => Safe u c₀) ?_ fun _ => ?_
    · rintro s ⟨disk, hs, hchecked, -⟩
      refine ⟨hs.remove hchecked, fun _ hpresent => ?_, fun hnone => ?_⟩
      · exact absurd rfl (hpresent _ (List.mem_append_right _ List.mem_cons_self))
      · obtain ⟨m, hm, hpub⟩ := hs.published
        exact absurd hpub (hnone m (List.mem_append_left _ hm))
    · exact Triple.bind (Triple.pure fun _ hs => hs) fun _ =>
        orFail_spec (fun _ _ _ hs => hs) fun _ _ _ hs => hs

/-- **A capture keeps its recovery file**, whatever the console and the file system do. -/
theorem captureModelSlot_safe (u : Setup) (models : List String) (console : Console) (host : Host)
    (captured : List (String × Snap)) :
    Safe u console (outcome (captureModelSlot u models) ⟨console, host, captured, []⟩).2 := by
  have hrun : Triple (Snapshotting console []) (captureModelSlot u models) (fun _ => Safe u console)
      (fun _ => Safe u console) := by
    rw [captureModelSlot]
    refine Triple.bind (takeSnapshot_spec.conseq (fun _ h => h) (fun _ _ h => h)
      fun _ _ h => h.safe) fun saved => ?_
    refine Triple.bind_attempt ((captureModels_held models).conseq (fun _ hs => hs.held)
      (fun _ _ hs => hs) fun _ _ hs => hs) (fun _ => restoreSlot_safe _) fun _ => restoreSlot_safe _
  rcases hrun.outcome (s := ⟨console, host, captured, []⟩) ⟨rfl, .refl console⟩ with
    ⟨_, s, ho, hs⟩ | ⟨_, s, ho, hs⟩
  · rw [ho]
    exact hs
  · rw [ho]
    exact hs

end Wingdrive

end LibWing
