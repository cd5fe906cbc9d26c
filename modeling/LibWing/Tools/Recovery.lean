import LibWing.Console.Steady
import LibWing.Tools.Published
import LibWing.Tools.Slot

/-!
# The recovery file of a slot

* `publishOutputs_one` : a publication of one output that succeeds leaves it;
* `Lists` : the contents of a recovery file, a line for each entry;
* `OnlyAsks` : what the console wrote was keepalives and requests for values;
* `takeSnapshot_spec` : the slot before the first selection, with its recovery file.
-/

namespace LibWing

open Stateful Files

/-! ### A publication of one output -/

namespace AtomicWrite

variable {env : Env} {temp path backup : FilePath} {contents : List UInt8} {n : UInt64}

theorem stagedName_ne (env : Env) (path : FilePath) (n : UInt64) (suffix : String) :
    stagedName env path n suffix ≠ path := by
  intro h
  have hlen := congrArg (fun p => p.fileName.length) h
  simp only [stagedName, String.length_append] at hlen
  have hdot : ".".length = 1 := rfl
  omega

theorem writeStaged_contents {i : ℕ} :
    Triple (fun _ => True) (writeStaged env i temp contents)
      (fun _ s => s.disk temp = some (.file contents)) (fun _ _ => True) := by
  rw [writeStaged]
  refine Triple.bind Triple.trivial fun _ => ?_
  cases env.refused (.write i) with
  | some error =>
    exact Triple.bind Triple.trivial fun _ => Triple.throw fun _ _ => trivial
  | none =>
    refine Triple.bind (Q := fun _ s => s.disk temp = some (.file contents))
      (change_triple fun s _ => Function.update_self ..) fun _ => ?_
    refine perform_triple (fun _ _ _ _ => trivial) (fun _ _ _ _ _ => trivial) ?_
    rintro s d hs - hd
    cases hd
    exact hs

theorem moveAside_contents {i : ℕ} (hne : temp ≠ path) :
    Triple (fun s => s.disk temp = some (.file contents)) (moveAside env i path backup)
      (fun _ s => s.disk temp = some (.file contents) ∧ backup ≠ path) (fun _ _ => True) := by
  rw [moveAside]
  refine Triple.bind (Q := fun _ s => s.disk temp = some (.file contents) ∧ backup ≠ path)
    (perform_triple (fun _ _ _ _ => trivial) (fun _ _ _ _ _ => trivial) ?_) fun _ => ?_
  · rintro s d hs - hd
    obtain ⟨old, hold, hnone, rfl⟩ := Disk.hardLink_eq_ok.1 hd
    have htemp : temp ≠ backup := by
      rintro rfl
      rw [hs] at hnone
      cases hnone
    have hbackup : backup ≠ path := by
      rintro rfl
      rw [hold] at hnone
      cases hnone
    refine ⟨?_, hbackup⟩
    rw [Host.moveTo_disk, Function.update_of_ne htemp]
    exact hs
  · refine Triple.bind_attempt (Q := fun _ s => s.disk temp = some (.file contents) ∧ backup ≠ path)
      (E := fun _ _ => True)
      (perform_triple (fun _ _ _ _ => trivial) (fun _ _ _ _ _ => trivial) ?_)
      (fun _ => Triple.pure fun _ hs => hs) fun error => ?_
    · rintro s d hs - hd
      obtain ⟨-, rfl⟩ := Disk.remove_eq_ok.1 hd
      refine ⟨?_, hs.2⟩
      rw [Host.moveTo_disk, Function.update_of_ne hne]
      exact hs.1
    · exact Triple.bind Triple.trivial fun _ => Triple.throw fun _ _ => trivial

theorem backupAll_contents {staged : List FilePath} (hne : temp ≠ path) :
    Triple (fun s => s.disk temp = some (.file contents))
      (backupAll env staged 0 [(path, contents)] [])
      (fun backups s => (∃ temp', [temp] = [temp'] ∧ s.disk temp' = some (.file contents)) ∧
        ∀ x ∈ backups, x.2 ≠ path) (fun _ _ => True) := by
  rw [backupAll]
  refine Triple.bind_get fun s hs => ?_
  split_ifs
  · refine Triple.bind (Q := fun _ s => s.disk temp = some (.file contents)) ?_ fun backup => ?_
    · rintro s' rfl
      exact hs
    refine Triple.bind_attempt (moveAside_contents hne) (fun _ => ?_) fun error => ?_
    · refine Triple.pure fun s hs => ⟨⟨temp, rfl, hs.1⟩, fun x hx => ?_⟩
      rw [List.nil_append] at hx
      rw [List.mem_singleton.1 hx]
      exact hs.2
    · exact Triple.bind Triple.trivial fun _ => Triple.bind Triple.trivial fun _ =>
        Triple.throw fun _ _ => trivial
  · refine Triple.pure fun s' hs' => ⟨⟨temp, rfl, ?_⟩, fun x hx => absurd hx List.not_mem_nil⟩
    rw [hs']
    exact hs

theorem publishAll_contents {backups : List (FilePath × FilePath)} {old : List UInt8} :
    Triple (fun s => s.disk temp = some (.file contents))
      (publishAll env backups 0 [] [((path, old), temp)])
      (fun _ s => s.disk path = some (.file contents)) (fun _ _ => True) := by
  rw [publishAll]
  refine Triple.bind_attempt (Q := fun _ s => s.disk path = some (.file contents))
    (E := fun _ _ => True) (perform_triple (fun _ _ _ _ => trivial) (fun _ _ _ _ _ => trivial) ?_)
    (fun _ => Triple.pure fun s hs => hs) fun error => ?_
  · rintro s d hs - hd
    obtain ⟨new, hnew, -, rfl⟩ := Disk.rename_eq_ok.1 hd
    rw [hs] at hnew
    cases hnew
    exact Function.update_self ..
  · exact Triple.bind Triple.trivial fun _ => Triple.bind Triple.trivial fun _ =>
      Triple.bind Triple.trivial fun _ => Triple.throw fun _ _ => trivial

theorem clearAll_contents {backups : List (FilePath × FilePath)} (h : ∀ x ∈ backups, x.2 ≠ path) :
    Triple (fun s => s.disk path = some (.file contents)) (clearAll env backups)
      (fun _ s => s.disk path = some (.file contents)) (fun _ _ => True) := by
  induction backups with
  | nil => exact Triple.pure fun s hs => hs
  | cons x backups ih =>
    obtain ⟨original, backup⟩ := x
    obtain ⟨hne, h⟩ := List.forall_mem_cons.1 h
    rw [clearAll]
    refine Triple.bind_attempt (Q := fun _ s => s.disk path = some (.file contents))
      (E := fun _ s => s.disk path = some (.file contents))
      (perform_triple (fun _ _ hs _ => hs) (fun _ _ hs _ _ => hs) ?_) (fun _ => ih h) fun _ => ih h
    rintro s d hs - hd
    obtain ⟨-, rfl⟩ := Disk.remove_eq_ok.1 hd
    rw [Host.moveTo_disk, Function.update_of_ne (Ne.symm hne)]
    exact hs

/-- **A publication of one output** that succeeds leaves it, whatever is refused. -/
theorem publishOutputs_one (env : Env) (path : FilePath) (contents : List UInt8) :
    Triple (fun _ => True) (publishOutputs env [(path, contents)])
      (fun _ s => s.disk path = some (.file contents)) (fun _ _ => True) := by
  rw [publishOutputs]
  refine Triple.bind Triple.trivial fun _ => ?_
  refine Triple.bind (Q := fun staged s => ∃ temp, staged = [temp] ∧ temp ≠ path ∧
    s.disk temp = some (.file contents)) ?_ fun staged => ?_
  · rw [stageAll]
    refine Triple.bind (Q := fun temp _ => temp ≠ path ∧ True)
      (fun s _ => ⟨stagedName_ne env path s.next _, True.intro⟩)
      fun temp => Triple.assume fun hne => ?_
    refine Triple.bind_attempt writeStaged_contents (fun _ => ?_) fun error => ?_
    · exact Triple.pure fun s hs => ⟨temp, rfl, hne, hs⟩
    · exact Triple.bind Triple.trivial fun _ => Triple.throw fun _ _ => trivial
  refine Triple.bind (Q := fun backups s => (∃ temp, staged = [temp] ∧
    s.disk temp = some (.file contents)) ∧ ∀ x ∈ backups, x.2 ≠ path) ?_ fun backups => ?_
  · intro s hs
    obtain ⟨temp, rfl, hne, hs⟩ := hs
    exact backupAll_contents hne s hs
  refine Triple.bind (Q := fun _ s => (∀ x ∈ backups, x.2 ≠ path) ∧
    s.disk path = some (.file contents)) ?_ fun _ => Triple.assume fun hbackups =>
      clearAll_contents hbackups
  rintro s ⟨⟨temp, rfl, hs⟩, hbackups⟩
  exact publishAll_contents.conseq (fun _ h => h) (fun _ _ h => ⟨hbackups, h⟩) (fun _ _ h => h) s hs

end AtomicWrite

/-! ### What the console writes -/

namespace Console

variable {w : World} {c₀ : Console}

/-- Since it was `c₀`, the console has written keepalives and requests for values. -/
def OnlyAsks (c₀ c : Console) : Prop :=
  ∃ sent, c.wsock = c₀.wsock ++ sent ∧
    ∀ message ∈ sent, message = handshake ∨ ∃ id, message = requestNodeDataMessage id

theorem OnlyAsks.refl (c : Console) : OnlyAsks c c :=
  ⟨[], (List.append_nil _).symm, fun _ h => absurd h List.not_mem_nil⟩

theorem OnlyAsks.write {c : Console} (h : OnlyAsks c₀ c) {message : List UInt8}
    (hmessage : message = handshake ∨ ∃ id, message = requestNodeDataMessage id) :
    OnlyAsks c₀ { c with wsock := c.wsock ++ [message] } := by
  obtain ⟨sent, hsent, hall⟩ := h
  refine ⟨sent ++ [message], ?_, fun m hm => ?_⟩
  · rw [hsent, List.append_assoc]
  · rcases List.mem_append.1 hm with hm | hm
    · exact hall m hm
    · rw [List.mem_singleton.1 hm]
      exact hmessage

theorem passive_onlyAsks (c₀ : Console) : Passive (OnlyAsks c₀) where
  main _ hc := hc
  tick hc := hc
  rsock _ _ hc := hc
  keepAlive hc := hc.write (Or.inl rfl)

theorem getNodeData_onlyAsks (id : Int32) (timeout : Time) :
    Keeps (OnlyAsks c₀) (getNodeData w id timeout) := by
  refine (passive_onlyAsks c₀).steady.attendedGet _ ?_ timeout
  refine Keeps.bind (ensureStreamUsable_keeps _) fun _ => fun c hc => ?_
  unfold writeAll
  cases w.write c.tick with
  | ok u => exact hc.write (Or.inr ⟨id, rfl⟩)
  | error kind => exact hc

end Console

namespace Wingdrive

open AtomicWrite Console

variable {u : Setup} {c₀ : Console} {saved : List Saved}

/-! ### What the file lists -/

/-- The contents have a line for each entry, in order, with its path and its value. -/
def Lists (t : Texts) (saved : List Saved) (contents : List UInt8) : Prop :=
  ∃ encoded, List.Forall₂ (fun (entry : Saved) e => encodeSnap t entry.value = some e)
    saved encoded ∧
    contents = utf8 (String.join
      (List.zipWith (fun (entry : Saved) e => pathLine entry.path e) saved encoded))

theorem encodeSnap_isSome {t : Texts} {value : Snap} (h : value.isFinite = true) :
    ∃ encoded, encodeSnap t value = some encoded := by
  cases value with
  | str s => exact ⟨_, rfl⟩
  | int i => exact ⟨_, rfl⟩
  | float f => exact ⟨_, if_pos h⟩

theorem lists_pathValues (t : Texts) (h : ∀ entry ∈ saved, entry.value.isFinite = true) :
    Lists t saved (utf8 (pathValues t (saved.map fun entry => (entry.path, entry.value)))) := by
  have hencoded : ∃ encoded, List.Forall₂
      (fun (entry : Saved) e => encodeSnap t entry.value = some e) saved encoded := by
    induction saved with
    | nil => exact ⟨[], .nil⟩
    | cons entry saved ih =>
      obtain ⟨hentry, h⟩ := List.forall_mem_cons.1 h
      obtain ⟨e, he⟩ := encodeSnap_isSome (t := t) hentry
      obtain ⟨encoded, hencoded⟩ := ih h
      exact ⟨e :: encoded, .cons he hencoded⟩
  obtain ⟨encoded, hencoded⟩ := hencoded
  refine ⟨encoded, hencoded, ?_⟩
  rw [pathValues_eq_join ((List.forall₂_map_left_iff).2 hencoded), List.zipWith_map_left]

/-! ### Taking the original values -/

/-- The entry that an action put into `saved`. -/
def Action.snapshotted : Action → Option Saved
  | .snapshot entry => some entry
  | _ => none

/-- The entries whose original values have been read. -/
def snapshots (moments : List Moment) : List Saved := moments.filterMap (·.action.snapshotted)

/-- While the original values are taken, nothing else is done. -/
structure Snapshotting (c₀ : Console) (saved : List Saved) (s : Drive) : Prop where
  /-- Values were saved, and nothing else was done. -/
  moments : s.moments.map Moment.action = saved.map .snapshot
  /-- The console was only asked. -/
  asks : OnlyAsks c₀ s.console

/-- The entries are the selector and the active leaves. -/
def Complete (u : Setup) (saved : List Saved) : Prop :=
  ∃ original, saved.head? = some ⟨u.mdlPath, u.mdlDef, .str original⟩ ∧
    saved.tail.map (fun entry => (entry.path, entry.definition)) = u.activeLeaves original

theorem call_getNodeData_spec (id : Int32) (timeout : Time) {w : World} :
    Triple (Snapshotting c₀ saved) (call (getNodeData w id timeout))
      (fun _ => Snapshotting c₀ saved) (fun _ _ => False) := by
  intro s hs
  exact ⟨hs.moments, (getNodeData_onlyAsks id timeout).outcome hs.asks⟩

theorem orFail_spec {ε α : Type} {P : Drive → Prop} {Q : α → Drive → Prop}
    {E : String → Drive → Prop}
    {text : ε → String} {result : Except ε α} (hok : ∀ a s, result = .ok a → P s → Q a s)
    (herror : ∀ e s, result = .error e → P s → E (text e) s) :
      Triple P (orFail text result) Q E := by
  cases result with
  | ok a => exact Triple.pure fun s hs => hok a s rfl hs
  | error e => exact Triple.throw fun s hs => herror e s rfl hs

theorem note_snapshot_spec (entry : Saved) :
    Triple (Snapshotting c₀ saved) (note (.snapshot entry))
      (fun _ => Snapshotting c₀ (saved ++ [entry])) (fun _ _ => False) := by
  intro s hs
  refine ⟨?_, hs.asks⟩
  rw [List.map_append, List.map_append, hs.moments]
  rfl

theorem snapshotLeaves_spec (leaves : List (String × WingNodeDef))
    (hfinite : ∀ entry ∈ saved, entry.value.isFinite = true) :
    Triple (Snapshotting c₀ saved) (snapshotLeaves u leaves saved)
      (fun saved' s => Snapshotting c₀ saved' s ∧
        (∀ entry ∈ saved', entry.value.isFinite = true) ∧
        ∃ more, saved' = saved ++ more ∧ more.map (fun e => (e.path, e.definition)) = leaves)
      (fun _ s => ∃ saved', Snapshotting c₀ saved' s) := by
  induction leaves generalizing saved with
  | nil => exact Triple.pure fun s hs => ⟨hs, hfinite, [], (List.append_nil _).symm, rfl⟩
  | cons leaf leaves ih =>
    obtain ⟨path, d⟩ := leaf
    rw [snapshotLeaves]
    refine Triple.bind (call_getNodeData_spec _ _).of_never fun result => ?_
    refine Triple.bind (orFail_spec (fun _ _ _ h => h) fun _ _ _ h => ⟨saved, h⟩) fun data => ?_
    refine Triple.bind (orFail_spec (fun _ _ _ h => h) fun _ _ _ h => ⟨saved, h⟩) fun value => ?_
    split_ifs with hvalue
    · refine Triple.bind (note_snapshot_spec _).of_never fun _ => ?_
      have hall : ∀ entry ∈ saved ++ [⟨path, d, value⟩], entry.value.isFinite = true := by
        intro entry hentry
        rcases List.mem_append.1 hentry with hentry | hentry
        · exact hfinite entry hentry
        · rw [List.mem_singleton.1 hentry]
          exact hvalue
      refine (ih hall).conseq (fun _ h => h) (fun saved' s hs => ?_) fun _ _ h => h
      obtain ⟨hs, hfinite', more, rfl, hmore⟩ := hs
      refine ⟨hs, hfinite', ⟨path, d, value⟩ :: more, ?_, ?_⟩
      · rw [List.append_assoc]
        rfl
      · rw [List.map_cons, hmore]
    · exact Triple.throw fun s hs => ⟨saved, hs⟩

/-- Before the first selection: the recovery file is written. -/
structure Ready (u : Setup) (saved : List Saved) (s : Drive) : Prop where
  /-- Values were saved, and then published. -/
  moments : s.moments.map Moment.action = saved.map .snapshot ++ [.published (.ok ())]
  /-- The recovery file lists them. -/
  listed : ∃ contents, s.host.disk u.recoveryPath = some (.file contents) ∧
    Lists u.texts saved contents
  /-- They are all that are needed. -/
  complete : Complete u saved

/-- The call fails before the recovery file is written. -/
structure Unsent (c₀ : Console) (s : Drive) : Prop where
  /-- Values were saved, and nothing was written to the console. -/
  moments : ∃ (saved : List Saved) (more : List Action),
    s.moments.map Moment.action = saved.map .snapshot ++ more ∧ ∀ action ∈ more, ∃ error, action =
    .published (.error error)
  /-- The console was only asked. -/
  asks : OnlyAsks c₀ s.console

theorem Snapshotting.unsent {s : Drive} (h : Snapshotting c₀ saved s) : Unsent c₀ s :=
  ⟨⟨saved, [], h.moments.trans (List.append_nil _).symm, fun _ h => absurd h List.not_mem_nil⟩,
    h.asks⟩

theorem onHost_spec {α : Type} {x : Publication α} {P : Host → Prop}
    {Q : Except IoError α → Host → Prop} {R : Console → List Moment → Prop}
    (hx : Triple P x (fun a => Q (.ok a)) fun e => Q (.error e)) :
    Triple (fun s => P s.host ∧ R s.console s.moments) (onHost x)
      (fun result s => Q result s.host ∧ R s.console s.moments) (fun _ _ => False) := by
  rintro s ⟨hp, hr⟩
  rcases hx.outcome hp with ⟨a, host, ho, hq⟩ | ⟨e, host, ho, hq⟩
  · rw [onHost, ho]
    exact ⟨hq, hr⟩
  · rw [onHost, ho]
    exact ⟨hq, hr⟩

theorem writePathValues_spec (t : Texts) (env : AtomicWrite.Env) (path : FilePath)
    (h : ∀ entry ∈ saved, entry.value.isFinite = true) :
    Triple (fun _ => True)
      (writePathValues t env path (saved.map fun entry => (entry.path, entry.value)))
      (fun _ s => ∃ contents, s.disk path = some (.file contents) ∧ Lists t saved contents)
      (fun _ _ => True) :=
  (publishOutputs_one env path _).conseq (fun _ h => h)
    (fun _ _ hs => ⟨_, hs, lists_pathValues t h⟩) fun _ _ h => h

theorem publishSaved_spec (hfinite : ∀ entry ∈ saved, entry.value.isFinite = true)
    (hcomplete : Complete u saved) :
    Triple (Snapshotting c₀ saved)
      (do
        let written ← onHost (writePathValues u.texts u.env u.recoveryPath
          (saved.map fun entry => (entry.path, entry.value)))
        note (.published written)
        orFail IoError.message written
        return saved)
      (fun saved => Ready u saved) (fun _ => Unsent c₀) := by
  have hhost := onHost_spec (R := fun c moments => OnlyAsks c₀ c ∧
      moments.map Moment.action = saved.map .snapshot)
    (Q := fun result s => ∀ v, result = .ok v → ∃ contents,
      s.disk u.recoveryPath = some (.file contents) ∧ Lists u.texts saved contents)
    ((writePathValues_spec u.texts u.env u.recoveryPath hfinite).conseq
      (fun _ h => h) (fun _ _ h _ _ => h) fun _ _ _ _ h => by cases h)
  refine Triple.bind ((hhost.conseq (fun s hs => ⟨True.intro, hs.asks, hs.moments⟩)
    (fun _ _ h => h) fun _ _ h => h).of_never) fun written => ?_
  refine Triple.bind (Q := fun _ s => (∀ v, written = .ok v → ∃ contents,
      s.host.disk u.recoveryPath = some (.file contents) ∧ Lists u.texts saved contents) ∧
      OnlyAsks c₀ s.console ∧
      s.moments.map Moment.action = saved.map .snapshot ++ [.published written]) ?_ fun _ => ?_
  · rintro s ⟨hlisted, hasks, hmoments⟩
    refine ⟨hlisted, hasks, ?_⟩
    rw [List.map_append, hmoments]
    rfl
  cases written with
  | ok v => exact Triple.pure fun s hs => ⟨hs.2.2, hs.1 v rfl, hcomplete⟩
  | error e =>
    refine Triple.throw fun s hs => ⟨⟨saved, _, hs.2.2, fun action haction => ⟨e, ?_⟩⟩, hs.2.1⟩
    exact List.mem_singleton.1 haction

/-- **Before the first selection** the recovery file is written, or the call fails and nothing has
been set. -/
theorem takeSnapshot_spec :
    Triple (Snapshotting c₀ []) (takeSnapshot u) (fun saved => Ready u saved)
      (fun _ => Unsent c₀) := by
  rw [takeSnapshot]
  refine Triple.bind (call_getNodeData_spec _ _).of_never fun result => ?_
  refine Triple.bind (orFail_spec (fun _ _ _ h => h) fun _ _ _ h => h.unsent) fun data => ?_
  refine Triple.bind (orFail_spec (fun _ _ _ h => h) fun _ _ _ h => h.unsent) fun original => ?_
  cases original with
  | float f => exact Triple.throw fun _ h => h.unsent
  | int i => exact Triple.throw fun _ h => h.unsent
  | str originalValue =>
    dsimp only
    split_ifs
    · exact Triple.throw fun _ h => h.unsent
    · refine Triple.bind (note_snapshot_spec _).of_never fun _ => ?_
      have hfinite : ∀ entry ∈ [(⟨u.mdlPath, u.mdlDef, .str originalValue⟩ : Saved)],
          entry.value.isFinite = true := by
        intro entry hentry
        rw [List.mem_singleton.1 hentry]
        rfl
      refine Triple.bind (Q := fun saved s => ((∀ entry ∈ saved, entry.value.isFinite = true) ∧
        Complete u saved) ∧ Snapshotting c₀ saved s)
        ((snapshotLeaves_spec _ hfinite).conseq (fun _ h => h) (fun saved s hs => ?_)
          fun _ _ hs => hs.elim fun _ hs => hs.unsent)
        fun saved => Triple.assume fun hsaved => publishSaved_spec hsaved.1 hsaved.2
      · obtain ⟨hs, hall, more, rfl, hmore⟩ := hs
        exact ⟨⟨hall, originalValue, rfl, hmore⟩, hs⟩
    · exact Triple.throw fun _ h => h.unsent

end Wingdrive

end LibWing
