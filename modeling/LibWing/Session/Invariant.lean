import LibWing.Session.History

/-!
# The invariant of the session machine

* `Inv` : how the shared state and the log hang together, and that the log is justified;
* `Rely`, `Guar` : what a thread may count on while the others run, and what it owes them.  The
  holder of a gate finds what the gate protects as it left it;
* `Inv.record`, `Inv.reader_changed`, … : the invariant along the sections that change little.
-/

namespace LibWing

open Interleave Stateful

namespace Session

/-- Between the swap of the streams and the publication of the session. -/
def Phase.between : Phase → Bool
  | .swapped | .metersReset => true
  | _ => false

/-- A reader whose taint, between a swap and the publication, is that of the old session. -/
def Shared.ownReader (s : Shared) : Console :=
  { s.reader with streamTainted := s.reader.streamTainted && !s.phase.between }

/-- The invariant of the machine. -/
structure Inv (s : Shared) : Prop where
  /-- The log is well formed. -/
  log : LogOk s.log
  /-- The generation counts the sessions that were published. -/
  generation : s.sessionGeneration = published s.log
  /-- The swaps of the streams are counted. -/
  installed : s.installed = swaps s.log
  /-- A session that is installed is published, unless a reconnect is in between. -/
  balance : s.installed = s.sessionGeneration + s.phase.between.toNat
  /-- The flag is set while a reconnect is going on. -/
  reconnecting : s.reconnecting = decide (s.phase ≠ .idle)
  /-- A reconnect that has announced itself holds its gate, … -/
  reconnectGate : s.phase ≠ .idle → s.reconnectGate ≠ none
  /-- … and from the swap to the publication also the read gate. -/
  readGate : s.phase.between = true → s.readGate = s.reconnectGate
  /-- No raw capture is going on between sections. -/
  capture : s.reader.main.capture = none
  /-- The reader only knows the session that is in place. -/
  reader : 1 ≤ s.installed → ∃ t since now rsock,
    ⟨t, .swapped since s.installed now rsock⟩ ∈ s.log ∧ Alone now rsock s.ownReader
  /-- The stream was tainted by a call on the session that is published. -/
  tainted : s.reader.streamTainted = true → ∃ t since call result,
    ⟨t, .tainted since s.sessionGeneration call result⟩ ∈ s.log
  /-- A bulk call that began between a swap and the publication does not write any more. -/
  homes : ∀ t g k, ⟨t, .bulkBegan g k⟩ ∈ s.log →
    k = g ∨ g < s.sessionGeneration ∨ s.phase.between = true
  /-- The meters renew the subscription that is kept, … -/
  meters : s.phase ≠ .swapped → s.mtrs.activeMeterId = keptId s.log s.installed
  /-- … and none is kept on a session whose meters have not been reset. -/
  unsubscribed : s.phase = .swapped → keptId s.log s.installed = none

/-- What thread `t` may count on while the others run. -/
structure Rely (t : ℕ) (s s' : Shared) : Prop where
  /-- The others put down only what they do. -/
  log : ∃ new, s'.log = s.log ++ new ∧ ∀ e ∈ new, e.thread ≠ t
  /-- Generations do not go back. -/
  generation : s.sessionGeneration ≤ s'.sessionGeneration
  /-- They leave the reconnect gate to whom it belongs. -/
  reconnectGate : s'.reconnectGate = some t ↔ s.reconnectGate = some t
  /-- And the read gate. -/
  readGate : s'.readGate = some t ↔ s.readGate = some t
  /-- Who holds the reconnect gate reconnects alone. -/
  reconnect : s.reconnectGate = some t → s'.phase = s.phase ∧
    s'.sessionGeneration = s.sessionGeneration ∧ s'.installed = s.installed
  /-- Who holds the read gate keeps the streams. -/
  reading : s.readGate = some t → s'.installed = s.installed

/-- What thread `t` owes the others. -/
def Guar (t : ℕ) (s s' : Shared) : Prop := Inv s' ∧ ∀ t' ≠ t, Rely t' s s'

/-- A thread between two calls holds no gate. -/
def Resting (t : ℕ) (s : Shared) : Prop := s.reconnectGate ≠ some t ∧ s.readGate ≠ some t

/-- A proof outline of a thread's program. -/
abbrev ThreadOutline {α : Type} (t : ℕ) (Q : α → Shared → Prop) (p : Thread α)
    (P : Shared → Prop) : Prop :=
  Outline Inv (Rely t) (Guar t) Q p P

variable {s s' : Shared} {t : ℕ}

/-! ### What stays the same -/

/-- The phase, the sessions and the gates of other threads than `t` are untouched. -/
structure Quiet (t : ℕ) (s s' : Shared) : Prop where
  /-- It leaves the reconnect gate of the others. -/
  reconnectGate : ∀ t' ≠ t, (s'.reconnectGate = some t' ↔ s.reconnectGate = some t')
  /-- And the read gate. -/
  readGate : ∀ t' ≠ t, (s'.readGate = some t' ↔ s.readGate = some t')
  /-- The reconnect stands where it did. -/
  phase : s'.phase = s.phase
  /-- The session is the same. -/
  sessionGeneration : s'.sessionGeneration = s.sessionGeneration
  /-- The streams are the same. -/
  installed : s'.installed = s.installed

/-- A section that touches none of these, and puts down only what its own thread did, disturbs
nobody. -/
theorem Quiet.rely (h : Quiet t s s') {new : List Event} (hlog : s'.log = s.log ++ new)
    (hnew : ∀ e ∈ new, e.thread = t) : ∀ t' ≠ t, Rely t' s s' := by
  intro t' ht
  exact {
    log := ⟨new, hlog, fun e he => by rw [hnew e he]; exact ht.symm⟩
    generation := h.sessionGeneration.ge
    reconnectGate := h.reconnectGate t' ht
    readGate := h.readGate t' ht
    reconnect := fun _ => ⟨h.phase, h.sessionGeneration, h.installed⟩
    reading := fun _ => h.installed }

/-- The thread that holds the reconnect gate disturbs nobody, as long as it only swaps streams with
the read gate in hand. -/
theorem rely_of_holder (hgate : s.reconnectGate = some t) (hgate' : s'.reconnectGate = some t)
    (hread : s'.readGate = s.readGate) (hgen : s.sessionGeneration ≤ s'.sessionGeneration)
    (hinstalled : s.readGate = some t ∨ s'.installed = s.installed) {new : List Event}
    (hlog : s'.log = s.log ++ new) (hnew : ∀ e ∈ new, e.thread = t) : ∀ t' ≠ t, Rely t' s s' := by
  intro t' ht
  have hother : ∀ {gate : Option ℕ}, gate = some t → gate ≠ some t' := by
    intro gate hown heq
    exact ht (Option.some.inj (heq.symm.trans hown))
  exact {
    log := ⟨new, hlog, fun e he => by rw [hnew e he]; exact ht.symm⟩
    generation := hgen
    reconnectGate := iff_of_false (hother hgate') (hother hgate)
    readGate := by rw [hread]
    reconnect := fun hown => absurd hown (hother hgate)
    reading := by
      intro hown
      rcases hinstalled with hmine | heq
      · exact absurd hown (hother hmine)
      · exact heq }

theorem Rely.refl (t : ℕ) (s : Shared) : Rely t s s where
  log := ⟨[], (List.append_nil _).symm, fun _ he => absurd he List.not_mem_nil⟩
  generation := le_rfl
  reconnectGate := Iff.rfl
  readGate := Iff.rfl
  reconnect := fun _ => ⟨rfl, rfl, rfl⟩
  reading := fun _ => rfl

/-- An ordinary event says nothing about sessions, bulk calls or subscriptions. -/
def Happening.ordinary : Happening → Bool
  | .swapped .. | .published .. | .bulkBegan .. | .subscribed .. => false
  | _ => true

theorem Happening.ordinary_says {e : Happening} (h : e.ordinary = true) :
    e.isPublished = false ∧ e.isSwapped = false ∧ (∀ k, e.subscription k = none) ∧
      ∀ g k, e ≠ .bulkBegan g k := by
  cases e
  case swapped => cases h
  case published => cases h
  case bulkBegan => cases h
  case subscribed => cases h
  all_goals exact ⟨rfl, rfl, fun _ => rfl, nofun⟩

/-- Putting an event down that is not about the sessions themselves, and changing the meters with
it. -/
theorem Inv.extend (h : Inv s) (m : Meters) {e : Happening} (hpub : e.isPublished = false)
    (hswap : e.isSwapped = false) (he : EventOk s.log t e)
    (hhome : ∀ g k, e = .bulkBegan g k → k = g ∨ g < s.sessionGeneration ∨ s.phase.between = true)
    (hmeters : s.phase ≠ .swapped → m.activeMeterId = keptId (s.log ++ [⟨t, e⟩]) s.installed)
    (hunsub : s.phase = .swapped → keptId (s.log ++ [⟨t, e⟩]) s.installed = none) :
    Inv ({ s with mtrs := m }.record t e) where
  log := h.log.append he
  generation := by
    rw [Shared.record, published_snoc, hpub]
    exact h.generation
  installed := by
    rw [Shared.record, swaps_snoc, hswap]
    exact h.installed
  balance := h.balance
  reconnecting := h.reconnecting
  reconnectGate := h.reconnectGate
  readGate := h.readGate
  capture := h.capture
  reader := by
    intro hk
    obtain ⟨t', since, now, rsock, hmem, halone⟩ := h.reader hk
    exact ⟨t', since, now, rsock, List.mem_append_left _ hmem, halone⟩
  tainted := by
    intro ht
    obtain ⟨t', since, call, result, hmem⟩ := h.tainted ht
    exact ⟨t', since, call, result, List.mem_append_left _ hmem⟩
  homes := by
    intro t' g k hmem
    rcases List.mem_append.mp hmem with hmem | hmem
    · exact h.homes t' g k hmem
    · have heq := List.mem_singleton.mp hmem
      exact hhome g k (congrArg Event.happening heq).symm
  meters := hmeters
  unsubscribed := hunsub

/-- Putting an ordinary event down. -/
theorem Inv.record (h : Inv s) {e : Happening} (hord : e.ordinary = true) (he : EventOk s.log t e) :
    Inv (s.record t e) := by
  obtain ⟨hpub, hswap, hsub, hbulk⟩ := Happening.ordinary_says hord
  have hkept : keptId (s.log ++ [⟨t, e⟩]) s.installed = keptId s.log s.installed :=
    keptId_snoc (hsub s.installed)
  refine h.extend s.mtrs hpub hswap he (fun g k hgk => absurd hgk (hbulk g k)) ?_ ?_
  · exact fun hphase => (h.meters hphase).trans hkept.symm
  · exact fun hphase => hkept.trans (h.unsubscribed hphase)

/-- The reader moves on within its session. -/
theorem Inv.reader_changed (h : Inv s) {c : Console} (hcap : c.main.capture = none)
    (htaint : c.streamTainted = s.reader.streamTainted)
    (halone : ∀ {now rsock}, Alone now rsock s.ownReader →
      Alone now rsock { c with streamTainted := c.streamTainted && !s.phase.between }) :
    Inv { s with reader := c } :=
  { h with
    capture := hcap
    reader := by
      intro hk
      obtain ⟨t, since, now, rsock, hmem, hown⟩ := h.reader hk
      exact ⟨t, since, now, rsock, hmem, halone hown⟩
    tainted := fun ht => h.tainted (htaint ▸ ht) }

/-- Another clone writes to the session. -/
theorem Inv.write (h : Inv s) (bytes : List UInt8) : Inv (s.write bytes) :=
  h.reader_changed h.capture rfl fun hown => hown.write bytes

theorem ownReader_of_not_between (h : s.phase.between = false) : s.ownReader = s.reader := by
  rw [Shared.ownReader, h, Bool.not_false, Bool.and_true]

theorem ownReader_of_between (h : s.phase.between = true) :
    s.ownReader = { s.reader with streamTainted := false } := by
  rw [Shared.ownReader, h, Bool.not_true, Bool.and_false]

/-! ### The start, and the gates -/

theorem inv_new (now : Time) (rsock : List Poll) : Inv (.new now rsock) where
  log := logOk_nil
  generation := rfl
  installed := rfl
  balance := rfl
  reconnecting := rfl
  reconnectGate := fun h => absurd rfl h
  readGate := nofun
  capture := rfl
  reader := nofun
  tainted := nofun
  homes := fun _ _ _ h => absurd h List.not_mem_nil
  meters := fun _ => rfl
  unsubscribed := nofun

/-- Whoever holds the read gate without the reconnect gate is not between a swap and the
publication. -/
theorem Inv.not_between (h : Inv s) (hread : s.readGate = some t)
    (hrec : s.reconnectGate ≠ some t) :
    s.phase.between = false := by
  by_contra hbetween
  rw [Bool.not_eq_false] at hbetween
  exact hrec ((h.readGate hbetween).symm.trans hread)

theorem between_idle {p : Phase} (h : p = .idle) : p.between = false := by
  rw [h]
  rfl

theorem Inv.lock_reconnectGate (h : Inv s) (hfree : s.reconnectGate = none) :
    Inv { s with reconnectGate := some t } :=
  have hidle : s.phase = .idle := by
    by_contra hphase
    exact h.reconnectGate hphase hfree
  { h with
    reconnectGate := fun _ => Option.some_ne_none t
    readGate := fun hbetween => absurd (hbetween.symm.trans (between_idle hidle)) Bool.noConfusion }

theorem Inv.unlock_reconnectGate (h : Inv s) (hidle : s.phase = .idle) :
    Inv { s with reconnectGate := none } :=
  { h with
    reconnectGate := fun hphase => absurd hidle hphase
    readGate := fun hbetween => absurd (hbetween.symm.trans (between_idle hidle)) Bool.noConfusion }

/-- Nobody holds the read gate, so no reconnect is between its swap and its publication. -/
theorem Inv.not_between_of_free (h : Inv s) (hfree : s.readGate = none) :
    s.phase.between = false := by
  by_contra hbetween
  rw [Bool.not_eq_false] at hbetween
  have hphase : s.phase ≠ .idle := by
    intro hidle
    rw [between_idle hidle] at hbetween
    cases hbetween
  exact h.reconnectGate hphase ((h.readGate hbetween).symm.trans hfree)

theorem Inv.set_readGate (h : Inv s) (hbetween : s.phase.between = false) (holder : Option ℕ) :
    Inv { s with readGate := holder } :=
  { h with readGate := fun hb => absurd (hb.symm.trans hbetween) Bool.noConfusion }

/-! ### The sections of a reconnect -/

theorem Inv.announce (h : Inv s) (hgate : s.reconnectGate = some t) (hidle : s.phase = .idle) :
    Inv { s with reconnecting := true, phase := .announced } :=
  { h with
    balance := by
      rw [h.balance, hidle]
      rfl
    reconnecting := rfl
    reconnectGate := fun _ => by rw [hgate]; exact Option.some_ne_none t
    readGate := nofun
    reader := by
      intro hk
      obtain ⟨t', since, now, rsock, hmem, hown⟩ := h.reader hk
      refine ⟨t', since, now, rsock, hmem, ?_⟩
      rw [ownReader_of_not_between (between_idle hidle)] at hown
      rw [ownReader_of_not_between rfl]
      exact hown
    homes := by
      intro t' g k hmem
      rcases h.homes t' g k hmem with hk | hg | hbetween
      · exact Or.inl hk
      · exact Or.inr (Or.inl hg)
      · exact absurd (hbetween.symm.trans (between_idle hidle)) Bool.noConfusion
    meters := fun _ => h.meters (by rw [hidle]; exact Phase.noConfusion)
    unsubscribed := nofun }

theorem Inv.swap (h : Inv s) (hgate : s.reconnectGate = some t) (hread : s.readGate = some t)
    (hphase : s.phase = .announced) {since : ℕ}
    (hsampled : s.log[since]? = some ⟨t, .sampled s.sessionGeneration⟩) (now : Time)
    (rsock : List Poll) :
    Inv ({ s with
      reader := s.reader.swapIn now rsock
      installed := s.installed + 1
      phase := .swapped }.record t (.swapped since (s.installed + 1) now rsock)) := by
  have hbalance : s.installed = s.sessionGeneration := by
    rw [h.balance, hphase]
    rfl
  exact {
    log := by
      refine h.log.append ⟨by rw [h.installed], ?_, ?_⟩
      · rw [← h.installed, hbalance, h.generation]
      · rw [← h.generation]
        exact hsampled
    generation := by
      rw [Shared.record, published_snoc]
      exact h.generation
    installed := by
      rw [Shared.record, swaps_snoc]
      exact congrArg (· + 1) h.installed
    balance := congrArg (· + 1) hbalance
    reconnecting := by
      rw [Shared.record, h.reconnecting, hphase]
      rfl
    reconnectGate := fun _ => by rw [Shared.record, hgate]; exact Option.some_ne_none t
    readGate := fun _ => hread.trans hgate.symm
    capture := rfl
    reader := by
      intro _
      refine ⟨t, since, now, rsock, List.mem_append_right _ (List.mem_singleton_self _), ?_⟩
      -- The swap leaves nothing of the old session but the taint, which is not the new one's.
      rw [ownReader_of_between rfl]
      exact Alone.new
    tainted := by
      intro ht
      obtain ⟨t', since', call, result, hmem⟩ := h.tainted ht
      exact ⟨t', since', call, result, List.mem_append_left _ hmem⟩
    homes := fun _ _ _ _ => Or.inr (Or.inr rfl)
    meters := fun hne => absurd rfl hne
    unsubscribed := by
      intro _
      rw [Shared.record, keptId_snoc rfl, keptId,
        h.log.subscription_le (by rw [h.installed]; exact Nat.lt_succ_self _)] }

theorem Inv.resetMeters (h : Inv s) (hgate : s.reconnectGate = some t)
    (hphase : s.phase = .swapped) :
    Inv { s with mtrs := { s.mtrs with activeMeterId := none }, phase := .metersReset } :=
  { h with
    balance := by
      rw [h.balance, hphase]
      rfl
    reconnecting := by
      rw [h.reconnecting, hphase]
      rfl
    reconnectGate := fun _ => by rw [hgate]; exact Option.some_ne_none t
    readGate := fun _ => h.readGate (by rw [hphase]; rfl)
    reader := by
      intro hk
      obtain ⟨t', since, now, rsock, hmem, hown⟩ := h.reader hk
      refine ⟨t', since, now, rsock, hmem, ?_⟩
      rw [ownReader_of_between (by rw [hphase]; rfl)] at hown
      rw [ownReader_of_between rfl]
      exact hown
    homes := fun _ _ _ _ => Or.inr (Or.inr rfl)
    meters := fun _ => (h.unsubscribed hphase).symm
    unsubscribed := nofun }

theorem Inv.publish (h : Inv s) (hphase : s.phase = .metersReset) {since : ℕ} {now : Time}
    {rsock : List Poll} (hswapped : ⟨t, .swapped since s.installed now rsock⟩ ∈ s.log) :
    Inv ({ s with
      sessionGeneration := s.sessionGeneration + 1
      reader := { s.reader with streamTainted := false }
      reconnecting := false
      phase := .idle }.record t (.published since s.installed)) := by
  have hbalance : s.installed = s.sessionGeneration + 1 := by
    rw [h.balance, hphase]
    rfl
  exact {
    log := by
      refine h.log.append ⟨?_, now, rsock, hswapped⟩
      rw [← h.generation]
      exact hbalance
    generation := by
      rw [Shared.record, published_snoc]
      exact congrArg (· + 1) h.generation
    installed := by
      rw [Shared.record, swaps_snoc]
      exact h.installed
    balance := hbalance
    reconnecting := rfl
    reconnectGate := fun hne => absurd rfl hne
    readGate := nofun
    capture := h.capture
    reader := by
      intro hk
      obtain ⟨t', since', now', rsock', hmem, hown⟩ := h.reader hk
      refine ⟨t', since', now', rsock', List.mem_append_left _ hmem, ?_⟩
      rw [ownReader_of_between (by rw [hphase]; rfl)] at hown
      exact hown
    tainted := nofun
    homes := by
      intro t' g k hmem
      rcases List.mem_append.mp hmem with hmem | hmem
      · obtain ⟨p, -, hg, -⟩ := h.log.of_mem hmem
        have hle : g ≤ s.sessionGeneration := by
          rw [h.generation, hg]
          exact published_take_le p
        exact Or.inr (Or.inl (Nat.lt_succ_of_le hle))
      · cases List.mem_singleton.mp hmem
    meters := by
      intro _
      rw [Shared.record, keptId_snoc rfl]
      exact h.meters (by rw [hphase]; exact Phase.noConfusion)
    unsubscribed := nofun }

/-! ### The sections of a call under the read gate -/

theorem Inv.readerBody (h : Inv s) (hbetween : s.phase.between = false) (w : World)
    (call : Console.ReaderCall) :
    Inv { s with reader := { (outcome (call.run w) s.reader).2 with
      streamTainted := s.reader.streamTainted } } := by
  refine h.reader_changed (call.run_capture h.capture) rfl fun hown => ?_
  rw [ownReader_of_not_between hbetween] at hown
  rw [hbetween, Bool.not_false, Bool.and_true]
  exact hown.call w call

/-- What a call under the read gate returns comes from the session that is in place. -/
theorem Inv.fromSession (h : Inv s) (hbetween : s.phase.between = false) (w : World)
    (call : Console.ReaderCall) (hk : 1 ≤ s.installed) :
    FromSession s.log s.installed call (outcome (call.run w) s.reader).1 := by
  obtain ⟨t, since, now, rsock, hmem, hown⟩ := h.reader hk
  rw [ownReader_of_not_between hbetween] at hown
  exact ⟨t, since, now, rsock, hmem, w, s.reader, hown, rfl⟩

theorem Inv.taint (h : Inv s) (hbetween : s.phase.between = false) {since : ℕ}
    {call : Console.ReaderCall} {result : Except Error Console.Reply}
    (hcall : EventOk s.log t (.tainted since s.installed call result)) :
    Inv ({ s with reader := { s.reader with streamTainted := true } }.record t
      (.tainted since s.installed call result)) := by
  have hbalance : s.installed = s.sessionGeneration := by
    rw [h.balance, hbetween]
    rfl
  have hrecord := h.record rfl hcall
  exact { hrecord with
    reader := by
      intro hk
      obtain ⟨t', since', now, rsock, hmem, hown⟩ := hrecord.reader hk
      refine ⟨t', since', now, rsock, hmem, ?_⟩
      rw [ownReader_of_not_between (s := s.record t _) hbetween] at hown
      have hreader : ({ s with reader := { s.reader with streamTainted := true } }.record t
          (.tainted since s.installed call result)).ownReader =
          { s.reader with streamTainted := true } := ownReader_of_not_between hbetween
      rw [hreader]
      exact hown.taint
    tainted := by
      intro _
      refine ⟨t, since, call, result, List.mem_append_right _ (List.mem_singleton.mpr ?_)⟩
      rw [hbalance]
      rfl }

theorem keepAlive_run (w : World) (c : Console) : Console.keepAlive w c =
    if c.main.keepAliveTimer ≤ w.now c.tick then
      match w.write (c.tick + 1) with
      | .ok () => .ok () { c with
          main := { c.main with
            keepAliveTimer := w.now (c.tick + 2) + seconds dataKeepAliveSeconds }
          wsock := c.wsock ++ [[0xdf, 0xd1]]
          tick := c.tick + 3 }
      | .error kind => .error (.io kind) { c with tick := c.tick + 2 }
    else .ok () { c with tick := c.tick + 1 } := by
  have hstart : Console.keepAlive w c =
      (if c.main.keepAliveTimer ≤ w.now c.tick then do
        Console.writeAll w [0xdf, 0xd1]
        let now ← Console.instantNow w
        Console.modifyMain fun r =>
          { r with keepAliveTimer := now + seconds dataKeepAliveSeconds }
      else pure () : ConsoleM Unit) { c with tick := c.tick + 1 } := rfl
  rw [hstart]
  by_cases hdue : c.main.keepAliveTimer ≤ w.now c.tick
  · rw [if_pos hdue, if_pos hdue]
    cases hw : w.write (c.tick + 1) with
    | ok u => simp [Console.writeAll, hw, bind, EStateM.bind, Console.instantNow,
        Stateful.run_modifyGet, Console.modifyMain, Stateful.run_modify]
    | error kind => simp [Console.writeAll, hw, bind, EStateM.bind]
  · rw [if_neg hdue, if_neg hdue]
    rfl

theorem keepAlive_streamTainted (w : World) (c : Console) (b : Bool) :
    (outcome (Console.keepAlive w) { c with streamTainted := b }).2 =
      { (outcome (Console.keepAlive w) c).2 with streamTainted := b } := by
  simp only [outcome, keepAlive_run]
  by_cases hdue : c.main.keepAliveTimer ≤ w.now c.tick
  · cases hw : w.write (c.tick + 1) with
    | ok u => simp only [hdue, if_true]
    | error kind => simp only [hdue, if_true]
  · simp only [hdue, if_false]

theorem Inv.keepAlive (h : Inv s) (w : World) :
    Inv { s with reader := (outcome (Console.keepAlive w) s.reader).2 } := by
  have hticked : Console.Ticked s.reader (outcome (Console.keepAlive w) s.reader).2 := by
    rcases Console.keepAlive_spec.outcome (Console.Ticked.refl s.reader) with
      ⟨u, c, ho, ht⟩ | ⟨e, c, ho, ht, -⟩
    · rw [ho]
      exact ht
    · rw [ho]
      exact ht
  refine h.reader_changed (hticked.capture.trans h.capture) hticked.streamTainted fun hown => ?_
  rw [hticked.streamTainted, ← keepAlive_streamTainted]
  exact hown.keepAlive w

/-! ### The sections of a bulk write -/

theorem Inv.bulkBegan (h : Inv s) :
    Inv (s.record t (.bulkBegan s.sessionGeneration s.installed)) := by
  have hkept : keptId (s.log ++ [⟨t, .bulkBegan s.sessionGeneration s.installed⟩]) s.installed =
      keptId s.log s.installed := keptId_snoc rfl
  refine h.extend s.mtrs rfl rfl ⟨h.generation, h.installed⟩ ?_ ?_ ?_
  · rintro g k ⟨⟩
    cases hb : s.phase.between with
    | false =>
      refine Or.inl ?_
      rw [h.balance, hb]
      rfl
    | true => exact Or.inr (Or.inr rfl)
  · exact fun hphase => (h.meters hphase).trans hkept.symm
  · exact fun hphase => hkept.trans (h.unsubscribed hphase)

/-- A batch that passes the checks under the writer lock goes to the session that was in place when
its call began. -/
theorem Inv.home (h : Inv s) {since g k : ℕ} (hbegan : s.log[since]? = some ⟨t, .bulkBegan g k⟩)
    (hrec : s.reconnecting = false) (hgen : s.sessionGeneration = g) : k = s.installed := by
  have hidle : s.phase = .idle := by
    by_contra hphase
    rw [h.reconnecting, decide_eq_true hphase] at hrec
    cases hrec
  have hbetween := between_idle hidle
  rcases h.homes t g k (List.mem_of_getElem? hbegan) with hk | hlt | hb
  · rw [h.balance, hbetween, hk, hgen]
    rfl
  · omega
  · rw [hbetween] at hb
    cases hb

/-! ### The meters -/

/-- A subscription that reached the wire. -/
theorem Inv.subscribe (h : Inv s) (id : UInt16) (m : Meters) (hm : m.activeMeterId = some id) :
    Inv ({ s with mtrs := m }.record t (.subscribed s.installed id s.phase)) := by
  have hlatest : latest (s.log ++ [⟨t, .subscribed s.installed id s.phase⟩]) s.installed =
      some (id, s.phase) := by
    rw [latest_snoc]
    simp [Happening.subscription]
  refine h.extend m rfl rfl h.installed ?_ (fun hphase => ?_) fun hphase => ?_
  · intro generation k hbegan
    cases hbegan
  · -- The meters have been reset, so the subscription is there to stay.
    rw [hm, keptId, hlatest]
    cases hp : s.phase
    case swapped => exact absurd hp hphase
    all_goals rfl
  · rw [keptId, hlatest, hphase]

end Session

end LibWing
