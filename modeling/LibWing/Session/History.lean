import LibWing.Session.Machine

/-!
# What the log says

Every event of the log is justified by the events before it.

* `published`, `swaps`, `latest` : what a log has to say about the sessions;
* `Alone`, `FromSession` : a reader that has only ever known one session, and results that such a
  reader can return;
* `EventOk`, `LogOk` : what an event means, and that every event of a log means it.
-/

namespace LibWing

open Stateful

namespace Session

/-! ### Sessions -/

def Happening.isPublished : Happening → Bool
  | .published .. => true
  | _ => false

def Happening.isSwapped : Happening → Bool
  | .swapped .. => true
  | _ => false

/-- The id of a subscription on a session, and how far the reconnect had come then. -/
def Happening.subscription (session : ℕ) : Happening → Option (UInt16 × Phase)
  | .subscribed k id phase => if k = session then some (id, phase) else none
  | _ => none

/-- How many sessions were published. -/
def published (log : List Event) : ℕ := log.countP (·.happening.isPublished)

/-- How many times streams were swapped in. -/
def swaps (log : List Event) : ℕ := log.countP (·.happening.isSwapped)

/-- The latest subscription that was written on a session. -/
def latest (log : List Event) (session : ℕ) : Option (UInt16 × Phase) :=
  (log.filterMap (·.happening.subscription session)).getLast?

/-- Its id. -/
def latestId (log : List Event) (session : ℕ) : Option UInt16 := (latest log session).map (·.1)

/-- The id that outlives the reset of the meters: a subscription that was written between the swap
and the reset is forgotten. -/
def keptId (log : List Event) (session : ℕ) : Option UInt16 :=
  match latest log session with
  | some (_, .swapped) => none
  | some (id, _) => some id
  | none => none

variable {log log' new : List Event} {e : Event} {t : ℕ} {h : Happening}

theorem published_snoc :
    published (log ++ [⟨t, h⟩]) = published log + h.isPublished.toNat := by
  rw [published, List.countP_append, List.countP_singleton, published]
  cases h.isPublished <;> rfl

theorem swaps_snoc : swaps (log ++ [⟨t, h⟩]) = swaps log + h.isSwapped.toNat := by
  rw [swaps, List.countP_append, List.countP_singleton, swaps]
  cases h.isSwapped <;> rfl

theorem published_take_le (n : ℕ) : published (log.take n) ≤ published log :=
  (List.take_sublist n log).countP_le

theorem swaps_take_le (n : ℕ) : swaps (log.take n) ≤ swaps log :=
  (List.take_sublist n log).countP_le

/-- Up to a later place there are at least as many, … -/
theorem countP_take_mono (pred : Event → Bool) {i j : ℕ} (hij : i ≤ j) :
    (log.take i).countP pred ≤ (log.take j).countP pred := by
  have htake : (log.take j).take i = log.take i := by rw [List.take_take, Nat.min_eq_left hij]
  rw [← htake]
  exact (List.take_sublist i _).countP_le

theorem countP_take_succ (pred : Event → Bool) {i : ℕ} (hi : log[i]? = some e) :
    (log.take (i + 1)).countP pred = (log.take i).countP pred + (pred e).toNat := by
  rw [List.take_add_one, hi, List.countP_append]
  cases hpred : pred e <;> simp [hpred]

/-- … and more, if there is one in between. -/
theorem countP_take_lt (pred : Event → Bool) {i j : ℕ} (hi : log[i]? = some e)
    (hpred : pred e = true)
    (hij : i < j) : (log.take i).countP pred < (log.take j).countP pred := by
  have hsucc := countP_take_succ pred hi
  rw [hpred] at hsucc
  have hmono : (log.take (i + 1)).countP pred ≤ (log.take j).countP pred :=
    countP_take_mono pred hij
  rw [hsucc] at hmono
  exact hmono

/-- More up to a later place: there is one in between. -/
theorem exists_of_countP_take_lt (pred : Event → Bool) {i j : ℕ} (hij : i ≤ j)
    (hlt : (log.take i).countP pred < (log.take j).countP pred) :
    ∃ q e, i ≤ q ∧ q < j ∧ log[q]? = some e ∧ pred e = true := by
  induction j, hij using Nat.le_induction with
  | base => exact absurd hlt (Nat.lt_irrefl _)
  | succ j hij ih =>
    by_cases hbefore : (log.take i).countP pred < (log.take j).countP pred
    · obtain ⟨q, e, hiq, hqj, hq⟩ := ih hbefore
      exact ⟨q, e, hiq, hqj.trans (Nat.lt_succ_self j), hq⟩
    · -- The last event made the difference.
      cases hj : log[j]? with
      | none =>
        rw [List.take_add_one, hj, Option.toList_none, List.append_nil] at hlt
        exact absurd hlt hbefore
      | some e =>
        rw [countP_take_succ pred hj] at hlt
        cases hpred : pred e with
        | true => exact ⟨j, e, hij, Nat.lt_succ_self j, hj, hpred⟩
        | false =>
          rw [hpred] at hlt
          exact absurd hlt hbefore

theorem latest_snoc (k : ℕ) :
    latest (log ++ [⟨t, h⟩]) k = (h.subscription k).or (latest log k) := by
  rw [latest, List.filterMap_append, List.getLast?_append]
  cases hs : h.subscription k with
  | none => simp [hs, latest]
  | some id => simp [hs]

/-- Other events do not matter to it. -/
theorem keptId_snoc {k : ℕ} (hsub : h.subscription k = none) :
    keptId (log ++ [⟨t, h⟩]) k = keptId log k := by
  rw [keptId, latest_snoc, hsub, Option.none_or]
  rfl

/-- What is kept is the latest subscription, … -/
theorem latestId_of_keptId {k : ℕ} {id : UInt16} (hkept : keptId log k = some id) :
    latestId log k = some id := by
  rw [latestId]
  rcases hl : latest log k with - | ⟨id', phase⟩
  · rw [keptId, hl] at hkept
    cases hkept
  · rw [keptId, hl] at hkept
    cases phase
    case swapped => cases hkept
    all_goals exact hkept

/-- … unless that was written between the swap and the reset. -/
theorem keptId_eq_latestId_iff {k : ℕ} :
    keptId log k = latestId log k ↔ ∀ id, latest log k ≠ some (id, .swapped) := by
  constructor
  · intro heq id hlatest
    rw [keptId, latestId, hlatest] at heq
    cases heq
  · intro hne
    rw [keptId, latestId]
    rcases hl : latest log k with - | ⟨id, phase⟩
    · rfl
    · cases phase
      case swapped => exact absurd hl (hne id)
      all_goals rfl

/-! ### A session by itself -/

/-- The states of a reader that has only ever known the session over `rsock`, which was put in place
at time `now`. -/
inductive Alone (now : Time) (rsock : List Poll) : Console → Prop
  | new : Alone now rsock (.new now rsock)
  /-- A call, in any world; the taint is stored by itself. -/
  | call {c : Console} (w : World) (call : Console.ReaderCall) : Alone now rsock c →
      Alone now rsock { (outcome (call.run w) c).2 with streamTainted := c.streamTainted }
  | taint {c : Console} : Alone now rsock c → Alone now rsock { c with streamTainted := true }
  | keepAlive {c : Console} (w : World) : Alone now rsock c →
      Alone now rsock (outcome (Console.keepAlive w) c).2
  /-- Another clone writes. -/
  | write {c : Console} (bytes : List UInt8) : Alone now rsock c →
      Alone now rsock { c with wsock := c.wsock ++ [bytes] }

/-- A result that a reader of a session can return without ever having known another one. -/
def FromSession (log : List Event) (session : ℕ) (call : Console.ReaderCall)
    (result : Except Error Console.Reply) : Prop :=
  ∃ t since now rsock, ⟨t, .swapped since session now rsock⟩ ∈ log ∧
    ∃ w c, Alone now rsock c ∧ (outcome (call.run w) c).1 = result

theorem FromSession.append {session : ℕ} {call : Console.ReaderCall}
    {result : Except Error Console.Reply} (hfrom : FromSession log session call result) :
    FromSession (log ++ new) session call result := by
  obtain ⟨t, since, now, rsock, hmem, halone⟩ := hfrom
  exact ⟨t, since, now, rsock, List.mem_append_left _ hmem, halone⟩

/-! ### What events mean -/

/-- What an event of thread `t` means after the events `before`. -/
def EventOk (before : List Event) (t : ℕ) : Happening → Prop
  | .sampled generation => generation = published before
  | .swapped since session _ _ =>
    session = swaps before + 1 ∧ swaps before = published before ∧
      before[since]? = some ⟨t, .sampled (published before)⟩
  | .published since session =>
    session = published before + 1 ∧ ∃ now rsock, ⟨t, .swapped since session now rsock⟩ ∈ before
  | .reconnected since attempts session =>
    session = published before ∧
      (attempts = 0 → (∃ g, before[since]? = some ⟨t, .sampled g⟩ ∧ g < published before) ∧
        ∀ k, ⟨t, .published since k⟩ ∉ before) ∧
      (attempts ≠ 0 → ⟨t, .published since session⟩ ∈ before)
  | .reconnectFailed _ _ => True
  | .tainted _ _ call result =>
    (∃ id timeout, call = .getBinaryNode id timeout) ∧ result = .error .timeout
  | .returned since session call result =>
    since ≤ before.length ∧ published (before.take since) ≤ session ∧
      (1 ≤ session → FromSession before session call result)
  | .bulkBegan generation session => generation = published before ∧ session = swaps before
  | .handed since session reconnecting streamTainted _ =>
    session = swaps before ∧ reconnecting = false ∧ streamTainted = false ∧
      ∃ g, before[since]? = some ⟨t, .bulkBegan g session⟩
  | .unwritten since _ =>
    (∃ g k, before[since]? = some ⟨t, .bulkBegan g k⟩) ∧
      ∀ results, ⟨t, .bulkReturned since results⟩ ∉ before
  | .bulkReturned since results =>
    (∃ g k, before[since]? = some ⟨t, .bulkBegan g k⟩) ∧
      ∀ slots, ⟨t, .unwritten since slots⟩ ∈ before → ∀ j ∈ slots, ∃ e, results[j]? =
        some (.error e)
  | .subscribed session _ _ => session = swaps before
  | .renewed session id phase => phase ≠ .swapped → latestId before session = some id

/-- Every event of the log is justified by the events before it. -/
def LogOk (log : List Event) : Prop :=
  ∀ p e, log[p]? = some e → EventOk (log.take p) e.thread e.happening

theorem logOk_nil : LogOk [] := by
  intro p e hp
  cases hp

theorem LogOk.append (hlog : LogOk log) (he : EventOk log t h) : LogOk (log ++ [⟨t, h⟩]) := by
  intro p e hp
  rcases Nat.lt_or_ge p log.length with hlt | hge
  · rw [List.getElem?_append_left hlt] at hp
    rw [List.take_append_of_le_length hlt.le]
    exact hlog p e hp
  · rw [List.getElem?_append_right hge] at hp
    obtain ⟨heq, rfl⟩ : p = log.length ∧ e = ⟨t, h⟩ := by
      obtain ⟨hzero, hval⟩ := List.getElem?_eq_some_iff.mp hp
      rw [List.length_singleton] at hzero
      have hsub : p - log.length = 0 := Nat.lt_one_iff.mp hzero
      exact ⟨by omega, by simpa [hsub] using hval.symm⟩
    rw [heq, List.take_left]
    exact he

/-- An event of the log, with the events before it. -/
theorem LogOk.of_mem (hlog : LogOk log) (hmem : ⟨t, h⟩ ∈ log) :
    ∃ p, log[p]? = some ⟨t, h⟩ ∧ EventOk (log.take p) t h := by
  obtain ⟨p, hp⟩ := List.mem_iff_getElem?.mp hmem
  exact ⟨p, hp, hlog p _ hp⟩

/-- What is put down stands where it stood. -/
theorem getElem?_append {α : Type} {l new : List α} {j : ℕ} {a : α} (hs : l[j]? = some a) :
    (l ++ new)[j]? = some a := by
  obtain ⟨hlt, -⟩ := List.getElem?_eq_some_iff.mp hs
  rw [List.getElem?_append_left hlt]
  exact hs

/-- A call that published a session began before. -/
theorem LogOk.published_since (hlog : LogOk log) {since k : ℕ}
    (hmem : ⟨t, .published since k⟩ ∈ log) :
    since < log.length := by
  obtain ⟨p, hp, -, now, rsock, hswapped⟩ := hlog.of_mem hmem
  obtain ⟨q, -, -, -, hsampled⟩ := hlog.of_mem (List.mem_of_mem_take hswapped)
  obtain ⟨hlt, -⟩ := List.getElem?_eq_some_iff.mp hsampled
  exact hlt.trans_le (List.length_take_le' q log)

theorem LogOk.unwritten_since (hlog : LogOk log) {since : ℕ} {slots : List ℕ}
    (hmem : ⟨t, .unwritten since slots⟩ ∈ log) : since < log.length := by
  obtain ⟨p, -, ⟨g, k, hbegan⟩, -⟩ := hlog.of_mem hmem
  obtain ⟨hlt, -⟩ := List.getElem?_eq_some_iff.mp hbegan
  exact hlt.trans_le (List.length_take_le' p log)

theorem LogOk.bulkReturned_since (hlog : LogOk log) {since : ℕ} {results : List (Result Unit)}
    (hmem : ⟨t, .bulkReturned since results⟩ ∈ log) : since < log.length := by
  obtain ⟨p, -, ⟨g, k, hbegan⟩, -⟩ := hlog.of_mem hmem
  obtain ⟨hlt, -⟩ := List.getElem?_eq_some_iff.mp hbegan
  exact hlt.trans_le (List.length_take_le' p log)

/-- The subscriptions of a log are on sessions that have been put in place. -/
theorem LogOk.subscription_le (hlog : LogOk log) {k : ℕ} (hk : swaps log < k) :
    latest log k = none := by
  rw [latest, List.getLast?_eq_none_iff, List.filterMap_eq_nil_iff]
  rintro ⟨t, h⟩ hmem
  cases h with
  | subscribed session id phase =>
    obtain ⟨p, -, hsession⟩ := hlog.of_mem hmem
    have hle : session ≤ swaps log :=
      (show session = swaps (log.take p) from hsession) ▸ swaps_take_le p
    simp only [Happening.subscription]
    rw [if_neg (by omega)]
  | _ => rfl

end Session

end LibWing
