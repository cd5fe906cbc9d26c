import LibWing.Session.Coalesce

/-!
# A new session knows nothing of the old ones

Once a reconnect has returned, calls that begin afterwards return nothing of an earlier session.

* `run_isolated` : what such a call returns, a reader returns that has only ever known the session
  in place; and the taint of a session ends with it.
-/

namespace LibWing

open Interleave

namespace Session

variable {log : List Event} {t since p : ℕ}

/-- A reconnect that returned after an attempt has published its session. -/
theorem LogOk.reconnected (hlog : LogOk log) {attempts session : ℕ}
    (hp : log[p]? = some ⟨t, .reconnected since attempts session⟩) (hattempts : 1 ≤ attempts) :
    session = published (log.take p) ∧ 1 ≤ session := by
  obtain ⟨hsession, -, hpublished⟩ := hlog p _ hp
  have hmem := hpublished (Nat.one_le_iff_ne_zero.mp hattempts)
  obtain ⟨q, hq⟩ := List.mem_iff_getElem?.mp hmem
  obtain ⟨-, hq⟩ := getElem?_of_take hq
  obtain ⟨hcount, -⟩ := hlog q _ hq
  exact ⟨hsession, hcount ▸ Nat.le_add_left 1 _⟩

/-- A call under the read gate that began after a place reads from a session that was not published
before it. -/
theorem LogOk.returned_after (hlog : LogOk log) {q t' since' session : ℕ}
    {call : Console.ReaderCall} {result : Except Error Console.Reply}
    (hq : log[q]? = some ⟨t', .returned since' session call result⟩) (hafter : p < since') :
    published (log.take p) ≤ session ∧
      (1 ≤ session → FromSession log session call result) := by
  obtain ⟨hsince, hsession, hfrom⟩ := hlog q _ hq
  rw [List.length_take] at hsince
  have hqlen : since' ≤ q := hsince.trans (Nat.min_le_left _ _)
  rw [List.take_take, Nat.min_eq_left hqlen] at hsession
  refine ⟨le_trans ?_ hsession, fun hk => ?_⟩
  · exact countP_take_mono (fun e => e.happening.isPublished) hafter.le
  · obtain ⟨t₀, since₀, now, rsock, hmem, halone⟩ := hfrom hk
    exact ⟨t₀, since₀, now, rsock, List.mem_of_mem_take hmem, halone⟩

/-- **A new session is isolated from the old ones.**  After a reconnect that made an attempt has
returned in a run, every call under the read gate that begins later returns what a reader returns
that has only ever known the session that reconnect published, or a later one; and if the stream is
tainted, a capture on such a session timed out. -/
theorem run_isolated {cfg : Config} {now : Time} {rsock : List Poll} {moves : List (Move Env Op)}
    {sys : System Shared Env} (hrun : run cfg now rsock moves = some sys) {p t since attempts k : ℕ}
    (hp : sys.shared.log[p]? = some ⟨t, .reconnected since attempts k⟩) (hattempts : 1 ≤ attempts) :
    (∀ (q t' since' session : ℕ) (call : Console.ReaderCall) (result : Except Error Console.Reply),
      sys.shared.log[q]? = some ⟨t', .returned since' session call result⟩ → p < since' →
      1 ≤ k ∧ k ≤ session ∧ FromSession sys.shared.log session call result) ∧
    (sys.shared.reader.streamTainted = true →
      ∃ (t' since' session : ℕ) (id : Int32) (timeout : Time), k ≤ session ∧
        ⟨t', .tainted since' session (.getBinaryNode id timeout) (.error .timeout)⟩ ∈
          sys.shared.log) := by
  have hinv := run_inv hrun
  obtain ⟨hk, hone⟩ := hinv.log.reconnected hp hattempts
  constructor
  · intro q t' since' session call result hq hafter
    obtain ⟨hle, hfrom⟩ := hinv.log.returned_after hq hafter
    rw [← hk] at hle
    exact ⟨hone, hle, hfrom (hone.trans hle)⟩
  · intro htaint
    obtain ⟨t', since', call, result, hmem⟩ := hinv.tainted htaint
    obtain ⟨q, -, ⟨id, timeout, rfl⟩, rfl⟩ := hinv.log.of_mem hmem
    refine ⟨t', since', _, id, timeout, ?_, hmem⟩
    rw [hk, hinv.generation]
    exact published_take_le p

/-- A capture times out and taints the stream, a clone reconnects to a console that sends one
number, and then reads it. -/
def readAfterTaint : List (Move Env Op) :=
  .call 1 (.reader (.getBinaryNode 3 0)) :: sections 1 4 (.calm []) ++
    .call 0 (.reconnect ⟨1, 0, 0⟩) :: sections 0 15 (.calm [.read (.ok [0xdf, 0xd1, 5, 0xde])]) ++
    .call 1 (.reader (.deliver .read)) :: sections 1 3 (.calm [])

theorem readAfterTaint_isolated :
    ∃ sys, run ⟨true, fun _ => false⟩ 0 [] readAfterTaint = some sys ∧
      sys.shared.reader.streamTainted = false ∧
      ∃ number, sys.shared.log[6]? = some ⟨1, .returned 6 1 (.deliver .read) (.ok number)⟩ ∧
        FromSession sys.shared.log 1 (.deliver .read) (.ok number) := by
  have hlog : (run ⟨true, fun _ => false⟩ 0 [] readAfterTaint).map (fun sys =>
      (sys.shared.reader.streamTainted, sys.shared.log[5]?, sys.shared.log[6]?)) =
      some (false, some ⟨0, .reconnected 2 1 1⟩, some ⟨1, .returned 6 1 (.deliver .read)
        (.ok (.responses [.nodeData 0 (.withI32 5)]))⟩) := by decide +kernel
  obtain ⟨sys, hrun, hlast⟩ := Option.map_eq_some_iff.mp hlog
  obtain ⟨htaint, hreconnected, hreturned⟩ : sys.shared.reader.streamTainted = false ∧
      sys.shared.log[5]? = some ⟨0, .reconnected 2 1 1⟩ ∧
      sys.shared.log[6]? = some ⟨1, .returned 6 1 (.deliver .read)
        (.ok (.responses [.nodeData 0 (.withI32 5)]))⟩ := by
    simpa only [Prod.mk.injEq] using hlast
  have hisolated := (run_isolated hrun hreconnected le_rfl).1 6 1 6 1 _ _ hreturned (by decide)
  exact ⟨sys, hrun, htaint, _, hreturned, hisolated.2.2⟩

end Session

end LibWing
