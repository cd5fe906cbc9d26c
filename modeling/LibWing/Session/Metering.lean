import LibWing.Session.BulkOutline

/-!
# The meter subscription

`active_meter_id` is meant to be the id of the most recent successful `request_meter` on the session
in place, so that the keepalive renews the subscription a caller holds.

* `run_tracked_iff` : it is, unless that `request_meter` was written after a reconnect had put the
  new streams in place and before it reset the meters;
* `overtakenRequest_untracked` : such a subscription is forgotten.
-/

namespace LibWing

open Interleave

namespace Session

/-- The meters renew the latest subscription of the session in place, if there is one. -/
def Tracked (s : Shared) : Prop := s.mtrs.activeMeterId = latestId s.log s.installed

/-- The latest subscription of the session in place was written between the swap of its streams and
the reset of the meters. -/
def Overtaken (s : Shared) : Prop := ∃ id, latest s.log s.installed = some (id, .swapped)

theorem Inv.tracked_iff {s : Shared} (h : Inv s) (hrec : s.reconnecting = false) :
    Tracked s ↔ ¬ Overtaken s := by
  have hphase : s.phase ≠ .swapped := by
    intro hswapped
    rw [h.reconnecting, hswapped] at hrec
    cases hrec
  rw [Tracked, h.meters hphase, keptId_eq_latestId_iff, Overtaken, not_exists]

/-- **The meters track the latest subscription** at every moment of every run when no reconnect is
in progress, exactly if that subscription was not written between the swap of the streams and the
reset of the meters; and every keepalive that is written at such a moment renews the latest one. -/
theorem run_tracked_iff {cfg : Config} {now : Time} {rsock : List Poll} {moves : List (Move Env Op)}
    {sys : System Shared Env} (hrun : run cfg now rsock moves = some sys)
    (hrec : sys.shared.reconnecting = false) :
    (Tracked sys.shared ↔ ¬ Overtaken sys.shared) ∧
      ∀ p t session id, sys.shared.log[p]? = some ⟨t, .renewed session id .idle⟩ →
        latestId (sys.shared.log.take p) session = some id := by
  have hinv := run_inv hrun
  refine ⟨hinv.tracked_iff hrec, fun p t session id hp => ?_⟩
  have hrenewed : Phase.idle ≠ .swapped → latestId (sys.shared.log.take p) session = some id :=
    hinv.log p _ hp
  exact hrenewed Phase.noConfusion

/-- A `request_meter` after a reconnect, and a keepalive three seconds later. -/
def requestAfterReconnect : List (Move Env Op) :=
  .call 0 (.reconnect ⟨1, 0, 0⟩) :: sections 0 15 (.calm []) ++
    .call 1 (.requestMeter [.rta]) :: sections 1 2 (.calm []) ++
    .call 1 .keepAliveMeters :: sections 1 2 { Env.calm [] with now := seconds 3 }

theorem requestAfterReconnect_tracked :
    ∃ sys, run ⟨true, fun _ => false⟩ 0 [] requestAfterReconnect = some sys ∧
      sys.shared.mtrs.activeMeterId = some 1 ∧ Tracked sys.shared := by
  have hstate : (run ⟨true, fun _ => false⟩ 0 [] requestAfterReconnect).map (fun sys =>
      (sys.shared.mtrs.activeMeterId, sys.shared.reconnecting,
        latest sys.shared.log sys.shared.installed)) = some (some 1, false, some (1, .idle)) := by
    decide +kernel
  obtain ⟨sys, hrun, hlast⟩ := Option.map_eq_some_iff.mp hstate
  obtain ⟨hactive, hrec, hlatest⟩ : sys.shared.mtrs.activeMeterId = some 1 ∧
      sys.shared.reconnecting = false ∧
      latest sys.shared.log sys.shared.installed = some (1, .idle) := by
    simpa only [Prod.mk.injEq] using hlast
  refine ⟨sys, hrun, hactive, (run_tracked_iff hrun hrec).1.mpr ?_⟩
  rintro ⟨id, hswapped⟩
  rw [hlatest] at hswapped
  cases hswapped

/-- A clone calls `request_meter` while another one reconnects, after the new streams are in place
and before the meters are reset. -/
def overtakenRequest : List (Move Env Op) :=
  .call 0 (.reconnect ⟨1, 0, 0⟩) :: sections 0 10 (.calm []) ++
    .call 1 (.requestMeter [.rta]) :: sections 1 2 (.calm []) ++ sections 0 5 (.calm [])

/-- The subscription on the new session is forgotten. -/
theorem overtakenRequest_untracked :
    ¬ ∀ (cfg : Config) (now : Time) (rsock : List Poll) (moves : List (Move Env Op))
        (sys : System Shared Env), run cfg now rsock moves = some sys →
      sys.shared.reconnecting = false → Tracked sys.shared := by
  intro hall
  have hstate : (run ⟨true, fun _ => false⟩ 0 [] overtakenRequest).map (fun sys =>
      (sys.shared.mtrs.activeMeterId, sys.shared.reconnecting,
        latestId sys.shared.log sys.shared.installed)) = some (none, false, some 1) := by
    decide +kernel
  obtain ⟨sys, hrun, hlast⟩ := Option.map_eq_some_iff.mp hstate
  obtain ⟨hactive, hrec, hlatest⟩ : sys.shared.mtrs.activeMeterId = none ∧
      sys.shared.reconnecting = false ∧
      latestId sys.shared.log sys.shared.installed = some 1 := by
    simpa only [Prod.mk.injEq] using hlast
  have htracked : sys.shared.mtrs.activeMeterId = latestId sys.shared.log sys.shared.installed :=
    hall _ _ _ _ sys hrun hrec
  rw [hactive, hlatest] at htracked
  cases htracked

end Session

end LibWing
