import LibWing.Console.Worlds
import LibWing.Console.Attended

/-!
# What reading leaves alone

The reader changes what is behind the `main` lock, looks at the world and turns to the transport,
and of the messages of a client it writes only keepalives.

* `Passive` : a property that is about none of these;
* `Steady` : a property that reading and the bookkeeping of the calls keep, and the calls that keep
  it;
* `Passive.steady` : a passive property is steady.
-/

namespace LibWing

open Stateful

namespace Console

variable {w : World} {P : Console → Prop}

/-! ### Reading -/

theorem ensureStreamUsable_keeps (P : Console → Prop) : Keeps P ensureStreamUsable := by
  refine Keeps.bind_get fun c => ?_
  split_ifs
  · exact Keeps.throw _
  · exact Keeps.pure _

/-- A property that is not about the parser, the clock or the reading half of the transport, and
that a keepalive keeps. -/
structure Passive (P : Console → Prop) : Prop where
  /-- It is not about the parser. -/
  main : ∀ {c} m, P c → P { c with main := m }
  /-- It is not about the clock. -/
  tick : ∀ {c}, P c → P { c with tick := c.tick + 1 }
  /-- It is not about the reading half of the transport. -/
  rsock : ∀ {c} timeout rsock, P c → P { c with rsockTimeout := timeout, rsock := rsock }
  /-- A keepalive keeps it. -/
  keepAlive : ∀ {c}, P c → P { c with wsock := c.wsock ++ [handshake] }

namespace Passive

variable (h : Passive P)
include h

theorem modifyMain (f : Main → Main) : Keeps P (modifyMain f) := fun _ hc => h.main _ hc

theorem instantNow : Keeps P (instantNow w) := fun _ hc => h.tick hc

theorem loadReconnecting : Keeps P (loadReconnecting w) := fun _ hc => h.tick hc

theorem writeKeepAlive : Keeps P (writeAll w [0xdf, 0xd1]) := by
  intro c hc
  unfold writeAll
  cases w.write c.tick with
  | ok u => exact h.tick (h.keepAlive hc)
  | error kind => exact h.tick hc

theorem checkDeadline : Keeps P (checkDeadline w) := by
  refine Keeps.bind_get fun c => ?_
  cases c.main.opDeadline with
  | none => exact Keeps.pure _
  | some deadline =>
    refine Keeps.bind h.instantNow fun now => ?_
    split_ifs
    · exact Keeps.throw _
    · exact Keeps.pure _

theorem pollTransport (timeout : Time) : Keeps P (pollTransport timeout) := by
  intro c hc
  unfold Console.pollTransport
  cases hr : c.rsock with
  | nil =>
    exact h.rsock timeout [] hc
  | cons poll rest =>
    have hrest := h.rsock timeout rest hc
    cases poll with
    | armFailed kind => exact hrest
    | read result =>
      rcases result with kind | bytes
      · cases hkind : kind.isBlocking with
        | true =>
          simp only [hkind, ↓reduceIte]
          exact hrest
        | false =>
          simp only [hkind, Bool.false_eq_true, ↓reduceIte]
          exact hrest
      · cases bytes with
        | nil => exact hrest
        | cons b bytes => exact hrest

theorem reads : Reads (fun {_} x (_ : ConsoleM _) => Keeps P x) w w where
  toCongruence := Keeps.congruence P
  throw _ := Keeps.throw _
  bindGet hf := Keeps.bind_get hf
  modifyMain := h.modifyMain
  instantNow := h.instantNow
  writeKeepAlive := h.writeKeepAlive
  checkDeadline := h.checkDeadline
  pollTransport := h.pollTransport
  reconnecting hx := by
    refine Keeps.bind h.loadReconnecting fun r => ?_
    split_ifs
    · exact Keeps.throw _
    · exact hx

theorem finishRead (result : Except Error WingResponse) : Keeps P (finishRead w result) := by
  have hload : ∀ e, Keeps P
      (do if ← Console.loadReconnecting w then throw .reconnecting else throw e :
        ConsoleM WingResponse) := by
    intro e
    refine Keeps.bind h.loadReconnecting fun r => ?_
    split_ifs
    · exact Keeps.throw _
    · exact Keeps.throw _
  cases result with
  | ok response => exact Keeps.pure _
  | error e =>
    cases e
    case connectionError => exact hload _
    case io kind => exact hload _
    all_goals exact Keeps.throw _

theorem readNew : Keeps P (readNew w) := by
  refine Keeps.bind (h.modifyMain _) fun _ => Keeps.bind_get fun c =>
    Keeps.bind_attempt h.reads.readInner fun result => ?_
  unfold settle
  split_ifs
  · exact Keeps.bind (h.modifyMain _) fun _ => h.finishRead result
  · exact Keeps.bind (h.modifyMain _) fun _ => h.finishRead result

theorem readLocked : Keeps P (readLocked w) := by
  refine Keeps.bind_get fun c => ?_
  split_ifs
  · exact Keeps.throw _
  · refine Keeps.bind h.loadReconnecting fun r => ?_
    split_ifs
    · exact Keeps.throw _
    · refine Keeps.bind_get fun c' => ?_
      cases c'.main.pending with
      | cons response rest => exact Keeps.bind (h.modifyMain _) fun _ => Keeps.pure _
      | nil => exact h.readNew

end Passive

/-! ### The calls -/

/-- A property that reading, looking at the clock and the bookkeeping of the calls keep. -/
structure Steady (P : Console → Prop) : Prop where
  /-- A read keeps it. -/
  readLocked : ∀ w, Keeps P (readLocked w)
  /-- Looking at the world keeps it. -/
  tick : ∀ {c}, P c → P { c with tick := c.tick + 1 }
  /-- It is not about the queue. -/
  pending : ∀ {c} rs, P c → P { c with main := { c.main with pending := rs } }
  /-- It is not about the deadline. -/
  opDeadline : ∀ {c} d, P c → P { c with main := { c.main with opDeadline := d } }

theorem Passive.steady (h : Passive P) : Steady P where
  readLocked _ := h.readLocked
  tick := h.tick
  pending _ := h.main _
  opDeadline _ := h.main _

namespace Steady

variable (h : Steady P)
include h

theorem instantNow {E : Error → Console → Prop} : Triple P (instantNow w) (fun _ => P) E :=
  fun _ hc => h.tick hc

theorem setOpDeadline (d : Option Time) : Keeps P (setOpDeadline d) := fun _ hc => h.opDeadline d hc

theorem requeue (rs : List WingResponse) : Keeps P (requeue rs) := fun _ hc => h.pending _ hc

theorem readTimeout (timeout : Time) : Keeps P (readTimeout w timeout) :=
  Keeps.bind h.instantNow fun _ => Keeps.bind (h.setOpDeadline _) fun _ =>
    Keeps.bind_attempt (h.readLocked w) fun r => Keeps.bind (h.setOpDeadline _) fun _ =>
      Keeps.ofExcept r

section AttendedRead

variable {T : Type} (matcher : WingResponse → Except WingResponse T)

theorem attendedLoop (deadline : Time) (fuel : ℕ) (buffered : List WingResponse) :
    Keeps P (attendedLoop w deadline matcher fuel buffered) := by
  induction fuel generalizing buffered with
  | zero => exact Keeps.pure _
  | succ fuel ih =>
    refine Keeps.bind_attempt (h.readLocked w) fun r => ?_
    cases r with
    | error e => exact Keeps.pure _
    | ok response =>
      cases hr : matcher response with
      | ok matched =>
        simp only [hr]
        exact Keeps.pure _
      | error unrelated =>
        simp only [hr]
        split_ifs
        · exact Keeps.pure _
        · refine Keeps.bind h.instantNow fun now => ?_
          split_ifs
          · exact Keeps.pure _
          · exact ih _

theorem attendedFinish (result : Except Error T × List WingResponse) :
    Keeps P (attendedFinish result) := by
  obtain ⟨result, buffered⟩ := result
  cases result with
  | ok matched => exact Keeps.pure _
  | error e =>
    cases e
    case timeout => exact Keeps.bind (h.requeue buffered) fun _ => Keeps.throw _
    all_goals exact Keeps.throw _

theorem attendedGet {request : ConsoleM Unit} (hreq : Keeps P request) (timeout : Time) :
    Keeps P (attendedGet w request matcher timeout) := by
  refine Keeps.bind hreq fun _ => Keeps.bind h.instantNow fun now =>
    Keeps.bind (h.setOpDeadline _) fun _ => Keeps.bind_attempt ?_ fun r =>
      Keeps.bind (h.setOpDeadline _) fun _ => Keeps.ofExcept r
  exact Keeps.bind (h.attendedLoop matcher _ _ _) fun result => h.attendedFinish result

end AttendedRead

end Steady

end Console

end LibWing
