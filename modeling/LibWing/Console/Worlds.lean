import LibWing.Console.Parse

/-!
# The reader in one world and another

A program of the reader meets its world in few places: it looks at the clock and at the
`reconnecting` flag, and it writes.  A relation between programs that follows their structure and
holds where they meet the world therefore holds of all of `read_inner`.

* `Reads Φ w w'` : what `Φ` has to satisfy, and `Reads.decodeNext`, `Reads.readInner` : what
  follows;
* `Meets Φ w w'` : the same of a relation that holds of every message;
* `Punctual` : a program reports a timeout only if it has seen the deadline pass;
* `World.calmed`, `Disturbed` : unless a program fails because the session is disturbed, it does
  what it would do in an undisturbed world.
-/

namespace LibWing

open Stateful

/-- The world without its disturbances. -/
def World.calmed (w : World) : World :=
  { w with reconnecting := fun _ => false, write := fun _ => .ok () }

theorem World.calmed_calm (w : World) : w.calmed.Calm := ⟨fun _ => rfl, fun _ => rfl⟩

namespace Console

variable {w w' : World} {c c₀ c' : Console}

/-- `Φ` follows the structure of programs and holds where the reader meets the world.  Of the
messages of a client the reader writes the keepalive. -/
structure Reads (Φ : ∀ {α : Type}, ConsoleM α → ConsoleM α → Prop) (w w' : World) : Prop
    extends Congruence Φ where
  /-- It holds of failures, but for a timeout. -/
  throw : ∀ {α : Type} {e : Error}, e ≠ .timeout → Φ (throw e : ConsoleM α) (throw e)
  /-- It is kept by looking at the console. -/
  bindGet : ∀ {α : Type} {f g : Console → ConsoleM α}, (∀ c, Φ (f c) (g c)) →
    Φ (get >>= f) (get >>= g)
  /-- It holds of changes behind the lock. -/
  modifyMain : ∀ f, Φ (modifyMain f) (modifyMain f)
  /-- It holds of looking at the clock. -/
  instantNow : Φ (instantNow w) (instantNow w')
  /-- It holds of writing a keepalive. -/
  writeKeepAlive : Φ (writeAll w [0xdf, 0xd1]) (writeAll w' [0xdf, 0xd1])
  /-- It holds of looking at the deadline. -/
  checkDeadline : Φ (checkDeadline w) (checkDeadline w')
  /-- It holds of turning to the transport. -/
  pollTransport : ∀ timeout, Φ (pollTransport timeout) (pollTransport timeout)
  /-- It is kept by looking for a reconnect. -/
  reconnecting : ∀ {α : Type} {x y : ConsoleM α}, Φ x y →
    Φ (do if ← loadReconnecting w then MonadExcept.throw .reconnecting else x)
      (do if ← loadReconnecting w' then MonadExcept.throw .reconnecting else y)

namespace Reads

variable {Φ : ∀ {α : Type}, ConsoleM α → ConsoleM α → Prop} (h : Reads Φ w w')
include h

theorem keepAlive : Φ (keepAlive w) (keepAlive w') := by
  refine h.bind h.instantNow fun now => h.bindGet fun c => ?_
  split_ifs
  · exact h.bind h.writeKeepAlive fun _ => h.bind h.instantNow fun _ => h.modifyMain _
  · exact h.pure _

theorem socketTimeout : Φ (socketTimeout w) (socketTimeout w') := by
  refine h.bind h.instantNow fun now => h.bindGet fun c => ?_
  cases hd : c.main.opDeadline with
  | none =>
    simp only [hd]
    exact h.pure _
  | some deadline =>
    simp only [hd]
    exact h.bind h.instantNow fun _ => h.pure _

theorem refill : Φ (refill w) (refill w') := by
  refine h.bind h.keepAlive fun _ => h.bind h.checkDeadline fun _ => h.bind h.socketTimeout
    fun timeout => h.bind (h.pollTransport timeout) fun bytes => ?_
  cases bytes with
  | some bytes => exact h.bind (h.modifyMain _) fun _ => h.pure _
  | none => exact h.bind h.checkDeadline fun _ => h.pure _

theorem ensureNativeResponseCapacity (len : ℕ) :
    Φ (ensureNativeResponseCapacity len) (ensureNativeResponseCapacity len) := by
  unfold Console.ensureNativeResponseCapacity
  split_ifs
  · exact h.throw Error.noConfusion
  · exact h.pure _

theorem emit (decoded : Decoded) : Φ (emit decoded) (emit decoded) :=
  h.bindGet fun _ => h.bind (h.ensureNativeResponseCapacity _) fun _ =>
    h.bind (h.modifyMain _) fun _ => h.pure _

theorem emitSome (decoded : Decoded) :
    Φ (some <$> Console.emit decoded) (some <$> Console.emit decoded) :=
  h.bind (h.emit decoded) fun _ => h.pure _

theorem takeByte : Φ takeByte takeByte := by
  refine h.bindGet fun c => ?_
  cases hbuf : c.main.rxBuf with
  | nil =>
    simp only [hbuf]
    exact h.pure _
  | cons byte rest =>
    rcases hpush : c.main.rxChannels.pushByte byte with ⟨e | ⟨first, second⟩, channels⟩
    · have he : e ≠ .timeout := by
        rw [pushByte_error (congrArg Prod.fst hpush)]
        exact Error.noConfusion
      simp only [hbuf, hpush]
      exact h.bind (h.modifyMain _) fun _ => h.throw he
    · simp only [hbuf, hpush]
      refine h.bind (h.modifyMain _) fun _ => h.bind (h.modifyMain _) fun _ => ?_
      cases (popAudio first.toList).1 with
      | some value => exact h.emitSome _
      | none => exact h.pure _

theorem decodeBuffer : Φ (decodeBuffer w) (decodeBuffer w') := by
  refine h.bindGet fun c => ?_
  split_ifs
  · refine h.bind h.refill fun more => ?_
    cases more with
    | true => exact h.takeByte
    | false => exact h.pure _
  · exact h.takeByte

theorem decodeEvents : Φ (decodeEvents w) (decodeEvents w') := by
  refine h.bindGet fun c => h.bind (h.modifyMain _) fun _ => ?_
  cases (popAudio c.main.rxEvents).1 with
  | some value => exact h.emitSome _
  | none => exact h.decodeBuffer

theorem decodeStep : Φ (decodeStep w) (decodeStep w') := by
  refine h.reconnecting (h.bindGet fun c => ?_)
  cases c.main.replay with
  | cons decoded rest => exact h.bind (h.modifyMain _) fun _ => h.emitSome _
  | nil => exact h.decodeEvents

theorem decodeNextInner (fuel : ℕ) : Φ (decodeNextInner w fuel) (decodeNextInner w' fuel) := by
  induction fuel with
  | zero => exact h.throw Error.noConfusion
  | succ fuel ih =>
    refine h.bind h.decodeStep fun decoded => ?_
    cases decoded with
    | some decoded => exact h.pure _
    | none => exact ih

theorem decodeNext : Φ (decodeNext w) (decodeNext w') := by
  refine h.bindGet fun c => h.bind (h.decodeNextInner _) fun decoded => h.bindGet fun c => ?_
  cases c.main.capture with
  | none => exact h.pure _
  | some captured =>
    exact h.bind (h.ensureNativeResponseCapacity _) fun _ =>
      h.bind (h.modifyMain _) fun _ => h.pure _

theorem source : Source.Related Φ (source w) (source w') where
  toCongruence := h.toCongruence
  invalidData := h.throw Error.noConfusion
  decodeNext := h.decodeNext
  currentNodeId := h.bindGet fun _ => h.pure _
  setCurrentNodeId := fun id => h.modifyMain fun r => { r with currentNodeId := id }

/-- What holds where programs meet the world holds of `read_inner`. -/
theorem readInner : Φ (readInner w) (readInner w') := h.source.readInner _

end Reads

/-- `Φ` follows the structure of programs and holds where they meet the world, whatever is
written. -/
structure Meets (Φ : ∀ {α : Type}, ConsoleM α → ConsoleM α → Prop) (w w' : World) : Prop
    extends Congruence Φ where
  /-- It holds of failures, but for a timeout. -/
  throw : ∀ {α : Type} {e : Error}, e ≠ .timeout → Φ (throw e : ConsoleM α) (throw e)
  /-- It is kept by looking at the console. -/
  bindGet : ∀ {α : Type} {f g : Console → ConsoleM α}, (∀ c, Φ (f c) (g c)) →
    Φ (get >>= f) (get >>= g)
  /-- It holds of changes behind the lock. -/
  modifyMain : ∀ f, Φ (modifyMain f) (modifyMain f)
  /-- It holds of looking at the clock. -/
  instantNow : Φ (instantNow w) (instantNow w')
  /-- It holds of writing. -/
  writeAll : ∀ bytes, Φ (writeAll w bytes) (writeAll w' bytes)
  /-- It holds of looking at the deadline. -/
  checkDeadline : Φ (checkDeadline w) (checkDeadline w')
  /-- It holds of turning to the transport. -/
  pollTransport : ∀ timeout, Φ (pollTransport timeout) (pollTransport timeout)
  /-- It is kept by looking for a reconnect. -/
  reconnecting : ∀ {α : Type} {x y : ConsoleM α}, Φ x y →
    Φ (do if ← loadReconnecting w then MonadExcept.throw .reconnecting else x)
      (do if ← loadReconnecting w' then MonadExcept.throw .reconnecting else y)

theorem Meets.reads {Φ : ∀ {α : Type}, ConsoleM α → ConsoleM α → Prop} (h : Meets Φ w w') :
    Reads Φ w w' :=
  { h with writeKeepAlive := h.writeAll _ }

/-! ### Deadlines -/

/-- Since it was in `c₀`, the console has seen its deadline pass. -/
def Late (w : World) (c₀ c : Console) : Prop :=
  ∃ n deadline, c₀.tick ≤ n ∧ n < c.tick ∧ c.main.opDeadline = some deadline ∧ deadline ≤ w.now n

/-- The program reports a timeout only if it has seen the deadline pass. -/
def Punctual (w : World) (c₀ : Console) {α : Type} (x : ConsoleM α) : Prop :=
  Triple (c₀.tick ≤ ·.tick) x (fun _ c => c₀.tick ≤ c.tick)
    (fun e c => c₀.tick ≤ c.tick ∧ (e = .timeout → Late w c₀ c))

theorem punctual_instantNow : Punctual w c₀ (instantNow w) := fun _ h => Nat.le_succ_of_le h

theorem punctual_checkDeadline : Punctual w c₀ (checkDeadline w) := by
  refine Triple.bind_get fun c h => ?_
  cases hd : c.main.opDeadline with
  | none => exact Triple.pure fun _ hc => hc ▸ h
  | some deadline =>
    refine Triple.bind (Q := fun now c' => c' = { c with tick := c.tick + 1 } ∧ now = w.now c.tick)
      ?_ fun now => ?_
    · rintro c₁ rfl
      exact ⟨rfl, rfl⟩
    · rintro c₁ ⟨rfl, rfl⟩
      split_ifs with hlate
      · exact ⟨Nat.le_succ_of_le h, fun _ => ⟨c.tick, deadline, h, Nat.lt_succ_self _, hd, hlate⟩⟩
      · exact Nat.le_succ_of_le h

theorem punctual_pollTransport (timeout : Time) : Punctual w c₀ (pollTransport timeout) := by
  intro c h
  unfold pollTransport
  rcases hr : c.rsock with _ | ⟨kind | ⟨kind | _ | ⟨byte, bytes⟩⟩, rest⟩
  · exact ⟨h, Error.noConfusion⟩
  · exact ⟨h, Error.noConfusion⟩
  · by_cases hb : kind.isBlocking
    · simp only [hb, ↓reduceIte]
      exact h
    · simp only [hb]
      exact ⟨h, Error.noConfusion⟩
  · exact ⟨h, Error.noConfusion⟩
  · exact h

theorem punctual_meets (w : World) (c₀ : Console) :
    Meets (fun {_} x _ => Punctual w c₀ x) w w where
  pure a := Triple.pure fun _ h => h
  bind hx hf := Triple.bind hx hf
  throw he := Triple.throw fun _ h => ⟨h, fun ht => absurd ht he⟩
  bindGet hf := fun c h => hf c c h
  modifyMain f := fun _ h => h
  instantNow := punctual_instantNow
  writeAll bytes := by
    intro c h
    unfold writeAll
    cases w.write c.tick with
    | ok u => exact Nat.le_succ_of_le h
    | error kind => exact ⟨Nat.le_succ_of_le h, Error.noConfusion⟩
  checkDeadline := punctual_checkDeadline
  pollTransport := punctual_pollTransport
  reconnecting hx := by
    have hload : Punctual w c₀ (loadReconnecting w) := fun _ h => Nat.le_succ_of_le h
    refine Triple.bind hload fun r => ?_
    cases r with
    | true => exact Triple.throw fun _ h => ⟨h, Error.noConfusion⟩
    | false => exact hx

/-! ### Disturbances -/

/-- A failure that a disturbance causes. -/
inductive Disturbance : Error → Prop
  | reconnecting : Disturbance .reconnecting
  | io (kind : IoErrorKind) : Disturbance (.io kind)

/-- The programs do the same, unless the first is disturbed. -/
def UnlessDisturbed {α : Type} (x y : ConsoleM α) : Prop :=
  CancelSim Eq (fun _ => Eq) (fun e _ => Disturbance e) x y

theorem UnlessDisturbed.rfl {α : Type} (x : ConsoleM α) : UnlessDisturbed x x := by
  rintro c c rfl
  cases x c with
  | ok a c' => exact ⟨c', Eq.refl _, Eq.refl c'⟩
  | error e c' => exact Or.inr ⟨c', Eq.refl _, Eq.refl c'⟩

theorem unlessDisturbed_meets (w : World) :
    Meets (fun {_} x y => UnlessDisturbed x y) w w.calmed where
  toCongruence := CancelSim.congruence _ _ _
  throw _ := UnlessDisturbed.rfl _
  bindGet hf := by
    rintro c c rfl
    exact hf c c c (Eq.refl c)
  modifyMain f := UnlessDisturbed.rfl _
  instantNow := UnlessDisturbed.rfl (instantNow w)
  writeAll bytes := by
    rintro c c rfl
    unfold writeAll
    cases w.write c.tick with
    | ok u => exact ⟨_, Eq.refl _, Eq.refl _⟩
    | error kind => exact Or.inl (.io kind)
  checkDeadline := UnlessDisturbed.rfl (checkDeadline w)
  pollTransport timeout := UnlessDisturbed.rfl _
  reconnecting hx := by
    rintro c c rfl
    have hload : loadReconnecting w c = .ok (w.reconnecting c.tick) { c with tick := c.tick + 1 } :=
      Eq.refl _
    cases hr : w.reconnecting c.tick with
    | true =>
      rw [hr] at hload
      simp only [bind, EStateM.bind, hload]
      exact Or.inl .reconnecting
    | false =>
      rw [hr] at hload
      simp only [bind, EStateM.bind, hload]
      exact hx _ _ (Eq.refl _)

end Console

end LibWing
