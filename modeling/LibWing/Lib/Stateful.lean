import Mathlib.Logic.Basic

/-!
# Programs with state and failure

Programs that read and change a state and may fail are `EStateM` programs: the state reached is
kept when they fail.

* `Triple P x Q E` : from a state with `P`, a result of `x` satisfies `Q` with the state reached,
  and a failure of `x` satisfies `E`.  The rules follow the structure of programs: `Triple.pure`,
  `Triple.throw`, `Triple.bind`, `Triple.bind_get`, `Triple.conseq`;
* `CancelSim R F C x y` : the program `x` does what the program `y` does, unless it is *cancelled*.
  From states related by `R`, a result of `x` is the result of `y`, and the states reached are again
  related by `R`; a failure of `x` is either a cancellation, of which only `C` is promised, or the
  failure of `y`, with the states reached related by `F`;
* `Keeps P x` : the program `x` keeps the invariant `P`;
* `Congruence Φ` : the relation `Φ` between programs follows their structure, so that it holds of a
  program once it holds of its parts.  `Triple.congruence` and `CancelSim.congruence` are the two
  that the rules above give.
-/

namespace Stateful

variable {ε σ τ α β : Type}

/-! ### One step -/

theorem run_get (s : σ) : (get : EStateM ε σ σ) s = .ok s s := rfl

theorem run_modify (f : σ → σ) (s : σ) : (modify f : EStateM ε σ PUnit) s = .ok ⟨⟩ (f s) := rfl

theorem run_modifyGet (f : σ → α × σ) (s : σ) :
    (modifyGet f : EStateM ε σ α) s = .ok (f s).1 (f s).2 := rfl

/-! ### Outcomes -/

/-- The outcome of a program, and the state it ends in. -/
def outcome (x : EStateM ε σ α) (s : σ) : Except ε α × σ :=
  match x s with
  | .ok a s' => (.ok a, s')
  | .error e s' => (.error e, s')

theorem eq_ok_of_outcome {x : EStateM ε σ α} {s : σ} {a : α} (h : (outcome x s).1 = .ok a) :
    x s = .ok a (outcome x s).2 := by
  cases hxs : x s with
  | ok b s' =>
    simp only [outcome, hxs] at h ⊢
    rw [Except.ok.inj h]
  | error e s' =>
    simp only [outcome, hxs] at h
    cases h

theorem outcome_bind_ok {x : EStateM ε σ α} {f : α → EStateM ε σ β} {s s' : σ} {a : α}
    (h : outcome x s = (.ok a, s')) : outcome (x >>= f) s = outcome (f a) s' := by
  have hx := eq_ok_of_outcome (congrArg Prod.fst h)
  rw [h] at hx
  have hb : (x >>= f) s = f a s' := by
    change EStateM.bind x f s = _
    simp only [EStateM.bind, hx]
  rw [outcome, hb, outcome]

theorem outcome_bind_error {x : EStateM ε σ α} {f : α → EStateM ε σ β} {s s' : σ} {e : ε}
    (h : outcome x s = (.error e, s')) : outcome (x >>= f) s = (.error e, s') := by
  cases hxs : x s with
  | ok a s₁ =>
    rw [outcome, hxs] at h
    cases h
  | error e' s₁ =>
    rw [outcome, hxs] at h
    cases h
    have hb : (x >>= f) s = .error e s' := by
      change EStateM.bind x f s = _
      simp only [EStateM.bind, hxs]
    rw [outcome, hb]

/-- Run a program and keep its outcome as a value. -/
def attempt (x : EStateM ε σ α) : EStateM ε σ (Except ε α) := fun s =>
  .ok (outcome x s).1 (outcome x s).2

/-! ### Pre- and postconditions -/

/-- From a state with `P`, `x` ends with `Q`, or fails with `E`. -/
def Triple (P : σ → Prop) (x : EStateM ε σ α) (Q : α → σ → Prop) (E : ε → σ → Prop) : Prop :=
  ∀ s, P s → match x s with
    | .ok a s' => Q a s'
    | .error e s' => E e s'

namespace Triple

variable {P P' : σ → Prop} {Q Q' : α → σ → Prop} {E E' : ε → σ → Prop}

theorem pure {a : α} (h : ∀ s, P s → Q a s) : Triple P (Pure.pure a) Q E := h

theorem throw {e : ε} (h : ∀ s, P s → E e s) : Triple P (MonadExcept.throw e) Q E := h

theorem conseq {x : EStateM ε σ α} (hx : Triple P' x Q' E') (hP : ∀ s, P s → P' s)
    (hQ : ∀ a s, Q' a s → Q a s) (hE : ∀ e s, E' e s → E e s) : Triple P x Q E := by
  intro s h
  have hs := hx s (hP s h)
  cases hxs : x s with
  | ok a s' =>
    rw [hxs] at hs
    exact hQ a s' hs
  | error e s' =>
    rw [hxs] at hs
    exact hE e s' hs

/-- Two specifications of a program. -/
theorem and {x : EStateM ε σ α} (h : Triple P x Q E) (h' : Triple P' x Q' E') :
    Triple (fun s => P s ∧ P' s) x (fun a s => Q a s ∧ Q' a s) (fun e s => E e s ∧ E' e s) := by
  intro s hs
  have hx := h s hs.1
  have hx' := h' s hs.2
  cases hxs : x s with
  | ok a s' =>
    rw [hxs] at hx hx'
    exact ⟨hx, hx'⟩
  | error e s' =>
    rw [hxs] at hx hx'
    exact ⟨hx, hx'⟩

/-- What never fails has any postcondition of failures. -/
theorem of_never {x : EStateM ε σ α} (hx : Triple P x Q fun _ _ => False) : Triple P x Q E :=
  conseq hx (fun _ h => h) (fun _ _ h => h) fun _ _ h => h.elim

/-- Nothing is promised. -/
theorem trivial {x : EStateM ε σ α} : Triple P x (fun _ _ => True) (fun _ _ => True) := by
  intro s _
  cases x s with
  | ok a s' => exact True.intro
  | error e s' => exact True.intro

/-- A fact that is not about the state. -/
theorem assume {φ : Prop} {x : EStateM ε σ α} (h : φ → Triple P x Q E) :
    Triple (fun s => φ ∧ P s) x Q E :=
  fun s hs => h hs.1 s hs.2

theorem bind {x : EStateM ε σ α} {f : α → EStateM ε σ β} {R : β → σ → Prop}
    (hx : Triple P x Q E) (hf : ∀ a, Triple (Q a) (f a) R E) : Triple P (x >>= f) R E := by
  intro s h
  have hs := hx s h
  change (match EStateM.bind x f s with | .ok a s' => _ | .error e s' => _)
  cases hxs : x s with
  | ok a s' =>
    rw [hxs] at hs
    simp only [EStateM.bind, hxs]
    exact hf a s' hs
  | error e s' =>
    rw [hxs] at hs
    simp only [EStateM.bind, hxs]
    exact hs

theorem map {x : EStateM ε σ α} {f : α → β} {R : β → σ → Prop}
    (hx : Triple P x (fun a s => R (f a) s) E) : Triple P (f <$> x) R E :=
  bind hx fun _ => pure fun _ h => h

/-- What is known of a program is known of its outcome. -/
theorem outcome {x : EStateM ε σ α} (hx : Triple P x Q E) {s : σ} (h : P s) :
    (∃ a s', outcome x s = (.ok a, s') ∧ Q a s') ∨
      ∃ e s', outcome x s = (.error e, s') ∧ E e s' := by
  have hs := hx s h
  cases hxs : x s with
  | ok a s' =>
    rw [hxs] at hs
    exact Or.inl ⟨a, s', by rw [Stateful.outcome, hxs], hs⟩
  | error e s' =>
    rw [hxs] at hs
    exact Or.inr ⟨e, s', by rw [Stateful.outcome, hxs], hs⟩

/-- Going on with the outcome of `x` as a value. -/
theorem bind_attempt {x : EStateM ε σ α} {f : Except ε α → EStateM ε σ β} {R : β → σ → Prop}
    {E' : ε → σ → Prop} (hx : Triple P x Q E) (hok : ∀ a, Triple (Q a) (f (.ok a)) R E')
    (herr : ∀ e, Triple (E e) (f (.error e)) R E') : Triple P (attempt x >>= f) R E' := by
  intro s h
  rcases hx.outcome h with ⟨a, s', ho, hq⟩ | ⟨e, s', ho, he⟩
  · have hrun : (attempt x >>= f) s = f (.ok a) s' := by
      change EStateM.bind (attempt x) f s = _
      simp only [EStateM.bind, attempt, ho]
    rw [hrun]
    exact hok a s' hq
  · have hrun : (attempt x >>= f) s = f (.error e) s' := by
      change EStateM.bind (attempt x) f s = _
      simp only [EStateM.bind, attempt, ho]
    rw [hrun]
    exact herr e s' he

/-- Handing an outcome on after `x` has cleaned up. -/
theorem attempt_finally {x : EStateM ε σ α} {fin : EStateM ε σ PUnit} {R : α → σ → Prop}
    {E' : ε → σ → Prop} (hx : Triple P x Q E)
    (hQ : ∀ a, Triple (Q a) fin (fun _ => R a) E')
    (hE : ∀ e, Triple (E e) fin (fun _ => E' e) E') :
    Triple P (do let r ← attempt x; fin; ofExcept r) R E' :=
  bind_attempt hx (fun a => (hQ a).bind fun _ => pure fun _ h => h)
    fun e => (hE e).bind fun _ => throw fun _ h => h

/-- Reading the state pins it. -/
theorem bind_get {f : σ → EStateM ε σ β} {R : β → σ → Prop}
    (h : ∀ s, P s → Triple (· = s) (f s) R E) : Triple P (MonadState.get >>= f) R E :=
  fun s hs => h s hs s rfl

end Triple

/-! ### Congruences -/

/-- A relation between programs that follows their structure. -/
structure Congruence (Φ : ∀ {α : Type}, EStateM ε σ α → EStateM ε τ α → Prop) : Prop where
  /-- It holds of returns. -/
  pure : ∀ {α : Type} (a : α), Φ (Pure.pure a) (Pure.pure a)
  /-- It is kept by sequencing. -/
  bind : ∀ {α β : Type} {x : EStateM ε σ α} {y : EStateM ε τ α} {f : α → EStateM ε σ β}
    {g : α → EStateM ε τ β}, Φ x y → (∀ a, Φ (f a) (g a)) → Φ (x >>= f) (y >>= g)

/-- An invariant of what succeeds follows the structure of programs. -/
theorem Triple.congruence (P : σ → Prop) (E : ε → σ → Prop) :
    Congruence fun {α} (x : EStateM ε σ α) (_ : EStateM ε σ α) => Triple P x (fun _ => P) E :=
  ⟨fun _ => Triple.pure fun _ h => h, fun hx hf => Triple.bind hx hf⟩

/-! ### Invariants -/

/-- `x` keeps `P`, whether it succeeds or fails. -/
def Keeps (P : σ → Prop) (x : EStateM ε σ α) : Prop := Triple P x (fun _ => P) (fun _ => P)

namespace Keeps

variable {P : σ → Prop}

theorem pure (a : α) : Keeps P (Pure.pure a : EStateM ε σ α) := Triple.pure fun _ h => h

theorem throw (e : ε) : Keeps P (MonadExcept.throw e : EStateM ε σ α) := Triple.throw fun _ h => h

theorem bind {x : EStateM ε σ α} {f : α → EStateM ε σ β} (hx : Keeps P x)
    (hf : ∀ a, Keeps P (f a)) : Keeps P (x >>= f) :=
  Triple.bind hx hf

theorem bind_get {f : σ → EStateM ε σ β} (h : ∀ s, Keeps P (f s)) :
    Keeps P (MonadState.get >>= f) :=
  fun s hs => h s s hs

theorem bind_attempt {x : EStateM ε σ α} {f : Except ε α → EStateM ε σ β} (hx : Keeps P x)
    (hf : ∀ r, Keeps P (f r)) : Keeps P (attempt x >>= f) :=
  Triple.bind_attempt hx (fun a => hf (.ok a)) fun e => hf (.error e)

theorem ofExcept (r : Except ε α) : Keeps P (MonadExcept.ofExcept r : EStateM ε σ α) := by
  cases r with
  | ok a => exact pure a
  | error e => exact throw e

/-- What is kept holds in the state reached. -/
theorem outcome {x : EStateM ε σ α} (hx : Keeps P x) {s : σ} (h : P s) : P (outcome x s).2 := by
  rcases Triple.outcome hx h with ⟨a, s', ho, hs⟩ | ⟨e, s', ho, hs⟩
  · rw [ho]
    exact hs
  · rw [ho]
    exact hs

/-- Keeping an invariant follows the structure of programs. -/
theorem congruence (P : σ → Prop) :
    Congruence fun {α} (x : EStateM ε σ α) (_ : EStateM ε σ α) => Keeps P x :=
  Triple.congruence P fun _ => P

end Keeps

/-! ### Cancellable simulation -/

/-- `x` does what `y` does, unless it is cancelled. -/
def CancelSim (R : σ → τ → Prop) (F : ε → σ → τ → Prop) (C : ε → σ → Prop)
    (x : EStateM ε σ α) (y : EStateM ε τ α) : Prop :=
  ∀ t, Triple (R · t) x (fun a s' => ∃ t', y t = .ok a t' ∧ R s' t')
    (fun e s' => C e s' ∨ ∃ t', y t = .error e t' ∧ F e s' t')

namespace CancelSim

variable {R : σ → τ → Prop} {F : ε → σ → τ → Prop} {C : ε → σ → Prop}

theorem pure (a : α) : CancelSim R F C (Pure.pure a) (Pure.pure a) :=
  fun t => Triple.pure fun _ h => ⟨t, rfl, h⟩

theorem throw {e : ε} (hF : ∀ s t, R s t → F e s t) :
    CancelSim R F C (MonadExcept.throw e : EStateM ε σ α) (MonadExcept.throw e) :=
  fun t => Triple.throw fun s h => Or.inr ⟨t, rfl, hF s t h⟩

theorem bind {x : EStateM ε σ α} {y : EStateM ε τ α} {f : α → EStateM ε σ β}
    {g : α → EStateM ε τ β} (hx : CancelSim R F C x y) (hf : ∀ a, CancelSim R F C (f a) (g a)) :
    CancelSim R F C (x >>= f) (y >>= g) := by
  intro t s h
  have hs := hx t s h
  change (match EStateM.bind x f s with | .ok a s' => _ | .error e s' => _)
  cases hxs : x s with
  | ok a s' =>
    rw [hxs] at hs
    obtain ⟨t', hy, hr⟩ := hs
    have hfa := hf a t' s' hr
    have hb : (y >>= g) t = g a t' := by
      change EStateM.bind y g t = _
      simp only [EStateM.bind, hy]
    simp only [EStateM.bind, hxs, hb]
    exact hfa
  | error e s' =>
    rw [hxs] at hs
    simp only [EStateM.bind, hxs]
    rcases hs with hc | ⟨t', hy, hr⟩
    · exact Or.inl hc
    · refine Or.inr ⟨t', ?_, hr⟩
      change EStateM.bind y g t = _
      simp only [EStateM.bind, hy]

theorem congruence (R : σ → τ → Prop) (F : ε → σ → τ → Prop) (C : ε → σ → Prop) :
    Congruence fun {_} x y => CancelSim R F C x y :=
  ⟨pure, bind⟩

end CancelSim

end Stateful
