import Mathlib.Data.Nat.Notation
import Mathlib.Logic.Function.Basic
import Mathlib.Tactic.SplitIfs

/-!
# Interleaved programs

Threads that share a state and take turns.  A thread is a program made of *sections*: a section
waits until the shared state lets it run, and then reads and changes the state in one step, with an
input that the environment chooses.

* `Prog σ ι α` : programs over the shared state `σ` with inputs `ι` and results `α`;
* `Prog.Always`, `Prog.During`, `Prog.Alone` : what a program does whatever the others do, what it
  does while the state is good, and what it does when it runs alone;
* `Prog.runSolo`, `Prog.Solo` : a program that runs alone with an input for each section, and what
  holds whenever it ends;
* `Prog.Returns` : what a program that may fail does if it succeeds;
* `System`, `System.run` : threads that start calls and take turns, in any order;
* `Outline I R G Q p P` : a proof outline of `p` from the assertion `P` to `Q`.  Assertions are
  stable under `R`, what the other threads may do; every section does what `G` promises.  The rules
  follow the structure of programs: `Outline.pure`, `Outline.section`, `Outline.bind`;
* `System.run_sound` : threads whose programs have outlines, each promising what the others rely on,
  keep the invariant `I` in every run.
-/

namespace Interleave

/-- A program of a thread. -/
inductive Prog (σ ι α : Type) where
  | ret (a : α)
  /-- A section: when it may run, what it does to the state, and how the program goes on. -/
  | step (ready : σ → Bool) (act : ι → σ → σ) (next : ι → σ → Prog σ ι α)

namespace Prog

variable {σ ι α β : Type}

/-- One program after the other. -/
def bind : Prog σ ι α → (α → Prog σ ι β) → Prog σ ι β
  | ret a, f => f a
  | step ready act next, f => step ready act fun i s => (next i s).bind f

instance : Monad (Prog σ ι) where
  pure := ret
  bind := bind

/-- A section that waits until `ready`. -/
def await (ready : σ → Bool) (f : ι → σ → α × σ) : Prog σ ι α :=
  step ready (fun i s => (f i s).2) fun i s => ret (f i s).1

/-- A section that never waits. -/
def atomically (f : ι → σ → α × σ) : Prog σ ι α := await (fun _ => true) f

/-- A section that only reads the state. -/
def load (f : σ → α) : Prog σ ι α := atomically fun _ s => (f s, s)

/-- A section that only asks the environment. -/
def input (f : ι → α) : Prog σ ι α := atomically fun i s => (f i, s)

/-- A section that only changes the state. -/
def store (f : ι → σ → σ) : Prog σ ι Unit := atomically fun i s => ((), f i s)

end Prog

/-! ### Executions of one program -/

namespace Prog

variable {σ ι α β γ : Type} (obs : σ → σ → List γ)

/-- `P` holds of the result and of what the sections put out, whatever inputs there are and whatever
the others do between the sections. -/
def Always : Prog σ ι α → (α → List γ → Prop) → Prop
  | ret a, P => P a []
  | step ready act next, P => ∀ i s, ready s = true →
      (next i s).Always fun a o => P a (obs s (act i s) ++ o)

/-- As `Always`, for the executions all of whose sections start where `good` holds.  What a section
puts out may depend on its input. -/
def During (good : σ → Prop) (obs : ι → σ → σ → List γ) : Prog σ ι α → (α → List γ → Prop) → Prop
  | ret a, P => P a []
  | step ready act next, P => ∀ i s, good s → ready s = true →
      (next i s).During good obs fun a o => P a (obs i s (act i s) ++ o)

/-- The program ends with `P` if it runs alone from `s`, with the same input all along. -/
def Alone (i : ι) : Prog σ ι α → σ → (α → σ → Prop) → Prop
  | ret a, s, P => P a s
  | step ready act next, s, P => ready s = true ∧ (next i s).Alone i (act i s) P

variable {obs} {p : Prog σ ι α} {f : α → Prog σ ι β} {P P' : α → List γ → Prop}
  {Q : β → List γ → Prop} {i : ι} {s : σ}

theorem Always.mono (h : p.Always obs P) (hP : ∀ a o, P a o → P' a o) : p.Always obs P' := by
  induction p generalizing P P' with
  | ret a => exact hP a [] h
  | step ready act next ih => exact fun i s hs => ih i s (h i s hs) fun a o => hP a _

theorem Always.and (h : p.Always obs P) (h' : p.Always obs P') :
    p.Always obs fun a o => P a o ∧ P' a o := by
  induction p generalizing P P' with
  | ret a => exact ⟨h, h'⟩
  | step ready act next ih => exact fun i s hs => ih i s (h i s hs) (h' i s hs)

theorem Always.bind (hp : p.Always obs P)
    (hf : ∀ a o, P a o → (f a).Always obs fun b o' => Q b (o ++ o')) : (p >>= f).Always obs Q := by
  induction p generalizing P Q with
  | ret a =>
    exact (hf a [] hp).mono fun b o' h => h
  | step ready act next ih =>
    refine fun i s hs => ih i s (hp i s hs) fun a o h => ?_
    exact (hf a _ h).mono fun b o' h => by rwa [List.append_assoc] at h

/-- A section that never waits. -/
theorem Always.atomically {f : ι → σ → α × σ} (h : ∀ i s, P (f i s).1 (obs s (f i s).2)) :
    (Prog.atomically f).Always obs P := by
  intro i s _
  show P (f i s).1 (obs s (f i s).2 ++ [])
  rw [List.append_nil]
  exact h i s

section During

variable {good : σ → Prop} {obs : ι → σ → σ → List γ}

theorem During.mono (h : p.During good obs P) (hP : ∀ a o, P a o → P' a o) :
    p.During good obs P' := by
  induction p generalizing P P' with
  | ret a => exact hP a [] h
  | step ready act next ih => exact fun i s hg hs => ih i s (h i s hg hs) fun a o => hP a _

theorem During.bind (hp : p.During good obs P)
    (hf : ∀ a o, P a o → (f a).During good obs fun b o' => Q b (o ++ o')) :
    (p >>= f).During good obs Q := by
  induction p generalizing P Q with
  | ret a =>
    exact (hf a [] hp).mono fun b o' h => h
  | step ready act next ih =>
    refine fun i s hg hs => ih i s (hp i s hg hs) fun a o h => ?_
    exact (hf a _ h).mono fun b o' h => by rwa [List.append_assoc] at h

/-- A section that never waits. -/
theorem During.atomically {f : ι → σ → α × σ}
    (h : ∀ i s, good s → P (f i s).1 (obs i s (f i s).2)) :
    (Prog.atomically f).During good obs P := by
  intro i s hg _
  show P (f i s).1 (obs i s (f i s).2 ++ [])
  rw [List.append_nil]
  exact h i s hg

end During

theorem Alone.atomically {f : ι → σ → α × σ} {P : α → σ → Prop} (h : P (f i s).1 (f i s).2) :
    (Prog.atomically f).Alone i s P :=
  ⟨rfl, h⟩

theorem Alone.mono {P P' : α → σ → Prop} (h : p.Alone i s P) (hP : ∀ a s, P a s → P' a s) :
    p.Alone i s P' := by
  induction p generalizing s with
  | ret a => exact hP a s h
  | step ready act next ih => exact ⟨h.1, ih i s h.2⟩

theorem Alone.bind {P : α → σ → Prop} {Q : β → σ → Prop} (hp : p.Alone i s P)
    (hf : ∀ a s, P a s → (f a).Alone i s Q) : (p >>= f).Alone i s Q := by
  induction p generalizing s with
  | ret a => exact hf a s hp
  | step ready act next ih => exact ⟨hp.1, ih i s hp.2⟩

/-- What every execution does, an execution alone does. -/
theorem Always.alone {Q : α → σ → Prop} (h : p.Always obs P) (halone : p.Alone i s Q) :
    ∃ a o s', P a o ∧ Q a s' := by
  induction p generalizing s P with
  | ret a => exact ⟨a, [], s, h, halone⟩
  | step ready act next ih =>
    obtain ⟨a, o, s', hP, hQ⟩ := ih i s (h i s halone.1) halone.2
    exact ⟨a, _, s', hP, hQ⟩

/-- The result of a program that runs alone, with the same input all along, if it does not wait. -/
def runAlone (i : ι) : Prog σ ι α → σ → Option α
  | ret a, _ => some a
  | step ready act next, s => if ready s then (next i s).runAlone i (act i s) else none

theorem Always.runAlone {a : α} (h : p.Always obs P) (hrun : p.runAlone i s = some a) :
    ∃ o, P a o := by
  induction p generalizing s P with
  | ret b =>
    obtain rfl := Option.some.inj hrun
    exact ⟨[], h⟩
  | step ready act next ih =>
    rw [Prog.runAlone] at hrun
    split_ifs at hrun with hready
    obtain ⟨o, ho⟩ := ih i s (h i s hready) hrun
    exact ⟨_, ho⟩

/-- A program that runs alone, with an input for each of its sections. -/
def runSolo : Prog σ ι α → List ι → σ → Option (α × σ)
  | ret a, [], s => some (a, s)
  | ret _, _ :: _, _ => none
  | step _ _ _, [], _ => none
  | step ready act next, i :: inputs, s =>
    if ready s then (next i s).runSolo inputs (act i s) else none

/-- `Q` holds whenever the program ends that runs alone from `s`, whatever inputs it is given. -/
def Solo : Prog σ ι α → σ → (α → σ → Prop) → Prop
  | ret a, s, Q => Q a s
  | step ready act next, s, Q => ∀ i, ready s = true → (next i s).Solo (act i s) Q

theorem Solo.bind {P : α → σ → Prop} {Q : β → σ → Prop} (hp : p.Solo s P)
    (hf : ∀ a s, P a s → (f a).Solo s Q) : (p >>= f).Solo s Q := by
  induction p generalizing s with
  | ret a => exact hf a s hp
  | step ready act next ih => exact fun i hready => ih i s (hp i hready)

/-- A section, whether it waits or not. -/
theorem Solo.await {ready : σ → Bool} {f : ι → σ → α × σ} {Q : α → σ → Prop}
    (h : ∀ i, ready s = true → Q (f i s).1 (f i s).2) : (Prog.await ready f).Solo s Q :=
  h

theorem Solo.atomically {f : ι → σ → α × σ} {Q : α → σ → Prop} (h : ∀ i, Q (f i s).1 (f i s).2) :
    (Prog.atomically f).Solo s Q :=
  fun i _ => h i

/-- What holds whenever the program ends holds of a run that ended. -/
theorem Solo.of_runSolo {Q : α → σ → Prop} {inputs : List ι} {a : α} {s' : σ} (h : p.Solo s Q)
    (hrun : p.runSolo inputs s = some (a, s')) : Q a s' := by
  induction p generalizing s inputs with
  | ret b =>
    cases inputs with
    | nil =>
      cases hrun
      exact h
    | cons i inputs => cases hrun
  | step ready act next ih =>
    cases inputs with
    | nil => cases hrun
    | cons i inputs =>
      rw [runSolo] at hrun
      split_ifs at hrun with hready
      exact ih i s (h i hready) hrun

/-! ### Programs that may fail -/

section Returns

variable {ε : Type} (obs)

/-- If the program succeeds, `P` holds of its result. -/
def Returns (m : ExceptT ε (Prog σ ι) α) (P : α → Prop) : Prop :=
  m.run.Always obs fun r _ => ∀ a, r = .ok a → P a

variable {obs} {m : ExceptT ε (Prog σ ι) α} {k : α → ExceptT ε (Prog σ ι) β} {P P' : α → Prop}
  {Q : β → Prop}

theorem Returns.mono (h : Returns obs m P) (hP : ∀ a, P a → P' a) : Returns obs m P' :=
  Always.mono h fun _ _ hr a ha => hP a (hr a ha)

theorem Returns.pure {a : α} (h : P a) : Returns obs (pure a : ExceptT ε (Prog σ ι) α) P := by
  rintro _ ⟨⟩
  exact h

theorem Returns.bind (hm : Returns obs m P) (hk : ∀ a, P a → Returns obs (k a) Q) :
    Returns obs (m >>= k) Q := by
  refine Always.bind hm fun r _ hr => ?_
  cases r with
  | error e => exact nofun
  | ok a => exact hk a (hr a rfl)

/-- Nothing is said of the result. -/
theorem Always.trivial (p : Prog σ ι α) : p.Always obs fun _ _ => True := by
  induction p with
  | ret a => exact True.intro
  | step ready act next ih => exact fun i s _ => ih i s

theorem Returns.trivial (m : ExceptT ε (Prog σ ι) α) : Returns obs m fun _ => True :=
  (Always.trivial m.run).mono fun _ _ _ _ _ => True.intro

end Returns

end Prog

/-! ### Systems -/

/-- A shared state and the threads, each with what is left of its call. -/
structure System (σ ι : Type) where
  /-- What all threads share. -/
  shared : σ
  /-- What each thread still has to do. -/
  threads : ℕ → Prog σ ι Unit

/-- What happens next: an idle thread starts a call, or a thread runs its next section. -/
inductive Move (ι κ : Type) where
  | call (t : ℕ) (op : κ)
  | run (t : ℕ) (i : ι)

namespace System

variable {σ ι κ : Type} (program : ℕ → κ → Prog σ ι Unit)

/-- A system whose threads are all idle. -/
def idle (s : σ) : System σ ι := ⟨s, fun _ => .ret ()⟩

/-- Make a move, if it is possible. -/
def move (sys : System σ ι) : Move ι κ → Option (System σ ι)
  | .call t op =>
    match sys.threads t with
    | .ret _ => some { sys with threads := Function.update sys.threads t (program t op) }
    | .step .. => none
  | .run t i =>
    match sys.threads t with
    | .ret _ => none
    | .step ready act next =>
      if ready sys.shared then
        some ⟨act i sys.shared, Function.update sys.threads t (next i sys.shared)⟩
      else none

/-- Make moves one after the other. -/
def run (sys : System σ ι) : List (Move ι κ) → Option (System σ ι)
  | [] => some sys
  | m :: ms =>
    match sys.move program m with
    | some sys' => sys'.run ms
    | none => none

end System

/-! ### Proof outlines -/

/-- What the others do does not disturb `P`. -/
def Stable {σ : Type} (R : σ → σ → Prop) (P : σ → Prop) : Prop := ∀ s s', R s s' → P s → P s'

/-- A proof outline: assertions between the sections of a program. -/
def Outline {σ ι α : Type} (I : σ → Prop) (R G : σ → σ → Prop) (Q : α → σ → Prop) :
    Prog σ ι α → (σ → Prop) → Prop
  | .ret a, P => Stable R P ∧ ∀ s, P s → Q a s
  | .step ready act next, P => Stable R P ∧ ∀ i s, I s → P s → ready s = true →
      G s (act i s) ∧ ∃ P', P' (act i s) ∧ Outline I R G Q (next i s) P'

namespace Outline

variable {σ ι α β : Type} {I : σ → Prop} {R G : σ → σ → Prop} {Q : α → σ → Prop} {P P' : σ → Prop}

theorem stable {p : Prog σ ι α} (h : Outline I R G Q p P) : Stable R P := by
  cases p with
  | ret a => exact h.1
  | step ready act next => exact h.1

/-- A stronger assertion, if it is stable. -/
theorem mono {p : Prog σ ι α} (h : Outline I R G Q p P) (hstable : Stable R P')
    (hP : ∀ s, P' s → P s) : Outline I R G Q p P' := by
  cases p with
  | ret a => exact ⟨hstable, fun s hs => h.2 s (hP s hs)⟩
  | step ready act next => exact ⟨hstable, fun i s hI hs => h.2 i s hI (hP s hs)⟩

theorem pure {a : α} (hstable : Stable R P) (h : ∀ s, P s → Q a s) :
    Outline I R G Q (Pure.pure a : Prog σ ι α) P :=
  ⟨hstable, h⟩

theorem bind {p : Prog σ ι α} {f : α → Prog σ ι β} {Q' : β → σ → Prop}
    (hp : Outline I R G Q p P) (hf : ∀ a, Outline I R G Q' (f a) (Q a)) :
    Outline I R G Q' (p >>= f) P := by
  induction p generalizing P with
  | ret a => exact (hf a).mono hp.1 hp.2
  | step ready act next ih =>
    refine ⟨hp.1, fun i s hI hs hready => ?_⟩
    obtain ⟨hG, P', hP', hnext⟩ := hp.2 i s hI hs hready
    exact ⟨hG, P', hP', ih i s hnext⟩

/-- A fact that is not about the state. -/
theorem of_fact {φ : Prop} {p : Prog σ ι α} (h : φ → Outline I R G Q p P) :
    Outline I R G Q p fun s => φ ∧ P s := by
  by_cases hφ : φ
  · exact (h hφ).mono (fun s s' hR hs => ⟨hφ, (h hφ).stable s s' hR hs.2⟩) fun _ hs => hs.2
  · -- Without it the assertion is empty.
    have hstable : Stable R fun s => φ ∧ P s := fun _ _ _ hs => absurd hs.1 hφ
    cases p with
    | ret a => exact ⟨hstable, fun _ hs => absurd hs.1 hφ⟩
    | step ready act next => exact ⟨hstable, fun _ _ _ hs => absurd hs.1 hφ⟩

/-- A section, from a stable assertion to one that is stable for each of its results. -/
theorem await {ready : σ → Bool} {f : ι → σ → α × σ} (hstable : Stable R P)
    (hpost : ∀ a, Stable R (Q a))
    (h : ∀ i s, I s → P s → ready s = true → G s (f i s).2 ∧ Q (f i s).1 (f i s).2) :
    Outline I R G Q (Prog.await ready f) P := by
  refine ⟨hstable, fun i s hI hs hready => ?_⟩
  obtain ⟨hG, hQ⟩ := h i s hI hs hready
  exact ⟨hG, Q (f i s).1, hQ, hpost _, fun _ h => h⟩

theorem atomically {f : ι → σ → α × σ} (hstable : Stable R P) (hpost : ∀ a, Stable R (Q a))
    (h : ∀ i s, I s → P s → G s (f i s).2 ∧ Q (f i s).1 (f i s).2) :
    Outline I R G Q (Prog.atomically f) P :=
  await hstable hpost fun i s hI hs _ => h i s hI hs

/-- A section that changes nothing. -/
theorem load {f : σ → α} (hG : ∀ s, I s → G s s) (hstable : Stable R P)
    (hpost : ∀ a, Stable R (Q a))
    (h : ∀ s, I s → P s → Q (f s) s) : Outline I R G Q (Prog.load f : Prog σ ι α) P :=
  atomically hstable hpost fun _ s hI hs => ⟨hG s hI, h s hI hs⟩

theorem input {f : ι → α} (hG : ∀ s, I s → G s s) (hstable : Stable R P)
    (hpost : ∀ a, Stable R (Q a))
    (h : ∀ i s, I s → P s → Q (f i) s) : Outline I R G Q (Prog.input f : Prog σ ι α) P :=
  atomically hstable hpost fun i s hI hs => ⟨hG s hI, h i s hI hs⟩

theorem store {f : ι → σ → σ} {Q : σ → Prop} (hstable : Stable R P) (hpost : Stable R Q)
    (h : ∀ i s, I s → P s → G s (f i s) ∧ Q (f i s)) :
    Outline I R G (fun _ => Q) (Prog.store f : Prog σ ι Unit) P :=
  atomically hstable (fun _ => hpost) h

end Outline

/-! ### Soundness -/

namespace System

variable {σ ι κ : Type} {program : ℕ → κ → Prog σ ι Unit} {I : σ → Prop} {R G : ℕ → σ → σ → Prop}
  {P : ℕ → σ → Prop}

/-- Every thread is somewhere in an outline that ends with the thread idle again. -/
def Outlined (I : σ → Prop) (R G : ℕ → σ → σ → Prop) (P : ℕ → σ → Prop) (sys : System σ ι) : Prop :=
  ∀ t, ∃ A, A sys.shared ∧ Outline I (R t) (G t) (fun _ => P t) (sys.threads t) A

theorem outlined_idle (hstable : ∀ t, Stable (R t) (P t)) {s : σ} (h : ∀ t, P t s) :
    Outlined I R G P (idle s : System σ ι) :=
  fun t => ⟨P t, h t, hstable t, fun _ hs => hs⟩

theorem outlined_update {threads : ℕ → Prog σ ι Unit} {s' : σ} {t : ℕ} {p : Prog σ ι Unit}
    (hself : ∃ A, A s' ∧ Outline I (R t) (G t) (fun _ => P t) p A)
    (hothers : ∀ t' ≠ t, ∃ A, A s' ∧ Outline I (R t') (G t') (fun _ => P t') (threads t') A) :
    Outlined I R G P ⟨s', Function.update threads t p⟩ := by
  intro t'
  by_cases ht : t' = t
  · subst ht
    simp only [Function.update_self]
    exact hself
  · simp only [Function.update_of_ne ht]
    exact hothers t' ht

theorem move_sound (hI : ∀ t s s', I s → G t s s' → I s')
    (hG : ∀ t t' s s', t ≠ t' → I s → G t s s' → R t' s s')
    (hprog : ∀ t op, Outline I (R t) (G t) (fun _ => P t) (program t op) (P t))
    {sys sys' : System σ ι} {m : Move ι κ} (hm : sys.move program m = some sys')
    (hinv : I sys.shared) (hout : Outlined I R G P sys) :
    I sys'.shared ∧ Outlined I R G P sys' := by
  cases m with
  | call t op =>
    simp only [move] at hm
    cases ht : sys.threads t with
    | step ready act next =>
      rw [ht] at hm
      cases hm
    | ret u =>
      rw [ht] at hm
      cases hm
      -- The thread was idle, so its assertion is the one calls start from.
      obtain ⟨A, hA, houtline⟩ := hout t
      rw [ht] at houtline
      exact ⟨hinv, outlined_update ⟨P t, houtline.2 _ hA, hprog t op⟩ fun t' _ => hout t'⟩
  | run t i =>
    simp only [move] at hm
    cases ht : sys.threads t with
    | ret u =>
      rw [ht] at hm
      cases hm
    | step ready act next =>
      rw [ht] at hm
      simp only at hm
      split_ifs at hm with hready
      cases hm
      obtain ⟨A, hA, houtline⟩ := hout t
      rw [ht] at houtline
      obtain ⟨hstep, A', hA', hnext⟩ := houtline.2 i sys.shared hinv hA hready
      refine ⟨hI t _ _ hinv hstep, outlined_update ⟨A', hA', hnext⟩ fun t' htt => ?_⟩
      -- The other threads' assertions are stable under what this one promises.
      obtain ⟨B, hB, houtline'⟩ := hout t'
      exact ⟨B, houtline'.stable _ _ (hG t t' _ _ (Ne.symm htt) hinv hstep) hB, houtline'⟩

/-- **Every run keeps the invariant.** -/
theorem run_sound (hI : ∀ t s s', I s → G t s s' → I s')
    (hG : ∀ t t' s s', t ≠ t' → I s → G t s s' → R t' s s')
    (hprog : ∀ t op, Outline I (R t) (G t) (fun _ => P t) (program t op) (P t))
    (ms : List (Move ι κ)) {sys sys' : System σ ι} (hrun : sys.run program ms = some sys')
    (hinv : I sys.shared) (hout : Outlined I R G P sys) :
    I sys'.shared ∧ Outlined I R G P sys' := by
  induction ms generalizing sys with
  | nil =>
    cases hrun
    exact ⟨hinv, hout⟩
  | cons m ms ih =>
    simp only [run] at hrun
    cases hm : sys.move program m with
    | none =>
      rw [hm] at hrun
      cases hrun
    | some sys₁ =>
      rw [hm] at hrun
      obtain ⟨hinv₁, hout₁⟩ := move_sound hI hG hprog hm hinv hout
      exact ih hrun hinv₁ hout₁

end System

end Interleave
