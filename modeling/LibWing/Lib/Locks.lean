import Mathlib.Data.Set.Basic
import Mathlib.Logic.Function.Basic
import Mathlib.Order.WellFounded

/-!
# Threads that take locks

Threads that share locks and take turns.  What a thread does besides locking does not matter here:
a `Script` says which locks it takes, how they are nested and where it may go one way or another.

* `Script L` : what a call does with the locks `L`;
* `Config T L`, `Config.run` : who owns each lock and what is left of each thread's call, and how
  threads start calls and take turns, in any order;
* `Config.Deadlocked` : a set of threads that wait for one another;
* `Script.Ordered` : locks are taken in ascending order of their rank;
* `Config.not_deadlocked` : threads whose scripts are ordered never deadlock.
-/

namespace Locks

/-- What a call does with the locks `L`. -/
inductive Script (L : Type) where
  | skip
  /-- Take the lock, and release it after the body. -/
  | locked (l : L) (body : Script L)
  | seq (p q : Script L)
  /-- One of the two. -/
  | alt (p q : Script L)
  /-- The body any number of times. -/
  | loop (body : Script L)

namespace Script

variable {L R : Type}

/-- `p` if it comes to that. -/
def opt (p : Script L) : Script L := alt skip p

/-- `p`, which may fail, and then `q`. -/
def orFail (p q : Script L) : Script L := seq p (opt q)

/-- Take the lock and release it. -/
def briefly (l : L) : Script L := locked l skip

/-- Under `held`, locks are only taken in ascending order of their rank. -/
def Ordered [LT R] (rank : L → R) : List L → Script L → Prop
  | _, skip => True
  | held, locked l p => (∀ h ∈ held, rank h < rank l) ∧ Ordered rank (l :: held) p
  | held, seq p q => Ordered rank held p ∧ Ordered rank held q
  | held, alt p q => Ordered rank held p ∧ Ordered rank held q
  | held, loop p => Ordered rank held p

instance Ordered.decidable [LT R] [DecidableLT R] (rank : L → R) :
    ∀ (held : List L) (p : Script L), Decidable (Ordered rank held p)
  | _, skip => isTrue trivial
  | held, locked l p => @instDecidableAnd _ _ _ (decidable rank (l :: held) p)
  | held, seq p q => @instDecidableAnd _ _ (decidable rank held p) (decidable rank held q)
  | held, alt p q => @instDecidableAnd _ _ (decidable rank held p) (decidable rank held q)
  | held, loop p => decidable rank held p

end Script

/-- What is left to do. -/
inductive Task (L : Type) where
  | exec (p : Script L)
  | release (l : L)

/-- The locks that are still to be released. -/
def held {L : Type} : List (Task L) → List L
  | [] => []
  | .exec _ :: ts => held ts
  | .release l :: ts => l :: held ts

@[simp] theorem held_nil {L : Type} : held ([] : List (Task L)) = [] := rfl
@[simp] theorem held_exec {L : Type} (p : Script L) (ts : List (Task L)) :
    held (.exec p :: ts) = held ts := rfl
@[simp] theorem held_release {L : Type} (l : L) (ts : List (Task L)) :
    held (.release l :: ts) = l :: held ts := rfl

/-- The lock that is to be taken next. -/
def awaited {L : Type} : List (Task L) → Option L
  | .exec (.locked l _) :: _ => some l
  | _ => none

/-- Everything that is left is ordered under the locks held by then. -/
def OrderedTasks {L R : Type} [LT R] (rank : L → R) : List (Task L) → Prop
  | [] => True
  | .exec p :: ts => p.Ordered rank (held ts) ∧ OrderedTasks rank ts
  | .release l :: ts => (∀ h ∈ held ts, rank h < rank l) ∧ OrderedTasks rank ts

/-- Who owns each lock, and what is left of each thread's call. -/
structure Config (T L : Type) where
  /-- Who holds a lock. -/
  owner : L → Option T
  /-- What each thread still has to do. -/
  todo : T → List (Task L)

/-- What happens next: an idle thread starts a call, or a thread goes on; `b` decides where there
are two ways. -/
inductive Move (T κ : Type) where
  | call (t : T) (op : κ)
  | run (t : T) (b : Bool)

namespace Config

variable {T L κ R : Type} [DecidableEq T] [DecidableEq L]

/-- All threads are idle. -/
def idle : Config T L := ⟨fun _ => none, fun _ => []⟩

/-- The thread has this left to do. -/
def set (c : Config T L) (t : T) (ts : List (Task L)) : Config T L :=
  { c with todo := Function.update c.todo t ts }

/-- The next thing a thread does, if it need not wait. -/
def advance (c : Config T L) (t : T) (b : Bool) : Option (Config T L) :=
  match c.todo t with
  | [] => none
  | .exec .skip :: ts => some (c.set t ts)
  | .exec (.seq p q) :: ts => some (c.set t (.exec p :: .exec q :: ts))
  | .exec (.alt p q) :: ts => some (c.set t (.exec (if b then p else q) :: ts))
  | .exec (.loop p) :: ts => some (c.set t (if b then .exec p :: .exec (.loop p) :: ts else ts))
  | .exec (.locked l p) :: ts =>
    match c.owner l with
    | none => some ⟨Function.update c.owner l (some t),
        Function.update c.todo t (.exec p :: .release l :: ts)⟩
    | some _ => none
  | .release l :: ts =>
    some ⟨Function.update c.owner l none, Function.update c.todo t ts⟩

/-- Make a move, if it is possible. -/
def move (script : κ → Script L) (c : Config T L) : Move T κ → Option (Config T L)
  | .call t op =>
    match c.todo t with
    | [] => some (c.set t [.exec (script op)])
    | _ :: _ => none
  | .run t b => c.advance t b

/-- Make moves one after the other. -/
def run (script : κ → Script L) (c : Config T L) : List (Move T κ) → Option (Config T L)
  | [] => some c
  | m :: ms =>
    match c.move script m with
    | some c' => c'.run script ms
    | none => none

/-- The thread's next step is to take the lock. -/
def Waits (c : Config T L) (t : T) (l : L) : Prop := awaited (c.todo t) = some l

/-- The threads of `S` wait for one another. -/
def Deadlocked (c : Config T L) (S : Set T) : Prop :=
  S.Nonempty ∧ ∀ t ∈ S, ∃ l, c.Waits t l ∧ ∃ u ∈ S, c.owner l = some u

/-- Every thread owns the locks it has to release, and keeps to the order. -/
structure Disciplined [LT R] (rank : L → R) (c : Config T L) : Prop where
  /-- A lock is held by the thread that is going to release it. -/
  owner : ∀ l t, c.owner l = some t ↔ l ∈ held (c.todo t)
  /-- Every thread takes its locks in the order of rank. -/
  ordered : ∀ t, OrderedTasks rank (c.todo t)

omit [DecidableEq T] [DecidableEq L] in
theorem disciplined_idle [LT R] (rank : L → R) : (idle : Config T L).Disciplined rank where
  owner l t := by simp [idle]
  ordered t := by simp [idle, OrderedTasks]

variable [Preorder R] {rank : L → R} {c c' : Config T L}

namespace Disciplined

omit [DecidableEq L] in
/-- A thread that moves on and holds the same locks. -/
theorem set {t : T} {ts : List (Task L)} (h : c.Disciplined rank)
    (hheld : held ts = held (c.todo t)) (hts : OrderedTasks rank ts) :
    (c.set t ts).Disciplined rank where
  owner l u := by
    rw [Config.set]
    by_cases hu : u = t
    · subst hu
      simp only [Function.update_self, hheld]
      exact h.owner l u
    · simp only [Function.update_of_ne hu]
      exact h.owner l u
  ordered u := by
    rw [Config.set]
    by_cases hu : u = t
    · subst hu
      simpa only [Function.update_self] using hts
    · simpa only [Function.update_of_ne hu] using h.ordered u

theorem acquire {t : T} {l : L} {p : Script L} {ts : List (Task L)} (h : c.Disciplined rank)
    (ht : c.todo t = .exec (.locked l p) :: ts) (hl : c.owner l = none) :
    Disciplined rank ⟨Function.update c.owner l (some t),
      Function.update c.todo t (.exec p :: .release l :: ts)⟩ where
  owner k u := by
    have hnot : ∀ u, l ∉ held (c.todo u) := fun u hu => by
      rw [← h.owner, hl] at hu
      cases hu
    have hself := hnot t
    rw [ht] at hself
    by_cases hk : k = l <;> by_cases hu : u = t
    · subst hk hu
      simp
    · subst hk
      simp only [Function.update_self, Function.update_of_ne hu, Option.some.injEq]
      exact ⟨fun e => absurd e.symm hu, fun e => absurd e (hnot u)⟩
    · subst hu
      have := h.owner k u
      rw [ht] at this
      simp only [Function.update_of_ne hk, Function.update_self, held_exec, held_release,
        List.mem_cons, hk, false_or]
      exact this
    · simp only [Function.update_of_ne hk, Function.update_of_ne hu]
      exact h.owner k u
  ordered u := by
    by_cases hu : u = t
    · subst hu
      have := h.ordered u
      rw [ht] at this
      simp only [Function.update_self]
      exact ⟨this.1.2, this.1.1, this.2⟩
    · simpa only [Function.update_of_ne hu] using h.ordered u

theorem release {t : T} {l : L} {ts : List (Task L)} (h : c.Disciplined rank)
    (ht : c.todo t = .release l :: ts) :
    Disciplined rank ⟨Function.update c.owner l none, Function.update c.todo t ts⟩ where
  owner k u := by
    have hord := h.ordered t
    rw [ht] at hord
    -- The lock is held once: what is held below it has a smaller rank.
    have honce : l ∉ held ts := fun hmem => lt_irrefl _ (hord.1 l hmem)
    have howner : c.owner l = some t := (h.owner l t).mpr (by simp [ht])
    by_cases hk : k = l <;> by_cases hu : u = t
    · subst hk hu
      simpa using honce
    · subst hk
      simp only [Function.update_self, Function.update_of_ne hu]
      refine ⟨nofun, fun hmem => ?_⟩
      rw [← h.owner, howner] at hmem
      exact absurd (Option.some.inj hmem).symm hu
    · subst hu
      have := h.owner k u
      rw [ht] at this
      simp only [held_release, List.mem_cons, hk, false_or] at this
      simp only [Function.update_of_ne hk, Function.update_self]
      exact this
    · simp only [Function.update_of_ne hk, Function.update_of_ne hu]
      exact h.owner k u
  ordered u := by
    by_cases hu : u = t
    · subst hu
      have := h.ordered u
      rw [ht] at this
      simpa only [Function.update_self] using this.2
    · simpa only [Function.update_of_ne hu] using h.ordered u

/-- A thread's next step keeps the discipline. -/
theorem advance {t : T} {b : Bool} (h : c.Disciplined rank) (hstep : c.advance t b = some c') :
    c'.Disciplined rank := by
  have hord := h.ordered t
  simp only [Config.advance] at hstep
  split at hstep
  case h_1 => cases hstep
  case h_2 ts ht =>
    cases hstep
    rw [ht] at hord
    exact h.set (by simp [ht]) hord.2
  case h_3 p q ts ht =>
    cases hstep
    rw [ht] at hord
    exact h.set (by simp [ht]) ⟨hord.1.1, hord.1.2, hord.2⟩
  case h_4 p q ts ht =>
    cases hstep
    rw [ht] at hord
    refine h.set (by simp [ht]) ⟨?_, hord.2⟩
    split
    · exact hord.1.1
    · exact hord.1.2
  case h_5 p ts ht =>
    cases hstep
    rw [ht] at hord
    split
    · exact h.set (by simp [ht]) ⟨hord.1, hord.1, hord.2⟩
    · exact h.set (by simp [ht]) hord.2
  case h_6 l p ts ht =>
    split at hstep
    case h_1 hl =>
      cases hstep
      exact h.acquire ht hl
    case h_2 => cases hstep
  case h_7 l ts ht =>
    cases hstep
    exact h.release ht

theorem move {script : κ → Script L} (hscript : ∀ op, (script op).Ordered rank [])
    {m : Move T κ} (h : c.Disciplined rank) (hmove : c.move script m = some c') :
    c'.Disciplined rank := by
  cases m with
  | run t b => exact h.advance hmove
  | call t op =>
    simp only [Config.move] at hmove
    split at hmove
    case h_1 ht =>
      cases hmove
      exact h.set (by simp [ht]) ⟨hscript op, trivial⟩
    case h_2 => cases hmove

theorem run {script : κ → Script L} (hscript : ∀ op, (script op).Ordered rank [])
    (ms : List (Move T κ)) (h : c.Disciplined rank) (hrun : c.run script ms = some c') :
    c'.Disciplined rank := by
  induction ms generalizing c with
  | nil =>
    cases hrun
    exact h
  | cons m ms ih =>
    simp only [Config.run] at hrun
    split at hrun
    case h_1 c₁ hm => exact ih (h.move hscript hm) hrun
    case h_2 => cases hrun

omit [DecidableEq T] [DecidableEq L] in
/-- What a waiting thread holds ranks below what it waits for. -/
theorem rank_lt {t : T} {l k : L} (h : c.Disciplined rank) (hwait : c.Waits t l)
    (hown : c.owner k = some t) : rank k < rank l := by
  have hord := h.ordered t
  have hmem := (h.owner k t).mp hown
  simp only [Waits, awaited] at hwait
  split at hwait
  case h_1 p ts ht =>
    cases hwait
    rw [ht] at hord hmem
    exact hord.1.1 k hmem
  case h_2 => cases hwait

end Disciplined

variable [WellFoundedGT R]

omit [DecidableEq T] [DecidableEq L] in
/-- **Threads that keep to the order do not wait for one another.** -/
theorem not_deadlocked (h : c.Disciplined rank) (S : Set T) : ¬ c.Deadlocked S := by
  rintro ⟨⟨t, ht⟩, hwait⟩
  obtain ⟨l, hl, -⟩ := hwait t ht
  -- Induction on the rank of the lock waited for, from the top down.
  induction hr : rank l using WellFoundedGT.induction generalizing t l with
  | ind r ih =>
    obtain ⟨l₁, hl₁, u, hu, howner⟩ := hwait t ht
    have heq : l₁ = l := Option.some.inj (hl₁.symm.trans hl)
    subst heq
    obtain ⟨k, hk, -⟩ := hwait u hu
    exact ih (rank k) (hr ▸ h.rank_lt hk howner) u hu k hk rfl

end Config

end Locks
