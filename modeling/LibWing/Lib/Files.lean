import Mathlib.Logic.Function.Basic

/-!
# Files

A disk is what there is at each path, and the operations on it either change it at once or not at
all.

* `Entry`, `Disk` : what is at a path: a regular file with its contents, or something else;
* `Disk.createNew`, `hardLink`, `remove`, `rename` : the operations, with the reasons they fail for;
* `Disk.createNew_eq_ok` and its like : what an operation that succeeds found and left.

The contents of a file belong to its path: nothing here writes to a file that has two.
-/

namespace Files

/-- What is at a path. -/
inductive Entry where
  | file (contents : List UInt8)
  | other
  deriving DecidableEq

/-- What is at each path. -/
abbrev Disk (π : Type) := π → Option Entry

/-- Why an operation fails on its own. -/
inductive Fault where
  | alreadyExists
  | notFound
  | notRegular

namespace Disk

variable {π : Type} [DecidableEq π] {d d' : Disk π} {p q : π}

/-- A new file, which must not be there. -/
def createNew (p : π) (d : Disk π) : Except Fault (Disk π) :=
  match d p with
  | none => .ok (Function.update d p (some (.file [])))
  | some _ => .error .alreadyExists

/-- The contents of an open file. -/
def write (p : π) (contents : List UInt8) (d : Disk π) : Disk π :=
  Function.update d p (some (.file contents))

/-- A second path `q` of the file at `p`. -/
def hardLink (p q : π) (d : Disk π) : Except Fault (Disk π) :=
  match d p with
  | none => .error .notFound
  | some .other => .error .notRegular
  | some (.file contents) =>
    match d q with
    | none => .ok (Function.update d q (some (.file contents)))
    | some _ => .error .alreadyExists

/-- Without the file at `p`. -/
def remove (p : π) (d : Disk π) : Except Fault (Disk π) :=
  match d p with
  | none => .error .notFound
  | some .other => .error .notRegular
  | some (.file _) => .ok (Function.update d p none)

/-- The file at `p` moved to `q`, in place of the file that is there. -/
def rename (p q : π) (d : Disk π) : Except Fault (Disk π) :=
  match d p with
  | none => .error .notFound
  | some .other => .error .notRegular
  | some (.file contents) =>
    match d q with
    | some .other => .error .notRegular
    | _ => .ok (Function.update (Function.update d p none) q (some (.file contents)))

theorem createNew_eq_ok :
    createNew p d = .ok d' ↔ d p = none ∧ d' = Function.update d p (some (.file [])) := by
  rw [createNew]
  cases h : d p with
  | none => simp [eq_comm]
  | some e => simp

theorem remove_eq_ok :
    remove p d = .ok d' ↔ (∃ contents, d p = some (.file contents)) ∧
      d' = Function.update d p none := by
  rw [remove]
  rcases d p with _ | ⟨contents⟩ | _
  · simp
  · simp [eq_comm]
  · simp

theorem hardLink_eq_ok :
    hardLink p q d = .ok d' ↔ ∃ contents, d p = some (.file contents) ∧ d q = none ∧
      d' = Function.update d q (some (.file contents)) := by
  rw [hardLink]
  rcases d p with _ | ⟨contents⟩ | _
  · simp
  · cases d q with
    | none => simp [eq_comm]
    | some e => simp
  · simp

theorem rename_eq_ok :
    rename p q d = .ok d' ↔ ∃ contents, d p = some (.file contents) ∧ d q ≠ some .other ∧
      d' = Function.update (Function.update d p none) q (some (.file contents)) := by
  rw [rename]
  rcases d p with _ | ⟨contents⟩ | _
  · simp
  · rcases d q with _ | ⟨old⟩ | _
    · simp [eq_comm]
    · simp [eq_comm]
    · simp
  · simp

end Disk

end Files
