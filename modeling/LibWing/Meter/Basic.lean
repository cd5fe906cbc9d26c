import LibWing.Native.Channel

/-!
# Meters

`Meter` names a meter of the console.  On the wire a meter is the opcode of its family followed,
for the indexed families, by a zero-based index byte.

* `Meter.wire`, `Meter.fromWire` : the family table and its inverse;
* `encodeMeter` : one entry of a subscription, refused when the index is out of the family's range.
-/

namespace LibWing

/-- A meter of the console; the indices are one-based. -/
inductive Meter where
  | channel (n : UInt8)
  | aux (n : UInt8)
  | bus (n : UInt8)
  | main (n : UInt8)
  | matrix (n : UInt8)
  | dca (n : UInt8)
  | fx (n : UInt8)
  | source (n : UInt8)
  | output (n : UInt8)
  | monitor
  | rta
  | channel2 (n : UInt8)
  | aux2 (n : UInt8)
  | bus2 (n : UInt8)
  | main2 (n : UInt8)
  | matrix2 (n : UInt8)
  deriving DecidableEq, Repr

namespace Meter

/-- `(opcode, index, max)`: the family's opcode, the one-based index (0 for the index-less
families) and the family's largest valid index. -/
def wire : Meter → UInt8 × UInt8 × UInt8
  | channel n => (0xa0, n, 40)
  | aux n => (0xa1, n, 8)
  | bus n => (0xa2, n, 16)
  | main n => (0xa3, n, 4)
  | matrix n => (0xa4, n, 8)
  | dca n => (0xa5, n, 16)
  | fx n => (0xa6, n, 16)
  | source n => (0xa7, n, 16)
  | output n => (0xa8, n, 11)
  | monitor => (0xa9, 0, 0)
  | rta => (0xaa, 0, 0)
  | channel2 n => (0xab, n, 40)
  | aux2 n => (0xac, n, 8)
  | bus2 n => (0xad, n, 16)
  | main2 n => (0xae, n, 4)
  | matrix2 n => (0xaf, n, 8)

/-- Inverse of `wire`.  The index is not range-checked here. -/
def fromWire (opcode index : UInt8) : Option Meter :=
  if opcode = 0xa0 then some (channel index)
  else if opcode = 0xa1 then some (aux index)
  else if opcode = 0xa2 then some (bus index)
  else if opcode = 0xa3 then some (main index)
  else if opcode = 0xa4 then some (matrix index)
  else if opcode = 0xa5 then some (dca index)
  else if opcode = 0xa6 then some (fx index)
  else if opcode = 0xa7 then some (source index)
  else if opcode = 0xa8 then some (output index)
  else if opcode = 0xa9 ∧ index = 0 then some monitor
  else if opcode = 0xaa ∧ index = 0 then some rta
  else if opcode = 0xab then some (channel2 index)
  else if opcode = 0xac then some (aux2 index)
  else if opcode = 0xad then some (bus2 index)
  else if opcode = 0xae then some (main2 index)
  else if opcode = 0xaf then some (matrix2 index)
  else none

end Meter

/-- The entry of one meter in a subscription, appended to `buf`: the opcode and, for an indexed
family, the escaped zero-based index. -/
def encodeMeter (buf : List UInt8) (meter : Meter) : Result (List UInt8) :=
  let (opcode, n, max) := meter.wire
  if max = 0 then .ok (buf ++ [opcode])
  else if n = 0 ∨ n > max then .error .invalidInput
  else .ok (appendEscaped (buf ++ [opcode]) [n - 1])

namespace Meter

/-- The unescaped bytes of a meter entry. -/
def entry (meter : Meter) : List UInt8 :=
  if meter.wire.2.2 = 0 then [meter.wire.1] else [meter.wire.1, meter.wire.2.1 - 1]

/-- The meters `encodeMeter` accepts. -/
def Valid (meter : Meter) : Prop :=
  meter.wire.2.2 = 0 ∨ meter.wire.2.1 ≠ 0 ∧ meter.wire.2.1 ≤ meter.wire.2.2

instance (meter : Meter) : Decidable meter.Valid := by
  unfold Valid; infer_instance

/-- Every opcode lies in `0xa0 … 0xaf`. -/
theorem opcode_range (meter : Meter) : 0xa0 ≤ meter.wire.1 ∧ meter.wire.1 ≤ 0xaf := by
  cases meter <;> simp only [wire] <;> decide

/-- Every index of a valid meter is below the largest family. -/
theorem max_le (meter : Meter) : meter.wire.2.2 ≤ 40 := by
  cases meter <;> simp only [wire] <;> decide

/-- An index-less family takes no index. -/
theorem index_eq_zero (meter : Meter) (h : meter.wire.2.2 = 0) : meter.wire.2.1 = 0 := by
  cases meter <;> first | rfl | exact absurd h (by simp only [wire]; decide)

/-- The opcode of an indexed family alone names no index-less meter. -/
theorem fromWire_zero (meter : Meter) (h : meter.wire.2.2 ≠ 0) :
    (fromWire meter.wire.1 0).filter (fun m => m.wire.2.2 = 0) = none := by
  cases meter <;> first | exact absurd rfl h | rfl

theorem fromWire_wire (meter : Meter) :
    fromWire meter.wire.1 meter.wire.2.1 = some meter := by
  cases meter <;> simp [wire, fromWire]

end Meter

/-- `encodeMeter` accepts the valid meters and appends their escaped entries. -/
theorem encodeMeter_eq (buf : List UInt8) (meter : Meter) :
    encodeMeter buf meter =
      if meter.Valid then .ok (buf ++ escapeBytes meter.entry) else .error .invalidInput := by
  have hop : meter.wire.1 ≠ escape := by
    cases meter <;> simp only [Meter.wire] <;> decide
  unfold encodeMeter Meter.Valid Meter.entry
  by_cases hm : meter.wire.2.2 = 0
  · simp [hm, escapeBytes_singleton hop]
  · by_cases hn : meter.wire.2.1 = 0
    · simp [hm, hn]
    · by_cases hle : meter.wire.2.1 ≤ meter.wire.2.2
      · have hgt : ¬ meter.wire.2.1 > meter.wire.2.2 := UInt8.not_lt.2 hle
        simp only [hm, hn, hle, hgt, or_false, ↓reduceIte, ne_eq, not_false_eq_true, and_self,
          or_true, appendEscaped_eq]
        rw [show [meter.wire.1, meter.wire.2.1 - 1] = [meter.wire.1] ++ [meter.wire.2.1 - 1] from
          rfl, escapeBytes_append, escapeBytes_singleton hop, List.append_assoc]
      · have hgt : meter.wire.2.1 > meter.wire.2.2 := UInt8.not_le.1 hle
        simp [hm, hn, hle, hgt]

end LibWing
