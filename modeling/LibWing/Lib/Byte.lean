import Mathlib.Data.Fintype.Basic
import Mathlib.Data.Fintype.Fin

/-!
# Statements about all bytes

There are 256 bytes, so a decidable statement about every byte is decidable: `decide` proves such
statements by evaluation.
-/

namespace Byte

theorem forall_iff {p : UInt8 → Prop} : (∀ b, p b) ↔ ∀ n : Fin 256, p ⟨⟨n⟩⟩ :=
  ⟨fun h _ => h _, fun h b => h b.toFin⟩

/-- Statements about every byte are decidable. -/
instance decidableForall {p : UInt8 → Prop} [DecidablePred p] : Decidable (∀ b, p b) :=
  decidable_of_iff _ forall_iff.symm

end Byte
