import LibWing.Lib.Byte

/-!
# Token opcodes

Every token of the Audio Engine channel begins with an opcode byte.  The request decoder, the
client's reader and the offline value parser each dispatch on it; `Opcode.ofByte` is the common
division of the byte range into the cases they tell apart.
-/

namespace LibWing

/-- The kinds of token of the Audio Engine channel. -/
inductive Opcode where
  /-- `0x00 … 0x3f`: an integer value in the opcode itself. -/
  | smallInt
  /-- `0x40 … 0x7f`: select a child by index. -/
  | index
  /-- `0x80 … 0xbf`: a string of 1 to 64 bytes. -/
  | shortString
  /-- `0xc0 … 0xcf`: select a child by name. -/
  | name
  /-- `0xd0`: the empty string. -/
  | emptyString
  /-- `0xd1`: a string of 1 to 256 bytes. -/
  | longString
  /-- `0xd2`: select a child by a sixteen-bit index. -/
  | index16
  /-- `0xd3`: a sixteen-bit integer. -/
  | int16
  /-- `0xd4`: a thirty-two-bit integer. -/
  | int32
  /-- `0xd5`: a float. -/
  | float
  /-- `0xd6`: a raw float. -/
  | rawFloat
  /-- `0xd7`: select a node by id. -/
  | nodeId
  /-- `0xd8`: toggle the selected node. -/
  | click
  /-- `0xd9`: step the selected node. -/
  | step
  /-- `0xda`: go to the root. -/
  | root
  /-- `0xdb`: go up. -/
  | up
  /-- `0xdc`: request data. -/
  | data
  /-- `0xdd`: request a definition. -/
  | definition
  /-- `0xde`: end of a reply. -/
  | requestEnd
  /-- `0xdf`: a node definition. -/
  | nodeDef
  /-- `0xe0 … 0xff`. -/
  | unknown
  deriving DecidableEq, Repr

/-- The kind of token an opcode byte begins. -/
def Opcode.ofByte (byte : UInt8) : Opcode :=
  if byte ≤ 0x3f then .smallInt
  else if byte ≤ 0x7f then .index
  else if byte ≤ 0xbf then .shortString
  else if byte ≤ 0xcf then .name
  else if byte = 0xd0 then .emptyString
  else if byte = 0xd1 then .longString
  else if byte = 0xd2 then .index16
  else if byte = 0xd3 then .int16
  else if byte = 0xd4 then .int32
  else if byte = 0xd5 then .float
  else if byte = 0xd6 then .rawFloat
  else if byte = 0xd7 then .nodeId
  else if byte = 0xd8 then .click
  else if byte = 0xd9 then .step
  else if byte = 0xda then .root
  else if byte = 0xdb then .up
  else if byte = 0xdc then .data
  else if byte = 0xdd then .definition
  else if byte = 0xde then .requestEnd
  else if byte = 0xdf then .nodeDef
  else .unknown

theorem Opcode.ofByte_smallInt : ∀ byte : UInt8, byte ≤ 0x3f → ofByte byte = .smallInt := by
  decide +kernel

theorem Opcode.ofByte_shortString :
    ∀ byte : UInt8, 0x80 ≤ byte → byte ≤ 0xbf → ofByte byte = .shortString := by
  decide +kernel

end LibWing
