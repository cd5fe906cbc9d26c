import LibWing.Lib.BigEndian

/-!
# Errors and machine values

The error type of the crate and the values its wire formats are made of.

* `Error` : the failures the modelled operations report (`crate::Error`);
* `F32` : a single-precision float, known by its bit pattern only;
* `i32Bytes`, `i32OfBytes` : `i32::to_be_bytes` and `i32::from_be_bytes`;
* `utf8`, `fromUtf8` : the bytes of a string, and `String::from_utf8`;
* `fromUtf8Lossy` : `String::from_utf8_lossy`.
-/

namespace LibWing

/-- The kinds of `std::io::Error` the reader tells apart; every other kind is `other`. -/
inductive IoErrorKind where
  | wouldBlock
  | timedOut
  | interrupted
  | other (code : ℕ)
  deriving DecidableEq, Repr

/-- The kinds after which the reader tries again. -/
def IoErrorKind.isBlocking : IoErrorKind → Bool
  | .other _ => false
  | _ => true

/-- `crate::Error`, without the variants of discovery and of meter frames. -/
inductive Error where
  | io (kind : IoErrorKind)
  | invalidData
  | invalidInput
  | connectionError
  | meterNotInitialized
  | timeout
  | reconnecting
  deriving DecidableEq, Repr

/-- The crate's `Result`. -/
abbrev Result (α : Type) := Except Error α

instance decEqExcept {ε α : Type} [DecidableEq ε] [DecidableEq α] : DecidableEq (Except ε α)
  | .ok a, .ok b => decidable_of_iff (a = b) ⟨congrArg _, Except.ok.inj⟩
  | .error e, .error e' => decidable_of_iff (e = e') ⟨congrArg _, Except.error.inj⟩
  | .ok _, .error _ => isFalse nofun
  | .error _, .ok _ => isFalse nofun

/-- A single-precision float, as its bit pattern. -/
structure F32 where
  /-- `f32::to_bits`. -/
  bits : UInt32
  deriving DecidableEq, Repr

open BigEndian

/-- `i32::to_be_bytes`. -/
def i32Bytes (x : Int32) : List UInt8 := toBe32 x.toUInt32

/-- `i32::from_be_bytes`. -/
def i32OfBytes (a b c d : UInt8) : Int32 := (fromBe32 a b c d).toInt32

/-- `i16::from_be_bytes`, widened to `i32`. -/
def i16OfBytes (a b : UInt8) : Int32 := (fromBe16 a b).toInt16.toInt32

/-- `f32::from_be_bytes`. -/
def f32OfBytes (a b c d : UInt8) : F32 := ⟨fromBe32 a b c d⟩

/-- `f32::to_be_bytes`. -/
def f32Bytes (x : F32) : List UInt8 := toBe32 x.bits

/-- `(value as i16).to_be_bytes()`. -/
def i16Bytes (x : Int32) : List UInt8 := toBe16 x.toInt16.toUInt16

@[simp] theorem length_i32Bytes (x : Int32) : (i32Bytes x).length = 4 := rfl

@[simp] theorem length_f32Bytes (x : F32) : (f32Bytes x).length = 4 := rfl

/-- An `i32` in the range of `i16` survives the narrowing to sixteen bits. -/
theorem toInt16_toInt32 {x : Int32} (hlo : -32768 ≤ x.toInt) (hhi : x.toInt ≤ 32767) :
    x.toInt16.toInt32 = x := by
  apply Int32.toInt_inj.1
  rw [Int16.toInt_toInt32, Int32.toInt_toInt16]
  exact Int.bmod_eq_of_le (by omega) (by omega)

/-- The bytes of a string. -/
def utf8 (s : String) : List UInt8 := s.toUTF8.data.toList

/-- `String::from_utf8`. -/
def fromUtf8 (bytes : List UInt8) : Option String := String.fromUTF8? ⟨bytes.toArray⟩

@[simp] theorem fromUtf8_utf8 (s : String) : fromUtf8 (utf8 s) = some s := by
  have hb : (⟨(utf8 s).toArray⟩ : ByteArray) = s.toByteArray := by
    simp [utf8, String.toUTF8]
  unfold fromUtf8 String.fromUTF8?
  rw [hb, dif_pos s.isValidUTF8]
  rfl

/-- The bytes that were read as a string are its bytes. -/
theorem utf8_fromUtf8 {bytes : List UInt8} {s : String} (h : fromUtf8 bytes = some s) :
    utf8 s = bytes := by
  unfold fromUtf8 String.fromUTF8? at h
  split_ifs at h with hvalid
  cases h
  rfl

/-- The bytes of a string are the bytes of its characters. -/
theorem utf8_ofList (cs : List Char) :
    utf8 (String.ofList cs) = cs.flatMap String.utf8EncodeChar := by
  simp [utf8, List.utf8Encode, String.toUTF8]

/-- A byte that goes on a character begun by an earlier one. -/
def isContinuation (byte : UInt8) : Bool := 0x80 ≤ byte && byte ≤ 0xbf

/-- `second` may follow `first` in a character of three or four bytes. -/
def isSecond (first second : UInt8) : Bool :=
  if first = 0xe0 then 0xa0 ≤ second && second ≤ 0xbf
  else if first = 0xed then 0x80 ≤ second && second ≤ 0x9f
  else if 0xe1 ≤ first ∧ first ≤ 0xef then isContinuation second
  else if first = 0xf0 then 0x90 ≤ second && second ≤ 0xbf
  else if 0xf1 ≤ first ∧ first ≤ 0xf3 then isContinuation second
  else if first = 0xf4 then 0x80 ≤ second && second ≤ 0x8f
  else false

/-- How many bytes, at the front of bytes that do not begin with a character, one replacement
character stands for: the longest beginning of a character. -/
def invalidLength : List UInt8 → ℕ
  | first :: second :: rest =>
    if isSecond first second then
      if 0xf0 ≤ first ∧ rest.head?.any isContinuation then 3 else 2
    else 1
  | _ => 1

/-- The characters of bytes, with U+FFFD for those that are no character, at most `fuel` of them. -/
def lossyChars : ℕ → List UInt8 → List Char
  | _, [] => []
  | 0, _ => []
  | fuel + 1, bytes =>
    match ByteArray.utf8DecodeChar? ⟨bytes.toArray⟩ 0 with
    | some c => c :: lossyChars fuel (bytes.drop c.utf8Size)
    | none => Char.ofNat 0xfffd :: lossyChars fuel (bytes.drop (invalidLength bytes))

/-- `String::from_utf8_lossy`: valid bytes are taken as they are. -/
def fromUtf8Lossy (bytes : List UInt8) : String :=
  (fromUtf8 bytes).getD (String.ofList (lossyChars bytes.length bytes))

@[simp] theorem fromUtf8Lossy_utf8 (s : String) : fromUtf8Lossy (utf8 s) = s := by
  rw [fromUtf8Lossy, fromUtf8_utf8]
  rfl

/-- Only the empty string has no bytes. -/
theorem utf8_eq_nil {s : String} (h : utf8 s = []) : s = "" := by
  have hs := fromUtf8_utf8 s
  rw [h] at hs
  exact (Option.some.inj hs).symm

end LibWing
