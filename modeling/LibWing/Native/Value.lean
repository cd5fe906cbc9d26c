import LibWing.Native.Opcode
import LibWing.Basic

/-!
# Native value tokens

`NativeValue` is a typed value of the Native protocol and `encodeValue` its wire token, before
escaping: integers in one, three or five bytes, floats in five, strings in three forms by length.
The same token encoder serves the client's `set_*` messages and the server's responses, and the
lemmas that read its bytes back serve both decoders.
-/

namespace LibWing

/-- A typed Native value. -/
inductive NativeValue where
  | integer (value : Int32)
  | float (value : F32)
  | rawFloat (value : F32)
  | string (value : String)
  deriving DecidableEq, Repr

/-- `value`'s unescaped wire token. -/
def encodeValue : NativeValue → Result (List UInt8)
  | .integer value =>
    if 0 ≤ value.toInt ∧ value.toInt ≤ 0x3f then .ok [value.toUInt32.toUInt8]
    else if -32768 ≤ value.toInt ∧ value.toInt ≤ 32767 then .ok (0xd3 :: i16Bytes value)
    else .ok (0xd4 :: i32Bytes value)
  | .float value => .ok (0xd5 :: f32Bytes value)
  | .rawFloat value => .ok (0xd6 :: f32Bytes value)
  | .string value =>
    if (utf8 value).length = 0 then .ok [0xd0]
    else if (utf8 value).length ≤ 64 then
      .ok ((0x7f + UInt8.ofNat (utf8 value).length) :: utf8 value)
    else if (utf8 value).length ≤ 256 then
      .ok (0xd1 :: UInt8.ofNat ((utf8 value).length - 1) :: utf8 value)
    else .error .invalidInput

/-- The values `encodeValue` accepts: every one but the strings longer than 256 bytes. -/
theorem encodeValue_isOk (value : NativeValue) :
    (∃ token, encodeValue value = .ok token) ↔
      ∀ s, value = .string s → (utf8 s).length ≤ 256 := by
  cases value with
  | integer v =>
    simp only [encodeValue]
    split_ifs <;> simp
  | float v => simp [encodeValue]
  | rawFloat v => simp [encodeValue]
  | string s =>
    simp only [encodeValue, NativeValue.string.injEq, forall_eq']
    split_ifs with h₁ h₂ h₃ <;> simp <;> omega

/-! ### Reading the bytes of a token back -/

/-- The bits of a non-negative integer are its number. -/
theorem toNat_toUInt32 {value : Int32} (h₀ : 0 ≤ value.toInt) :
    (value.toUInt32.toNat : ℤ) = value.toInt := by
  have h := BitVec.toInt_eq_toNat_cond value.toBitVec
  have hlt := value.toBitVec.isLt
  change value.toInt = _ at h
  change (value.toBitVec.toNat : ℤ) = _
  split_ifs at h with hc
  · exact h.symm
  · omega

/-- A small integer is its own opcode. -/
theorem smallInt_byte {value : Int32} (h₀ : 0 ≤ value.toInt) (h₁ : value.toInt ≤ 0x3f) :
    Opcode.ofByte value.toUInt32.toUInt8 = .smallInt ∧
      value.toUInt32.toUInt8.toUInt32.toInt32 = value := by
  have hv := toNat_toUInt32 h₀
  have h8 : value.toUInt32.toUInt8.toNat = value.toUInt32.toNat := by
    rw [UInt32.toNat_toUInt8]
    omega
  have hle : value.toUInt32.toUInt8 ≤ 0x3f := by
    rw [UInt8.le_iff_toNat_le, h8]
    change _ ≤ 63
    omega
  have h32 : value.toUInt32.toUInt8.toUInt32 = value.toUInt32 :=
    UInt32.toNat_inj.1 (by rw [UInt8.toNat_toUInt32, h8])
  exact ⟨Opcode.ofByte_smallInt _ hle, by rw [h32, Int32.toInt32_toUInt32]⟩

/-- The opcode of a short string names its length. -/
theorem shortString_byte {n : ℕ} (h₀ : n ≠ 0) (h₁ : n ≤ 64) :
    Opcode.ofByte (0x7f + UInt8.ofNat n) = .shortString ∧
      (0x7f + UInt8.ofNat n - 0x7f).toNat = n := by
  have hn : (0x7f + UInt8.ofNat n).toNat = 127 + n := by
    rw [UInt8.toNat_add, UInt8.toNat_ofNat']
    change (127 + n % 256) % 256 = _
    omega
  refine ⟨Opcode.ofByte_shortString _ ?_ ?_, ?_⟩
  · rw [UInt8.le_iff_toNat_le, hn]
    change 128 ≤ _
    omega
  · rw [UInt8.le_iff_toNat_le, hn]
    change _ ≤ 191
    omega
  · rw [UInt8.toNat_sub_of_le _ _ (by rw [UInt8.le_iff_toNat_le, hn]; change 127 ≤ _; omega), hn]
    change 127 + n - 127 = n
    omega

/-- The same length, as the offline parser computes it. -/
theorem shortString_length {n : ℕ} (h₀ : n ≠ 0) (h₁ : n ≤ 64) :
    (0x7f + UInt8.ofNat n - 0x80).toNat + 1 = n := by
  have hn : (0x7f + UInt8.ofNat n).toNat = 127 + n := by
    rw [UInt8.toNat_add, UInt8.toNat_ofNat']
    change (127 + n % 256) % 256 = _
    omega
  rw [UInt8.toNat_sub_of_le _ _ (by rw [UInt8.le_iff_toNat_le, hn]; change 128 ≤ _; omega), hn]
  change 127 + n - 128 + 1 = n
  omega

/-- The length byte of a long string. -/
theorem longString_byte {n : ℕ} (h₀ : n ≠ 0) (h₁ : n ≤ 256) :
    (UInt8.ofNat (n - 1)).toNat + 1 = n := by
  rw [UInt8.toNat_ofNat']
  omega

end LibWing
