import LibWing.Lib.Except
import LibWing.Lib.Text
import Mathlib.Data.Bool.AllAny
import Mathlib.Data.String.Basic
import Mathlib.Tactic.IntervalCases

/-!
# The hex of captures

The payloads of a capture are hex digits.  They are cut into pairs by their bytes and read as
numbers are.

* `decodeHex`, `encodeHex` : `decode_hex`, with its panics, and `encode_hex`;
* `decodeHex_encodeHex` : what was encoded is decoded;
* `ReadsExactly` : hex digits are read, and everything else is refused;
* `readsExactly_iff` : that is so unless a plus sign stands for a digit, or a pair ends within a
  character.
-/

namespace LibWing

namespace Wingcapture

open Text

/-- How a function of the tool fails. -/
inductive Failure where
  | error (message : String)
  | panic
  deriving DecidableEq, Repr

/-! ### Bytes of text -/

/-- `str::len`. -/
def byteLength (s : List Char) : ℕ := (s.map Char.utf8Size).sum

/-- Text cut at a byte; `none` within a character, or behind the end. -/
def splitAtByte : ℕ → List Char → Option (List Char × List Char)
  | 0, s => some ([], s)
  | _ + 1, [] => none
  | n + 1, c :: s =>
    if c.utf8Size ≤ n + 1 then
      (splitAtByte (n + 1 - c.utf8Size) s).map fun (before, after) => (c :: before, after)
    else none

/-- `&s[start..stop]`; `none` is a panic. -/
def sliceBytes (s : List Char) (start stop : ℕ) : Option (List Char) := do
  let (_, rest) ← splitAtByte start s
  let (slice, _) ← splitAtByte (stop - start) rest
  return slice

/-! ### Hex -/

/-- `char::to_digit(16)`. -/
def hexValue (c : Char) : Option ℕ :=
  if '0' ≤ c ∧ c ≤ '9' then some (c.toNat - 48)
  else if 'a' ≤ c ∧ c ≤ 'f' then some (c.toNat - 87)
  else if 'A' ≤ c ∧ c ≤ 'F' then some (c.toNat - 55)
  else none

/-- The value of hex digits. -/
def hexNumber (digits : List Char) : Option ℕ :=
  digits.foldlM (fun n c => (hexValue c).map fun digit => 16 * n + digit) 0

/-- `u8::from_str_radix(s, 16)`: a plus sign may stand in front of the digits. -/
def fromStrRadix16 (s : List Char) : Except String UInt8 :=
  if s = [] then .error "cannot parse integer from empty string"
  else
    let digits := if s.head? = some '+' then s.tail else s
    if digits = [] then .error "invalid digit found in string"
    else match hexNumber digits with
      | none => .error "invalid digit found in string"
      | some n =>
        if n < 256 then .ok (UInt8.ofNat n) else .error "number too large to fit in target type"

/-- One pair of `decode_hex`. -/
def decodePair (compact : List Char) (i : ℕ) : Except Failure UInt8 :=
  match sliceBytes compact i (i + 2) with
  | none => .error .panic
  | some pair => (fromStrRadix16 pair).mapError Failure.error

/-- The pairs of `decode_hex`, up to the first that fails. -/
def decodePairs (compact : List Char) : Except Failure (List UInt8) :=
  (List.range (byteLength compact / 2)).mapM fun k => decodePair compact (2 * k)

/-- The text without its white space. -/
def compact (s : List Char) : List Char := s.filter fun c => !isWhitespace c

/-- `decode_hex`. -/
def decodeHex (s : List Char) : Except Failure (List UInt8) :=
  if byteLength (compact s) % 2 ≠ 0 then .error (.error "odd-length hex string")
  else decodePairs (compact s)

/-- `encode_hex`. -/
def encodeHex (bytes : List UInt8) : List Char :=
  bytes.flatMap fun (byte : UInt8) =>
    [Nat.digitChar (byte >>> 4).toNat, Nat.digitChar (byte &&& 15).toNat]

/-! ### Pairs -/

variable {c d : Char} {s pre rest : List Char} {n i : ℕ}

@[simp] theorem byteLength_nil : byteLength [] = 0 := rfl

@[simp] theorem byteLength_cons : byteLength (c :: s) = c.utf8Size + byteLength s := by
  simp [byteLength]

theorem splitAtByte_cons (hn : 0 < n) (hc : c.utf8Size ≤ n) :
    splitAtByte n (c :: s) = (splitAtByte (n - c.utf8Size) s).map (Prod.map (c :: ·) id) := by
  cases n with
  | zero => omega
  | succ n =>
    rw [splitAtByte, if_pos hc]
    rfl

theorem splitAtByte_cut (hn : 0 < n) (hc : n < c.utf8Size) : splitAtByte n (c :: s) = none := by
  cases n with
  | zero => omega
  | succ n => rw [splitAtByte, if_neg (by omega)]

theorem decodePair_cons_cons (hc : c.utf8Size = 1) (hd : d.utf8Size = 1) :
    decodePair (c :: d :: s) (i + 2) = decodePair s i := by
  have hsplit : splitAtByte (i + 2) (c :: d :: s) =
      (splitAtByte i s).map fun x => (c :: d :: x.1, x.2) := by
    rw [splitAtByte_cons (by omega) (by omega), splitAtByte_cons (by omega) (by omega), hc, hd,
      Option.map_map]
    rfl
  have hstop : i + 2 + 2 - (i + 2) = i + 2 - i := by omega
  rw [decodePair, decodePair, sliceBytes, sliceBytes, hsplit, hstop]
  cases splitAtByte i s with
  | none => rfl
  | some x => rfl

theorem decodePair_zero (hc : c.utf8Size = 1) (hd : d.utf8Size = 1) :
    decodePair (c :: d :: s) 0 =
      (fromStrRadix16 [c, d]).mapError Failure.error := by
  have hslice : sliceBytes (c :: d :: s) 0 (0 + 2) = some [c, d] := by
    have hsplit : splitAtByte 2 (c :: d :: s) = some ([c, d], s) := by
      rw [splitAtByte_cons (by omega) (by omega), splitAtByte_cons (by omega) (by omega), hc, hd]
      simp [splitAtByte]
    rw [sliceBytes, splitAtByte]
    simp [hsplit]
  rw [decodePair, hslice]

theorem decodePairs_cons_cons (hc : c.utf8Size = 1) (hd : d.utf8Size = 1) :
    decodePairs (c :: d :: s) = do
      let byte ← (fromStrRadix16 [c, d]).mapError Failure.error
      let bytes ← decodePairs s
      return byte :: bytes := by
  have hlength : byteLength (c :: d :: s) / 2 = byteLength s / 2 + 1 := by
    simp only [byteLength_cons, hc, hd]
    omega
  have hbehind : ((fun k => decodePair (c :: d :: s) (2 * k)) ∘ Nat.succ) =
      fun k => decodePair s (2 * k) := by
    funext k
    exact decodePair_cons_cons hc hd
  rw [decodePairs, hlength, List.range_succ_eq_map, List.mapM_cons, List.mapM_map, hbehind,
    Nat.mul_zero, decodePair_zero hc hd]
  rfl

/-! ### Digits -/

/-- The hex digits. -/
def hexDigits : List Char := "0123456789abcdefABCDEF".toList

theorem mem_hexDigits {v : ℕ} (h : hexValue c = some v) : c ∈ hexDigits := by
  have hle : ∀ {a b : Char}, a ≤ b ↔ a.toNat ≤ b.toNat := UInt32.le_iff_toNat_le
  have hchar : c = Char.ofNat c.toNat := (Char.ofNat_toNat c).symm
  rw [hexValue] at h
  split_ifs at h with h₁ h₂ h₃
  · obtain ⟨hlo, hhi⟩ : 48 ≤ c.toNat ∧ c.toNat ≤ 57 := ⟨hle.1 h₁.1, hle.1 h₁.2⟩
    rw [hchar]
    interval_cases c.toNat <;> decide
  · obtain ⟨hlo, hhi⟩ : 97 ≤ c.toNat ∧ c.toNat ≤ 102 := ⟨hle.1 h₂.1, hle.1 h₂.2⟩
    rw [hchar]
    interval_cases c.toNat <;> decide
  · obtain ⟨hlo, hhi⟩ : 65 ≤ c.toNat ∧ c.toNat ≤ 70 := ⟨hle.1 h₃.1, hle.1 h₃.2⟩
    rw [hchar]
    interval_cases c.toNat <;> decide

/-- A digit is a byte, below sixteen, and printed in lower case. -/
theorem hexDigits_spec : ∀ c ∈ hexDigits, c.utf8Size = 1 ∧ c ≠ '+' ∧ isWhitespace c = false ∧
    ∃ v, hexValue c = some v ∧ v < 16 ∧ Nat.digitChar v = c.toLower :=
  List.all_iff_forall_prop.1 (by decide +kernel)

theorem halves : ∀ a b : Fin 16, 16 * a.val + b.val < 256 ∧
    (UInt8.ofNat (16 * a.val + b.val) >>> 4).toNat = a.val ∧
    (UInt8.ofNat (16 * a.val + b.val) &&& 15).toNat = b.val := by
  decide +kernel

theorem fromStrRadix16_digits {v w : ℕ} (hc : hexValue c = some v) (hd : hexValue d = some w) :
    fromStrRadix16 [c, d] = .ok (UInt8.ofNat (16 * v + w)) := by
  obtain ⟨-, hplus, -, v', hv', hv, -⟩ := hexDigits_spec c (mem_hexDigits hc)
  obtain ⟨-, -, -, w', hw', hw, -⟩ := hexDigits_spec d (mem_hexDigits hd)
  obtain rfl : v = v' := Option.some.inj (hc.symm.trans hv')
  obtain rfl : w = w' := Option.some.inj (hd.symm.trans hw')
  have hlt := (halves ⟨v, hv⟩ ⟨w, hw⟩).1
  have hnumber : hexNumber [c, d] = some (16 * v + w) := by simp [hexNumber, hc, hd]
  have hhead : [c, d].head? ≠ some '+' := by simpa using hplus
  rw [fromStrRadix16, if_neg (List.cons_ne_nil _ _), if_neg hhead]
  simp [hnumber, show 16 * v + w < 256 from hlt]

theorem fromStrRadix16_plus {w : ℕ} (hd : hexValue d = some w) :
    fromStrRadix16 ['+', d] = .ok (UInt8.ofNat w) := by
  obtain ⟨-, -, -, w', hw', hw, -⟩ := hexDigits_spec d (mem_hexDigits hd)
  obtain rfl : w = w' := Option.some.inj (hd.symm.trans hw')
  have hnumber : hexNumber [d] = some w := by simp [hexNumber, hd]
  rw [fromStrRadix16, if_neg (List.cons_ne_nil _ _)]
  simp [hnumber, show w < 256 by omega]

/-- Two characters that the number parser reads. -/
def ReadAsByte (c d : Char) : Prop :=
  ((hexValue c).isSome ∨ c = '+') ∧ (hexValue d).isSome

theorem ReadAsByte.size (h : ReadAsByte c d) : c.utf8Size = 1 ∧ d.utf8Size = 1 := by
  obtain ⟨hc, hd⟩ := h
  obtain ⟨w, hw⟩ := Option.isSome_iff_exists.1 hd
  refine ⟨?_, (hexDigits_spec d (mem_hexDigits hw)).1⟩
  rcases hc with hc | rfl
  · obtain ⟨v, hv⟩ := Option.isSome_iff_exists.1 hc
    exact (hexDigits_spec c (mem_hexDigits hv)).1
  · decide

theorem ReadAsByte.read (h : ReadAsByte c d) : ∃ byte, fromStrRadix16 [c, d] = .ok byte := by
  obtain ⟨hc, hd⟩ := h
  obtain ⟨w, hw⟩ := Option.isSome_iff_exists.1 hd
  rcases hc with hc | rfl
  · obtain ⟨v, hv⟩ := Option.isSome_iff_exists.1 hc
    exact ⟨_, fromStrRadix16_digits hv hw⟩
  · exact ⟨_, fromStrRadix16_plus hw⟩

theorem fromStrRadix16_refuses (h : ¬ ReadAsByte c d) :
    ∃ message, fromStrRadix16 [c, d] = .error message := by
  have hnumber : hexNumber (if [c, d].head? = some '+' then [d] else [c, d]) = none := by
    by_cases hd : (hexValue d).isSome
    · have hc : ¬ (hexValue c).isSome ∧ c ≠ '+' := by
        constructor
        · exact fun hc => h ⟨.inl hc, hd⟩
        · exact fun hc => h ⟨.inr hc, hd⟩
      have hnone : hexValue c = none := by simpa using hc.1
      simp [hexNumber, hc.2, hnone]
    · have hnone : hexValue d = none := by simpa using hd
      by_cases hplus : c = '+'
      · simp [hexNumber, hplus, hnone]
      · cases hc : hexValue c <;> simp [hexNumber, hplus, hnone, hc]
  refine ⟨"invalid digit found in string", ?_⟩
  rw [fromStrRadix16, if_neg (List.cons_ne_nil _ _)]
  by_cases hplus : [c, d].head? = some '+'
  · simp only [hplus, if_true] at hnumber ⊢
    simp [hnumber]
  · simp only [hplus, if_false] at hnumber ⊢
    simp [hnumber]

/-! ### What is read -/

/-- An even number of hex digits. -/
def HexText (s : List Char) : Prop := s.length % 2 = 0 ∧ ∀ c ∈ s, (hexValue c).isSome

/-- Hex digits are read, white space aside, and anything else is an error. -/
structure ReadsExactly (s : List Char) : Prop where
  /-- A text of pairs of digits is read as their bytes. -/
  reads : HexText (compact s) →
    ∃ bytes, decodeHex s = .ok bytes ∧ encodeHex bytes = (compact s).map Char.toLower
  /-- Any other text is refused. -/
  refuses : ¬ HexText (compact s) → ∃ message, decodeHex s = .error (.error message)

/-- The pair at the start ends within a character. -/
def CutsCharacter (s : List Char) : Prop :=
  (∃ c tail, s = c :: tail ∧ 2 < c.utf8Size) ∨
    ∃ c d tail, s = c :: d :: tail ∧ c.utf8Size = 1 ∧ 1 < d.utf8Size

/-- The pairs, one behind the other. -/
def flatPairs (pairs : List (Char × Char)) : List Char := pairs.flatMap fun p => [p.1, p.2]

/-- Behind pairs that are read the text ends, a plus sign among them, or a pair cuts a character. -/
def Misread (s : List Char) : Prop :=
  byteLength s % 2 = 0 ∧ ∃ pairs rest, s = flatPairs pairs ++ rest ∧
    (∀ p ∈ pairs, ReadAsByte p.1 p.2) ∧ (rest = [] ∧ '+' ∈ s ∨ CutsCharacter rest)

@[simp] theorem flatPairs_nil : flatPairs [] = [] := rfl

@[simp] theorem flatPairs_cons (p : Char × Char) (pairs : List (Char × Char)) :
    flatPairs (p :: pairs) = p.1 :: p.2 :: flatPairs pairs := rfl

theorem hexText_cons_cons :
    HexText (c :: d :: s) ↔ ((hexValue c).isSome ∧ (hexValue d).isSome) ∧ HexText s := by
  simp only [HexText, List.length_cons, List.forall_mem_cons]
  constructor
  · rintro ⟨hlength, hc, hd, hs⟩
    exact ⟨⟨hc, hd⟩, by omega, hs⟩
  · rintro ⟨⟨hc, hd⟩, hlength, hs⟩
    exact ⟨by omega, hc, hd, hs⟩

theorem HexText.byteLength_eq (h : ∀ c ∈ s, (hexValue c).isSome) : byteLength s = s.length := by
  induction s with
  | nil => rfl
  | cons c s ih =>
    obtain ⟨hc, hs⟩ := List.forall_mem_cons.1 h
    obtain ⟨v, hv⟩ := Option.isSome_iff_exists.1 hc
    rw [byteLength_cons, (hexDigits_spec c (mem_hexDigits hv)).1, ih hs, List.length_cons,
      Nat.add_comm]

theorem decodePairs_hexText (h : HexText s) :
    ∃ bytes, decodePairs s = .ok bytes ∧ encodeHex bytes = s.map Char.toLower := by
  induction s using List.twoStepInduction with
  | nil => exact ⟨[], rfl, rfl⟩
  | singleton c => exact absurd h.1 (by simp)
  | cons_cons c d s ih _ =>
    obtain ⟨⟨hc, hd⟩, hs⟩ := hexText_cons_cons.1 h
    obtain ⟨bytes, hbytes, hprint⟩ := ih hs
    obtain ⟨v, hv⟩ := Option.isSome_iff_exists.1 hc
    obtain ⟨w, hw⟩ := Option.isSome_iff_exists.1 hd
    obtain ⟨hsize, -, -, v', hv', hlt, hlower⟩ := hexDigits_spec c (mem_hexDigits hv)
    obtain ⟨hsize', -, -, w', hw', hlt', hlower'⟩ := hexDigits_spec d (mem_hexDigits hw)
    obtain rfl : v = v' := Option.some.inj (hv.symm.trans hv')
    obtain rfl : w = w' := Option.some.inj (hw.symm.trans hw')
    obtain ⟨-, hhigh, hlow⟩ := halves ⟨v, hlt⟩ ⟨w, hlt'⟩
    refine ⟨UInt8.ofNat (16 * v + w) :: bytes, ?_, ?_⟩
    · rw [decodePairs_cons_cons hsize hsize', fromStrRadix16_digits hv hw, hbytes]
      rfl
    · rw [encodeHex, List.flatMap_cons, hhigh, hlow, hlower, hlower', List.map_cons,
        List.map_cons, ← hprint]
      rfl

theorem hexValue_digitChar : ∀ a : Fin 16, hexValue (Nat.digitChar a) = some a.val := by
  decide

theorem halves_byte (byte : UInt8) : (byte >>> 4).toNat < 16 ∧ (byte &&& 15).toNat < 16 ∧
    UInt8.ofNat (16 * (byte >>> 4).toNat + (byte &&& 15).toNat) = byte := by
  have hlt := byte.toNat_lt
  have hhigh : (byte >>> 4).toNat = byte.toNat / 16 := by
    simp [UInt8.toNat_shiftRight, Nat.shiftRight_eq_div_pow]
  have hlow : (byte &&& 15).toNat = byte.toNat % 16 := by
    rw [UInt8.toNat_and]
    exact Nat.and_two_pow_sub_one_eq_mod byte.toNat 4
  refine ⟨by omega, by omega, ?_⟩
  rw [hhigh, hlow, Nat.div_add_mod, UInt8.ofNat_toNat]

@[simp] theorem encodeHex_cons (byte : UInt8) (bytes : List UInt8) :
    encodeHex (byte :: bytes) =
      Nat.digitChar (byte >>> 4).toNat :: Nat.digitChar (byte &&& 15).toNat :: encodeHex bytes :=
  rfl

/-- What is printed is digits. -/
theorem hexText_encodeHex (bytes : List UInt8) : HexText (encodeHex bytes) := by
  induction bytes with
  | nil => exact ⟨rfl, by simp [encodeHex]⟩
  | cons byte bytes ih =>
    obtain ⟨hhigh, hlow, -⟩ := halves_byte byte
    rw [encodeHex_cons, hexText_cons_cons, hexValue_digitChar ⟨_, hhigh⟩,
      hexValue_digitChar ⟨_, hlow⟩]
    exact ⟨⟨rfl, rfl⟩, ih⟩

theorem decodePairs_encodeHex (bytes : List UInt8) :
    decodePairs (encodeHex bytes) = .ok bytes := by
  induction bytes with
  | nil => rfl
  | cons byte bytes ih =>
    obtain ⟨hhigh, hlow, hbyte⟩ := halves_byte byte
    have hvalue := hexValue_digitChar ⟨_, hhigh⟩
    have hvalue' := hexValue_digitChar ⟨_, hlow⟩
    have hsize := (hexDigits_spec _ (mem_hexDigits hvalue)).1
    have hsize' := (hexDigits_spec _ (mem_hexDigits hvalue')).1
    rw [encodeHex_cons, decodePairs_cons_cons hsize hsize', fromStrRadix16_digits hvalue hvalue',
      hbyte, ih]
    rfl

theorem compact_hexText (h : HexText s) : compact s = s := by
  refine List.filter_eq_self.2 fun c hc => ?_
  obtain ⟨v, hv⟩ := Option.isSome_iff_exists.1 (h.2 c hc)
  rw [(hexDigits_spec c (mem_hexDigits hv)).2.2.1]
  rfl

/-- What was encoded is decoded. -/
theorem decodeHex_encodeHex (bytes : List UInt8) : decodeHex (encodeHex bytes) = .ok bytes := by
  have hhex := hexText_encodeHex bytes
  have hcompact := compact_hexText hhex
  rw [decodeHex, hcompact, HexText.byteLength_eq hhex.2, hhex.1, if_neg (by decide),
    decodePairs_encodeHex]

theorem decodePairs_flatPairs {pairs : List (Char × Char)}
    (h : ∀ p ∈ pairs, ReadAsByte p.1 p.2) :
    ∃ bytes, ∀ rest, decodePairs (flatPairs pairs ++ rest) = (bytes ++ ·) <$> decodePairs rest := by
  induction pairs with
  | nil => exact ⟨[], fun rest => by simp⟩
  | cons p pairs ih =>
    obtain ⟨hp, hpairs⟩ := List.forall_mem_cons.1 h
    obtain ⟨bytes, hbytes⟩ := ih hpairs
    obtain ⟨byte, hbyte⟩ := hp.read
    refine ⟨byte :: bytes, fun rest => ?_⟩
    rw [flatPairs_cons, List.cons_append, List.cons_append,
      decodePairs_cons_cons hp.size.1 hp.size.2, hbyte, hbytes rest]
    cases decodePairs rest <;> rfl

theorem decodePairs_first {failure : Failure} (hlength : 2 ≤ byteLength s)
    (h : decodePair s 0 = .error failure) : decodePairs s = .error failure := by
  obtain ⟨n, hn⟩ : ∃ n, byteLength s / 2 = n + 1 := ⟨byteLength s / 2 - 1, by omega⟩
  rw [decodePairs, hn, List.range_succ_eq_map, List.mapM_cons, Nat.mul_zero, h]
  rfl

theorem CutsCharacter.panics (h : CutsCharacter s) : decodePairs s = .error .panic := by
  have hcut : splitAtByte 2 s = none := by
    rcases h with ⟨c, tail, rfl, hc⟩ | ⟨c, d, tail, rfl, hc, hd⟩
    · exact splitAtByte_cut (by decide) hc
    · rw [splitAtByte_cons (by decide) (by omega), hc, splitAtByte_cut (by decide) hd]
      rfl
  have hlength : 2 ≤ byteLength s := by
    rcases h with ⟨c, tail, rfl, hc⟩ | ⟨c, d, tail, rfl, hc, hd⟩
    · rw [byteLength_cons]
      omega
    · rw [byteLength_cons, byteLength_cons]
      omega
  refine decodePairs_first hlength ?_
  rw [decodePair, sliceBytes, splitAtByte]
  simp [hcut]

theorem decodePairs_wide (hc : c.utf8Size = 2) :
    ∃ message, decodePairs (c :: s) = .error (.error message) := by
  have hnone : hexValue c = none := by
    by_contra h
    obtain ⟨v, hv⟩ := Option.ne_none_iff_exists'.1 h
    exact absurd (hexDigits_spec c (mem_hexDigits hv)).1 (by omega)
  have hplus : c ≠ '+' := by
    rintro rfl
    exact absurd hc (by decide)
  have hslice : sliceBytes (c :: s) 0 2 = some [c] := by
    rw [sliceBytes, splitAtByte]
    simp [splitAtByte, hc]
  refine ⟨"invalid digit found in string", decodePairs_first ?_ ?_⟩
  · rw [byteLength_cons]
    omega
  · have hrefused : fromStrRadix16 [c] = .error "invalid digit found in string" := by
      simp [fromStrRadix16, hplus, hexNumber, hnone]
    rw [decodePair, hslice]
    simp only [hrefused, Except.mapError]

theorem decodePairs_cases (heven : byteLength s % 2 = 0) :
    (∃ message, decodePairs s = .error (.error message)) ∨
      ∃ pairs rest, s = flatPairs pairs ++ rest ∧ (∀ p ∈ pairs, ReadAsByte p.1 p.2) ∧
        (rest = [] ∨ CutsCharacter rest) := by
  induction s using List.twoStepInduction with
  | nil => exact .inr ⟨[], [], rfl, by simp, .inl rfl⟩
  | singleton c =>
    rw [byteLength_cons, byteLength_nil] at heven
    have hsize := c.utf8Size_pos
    by_cases hc : c.utf8Size = 2
    · exact .inl (decodePairs_wide hc)
    · exact .inr ⟨[], [c], rfl, by simp, .inr (.inl ⟨c, [], rfl, by omega⟩)⟩
  | cons_cons c d s ih _ =>
    have hsize := c.utf8Size_pos
    have hsize' := d.utf8Size_pos
    rcases (by omega : c.utf8Size = 1 ∨ c.utf8Size = 2 ∨ 2 < c.utf8Size) with hc | hc | hc
    · by_cases hd : d.utf8Size = 1
      · by_cases hread : ReadAsByte c d
        · simp only [byteLength_cons, hc, hd] at heven
          obtain ⟨byte, hbyte⟩ := hread.read
          rcases ih (by omega) with ⟨message, h⟩ | ⟨pairs, rest, rfl, hpairs, hrest⟩
          · refine .inl ⟨message, ?_⟩
            rw [decodePairs_cons_cons hc hd, hbyte, h]
            rfl
          · exact .inr ⟨(c, d) :: pairs, rest, rfl,
              List.forall_mem_cons.2 ⟨hread, hpairs⟩, hrest⟩
        · obtain ⟨message, h⟩ := fromStrRadix16_refuses hread
          refine .inl ⟨message, ?_⟩
          rw [decodePairs_cons_cons hc hd, h]
          rfl
      · exact .inr ⟨[], _, rfl, by simp, .inr (.inr ⟨c, d, s, rfl, hc, by omega⟩)⟩
    · exact .inl (decodePairs_wide hc)
    · exact .inr ⟨[], _, rfl, by simp, .inr (.inl ⟨c, d :: s, rfl, hc⟩)⟩

theorem decodeHex_of_even (h : byteLength (compact s) % 2 = 0) :
    decodeHex s = decodePairs (compact s) := by
  rw [decodeHex, if_neg (not_not.2 h)]

theorem Misread.not_hexText (h : Misread s) : ¬ HexText s := by
  obtain ⟨-, pairs, rest, rfl, -, hrest⟩ := h
  rintro ⟨-, hdigits⟩
  have hsize : ∀ c ∈ flatPairs pairs ++ rest, c.utf8Size = 1 ∧ c ≠ '+' := by
    intro c hc
    obtain ⟨v, hv⟩ := Option.isSome_iff_exists.1 (hdigits c hc)
    obtain ⟨h₁, h₂, -⟩ := hexDigits_spec c (mem_hexDigits hv)
    exact ⟨h₁, h₂⟩
  rcases hrest with ⟨-, hplus⟩ | ⟨c, tail, rfl, hc⟩ | ⟨c, d, tail, rfl, -, hd⟩
  · exact (hsize _ hplus).2 rfl
  · exact absurd (hsize c (by simp)).1 (by omega)
  · exact absurd (hsize d (by simp)).1 (by omega)

theorem hexText_of_pairs {pairs : List (Char × Char)} (hs : s = flatPairs pairs)
    (hpairs : ∀ p ∈ pairs, ReadAsByte p.1 p.2) (hplus : '+' ∉ s) : HexText s := by
  subst hs
  induction pairs with
  | nil => exact ⟨rfl, by simp⟩
  | cons p pairs ih =>
    obtain ⟨⟨hc, hd⟩, hpairs⟩ := List.forall_mem_cons.1 hpairs
    rw [flatPairs_cons, List.mem_cons, List.mem_cons, not_or, not_or] at hplus
    rw [flatPairs_cons, hexText_cons_cons]
    exact ⟨⟨hc.resolve_right (Ne.symm hplus.1), hd⟩, ih hpairs hplus.2.2⟩

/-- The hex is read exactly unless it is misread. -/
theorem readsExactly_iff (s : List Char) : ReadsExactly s ↔ ¬ Misread (compact s) := by
  constructor
  · rintro ⟨-, hrefuses⟩ hmisread
    obtain ⟨message, hmessage⟩ := hrefuses hmisread.not_hexText
    obtain ⟨heven, pairs, rest, hcompact, hpairs, hrest⟩ := hmisread
    obtain ⟨bytes, hbytes⟩ := decodePairs_flatPairs hpairs
    rw [decodeHex_of_even heven, hcompact, hbytes] at hmessage
    rcases hrest with ⟨rfl, -⟩ | hcut
    · cases hmessage
    · rw [hcut.panics] at hmessage
      cases hmessage
  · intro hmisread
    constructor
    · intro hhex
      have heven : byteLength (compact s) % 2 = 0 := by
        rw [HexText.byteLength_eq hhex.2, hhex.1]
      rw [decodeHex_of_even heven]
      exact decodePairs_hexText hhex
    · intro hhex
      by_cases heven : byteLength (compact s) % 2 = 0
      · rw [decodeHex_of_even heven]
        rcases decodePairs_cases heven with h | ⟨pairs, rest, hcompact, hpairs, rfl | hcut⟩
        · exact h
        · have hplus : '+' ∉ compact s := fun hplus =>
            hmisread ⟨heven, pairs, [], hcompact, hpairs, .inl ⟨rfl, hplus⟩⟩
          exact absurd (hexText_of_pairs (by rw [hcompact, List.append_nil]) hpairs hplus) hhex
        · exact absurd ⟨heven, pairs, rest, hcompact, hpairs, .inr hcut⟩ hmisread
      · exact ⟨_, by rw [decodeHex, if_pos heven]⟩

/-- A plus sign is taken for a digit. -/
theorem not_readsExactly_plus : ¬ ∀ s, ReadsExactly s := by
  intro h
  obtain ⟨message, hmessage⟩ := (h ['+', 'a']).refuses fun hhex =>
    absurd (hhex.2 '+' (by decide)) (by decide)
  have haccepted : decodeHex ['+', 'a'] = .ok [10] := by decide +kernel
  rw [haccepted] at hmessage
  cases hmessage

end Wingcapture

end LibWing
