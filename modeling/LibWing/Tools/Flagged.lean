import LibWing.Lib.Runs
import LibWing.Tools.Redact

/-!
# Where the redactor finds something

A finding by the bytes alone: which stretch of them it is, and which text.

* `fromUtf8Lossy_ascii` : the text of ASCII bytes;
* `ipAt_iff` : an address is a run of digits and dots, the text of which is refused;
* `macAt_iff` : a hardware address is a run of six groups, the text of which is not allowed;
* `serialAt_iff` : a serial is `NGC` with digits behind it that are not all zero;
* `findMatches_eq_nil` : nothing is found if nothing of any class is.
-/

namespace LibWing

/-! ### Texts -/

section Texts

variable {b : UInt8} {bytes : List UInt8}

theorem toNat_ofNat_ascii (hb : b < 0x80) : (Char.ofNat b.toNat).val.toNat = b.toNat := by
  have hlt : b.toNat < 128 := UInt8.lt_iff_toNat_lt.1 hb
  rw [Char.ofNat, dif_pos (Or.inl (by omega))]
  rfl

theorem utf8EncodeChar_ascii (hb : b < 0x80) :
    String.utf8EncodeChar (Char.ofNat b.toNat) = [b] := by
  have hval := toNat_ofNat_ascii hb
  have hlt : b.toNat < 128 := UInt8.lt_iff_toNat_lt.1 hb
  have hsize : (Char.ofNat b.toNat).utf8Size = 1 := by
    rw [Char.utf8Size, if_pos]
    rw [UInt32.le_iff_toNat_le, hval]
    change _ ≤ 127
    omega
  rw [String.utf8EncodeChar_eq_singleton hsize, List.singleton_inj]
  apply UInt8.toNat.inj
  rw [UInt32.toNat_toUInt8, hval, Nat.mod_eq_of_lt (by omega)]

theorem utf8_ascii (h : ∀ b ∈ bytes, b < 0x80) :
    utf8 (String.ofList (bytes.map fun b => Char.ofNat b.toNat)) = bytes := by
  rw [utf8_ofList, List.flatMap_map]
  induction bytes with
  | nil => rfl
  | cons b bytes ih =>
    obtain ⟨hb, h⟩ := List.forall_mem_cons.1 h
    rw [List.flatMap_cons, ih h, utf8EncodeChar_ascii hb, List.singleton_append]

/-- ASCII is read as the characters it is. -/
theorem fromUtf8Lossy_ascii (h : ∀ b ∈ bytes, b < 0x80) :
    fromUtf8Lossy bytes = String.ofList (bytes.map fun b => Char.ofNat b.toNat) := by
  have htext := fromUtf8Lossy_utf8 (String.ofList (bytes.map fun b => Char.ofNat b.toNat))
  rwa [utf8_ascii h] at htext

theorem utf8_fromUtf8Lossy (h : ∀ b ∈ bytes, b < 0x80) : utf8 (fromUtf8Lossy bytes) = bytes := by
  rw [fromUtf8Lossy_ascii h, utf8_ascii h]

end Texts

namespace Redact

open Runs Scan

variable {b : List UInt8} {s e m i j k n p q pos start stop left : ℕ} {f : UInt8 → Bool}
  {found : Finding} {c : UInt8}

/-! ### Slices -/

theorem getElem?_slice (hk : k < e - s) : (slice b s e)[k]? = b[s + k]? := by
  rw [slice, List.getElem?_take_of_lt hk, List.getElem?_drop]

theorem length_slice (he : e ≤ b.length) : (slice b s e).length = e - s := by
  rw [slice, List.length_take, List.length_drop]
  omega

theorem exists_of_mem_slice (h : c ∈ slice b s e) : ∃ k, s ≤ k ∧ k < e ∧ b[k]? = some c := by
  obtain ⟨k, hk⟩ := List.mem_iff_getElem?.1 h
  have hlt := (List.getElem?_eq_some_iff.1 hk).1
  rw [slice, List.length_take] at hlt
  rw [getElem?_slice (by omega)] at hk
  exact ⟨s + k, by omega, by omega, hk⟩

theorem on_slice (hk : k < e - s) : On f (slice b s e) k ↔ On f b (s + k) :=
  on_congr (getElem?_slice hk)

theorem isBoundary_right : isBoundary b (e : ℤ) f = true ↔ ¬ On f b e := by
  rw [isBoundary, if_neg (by omega), Int.toNat_natCast, On]
  cases b[e]? <;> simp

theorem isBoundary_left : isBoundary b ((s : ℤ) - 1) f = true ↔ ∀ k, k + 1 = s → ¬ On f b k := by
  cases s with
  | zero => simp [isBoundary]
  | succ s =>
    rw [Int.natCast_succ, Int.add_sub_cancel, isBoundary_right]
    exact ⟨fun h k hk => by rwa [Nat.succ.inj hk], fun h => h s rfl⟩

theorem slice_congr {b' : List UInt8} (h : ∀ k, s ≤ k → k < e → b[k]? = b'[k]?) :
    slice b s e = slice b' s e := by
  apply List.ext_getElem?
  intro k
  by_cases hk : k < e - s
  · rw [getElem?_slice hk, getElem?_slice hk, h (s + k) (by omega) (by omega)]
  · rw [slice, slice, List.getElem?_take, List.getElem?_take, if_neg hk, if_neg hk]

theorem slice_self (b : List UInt8) (s : ℕ) : slice b s s = [] := by
  rw [slice, Nat.sub_self, List.take_zero]

theorem slice_append (hsp : s ≤ p) (hpe : p ≤ e) : slice b s p ++ slice b p e = slice b s e := by
  rw [slice, slice, slice, show e - s = (p - s) + (e - p) by omega, List.take_add, List.drop_drop,
    Nat.add_sub_cancel' hsp]

/-- A slice is a text that stands there. -/
theorem slice_eq {text : List UInt8} (he : s + text.length = e)
    (h : ∀ k, k < text.length → b[s + k]? = text[k]?) : slice b s e = text := by
  apply List.ext_getElem?
  intro k
  by_cases hk : k < text.length
  · rw [getElem?_slice (by omega), h k hk]
  · rw [slice, List.getElem?_take, if_neg (by omega), List.getElem?_eq_none (by omega)]

/-! ### Bytes -/

theorem isIpBody_iff : isIpBody c = true ↔ isDigit c = true ∨ c = dot := by
  rw [isIpBody, Bool.or_eq_true, beq_iff_eq]

theorem isMacBody_iff : isMacBody c = true ↔ isHexDigit c = true ∨ c = colon := by
  rw [isMacBody, Bool.or_eq_true, beq_iff_eq]

theorem isHexDigit_of_isDigit (h : isDigit c = true) : isHexDigit c = true := by
  rw [isHexDigit, h]
  rfl

theorem isIpBody_ascii (h : isIpBody c = true) : c < 0x80 := by
  simp only [isIpBody, isDigit, Bool.or_eq_true, Bool.and_eq_true, decide_eq_true_eq,
    beq_iff_eq] at h
  rcases h with h | rfl
  · exact UInt8.lt_of_le_of_lt h.2 (by decide)
  · decide

theorem isMacBody_ascii (h : isMacBody c = true) : c < 0x80 := by
  simp only [isMacBody, isHexDigit, isDigit, Bool.or_eq_true, Bool.and_eq_true, decide_eq_true_eq,
    beq_iff_eq] at h
  rcases h with ((h | h) | h) | rfl
  · exact UInt8.lt_of_le_of_lt h.2 (by decide)
  · exact UInt8.lt_of_le_of_lt h.2 (by decide)
  · exact UInt8.lt_of_le_of_lt h.2 (by decide)
  · decide

theorem isDigit_of_bodies (hip : isIpBody c = true) (hmac : isMacBody c = true) :
    isDigit c = true := by
  rcases isIpBody_iff.1 hip with h | rfl
  · exact h
  · exact absurd hmac (by decide)

theorem on_ip (h : On isDigit b i) : On isIpBody b i :=
  h.mono fun _ hc => isIpBody_iff.2 (Or.inl hc)

theorem on_hex (h : On isDigit b i) : On isHexDigit b i := h.mono fun _ => isHexDigit_of_isDigit

theorem on_mac (h : On isHexDigit b i) : On isMacBody b i :=
  h.mono fun _ hc => isMacBody_iff.2 (Or.inl hc)

theorem on_ip_of_dot (h : b[i]? = some dot) : On isIpBody b i := (on_of_getElem? h).2 (by decide)

theorem on_mac_of_colon (h : b[i]? = some colon) : On isMacBody b i :=
  (on_of_getElem? h).2 (by decide)

theorem not_on_mac_of_dot (h : b[i]? = some dot) : ¬ On isMacBody b i := fun hon =>
  absurd ((on_of_getElem? h).1 hon) (by decide)

theorem not_on_ip_of_colon (h : b[i]? = some colon) : ¬ On isIpBody b i := fun hon =>
  absurd ((on_of_getElem? h).1 hon) (by decide)

theorem on_digit_of_bodies (hip : On isIpBody b i) (hmac : On isMacBody b i) : On isDigit b i := by
  obtain ⟨c, hc, hbody⟩ := on_iff.1 hip
  exact (on_of_getElem? hc).2 (isDigit_of_bodies hbody ((on_of_getElem? hc).1 hmac))

/-! ### Octets -/

theorem octetEnd_eq_some (h : octetEnd b pos = some stop) :
    pos < stop ∧ stop ≤ pos + 3 ∧ ∀ k, pos ≤ k → k < stop → On isDigit b k := by
  rw [octetEnd] at h
  split_ifs at h with hnone
  cases h
  have hpos := List.length_pos_of_ne_nil fun heq => hnone (Or.inl heq)
  have hle := (List.takeWhile_sublist (l := (b.drop pos).take 3) isDigit).length_le
  rw [List.length_take] at hle
  refine ⟨by omega, by omega, fun k hk hstop => ?_⟩
  have hon := (length_takeWhile_eq_iff.1 rfl).1 (k - pos)
    (show k - pos < (((b.drop pos).take 3).takeWhile isDigit).length by omega)
  rwa [on_take (by omega), on_drop, Nat.add_sub_cancel' hk] at hon

theorem octetEnd_slice (hk : s + k ≤ e) (hend : ¬ On isDigit b e) :
    octetEnd b (s + k) = (octetEnd (slice b s e) k).map (s + ·) := by
  have hdrop : (slice b s e).drop k = (b.drop (s + k)).take (e - (s + k)) := by
    rw [slice, List.drop_take, List.drop_drop, Nat.sub_sub]
  have hdigits : (((slice b s e).drop k).take 3).takeWhile isDigit =
      ((b.drop (s + k)).take 3).takeWhile isDigit := by
    -- first three bytes and then to the cut, or the other way round
    rw [hdrop, List.take_take, Nat.min_comm, ← List.take_take]
    apply takeWhile_take
    by_cases hlt : e - (s + k) < 3
    · rwa [on_take hlt, on_drop, Nat.add_sub_cancel' hk]
    · exact not_on_take (by omega)
  rw [octetEnd, octetEnd, hdigits]
  split_ifs
  · rfl
  · rw [Option.map_some, Nat.add_assoc]

theorem octetsEnd_slice (hk : s + k ≤ e) (hend : ¬ On isIpBody b e) :
    octetsEnd b left (s + k) = (octetsEnd (slice b s e) left k).map (s + ·) := by
  induction left generalizing k with
  | zero => rfl
  | succ left ih =>
    rw [octetsEnd, octetsEnd, octetEnd_slice hk fun h => hend (on_ip h)]
    cases hmid : octetEnd (slice b s e) k with
    | none => rfl
    | some mid =>
      have hle := (octetEnd_bounds hmid).2
      rw [slice, List.length_take] at hle
      rw [Option.map_some, Option.bind_some, Option.bind_some]
      by_cases hleft : left = 0
      · rw [if_pos hleft, if_pos hleft, Option.map_some]
      · rw [if_neg hleft, if_neg hleft]
        by_cases hdot : (slice b s e)[mid]? = some dot
        · have hlt : mid < e - s := by
            have hmid := (List.getElem?_eq_some_iff.1 hdot).1
            rw [slice, List.length_take] at hmid
            omega
          rw [if_pos hdot, if_pos (by rwa [← getElem?_slice hlt]), Nat.add_assoc, ih (by omega)]
        · have hdot' : b[s + mid]? ≠ some dot := by
            intro h
            by_cases hlt : mid < e - s
            · exact hdot (by rwa [getElem?_slice hlt])
            · rw [show s + mid = e by omega] at h
              exact hend (on_ip_of_dot h)
          rw [if_neg hdot, if_neg hdot', Option.map_none]

theorem octetsEnd_succ (h : octetsEnd b (left + 2) pos = some stop) :
    ∃ mid, octetEnd b pos = some mid ∧ b[mid]? = some dot ∧
      octetsEnd b (left + 1) (mid + 1) = some stop := by
  obtain ⟨mid, hmid, h⟩ := Option.bind_eq_some_iff.1 h
  rw [if_neg (Nat.succ_ne_zero left)] at h
  split_ifs at h with hdot
  exact ⟨mid, hmid, hdot, h⟩

theorem octetsEnd_one (h : octetsEnd b 1 pos = some stop) : octetEnd b pos = some stop := by
  obtain ⟨mid, hmid, h⟩ := Option.bind_eq_some_iff.1 h
  cases h
  exact hmid

/-- Octets and the dots between them. -/
theorem octetsEnd_body (h : octetsEnd b (left + 1) pos = some stop) :
    ∀ k, pos ≤ k → k < stop → On isIpBody b k := by
  intro k hk hstop
  induction left generalizing pos with
  | zero => exact on_ip ((octetEnd_eq_some (octetsEnd_one h)).2.2 k hk hstop)
  | succ left ih =>
    obtain ⟨mid, hmid, hdot, h⟩ := octetsEnd_succ h
    rcases Nat.lt_trichotomy k mid with hlt | rfl | hgt
    · exact on_ip ((octetEnd_eq_some hmid).2.2 k hk hlt)
    · exact on_ip_of_dot hdot
    · exact ih h hgt

/-- An address: digits, a dot, octets in between, a dot, and digits. -/
theorem parseIpv4End_eq_some (h : parseIpv4End b s = some e) :
    ∃ p q, s < p ∧ p ≤ s + 3 ∧ p + 3 < q ∧ q < e ∧ (∀ k, s ≤ k → k < p → On isDigit b k) ∧
      b[p]? = some dot ∧ b[q - 1]? = some dot ∧ ∀ k, q ≤ k → k < e → On isDigit b k := by
  obtain ⟨p, hp, hdotp, h⟩ := octetsEnd_succ h
  obtain ⟨r, hr, hdotr, h⟩ := octetsEnd_succ h
  obtain ⟨q, hq, hdotq, h⟩ := octetsEnd_succ h
  have hp := octetEnd_eq_some hp
  have hr := octetEnd_eq_some hr
  have hq := octetEnd_eq_some hq
  have he := octetEnd_eq_some (octetsEnd_one h)
  exact ⟨p, q + 1, hp.1, hp.2.1, by omega, by omega, hp.2.2, hdotp, hdotq, he.2.2⟩

/-! ### What the rules find -/

theorem mem_findAll {token : List UInt8 → ℕ → Option (ℕ × Option Finding)}
    (h : token b s = some (e, some found)) (hs : s < b.length)
    (hbefore : ∀ k, k < s → ∀ stop found, token b k = some (stop, found) → stop ≤ s) :
    ⟨s, e, found⟩ ∈ findAll token b :=
  List.mem_map.2 ⟨(s, e, found),
    mem_of_token (Nat.zero_le s) (by omega) (fun k _ => hbefore k) h, rfl⟩

theorem stop_le_of_body (hleft : ∀ k, k + 1 = s → ¬ On f b k) (hk : k < s)
    (hbody : ∀ i, k ≤ i → i < stop → On f b i) : stop ≤ s := by
  by_contra hlt
  exact hleft (s - 1) (by omega) (hbody (s - 1) (by omega) (by omega))

/-- An address is found there. -/
def IpAt (b : List UInt8) (s e : ℕ) : Prop := ∃ text, ⟨s, e, .ip text⟩ ∈ findIps b

/-- The text is an address that is not allowed. -/
def Refused (text : List UInt8) : Prop :=
  parseIpv4End text 0 = some text.length ∧ isAllowedIp (fromUtf8Lossy text) = false

instance decidableRefused (text : List UInt8) : Decidable (Refused text) :=
  inferInstanceAs (Decidable (_ ∧ _))

theorem ipToken_body {found : Option Finding} (h : ipToken b i = some (stop, found)) :
    ∀ k, i ≤ k → k < stop → On isIpBody b k := by
  rw [ipToken] at h
  split_ifs at h
  obtain ⟨stop', hstop, h⟩ := Option.map_eq_some_iff.1 h
  dsimp only at h
  split_ifs at h <;> (cases h; exact octetsEnd_body hstop)

theorem parseIpv4End_slice (hs : s ≤ e) (he : e ≤ b.length) (hend : ¬ On isIpBody b e) :
    parseIpv4End b s = some e ↔ parseIpv4End (slice b s e) 0 = some (slice b s e).length := by
  have hcut : parseIpv4End b s = (parseIpv4End (slice b s e) 0).map (s + ·) :=
    octetsEnd_slice (k := 0) hs hend
  rw [length_slice he, hcut, Option.map_eq_some_iff]
  constructor
  · rintro ⟨stop, hstop, heq⟩
    rw [hstop, ← heq, Nat.add_sub_cancel_left]
  · intro h
    exact ⟨e - s, h, Nat.add_sub_cancel' hs⟩

/-- What is found is a run of digits and dots, the text of which is refused. -/
theorem ipAt_iff : IpAt b s e ↔ Run (On isIpBody b) s e ∧ Refused (slice b s e) := by
  constructor
  · rintro ⟨text, hmem⟩
    have htoken := token_of_mem_findAll hmem
    have hbody := ipToken_body htoken
    have hbounds := ipToken_bounds htoken
    dsimp only at htoken hbody hbounds
    rw [ipToken] at htoken
    split_ifs at htoken with hstart
    obtain ⟨stop, hstop, htoken⟩ := Option.map_eq_some_iff.1 htoken
    dsimp only at htoken
    split_ifs at htoken with hrefused
    swap
    · cases htoken
    cases htoken
    obtain ⟨p, q, hsp, -, hpq, hqe, -⟩ := parseIpv4End_eq_some hstop
    have hright := isBoundary_right.1 hrefused.1
    exact ⟨⟨by omega, hbody, isBoundary_left.1 hstart.2, hright⟩,
      (parseIpv4End_slice hbounds.1 hbounds.2 hright).1 hstop, hrefused.2⟩
  · rintro ⟨hrun, hrefused⟩
    have hlt := hrun.lt
    have hlast := (hrun.all (e - 1) (by omega) (by omega)).lt_length
    have he : e ≤ b.length := by omega
    have hparse := (parseIpv4End_slice hrun.lt.le he hrun.right).2 hrefused.1
    obtain ⟨p, q, hsp, -, -, -, hdigits, -⟩ := parseIpv4End_eq_some hparse
    refine ⟨fromUtf8Lossy (slice b s e), mem_findAll ?_ (by omega)
      fun k hk stop found htoken => stop_le_of_body hrun.left hk (ipToken_body htoken)⟩
    rw [ipToken, if_pos ⟨hdigits s (Nat.le_refl s) hsp, isBoundary_left.2 hrun.left⟩, hparse,
      Option.map_some, if_pos ⟨isBoundary_right.2 hrun.right, hrefused.2⟩]

/-- Groups of two hexadecimal digits with colons between them. -/
def Grouped (b : List UInt8) (m n : ℕ) : Prop :=
  ∀ k, k < n → if k % 3 = 2 then b[m + k]? = some colon else On isHexDigit b (m + k)

theorem Grouped.colon (h : Grouped b m n) (hk : k < n) (hmod : k % 3 = 2) :
    b[m + k]? = some colon := by
  have hgroup := h k hk
  rwa [if_pos hmod] at hgroup

theorem Grouped.hex (h : Grouped b m n) (hk : k < n) (hmod : k % 3 ≠ 2) :
    On isHexDigit b (m + k) := by
  have hgroup := h k hk
  rwa [if_neg hmod] at hgroup

theorem Grouped.body (h : Grouped b m n) (hm : m ≤ k) (hk : k < m + n) : On isMacBody b k := by
  have hgroup := h (k - m) (by omega)
  rw [Nat.add_sub_cancel' hm] at hgroup
  split_ifs at hgroup
  · exact on_mac_of_colon hgroup
  · exact on_mac hgroup

theorem grouped_two : Grouped b m 2 ↔ On isHexDigit b m ∧ On isHexDigit b (m + 1) := by
  refine ⟨fun h => ⟨h.hex (k := 0) (by omega) (by omega), h.hex (by omega) (by omega)⟩,
    fun h k hk => ?_⟩
  obtain rfl | rfl : k = 0 ∨ k = 1 := by omega
  · exact h.1
  · exact h.2

theorem grouped_add_three : Grouped b m (n + 3) ↔
    On isHexDigit b m ∧ On isHexDigit b (m + 1) ∧ b[m + 2]? = some colon ∧
      Grouped b (m + 3) n := by
  constructor
  · intro h
    refine ⟨h.hex (k := 0) (by omega) (by omega), h.hex (by omega) (by omega),
      h.colon (by omega) (by omega), fun k hk => ?_⟩
    have hgroup := h (k + 3) (by omega)
    rwa [Nat.add_mod_right, Nat.add_comm k 3, ← Nat.add_assoc] at hgroup
  · rintro ⟨hfirst, hsecond, hcolon, hrest⟩ k hk
    match k with
    | 0 => exact hfirst
    | 1 => exact hsecond
    | 2 => exact hcolon
    | k + 3 =>
      rw [Nat.add_mod_right, Nat.add_comm k 3, ← Nat.add_assoc]
      exact hrest k (by omega)

theorem groupsEnd_eq_some :
    groupsEnd b (left + 1) pos = some stop ↔
      stop = pos + (3 * left + 2) ∧ Grouped b pos (3 * left + 2) := by
  induction left generalizing pos with
  | zero =>
    rw [groupsEnd, if_pos rfl, grouped_two]
    split_ifs with hhex
    · exact ⟨fun h => ⟨(Option.some.inj h).symm, hhex⟩, fun h => congrArg some h.1.symm⟩
    · exact iff_of_false not_false fun h => hhex h.2
  | succ left ih =>
    rw [groupsEnd, if_neg (Nat.succ_ne_zero left),
      show 3 * (left + 1) + 2 = 3 * left + 2 + 3 by omega, grouped_add_three]
    split_ifs with hhex hcolon
    · rw [ih]
      constructor
      · rintro ⟨hstop, hrest⟩
        exact ⟨by omega, hhex.1, hhex.2, hcolon, hrest⟩
      · rintro ⟨hstop, -, -, -, hrest⟩
        exact ⟨by omega, hrest⟩
    · exact iff_of_false not_false fun h => hcolon h.2.2.2.1
    · exact iff_of_false not_false fun h => hhex ⟨h.2.1, h.2.2.1⟩

/-- A hardware address is found there. -/
def MacAt (b : List UInt8) (s e : ℕ) : Prop := ∃ text, ⟨s, e, .mac text⟩ ∈ findMacs b

/-- The text of a hardware address is allowed. -/
def AllowedMac (text : List UInt8) : Prop :=
  isAllowedMac ((fromUtf8Lossy text).map Char.toLower) = true

theorem parseMacEnd_eq_some : parseMacEnd b s = some e ↔ e = s + 17 ∧ Grouped b s 17 :=
  groupsEnd_eq_some

theorem macToken_body {found : Option Finding} (h : macToken b i = some (stop, found)) :
    ∀ k, i ≤ k → k < stop → On isMacBody b k := by
  obtain ⟨stop', hstop, h⟩ := Option.map_eq_some_iff.1 h
  obtain ⟨rfl, hgrouped⟩ := parseMacEnd_eq_some.1 hstop
  dsimp only at h
  split_ifs at h <;> (cases h; exact fun k => hgrouped.body)

/-- What is found is a run of six groups, the text of which is not allowed. -/
theorem macAt_iff : MacAt b s e ↔
    e = s + 17 ∧ Grouped b s 17 ∧ Run (On isMacBody b) s e ∧ ¬ AllowedMac (slice b s e) := by
  constructor
  · rintro ⟨text, hmem⟩
    have htoken := token_of_mem_findAll hmem
    have hbody := macToken_body htoken
    dsimp only at htoken hbody
    obtain ⟨stop, hstop, htoken⟩ := Option.map_eq_some_iff.1 htoken
    dsimp only at htoken
    split_ifs at htoken with hrefused
    swap
    · cases htoken
    cases htoken
    obtain ⟨rfl, hgrouped⟩ := parseMacEnd_eq_some.1 hstop
    exact ⟨rfl, hgrouped,
      ⟨by omega, hbody, isBoundary_left.1 hrefused.1, isBoundary_right.1 hrefused.2.1⟩,
      Bool.not_eq_true _ ▸ hrefused.2.2⟩
  · rintro ⟨rfl, hgrouped, hrun, hrefused⟩
    have hlast := (hrun.all s (Nat.le_refl s) hrun.lt).lt_length
    refine ⟨(fromUtf8Lossy (slice b s (s + 17))).map Char.toLower, mem_findAll ?_ hlast
      fun k hk stop found htoken => stop_le_of_body hrun.left hk (macToken_body htoken)⟩
    rw [macToken, parseMacEnd_eq_some.2 ⟨rfl, hgrouped⟩, Option.map_some,
      if_pos ⟨isBoundary_left.2 hrun.left, isBoundary_right.2 hrun.right,
        Bool.eq_false_iff.2 hrefused⟩]

/-! ### Serials -/

/-- A serial is found there. -/
def SerialAt (b : List UInt8) (s e : ℕ) : Prop := ∃ text, ⟨s, e, .serial text⟩ ∈ findSerials b

theorem slice_eq_ngc : slice b i (i + 3) = ngc ↔
    b[i]? = some 0x4e ∧ b[i + 1]? = some 0x47 ∧ b[i + 2]? = some 0x43 := by
  constructor
  · intro h
    have hget := fun k (hk : k < 3) => @getElem?_slice b i (i + 3) k (by omega)
    rw [h] at hget
    exact ⟨(hget 0 (by omega)).symm, (hget 1 (by omega)).symm, (hget 2 (by omega)).symm⟩
  · rintro ⟨hn, hg, hc⟩
    have hlt := (List.getElem?_eq_some_iff.1 hc).1
    apply List.ext_getElem?
    intro k
    by_cases hk : k < 3
    · rw [getElem?_slice (by omega)]
      obtain rfl | rfl | rfl : k = 0 ∨ k = 1 ∨ k = 2 := by omega
      · exact hn
      · exact hg
      · exact hc
    · rw [List.getElem?_eq_none (by rw [length_slice (by omega)]; omega),
        List.getElem?_eq_none (by change 3 ≤ k; omega)]

theorem digitsEnd_eq_iff : digitsEnd b pos = pos + n ↔
    (∀ k, pos ≤ k → k < pos + n → On isDigit b k) ∧ ¬ On isDigit b (pos + n) := by
  rw [digitsEnd, Nat.add_right_inj, length_takeWhile_eq_iff, on_drop]
  refine and_congr_left' ⟨fun h k hk hn => ?_, fun h k hk => ?_⟩
  · have hon := h (k - pos) (by omega)
    rwa [on_drop, Nat.add_sub_cancel' hk] at hon
  · rw [on_drop]
    exact h (pos + k) (by omega) (by omega)

theorem digitsEnd_spec (b : List UInt8) (pos : ℕ) :
    pos ≤ digitsEnd b pos ∧ (∀ k, pos ≤ k → k < digitsEnd b pos → On isDigit b k) ∧
      ¬ On isDigit b (digitsEnd b pos) :=
  ⟨Nat.le_add_right _ _, digitsEnd_eq_iff.1 rfl⟩

theorem serialToken_stop {found : Option Finding} (h : serialToken b i = some (stop, found)) :
    slice b i (i + 3) = ngc ∧ stop = digitsEnd b (i + 3) := by
  rw [serialToken] at h
  split_ifs at h with hngc
  dsimp only at h
  split_ifs at h <;> (cases h; exact ⟨hngc, rfl⟩)

theorem serialToken_before {found : Option Finding} (h : serialToken b k = some (stop, found))
    (hk : k < i) (hi : b[i]? = some 0x4e) : stop ≤ i := by
  obtain ⟨hngc, rfl⟩ := serialToken_stop h
  obtain ⟨-, hg, hc⟩ := slice_eq_ngc.1 hngc
  by_contra hlt
  rcases Nat.lt_or_ge i (k + 3) with hin | hin
  · obtain rfl | rfl : i = k + 1 ∨ i = k + 2 := by omega
    · rw [hi] at hg
      exact absurd hg (by decide)
    · rw [hi] at hc
      exact absurd hc (by decide)
  · have hdigit := (digitsEnd_spec b (k + 3)).2.1 i hin (by omega)
    exact absurd ((on_of_getElem? hi).1 hdigit) (by decide)

theorem any_slice (he : e ≤ b.length) : ((slice b s e).any fun c => c ≠ 0x30) = true ↔
    ∃ k, s ≤ k ∧ k < e ∧ b[k]? ≠ some 0x30 := by
  rw [List.any_eq_true]
  constructor
  · rintro ⟨c, hmem, hc⟩
    obtain ⟨k, hs, hk, hget⟩ := exists_of_mem_slice hmem
    refine ⟨k, hs, hk, fun h => ?_⟩
    rw [h] at hget
    cases hget
    exact absurd hc (by decide)
  · rintro ⟨k, hs, hk, hne⟩
    have hget := @getElem?_slice b s e (k - s) (by omega)
    rw [Nat.add_sub_cancel' hs, List.getElem?_eq_getElem (show k < b.length by omega)] at hget
    refine ⟨b[k], List.mem_of_getElem? hget, decide_eq_true fun h => hne ?_⟩
    rw [List.getElem?_eq_getElem (show k < b.length by omega), h]

/-- What is found is `NGC` with all digits behind it, one of which is not zero. -/
theorem serialAt_iff : SerialAt b i e ↔ slice b i (i + 3) = ngc ∧ digitsEnd b (i + 3) = e ∧
    ∃ k, i + 3 ≤ k ∧ k < e ∧ b[k]? ≠ some 0x30 := by
  have hlen (hngc : slice b i (i + 3) = ngc) : digitsEnd b (i + 3) ≤ b.length :=
    (digitsEnd_bounds (Nat.succ_le_of_lt
      (List.getElem?_eq_some_iff.1 (slice_eq_ngc.1 hngc).2.2).1)).2
  constructor
  · rintro ⟨text, hmem⟩
    have htoken := token_of_mem_findAll hmem
    dsimp only at htoken
    obtain ⟨hngc, rfl⟩ := serialToken_stop htoken
    rw [serialToken, if_pos hngc] at htoken
    dsimp only at htoken
    split_ifs at htoken with hany
    swap
    · cases htoken
    exact ⟨hngc, rfl, (any_slice (hlen hngc)).1 hany⟩
  · rintro ⟨hngc, rfl, hany⟩
    have hn := (slice_eq_ngc.1 hngc).1
    refine ⟨fromUtf8Lossy (slice b i (digitsEnd b (i + 3))), mem_findAll ?_
      (List.getElem?_eq_some_iff.1 hn).1 fun k hk stop found htoken =>
        serialToken_before htoken hk hn⟩
    rw [serialToken, if_pos hngc]
    dsimp only
    rw [if_pos ((any_slice (hlen hngc)).2 hany)]

/-! ### Findings -/

theorem serialToken_found (h : serialToken b i = some (stop, some found)) :
    found = .serial (fromUtf8Lossy (slice b i stop)) := by
  rw [serialToken] at h
  split_ifs at h
  dsimp only at h
  split_ifs at h <;> (cases h; try rfl)

theorem ipToken_found (h : ipToken b i = some (stop, some found)) :
    found = .ip (fromUtf8Lossy (slice b i stop)) := by
  rw [ipToken] at h
  split_ifs at h
  obtain ⟨stop', -, h⟩ := Option.map_eq_some_iff.1 h
  dsimp only at h
  split_ifs at h <;> (cases h; try rfl)

theorem macToken_found (h : macToken b i = some (stop, some found)) :
    ∃ text, found = .mac text := by
  obtain ⟨stop', -, h⟩ := Option.map_eq_some_iff.1 h
  dsimp only at h
  split_ifs at h
  · cases h
    exact ⟨_, rfl⟩
  · cases h

theorem serialAt_of_mem {m : Match} (h : m ∈ findSerials b) :
    SerialAt b m.start m.stop ∧ m.finding = .serial (fromUtf8Lossy (slice b m.start m.stop)) := by
  have hfound := serialToken_found (token_of_mem_findAll h)
  exact ⟨⟨fromUtf8Lossy (slice b m.start m.stop), hfound ▸ h⟩, hfound⟩

theorem ipAt_of_mem {m : Match} (h : m ∈ findIps b) :
    IpAt b m.start m.stop ∧ m.finding = .ip (fromUtf8Lossy (slice b m.start m.stop)) := by
  have hfound := ipToken_found (token_of_mem_findAll h)
  exact ⟨⟨fromUtf8Lossy (slice b m.start m.stop), hfound ▸ h⟩, hfound⟩

theorem macAt_of_mem {m : Match} (h : m ∈ findMacs b) :
    MacAt b m.start m.stop ∧ ∃ text, m.finding = .mac text := by
  obtain ⟨text, hfound⟩ := macToken_found (token_of_mem_findAll h)
  exact ⟨⟨text, hfound ▸ h⟩, text, hfound⟩

theorem eq_nil_iff {matches' : List Match} {at_ : ℕ → ℕ → Prop}
    (hmem : ∀ m ∈ matches', at_ m.start m.stop) (hat : ∀ s e, at_ s e → ∃ m, m ∈ matches') :
    matches' = [] ↔ ∀ s e, ¬ at_ s e := by
  constructor
  · rintro rfl s e h
    obtain ⟨m, hm⟩ := hat s e h
    exact List.not_mem_nil hm
  · intro h
    exact List.eq_nil_iff_forall_not_mem.2 fun m hm => h m.start m.stop (hmem m hm)

/-- Nothing is found if nothing of any class is. -/
theorem findMatches_eq_nil : findMatches b = [] ↔
    (∀ s e, ¬ SerialAt b s e) ∧ (∀ s e, ¬ IpAt b s e) ∧ ∀ s e, ¬ MacAt b s e := by
  rw [findMatches, List.append_eq_nil_iff, List.append_eq_nil_iff, and_assoc]
  refine and_congr (eq_nil_iff (fun m hm => (serialAt_of_mem hm).1) ?_)
    (and_congr (eq_nil_iff (fun m hm => (ipAt_of_mem hm).1) ?_)
      (eq_nil_iff (fun m hm => (macAt_of_mem hm).1) ?_))
  all_goals
    rintro s e ⟨text, hmem⟩
    exact ⟨_, hmem⟩

end Redact

end LibWing
