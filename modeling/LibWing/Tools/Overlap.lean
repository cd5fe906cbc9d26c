import LibWing.Tools.Overwritten

/-!
# Addresses that overlap

A pass writes over the bytes of an address and of a hardware address that share digits.  What it
leaves of the address may be an address again.

* `Overwritten.colon_iff`, `Overwritten.macBody_iff` : what a pass keeps of the bytes;
* `IpAt.overlap` : the two share one or two digits, at the start of the address or at its end;
* `LeftCut`, `RightCut` : how many they share at either end;
* `ipAt_leftOver` : what is left is found again if they share two at the start, and the address does
  not end in another hardware address that makes it too short or too long.
-/

namespace LibWing

namespace Redact

open Runs

variable {b out : List UInt8} {s e m i j k n p q u v c d : ℕ} {byte : UInt8} {f : UInt8 → Bool}

/-! ### Addresses -/

theorem MacAt.stop (hat : MacAt b m e) : e = m + 17 := (macAt_iff.1 hat).1

theorem MacAt.colon (hat : MacAt b m e) (hk : k < 17) (hmod : k % 3 = 2) :
    b[m + k]? = some colon :=
  (macAt_iff.1 hat).2.1.colon hk hmod

theorem IpAt.body (hat : IpAt b s e) (hs : s ≤ i) (he : i < e) : On isIpBody b i :=
  (ipAt_iff.1 hat).1.all i hs he

theorem MacAt.body (hat : MacAt b m e) (hm : m ≤ i) (he : i < e) : On isMacBody b i :=
  (macAt_iff.1 hat).2.2.1.all i hm he

theorem IpAt.parse (hat : IpAt b s e) : parseIpv4End b s = some e := by
  have hbounds := hat.bounds
  obtain ⟨hrun, hrefused⟩ := ipAt_iff.1 hat
  exact (parseIpv4End_slice hbounds.1.le hbounds.2 hrun.right).2 hrefused.1

/-- An address starts with a digit. -/
theorem IpAt.first (hat : IpAt b s e) : On isDigit b s := by
  obtain ⟨p, q, hsp, -, -, -, hdigits, -⟩ := parseIpv4End_eq_some hat.parse
  exact hdigits s (Nat.le_refl s) hsp

/-- An address ends with a digit. -/
theorem IpAt.last (hat : IpAt b s e) : On isDigit b (e - 1) := by
  obtain ⟨p, q, -, -, -, hqe, -, -, -, hdigits⟩ := parseIpv4End_eq_some hat.parse
  exact hdigits (e - 1) (by omega) (by omega)

theorem InIp.body (h : InIp b i) : On isIpBody b i := by
  obtain ⟨s, e, hat, hs, he⟩ := h
  exact hat.body hs he

theorem InMac.body (h : InMac b i) : On isMacBody b i := by
  obtain ⟨m, n, hat, hm, hn⟩ := h
  exact hat.body hm hn

/-- What meets a hardware address and is of its bytes is part of it. -/
theorem MacAt.contains (hat : MacAt b m n) (hall : ∀ k, i ≤ k → k < j → On isMacBody b k)
    (hik : i ≤ k)
    (hkj : k < j) (hm : m ≤ k) (hn : k < n) : m ≤ i ∧ j ≤ n :=
  (macAt_iff.1 hat).2.2.1.contains hall hik hkj hm hn

/-- What meets an address and is of its bytes is part of it. -/
theorem IpAt.contains (hat : IpAt b s e) (hall : ∀ k, i ≤ k → k < j → On isIpBody b k) (hik : i ≤ k)
    (hkj : k < j) (hs : s ≤ k) (he : k < e) : s ≤ i ∧ j ≤ e :=
  (ipAt_iff.1 hat).1.contains hall hik hkj hs he

theorem MacAt.left (hat : MacAt b m n) (hi : i + 1 = m) : ¬ On isMacBody b i :=
  (macAt_iff.1 hat).2.2.1.left i hi

theorem MacAt.right (hat : MacAt b m n) : ¬ On isMacBody b n := (macAt_iff.1 hat).2.2.1.right

theorem IpAt.left (hat : IpAt b s e) (hi : i + 1 = s) : ¬ On isIpBody b i :=
  (ipAt_iff.1 hat).1.left i hi

theorem IpAt.right (hat : IpAt b s e) : ¬ On isIpBody b e := (ipAt_iff.1 hat).1.right

/-! ### Kinds of bytes -/

section Kept

variable (h : Overwritten b out)
include h

theorem Overwritten.macDigit (hat : MacAt b m e) (hk : k < 17) (hmod : k % 3 ≠ 2) :
    On isDigit out (m + k) := by
  obtain ⟨rfl, -⟩ := macAt_iff.1 hat
  have hfresh := freshMac_spec k hk
  rw [if_neg hmod] at hfresh
  rw [On, h.mac m (m + 17) (m + k) hat (by omega) (by omega), Nat.add_sub_cancel_left]
  exact hfresh

theorem Overwritten.macColon (hat : MacAt b m e) (hk : k < 17) (hmod : k % 3 = 2) :
    out[m + k]? = some colon := by
  obtain ⟨rfl, -⟩ := macAt_iff.1 hat
  have hfresh := freshMac_spec k hk
  rw [if_pos hmod] at hfresh
  rw [h.mac m (m + 17) (m + k) hat (by omega) (by omega), Nat.add_sub_cancel_left]
  exact hfresh

/-- A hardware address is written group for group. -/
theorem Overwritten.grouped (hat : MacAt b m e) : Grouped out m 17 := by
  intro k hk
  split_ifs with hmod
  · exact h.macColon hat hk hmod
  · exact on_hex (h.macDigit hat hk hmod)

/-- The last group is written. -/
theorem Overwritten.macEnd (hat : MacAt b m n) : slice out (m + 15) n = [0x30, 0x30] := by
  obtain ⟨rfl, -⟩ := macAt_iff.1 hat
  refine slice_eq rfl fun k hk => ?_
  change k < 2 at hk
  rw [h.mac m (m + 17) (m + 15 + k) hat (by omega) (by omega), Nat.add_assoc,
    Nat.add_sub_cancel_left]
  obtain rfl | rfl : k = 0 ∨ k = 1 := by omega
  · rfl
  · rfl

/-- The first group is written. -/
theorem Overwritten.macStart (hat : MacAt b m n) : slice out m (m + 2) = [0x30, 0x32] := by
  obtain ⟨rfl, -⟩ := macAt_iff.1 hat
  refine slice_eq rfl fun k hk => ?_
  change k < 2 at hk
  rw [h.mac m (m + 17) (m + k) hat (by omega) (by omega), Nat.add_sub_cancel_left]
  obtain rfl | rfl : k = 0 ∨ k = 1 := by omega
  · rfl
  · rfl

/-- In a hardware address, colons stay and digits stay digits. -/
theorem Overwritten.inMac (hin : InMac b i) :
    (b[i]? = some colon ∧ out[i]? = some colon) ∨ (On isHexDigit b i ∧ On isDigit out i) := by
  obtain ⟨m, e, hat, hm, he⟩ := hin
  obtain ⟨rfl, hgrouped, -⟩ := macAt_iff.1 hat
  obtain ⟨k, rfl⟩ := Nat.exists_eq_add_of_le hm
  by_cases hmod : k % 3 = 2
  · exact Or.inl ⟨hgrouped.colon (by omega) hmod, h.macColon hat (by omega) hmod⟩
  · exact Or.inr ⟨hgrouped.hex (by omega) hmod, h.macDigit hat (by omega) hmod⟩

/-- Elsewhere than in addresses, a kind that all digits are of is kept. -/
theorem Overwritten.on_iff (hf : ∀ c, isDigit c = true → f c = true) (hip : ¬ InIp b i)
    (hmac : ¬ InMac b i) : On f out i ↔ On f b i := by
  by_cases hserial : InSerial b i
  · have hout := h.serial i hserial hip hmac
    obtain ⟨k, -, hk, hdigits⟩ := hserial
    exact iff_of_true ((on_of_getElem? hout).2 (hf _ (by decide)))
      ((hdigits i hk (Nat.le_refl i)).mono hf)
  · exact on_congr (h.other i hserial hip hmac)

/-- Elsewhere than in addresses, what is no digit is kept. -/
theorem Overwritten.kept (hip : ¬ InIp b i) (hmac : ¬ InMac b i) (hdigit : ¬ On isDigit out i) :
    out[i]? = b[i]? := by
  apply h.other i _ hip hmac
  rintro hserial
  exact hdigit ((on_of_getElem? (h.serial i hserial hip hmac)).2 (by decide))

theorem Overwritten.ipBody (hfit : Fitting b) (hin : InIp b i) : On isIpBody out i := by
  by_cases hmac : InMac b i
  · obtain ⟨s, e, hat, hs, he⟩ := hin
    have hbody := (ipAt_iff.1 hat).1.all i hs he
    rcases h.inMac hmac with ⟨hcolon, -⟩ | ⟨-, hdigit⟩
    · exact absurd hbody (not_on_ip_of_colon hcolon)
    · exact on_ip hdigit
  · obtain ⟨s, e, hat, hs, he⟩ := hin
    have hfitted := fitted_spec (hfit.fits hat) (i - s) (by omega)
    have hout := h.ip s e i hat hs he hmac
    split_ifs at hfitted
    · rw [hfitted] at hout
      exact on_ip_of_dot hout
    · refine on_ip ?_
      rw [On, hout]
      exact hfitted

/-- Digits and dots stay digits and dots. -/
theorem Overwritten.keepsIpBody (hfit : Fitting b) (hbody : On isIpBody b i) :
    On isIpBody out i := by
  by_cases hip : InIp b i
  · exact h.ipBody hfit hip
  · by_cases hmac : InMac b i
    · rcases h.inMac hmac with ⟨hcolon, -⟩ | ⟨-, hdigit⟩
      · exact absurd hbody (not_on_ip_of_colon hcolon)
      · exact on_ip hdigit
    · exact (h.on_iff (fun c hc => isIpBody_iff.2 (Or.inl hc)) hip hmac).2 hbody

/-- No colon comes or goes. -/
theorem Overwritten.colon_iff (hfit : Fitting b) : out[i]? = some colon ↔ b[i]? = some colon := by
  by_cases hmac : InMac b i
  · rcases h.inMac hmac with ⟨hcolon, hout⟩ | ⟨hhex, hdigit⟩
    · exact iff_of_true hout hcolon
    · exact iff_of_false (fun hout => absurd ((on_of_getElem? hout).1 hdigit) (by decide))
        fun hcolon => absurd ((on_of_getElem? hcolon).1 hhex) (by decide)
  · by_cases hip : InIp b i
    · have hbody := h.ipBody hfit hip
      obtain ⟨s, e, hat, hs, he⟩ := hip
      exact iff_of_false (fun hout => not_on_ip_of_colon hout hbody)
        fun hcolon => not_on_ip_of_colon hcolon ((ipAt_iff.1 hat).1.all i hs he)
    · constructor
      · intro hout
        rw [← h.kept hip hmac fun hdigit => absurd ((on_of_getElem? hout).1 hdigit) (by decide)]
        exact hout
      · intro hcolon
        have hdigit := (h.on_iff (fun _ => id) hip hmac).not.2 fun hdigit =>
          absurd ((on_of_getElem? hcolon).1 hdigit) (by decide)
        rw [h.kept hip hmac hdigit, hcolon]

/-- Elsewhere than in addresses, hexadecimal digits and colons stay. -/
theorem Overwritten.macBody_iff (hip : ¬ InIp b i) : On isMacBody out i ↔ On isMacBody b i := by
  by_cases hmac : InMac b i
  · rcases h.inMac hmac with ⟨hcolon, hout⟩ | ⟨hhex, hdigit⟩
    · exact iff_of_true (on_mac_of_colon hout) (on_mac_of_colon hcolon)
    · exact iff_of_true (on_mac (on_hex hdigit)) (on_mac hhex)
  · exact h.on_iff (fun c hc => isMacBody_iff.2 (Or.inl (isHexDigit_of_isDigit hc))) hip hmac

/-- A digit elsewhere than in addresses stays a digit, and nothing else becomes one. -/
theorem Overwritten.digit_iff (hip : ¬ InIp b i) (hmac : ¬ InMac b i) :
    On isDigit out i ↔ On isDigit b i :=
  h.on_iff (fun _ => id) hip hmac

theorem Overwritten.ipBody_iff (hip : ¬ InIp b i) (hmac : ¬ InMac b i) :
    On isIpBody out i ↔ On isIpBody b i :=
  h.on_iff (fun _ hc => isIpBody_iff.2 (Or.inl hc)) hip hmac

theorem Overwritten.hex_iff (hip : ¬ InIp b i) (hmac : ¬ InMac b i) :
    On isHexDigit out i ↔ On isHexDigit b i :=
  h.on_iff (fun _ => isHexDigit_of_isDigit) hip hmac

theorem Overwritten.kept' (hip : ¬ InIp b i) (hmac : ¬ InMac b i) (hdigit : ¬ On isDigit b i) :
    out[i]? = b[i]? :=
  h.kept hip hmac ((h.digit_iff hip hmac).not.2 hdigit)

/-- A byte of no address is written by none. -/
theorem Overwritten.letter (hfit : Fitting b) (hget : out[i]? = some byte)
    (hip : isIpBody byte = false) (hmac : byte ≠ colon) :
    ¬ InIp b i ∧ ¬ InMac b i ∧ b[i]? = some byte := by
  have hbody : ¬ On isIpBody out i := fun hon => by
    rw [(on_of_getElem? hget).1 hon] at hip
    cases hip
  have hnotIp : ¬ InIp b i := fun hin => hbody (h.ipBody hfit hin)
  have hnotMac : ¬ InMac b i := by
    intro hin
    rcases h.inMac hin with ⟨-, hcolon⟩ | ⟨-, hdigit⟩
    · rw [hget] at hcolon
      exact hmac (Option.some.inj hcolon)
    · exact hbody (on_ip hdigit)
  exact ⟨hnotIp, hnotMac, (h.kept hnotIp hnotMac fun hdigit => hbody (on_ip hdigit)) ▸ hget⟩

/-- Between the dots of what is written over an address are digits, or groups. -/
theorem Overwritten.fittedBody (hfit : Fitting b) (hat : IpAt b s e) (hs : s ≤ i) (he : i < e)
    (hdot : ¬ (i = s + 3 ∨ i = s + 5 ∨ i = s + 7)) : On isMacBody out i := by
  by_cases hmac : InMac b i
  · rcases h.inMac hmac with ⟨-, hcolon⟩ | ⟨-, hdigit⟩
    · exact on_mac_of_colon hcolon
    · exact on_mac (on_hex hdigit)
  · have hfitted := fitted_spec (hfit.fits hat) (i - s) (by omega)
    rw [if_neg (by omega), ← h.ip s e i hat hs he hmac] at hfitted
    exact on_mac (on_hex hfitted)

theorem Overwritten.fittedDot (hfit : Fitting b) (hat : IpAt b s e)
    (hdot : i = s + 3 ∨ i = s + 5 ∨ i = s + 7) (hmac : ¬ InMac b i) : out[i]? = some dot := by
  have hfits := hfit.fits hat
  have hlo := hfits.1
  have hfitted := fitted_spec hfits (i - s) (by omega)
  rwa [if_pos (by omega), ← h.ip s e i hat (by omega) (by omega) hmac] at hfitted

/-- An address starts and ends with a digit after it is written over. -/
theorem Overwritten.firstDigit (hfit : Fitting b) (hat : IpAt b s e) : On isDigit out s :=
  on_digit_of_bodies (h.keepsIpBody hfit (hat.body (Nat.le_refl s) hat.bounds.1))
    (h.fittedBody hfit hat (Nat.le_refl s) hat.bounds.1 (by omega))

theorem Overwritten.lastDigit (hfit : Fitting b) (hat : IpAt b s e) : On isDigit out (e - 1) := by
  have hlo := (hfit.fits hat).1
  exact on_digit_of_bodies (h.keepsIpBody hfit (hat.body (by omega) (by omega)))
    (h.fittedBody hfit hat (by omega) (by omega) (by omega))

end Kept

/-! ### Overlaps -/

/-- No address has a colon of a hardware address. -/
theorem IpAt.avoids (hat : IpAt b s e) (hmac : MacAt b m n) (hk : k < 17) (hmod : k % 3 = 2) :
    ¬ (s ≤ m + k ∧ m + k < e) := fun hin =>
  not_on_ip_of_colon (hmac.colon hk hmod) (hat.body hin.1 hin.2)

theorem MacAt.stop_ne (hmac : MacAt b m n) (hat : IpAt b s e) : n ≠ s := by
  rintro rfl
  exact (macAt_iff.1 hmac).2.2.1.right (on_mac (on_hex hat.first))

theorem MacAt.start_ne (hmac : MacAt b m n) (hat : IpAt b s e) : m ≠ e := by
  rintro rfl
  have hlt := hat.bounds.1
  exact (macAt_iff.1 hmac).2.2.1.left (m - 1) (by omega) (on_mac (on_hex hat.last))

/-- **An address and a hardware address** overlap in the last group or in the first one, and by one
or two digits. -/
theorem IpAt.overlap (hfit : Fitting b) (hat : IpAt b s e) (hmac : MacAt b m n) (hs : s ≤ i)
    (he : i < e) (hm : m ≤ i) (hn : i < n) : n = s + 1 ∨ n = s + 2 ∨ m + 1 = e ∨ m + 2 = e := by
  have hstop := hmac.stop
  obtain ⟨hlo, -⟩ := hfit.fits hat
  -- an address has no colon, and is longer than what is between two of them
  have h2 := hat.avoids hmac (k := 2) (by omega) (by omega)
  have h5 := hat.avoids hmac (k := 5) (by omega) (by omega)
  have h8 := hat.avoids hmac (k := 8) (by omega) (by omega)
  have h11 := hat.avoids hmac (k := 11) (by omega) (by omega)
  have h14 := hat.avoids hmac (k := 14) (by omega) (by omega)
  omega

/-! ### Cuts -/

/-- What a hardware address leaves before the rest of an address `c` digits of which it has. -/
def leftText (c : ℕ) : List UInt8 := if c = 0 then [] else [0x30, 0x30]

/-- What a hardware address leaves after the rest of an address `d` digits of which it has. -/
def rightText (d : ℕ) : List UInt8 := if d = 0 then [] else [0x30, 0x32]

/-- A hardware address has `c` digits at the start of the address at `s`, or none does; what it
leaves starts at `u`. -/
structure LeftCut (b out : List UInt8) (s c u : ℕ) : Prop where
  /-- At most two bytes are cut off. -/
  le : c ≤ 2
  /-- Where the text in front begins. -/
  start : u + (leftText c).length = s + c
  /-- What stands there. -/
  text : slice out u (s + c) = leftText c
  /-- What is before that is no part of an address. -/
  left : ∀ i, i + 1 = u → ¬ On isIpBody out i
  /-- A hardware address ends there, and at no other digit. -/
  iff : ∀ c', 0 < c' → c' ≤ 2 → ((∃ m, MacAt b m (s + c')) ↔ c' = c)

/-- A hardware address has `d` digits at the end of the address to `e`, or none does; what it leaves
ends at `v`. -/
structure RightCut (b out : List UInt8) (e d v : ℕ) : Prop where
  /-- At most two bytes are cut off. -/
  le : d ≤ 2
  /-- Where the text behind ends. -/
  stop : v + d = e + (rightText d).length
  /-- What stands there. -/
  text : slice out (e - d) v = rightText d
  /-- What is behind that is no part of an address. -/
  right : ¬ On isIpBody out v
  /-- A hardware address begins there, and at no other digit. -/
  iff : ∀ d', 0 < d' → d' ≤ 2 → ((∃ m n, MacAt b m n ∧ m + d' = e) ↔ d' = d)

theorem leftCut_of_mac (h : Overwritten b out) (hmac : MacAt b m (s + c)) (hc : 0 < c)
    (hle : c ≤ 2) :
    LeftCut b out s c (m + 15) := by
  have hstop := hmac.stop
  have htext : leftText c = [0x30, 0x30] := if_neg (by omega)
  refine ⟨hle, by rw [htext]; exact hstop.symm, by rw [htext, h.macEnd hmac], ?_, ?_⟩
  · intro i hi
    obtain rfl : i = m + 14 := by omega
    exact not_on_ip_of_colon (h.macColon hmac (by omega) (by omega))
  · intro c' hc' hle'
    constructor
    · rintro ⟨m', hmac'⟩
      have hstop' := hmac'.stop
      have heq := hmac.eq_of_mem hmac' (i := s) (by omega) (by omega) (by omega) (by omega)
      omega
    · rintro rfl
      exact ⟨m, hmac⟩

theorem rightCut_of_mac (h : Overwritten b out) (hmac : MacAt b m n) (hd : 0 < d) (hle : d ≤ 2)
    (he : m + d = e) : RightCut b out e d (m + 2) := by
  have hstop := hmac.stop
  have htext : rightText d = [0x30, 0x32] := if_neg (by omega)
  have hed : e - d = m := by omega
  refine ⟨hle, by rw [htext, ← he]; exact Nat.add_right_comm m 2 d,
    by rw [htext, hed, h.macStart hmac], ?_, ?_⟩
  · exact not_on_ip_of_colon (h.macColon hmac (by omega) (by omega))
  · intro d' hd' hle'
    constructor
    · rintro ⟨m', n', hmac', he'⟩
      have hstop' := hmac'.stop
      have heq := hmac.eq_of_mem hmac' (i := e - 1) (by omega) (by omega) (by omega) (by omega)
      omega
    · rintro rfl
      exact ⟨m, n, hmac, he⟩

/-- Beside an address there is no other, and no hardware address if none overlaps it. -/
theorem exists_leftCut (h : Overwritten b out) (hfit : Fitting b) (hat : IpAt b s e) :
    ∃ c u, LeftCut b out s c u := by
  by_cases hone : ∃ m, MacAt b m (s + 1)
  · obtain ⟨m, hmac⟩ := hone
    exact ⟨1, m + 15, leftCut_of_mac h hmac (by omega) (by omega)⟩
  by_cases htwo : ∃ m, MacAt b m (s + 2)
  · obtain ⟨m, hmac⟩ := htwo
    exact ⟨2, m + 15, leftCut_of_mac h hmac (by omega) (by omega)⟩
  refine ⟨0, s, by omega, rfl, slice_self out s, fun i hi => ?_, fun c' hc' hle' => ?_⟩
  · have hbody : ¬ On isIpBody b i := (ipAt_iff.1 hat).1.left i hi
    have hip : ¬ InIp b i := by
      rintro ⟨s', e', hat', hs', he'⟩
      exact hbody (hat'.body hs' he')
    have hmac : ¬ InMac b i := by
      rintro ⟨m, n, hmac, hm, hn⟩
      have hne := hmac.stop_ne hat
      have hfits := hfit.fits hat
      rcases hat.overlap hfit hmac (i := s) (Nat.le_refl s) hat.bounds.1 (by omega) (by omega) with
        rfl | rfl | heq | heq
      · exact hone ⟨m, hmac⟩
      · exact htwo ⟨m, hmac⟩
      · have := hfits.1
        omega
      · have := hfits.1
        omega
    exact (h.on_iff (fun c hc => isIpBody_iff.2 (Or.inl hc)) hip hmac).not.2 hbody
  · obtain rfl | rfl : c' = 1 ∨ c' = 2 := by omega
    · exact iff_of_false hone (by omega)
    · exact iff_of_false htwo (by omega)

theorem exists_rightCut (h : Overwritten b out) (hfit : Fitting b) (hat : IpAt b s e) :
    ∃ d v, RightCut b out e d v := by
  by_cases hone : ∃ m n, MacAt b m n ∧ m + 1 = e
  · obtain ⟨m, n, hmac, he⟩ := hone
    exact ⟨1, m + 2, rightCut_of_mac h hmac (by omega) (by omega) he⟩
  by_cases htwo : ∃ m n, MacAt b m n ∧ m + 2 = e
  · obtain ⟨m, n, hmac, he⟩ := htwo
    exact ⟨2, m + 2, rightCut_of_mac h hmac (by omega) (by omega) he⟩
  refine ⟨0, e, by omega, rfl, slice_self out e, ?_, fun d' hd' hle' => ?_⟩
  · have hbody : ¬ On isIpBody b e := (ipAt_iff.1 hat).1.right
    have hip : ¬ InIp b e := by
      rintro ⟨s', e', hat', hs', he'⟩
      exact hbody (hat'.body hs' he')
    have hmac : ¬ InMac b e := by
      rintro ⟨m, n, hmac, hm, hn⟩
      have hne := hmac.start_ne hat
      have hlt := hat.bounds.1
      have hfits := hfit.fits hat
      have hstop := hmac.stop
      rcases hat.overlap hfit hmac (i := e - 1) (by omega) (by omega) (by omega) (by omega) with
        heq | heq | heq | heq
      · have := hfits.1
        omega
      · have := hfits.1
        omega
      · exact hone ⟨m, n, hmac, heq⟩
      · exact htwo ⟨m, n, hmac, heq⟩
    exact (h.on_iff (fun c hc => isIpBody_iff.2 (Or.inl hc)) hip hmac).not.2 hbody
  · obtain rfl | rfl : d' = 1 ∨ d' = 2 := by omega
    · exact iff_of_false hone (by omega)
    · exact iff_of_false htwo (by omega)

/-! ### What is left of an address -/

/-- What is left of an address of length `n`, with what is before and after it. -/
def leftOver (n c d : ℕ) : List UInt8 :=
  leftText c ++ slice (fitted n) c (n - d) ++ rightText d

theorem mem_of_fits (hn : Fits n) : n ∈ [9, 10, 11] := by
  rcases hn.cases with rfl | rfl | rfl <;> decide

theorem mem_of_le_two (hc : c ≤ 2) : c ∈ [0, 1, 2] := by
  obtain rfl | rfl | rfl : c = 0 ∨ c = 1 ∨ c = 2 := by omega
  all_goals decide

/-- It is refused if a hardware address has two digits at its start, unless the one at its end makes
it too long or too short. -/
theorem refused_leftOver (hn : Fits n) (hc : c ≤ 2) (hd : d ≤ 2) :
    Refused (leftOver n c d) ↔ c = 2 ∧ ¬ (n = 9 ∧ d = 2) ∧ ¬ (n = 11 ∧ d = 1) := by
  have h : ∀ n ∈ [9, 10, 11], ∀ c ∈ [0, 1, 2], ∀ d ∈ [0, 1, 2],
      (Refused (leftOver n c d) ↔ c = 2 ∧ ¬ (n = 9 ∧ d = 2) ∧ ¬ (n = 11 ∧ d = 1)) := by
    decide +kernel
  exact h n (mem_of_fits hn) c (mem_of_le_two hc) d (mem_of_le_two hd)

theorem body_leftOver (hn : Fits n) (hc : c ≤ 2) (hd : d ≤ 2) :
    (leftOver n c d).all isIpBody = true ∧
      (leftOver n c d).length + c + d = n + (leftText c).length + (rightText d).length := by
  have h : ∀ n ∈ [9, 10, 11], ∀ c ∈ [0, 1, 2], ∀ d ∈
    [0, 1, 2], (leftOver n c d).all isIpBody = true ∧
      (leftOver n c d).length + c + d = n + (leftText c).length + (rightText d).length := by
    decide +kernel
  exact h n (mem_of_fits hn) c (mem_of_le_two hc) d (mem_of_le_two hd)

/-- A hardware address has two digits at the start of an address, and none at its end makes what is
left too short or too long. -/
structure Leaves (b : List UInt8) (s e : ℕ) : Prop where
  /-- It is an address. -/
  ip : IpAt b s e
  /-- A hardware address ends behind its first two digits. -/
  mac : ∃ m, MacAt b m (s + 2)
  /-- None begins where what is left would fit. -/
  noMac : ¬ ∃ m n, MacAt b m n ∧ ((m + 2 = e ∧ e = s + 9) ∨ (m + 1 = e ∧ e = s + 11))

variable (h : Overwritten b out) (hfit : Fitting b) (hat : IpAt b s e)
  (hleft : LeftCut b out s c u) (hright : RightCut b out e d v)
include h hfit hat hleft hright

omit h in
theorem not_inMac_of_cut (hs : s + c ≤ i) (he : i + d < e) : ¬ InMac b i := by
  rintro ⟨m, n, hmac, hm, hn⟩
  have hstop := hmac.stop
  rcases hat.overlap hfit hmac (i := i) (by omega) (by omega) hm hn with rfl | rfl | heq | heq
  · have := (hleft.iff 1 (by omega) (by omega)).1 ⟨m, hmac⟩
    omega
  · have := (hleft.iff 2 (by omega) (by omega)).1 ⟨m, hmac⟩
    omega
  · have := (hright.iff 1 (by omega) (by omega)).1 ⟨m, n, hmac, heq⟩
    omega
  · have := (hright.iff 2 (by omega) (by omega)).1 ⟨m, n, hmac, heq⟩
    omega

theorem slice_leftOver : slice out u v = leftOver (e - s) c d := by
  obtain ⟨hlo, -⟩ := hfit.fits hat
  have hc := hleft.le
  have hd := hright.le
  have hstart := hleft.start
  have hstop := hright.stop
  have hlength : (slice (fitted (e - s)) c (e - s - d)).length = e - s - d - c := by
    rw [length_slice]
    rw [length_fitted (hfit.fits hat)]
    omega
  have hmiddle : slice out (s + c) (e - d) = slice (fitted (e - s)) c (e - s - d) := by
    refine slice_eq (by omega) fun k hk => ?_
    rw [hlength] at hk
    rw [getElem?_slice (by omega), h.ip s e (s + c + k) hat (by omega) (by omega)
      (not_inMac_of_cut hfit hat hleft hright (by omega) (by omega)), Nat.add_assoc,
      Nat.add_sub_cancel_left]
  rw [leftOver, ← hleft.text, ← hmiddle, ← hright.text, slice_append (by omega) (by omega),
    slice_append (by omega) (by omega)]

theorem run_leftOver : Run (On isIpBody out) u v := by
  have hfits := hfit.fits hat
  have hc := hleft.le
  have hd := hright.le
  have hstart := hleft.start
  have hstop := hright.stop
  obtain ⟨hbody, hlength⟩ := body_leftOver hfits hc hd
  have hlo := hfits.1
  refine ⟨by omega, fun i hu hv => ?_, hleft.left, hright.right⟩
  have hlt : i - u < (leftOver (e - s) c d).length := by omega
  have hget := @getElem?_slice out u v (i - u) (by omega)
  rw [slice_leftOver h hfit hat hleft hright, Nat.add_sub_cancel' hu,
    List.getElem?_eq_getElem hlt] at hget
  exact (on_of_getElem? hget.symm).2 (List.all_eq_true.1 hbody _ (List.getElem_mem hlt))

/-- **What is left of an address** is found again if a hardware address has two digits at its start,
and none makes it too long or too short at its end. -/
theorem ipAt_leftOver : IpAt out u v ↔ Leaves b s e := by
  have hleaves : Leaves b s e ↔ (∃ m, MacAt b m (s + 2)) ∧
      ¬ ∃ m n, MacAt b m n ∧ ((m + 2 = e ∧ e = s + 9) ∨ (m + 1 = e ∧ e = s + 11)) :=
    ⟨fun hl => ⟨hl.mac, hl.noMac⟩, fun hl => ⟨hat, hl.1, hl.2⟩⟩
  have hfits := hfit.fits hat
  have hlt := hat.bounds.1
  rw [hleaves, ipAt_iff, and_iff_right (run_leftOver h hfit hat hleft hright),
    slice_leftOver h hfit hat hleft hright, refused_leftOver hfits hleft.le hright.le,
    hleft.iff 2 (by omega) (by omega), eq_comm (a := c)]
  refine and_congr_right' ?_
  constructor
  · rintro ⟨hnine, heleven⟩ ⟨m, n, hmac, ⟨he, hes⟩ | ⟨he, hes⟩⟩
    · exact hnine ⟨by omega, ((hright.iff 2 (by omega) (by omega)).1 ⟨m, n, hmac, he⟩).symm⟩
    · exact heleven ⟨by omega, ((hright.iff 1 (by omega) (by omega)).1 ⟨m, n, hmac, he⟩).symm⟩
  · intro hnone
    refine ⟨?_, ?_⟩
    · rintro ⟨hes, hd⟩
      obtain ⟨m, n, hmac, he⟩ := (hright.iff 2 (by omega) (by omega)).2 hd.symm
      exact hnone ⟨m, n, hmac, Or.inl ⟨he, by omega⟩⟩
    · rintro ⟨hes, hd⟩
      obtain ⟨m, n, hmac, he⟩ := (hright.iff 1 (by omega) (by omega)).2 hd.symm
      exact hnone ⟨m, n, hmac, Or.inr ⟨he, by omega⟩⟩

/-- Nothing else is found where an address was. -/
theorem eq_leftOver (hat' : IpAt out p q) (hs : s ≤ i) (he : i < e) (hp : p ≤ i) (hq : i < q) :
    p = u ∧ q = v := by
  have hc := hleft.le
  have hd := hright.le
  have hstart := hleft.start
  have hstop := hright.stop
  have hleftText : (leftText c).length = if c = 0 then 0 else 2 := by
    rw [leftText]
    split_ifs <;> rfl
  have hrightText : (rightText d).length = if d = 0 then 0 else 2 := by
    rw [rightText]
    split_ifs <;> rfl
  rw [hleftText] at hstart
  rw [hrightText] at hstop
  exact (ipAt_iff.1 hat').1.eq_of_mem (run_leftOver h hfit hat hleft hright) hp hq
    (by split_ifs at hstart <;> omega) (by split_ifs at hstop <;> omega)

end Redact

end LibWing
