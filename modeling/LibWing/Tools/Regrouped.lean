import LibWing.Tools.Overlap

/-!
# What is found after a pass

A pass may leave a serial or a hardware address that is found again.

* `serialAt_overwritten` : a serial is, where an address stood right behind `NGC`;
* `macAt_disjoint` : a hardware address is not, where one was;
* `macAt_overwritten` : it is, where the last digits that are written over an address and the groups
  behind it (`Regroups`) make one.
-/

namespace LibWing

namespace Redact

open Runs

variable {b out : List UInt8} {s e m i j k n p q z : ℕ}

/-! ### Serials -/

theorem fitted_zero (hn : Fits n) : (fitted n)[0]? = some 0x31 := by
  rcases hn.cases with rfl | rfl | rfl
  · rw [fitted_nine]; rfl
  · rw [fitted_ten]; rfl
  · rw [fitted_eleven]; rfl

section Serials

variable (h : Overwritten b out) (hfit : Fitting b)
include h hfit

/-- No digit behind `NGC` belongs to an address that does not start there: the first that did would
be its start, and follows a digit. -/
theorem free_of_serialAt (hngc : slice out i (i + 3) = ngc)
    (hdigits : ∀ j, i + 3 ≤ j → j ≤ k → On isDigit out j) (hnone : ∀ e, ¬ IpAt b (i + 3) e) :
    ∀ j, i + 3 ≤ j → j ≤ k → ¬ InIp b j ∧ ¬ InMac b j ∧ On isDigit b j := by
  obtain ⟨-, -, hc⟩ := slice_eq_ngc.1 hngc
  obtain ⟨hcip, hcmac, hc⟩ := h.letter hfit hc (by decide) (by decide)
  intro j
  induction j using Nat.strong_induction_on with
  | _ j ih =>
    intro hj hjk
    have hip : ¬ InIp b j := by
      rintro ⟨s, e, hat, hs, he⟩
      rcases Nat.lt_trichotomy s (i + 3) with hlt | rfl | hgt
      · exact hcip ⟨s, e, hat, by omega, by omega⟩
      · exact hnone e hat
      · exact hat.left (i := s - 1) (by omega)
          (on_ip (ih (s - 1) (by omega) (by omega) (by omega)).2.2)
    have hmac : ¬ InMac b j := by
      rintro ⟨m, n, hat, hm, hn⟩
      rcases Nat.lt_trichotomy m (i + 3) with hlt | rfl | hgt
      · exact hcmac ⟨m, n, hat, by omega, by omega⟩
      · exact hat.left (i := i + 2) rfl ((on_of_getElem? hc).2 (by decide))
      · exact hat.left (i := m - 1) (by omega)
          (on_mac (on_hex (ih (m - 1) (by omega) (by omega) (by omega)).2.2))
    exact ⟨hip, hmac, (h.digit_iff hip hmac).1 (hdigits j hj hjk)⟩

theorem ipAt_of_serialAt (hserial : SerialAt out i e) :
    ∃ i e, slice b i (i + 3) = ngc ∧ IpAt b (i + 3) e := by
  obtain ⟨hngc, rfl, k, hk, hke, hne⟩ := serialAt_iff.1 hserial
  obtain ⟨hn, hg, hc⟩ := slice_eq_ngc.1 hngc
  have hngc' := slice_eq_ngc.2 ⟨(h.letter hfit hn (by decide) (by decide)).2.2,
    (h.letter hfit hg (by decide) (by decide)).2.2, (h.letter hfit hc (by decide) (by decide)).2.2⟩
  by_contra hnone
  have hfree := free_of_serialAt h hfit (k := k) hngc
    (fun j hj hjk => (digitsEnd_spec out (i + 3)).2.1 j hj (by omega))
    fun e hat => hnone ⟨i, e, hngc', hat⟩
  obtain ⟨hip, hmac, -⟩ := hfree k hk (Nat.le_refl k)
  exact hne (h.serial k ⟨i, hngc', hk, fun j hj hjk => (hfree j hj hjk).2.2⟩ hip hmac)

theorem serialAt_of_ipAt (hngc : slice b i (i + 3) = ngc) (hat : IpAt b (i + 3) e) :
    ∃ e, SerialAt out i e := by
  obtain ⟨hn, hg, hc⟩ := slice_eq_ngc.1 hngc
  have hlo := (hfit.fits hat).1
  have hkeep : ∀ {j : ℕ} {c : UInt8}, b[j]? = some c → isIpBody c = false → ¬ InMac b j →
      out[j]? = some c := by
    intro j c hget hip hmac
    have hbody : ¬ On isIpBody b j := fun hon => by
      rw [(on_of_getElem? hget).1 hon] at hip
      cases hip
    rw [h.kept' (fun hin => hbody hin.body) hmac fun hdigit => hbody (on_ip hdigit), hget]
  have hn' : ¬ On isMacBody b i := fun hon => absurd ((on_of_getElem? hn).1 hon) (by decide)
  have hg' : ¬ On isMacBody b (i + 1) := fun hon => absurd ((on_of_getElem? hg).1 hon) (by decide)
  -- a hardware address with the last letter would start there, and have a colon in the address
  have hcmac : ¬ InMac b (i + 2) := by
    rintro ⟨m, n, hmac, hm, hn⟩
    have hstart : m = i + 2 := by
      by_contra hne
      exact hg' (hmac.body (by omega) (by omega))
    exact hat.avoids hmac (k := 2) (by omega) (by omega) (by omega)
  have hmac : ¬ InMac b (i + 3) := by
    rintro ⟨m, n, hmac, hm, hn⟩
    have hstop := hmac.stop
    rcases hat.overlap hfit hmac (i := i + 3) (by omega) (by omega) hm hn with heq | heq | heq | heq
    · exact hcmac ⟨m, n, hmac, by omega, by omega⟩
    · exact hcmac ⟨m, n, hmac, by omega, by omega⟩
    · omega
    · omega
  have hngc' := slice_eq_ngc.2 ⟨hkeep hn (by decide) fun hin => hn' hin.body,
    hkeep hg (by decide) fun hin => hg' hin.body, hkeep hc (by decide) hcmac⟩
  have hfirst := h.ip (i + 3) e (i + 3) hat (Nat.le_refl _) hat.bounds.1 hmac
  rw [Nat.sub_self, fitted_zero (hfit.fits hat)] at hfirst
  have hend := digitsEnd_spec out (i + 3)
  refine ⟨digitsEnd out (i + 3), serialAt_iff.2 ⟨hngc', rfl, i + 3, Nat.le_refl _, ?_, ?_⟩⟩
  · by_contra hge
    exact hend.2.2 ((Nat.le_antisymm hend.1 (by omega)) ▸ (on_of_getElem? hfirst).2 (by decide))
  · rw [hfirst]
    decide

/-- **A serial** is found after a pass where an address stood right behind `NGC`. -/
theorem serialAt_overwritten :
    (∃ i e, SerialAt out i e) ↔ ∃ i e, slice b i (i + 3) = ngc ∧ IpAt b (i + 3) e := by
  constructor
  · rintro ⟨i, e, hserial⟩
    exact ipAt_of_serialAt h hfit hserial
  · rintro ⟨i, e, hngc, hat⟩
    exact ⟨i, serialAt_of_ipAt h hfit hngc hat⟩

end Serials

/-! ### Hardware addresses -/

theorem eq_of_toLower {n : ℕ} (hn : n < 128) :
    ((Char.ofNat n).toLower = '0' → n = 0x30) ∧ ((Char.ofNat n).toLower = '2' → n = 0x32) := by
  have h : ∀ n, n < 128 →
      ((Char.ofNat n).toLower = '0' → n = 0x30) ∧ ((Char.ofNat n).toLower = '2' → n = 0x32) := by
    decide +kernel
  exact h n hn

/-- What is allowed starts with `02`. -/
theorem AllowedMac.first {text : List UInt8} (hascii : ∀ c ∈ text, c < 0x80) (h : AllowedMac text) :
    text[0]? = some 0x30 ∧ text[1]? = some 0x32 := by
  obtain ⟨last, hlast, -⟩ := (Option.any_eq_true _ _).1 h
  have hchars := congrArg String.toList (Path.stripPrefix_eq_some.1 hlast)
  rw [fromUtf8Lossy_ascii hascii, String.toList_map, String.toList_ofList, List.map_map,
    String.toList_append] at hchars
  match text, hascii, hchars with
  | [], _, hchars => cases hchars
  | [_], _, hchars => cases (List.cons.inj hchars).2
  | x :: y :: text, hascii, hchars =>
    obtain ⟨hx, hchars⟩ := List.cons.inj hchars
    obtain ⟨hy, -⟩ := List.cons.inj hchars
    have hltx := UInt8.lt_iff_toNat_lt.1 (hascii x (by simp))
    have hlty := UInt8.lt_iff_toNat_lt.1 (hascii y (by simp))
    exact ⟨congrArg some (UInt8.toNat.inj ((eq_of_toLower hltx).1 hx)),
      congrArg some (UInt8.toNat.inj ((eq_of_toLower hlty).2 hy))⟩

theorem allowedMac_freshMac : AllowedMac freshMac := by
  unfold AllowedMac
  decide +kernel

theorem MacAt.grouped (hat : MacAt b m n) : Grouped b m 17 := (macAt_iff.1 hat).2.1

theorem not_on_hex_of_colon (hget : b[i]? = some colon) : ¬ On isHexDigit b i := fun hon =>
  absurd ((on_of_getElem? hget).1 hon) (by decide)

theorem eq_nine_of_fitted (hn : Fits n) (hzero : (fitted n)[8]? = some 0x30) : n = 9 := by
  rcases hn.cases with rfl | rfl | rfl
  · rfl
  · rw [fitted_ten] at hzero
    exact absurd hzero (by decide)
  · rw [fitted_eleven] at hzero
    exact absurd hzero (by decide)

/-- What follows an address makes a hardware address with the last two digits that are written over
it, and neither is one already nor ends in another address. -/
structure Regroups (b : List UInt8) (s e z : ℕ) : Prop where
  /-- It is an address. -/
  ip : IpAt b s e
  /-- Its last byte is a digit. -/
  hex : On isHexDigit b (s + 9)
  /-- Behind it is a colon. -/
  colon : b[s + 10]? = some colon
  /-- And five groups behind that. -/
  groups : groupsEnd b 5 (s + 11) = some z
  /-- They end there. -/
  boundary : isBoundary b z isMacBody = true
  /-- They are no end of a hardware address already. -/
  noMac : ∀ m, ¬ MacAt b m z
  /-- And no other address ends in them. -/
  noIp : ∀ s' e', IpAt b s' e' → s' + 1 ≠ z ∧ s' + 2 ≠ z

/-- A stretch that starts with `0` has no digits of a serial: the letter before them would be its
start. -/
theorem not_inSerial_of_body (hbody : ∀ k, m ≤ k → k < n → On isMacBody b k)
    (hleft : ∀ k, k + 1 = m → ¬ On isMacBody b k) (hfirst : b[m]? = some 0x30) (hm : m ≤ k)
    (hn : k < n) : ¬ InSerial b k := by
  rintro ⟨i, hngc, hk, hdigits⟩
  obtain ⟨-, hg, hc⟩ := slice_eq_ngc.1 hngc
  rcases Nat.lt_trichotomy m (i + 2) with hlt | rfl | hgt
  · exact absurd ((on_of_getElem? hg).1 (hbody (i + 1) (by omega) (by omega))) (by decide)
  · rw [hc] at hfirst
    cases hfirst
  · by_cases heq : m = i + 3
    · exact hleft (i + 2) (by omega) ((on_of_getElem? hc).2 (by decide))
    · exact hleft (m - 1) (by omega) (on_mac (on_hex (hdigits (m - 1) (by omega) (by omega))))

section Regrouped

variable (h : Overwritten b out) (hfit : Fitting b)
include h hfit

/-- No hardware address is found where one was: shifted groups have a colon for a digit, and the
groups that are not shifted are allowed. -/
theorem macAt_disjoint (hat : MacAt out m n) (hmac : MacAt b p q) (hm : m ≤ i) (hn : i < n)
    (hp : p ≤ i) (hq : i < q) : False := by
  have hstop := hat.stop
  have hstop' := hmac.stop
  have hgroups := hat.grouped
  have hfresh := h.grouped hmac
  have hnotHex : ∀ j, out[j]? = some colon → On isHexDigit out j → False := fun j hcolon =>
    not_on_hex_of_colon hcolon
  have hbefore : ∀ j, out[j]? = some colon → j + 1 = p → False := fun j hcolon hj =>
    hmac.left hj (on_mac_of_colon ((h.colon_iff hfit).1 hcolon))
  have hafter : ∀ j, out[j]? = some colon → j = q → False := fun j hcolon hj =>
    hmac.right (hj ▸ on_mac_of_colon ((h.colon_iff hfit).1 hcolon))
  rcases Nat.lt_trichotomy m p with hlt | rfl | hgt
  · obtain ⟨d, rfl⟩ := Nat.exists_eq_add_of_lt hlt
    by_cases hmod : (d + 1) % 3 = 0
    · -- shifted by whole groups, it has a colon where the other one has its boundary
      exact hbefore (m + d) (hgroups.colon (by omega) (by omega)) rfl
    · by_cases hd : d ≤ 13
      · -- otherwise the first colon of the other one is where it has a digit
        have hcolon := hfresh.colon (k := 2) (by omega) (by omega)
        have hhex := hgroups.hex (k := d + 3) (by omega) (by omega)
        rw [show m + (d + 3) = m + d + 1 + 2 by omega] at hhex
        exact hnotHex _ hcolon hhex
      · -- or it ends after the first digit of the other one, which is no boundary
        have hhex := hfresh.hex (k := 1) (by omega) (by omega)
        rw [show m + d + 1 + 1 = n by omega] at hhex
        exact hat.right (on_mac hhex)
  · obtain ⟨-, -, -, hrefused⟩ := macAt_iff.1 hat
    apply hrefused
    rw [hstop]
    have htext : slice out m (m + 17) = freshMac := slice_eq rfl fun k hk => by
      change k < 17 at hk
      rw [h.mac m q (m + k) hmac (by omega) (by omega), Nat.add_sub_cancel_left]
    exact htext ▸ allowedMac_freshMac
  · obtain ⟨d, rfl⟩ := Nat.exists_eq_add_of_lt hgt
    by_cases hmod : (d + 1) % 3 = 0
    · -- the same from the other side
      exact hafter _ (hgroups.colon (k := 16 - d) (by omega) (by omega)) (by omega)
    · by_cases hd : d ≤ 13
      · have hcolon := hfresh.colon (k := 14) (by omega) (by omega)
        have hhex := hgroups.hex (k := 13 - d) (by omega) (by omega)
        rw [show p + d + 1 + (13 - d) = p + 14 by omega] at hhex
        exact hnotHex _ hcolon hhex
      · have hhex := hfresh.hex (k := 15) (by omega) (by omega)
        exact hat.left (i := p + 15) (by omega) (on_mac hhex)

theorem not_inMac_of_macAt (hat : MacAt out m n) (hm : m ≤ i) (hn : i < n) : ¬ InMac b i := by
  rintro ⟨p, q, hmac, hp, hq⟩
  exact macAt_disjoint h hfit hat hmac hm hn hp hq

/-- A boundary of a hardware address that is found was one before, if no address was overwritten
beside it. -/
theorem left_of_macAt (hat : MacAt out m n) (hip : ¬ InIp b m) (hk : k + 1 = m) :
    ¬ On isMacBody b k := by
  have hleft := hat.left hk
  by_cases hin : InIp b k
  · obtain ⟨s, e, hat', hs, he⟩ := hin
    have hend : e = m := by
      by_contra hne
      exact hip ⟨s, e, hat', by omega, by omega⟩
    have hlast := h.lastDigit hfit hat'
    rw [show e - 1 = k by omega] at hlast
    exact absurd (on_mac (on_hex hlast)) hleft
  · exact (h.macBody_iff hin).not.1 hleft

theorem right_of_macAt (hat : MacAt out m n) (hip : ¬ InIp b (n - 1)) : ¬ On isMacBody b n := by
  have hstop := hat.stop
  by_cases hin : InIp b n
  · obtain ⟨s, e, hat', hs, he⟩ := hin
    have hstart : s = n := by
      by_contra hne
      exact hip ⟨s, e, hat', by omega, by omega⟩
    exact absurd (on_mac (on_hex (hstart ▸ h.firstDigit hfit hat'))) hat.right
  · exact (h.macBody_iff hin).not.1 hat.right

theorem grouped_of_free (hip : ∀ i, m ≤ i → i < m + n → ¬ InIp b i)
    (hmac : ∀ i, m ≤ i → i < m + n → ¬ InMac b i) : Grouped out m n ↔ Grouped b m n := by
  refine forall_congr' fun k => forall_congr' fun hk => ?_
  split_ifs
  · exact h.colon_iff hfit
  · exact h.hex_iff (hip (m + k) (by omega) (by omega)) (hmac (m + k) (by omega) (by omega))

theorem exists_inIp_of_macAt (hat : MacAt out m n) : ∃ i, m ≤ i ∧ i < n ∧ InIp b i := by
  by_contra hnone
  have hip : ∀ i, m ≤ i → i < n → ¬ InIp b i := fun i hm hn hin => hnone ⟨i, hm, hn, hin⟩
  have hstop := hat.stop
  have hfree : ∀ i, m ≤ i → i < n → ¬ InMac b i := fun i => not_inMac_of_macAt h hfit hat
  have hgrouped : Grouped b m 17 := (grouped_of_free h hfit (fun i hm hn => hip i hm (by omega))
    fun i hm hn => hfree i hm (by omega)).1 hat.grouped
  have hleft : ∀ k, k + 1 = m → ¬ On isMacBody b k := fun k =>
    left_of_macAt h hfit hat (hip m (Nat.le_refl m) (by omega))
  have hright : ¬ On isMacBody b n := right_of_macAt h hfit hat (hip (n - 1) (by omega) (by omega))
  have hbody : ∀ i, m ≤ i → i < n → On isMacBody b i := fun i hm hn =>
    hgrouped.body hm (by omega)
  by_cases hallowed : AllowedMac (slice b m n)
  · -- nothing was written over it, so it is still allowed
    have hfirst := (hallowed.first fun c hmem => by
      obtain ⟨k, hm, hn, hget⟩ := exists_of_mem_slice hmem
      exact isMacBody_ascii ((on_of_getElem? hget).1 (hbody k hm hn))).1
    rw [getElem?_slice (by omega), Nat.add_zero] at hfirst
    have htext : slice out m n = slice b m n := slice_congr fun k hm hn =>
      h.other k (not_inSerial_of_body hbody hleft hfirst hm hn) (hip k hm hn) (hfree k hm hn)
    exact (macAt_iff.1 hat).2.2.2 (htext ▸ hallowed)
  · -- it was found before, so it was written over
    refine hfree m (Nat.le_refl m) (by omega) ⟨m, n, macAt_iff.2 ⟨hstop, hgrouped,
      ⟨by omega, hbody, hleft, hright⟩, hallowed⟩, Nat.le_refl m, by omega⟩

theorem start_of_macAt (hat : MacAt out m n) (hip : IpAt b s e) (hm : m ≤ i) (hn : i < n)
    (hs : s ≤ i)
    (he : i < e) : m = s + 8 := by
  have hstop := hat.stop
  have hfits := hfit.fits hip
  have hlo := hfits.1
  have hhi := hfits.2
  have hdots : ∀ j, j = s + 3 ∨ j = s + 5 ∨ j = s + 7 → ¬ (m ≤ j ∧ j < n) := by
    rintro j hj ⟨hm, hn⟩
    exact not_on_mac_of_dot (h.fittedDot hfit hip hj (not_inMac_of_macAt h hfit hat hm hn))
      (hat.body hm hn)
  have hthree := hdots (s + 3) (Or.inl rfl)
  have hfive := hdots (s + 5) (Or.inr (Or.inl rfl))
  have hseven := hdots (s + 7) (Or.inr (Or.inr rfl))
  by_cases hfront : i < s + 3
  · -- the address is at its end, which is no boundary
    by_cases hend : n = s + 3
    · have hcolon := hat.colon (k := 14) (by omega) (by omega)
      rw [show m + 14 = s by omega] at hcolon
      exact absurd (on_hex (h.firstDigit hfit hip)) (not_on_hex_of_colon hcolon)
    · exact absurd (h.fittedBody hfit hip (i := n) (by omega) (by omega) (by omega)) hat.right
  · -- only the last number has no dot or boundary in the way
    by_contra hne
    exact hat.left (i := m - 1) (by omega)
      (h.fittedBody hfit hip (i := m - 1) (by omega) (by omega) (by omega))

theorem regroups_of_macAt (hat : MacAt out m n) : ∃ s e z, Regroups b s e z := by
  have hstop := hat.stop
  obtain ⟨i, hm, hn, s, e, hip, hs, he⟩ := exists_inIp_of_macAt h hfit hat
  obtain rfl := start_of_macAt h hfit hat hip hm hn hs he
  have hlo := (hfit.fits hip).1
  -- no other address meets the groups
  have honly : ∀ k, e ≤ k → k < n → ¬ InIp b k := by
    rintro k hk hkn ⟨s', e', hip', hs', he'⟩
    have hstart := start_of_macAt h hfit hat hip' (i := k) (by omega) hkn hs' he'
    have heq := hip.eq_of_mem hip' (i := s) (Nat.le_refl s) hip.bounds.1 (by omega) (by omega)
    omega
  have hfree : ∀ k, s + 8 ≤ k → k < n → ¬ InMac b k := fun k => not_inMac_of_macAt h hfit hat
  have hcolon := (h.colon_iff hfit).1 (hat.colon (k := 2) (by omega) (by omega))
  have hten : e ≤ s + 10 := by
    by_contra hlt
    exact not_on_ip_of_colon hcolon (hip.body (by omega) (by omega))
  have hgroups : Grouped b (s + 11) 14 := by
    refine (grouped_of_free h hfit (fun k hk hkn => honly k (by omega) (by omega))
      fun k hk hkn => hfree k (by omega) (by omega)).1 fun k hk => ?_
    have hgroup := hat.grouped (k + 3) (by omega)
    rwa [Nat.add_mod_right, show s + 8 + (k + 3) = s + 11 + k by omega] at hgroup
  refine ⟨s, e, n, hip, ?_, hcolon, groupsEnd_eq_some.2 ⟨by omega, hgroups⟩,
    isBoundary_right.2 (right_of_macAt h hfit hat (honly (n - 1) (by omega) (by omega))),
    fun m hmac => ?_, fun s' e' hip' => ?_⟩
  · by_cases hnine : e = s + 9
    · exact (h.hex_iff (honly (s + 9) (by omega) (by omega))
        (hfree (s + 9) (by omega) (by omega))).1
        (hat.grouped.hex (k := 1) (by omega) (by omega))
    · have hlast := on_hex hip.last
      rwa [show e - 1 = s + 9 by omega] at hlast
  · have hstop' := hmac.stop
    exact hfree (n - 1) (by omega) (by omega) ⟨m, n, hmac, by omega, by omega⟩
  · have hlt := hip'.bounds.1
    exact ⟨fun heq => honly s' (by omega) (by omega) ⟨s', e', hip', Nat.le_refl s', hlt⟩,
      fun heq => honly s' (by omega) (by omega) ⟨s', e', hip', Nat.le_refl s', hlt⟩⟩

end Regrouped

/-! ### Groups after an address -/

section Groups

variable (hre : Regroups b s e z)
include hre

theorem Regroups.grouped : z = s + 25 ∧ Grouped b (s + 11) 14 := by
  obtain ⟨hz, hgroups⟩ := groupsEnd_eq_some.1 hre.groups
  exact ⟨by omega, hgroups⟩

theorem Regroups.body (hk : s + 9 ≤ k) (hkz : k < z) : On isMacBody b k := by
  obtain ⟨hz, hgroups⟩ := hre.grouped
  obtain rfl | rfl | hge : k = s + 9 ∨ k = s + 10 ∨ s + 11 ≤ k := by omega
  · exact on_mac hre.hex
  · exact on_mac_of_colon hre.colon
  · exact hgroups.body hge (by omega)

theorem Regroups.not_inMac (hk : s + 8 ≤ k) (hkz : k < z) : ¬ InMac b k := by
  rintro ⟨m, n, hmac, hm, hn⟩
  have hz := hre.grouped.1
  have hnine : n ≠ s + 9 := fun heq => hmac.right (heq ▸ on_mac hre.hex)
  have hcontains := hmac.contains (fun j => hre.body) (k := max k (s + 9)) (by omega) (by omega)
    (by omega) (by omega)
  have hend : n = z := by
    by_contra hne
    exact isBoundary_right.1 hre.boundary (hmac.body (by omega) (by omega))
  exact hre.noMac m (hend ▸ hmac)

theorem Regroups.not_inIp (hk : s + 10 ≤ k) (hkz : k < z) : ¬ InIp b k := by
  rintro ⟨s', e', hip', hs', he'⟩
  obtain ⟨hz, hgroups⟩ := hre.grouped
  obtain ⟨p, q, hsp, hpthree, hpq, hqe, hdigits, hdot, -⟩ := parseIpv4End_eq_some hip'.parse
  have hafter : s + 10 < s' := by
    by_contra hle
    exact not_on_ip_of_colon hre.colon (hip'.body (by omega) (by omega))
  have hpz : z ≤ p := by
    by_contra hlt
    exact not_on_mac_of_dot hdot (hre.body (by omega) (by omega))
  have hno := hre.noIp s' e' hip'
  have hcolon := hgroups.colon (k := 11) (by omega) (by omega)
  rw [show s + 11 + 11 = s' by omega] at hcolon
  exact not_on_hex_of_colon hcolon (on_hex hip'.first)

/-- Nothing is written over the boundary after them. -/
theorem Regroups.right (h : Overwritten b out) : ¬ On isMacBody out z := by
  have hboundary := isBoundary_right.1 hre.boundary
  have hz := hre.grouped.1
  refine (h.macBody_iff ?_).not.2 hboundary
  rintro ⟨s', e', hip', hs', he'⟩
  by_cases hstart : s' = z
  · exact hboundary (hstart ▸ on_mac (on_hex hip'.first))
  · exact hre.not_inIp (k := z - 1) (by omega) (by omega) ⟨s', e', hip', by omega, by omega⟩

variable (hfit : Fitting b)
include hfit

theorem Regroups.stop : e ≤ s + 10 := by
  by_contra hlt
  have hlo := (hfit.fits hre.ip).1
  exact not_on_ip_of_colon hre.colon (hre.ip.body (by omega) (by omega))

theorem Regroups.not_inIp_nine (hend : e = s + 9) : ¬ InIp b (s + 9) := by
  rintro ⟨s', e', hip', hs', he'⟩
  have hlo := (hfit.fits hip').1
  by_cases hstart : s' = s + 9
  · exact not_on_ip_of_colon hre.colon (hip'.body (by omega) (by omega))
  · have heq := hre.ip.eq_of_mem hip' (i := s + 8) (by omega) (by omega) (by omega) (by omega)
    omega

/-- A dot is written before the two digits. -/
theorem Regroups.left (h : Overwritten b out) : ¬ On isMacBody out (s + 7) := by
  have hlo := (hfit.fits hre.ip).1
  have hz := hre.grouped.1
  refine not_on_mac_of_dot (h.fittedDot hfit hre.ip (Or.inr (Or.inr rfl)) ?_)
  rintro ⟨m, n, hmac, hm, hn⟩
  have hend : n = s + 8 := by
    by_contra hne
    exact hre.not_inMac (k := s + 8) (by omega) (by omega) ⟨m, n, hmac, by omega, by omega⟩
  have hstop := hmac.stop
  have hoverlap := hre.ip.overlap hfit hmac (i := s + 7) (by omega) (by omega) hm hn
  omega

theorem Regroups.grouped_out (h : Overwritten b out) : Grouped out (s + 8) 17 := by
  have hip := hre.ip
  have hlo := (hfit.fits hip).1
  obtain ⟨hz, hgroups⟩ := hre.grouped
  have hstop := hre.stop hfit
  have hdigit : ∀ i, i < e → ¬ (i = s + 3 ∨ i = s + 5 ∨ i = s + 7) → s ≤ i → On isHexDigit out i :=
    fun i he hdot hs => on_hex (on_digit_of_bodies (h.keepsIpBody hfit (hip.body hs he))
      (h.fittedBody hfit hip hs he hdot))
  refine grouped_add_three.2 ⟨hdigit (s + 8) (by omega) (by omega) (by omega), ?_,
    (h.colon_iff hfit).2 hre.colon, ?_⟩
  · by_cases hend : e = s + 9
    · exact (h.hex_iff (hre.not_inIp_nine hfit hend)
        (hre.not_inMac (by omega) (by omega))).2 hre.hex
    · exact hdigit (s + 9) (by omega) (by omega) (by omega)
  · exact (grouped_of_free h hfit (fun k hk hkn => hre.not_inIp (by omega) (by omega))
      fun k hk hkn => hre.not_inMac (by omega) (by omega)).2 hgroups

theorem Regroups.not_allowedMac (h : Overwritten b out) : ¬ AllowedMac (slice out (s + 8) z) := by
  intro hallowed
  have hip := hre.ip
  have hlo := (hfit.fits hip).1
  have hz := hre.grouped.1
  obtain ⟨hfirst, hsecond⟩ := hallowed.first fun c hmem => by
    obtain ⟨k, hk, hkz, hget⟩ := exists_of_mem_slice hmem
    exact isMacBody_ascii ((on_of_getElem? hget).1
      ((hre.grouped_out hfit h).body hk (by omega)))
  rw [getElem?_slice (by omega)] at hfirst hsecond
  rw [Nat.add_zero, h.ip s e (s + 8) hip (by omega) (by omega)
    (hre.not_inMac (Nat.le_refl _) (by omega)), Nat.add_sub_cancel_left] at hfirst
  have hend := eq_nine_of_fitted (hfit.fits hip) hfirst
  have hnot : ¬ On isIpBody b (s + 9) := by
    rw [show s + 9 = e by omega]
    exact hip.right
  have hdigit := (h.digit_iff (fun hin => hnot hin.body) (hre.not_inMac (k := s + 9) (by omega)
    (by omega))).1 ((on_of_getElem? hsecond).2 (by decide))
  exact hnot (on_ip hdigit)

theorem Regroups.macAt (h : Overwritten b out) : MacAt out (s + 8) z := by
  have hz := hre.grouped.1
  have hgrouped := hre.grouped_out hfit h
  refine macAt_iff.2 ⟨by omega, hgrouped, ⟨by omega, fun k hk hkz => hgrouped.body hk (by omega),
    fun k hk => ?_, hre.right h⟩, hre.not_allowedMac hfit h⟩
  obtain rfl : k = s + 7 := by omega
  exact hre.left hfit h

end Groups

/-- **A hardware address** is found after a pass where an address and what follows it regroup. -/
theorem macAt_overwritten (h : Overwritten b out) (hfit : Fitting b) :
    (∃ m n, MacAt out m n) ↔ ∃ s e z, Regroups b s e z := by
  constructor
  · rintro ⟨m, n, hat⟩
    exact regroups_of_macAt h hfit hat
  · rintro ⟨s, e, z, hre⟩
    exact ⟨s + 8, z, hre.macAt hfit h⟩

end Redact

end LibWing
