import LibWing.Tools.Regrouped

/-!
# Addresses that are joined

Dots with octets between them, which are no address by themselves, may become one when a pass writes
over what is before or after them.

* `Before`, `After` : what stands there after a pass;
* `Joins` : it makes an address with what is between;
* `joins_of_ipAt`, `Joins.ipAt` : an address that is found where none was is joined, and what is
  joined is found;
* `ipAt_overwritten` : an address is found after a pass where it is what is left of one, or joined.
-/

namespace LibWing

namespace Redact

open Runs

/-- What stands before a dot after a pass, from where it is no part of an address. -/
inductive Before (b : List UInt8) (p : ℕ) : List UInt8 → Prop where
  | mac {m : ℕ} : MacAt b m p → Before b p [0x30, 0x30]
  | serial {i : ℕ} : slice b i (i + 3) = ngc → i + 3 < p →
      (∀ k, i + 3 ≤ k → k < p → On isDigit b k) →
      Before b p (List.replicate (p - (i + 3)) 0x30)
  | digits {i : ℕ} : i < p → (∀ k, i ≤ k → k < p → On isDigit b k) →
      isBoundary b ((i : ℤ) - 1) isIpBody = true → (∀ k, k + 3 = i → slice b k (k + 3) ≠ ngc) →
      (∀ m, ¬ MacAt b m p) → Before b p (slice b i p)

/-- What stands after a dot after a pass, to where it is no part of an address. -/
inductive After (b : List UInt8) (q : ℕ) : List UInt8 → Prop where
  | mac {n : ℕ} : MacAt b q n → After b q [0x30, 0x32]
  | digits {j : ℕ} : q < j → (∀ k, q ≤ k → k < j → On isDigit b k) →
      isBoundary b j isIpBody = true → (∀ n, ¬ MacAt b q n) → After b q (slice b q j)

/-- Dots with octets between them, in no address, make an address with what stands before and after
them after a pass. -/
structure Joins (b : List UInt8) (p q : ℕ) : Prop where
  /-- It is between two dots. -/
  lt : p + 1 < q
  /-- One where it begins. -/
  first : b[p]? = some dot
  /-- One where it ends. -/
  last : b[q - 1]? = some dot
  /-- The first is in no address. -/
  free : ¬ InIp b p
  /-- What they make with what is around them after a pass is refused. -/
  refused : ∃ x y, Before b p x ∧ After b q y ∧ Refused (x ++ slice b p q ++ y)

variable {b out x y : List UInt8} {s e m i j k n p q u v : ℕ}

theorem not_inSerial_of_digits (hdigits : ∀ k, i ≤ k → k < j → On isDigit b k)
    (hleft : ∀ k, k + 1 = i → ¬ On isDigit b k) (hngc : ∀ k, k + 3 = i → slice b k (k + 3) ≠ ngc)
    (hk : i ≤ k) (hkj : k < j) : ¬ InSerial b k := by
  rintro ⟨l, hl, hlk, hserial⟩
  obtain ⟨-, -, hc⟩ := slice_eq_ngc.1 hl
  rcases Nat.lt_trichotomy (l + 3) i with hlt | heq | hgt
  · exact hleft (i - 1) (by omega) (hserial (i - 1) (by omega) (by omega))
  · exact hngc l heq hl
  · exact absurd ((on_of_getElem? hc).1 (hdigits (l + 2) (by omega) (by omega))) (by decide)

theorem not_ngc_of_dot (hdot : b[i]? = some dot) (hk : k + 3 = i + 1) :
    slice b k (k + 3) ≠ ngc := by
  intro hngc
  have hc := (slice_eq_ngc.1 hngc).2.2
  rw [show k + 2 = i by omega, hdot] at hc
  exact absurd hc (by decide)

theorem not_digit_of_dot (hdot : b[i]? = some dot) : ¬ On isDigit b i := fun hdigit =>
  absurd ((on_of_getElem? hdot).1 hdigit) (by decide)

theorem not_inMac_of_dot (h : Overwritten b out) (hdot : out[i]? = some dot) : ¬ InMac b i := by
  intro hin
  rcases h.inMac hin with ⟨-, hcolon⟩ | ⟨-, hdigit⟩
  · rw [hdot] at hcolon
    exact absurd hcolon (by decide)
  · exact not_digit_of_dot hdot hdigit

theorem not_inSerial_between (hp : b[p]? = some dot)
    (hbody : ∀ k, p ≤ k → k < q → On isIpBody b k) (hk : p ≤ k) (hkq : k < q) : ¬ InSerial b k := by
  rintro ⟨i, hngc, hi, hdigits⟩
  obtain ⟨-, -, hc⟩ := slice_eq_ngc.1 hngc
  rcases Nat.lt_trichotomy (i + 2) p with hlt | rfl | hgt
  · exact not_digit_of_dot hp (hdigits p (by omega) hk)
  · rw [hc] at hp
    exact absurd hp (by decide)
  · exact absurd ((on_of_getElem? hc).1 (hbody (i + 2) (by omega) (by omega))) (by decide)

/-! ### From what is found -/

section Found

variable (h : Overwritten b out) (hrun : Run (On isIpBody out) u v)
include h hrun

theorem before_of_inMac (hup : u < p) (hpv : p < v) (hdot : out[p]? = some dot)
    (hin : InMac b (p - 1)) : Before b p (slice out u p) := by
  obtain ⟨m, n, hmac, hm, hn⟩ := hin
  have hend : n = p := by
    by_contra hne
    exact not_inMac_of_dot h hdot ⟨m, n, hmac, by omega, by omega⟩
  subst hend
  have hstop := hmac.stop
  have hstart : u = m + 15 := by
    by_contra hne
    rcases Nat.lt_or_gt_of_ne hne with hlt | hgt
    · exact not_on_ip_of_colon (h.macColon hmac (k := 14) (by omega) (by omega))
        (hrun.all (m + 14) (by omega) (by omega))
    · exact hrun.left (m + 15) (by omega) (on_ip (h.macDigit hmac (by omega) (by omega)))
  rw [hstart, h.macEnd hmac]
  exact Before.mac hmac

theorem after_of_inMac (huq : u < q) (hqv : q < v) (hdot : out[q - 1]? = some dot)
    (hin : InMac b q) : After b q (slice out q v) := by
  obtain ⟨m, n, hmac, hm, hn⟩ := hin
  have hstart : m = q := by
    by_contra hne
    exact not_inMac_of_dot h hdot ⟨m, n, hmac, by omega, by omega⟩
  subst hstart
  have hend : v = m + 2 := by
    by_contra hne
    rcases Nat.lt_or_gt_of_ne hne with hlt | hgt
    · have hdigit := h.macDigit hmac (k := 1) (by omega) (by omega)
      exact hrun.right (by rw [show v = m + 1 by omega]; exact on_ip hdigit)
    · exact not_on_ip_of_colon (h.macColon hmac (k := 2) (by omega) (by omega))
        (hrun.all (m + 2) (by omega) (by omega))
  rw [hend, h.macStart hmac]
  exact After.mac hmac

variable (hip : ∀ k, u ≤ k → k < v → ¬ InIp b k)
include hip

omit hrun in
theorem kept_dot (hdot : out[i]? = some dot) (hu : u ≤ i) (hv : i < v) : b[i]? = some dot := by
  rw [← h.kept (hip i hu hv) (not_inMac_of_dot h hdot) (not_digit_of_dot hdot), hdot]

theorem middle_of_run (hu : u ≤ p) (hv : q ≤ v) (hp : out[p]? = some dot)
    (hq : out[q - 1]? = some dot) : slice out p q = slice b p q := by
  have hmac : ∀ k, p ≤ k → k < q → ¬ InMac b k := by
    rintro k hk hkq ⟨m, n, hmac, hm, hn⟩
    have hstart : p < m := by
      by_contra hle
      exact not_inMac_of_dot h hp ⟨m, n, hmac, by omega, by omega⟩
    have hstop : n < q := by
      by_contra hle
      exact not_inMac_of_dot h hq ⟨m, n, hmac, by omega, by omega⟩
    have hlength := hmac.stop
    exact not_on_ip_of_colon (h.macColon hmac (k := 2) (by omega) (by omega))
      (hrun.all (m + 2) (by omega) (by omega))
  have hbody : ∀ k, p ≤ k → k < q → On isIpBody b k := fun k hk hkq =>
    (h.ipBody_iff (hip k (by omega) (by omega)) (hmac k hk hkq)).1
    (hrun.all k (by omega) (by omega))
  exact slice_congr fun k hk hkq => h.other k
    (not_inSerial_between (kept_dot h hip hp hu (by omega)) hbody hk hkq)
    (hip k (by omega) (by omega))
    (hmac k hk hkq)

variable (hfit : Fitting b)
include hfit

theorem before_of_run (hup : u < p) (hpv : p < v) (hdigits : ∀ k, u ≤ k → k < p → On isDigit out k)
    (hdot : out[p]? = some dot) : Before b p (slice out u p) := by
  by_cases hin : InMac b (p - 1)
  · exact before_of_inMac h hrun hup hpv hdot hin
  -- a hardware address that has one of the digits has them all to the dot
  have hmac : ∀ k, u ≤ k → k < p → ¬ InMac b k := by
    rintro k hk hkp ⟨m, n, hmac, hm, hn⟩
    have hlt : n < p := by
      by_contra hle
      exact hin ⟨m, n, hmac, by omega, by omega⟩
    have hdigit := (h.digit_iff (hip n (by omega) (by omega)) fun hin => hmac.right hin.body).1
      (hdigits n (by omega) hlt)
    exact hmac.right (on_mac (on_hex hdigit))
  have hdigits' : ∀ k, u ≤ k → k < p → On isDigit b k := fun k hk hkp =>
    (h.digit_iff (hip k hk (by omega)) (hmac k hk hkp)).1 (hdigits k hk hkp)
  by_cases hngc : ∃ i, i + 3 = u ∧ slice b i (i + 3) = ngc
  · obtain ⟨i, rfl, hngc⟩ := hngc
    have hzeros : slice out (i + 3) p = List.replicate (p - (i + 3)) 0x30 := by
      refine slice_eq (by rw [List.length_replicate]; omega) fun k hk => ?_
      rw [List.length_replicate] at hk
      rw [List.getElem?_replicate, if_pos hk]
      exact h.serial _ ⟨i, hngc, by omega, fun j hj hjk => hdigits' j hj (by omega)⟩
        (hip _ (by omega) (by omega)) (hmac _ (by omega) (by omega))
    rw [hzeros]
    exact Before.serial hngc hup hdigits'
  · have hleft : ∀ k, k + 1 = u → ¬ On isIpBody b k := fun k hk hbody =>
      hrun.left k hk (h.keepsIpBody hfit hbody)
    have hnone : ∀ k, k + 3 = u → slice b k (k + 3) ≠ ngc := fun k hk heq => hngc ⟨k, hk, heq⟩
    have htext : slice out u p = slice b u p := slice_congr fun k hk hkp =>
      h.other k (not_inSerial_of_digits hdigits' (fun k hk hd => hleft k hk (on_ip hd))
        hnone hk hkp)
        (hip k hk (by omega)) (hmac k hk hkp)
    rw [htext]
    refine Before.digits hup hdigits' (isBoundary_left.2 hleft) hnone fun m hmac' => ?_
    have hstop := hmac'.stop
    exact hin ⟨m, p, hmac', by omega, by omega⟩

theorem after_of_run (huq : u < q) (hqv : q < v) (hdigits : ∀ k, q ≤ k → k < v → On isDigit out k)
    (hdot : out[q - 1]? = some dot) : After b q (slice out q v) := by
  by_cases hin : InMac b q
  · exact after_of_inMac h hrun huq hqv hdot hin
  -- a hardware address that has one of the digits has them all from the dot on
  have hmac : ∀ k, q ≤ k → k < v → ¬ InMac b k := by
    rintro k hk hkv ⟨m, n, hmac, hm, hn⟩
    have hlt : q < m := by
      by_contra hle
      exact hin ⟨m, n, hmac, by omega, by omega⟩
    have hleft := hmac.left (i := m - 1) (by omega)
    have hdigit := (h.digit_iff (hip (m - 1) (by omega) (by omega)) fun hin => hleft hin.body).1
      (hdigits (m - 1) (by omega) (by omega))
    exact hleft (on_mac (on_hex hdigit))
  have hdigits' : ∀ k, q ≤ k → k < v → On isDigit b k := fun k hk hkv =>
    (h.digit_iff (hip k (by omega) hkv) (hmac k hk hkv)).1 (hdigits k hk hkv)
  have hqdot := kept_dot h hip hdot (by omega) (by omega)
  have htext : slice out q v = slice b q v := slice_congr fun k hk hkv =>
    h.other k (not_inSerial_of_digits hdigits'
      (fun k hk => (show k = q - 1 by omega) ▸ not_digit_of_dot hqdot)
      (fun k hk => not_ngc_of_dot hqdot (by omega)) hk hkv) (hip k (by omega) hkv) (hmac k hk hkv)
  rw [htext]
  refine After.digits hqv hdigits'
    (isBoundary_right.2 fun hbody => hrun.right (h.keepsIpBody hfit hbody)) fun n hmac' => ?_
  have hstop := hmac'.stop
  exact hin ⟨q, n, hmac', Nat.le_refl q, by omega⟩

end Found

/-- An address that is found where none was is joined. -/
theorem joins_of_ipAt (h : Overwritten b out) (hfit : Fitting b) (hat : IpAt out u v)
    (hip : ∀ k, u ≤ k → k < v → ¬ InIp b k) : ∃ p q, Joins b p q := by
  obtain ⟨hrun, hrefused⟩ := ipAt_iff.1 hat
  -- from its first dot to its last one, nothing was written
  obtain ⟨p, q, hup, -, hpq, hqv, hbefore, hp, hq, hafter⟩ := parseIpv4End_eq_some hat.parse
  refine ⟨p, q, by omega, kept_dot h hip hp (by omega) (by omega),
    kept_dot h hip hq (by omega) (by omega), hip p (by omega) (by omega), slice out u p,
    slice out q v, before_of_run h hrun hip hfit hup (by omega) hbefore hp,
    after_of_run h hrun hip hfit (by omega) hqv hafter hq, ?_⟩
  rw [← middle_of_run h hrun hip (by omega) (by omega) hp hq, slice_append (by omega) (by omega),
    slice_append (by omega) (by omega)]
  exact hrefused

/-! ### From what is joined -/

theorem not_inIp_before (hdigits : ∀ k, i ≤ k → k < p → On isDigit b k) (hdot : b[p]? = some dot)
    (hfree : ¬ InIp b p) (hk : i ≤ k) (hkp : k < p) : ¬ InIp b k := by
  rintro ⟨s, e, hat, hs, he⟩
  have hcontains := hat.contains (i := k) (j := p + 1) (fun j hj hjp => by
    by_cases hjp' : j = p
    · exact hjp' ▸ on_ip_of_dot hdot
    · exact on_ip (hdigits j (by omega) (by omega))) (Nat.le_refl k) (by omega) hs he
  exact hfree ⟨s, e, hat, by omega, by omega⟩

theorem not_inIp_after (hdigits : ∀ k, q ≤ k → k < j → On isDigit b k) (hq : 0 < q)
    (hdot : b[q - 1]? = some dot) (hfree : ¬ InIp b (q - 1)) (hk : q ≤ k) (hkj : k < j) :
    ¬ InIp b k := by
  rintro ⟨s, e, hat, hs, he⟩
  have hcontains := hat.contains (i := q - 1) (j := j) (fun i hi hij => by
    by_cases hiq : i = q - 1
    · exact hiq ▸ on_ip_of_dot hdot
    · exact on_ip (hdigits i (by omega) hij)) (by omega) hkj hs he
  exact hfree ⟨s, e, hat, by omega, by omega⟩

/-- No hardware address has the last letter of `NGC` or the digits behind it, if a dot follows: it
would start at the letter, and have a colon after the first digit. -/
theorem not_inMac_of_ngc (hngc : slice b i (i + 3) = ngc) (hip : i + 3 < p)
    (hdigits : ∀ k, i + 3 ≤ k → k < p → On isDigit b k) (hdot : b[p]? = some dot) (hk : i + 2 ≤ k)
    (hkp : k < p) : ¬ InMac b k := by
  rintro ⟨m, n, hmac, hm, hn⟩
  obtain ⟨-, hg, hc⟩ := slice_eq_ngc.1 hngc
  have hcontains := hmac.contains (i := i + 2) (j := p) (fun j hj hjp => by
    by_cases hji : j = i + 2
    · exact hji ▸ (on_of_getElem? hc).2 (by decide)
    · exact on_mac (on_hex (hdigits j (by omega) hjp))) hk hkp hm hn
  have hstart : m = i + 2 := by
    by_contra hne
    exact absurd ((on_of_getElem? hg).1 (hmac.body (by omega) (by omega))) (by decide)
  have hcolon := hmac.colon (k := 2) (by omega) (by omega)
  by_cases hend : p = m + 2
  · rw [hend, hcolon] at hdot
    exact absurd hdot (by decide)
  · exact not_on_hex_of_colon hcolon (on_hex (hdigits (m + 2) (by omega) (by omega)))

section Joined

variable (h : Overwritten b out)
include h

theorem left_kept (hdigit : On isDigit b i) (hmac : ¬ InMac b i) (hk : k + 1 = i)
    (hbody : ¬ On isIpBody b k) : ¬ On isIpBody out k := by
  refine (h.ipBody_iff (fun hin => hbody hin.body) ?_).not.2 hbody
  rintro ⟨m, n, hat, hm, hn⟩
  by_cases hend : n = i
  · exact hat.right (hend ▸ on_mac (on_hex hdigit))
  · exact hmac ⟨m, n, hat, by omega, by omega⟩

theorem right_kept (hdigit : On isDigit b i) (hmac : ¬ InMac b i) (hk : i + 1 = k)
    (hbody : ¬ On isIpBody b k) : ¬ On isIpBody out k := by
  refine (h.ipBody_iff (fun hin => hbody hin.body) ?_).not.2 hbody
  rintro ⟨m, n, hat, hm, hn⟩
  by_cases hstart : m = k
  · exact hat.left (hk.trans hstart.symm) (on_mac (on_hex hdigit))
  · exact hmac ⟨m, n, hat, by omega, by omega⟩

theorem Before.spec (hbefore : Before b p x) (hdot : b[p]? = some dot) (hfree : ¬ InIp b p) :
    ∃ u, u < p ∧ slice out u p = x ∧ (∀ k, u ≤ k → k < p → On isDigit out k) ∧
      ∀ k, k + 1 = u → ¬ On isIpBody out k := by
  cases hbefore with
  | @mac m hmac =>
    have hstop := hmac.stop
    refine ⟨m + 15, by omega, h.macEnd hmac, fun k hk hkp => ?_, fun k hk => ?_⟩
    · obtain rfl | rfl : k = m + 15 ∨ k = m + 16 := by omega
      · exact h.macDigit hmac (by omega) (by omega)
      · exact h.macDigit hmac (by omega) (by omega)
    · obtain rfl : k = m + 14 := by omega
      exact not_on_ip_of_colon (h.macColon hmac (by omega) (by omega))
  | @serial i hngc hip' hdigits =>
    have hc := (slice_eq_ngc.1 hngc).2.2
    have hip := fun k => @not_inIp_before b (i + 3) k p hdigits hdot hfree
    have hmac := fun k => @not_inMac_of_ngc b i k p hngc hip' hdigits hdot
    refine ⟨i + 3, hip', slice_eq (by rw [List.length_replicate]; omega) fun k hk => ?_,
      fun k hk hkp => (h.digit_iff (hip k hk hkp) (hmac k (by omega) hkp)).2
        (hdigits k hk hkp), fun k hk => ?_⟩
    · rw [List.length_replicate] at hk
      rw [List.getElem?_replicate, if_pos hk]
      exact h.serial _ ⟨i, hngc, by omega, fun j hj hjk => hdigits j hj (by omega)⟩
        (hip _ (by omega) (by omega)) (hmac _ (by omega) (by omega))
    · refine left_kept h (hdigits (i + 3) (Nat.le_refl _) hip') (hmac (i + 3) (by omega) hip') hk ?_
      obtain rfl : k = i + 2 := by omega
      exact fun hbody => absurd ((on_of_getElem? hc).1 hbody) (by decide)
  | @digits i hip' hdigits hboundary hngc hnone =>
    have hleft := isBoundary_left.1 hboundary
    have hip := fun k => @not_inIp_before b i k p hdigits hdot hfree
    have hmac : ∀ k, i ≤ k → k < p → ¬ InMac b k := by
      rintro k hk hkp ⟨m, n, hmac, hm, hn⟩
      have hcontains := hmac.contains (i := k) (j := p)
        (fun j hj hjp => on_mac (on_hex (hdigits j (by omega) hjp))) (Nat.le_refl k) hkp hm hn
      have hend : n = p := by
        by_contra hne
        exact not_on_mac_of_dot hdot (hmac.body (by omega) (by omega))
      exact hnone m (hend ▸ hmac)
    refine ⟨i, hip', slice_congr fun k hk hkp => h.other k
      (not_inSerial_of_digits hdigits (fun k hk hd => hleft k hk (on_ip hd)) hngc hk hkp)
      (hip k hk hkp) (hmac k hk hkp), fun k hk hkp =>
        (h.digit_iff (hip k hk hkp) (hmac k hk hkp)).2 (hdigits k hk hkp), fun k hk => ?_⟩
    exact left_kept h (hdigits i (Nat.le_refl i) hip') (hmac i (Nat.le_refl i) hip') hk (hleft k hk)

theorem After.spec (hafter : After b q y) (hq : 0 < q) (hdot : b[q - 1]? = some dot)
    (hfree : ¬ InIp b (q - 1)) : ∃ v, q < v ∧ slice out q v = y ∧
      (∀ k, q ≤ k → k < v → On isDigit out k) ∧ ¬ On isIpBody out v := by
  cases hafter with
  | @mac n hmac =>
    refine ⟨q + 2, by omega, h.macStart hmac, fun k hk hkq => ?_,
      not_on_ip_of_colon (h.macColon hmac (by omega) (by omega))⟩
    obtain rfl | rfl : k = q ∨ k = q + 1 := by omega
    · exact h.macDigit hmac (k := 0) (by omega) (by omega)
    · exact h.macDigit hmac (by omega) (by omega)
  | @digits j hqj hdigits hboundary hnone =>
    have hip := fun k => @not_inIp_after b j k q hdigits hq hdot hfree
    have hmac : ∀ k, q ≤ k → k < j → ¬ InMac b k := by
      rintro k hk hkj ⟨m, n, hmac, hm, hn⟩
      have hcontains := hmac.contains (i := q) (j := j)
        (fun i hi hij => on_mac (on_hex (hdigits i hi hij))) hk hkj hm hn
      have hstart : m = q := by
        by_contra hne
        exact not_on_mac_of_dot hdot (hmac.body (by omega) (by omega))
      exact hnone n (hstart ▸ hmac)
    refine ⟨j, hqj, slice_congr fun k hk hkj => h.other k (not_inSerial_of_digits hdigits
      (fun k hk => (show k = q - 1 by omega) ▸ not_digit_of_dot hdot)
      (fun k hk => not_ngc_of_dot hdot (by omega)) hk hkj) (hip k hk hkj) (hmac k hk hkj),
      fun k hk hkj => (h.digit_iff (hip k hk hkj) (hmac k hk hkj)).2 (hdigits k hk hkj), ?_⟩
    exact right_kept h (hdigits (j - 1) (by omega) (by omega)) (hmac (j - 1) (by omega) (by omega))
      (by omega) (isBoundary_right.1 hboundary)

theorem middle_kept (hbody : ∀ k, p ≤ k → k < q → On isIpBody b k) (hp : b[p]? = some dot)
    (hq : b[q - 1]? = some dot) (hfree : ¬ InIp b p) : slice out p q = slice b p q := by
  refine slice_congr fun k hk hkq => h.other k (not_inSerial_between hp hbody hk hkq) ?_ ?_
  · rintro ⟨s, e, hat, hs, he⟩
    have hcontains := hat.contains hbody hk hkq hs he
    exact hfree ⟨s, e, hat, by omega, by omega⟩
  · -- a hardware address between the dots would have a colon there
    rintro ⟨m, n, hmac, hm, hn⟩
    have hstart : p < m := by
      by_contra hle
      exact not_on_mac_of_dot hp (hmac.body (by omega) (by omega))
    have hstop : n < q := by
      by_contra hle
      exact not_on_mac_of_dot hq (hmac.body (by omega) (by omega))
    have hlength := hmac.stop
    exact not_on_ip_of_colon (hmac.colon (k := 2) (by omega) (by omega))
      (hbody (m + 2) (by omega) (by omega))

/-- What is joined is an address after a pass. -/
theorem Joins.ipAt (hfit : Fitting b) (hjoins : Joins b p q) : ∃ u v, IpAt out u v := by
  obtain ⟨hlt, hp, hq, hfree, x, y, hbefore, hafter, hrefused⟩ := hjoins
  have hlength : q ≤ b.length := by
    have hlast := (List.getElem?_eq_some_iff.1 hq).1
    omega
  have hall : ∀ k, k < (x ++ slice b p q ++ y).length → On isIpBody (x ++ slice b p q ++ y) k :=
    fun k => octetsEnd_body hrefused.1 k (Nat.zero_le k)
  have hbody : ∀ k, p ≤ k → k < q → On isIpBody b k := by
    intro k hk hkq
    have hslice := length_slice (s := p) hlength
    have hon := hall (x.length + (k - p)) (by simp only [List.length_append]; omega)
    rw [on_congr (List.getElem?_append_left (by rw [List.length_append]; omega)),
      on_congr (List.getElem?_append_right (Nat.le_add_right _ _)), Nat.add_sub_cancel_left,
      on_slice (by omega), Nat.add_sub_cancel' hk] at hon
    exact hon
  have hfree' : ¬ InIp b (q - 1) := by
    rintro ⟨s, e, hat, hs, he⟩
    have hcontains := hat.contains hbody (k := q - 1) (by omega) (by omega) hs he
    exact hfree ⟨s, e, hat, by omega, by omega⟩
  obtain ⟨u, hup, hx, hxdigits, hleft⟩ := hbefore.spec h hp hfree
  obtain ⟨v, hqv, hy, hydigits, hright⟩ := hafter.spec h (by omega) hq hfree'
  have htext : slice out u v = x ++ slice b p q ++ y := by
    rw [← hx, ← hy, ← middle_kept h hbody hp hq hfree, slice_append (by omega) (by omega),
      slice_append (by omega) (by omega)]
  refine ⟨u, v, ipAt_iff.2 ⟨⟨by omega, fun k hu hv => ?_, hleft, hright⟩, htext ▸ hrefused⟩⟩
  rcases Nat.lt_or_ge k p with hkp | hpk
  · exact on_ip (hxdigits k hu hkp)
  · rcases Nat.lt_or_ge k q with hkq | hqk
    · exact h.keepsIpBody hfit (hbody k hpk hkq)
    · exact on_ip (hydigits k hqk hv)

end Joined

/-- **An address** is found after a pass where it is what is left of one, or joined. -/
theorem ipAt_overwritten (h : Overwritten b out) (hfit : Fitting b) :
    (∃ u v, IpAt out u v) ↔ (∃ s e, Leaves b s e) ∨ ∃ p q, Joins b p q := by
  constructor
  · rintro ⟨u, v, hat⟩
    by_cases hin : ∃ k, u ≤ k ∧ k < v ∧ InIp b k
    · obtain ⟨k, hu, hv, s, e, hip, hs, he⟩ := hin
      obtain ⟨c, u', hleft⟩ := exists_leftCut h hfit hip
      obtain ⟨d, v', hright⟩ := exists_rightCut h hfit hip
      obtain ⟨rfl, rfl⟩ := eq_leftOver h hfit hip hleft hright hat hs he hu hv
      exact Or.inl ⟨s, e, (ipAt_leftOver h hfit hip hleft hright).1 hat⟩
    · exact Or.inr (joins_of_ipAt h hfit hat fun k hu hv hk => hin ⟨k, hu, hv, hk⟩)
  · rintro (⟨s, e, hleaves⟩ | ⟨p, q, hjoins⟩)
    · obtain ⟨c, u, hleft⟩ := exists_leftCut h hfit hleaves.ip
      obtain ⟨d, v, hright⟩ := exists_rightCut h hfit hleaves.ip
      exact ⟨u, v, (ipAt_leftOver h hfit hleaves.ip hleft hright).2 hleaves⟩
    · exact hjoins.ipAt h hfit

end Redact

end LibWing
