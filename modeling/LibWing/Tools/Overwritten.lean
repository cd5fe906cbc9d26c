import LibWing.Tools.Flagged

/-!
# What a pass of the redactor writes

The first pass as one step: where each byte of what it leaves comes from.

* `getElem?_replaceAll` : a position has a byte of a match that covers it, or the byte it had;
* `Overwritten` : a hardware address is written over an address, and that over a serial;
* `exists_overwritten` : the first pass can be made, and leaves the bytes overwritten.
-/

namespace LibWing

namespace Redact

open Runs

variable {b out next : List UInt8} {s e m i j k n p q start stop : ℕ} {ms ms' : List Match}

/-! ### Writing over -/

/-- The position is in the match. -/
def Match.Covers (m : Match) (i : ℕ) : Prop := m.start ≤ i ∧ i < m.stop

/-- There is a text of the same length for the match. -/
def Match.Replaceable (m : Match) : Prop :=
  ∃ text, replacement m.finding = .ok text ∧ (utf8 text).length = m.stop - m.start

theorem getElem?_overwrite {written : List UInt8} (hwritten : written.length = stop - start)
    (hle : start ≤ stop) (hstop : stop ≤ b.length) :
    (overwrite b start stop written)[i]? =
      if start ≤ i ∧ i < stop then written[i - start]? else b[i]? := by
  have htake : (b.take start).length = start := List.length_take_of_le (by omega)
  rw [overwrite]
  split_ifs with hi
  · rw [List.append_assoc, List.getElem?_append_right (by omega), htake,
      List.getElem?_append_left (by omega)]
  · rcases Nat.lt_or_ge i start with hlt | hge
    · rw [List.append_assoc, List.getElem?_append_left (by omega), List.getElem?_take_of_lt hlt]
    · rw [List.getElem?_append_right (by rw [List.length_append]; omega), List.length_append, htake,
        List.getElem?_drop]
      congr 1
      omega

/-- Where matches are written over, a position has a byte of the last one that covers it. -/
theorem getElem?_replaceAll (hbounds : ∀ m ∈ ms, m.start ≤ m.stop ∧ m.stop ≤ b.length)
    (h : replaceAll ms b = .ok out) (i : ℕ) :
    (∃ m ∈ ms, m.Covers i ∧ ∃ text, replacement m.finding = .ok text ∧
      out[i]? = (utf8 text)[i - m.start]?) ∨
    (∀ m ∈ ms, ¬ m.Covers i) ∧ out[i]? = b[i]? := by
  induction ms generalizing b with
  | nil =>
    cases h
    exact Or.inr ⟨nofun, rfl⟩
  | cons m ms ih =>
    obtain ⟨hm, hbounds⟩ := List.forall_mem_cons.1 hbounds
    rw [replaceAll] at h
    cases hreplacement : replacement m.finding with
    | error error => rw [hreplacement] at h; cases h
    | ok text =>
      simp only [hreplacement] at h
      split_ifs at h with hlength
      have hkept := length_overwrite hlength hm.1 hm.2
      have hget := @getElem?_overwrite b i m.start m.stop (utf8 text) hlength hm.1 hm.2
      rcases ih (by rwa [hkept]) h with ⟨m', hm', hcovers⟩ | ⟨hnone, hout⟩
      · exact Or.inl ⟨m', List.mem_cons_of_mem m hm', hcovers⟩
      · rw [hget] at hout
        split_ifs at hout with hcovers
        · exact Or.inl ⟨m, List.mem_cons_self, hcovers, text, hreplacement, hout⟩
        · exact Or.inr ⟨List.forall_mem_cons.2 ⟨hcovers, hnone⟩, hout⟩

theorem replaceAll_ok (h : ∀ m ∈ ms, m.Replaceable) : ∃ out, replaceAll ms b = .ok out := by
  induction ms generalizing b with
  | nil => exact ⟨b, rfl⟩
  | cons m ms ih =>
    obtain ⟨⟨text, htext, hlength⟩, h⟩ := List.forall_mem_cons.1 h
    obtain ⟨out, hout⟩ := @ih (overwrite b m.start m.stop (utf8 text)) h
    refine ⟨out, ?_⟩
    rw [replaceAll, htext]
    dsimp only
    rw [if_pos hlength, hout]

theorem replaceAll_append (ms ms' : List Match) (b : List UInt8) :
    replaceAll (ms ++ ms') b = (replaceAll ms b).bind (replaceAll ms') := by
  induction ms generalizing b with
  | nil => rfl
  | cons m ms ih =>
    rw [List.cons_append, replaceAll, replaceAll]
    cases replacement m.finding with
    | error error => rfl
    | ok text =>
      dsimp only
      split_ifs
      · exact ih _
      · rfl

/-! ### What is written -/

/-- The bytes of `02:00:00:00:00:00`. -/
def freshMac : List UInt8 :=
  [0x30, 0x32, colon, 0x30, 0x30, colon, 0x30, 0x30, colon, 0x30, 0x30, colon, 0x30, 0x30, colon,
    0x30, 0x30]

/-- The bytes of the documentation address of that length. -/
def fitted (n : ℕ) : List UInt8 := ((fitTestNetIp n).map utf8).getD []

theorem utf8_freshMac : utf8 "02:00:00:00:00:00" = freshMac := by decide +kernel

theorem freshMac_spec : ∀ k, k < 17 →
    if k % 3 = 2 then freshMac[k]? = some colon else freshMac[k]?.any isDigit = true := by
  decide

theorem fitted_nine : fitted 9 = [0x31, 0x39, 0x32, dot, 0x30, dot, 0x32, dot, 0x30] := by
  decide +kernel

theorem fitted_ten : fitted 10 = [0x31, 0x39, 0x32, dot, 0x30, dot, 0x32, dot, 0x31, 0x30] := by
  decide +kernel

theorem fitted_eleven :
    fitted 11 = [0x31, 0x39, 0x32, dot, 0x30, dot, 0x32, dot, 0x31, 0x30, 0x30] := by
  decide +kernel

/-- The lengths for which there is a documentation address. -/
def Fits (n : ℕ) : Prop := 9 ≤ n ∧ n ≤ 11

theorem Fits.cases (h : Fits n) : n = 9 ∨ n = 10 ∨ n = 11 := by
  obtain ⟨hlo, hhi⟩ := h
  omega

theorem length_fitted (h : Fits n) : (fitted n).length = n := by
  rcases h.cases with rfl | rfl | rfl
  · rw [fitted_nine]; rfl
  · rw [fitted_ten]; rfl
  · rw [fitted_eleven]; rfl

theorem fitted_spec (h : Fits n) : ∀ k, k < n →
    if k = 3 ∨ k = 5 ∨ k = 7 then (fitted n)[k]? = some dot
    else (fitted n)[k]?.any isDigit = true := by
  rcases h.cases with rfl | rfl | rfl
  · rw [fitted_nine]; decide
  · rw [fitted_ten]; decide
  · rw [fitted_eleven]; decide

theorem fitTestNetIp_eq (h : Fits n) :
    ∃ text, fitTestNetIp n = some text ∧ utf8 text = fitted n := by
  have hsome : (fitTestNetIp n).isSome = true := by
    rcases h.cases with rfl | rfl | rfl <;> decide +kernel
  obtain ⟨text, htext⟩ := Option.isSome_iff_exists.1 hsome
  exact ⟨text, htext, by rw [fitted, htext]; rfl⟩

theorem utf8_zeros (n : ℕ) :
    utf8 ("NGC" ++ String.ofList (List.replicate n '0')) = ngc ++ List.replicate n 0x30 := by
  have hchars : "NGC" ++ String.ofList (List.replicate n '0') =
      String.ofList (['N', 'G', 'C'] ++ List.replicate n '0') := by
    rw [String.ofList_append]
  have hzeros (n : ℕ) : (List.replicate n '0').flatMap String.utf8EncodeChar =
      List.replicate n 0x30 := by
    induction n with
    | zero => rfl
    | succ n ih =>
      rw [List.replicate_succ, List.flatMap_cons, ih, List.replicate_succ]
      rfl
  rw [hchars, utf8_ofList, List.flatMap_append, hzeros]
  rfl

/-! ### Where something is written -/

def InMac (b : List UInt8) (i : ℕ) : Prop := ∃ m e, MacAt b m e ∧ m ≤ i ∧ i < e

def InIp (b : List UInt8) (i : ℕ) : Prop := ∃ s e, IpAt b s e ∧ s ≤ i ∧ i < e

/-- The position is one of the digits behind `NGC`. -/
def InSerial (b : List UInt8) (i : ℕ) : Prop :=
  ∃ k, slice b k (k + 3) = ngc ∧ k + 3 ≤ i ∧ ∀ j, k + 3 ≤ j → j ≤ i → On isDigit b j

/-- Every address that is found has a length for which there is a documentation address. -/
def Fitting (b : List UInt8) : Prop :=
  ∀ m ∈ findMatches b, ∀ text, m.finding = .ip text → 9 ≤ text.length ∧ text.length ≤ 11

/-- The bytes after a pass: a hardware address is written last, before it an address, and before
that a serial. -/
structure Overwritten (b out : List UInt8) : Prop where
  /-- Each byte of a MAC address is that of the fresh one. -/
  mac : ∀ m e i, MacAt b m e → m ≤ i → i < e → out[i]? = freshMac[i - m]?
  /-- Each other byte of an IP address is that of the one that fits. -/
  ip : ∀ s e i, IpAt b s e → s ≤ i → i < e → ¬ InMac b i → out[i]? = (fitted (e - s))[i - s]?
  /-- Each other byte of a serial number is zero. -/
  serial : ∀ i, InSerial b i → ¬ InIp b i → ¬ InMac b i → out[i]? = some 0x30
  /-- All others are as they were. -/
  other : ∀ i, ¬ InSerial b i → ¬ InIp b i → ¬ InMac b i → out[i]? = b[i]?

theorem SerialAt.bounds (h : SerialAt b s e) : s + 3 ≤ e ∧ e ≤ b.length := by
  obtain ⟨-, rfl, k, hk, hlt, -⟩ := serialAt_iff.1 h
  obtain ⟨text, hmem⟩ := h
  exact ⟨by omega, (serialToken_bounds (token_of_mem_findAll hmem)).2⟩

theorem SerialAt.ascii (h : SerialAt b s e) : ∀ c ∈ slice b s e, c < 0x80 := by
  obtain ⟨hngc, rfl, -⟩ := serialAt_iff.1 h
  obtain ⟨hn, hg, hc⟩ := slice_eq_ngc.1 hngc
  intro c hmem
  obtain ⟨k, hs, hk, hget⟩ := exists_of_mem_slice hmem
  rcases Nat.lt_or_ge k (s + 3) with hlt | hge
  · obtain rfl | rfl | rfl : k = s ∨ k = s + 1 ∨ k = s + 2 := by omega
    · rw [hn] at hget
      cases hget
      decide
    · rw [hg] at hget
      cases hget
      decide
    · rw [hc] at hget
      cases hget
      decide
  · have hdigit := on_ip ((digitsEnd_spec b (s + 3)).2.1 k hge hk)
    exact isIpBody_ascii ((on_of_getElem? hget).1 hdigit)

theorem IpAt.bounds (h : IpAt b s e) : s < e ∧ e ≤ b.length := by
  have hlt := (ipAt_iff.1 h).1.lt
  obtain ⟨text, hmem⟩ := h
  exact ⟨hlt, (ipToken_bounds (token_of_mem_findAll hmem)).2⟩

theorem IpAt.ascii (h : IpAt b s e) : ∀ c ∈ slice b s e, c < 0x80 := by
  intro c hmem
  obtain ⟨k, hs, hk, hget⟩ := exists_of_mem_slice hmem
  exact isIpBody_ascii ((on_of_getElem? hget).1 ((ipAt_iff.1 h).1.all k hs hk))

theorem Fitting.fits (hfit : Fitting b) (h : IpAt b s e) : Fits (e - s) := by
  obtain ⟨text, hmem⟩ := h
  have hfits := hfit _ (List.mem_append_left _ (List.mem_append_right _ hmem)) text rfl
  have hat : IpAt b s e := ⟨text, hmem⟩
  rw [Finding.ip.inj (ipAt_of_mem hmem).2] at hfits
  dsimp only at hfits
  rw [fromUtf8Lossy_ascii hat.ascii, String.length_ofList, List.length_map,
    length_slice hat.bounds.2] at hfits
  exact hfits

/-! ### The first pass -/

theorem serial_replacement (h : SerialAt b s e) :
    ∃ text, replacement (.serial (fromUtf8Lossy (slice b s e))) = .ok text ∧
      utf8 text = ngc ++ List.replicate (e - s - 3) 0x30 := by
  refine ⟨_, rfl, ?_⟩
  rw [utf8_zeros, utf8_fromUtf8Lossy h.ascii, length_slice h.bounds.2]

theorem ip_replacement (h : IpAt b s e) (hfits : Fits (e - s)) :
    ∃ text, replacement (.ip (fromUtf8Lossy (slice b s e))) = .ok text ∧
      utf8 text = fitted (e - s) := by
  obtain ⟨text, htext, hutf8⟩ := fitTestNetIp_eq hfits
  refine ⟨text, ?_, hutf8⟩
  rw [replacement, utf8_fromUtf8Lossy h.ascii, length_slice h.bounds.2, htext]

theorem mac_replacement (text : String) :
    ∃ text', replacement (.mac text) = .ok text' ∧ utf8 text' = freshMac :=
  ⟨_, rfl, utf8_freshMac⟩

theorem replaceable (hfit : Fitting b) {m : Match} (h : m ∈ findMatches b) : m.Replaceable := by
  rcases List.mem_append.1 h with h | h
  · rcases List.mem_append.1 h with h | h
    · obtain ⟨hat, hfound⟩ := serialAt_of_mem h
      obtain ⟨text, htext, hutf8⟩ := serial_replacement hat
      refine ⟨text, hfound ▸ htext, ?_⟩
      have hle := hat.bounds
      rw [hutf8, List.length_append, List.length_replicate]
      change 3 + _ = _
      omega
    · obtain ⟨hat, hfound⟩ := ipAt_of_mem h
      obtain ⟨text, htext, hutf8⟩ := ip_replacement hat (hfit.fits hat)
      exact ⟨text, hfound ▸ htext, by rw [hutf8, length_fitted (hfit.fits hat)]⟩
  · obtain ⟨hat, text, hfound⟩ := macAt_of_mem h
    obtain ⟨text', htext, hutf8⟩ := mac_replacement text
    refine ⟨text', hfound ▸ htext, ?_⟩
    rw [hutf8, (macAt_iff.1 hat).1, Nat.add_sub_cancel_left]
    rfl

theorem serials_bounds {m : Match} (h : m ∈ findSerials b) : m.start ≤ m.stop ∧ m.stop ≤ b.length :=
  findMatches_bounds (List.mem_append_left _ (List.mem_append_left _ h))

theorem ips_bounds {m : Match} (h : m ∈ findIps b) : m.start ≤ m.stop ∧ m.stop ≤ b.length :=
  findMatches_bounds (List.mem_append_left _ (List.mem_append_right _ h))

theorem macs_bounds {m : Match} (h : m ∈ findMacs b) : m.start ≤ m.stop ∧ m.stop ≤ b.length :=
  findMatches_bounds (List.mem_append_right _ h)

theorem getElem?_serials (h : replaceAll (findSerials b) b = .ok out) (i : ℕ) :
    (∃ s e, SerialAt b s e ∧ s ≤ i ∧ i < e ∧
      out[i]? = (ngc ++ List.replicate (e - s - 3) 0x30)[i - s]?) ∨
    (∀ s e, SerialAt b s e → ¬ (s ≤ i ∧ i < e)) ∧ out[i]? = b[i]? := by
  rcases getElem?_replaceAll (fun m hm => serials_bounds hm) h i with
    ⟨m, hm, hcovers, text, htext, hout⟩ | ⟨hnone, hout⟩
  · obtain ⟨hat, hfound⟩ := serialAt_of_mem hm
    obtain ⟨text', htext', hutf8⟩ := serial_replacement hat
    rw [hfound, htext'] at htext
    cases htext
    exact Or.inl ⟨m.start, m.stop, hat, hcovers.1, hcovers.2, hutf8 ▸ hout⟩
  · refine Or.inr ⟨?_, hout⟩
    rintro s e ⟨text, hmem⟩ hcovers
    exact hnone _ hmem hcovers

theorem getElem?_ips (hfit : Fitting b) (hlength : next.length = b.length)
    (h : replaceAll (findIps b) next = .ok out) (i : ℕ) :
    (∃ s e, IpAt b s e ∧ s ≤ i ∧ i < e ∧ out[i]? = (fitted (e - s))[i - s]?) ∨
    ¬ InIp b i ∧ out[i]? = next[i]? := by
  rcases getElem?_replaceAll (fun m hm => hlength ▸ ips_bounds hm) h i with
    ⟨m, hm, hcovers, text, htext, hout⟩ | ⟨hnone, hout⟩
  · obtain ⟨hat, hfound⟩ := ipAt_of_mem hm
    obtain ⟨text', htext', hutf8⟩ := ip_replacement hat (hfit.fits hat)
    rw [hfound, htext'] at htext
    cases htext
    exact Or.inl ⟨m.start, m.stop, hat, hcovers.1, hcovers.2, hutf8 ▸ hout⟩
  · refine Or.inr ⟨?_, hout⟩
    rintro ⟨s, e, ⟨text, hmem⟩, hcovers⟩
    exact hnone _ hmem hcovers

theorem getElem?_macs (hlength : next.length = b.length)
    (h : replaceAll (findMacs b) next = .ok out) (i : ℕ) :
    (∃ m e, MacAt b m e ∧ m ≤ i ∧ i < e ∧ out[i]? = freshMac[i - m]?) ∨
    ¬ InMac b i ∧ out[i]? = next[i]? := by
  rcases getElem?_replaceAll (fun m hm => hlength ▸ macs_bounds hm) h i with
    ⟨m, hm, hcovers, text, htext, hout⟩ | ⟨hnone, hout⟩
  · obtain ⟨hat, text₀, hfound⟩ := macAt_of_mem hm
    obtain ⟨text', htext', hutf8⟩ := mac_replacement text₀
    rw [hfound, htext'] at htext
    cases htext
    exact Or.inl ⟨m.start, m.stop, hat, hcovers.1, hcovers.2, hutf8 ▸ hout⟩
  · refine Or.inr ⟨?_, hout⟩
    rintro ⟨s, e, ⟨text, hmem⟩, hcovers⟩
    exact hnone _ hmem hcovers

theorem getElem?_ips_of_not (hfit : Fitting b) (hlength : next.length = b.length)
    (h : replaceAll (findIps b) next = .ok out) (hip : ¬ InIp b i) : out[i]? = next[i]? := by
  rcases getElem?_ips hfit hlength h i with ⟨s, e, hat, hs, he, -⟩ | ⟨-, hget⟩
  · exact absurd ⟨s, e, hat, hs, he⟩ hip
  · exact hget

theorem getElem?_macs_of_not (hlength : next.length = b.length)
    (h : replaceAll (findMacs b) next = .ok out) (hmac : ¬ InMac b i) : out[i]? = next[i]? := by
  rcases getElem?_macs hlength h i with ⟨m, e, hat, hm, he, -⟩ | ⟨-, hget⟩
  · exact absurd ⟨m, e, hat, hm, he⟩ hmac
  · exact hget

/-- Two hardware addresses that meet are one. -/
theorem MacAt.eq_of_mem (h : MacAt b m n) (h' : MacAt b s e) (hm : m ≤ i) (hn : i < n) (hs : s ≤ i)
    (he : i < e) : m = s ∧ n = e :=
  (macAt_iff.1 h).2.2.1.eq_of_mem (macAt_iff.1 h').2.2.1 hm hn hs he

/-- Two addresses that meet are one. -/
theorem IpAt.eq_of_mem (h : IpAt b m n) (h' : IpAt b s e) (hm : m ≤ i) (hn : i < n) (hs : s ≤ i)
    (he : i < e) : m = s ∧ n = e :=
  (ipAt_iff.1 h).1.eq_of_mem (ipAt_iff.1 h').1 hm hn hs he

theorem zero_of_inSerial (h : replaceAll (findSerials b) b = .ok out) (hin : InSerial b i) :
    out[i]? = some 0x30 := by
  obtain ⟨k, hngc, hk, hdigits⟩ := hin
  have hdigit := hdigits i hk (Nat.le_refl i)
  rcases getElem?_serials h i with ⟨s, e, hat, hs, he, hout⟩ | ⟨hnone, hout⟩
  · obtain ⟨hngc', -, -⟩ := serialAt_iff.1 hat
    obtain ⟨hn, hg, hc⟩ := slice_eq_ngc.1 hngc'
    have hge : s + 3 ≤ i := by
      by_contra hlt
      obtain rfl | rfl | rfl : i = s ∨ i = s + 1 ∨ i = s + 2 := by omega
      · exact absurd ((on_of_getElem? hn).1 hdigit) (by decide)
      · exact absurd ((on_of_getElem? hg).1 hdigit) (by decide)
      · exact absurd ((on_of_getElem? hc).1 hdigit) (by decide)
    rw [hout, List.getElem?_append_right (by change 3 ≤ _; omega), List.getElem?_replicate, if_pos]
    change i - s - 3 < _
    omega
  · -- if nothing is written there, the serial is not found, so all its digits are zero
    rw [hout]
    by_contra hne
    have hend := digitsEnd_spec b (k + 3)
    have hlt : i < digitsEnd b (k + 3) := by
      by_contra hge
      exact hend.2.2 (hdigits _ hend.1 (by omega))
    exact hnone k _ (serialAt_iff.2 ⟨hngc, rfl, i, hk, hlt, hne⟩) ⟨by omega, hlt⟩

theorem kept_of_not_inSerial (h : replaceAll (findSerials b) b = .ok out) (hin : ¬ InSerial b i) :
    out[i]? = b[i]? := by
  rcases getElem?_serials h i with ⟨s, e, hat, hs, he, hout⟩ | ⟨-, hout⟩
  · obtain ⟨hngc, rfl, -⟩ := serialAt_iff.1 hat
    obtain ⟨hn, hg, hc⟩ := slice_eq_ngc.1 hngc
    have hlt : i < s + 3 := by
      by_contra hge
      exact hin ⟨s, hngc, by omega, fun j hj hji =>
        (digitsEnd_spec b (s + 3)).2.1 j hj (by omega)⟩
    rw [hout, List.getElem?_append_left (by change _ < 3; omega)]
    obtain rfl | rfl | rfl : i = s ∨ i = s + 1 ∨ i = s + 2 := by omega
    · rw [Nat.sub_self, hn]
      rfl
    · rw [Nat.add_sub_cancel_left, hg]
      rfl
    · rw [Nat.add_sub_cancel_left, hc]
      rfl
  · exact hout

/-- **The first pass** can be made, and leaves the bytes overwritten. -/
theorem exists_overwritten (hfit : Fitting b) :
    ∃ out, replaceAll (findMatches b) b = .ok out ∧ Overwritten b out := by
  obtain ⟨out, hout⟩ := @replaceAll_ok b (findMatches b) fun m hm => replaceable hfit hm
  refine ⟨out, hout, ?_⟩
  rw [findMatches, replaceAll_append, replaceAll_append] at hout
  cases hserials : replaceAll (findSerials b) b with
  | error error => rw [hserials] at hout; cases hout
  | ok first =>
    rw [hserials] at hout
    have hfirst := length_replaceAll (fun m hm => serials_bounds hm) hserials
    change (replaceAll (findIps b) first).bind _ = _ at hout
    cases hips : replaceAll (findIps b) first with
    | error error => rw [hips] at hout; cases hout
    | ok second =>
      rw [hips] at hout
      have hsecond := length_replaceAll (fun m hm => hfirst ▸ ips_bounds hm) hips
      change replaceAll (findMacs b) second = _ at hout
      have hlength := hsecond.trans hfirst
      -- what is written last is seen, and below it what was written before
      refine ⟨fun m e i hat hm he => ?_, fun s e i hat hs he hmac => ?_,
        fun i hserial hip hmac => ?_, fun i hserial hip hmac => ?_⟩
      · rcases getElem?_macs hlength hout i with ⟨m', e', hat', hm', he', hget⟩ | ⟨hnone, -⟩
        · rwa [(hat'.eq_of_mem hat hm' he' hm he).1] at hget
        · exact absurd ⟨m, e, hat, hm, he⟩ hnone
      · rw [getElem?_macs_of_not hlength hout hmac]
        rcases getElem?_ips hfit hfirst hips i with ⟨s', e', hat', hs', he', hget⟩ | ⟨hnone, -⟩
        · obtain ⟨rfl, rfl⟩ := hat'.eq_of_mem hat hs' he' hs he
          exact hget
        · exact absurd ⟨s, e, hat, hs, he⟩ hnone
      · rw [getElem?_macs_of_not hlength hout hmac, getElem?_ips_of_not hfit hfirst hips hip,
          zero_of_inSerial hserials hserial]
      · rw [getElem?_macs_of_not hlength hout hmac, getElem?_ips_of_not hfit hfirst hips hip,
          kept_of_not_inSerial hserials hserial]

end Redact

end LibWing
