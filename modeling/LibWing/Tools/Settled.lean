import LibWing.Tools.Joined

/-!
# When redaction converges

What is written over a finding is nothing the redactor would find, but it may be with the bytes
beside it.

* `Converges` : the bytes are redacted, and one pass is enough;
* `Settles` : the bytes beside what is found do not make a finding of what is written;
* `converges_iff` : redaction converges if and only if the bytes settle;
* `not_converges_serial` : it does not where an address stands right behind `NGC`.
-/

namespace LibWing

namespace Redact

/-- The bytes are redacted, and nothing is found in what the first pass leaves. -/
def Converges (b : List UInt8) : Prop :=
  (∃ out, redactBytes b = .ok out) ∧
    ∀ out, replaceAll (findMatches b) b = .ok out → findMatches out = []

/-- Nothing that is written makes a finding with the bytes beside it. -/
structure Settles (b : List UInt8) : Prop where
  /-- No address would be the digits of a serial. -/
  serial : ∀ i e, slice b i (i + 3) = ngc → ¬ IpAt b (i + 3) e
  /-- What is left of an address between hardware addresses is none. -/
  leaves : ∀ s e, ¬ Leaves b s e
  /-- No address ends in the first group of a hardware address. -/
  regroups : ∀ s e z, ¬ Regroups b s e z
  /-- No octets between dots are joined to an address. -/
  joins : ∀ p q, ¬ Joins b p q

variable {b out : List UInt8}

/-- Nothing is found after a pass if and only if the bytes settle. -/
theorem settles_iff (h : Overwritten b out) (hfit : Fitting b) :
    findMatches out = [] ↔ Settles b := by
  rw [findMatches_eq_nil]
  constructor
  · rintro ⟨hserial, hip, hmac⟩
    refine ⟨fun i e hngc hat => ?_, fun s e hleaves => ?_, fun s e z hre => ?_,
      fun p q hjoins => ?_⟩
    · obtain ⟨i', e', hfound⟩ := (serialAt_overwritten h hfit).2 ⟨i, e, hngc, hat⟩
      exact hserial i' e' hfound
    · obtain ⟨u, v, hfound⟩ := (ipAt_overwritten h hfit).2 (Or.inl ⟨s, e, hleaves⟩)
      exact hip u v hfound
    · obtain ⟨m, n, hfound⟩ := (macAt_overwritten h hfit).2 ⟨s, e, z, hre⟩
      exact hmac m n hfound
    · obtain ⟨u, v, hfound⟩ := (ipAt_overwritten h hfit).2 (Or.inr ⟨p, q, hjoins⟩)
      exact hip u v hfound
  · intro hsettles
    refine ⟨fun i e hfound => ?_, fun u v hfound => ?_, fun m n hfound => ?_⟩
    · obtain ⟨i', e', hngc, hat⟩ := (serialAt_overwritten h hfit).1 ⟨i, e, hfound⟩
      exact hsettles.serial i' e' hngc hat
    · rcases (ipAt_overwritten h hfit).1 ⟨u, v, hfound⟩ with ⟨s, e, hleaves⟩ | ⟨p, q, hjoins⟩
      · exact hsettles.leaves s e hleaves
      · exact hsettles.joins p q hjoins
    · obtain ⟨s, e, z, hre⟩ := (macAt_overwritten h hfit).1 ⟨m, n, hfound⟩
      exact hsettles.regroups s e z hre

theorem redactBytes_of_clean (hout : replaceAll (findMatches b) b = .ok out)
    (hclean : findMatches out = []) : ∃ redacted, redactBytes b = .ok redacted := by
  by_cases hb : findMatches b = []
  · exact ⟨b, by rw [redactBytes, redactPasses, if_pos hb]⟩
  · refine ⟨out, ?_⟩
    rw [redactBytes, redactPasses, if_neg hb, hout]
    dsimp only
    rw [redactPasses, if_pos hclean]

/-- **Redaction converges** if and only if the bytes settle. -/
theorem converges_iff (hfit : Fitting b) : Converges b ↔ Settles b := by
  obtain ⟨out, hout, hover⟩ := exists_overwritten hfit
  rw [← settles_iff hover hfit]
  constructor
  · rintro ⟨-, hclean⟩
    exact hclean out hout
  · intro hclean
    refine ⟨redactBytes_of_clean hout hclean, fun out' hout' => ?_⟩
    rw [hout] at hout'
    cases hout'
    exact hclean

/-- An address of a network that is not set aside. -/
def plainAddress : List UInt8 := utf8 "host 10.20.30.40"

/-- A serial the digits of which are the first octet of an address. -/
def serialAddress : List UInt8 := utf8 "NGC10.20.30.40"

theorem findMatches_plainAddress : findMatches plainAddress = [⟨5, 16, .ip "10.20.30.40"⟩] := by
  decide +kernel

theorem findMatches_serialAddress : findMatches serialAddress =
    [⟨0, 5, .serial "NGC10"⟩, ⟨3, 14, .ip "10.20.30.40"⟩] := by
  decide +kernel

theorem converges_iff_plain : Converges plainAddress ↔ Settles plainAddress :=
  converges_iff fun m hm text htext => by
    rw [findMatches_plainAddress, List.mem_singleton] at hm
    subst hm
    cases htext
    decide

theorem not_converges_serial : Fitting serialAddress ∧
    redactBytes serialAddress = .error "could not fully redact after repeated passes" ∧
      ¬ Converges serialAddress := by
  have herror : redactBytes serialAddress =
      .error "could not fully redact after repeated passes" := by decide +kernel
  refine ⟨fun m hm text htext => ?_, herror, ?_⟩
  · rw [findMatches_serialAddress] at hm
    rcases List.mem_cons.1 hm with rfl | hm
    · cases htext
    · rw [List.mem_singleton] at hm
      subst hm
      cases htext
      decide
  · rintro ⟨⟨out, hout⟩, -⟩
    rw [herror] at hout
    cases hout

end Redact

end LibWing
