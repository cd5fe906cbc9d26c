import LibWing.Binary.Values
import LibWing.Console.Exact
import LibWing.Lib.Writes
import LibWing.Session.Sweep

/-!
# Verifying a restored buffer

`verify_binary_node` captures the whole desk and compares the pairs of a value buffer with it, one
by one.  A pair whose node is read-only is skipped.  If some pair is not confirmed and there is time
to settle, a second capture is compared with those that were not.

* `valuesMatchAt` : what a value read back may be;
* `verifyPass`, `recheckPass`, `verifyBinaryNode` : the two passes, and the call;
* `suspectsOf` : the pairs that a capture does not confirm;
* `Reports` : a reply that reports a desk, as far as a buffer has written it;
* `Consistent` : a buffer none of whose writes is overwritten with something else;
* `verifyBinaryNode_clean_iff` : on a desk that has applied the buffer, the report is clean exactly
  if the buffer is consistent.
-/

namespace LibWing

open Stateful
open Session (NodeValue PropertyMap plainDef)

/-! ### Matching values -/

/-- `f32::max`: of a NaN and a number, the number. -/
def f32Max (x y : Float32) : Float32 :=
  if x.isNaN then y else if y.isNaN then x else if x ≤ y then y else x

/-- Two floats that differ by no more than the console's rounding. -/
def F32.close (x y : F32) : Bool :=
  let x := Float32.ofBits x.bits
  let y := Float32.ofBits y.bits
  (x - y).abs ≤ f32Max 1e-3 (f32Max x.abs y.abs * 1e-4)

/-- `values_match`. -/
def valuesMatch : NodeValue → NodeValue → Bool
  | .float x, .float y => x.close y
  | a, b => a.eq b

variable (map : PropertyMap)

/-- `id_is_read_only`. -/
def idIsReadOnly (id : Int32) : Bool :=
  match map.byId id with
  | some defs => defs.all fun entry => entry.2.readOnly
  | none => false

/-- Whether some definition of the id has an enum whose item at an index has a label. -/
def isEnumLabel (id idx : Int32) (label : String) : Bool :=
  if 0 ≤ idx.toInt then
    match map.byId id with
    | some defs => defs.any fun entry =>
      (entry.2.stringEnum.bind fun items => items[idx.toInt.toNat]?).any fun item =>
        item.item = label
    | none => false
  else false

/-- `values_match_at`. -/
def valuesMatchAt (id : Int32) (a b : NodeValue) : Bool :=
  if valuesMatch a b then true
  else match a, b with
    | .int idx, .string label => isEnumLabel map id idx label
    | .string label, .int idx => isEnumLabel map id idx label
    | _, _ => false

/-! ### The call -/

/-- `BinaryMismatch`. -/
structure BinaryMismatch where
  /-- The node. -/
  id : Int32
  /-- The value of the buffer. -/
  expected : NodeValue
  /-- The value that was read back, if there is one. -/
  actual : Option NodeValue
  deriving DecidableEq, Repr

/-- `VerifyReport`. -/
structure VerifyReport where
  /-- How many pairs were compared. -/
  checked : ℕ
  /-- How many were not, since their node is read-only. -/
  skipped : ℕ
  /-- The pairs that were not confirmed. -/
  mismatches : List BinaryMismatch
  deriving DecidableEq, Repr

/-- `VerifyReport::default`. -/
def VerifyReport.default : VerifyReport := ⟨0, 0, []⟩

/-- Whether what was read back is there and matches what is expected. -/
def confirmed (id : Int32) (actual : Option NodeValue) (want : NodeValue) : Bool :=
  actual.any fun a => valuesMatchAt map id a want

/-- A pair that the first capture did not confirm, with what was read back. -/
abbrev Suspect := Int32 × NodeValue × Option NodeValue

/-- The first pass. -/
def verifyPass (current : Int32 → Option NodeValue) :
    List (Int32 × NodeValue) → VerifyReport × List Suspect → VerifyReport × List Suspect
  | [], acc => acc
  | (id, want) :: expected, (report, suspects) =>
    if idIsReadOnly map id then
      verifyPass current expected ({ report with skipped := report.skipped + 1 }, suspects)
    else
      let report := { report with checked := report.checked + 1 }
      let actual := current id
      if confirmed map id actual want then verifyPass current expected (report, suspects)
      else verifyPass current expected (report, suspects ++ [(id, want, actual)])

/-- The second pass: the suspects that are still not confirmed. -/
def recheckPass (recheck : Int32 → Option NodeValue) (suspects : List Suspect) :
    List BinaryMismatch :=
  suspects.filterMap fun (id, want, _) =>
    let actual := recheck id
    if confirmed map id actual want then none else some ⟨id, want, actual⟩

namespace Console

variable (w : World)

/-- `capture_value_map`. -/
def captureValueMap (timeout : Time) : ConsoleM (Int32 → Option NodeValue) := do
  let buf ← getBinaryNode w 0 timeout
  let pairs ← ofExcept (parseBinaryValues buf)
  return Writes.apply (fun _ => none) pairs

/-- `std::thread::sleep`: the clock is the world's. -/
def sleep (_ : Time) : ConsoleM Unit := return ()

/-- `verify_binary_node`. -/
def verifyBinaryNode (data : List UInt8) (captureTimeout settle : Time) :
    ConsoleM VerifyReport := do
  let expected ← ofExcept (parseBinaryValues data)
  let current ← captureValueMap w captureTimeout
  let (report, suspects) := verifyPass map current expected (.default, [])
  if suspects = [] then return report
  else if settle = 0 then
    return { report with mismatches := suspects.map fun (id, want, actual) => ⟨id, want, actual⟩ }
  else do
    sleep settle
    let recheck ← captureValueMap w captureTimeout
    return { report with mismatches := recheckPass map recheck suspects }

end Console

/-! ### The passes -/

section Passes

variable {map : PropertyMap} {current recheck : Int32 → Option NodeValue}
  {pairs : List (Int32 × NodeValue)}

/-- A pair that is checked and that a capture does not confirm. -/
def unconfirmed (map : PropertyMap) (current : Int32 → Option NodeValue)
    (p : Int32 × NodeValue) : Bool :=
  !idIsReadOnly map p.1 && !confirmed map p.1 (current p.1) p.2

/-- The pairs that a capture does not confirm, with what was read back. -/
def suspectsOf (map : PropertyMap) (current : Int32 → Option NodeValue)
    (pairs : List (Int32 × NodeValue)) : List Suspect :=
  (pairs.filter (unconfirmed map current)).map fun p => (p.1, p.2, current p.1)

/-- **The first pass** counts every pair once and keeps those that are not confirmed. -/
theorem verifyPass_eq (current : Int32 → Option NodeValue) (pairs : List (Int32 × NodeValue))
    (report : VerifyReport) (suspects : List Suspect) :
    verifyPass map current pairs (report, suspects) =
      (⟨report.checked + pairs.countP fun p => !idIsReadOnly map p.1,
        report.skipped + pairs.countP fun p => idIsReadOnly map p.1, report.mismatches⟩,
        suspects ++ suspectsOf map current pairs) := by
  induction pairs generalizing report suspects with
  | nil => simp only [verifyPass, suspectsOf, List.countP_nil, Nat.add_zero, List.filter_nil,
      List.map_nil, List.append_nil]
  | cons p pairs ih =>
    obtain ⟨id, want⟩ := p
    cases hro : idIsReadOnly map id with
    | true =>
      have hun : unconfirmed map current (id, want) = false := by
        simp only [unconfirmed, hro, Bool.not_true, Bool.false_and]
      simp only [verifyPass, hro, ↓reduceIte, ih, suspectsOf, List.filter_cons, hun,
        Bool.false_eq_true, List.countP_cons, Bool.not_true, Nat.add_zero, Nat.add_assoc,
        Nat.add_comm 1]
    | false =>
      cases hc : confirmed map id (current id) want with
      | true =>
        have hun : unconfirmed map current (id, want) = false := by
          simp only [unconfirmed, hc, Bool.not_true, Bool.and_false]
        simp only [verifyPass, hro, hc, Bool.false_eq_true, ↓reduceIte, ih, suspectsOf,
          List.filter_cons, hun, List.countP_cons, Bool.not_false, Nat.add_zero, Nat.add_assoc,
          Nat.add_comm 1]
      | false =>
        have hun : unconfirmed map current (id, want) = true := by
          simp only [unconfirmed, hro, hc, Bool.not_false, Bool.and_self]
        simp only [verifyPass, hro, hc, Bool.false_eq_true, ↓reduceIte, ih, suspectsOf,
          List.filter_cons, hun, List.countP_cons, Bool.not_false, Nat.add_zero, Nat.add_assoc,
          Nat.add_comm 1, List.map_cons, List.append_assoc, List.singleton_append]

theorem checked_add_skipped (map : PropertyMap) (pairs : List (Int32 × NodeValue)) :
    (pairs.countP fun p => !idIsReadOnly map p.1) + pairs.countP (fun p => idIsReadOnly map p.1) =
      pairs.length := by
  rw [Nat.add_comm, List.length_eq_countP_add_countP fun p => idIsReadOnly map p.1]
  congr 2
  funext p
  cases idIsReadOnly map p.1 <;> rfl

theorem suspectsOf_eq_nil_iff :
    suspectsOf map current pairs = [] ↔
      ∀ p ∈ pairs, idIsReadOnly map p.1 = false → confirmed map p.1 (current p.1) p.2 = true := by
  rw [suspectsOf, List.map_eq_nil_iff, List.filter_eq_nil_iff]
  refine forall₂_congr fun p _ => ?_
  rw [unconfirmed]
  cases idIsReadOnly map p.1 <;> cases confirmed map p.1 (current p.1) p.2 <;> decide

/-- A suspect as it is reported. -/
def Suspect.mismatch : Suspect → BinaryMismatch
  | (id, want, actual) => ⟨id, want, actual⟩

/-- **The second pass** reports the suspects as they are if it reads back what the first one has. -/
theorem recheckPass_eq (h : ∀ p ∈ pairs, recheck p.1 = current p.1) :
    recheckPass map recheck (suspectsOf map current pairs) =
      (suspectsOf map current pairs).map Suspect.mismatch := by
  rw [recheckPass, ← List.filterMap_eq_map]
  refine List.filterMap_congr fun suspect hmem => ?_
  obtain ⟨p, hp, rfl⟩ := List.mem_map.1 hmem
  obtain ⟨hpairs, hun⟩ := List.mem_filter.1 hp
  rw [unconfirmed, Bool.and_eq_true, Bool.not_eq_true', Bool.not_eq_true'] at hun
  simp only [h p hpairs, hun.2, Bool.false_eq_true, ↓reduceIte, Function.comp_apply,
    Suspect.mismatch]

end Passes

/-! ### The report -/

section Reports

variable {map : PropertyMap} {pairs : List (Int32 × NodeValue)}

/-- A reply that reports a desk, as far as a buffer has written it. -/
def Reports (desk : Int32 → Option NodeValue) (pairs : List (Int32 × NodeValue))
    (reply : List UInt8) : Prop :=
  ∃ live, parseBinaryValues reply = .ok live ∧
    ∀ p ∈ pairs, Writes.apply (fun _ => none) live p.1 = desk p.1

/-- Whatever a buffer writes to a node that is not read-only is matched by the last value that it
writes there. -/
def Consistent (map : PropertyMap) (pairs : List (Int32 × NodeValue)) : Prop :=
  ∀ p ∈ pairs, idIsReadOnly map p.1 = false →
    confirmed map p.1 (Writes.last pairs p.1) p.2 = true

/-- A report without mismatches that accounts for `n` pairs. -/
def Clean (n : ℕ) (result : Result VerifyReport) : Prop :=
  ∃ report, result = .ok report ∧ report.mismatches = [] ∧ report.checked + report.skipped = n

end Reports

namespace Console

variable {map : PropertyMap} {w : World} {c c₁ c₂ : Console} {data reply : List UInt8}
  {pairs live : List (Int32 × NodeValue)} {current recheck : Int32 → Option NodeValue}
  {timeout settle : Time}

theorem captureValueMap_ok (h : outcome (getBinaryNode w 0 timeout) c = (.ok reply, c₁))
    (hlive : parseBinaryValues reply = .ok live) :
    outcome (captureValueMap w timeout) c = (.ok (Writes.apply (fun _ => none) live), c₁) := by
  refine (outcome_bind_ok h).trans ?_
  rw [hlive]
  rfl

/-- The report of a call whose first capture does not confirm the given pairs. -/
def reportOf (map : PropertyMap) (pairs : List (Int32 × NodeValue)) (suspects : List Suspect) :
    VerifyReport where
  checked := pairs.countP fun p => !idIsReadOnly map p.1
  skipped := pairs.countP fun p => idIsReadOnly map p.1
  mismatches := suspects.map Suspect.mismatch

theorem verifyBinaryNode_first (hdata : parseBinaryValues data = .ok pairs)
    (hcap : outcome (captureValueMap w timeout) c = (.ok current, c₁)) :
    outcome (verifyBinaryNode map w data timeout settle) c =
      outcome (if suspectsOf map current pairs = [] then return reportOf map pairs []
        else if settle = 0 then return reportOf map pairs (suspectsOf map current pairs)
        else do
          sleep settle
          let recheck ← captureValueMap w timeout
          return { reportOf map pairs [] with
            mismatches := recheckPass map recheck (suspectsOf map current pairs) }) c₁ := by
  rw [verifyBinaryNode, hdata]
  refine (outcome_bind_ok (show outcome (ofExcept (.ok pairs)) c =
    (.ok pairs, c) from rfl)).trans ?_
  refine (outcome_bind_ok hcap).trans ?_
  rw [verifyPass_eq, VerifyReport.default, Nat.zero_add, Nat.zero_add, List.nil_append]
  rfl

theorem verifyBinaryNode_confirmed (hdata : parseBinaryValues data = .ok pairs)
    (hcap : outcome (captureValueMap w timeout) c = (.ok current, c₁))
    (hnil : suspectsOf map current pairs = []) :
    outcome (verifyBinaryNode map w data timeout settle) c = (.ok (reportOf map pairs []), c₁) := by
  rw [verifyBinaryNode_first hdata hcap, if_pos hnil]
  rfl

theorem verifyBinaryNode_unsettled (hdata : parseBinaryValues data = .ok pairs)
    (hcap : outcome (captureValueMap w timeout) c = (.ok current, c₁))
    (hne : suspectsOf map current pairs ≠ []) :
    outcome (verifyBinaryNode map w data timeout 0) c =
      (.ok (reportOf map pairs (suspectsOf map current pairs)), c₁) := by
  rw [verifyBinaryNode_first hdata hcap, if_neg hne, if_pos rfl]
  rfl

theorem verifyBinaryNode_settled (hdata : parseBinaryValues data = .ok pairs)
    (hcap : outcome (captureValueMap w timeout) c = (.ok current, c₁))
    (hne : suspectsOf map current pairs ≠ []) (hsettle : settle ≠ 0) :
    outcome (verifyBinaryNode map w data timeout settle) c = outcome (do
      let recheck ← captureValueMap w timeout
      return { reportOf map pairs [] with
        mismatches := recheckPass map recheck (suspectsOf map current pairs) }) c₁ := by
  rw [verifyBinaryNode_first hdata hcap, if_neg hne, if_neg hsettle]
  rfl

theorem captureValueMap_error {e : Error}
    (h : outcome (getBinaryNode w 0 timeout) c = (.error e, c₁)) :
    outcome (captureValueMap w timeout) c = (.error e, c₁) := outcome_bind_error h

/-- On a desk that has applied the buffer, the first capture confirms it exactly if the buffer is
consistent. -/
theorem suspectsOf_applied (map : PropertyMap) {before : Int32 → Option NodeValue}
    (h : ∀ p ∈ pairs, current p.1 = Writes.apply before pairs p.1) :
    suspectsOf map current pairs = [] ↔ Consistent map pairs := by
  rw [suspectsOf_eq_nil_iff, Consistent]
  refine forall₂_congr fun p hp => ?_
  rw [h p hp, Writes.apply_of_mem before hp]

/-! ### False alarms -/

/-- **When a verification has no false alarm.**  Take any buffer, a desk that has applied its writes
in order, and captures that report what the desk holds: the report is clean, with a settle time or
without, exactly if no write of the buffer to a node that is not read-only is overwritten with a
value that does not match it. -/
theorem verifyBinaryNode_clean_iff (map : PropertyMap) (hdata : parseBinaryValues data = .ok pairs)
    (before : Int32 → Option NodeValue)
    (hfirst : outcome (getBinaryNode w 0 timeout) c = (.ok reply, c₁))
    (hreply : Reports (Writes.apply before pairs) pairs reply)
    (hsecond : settle ≠ 0 → ∀ again c₂, outcome (getBinaryNode w 0 timeout) c₁ = (.ok again, c₂) →
      Reports (Writes.apply before pairs) pairs again) :
    Clean pairs.length (outcome (verifyBinaryNode map w data timeout settle) c).1 ↔
      Consistent map pairs := by
  obtain ⟨live, hlive, hcurrent⟩ := hreply
  have hcap := captureValueMap_ok hfirst hlive
  rw [← suspectsOf_applied map hcurrent]
  constructor
  · rintro ⟨report, hrun, hclean, -⟩
    by_contra hne
    by_cases hsettle : settle = 0
    · subst hsettle
      rw [verifyBinaryNode_unsettled hdata hcap hne] at hrun
      cases hrun
      exact hne (List.map_eq_nil_iff.1 hclean)
    · rw [verifyBinaryNode_settled hdata hcap hne hsettle] at hrun
      rcases hagain : outcome (getBinaryNode w 0 timeout) c₁ with ⟨e | again, c₂⟩
      · rw [outcome_bind_error (captureValueMap_error hagain)] at hrun
        cases hrun
      · -- The second capture reads back what the first one has, so every suspect stays.
        obtain ⟨live₂, hlive₂, hrecheck⟩ := hsecond hsettle again c₂ hagain
        rw [outcome_bind_ok (captureValueMap_ok hagain hlive₂)] at hrun
        cases hrun
        have hsame : ∀ p ∈ pairs, Writes.apply (fun _ => none) live₂ p.1 =
            Writes.apply (fun _ => none) live p.1 :=
          fun p hp => (hrecheck p hp).trans (hcurrent p hp).symm
        have hmismatches : recheckPass map (Writes.apply (fun _ => none) live₂)
            (suspectsOf map (Writes.apply (fun _ => none) live) pairs) = [] := hclean
        rw [recheckPass_eq hsame] at hmismatches
        exact hne (List.map_eq_nil_iff.1 hmismatches)
  · intro hnil
    rw [verifyBinaryNode_confirmed hdata hcap hnil]
    exact ⟨_, rfl, rfl, checked_add_skipped map pairs⟩

/-- A switch with two labels and a level that is read-only. -/
def deskMap : PropertyMap where
  entries := [("/ch/1/mute", plainDef 8 .stringEnum (some ["OFF", "ON"])),
    ("/ch/1/lvl", { plainDef 9 .integer none with readOnly := true })]
  nodup := by decide

/-- A console that sends a reply to each of two captures. -/
def deskConsole (reply : List UInt8) : Console := .new 0 [.read (.ok (reply ++ reply))]

theorem deskConsole_captures (reply : List UInt8)
    (hfirst : (outcome (getBinaryNode .steady 0 99) (deskConsole reply)).1 = .ok reply)
    (hagain : (outcome (getBinaryNode .steady 0 99)
      (outcome (getBinaryNode .steady 0 99) (deskConsole reply)).2).1 = .ok reply) :
    ∃ c₁, outcome (getBinaryNode .steady 0 99) (deskConsole reply) = (.ok reply, c₁) ∧
      ∀ again c₂, outcome (getBinaryNode .steady 0 99) c₁ = (.ok again, c₂) → again = reply := by
  rcases hrun : outcome (getBinaryNode .steady 0 99) (deskConsole reply) with ⟨r, c₁⟩
  rw [hrun] at hfirst hagain
  refine ⟨c₁, Prod.ext hfirst rfl, fun again c₂ h => ?_⟩
  rw [h] at hagain
  exact Except.ok.inj hagain

/-- A node that is not in the map, a switch that is written as an index and then as a label, and a
read-only level that is written twice. -/
theorem deskConsole_clean :
    let data : List UInt8 :=
      [0xd7, 0, 0, 0, 7, 1, 0xd7, 0, 0, 0, 8, 1, 0x81, 0x4f, 0x4e, 0xd7, 0, 0, 0, 9, 5, 6, 0xde]
    let reply : List UInt8 :=
      [0xd7, 0, 0, 0, 7, 1, 0xd7, 0, 0, 0, 8, 0x81, 0x4f, 0x4e, 0xd7, 0, 0, 0, 9, 6, 0xde]
    Clean 5 (outcome (verifyBinaryNode deskMap .steady data 99 0) (deskConsole reply)).1 ∧
      Clean 5 (outcome (verifyBinaryNode deskMap .steady data 99 4) (deskConsole reply)).1 := by
  intro data reply
  let pairs : List (Int32 × NodeValue) :=
    [(7, .int 1), (8, .int 1), (8, .string "ON"), (9, .int 5), (9, .int 6)]
  have hdata : parseBinaryValues data = .ok pairs := by decide +kernel
  have hreply : Reports (Writes.apply (fun _ => none) pairs) pairs reply :=
    ⟨[(7, .int 1), (8, .string "ON"), (9, .int 6)], by decide +kernel, by decide +kernel⟩
  have hcons : Consistent deskMap pairs := by
    unfold Consistent
    decide +kernel
  obtain ⟨c₁, hfirst, hagain⟩ := deskConsole_captures reply (by decide +kernel)
    (by decide +kernel)
  exact ⟨(verifyBinaryNode_clean_iff deskMap hdata _ hfirst hreply fun h => absurd rfl h).2 hcons,
    (verifyBinaryNode_clean_iff deskMap hdata _ hfirst hreply
      fun _ again c₂ h => hagain again c₂ h ▸ hreply).2 hcons⟩

/-- No verification of integers and strings that a desk has applied has a false alarm. -/
def NoFalseAlarm (settle : Time) : Prop :=
  ∀ (map : PropertyMap) (w : World) (data reply : List UInt8) (pairs : List (Int32 × NodeValue))
      (before : Int32 → Option NodeValue) (c c₁ : Console) (timeout : Time),
    parseBinaryValues data = .ok pairs → (∀ p ∈ pairs, ∀ f, p.2 ≠ .float f) →
    outcome (getBinaryNode w 0 timeout) c = (.ok reply, c₁) →
    Reports (Writes.apply before pairs) pairs reply →
    (∀ again c₂, outcome (getBinaryNode w 0 timeout) c₁ = (.ok again, c₂) →
      Reports (Writes.apply before pairs) pairs again) →
    Clean pairs.length (outcome (verifyBinaryNode map w data timeout settle) c).1

/-- A node that is written twice is reported for its first value, although it holds the second. -/
theorem overwritten_alarm : ¬ NoFalseAlarm 0 ∧ ¬ NoFalseAlarm 4 := by
  let data : List UInt8 := [0xd7, 0, 0, 0, 7, 1, 2, 0xde]
  let reply : List UInt8 := [0xd7, 0, 0, 0, 7, 2, 0xde]
  let pairs : List (Int32 × NodeValue) := [(7, .int 1), (7, .int 2)]
  have hdata : parseBinaryValues data = .ok pairs := by decide +kernel
  have hfloat : ∀ p ∈ pairs, ∀ f, p.2 ≠ .float f := by
    simp only [pairs, List.forall_mem_cons, List.not_mem_nil]
    exact ⟨nofun, nofun, nofun⟩
  have hreply : Reports (Writes.apply (fun _ => none) pairs) pairs reply :=
    ⟨[(7, .int 2)], by decide +kernel, by decide +kernel⟩
  obtain ⟨c₁, hfirst, hagain⟩ := deskConsole_captures reply (by decide +kernel)
    (by decide +kernel)
  have halarm : ∀ settle ∈ [0, 4],
      (outcome (verifyBinaryNode deskMap .steady data 99 settle) (deskConsole reply)).1 =
        .ok ⟨2, 0, [⟨7, .int 1, some (.int 2)⟩]⟩ := by
    decide +kernel
  have hno : ∀ settle ∈ [0, 4], ¬ NoFalseAlarm settle := by
    intro settle hmem h
    obtain ⟨report, hrun, hclean, -⟩ := h deskMap .steady data reply pairs _ _ _ 99 hdata hfloat
      hfirst hreply fun again c₂ h => hagain again c₂ h ▸ hreply
    rw [halarm settle hmem] at hrun
    cases hrun
    cases hclean
  exact ⟨hno 0 (by decide), hno 4 (by decide)⟩

end Console

end LibWing
