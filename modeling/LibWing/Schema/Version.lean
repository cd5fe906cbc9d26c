import LibWing.Lib.Text
import Mathlib.Algebra.Group.Nat.Defs
import Mathlib.Data.List.Forall2
import Mathlib.Data.List.GetD
import Mathlib.Order.PiLex

/-!
# Firmware versions

The schema tells whether the map is older or newer than the firmware of a console.  A version is
read from the digits that its segments begin with; its numbers are as if zeros without end came
behind them, and versions are in lexicographic order.

* `parseVersion`, `compareVersions`, `staleness` : what the schema does;
* `VersionText` : the texts of versions, `parseVersion_eq_some` : they are what is parsed;
* `numbersOf` : the sequence of numbers, `compareVersions_cases` : the comparison is its order;
* `staleness_judged` : what each report says of a console.
-/

namespace LibWing

open Text

/-- `FIRMWARE_BASELINE`. -/
def firmwareBaseline : List Char := "3.1".toList

/-- `Staleness`. -/
inductive Staleness where
  | current
  | mapOlder
  | mapNewer
  | unknown
  deriving DecidableEq, Repr

/-- A segment of `parse_version`. -/
def parseSegment (segment : List Char) : Option ℕ :=
  let digits := segment.takeWhile Char.isDigit
  if digits = [] then none else parseUInt (2 ^ 32) digits

/-- `parse_version`. -/
def parseVersion (s : List Char) : Option (List ℕ) := do
  let parts ← (s.splitOn '.').mapM parseSegment
  if parts = [] then none else return parts

/-- The loop of `compare_versions`. -/
def compareLoop (a b : List ℕ) : List ℕ → Ordering
  | [] => .eq
  | i :: is =>
    let ord := compare (a.getD i 0) (b.getD i 0)
    if ord ≠ .eq then ord else compareLoop a b is

/-- `compare_versions`. -/
def compareVersions (a b : List ℕ) : Ordering :=
  compareLoop a b (List.range (max a.length b.length))

/-- `Schema::staleness`. -/
def staleness (consoleFirmware : List Char) : Staleness :=
  match parseVersion firmwareBaseline, parseVersion consoleFirmware with
  | some baseline, some console =>
    match compareVersions console baseline with
    | .gt => .mapOlder
    | .lt => .mapNewer
    | .eq => .current
  | _, _ => .unknown

/-! ### Reading -/

/-- A segment begins with the digits of a number that fits. -/
inductive SegmentText : List Char → ℕ → Prop
  | digits {digits rest : List Char} (hne : digits ≠ []) (hdigits : ∀ c ∈ digits, c.isDigit = true)
      (hrest : ∀ c, rest.head? = some c → c.isDigit = false)
      (hfits : Nat.ofDigitChars 10 digits 0 < 2 ^ 32) :
      SegmentText (digits ++ rest) (Nat.ofDigitChars 10 digits 0)

/-- The text of a version: each of its segments begins with a number. -/
def VersionText (s : List Char) (parts : List ℕ) : Prop :=
  List.Forall₂ SegmentText (s.splitOn '.') parts

variable {s segment : List Char} {n : ℕ} {parts : List ℕ}

theorem parseSegment_eq_some : parseSegment segment = some n ↔ SegmentText segment n := by
  constructor
  · intro h
    simp only [parseSegment] at h
    split_ifs at h with hnil
    have hdigits : ∀ c ∈ segment.takeWhile Char.isDigit, c.isDigit = true := fun c hc =>
      List.mem_takeWhile_imp hc
    rw [parseUInt_of_digits hnil hdigits] at h
    split_ifs at h with hfits
    cases h
    have hrest := List.head?_dropWhile_not Char.isDigit segment
    have hbegins := @SegmentText.digits _ (segment.dropWhile Char.isDigit) hnil hdigits
      (fun c hc => by simpa [hc] using hrest) hfits
    rwa [List.takeWhile_append_dropWhile] at hbegins
  · rintro ⟨hne, hdigits, hrest, hfits⟩
    rename_i digits rest
    have hstop : rest.takeWhile Char.isDigit = [] := by
      cases rest with
      | nil => rfl
      | cons c rest => rw [List.takeWhile_cons, if_neg (by simp [hrest c rfl])]
    have htake : (digits ++ rest).takeWhile Char.isDigit = digits := by
      rw [List.takeWhile_append_of_pos hdigits, hstop, List.append_nil]
    simp only [parseSegment, htake, if_neg hne]
    rw [parseUInt_of_digits hne hdigits, if_pos hfits]

theorem mapM_parseSegment {segments : List (List Char)} :
    segments.mapM parseSegment = some parts ↔ List.Forall₂ SegmentText segments parts := by
  induction segments generalizing parts with
  | nil => simp [List.forall₂_nil_left_iff, eq_comm]
  | cons segment segments ih =>
    rw [List.mapM_cons]
    constructor
    · intro h
      obtain ⟨n, hn, h⟩ := Option.bind_eq_some_iff.1 h
      obtain ⟨rest, hrest, h⟩ := Option.bind_eq_some_iff.1 h
      cases h
      exact .cons (parseSegment_eq_some.1 hn) (ih.1 hrest)
    · rintro (_ | ⟨hn, hrest⟩)
      rw [parseSegment_eq_some.2 hn, ih.2 hrest]
      rfl

/-- **What is parsed is the texts of versions.** -/
theorem parseVersion_eq_some : parseVersion s = some parts ↔ VersionText s parts := by
  have hne : parts = [] → ¬ VersionText s parts := by
    rintro rfl h
    exact List.splitOn_ne_nil '.' s (List.forall₂_nil_right_iff.1 h)
  rw [parseVersion]
  constructor
  · intro h
    obtain ⟨parts', hparts, h⟩ := Option.bind_eq_some_iff.1 h
    split_ifs at h
    cases h
    exact mapM_parseSegment.1 hparts
  · intro h
    rw [mapM_parseSegment.2 h]
    exact if_neg fun hnil => hne hnil h

theorem VersionText.unique {parts' : List ℕ} (h : VersionText s parts) (h' : VersionText s parts') :
    parts = parts' :=
  Option.some.inj ((parseVersion_eq_some.2 h).symm.trans (parseVersion_eq_some.2 h'))

/-! ### The order -/

/-- The numbers of a version, and zeros behind them. -/
def numbersOf (parts : List ℕ) : Lex (ℕ → ℕ) := toLex fun i => parts.getD i 0

variable {a b is : List ℕ}

theorem compareLoop_swap (a b is : List ℕ) : (compareLoop a b is).swap = compareLoop b a is := by
  induction is with
  | nil => rfl
  | cons i is ih =>
    have hswap := Nat.compare_swap (a.getD i 0) (b.getD i 0)
    simp only [compareLoop, ← hswap]
    cases compare (a.getD i 0) (b.getD i 0) with
    | lt => rfl
    | eq => exact ih
    | gt => rfl

theorem compareLoop_eq (h : compareLoop a b is = .eq) : ∀ i ∈ is, a.getD i 0 = b.getD i 0 := by
  induction is with
  | nil => exact fun i hi => absurd hi List.not_mem_nil
  | cons i is ih =>
    simp only [compareLoop] at h
    split_ifs at h with hord
    · exact absurd h hord
    · rw [not_not, Nat.compare_eq_eq] at hord
      exact List.forall_mem_cons.2 ⟨hord, ih h⟩

theorem compareLoop_lt (hsorted : is.Pairwise (· < ·)) (h : compareLoop a b is = .lt) :
    ∃ i ∈ is, (∀ j ∈ is, j < i → a.getD j 0 = b.getD j 0) ∧ a.getD i 0 < b.getD i 0 := by
  induction is with
  | nil => cases h
  | cons i is ih =>
    obtain ⟨hlater, hsorted⟩ := List.pairwise_cons.1 hsorted
    simp only [compareLoop] at h
    split_ifs at h with hord
    · refine ⟨i, List.mem_cons_self, fun j hj hlt => ?_, Nat.compare_eq_lt.1 h⟩
      rcases List.mem_cons.1 hj with rfl | hj
      · exact absurd hlt (lt_irrefl j)
      · exact absurd hlt (hlater j hj).not_gt
    · rw [not_not, Nat.compare_eq_eq] at hord
      obtain ⟨k, hk, hbefore, hlt⟩ := ih hsorted h
      refine ⟨k, List.mem_cons_of_mem _ hk, fun j hj hjk => ?_, hlt⟩
      rcases List.mem_cons.1 hj with rfl | hj
      · exact hord
      · exact hbefore j hj hjk

theorem version_eq (h : compareVersions a b = .eq) : numbersOf a = numbersOf b := by
  have hbelow := compareLoop_eq h
  refine congrArg toLex ?_
  funext i
  by_cases hi : i < max a.length b.length
  · exact hbelow i (List.mem_range.2 hi)
  · -- Both have ended.
    obtain ⟨ha, hb⟩ := Nat.max_le.1 (not_lt.1 hi)
    rw [List.getD_eq_default _ _ ha, List.getD_eq_default _ _ hb]

theorem version_lt (h : compareVersions a b = .lt) : numbersOf a < numbersOf b := by
  obtain ⟨i, hi, hbefore, hlt⟩ := compareLoop_lt List.pairwise_lt_range h
  refine ⟨i, fun j hj => hbefore j (List.mem_range.2 (hj.trans (List.mem_range.1 hi))) hj, hlt⟩

theorem version_gt (h : compareVersions a b = .gt) : numbersOf b < numbersOf a := by
  refine version_lt ?_
  rw [compareVersions, ← compareLoop_swap, max_comm]
  exact congrArg Ordering.swap h

/-- **The comparison is the order of versions.** -/
theorem compareVersions_cases (a b : List ℕ) :
    (compareVersions a b = .lt ↔ numbersOf a < numbersOf b) ∧
      (compareVersions a b = .eq ↔ numbersOf a = numbersOf b) ∧
      (compareVersions a b = .gt ↔ numbersOf b < numbersOf a) := by
  cases h : compareVersions a b with
  | lt =>
    have hlt := version_lt h
    exact ⟨⟨fun _ => hlt, fun _ => rfl⟩, ⟨nofun, fun heq => absurd heq hlt.ne⟩,
      ⟨nofun, fun hgt => absurd hgt hlt.not_gt⟩⟩
  | eq =>
    have heq := version_eq h
    exact ⟨⟨nofun, fun hlt => absurd heq hlt.ne⟩, ⟨fun _ => heq, fun _ => rfl⟩,
      ⟨nofun, fun hgt => absurd heq hgt.ne'⟩⟩
  | gt =>
    have hgt := version_gt h
    exact ⟨⟨nofun, fun hlt => absurd hlt hgt.not_gt⟩, ⟨nofun, fun heq => absurd heq hgt.ne'⟩,
      ⟨fun _ => hgt, fun _ => rfl⟩⟩

/-! ### Reports -/

/-- The version that the map was swept from. -/
def baselineVersion : Lex (ℕ → ℕ) := numbersOf [3, 1]

/-- What each report says of a console. -/
structure StalenessJudged (s : List Char) : Prop where
  /-- Nothing is said of a text that is no version. -/
  unknown : staleness s = .unknown ↔ ∀ parts, ¬ VersionText s parts
  /-- A console of the version of the map. -/
  current : staleness s = .current ↔ ∃ parts, VersionText s parts ∧ numbersOf parts =
    baselineVersion
  /-- One of a later version. -/
  mapOlder : staleness s = .mapOlder ↔ ∃ parts, VersionText s parts ∧ baselineVersion <
    numbersOf parts
  /-- One of an earlier version. -/
  mapNewer : staleness s = .mapNewer ↔ ∃ parts, VersionText s parts ∧ numbersOf parts <
    baselineVersion

/-- **The staleness of the map** is where the version of a console stands to the one the map was
swept from, and nothing is said of a console whose version cannot be read. -/
theorem staleness_judged (s : List Char) : StalenessJudged s := by
  have hbaseline : parseVersion firmwareBaseline = some [3, 1] := by decide +kernel
  cases hparse : parseVersion s with
  | none =>
    have hunread : ∀ parts, ¬ VersionText s parts := fun parts h => by
      rw [parseVersion_eq_some.2 h] at hparse
      cases hparse
    have hunknown : staleness s = .unknown := by simp only [staleness, hbaseline, hparse]
    constructor <;> simp [hunknown, hunread]
  | some parts =>
    have hreads := parseVersion_eq_some.1 hparse
    have hone : ∀ parts', VersionText s parts' ↔ parts' = parts := fun parts' =>
      ⟨fun h => h.unique hreads, fun h => h ▸ hreads⟩
    have hstaleness : staleness s = match compareVersions parts [3, 1] with
        | .gt => .mapOlder
        | .lt => .mapNewer
        | .eq => .current := by
      simp only [staleness, hbaseline, hparse]
    obtain ⟨hlt, heq, hgt⟩ := compareVersions_cases parts [3, 1]
    change _ ↔ numbersOf parts < baselineVersion at hlt
    change _ ↔ numbersOf parts = baselineVersion at heq
    change _ ↔ baselineVersion < numbersOf parts at hgt
    constructor <;> simp only [hone, exists_eq_left, ← hlt, ← heq, ← hgt, hstaleness] <;>
      cases compareVersions parts [3, 1] <;> simp

example : staleness "3.1.0-beta2".toList = .current := by decide +kernel

end LibWing
