import Mathlib.Data.List.DropRight
import Mathlib.Logic.Basic

/-!
# Text

Text as a list of characters, taken apart as Rust's `str` methods do.

* `isWhitespace`, `trim`, `trimEnd` : white space, and what is left without it at the ends;
* `lines` : the lines of a text; `unlines` : the text of lines; `lines_unlines` : they are its
  lines;
* `splitWhitespace` : its words; `splitn` : its first pieces;
* `stripPrefix`, `stripSuffix`, `splitOnce` : text without an end, and before and after a character;
* `parseUInt` : a decimal number; `parseUInt_toDigits` : digits that were printed are read again;
* `replace` : text with all occurrences of a pattern replaced.
-/

namespace Text

/-! ### White space -/

/-- `char::is_whitespace`: the characters with the property `White_Space`. -/
def isWhitespace (c : Char) : Bool :=
  (0x09 ≤ c.toNat && c.toNat ≤ 0x0d) || c.toNat == 0x20 || c.toNat == 0x85 || c.toNat == 0xa0 ||
    c.toNat == 0x1680 || (0x2000 ≤ c.toNat && c.toNat ≤ 0x200a) || c.toNat == 0x2028 ||
    c.toNat == 0x2029 || c.toNat == 0x202f || c.toNat == 0x205f || c.toNat == 0x3000

/-- `str::trim_end`. -/
def trimEnd (s : List Char) : List Char := s.rdropWhile isWhitespace

/-- `str::trim`. -/
def trim (s : List Char) : List Char := trimEnd (s.dropWhile isWhitespace)

/-- `str::split_whitespace`. -/
def splitWhitespace (s : List Char) : List (List Char) :=
  (s.splitOnP isWhitespace).filter fun word => word ≠ []

/-- `str::splitn`: at most `n` pieces, the last with all that is left. -/
def splitn (p : Char → Bool) : ℕ → List Char → List (List Char)
  | 0, _ => []
  | 1, s => [s]
  | n + 2, s =>
    match s.dropWhile fun c => !p c with
    | [] => [s]
    | _ :: rest => s.takeWhile (fun c => !p c) :: splitn p (n + 1) rest

/-! ### Lines -/

/-- The text of a line whose end has been found. -/
def stripCr (line : List Char) : List Char :=
  if line.getLast? = some '\r' then line.dropLast else line

/-- The lines, of which `current` has been read. -/
def linesFrom : List Char → List Char → List (List Char)
  | current, [] => if current = [] then [] else [current]
  | current, c :: rest =>
    if c = '\n' then stripCr current :: linesFrom [] rest else linesFrom (current ++ [c]) rest

/-- `str::lines`. -/
def lines (s : List Char) : List (List Char) := linesFrom [] s

/-! ### Ends -/

/-- `str::strip_prefix`. -/
def stripPrefix (p s : List Char) : Option (List Char) :=
  if p.isPrefixOf s then some (s.drop p.length) else none

/-- `str::strip_suffix`. -/
def stripSuffix (p s : List Char) : Option (List Char) :=
  if p.isSuffixOf s then some (s.take (s.length - p.length)) else none

/-- `str::split_once`. -/
def splitOnce (c : Char) (s : List Char) : Option (List Char × List Char) :=
  match s.dropWhile fun x => x ≠ c with
  | [] => none
  | _ :: rest => some (s.takeWhile fun x => x ≠ c, rest)

/-! ### Numbers -/

/-- `str::parse` to an unsigned number below `bound`: a plus sign may stand in front. -/
def parseUInt (bound : ℕ) (s : List Char) : Option ℕ :=
  let digits := if s.head? = some '+' then s.tail else s
  if digits = [] ∨ digits.any (fun c => !c.isDigit) then none
  else
    let n := Nat.ofDigitChars 10 digits 0
    if n < bound then some n else none

/-- Why a number is not parsed. -/
def parseUIntError (s : List Char) : String :=
  let digits := if s.head? = some '+' then s.tail else s
  if s = [] then "cannot parse integer from empty string"
  else if digits = [] ∨ digits.any (fun c => !c.isDigit) then "invalid digit found in string"
  else "number too large to fit in target type"

/-! ### Replacing -/

/-- Replacing, with `skip` characters of an occurrence still to be left out. -/
def replaceFrom (pattern written : List Char) : ℕ → List Char → List Char
  | _, [] => []
  | skip + 1, _ :: s => replaceFrom pattern written skip s
  | 0, c :: s =>
    if pattern.isPrefixOf (c :: s) then
      written ++ replaceFrom pattern written (pattern.length - 1) s
    else c :: replaceFrom pattern written 0 s

/-- `str::replace`. -/
def replace (pattern written s : List Char) : List Char := replaceFrom pattern written 0 s

variable {s a b line rest w : List Char} {c : Char} {p : Char → Bool} {n bound : ℕ}

/-! ### Trimming -/

/-- What is trimmed at the end is white space. -/
theorem exists_trimEnd_append (s : List Char) :
    ∃ w, s = trimEnd s ++ w ∧ ∀ c ∈ w, isWhitespace c = true :=
  ⟨s.rtakeWhile isWhitespace, List.rdropWhile_append_rtakeWhile.symm,
    fun _ hc => List.mem_rtakeWhile_imp hc⟩

theorem trimEnd_append (hw : ∀ c ∈ w, isWhitespace c = true) : trimEnd (s ++ w) = trimEnd s := by
  induction w using List.reverseRecOn with
  | nil => rw [List.append_nil]
  | append_singleton w c ih =>
    rw [trimEnd, ← List.append_assoc, List.rdropWhile_concat_pos _ _ _ (hw c (by simp))]
    exact ih fun x hx => hw x (List.mem_append_left _ hx)

theorem trim_append (hw : ∀ c ∈ w, isWhitespace c = true) : trim (s ++ w) = trim s := by
  induction s with
  | nil =>
    rw [trim, List.nil_append, List.dropWhile_eq_nil_iff.2 hw]
    rfl
  | cons c s ih =>
    by_cases hc : isWhitespace c = true
    · rw [trim, trim, List.cons_append, List.dropWhile_cons_of_pos hc,
        List.dropWhile_cons_of_pos hc]
      exact ih
    · rw [trim, trim, List.cons_append, List.dropWhile_cons_of_neg hc,
        List.dropWhile_cons_of_neg hc, ← List.cons_append, trimEnd_append hw]

theorem trim_of_whitespace (hw : ∀ c ∈ w, isWhitespace c = true) : trim w = [] :=
  (trim_append (s := []) hw).trans rfl

theorem trimEnd_of_last (h : ∀ hne : s ≠ [], isWhitespace (s.getLast hne) = false) :
    trimEnd s = s :=
  List.rdropWhile_eq_self_iff.2 fun hne => by rw [h hne]; exact Bool.false_ne_true

theorem trim_of_forall (h : ∀ c ∈ s, isWhitespace c = false) : trim s = s := by
  have hdrop : s.dropWhile isWhitespace = s := by
    cases s with
    | nil => rfl
    | cons c s =>
      have hc : ¬ isWhitespace c = true := by simp [h c (by simp)]
      rw [List.dropWhile_cons_of_neg hc]
  rw [trim, hdrop]
  exact trimEnd_of_last fun hne => h _ (List.getLast_mem hne)

/-- The end of a line does not matter to its first character. -/
theorem head?_trimEnd (hc : isWhitespace c = false) :
    (trimEnd s).head? = some c ↔ s.head? = some c := by
  obtain ⟨w, hs, hw⟩ := exists_trimEnd_append s
  cases htrim : trimEnd s with
  | cons d t =>
    rw [htrim] at hs
    rw [hs]
    rfl
  | nil =>
    rw [htrim, List.nil_append] at hs
    rw [hs]
    cases w with
    | nil => rfl
    | cons d w =>
      have hne : d ≠ c := by
        rintro rfl
        exact absurd (hw d (by simp)) (by simp [hc])
      simp [hne]

/-! ### Pieces -/

theorem splitn_append_cons (ha : ∀ x ∈ a, p x = false) (hc : p c = true) :
    splitn p (n + 2) (a ++ c :: rest) = a :: splitn p (n + 1) rest := by
  have hdrop : ((a ++ c :: rest).dropWhile fun x => !p x) = c :: rest := by
    rw [List.dropWhile_append_of_pos (by simpa using ha)]
    simp [hc]
  have htake : ((a ++ c :: rest).takeWhile fun x => !p x) = a := by
    rw [List.takeWhile_append_of_pos (by simpa using ha)]
    simp [hc]
  rw [splitn, hdrop, htake]

theorem splitn_of_forall (ha : ∀ x ∈ a, p x = false) : splitn p (n + 2) a = [a] := by
  have hdrop : (a.dropWhile fun x => !p x) = [] :=
    List.dropWhile_eq_nil_iff.2 (by simpa using ha)
  rw [splitn, hdrop]

/-- Text has a first piece, or is one. -/
theorem splitn_cases (p : Char → Bool) (s : List Char) :
    (∀ x ∈ s, p x = false) ∨
      ∃ a c rest, s = a ++ c :: rest ∧ (∀ x ∈ a, p x = false) ∧ p c = true := by
  by_cases h : ∀ x ∈ s, p x = false
  · exact .inl h
  · right
    cases hdrop : s.dropWhile fun x => !p x with
    | nil => exact absurd (by simpa using List.dropWhile_eq_nil_iff.1 hdrop) h
    | cons c rest =>
      refine ⟨s.takeWhile fun x => !p x, c, rest, ?_, ?_, ?_⟩
      · rw [← hdrop, List.takeWhile_append_dropWhile]
      · intro x hx
        simpa using List.mem_takeWhile_imp hx
      · have hhead := List.head?_dropWhile_not (fun x => !p x) s
        rw [hdrop] at hhead
        simpa using hhead

/-- The words of text with a blank behind the first. -/
theorem splitWhitespace_append_cons (ha : ∀ x ∈ a, isWhitespace x = false) (hne : a ≠ [])
    (hc : isWhitespace c = true) :
    splitWhitespace (a ++ c :: rest) = a :: splitWhitespace rest := by
  rw [splitWhitespace, List.splitOnP_append_cons _ _ hc, List.splitOnP_eq_singleton ha,
    List.singleton_append, List.filter_cons_of_pos (by simpa using hne), splitWhitespace]

theorem splitWhitespace_of_forall (ha : ∀ x ∈ a, isWhitespace x = false) (hne : a ≠ []) :
    splitWhitespace a = [a] := by
  rw [splitWhitespace, List.splitOnP_eq_singleton ha, List.filter_cons_of_pos (by simpa using hne),
    List.filter_nil]

@[simp] theorem stripPrefix_append : stripPrefix a (a ++ s) = some s := by
  rw [stripPrefix, if_pos (by simp), List.drop_left]

@[simp] theorem stripSuffix_append : stripSuffix a (s ++ a) = some s := by
  rw [stripSuffix, if_pos (by simp), List.length_append, Nat.add_sub_cancel, List.take_left]

/-! ### Lines of text -/

theorem linesFrom_append (hline : '\n' ∉ line) (current : List Char) :
    linesFrom current (line ++ '\n' :: rest) = stripCr (current ++ line) :: linesFrom [] rest := by
  induction line generalizing current with
  | nil => rw [List.nil_append, linesFrom, if_pos rfl, List.append_nil]
  | cons c line ih =>
    rw [List.mem_cons, not_or] at hline
    rw [List.cons_append, linesFrom, if_neg (Ne.symm hline.1), ih hline.2, List.append_assoc,
      List.singleton_append]

/-- The first line. -/
theorem lines_append (hline : '\n' ∉ line) :
    lines (line ++ '\n' :: rest) = stripCr line :: lines rest :=
  linesFrom_append hline []

theorem stripCr_of_notMem (hline : '\r' ∉ line) : stripCr line = line := by
  rw [stripCr, if_neg]
  exact fun h => hline (List.mem_of_getLast? h)

/-- Lines, with a line break behind each. -/
def unlines (ls : List (List Char)) : List Char := ls.flatMap (· ++ ['\n'])

@[simp] theorem unlines_nil : unlines [] = [] := rfl

@[simp] theorem unlines_cons (ls : List (List Char)) :
    unlines (line :: ls) = line ++ '\n' :: unlines ls := by
  simp [unlines]

@[simp] theorem unlines_append (ls ls' : List (List Char)) :
    unlines (ls ++ ls') = unlines ls ++ unlines ls' :=
  List.flatMap_append

/-- Lines that were written are read. -/
theorem lines_unlines {ls : List (List Char)} (h : ∀ line ∈ ls, '\n' ∉ line ∧ '\r' ∉ line) :
    lines (unlines ls) = ls := by
  induction ls with
  | nil => rfl
  | cons line ls ih =>
    obtain ⟨⟨hbreak, hreturn⟩, hls⟩ := List.forall_mem_cons.1 h
    rw [unlines_cons, lines_append hbreak, stripCr_of_notMem hreturn, ih hls]

/-! ### Printed numbers -/

/-- Digits are read as their number, if it fits. -/
theorem parseUInt_of_digits {digits : List Char} (hne : digits ≠ [])
    (hdigits : ∀ c ∈ digits, c.isDigit = true) : parseUInt bound digits =
      if Nat.ofDigitChars 10 digits 0 < bound then some (Nat.ofDigitChars 10 digits 0)
      else none := by
  have hhead : digits.head? ≠ some '+' := fun hplus =>
    absurd (hdigits '+' (List.mem_of_head? hplus)) (by decide)
  have hread : ¬ (digits = [] ∨ digits.any (fun c => !c.isDigit)) := by
    rintro (hnil | hany)
    · exact hne hnil
    · obtain ⟨c, hc, hno⟩ := List.any_eq_true.1 hany
      rw [hdigits c hc] at hno
      cases hno
  rw [parseUInt, if_neg hhead]
  simp only [if_neg hread]

/-- Digits that were printed are read again. -/
theorem parseUInt_toDigits (h : n < bound) : parseUInt bound (Nat.toDigits 10 n) = some n := by
  have hdigit : ∀ c ∈ Nat.toDigits 10 n, c.isDigit = true := fun c hc =>
    Nat.isDigit_of_mem_toDigits (by decide) (by decide) hc
  rw [parseUInt_of_digits Nat.toDigits_ne_nil hdigit, Nat.ofDigitChars_ten_toDigits, if_pos h]

theorem parseUInt_lt (h : parseUInt bound s = some n) : n < bound := by
  simp only [parseUInt] at h
  generalize (if s.head? = some '+' then s.tail else s) = digits at h
  split_ifs at h with hdigits hlt
  exact Option.some.inj h ▸ hlt

/-! ### Lines that are replaced -/

theorem replaceFrom_zero_cons {pattern written : List Char} :
    replaceFrom pattern written 0 (c :: s) =
      if pattern.isPrefixOf (c :: s) then
        written ++ replaceFrom pattern written (pattern.length - 1) s
      else c :: replaceFrom pattern written 0 s := rfl

/-- Text without the first character of the pattern stays. -/
theorem replaceFrom_of_notMem {pattern written : List Char} (hc : c ∉ s) :
    replaceFrom (c :: pattern) written 0 s = s := by
  induction s with
  | nil => rfl
  | cons d s ih =>
    rw [List.mem_cons, not_or] at hc
    have hpattern : ¬ (c :: pattern).isPrefixOf (d :: s) = true := by simp [hc.1]
    rw [replaceFrom_zero_cons, if_neg hpattern, ih hc.2]

theorem isPrefixOf_line {pattern : List Char} (hpattern : '\n' ∉ pattern) :
    pattern.isPrefixOf (line ++ '\n' :: rest) = pattern.isPrefixOf line := by
  induction pattern generalizing line with
  | nil => rw [List.isPrefixOf_nil_left, List.isPrefixOf_nil_left]
  | cons c pattern ih =>
    rw [List.mem_cons, not_or] at hpattern
    cases line with
    | nil =>
      have hc : (c == '\n') = false := beq_eq_false_iff_ne.2 (Ne.symm hpattern.1)
      rw [List.nil_append, List.isPrefixOf_cons_cons, hc]
      rfl
    | cons d line =>
      rw [List.cons_append, List.isPrefixOf_cons_cons, List.isPrefixOf_cons_cons, ih hpattern.2]

theorem replaceFrom_append {pattern written : List Char} (hne : pattern ≠ [])
    (hpattern : '\n' ∉ pattern) (k : ℕ) (hk : k ≤ line.length) :
    replaceFrom pattern written k (line ++ '\n' :: rest) =
      replaceFrom pattern written k line ++ '\n' :: replaceFrom pattern written 0 rest := by
  induction line generalizing k with
  | nil =>
    obtain rfl : k = 0 := by simpa using hk
    obtain ⟨c, pattern, rfl⟩ := List.exists_cons_of_ne_nil hne
    have hhead : ¬ (c :: pattern).isPrefixOf ('\n' :: rest) = true := by
      have hc : c ≠ '\n' := fun h => hpattern (h ▸ List.mem_cons_self)
      simp [hc]
    rw [List.nil_append, replaceFrom_zero_cons, if_neg hhead]
    rfl
  | cons c line ih =>
    cases k with
    | succ k =>
      rw [List.cons_append, replaceFrom, replaceFrom, ih k (by simpa using hk)]
    | zero =>
      have hiff : pattern.isPrefixOf (c :: (line ++ '\n' :: rest)) =
          pattern.isPrefixOf (c :: line) := by
        rw [← List.cons_append, isPrefixOf_line hpattern]
      rw [List.cons_append, replaceFrom_zero_cons, replaceFrom_zero_cons, hiff]
      split_ifs with hmatch
      · have hlength : pattern.length ≤ line.length + 1 := by
          simpa using (List.isPrefixOf_iff_prefix.1 hmatch).length_le
        rw [ih _ (by omega), List.append_assoc]
      · rw [ih 0 (Nat.zero_le _), List.cons_append]

theorem replace_unlines {pattern written : List Char} (hne : pattern ≠ [])
    (hpattern : '\n' ∉ pattern) (ls : List (List Char)) :
    replace pattern written (unlines ls) = unlines (ls.map (replace pattern written)) := by
  induction ls with
  | nil => rfl
  | cons line ls ih =>
    rw [unlines_cons, List.map_cons, unlines_cons, ← ih]
    exact replaceFrom_append hne hpattern 0 (Nat.zero_le _)

end Text
