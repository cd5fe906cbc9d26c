import LibWing.Osc.Codec
import Mathlib.Data.List.TakeDrop

/-!
# The pairs of a node

Several parameters of a node travel as one string, `name=value` pairs with commas between
them.  There is no quoting: the writer refuses the characters that the grammar needs.

* `Osc.formatNodePairs` : the string of some pairs;
* `Osc.parseNodeDump` : the pairs in a reply, which may end with a comma;
* `Osc.parse_formatNodePairs` : the pairs that were accepted come back, in their order.
-/

namespace LibWing

namespace Osc

/-! ### Writing -/

/-- The names that `format_node_pairs` refuses. -/
def refusesName (name : String) : Bool :=
  name.isEmpty || name.toList.any (fun c => ['/', '.', ',', '='].contains c) ||
    (utf8 name).contains 0 || name == "." || name == ".."

/-- The values that `format_node_pairs` refuses. -/
def refusesValue (value : String) : Bool :=
  value.toList.contains ',' || (utf8 value).contains 0

/-- One pair. -/
def formatNodePair (pair : String × String) : Except OscError String :=
  if refusesName pair.1 then
    .error (.malformed "node pair names must be local leaf names without grammar separators")
  else if refusesValue pair.2 then
    .error (.malformed
      "node pair values cannot contain commas or embedded NULs; use set_string for arbitrary strings")
  else .ok (pair.1 ++ "=" ++ pair.2)

/-- The loop over the pairs: the first one that is refused ends it. -/
def formatEach : List (String × String) → Except OscError (List String)
  | [] => .ok []
  | pair :: pairs => do
    let formatted ← formatNodePair pair
    let rest ← formatEach pairs
    return formatted :: rest

/-- `format_node_pairs`. -/
def formatNodePairs (pairs : List (String × String)) : Except OscError String := do
  let formatted ← formatEach pairs
  return ",".intercalate formatted

/-! ### Reading -/

/-- `str::split(',')`. -/
def splitComma (s : String) : List String := (s.toList.splitOn ',').map String.ofList

/-- `str::split_once('=')`. -/
def splitOnce (s : String) : Option (String × String) :=
  match s.toList.span (· ≠ '=') with
  | (_, []) => none
  | (name, _ :: value) => some (String.ofList name, String.ofList value)

/-- `parse_node_dump`. -/
def parseNodeDump (msg : OscMessage) : Except OscError (List (String × String)) :=
  match msg.args with
  | [.str payload] => .ok (((splitComma payload).filter fun kv => !kv.isEmpty).filterMap splitOnce)
  | _ => .error (.malformed "node dump payload must be a single string")

/-! ### The round trip -/

variable {name value s : String} {pairs : List (String × String)} {formatted : List String}

theorem splitOnce_pair (h : '=' ∉ name.toList) :
    splitOnce (name ++ "=" ++ value) = some (name, value) := by
  have hspan : (name ++ "=" ++ value).toList.span (· ≠ '=') =
      (name.toList, '=' :: value.toList) := by
    have hbefore : ∀ c ∈ name.toList, decide (c ≠ '=') = true := by
      intro c hc
      exact decide_eq_true fun heq => h (heq ▸ hc)
    rw [String.toList_append, String.toList_append, List.append_assoc,
      List.span_eq_takeWhile_dropWhile,
      List.takeWhile_append_of_pos hbefore, List.dropWhile_append_of_pos hbefore]
    simp
  rw [splitOnce, hspan]
  simp

theorem splitComma_intercalate (h : ∀ p ∈ formatted, ',' ∉ p.toList) (hne : formatted ≠ []) :
    splitComma (",".intercalate formatted) = formatted := by
  rw [splitComma, String.toList_intercalate]
  change (([','].intercalate (formatted.map String.toList)).splitOn ',').map String.ofList = _
  rw [List.splitOn_intercalate ',' (by simpa using h) (by simpa using hne), List.map_map]
  simp [Function.comp_def]

theorem splitComma_trailing (s : String) : splitComma (s ++ ",") = splitComma s ++ [""] := by
  rw [splitComma, String.toList_append]
  change ((s.toList ++ ',' :: []).splitOn ',').map String.ofList = _
  rw [List.splitOn_append_cons_self, List.map_append]
  rfl

theorem formatNodePair_eq_ok {pair : String × String} (h : formatNodePair pair = .ok s) :
    s = pair.1 ++ "=" ++ pair.2 ∧ '=' ∉ pair.1.toList ∧ ',' ∉ pair.1.toList ∧
      ',' ∉ pair.2.toList := by
  unfold formatNodePair at h
  split_ifs at h with hname hvalue
  cases h
  simp only [refusesName, Bool.or_eq_true, not_or, List.any_eq_true, not_exists, not_and] at hname
  simp only [refusesValue, Bool.or_eq_true, not_or, List.contains_iff_mem] at hvalue
  obtain ⟨⟨⟨⟨-, hsep⟩, -⟩, -⟩, -⟩ := hname
  exact ⟨rfl, fun hmem => hsep '=' hmem (by decide), fun hmem => hsep ',' hmem (by decide),
    hvalue.1⟩

/-- The pieces are what the reader looks for: none is empty, none has a comma, and each comes apart
into its pair. -/
theorem formatEach_eq_ok (h : formatEach pairs = .ok formatted) :
    (∀ p ∈ formatted, ',' ∉ p.toList ∧ p.isEmpty = false) ∧
      formatted.filterMap splitOnce = pairs := by
  induction pairs generalizing formatted with
  | nil =>
    cases h
    exact ⟨by simp, rfl⟩
  | cons pair pairs ih =>
    obtain ⟨first, hfirst, h⟩ := Except.bind_eq_ok.1 h
    obtain ⟨rest, hrest, h⟩ := Except.bind_eq_ok.1 h
    cases Except.pure_eq_ok.1 h
    obtain ⟨hpieces, hpairs⟩ := ih hrest
    obtain ⟨rfl, heq, hcomma, hvalue⟩ := formatNodePair_eq_ok hfirst
    constructor
    · intro p hp
      rcases List.mem_cons.1 hp with rfl | hp
      · refine ⟨by simp [hcomma, hvalue], ?_⟩
        rw [Bool.eq_false_iff]
        simp
      · exact hpieces p hp
    · rw [List.filterMap_cons, splitOnce_pair heq, hpairs]

theorem filter_splitComma (h : ∀ p ∈ formatted, ',' ∉ p.toList ∧ p.isEmpty = false) :
    ((splitComma (",".intercalate formatted)).filter fun kv => !kv.isEmpty) = formatted := by
  by_cases hne : formatted = []
  · subst hne
    decide
  · rw [splitComma_intercalate (fun p hp => (h p hp).1) hne, List.filter_eq_self]
    intro p hp
    simp [(h p hp).2]

/-- **Accepted pairs come back.**  Whatever pairs were accepted, a reply with their string, with or
without a comma at the end, has exactly these pairs, in their order. -/
theorem parse_formatNodePairs (h : formatNodePairs pairs = .ok s) (addr : String) :
    parseNodeDump ⟨addr, [.str s]⟩ = .ok pairs ∧
      parseNodeDump ⟨addr, [.str (s ++ ",")]⟩ = .ok pairs := by
  obtain ⟨formatted, hformatted, h⟩ := Except.bind_eq_ok.1 h
  cases Except.pure_eq_ok.1 h
  obtain ⟨hpieces, hpairs⟩ := formatEach_eq_ok hformatted
  have hplain := filter_splitComma hpieces
  constructor
  · simp only [parseNodeDump, hplain, hpairs]
  · have hlast : ([""].filter fun kv : String => !kv.isEmpty) = [] := by decide
    simp only [parseNodeDump, splitComma_trailing, List.filter_append, hplain, hlast,
      List.append_nil, hpairs]

/-- A value that is empty, and one with the separator of pairs and values in it. -/
theorem parse_formatNodePairs_values :
    parseNodeDump ⟨"/ch/1*", [.str "name=,eq=a.b=c,"]⟩ = .ok [("name", ""), ("eq", "a.b=c")] := by
  have h : formatNodePairs [("name", ""), ("eq", "a.b=c")] = .ok "name=,eq=a.b=c" := by
    decide +kernel
  exact (parse_formatNodePairs h "/ch/1*").2

end Osc

end LibWing
