import LibWing.Tools.Wingcap

/-!
# What is read from a capture

`parseCaptureWithPolicy` reads lines without their trailing blanks; `contractEvents` and
`mergePartialEvents` take the same lines apart as they are.  They agree on the events.

* `IsEvent` : a line is that of an event; `splitCaptureLine_trimEnd` : trailing blanks or not;
* `readEvent_eq_ok` : when a line of an event is accepted, and what it adds;
* `readLines_spec` : the lines that were accepted are those of events with offsets that never
  decrease;
* `contractEvents_eq_ok`, `mergePartialEvents_eq_ok` : both give these events.
-/

namespace LibWing

namespace Wingcapture

open Text Redact

variable {t : Texts} {r r' : Reading} {line text head hex : List Char} {event : CapturedEvent}
  {ordinal base : ℕ}

/-! ### Failing -/

theorem okOr_eq_ok {α : Type} {x : Option α} {message : String} {a : α} :
    okOr x message = .ok a ↔ x = some a := by
  cases x with
  | none => simp [okOr, fail]
  | some b => simp [okOr]

theorem mapError_eq_ok {α : Type} {x : Except Failure α} {f : Failure → Failure} {a : α} :
    x.mapError f = .ok a ↔ x = .ok a := by
  cases x <;> simp [Except.mapError]

theorem rejectIf_eq_ok {c : Prop} [Decidable c] {message : String} {u : Unit} :
    rejectIf c message = .ok u ↔ ¬ c := by
  by_cases hc : c
  · simp [rejectIf, hc, fail]
  · simp [rejectIf, hc]

/-! ### The parts of a line -/

/-- The line is that of the event, whatever its ordinal. -/
def IsEvent (line : List Char) (event : CapturedEvent) : Prop :=
  ∃ head hex, splitCaptureLine line = some (head, hex) ∧
    (splitWhitespace head)[1]?.bind parseOffset = some event.1 ∧
    (splitWhitespace head)[2]? = some event.2.1.toList ∧ decodeHex hex = .ok event.2.2

/-- The line has the ordinal. -/
def HasOrdinal (line : List Char) (ordinal : ℕ) : Prop :=
  ∃ head hex, splitCaptureLine line = some (head, hex) ∧ head.head? = some '@' ∧
    (splitWhitespace head)[0]?.bind parseOrdinal = some ordinal

theorem splitCaptureLine_at (h : line.head? = some '@') :
    splitCaptureLine line = some (head, hex) ↔
      ∃ ordinal offset channel fields,
        splitn isWhitespace 4 line = ordinal :: offset :: channel :: fields ∧
        head = ordinal ++ ' ' :: (offset ++ ' ' :: channel) ∧ hex = trim (fields.headD []) := by
  rw [splitCaptureLine, if_pos h]
  rcases splitn isWhitespace 4 line with _ | ⟨a, _ | ⟨b, _ | ⟨c, fields⟩⟩⟩
  · simp
  · simp
  · simp
  · simp only [Option.some.injEq, Prod.mk.injEq, List.cons.injEq]
    constructor
    · rintro ⟨rfl, rfl⟩
      exact ⟨a, b, c, fields, ⟨rfl, rfl, rfl, rfl⟩, rfl, rfl⟩
    · rintro ⟨_, _, _, _, ⟨rfl, rfl, rfl, rfl⟩, rfl, rfl⟩
      exact ⟨rfl, rfl⟩

/-- Blanks behind a line are no part of it. -/
theorem splitCaptureLine_trimEnd (hat : line.head? = some '@')
    (h : splitCaptureLine (trimEnd line) = some (head, hex)) :
    splitCaptureLine line = some (head, hex) := by
  obtain ⟨w, hline, hw⟩ := exists_trimEnd_append line
  obtain ⟨ordinal, offset, channel, fields, hsplit, rfl, rfl⟩ :=
    (splitCaptureLine_at ((head?_trimEnd (by decide)).2 hat)).1 h
  rw [splitCaptureLine_at hat]
  generalize trimEnd line = s at hline hsplit
  rcases splitn_cases isWhitespace s with h₀ | ⟨a, c₀, s₁, rfl, ha, hc₀⟩
  · rw [splitn_of_forall h₀] at hsplit
    cases hsplit
  rw [splitn_append_cons ha hc₀] at hsplit
  obtain ⟨ha', hsplit⟩ := List.cons.inj hsplit
  rcases splitn_cases isWhitespace s₁ with h₁ | ⟨b, c₁, s₂, rfl, hb, hc₁⟩
  · rw [splitn_of_forall h₁] at hsplit
    cases hsplit
  rw [splitn_append_cons hb hc₁] at hsplit
  obtain ⟨hb', hsplit⟩ := List.cons.inj hsplit
  rw [List.append_assoc, List.cons_append, List.append_assoc, List.cons_append] at hline
  rw [hline, splitn_append_cons ha hc₀, splitn_append_cons hb hc₁]
  rcases splitn_cases isWhitespace s₂ with h₂ | ⟨c, c₂, s₃, rfl, hc, hc₂⟩
  · rw [splitn_of_forall h₂] at hsplit
    obtain ⟨rfl, rfl⟩ := List.cons.inj hsplit
    subst ha' hb'
    cases w with
    | nil =>
      rw [List.append_nil, splitn_of_forall h₂]
      exact ⟨_, _, _, [], rfl, rfl, rfl⟩
    | cons d w =>
      rw [splitn_append_cons h₂ (hw d (by simp))]
      refine ⟨_, _, _, [w], rfl, rfl, ?_⟩
      exact (trim_of_whitespace fun x hx => hw x (List.mem_cons_of_mem d hx)).symm
  · rw [splitn_append_cons hc hc₂] at hsplit
    obtain ⟨rfl, rfl⟩ := List.cons.inj hsplit
    subst ha' hb'
    rw [List.append_assoc, List.cons_append, splitn_append_cons hc hc₂]
    exact ⟨_, _, _, _, rfl, rfl, (trim_append hw).symm⟩

theorem IsEvent.of_trimEnd (hat : line.head? = some '@') (h : IsEvent (trimEnd line) event) :
    IsEvent line event := by
  obtain ⟨head, hex, hsplit, h⟩ := h
  exact ⟨head, hex, splitCaptureLine_trimEnd hat hsplit, h⟩

/-- A line with an ordinal starts as events do. -/
theorem HasOrdinal.head?_eq (h : HasOrdinal line ordinal) : line.head? = some '@' := by
  obtain ⟨head, hex, hsplit, hhead, -⟩ := h
  by_contra hat
  rw [splitCaptureLine, if_neg hat, splitPrefix] at hsplit
  obtain ⟨channel, hchannel, hsome⟩ := List.exists_of_findSome?_eq_some hsplit
  obtain ⟨rest, -, hrest⟩ := Option.map_eq_some_iff.1 hsome
  have hfirst : ∀ c ∈ ["N>", "N<", "M<", "O<", "O>", "D<"], c.toList.head? ≠ some '@' := by decide
  exact hfirst channel hchannel (by rw [(Prod.mk.inj hrest).1, hhead])

/-! ### Events -/

/-- What an event adds. -/
def Reading.take (r : Reading) (event : CapturedEvent) : Reading :=
  { r with
    sawData := true
    expectedOrdinal := r.expectedOrdinal + 1
    previousOffset := event.1
    channels := insert event.2.1 r.channels
    matrix := r.matrix.record event.2
    eventCount := r.eventCount + 1 }

/-- An event of a capture. -/
structure Valid (event : CapturedEvent) : Prop where
  /-- The offset has 64 bits. -/
  offset : event.1 < 2 ^ 64
  /-- The channel is one of a capture. -/
  channel : event.2.1 ∈ captureChannels
  /-- An incoming meter frame has a token. -/
  token : event.2.1 = "M<" → 4 ≤ event.2.2.length

theorem parseOffset_lt {field : List Char} {offset : ℕ} (h : parseOffset field = some offset) :
    offset < 2 ^ 64 := by
  obtain ⟨digits, -, hdigits⟩ := Option.bind_eq_some_iff.1 h
  exact parseUInt_lt hdigits

/-- When the line of an event is accepted, and what it adds. -/
theorem readEvent_eq_ok : r.readEvent t false line = .ok r' ↔
    ∃ event, IsEvent line event ∧ HasOrdinal line r.expectedOrdinal ∧ Valid event ∧
      r.previousOffset ≤ event.1 ∧ r' = r.take event := by
  constructor
  · intro h
    simp only [Reading.readEvent, Except.bind_eq_ok, Except.pure_eq_ok, okOr_eq_ok,
      mapError_eq_ok, rejectIf_eq_ok, Prod.exists] at h
    obtain ⟨head, hex, hsplit, -, hhead, ordinal, hordinal, -, heq, offset, hoffset, -, hle,
      channel, hchannel, -, hvalid, bytes, hbytes, -, htoken, rfl⟩ := h
    obtain ⟨word, hword, rfl⟩ := Option.map_eq_some_iff.1 hchannel
    obtain ⟨field, hfield, hparsed⟩ := Option.bind_eq_some_iff.1 hoffset
    refine ⟨(offset, String.ofList word, bytes), ⟨head, hex, hsplit, hoffset, ?_, hbytes⟩,
      ⟨head, hex, hsplit, not_not.1 hhead, ?_⟩, ⟨parseOffset_lt hparsed, not_not.1 hvalid, ?_⟩,
      not_lt.1 hle, rfl⟩
    · rw [hword, String.toList_ofList]
    · rw [hordinal, not_not.1 heq]
    · exact fun h => not_lt.1 fun hlt => htoken ⟨h, hlt⟩
  · rintro ⟨event, ⟨head, hex, hsplit, hoffset, hchannel, hbytes⟩,
      ⟨head', hex', hsplit', hhead, hordinal⟩, hvalid, hle, rfl⟩
    obtain ⟨rfl, rfl⟩ := Prod.mk.inj (Option.some.inj (hsplit.symm.trans hsplit'))
    simp only [Reading.readEvent, Except.bind_eq_ok, Except.pure_eq_ok, okOr_eq_ok,
      mapError_eq_ok, rejectIf_eq_ok, Prod.exists]
    refine ⟨head, hex, hsplit, ⟨⟩, not_not.2 hhead, r.expectedOrdinal, hordinal, ⟨⟩,
      not_not.2 rfl, event.1, hoffset, ⟨⟩, not_lt.2 hle, event.2.1, ?_, ⟨⟩,
      not_not.2 hvalid.channel, event.2.2, hbytes, ⟨⟩, ?_, rfl⟩
    · rw [hchannel, Option.map_some, String.ofList_toList]
    · exact fun h => absurd (hvalid.token h.1) (not_le.2 h.2)

theorem readMetadata_keeps {rest : List Char} (h : r.readMetadata t false line rest = .ok r') :
    r'.eventCount = r.eventCount ∧ r'.previousOffset = r.previousOffset := by
  rw [Reading.readMetadata] at h
  obtain ⟨-, -, h⟩ := Except.bind_eq_ok.1 h
  cases hsplit : splitOnce ':' (trim rest) with
  | none =>
    rw [hsplit] at h
    cases h
    exact ⟨rfl, rfl⟩
  | some pair =>
    rw [hsplit] at h
    obtain ⟨-, -, h⟩ := Except.bind_eq_ok.1 h
    split_ifs at h with hversion
    · obtain ⟨-, -, h⟩ := Except.bind_eq_ok.1 h
      obtain ⟨-, -, h⟩ := Except.bind_eq_ok.1 h
      cases h
      exact ⟨rfl, rfl⟩
    · cases h
      exact ⟨rfl, rfl⟩

theorem readLine_cases (h : readLine t false r line = .ok r') :
    (line.head? ≠ some '@' ∧ r'.eventCount = r.eventCount ∧
        r'.previousOffset = r.previousOffset) ∨
      line.head? = some '@' ∧ ∃ event, IsEvent line event ∧ Valid event ∧
        r.previousOffset ≤ event.1 ∧ r' = r.take event := by
  have hat : (trimEnd line).head? = some '@' ↔ line.head? = some '@' := head?_trimEnd (by decide)
  simp only [readLine] at h
  split_ifs at h with hnil hhash
  · cases h
    refine .inl ⟨hat.not.1 ?_, rfl, rfl⟩
    rw [hnil]
    decide
  · refine .inl ⟨hat.not.1 ?_, readMetadata_keeps h⟩
    rw [hhash]
    decide
  · obtain ⟨event, hevent, hordinal, hvalid, hle, rfl⟩ := readEvent_eq_ok.1 h
    have hline := hat.1 hordinal.head?_eq
    exact .inr ⟨hline, event, hevent.of_trimEnd hline, hvalid, hle, rfl⟩

/-- The lines that are accepted are those of events, the offsets of which never decrease. -/
theorem readLines_spec {ls : List (List Char)} (h : readLines t false r ls = .ok r') :
    ∃ events, List.Forall₂ IsEvent (ls.filter fun line => line.head? = some '@') events ∧
      r'.eventCount = r.eventCount + events.length ∧ (∀ event ∈ events, Valid event) ∧
      (events.map Prod.fst).Pairwise (· ≤ ·) ∧ ∀ event ∈ events, r.previousOffset ≤ event.1 := by
  induction ls generalizing r with
  | nil =>
    cases h
    exact ⟨[], .nil, rfl, by simp, .nil, by simp⟩
  | cons line ls ih =>
    obtain ⟨r₁, hline, hrest⟩ := Except.bind_eq_ok.1 h
    obtain ⟨events, hevents, hcount, hvalid, hsorted, hfrom⟩ := ih hrest
    rcases readLine_cases hline with ⟨hno, hsame, hoffset⟩ | ⟨hat, event, hevent, hok, hle, rfl⟩
    · rw [List.filter_cons_of_neg (by simpa using hno)]
      refine ⟨events, hevents, by rw [hcount, hsame], hvalid, hsorted, ?_⟩
      rwa [hoffset] at hfrom
    · rw [List.filter_cons_of_pos (by simpa using hat)]
      refine ⟨event :: events, .cons hevent hevents, ?_, List.forall_mem_cons.2 ⟨hok, hvalid⟩,
        ?_, List.forall_mem_cons.2 ⟨hle, fun e he => hle.trans (hfrom e he)⟩⟩
      · have htake : (r.take event).eventCount = r.eventCount + 1 := rfl
        rw [hcount, htake, List.length_cons]
        omega
      · rw [List.map_cons, List.pairwise_cons]
        exact ⟨List.forall_mem_map.2 hfrom, hsorted⟩

/-! ### Captures that are accepted -/

/-- The events of a capture that is accepted. -/
structure Events (text : List Char) (events : List CapturedEvent) : Prop where
  /-- Each line of an event is read as it. -/
  lines : List.Forall₂ IsEvent (eventLines text) events
  /-- The events are valid. -/
  valid : ∀ event ∈ events, Valid event
  /-- They are in the order of time. -/
  sorted : (events.map Prod.fst).Pairwise (· ≤ ·)

theorem Events.of_parse {summary : CaptureSummary}
    (h : parseCaptureStructure t text = .ok summary) :
    ∃ events, Events text events ∧ summary.eventCount = events.length := by
  simp only [parseCaptureStructure, parseCaptureWithPolicy, Except.bind_eq_ok] at h
  obtain ⟨r, hr, -, -, -, -, -, -, -, -, -, -, -, -, rfl⟩ := h
  obtain ⟨events, hlines, hcount, hvalid, hsorted, -⟩ := readLines_spec hr
  exact ⟨events, ⟨hlines, hvalid, hsorted⟩, by rw [hcount]; exact Nat.zero_add _⟩

theorem mapM_eq_ok {α : Type} {f : List Char → Except Failure α} {g : CapturedEvent → α}
    {ls : List (List Char)} {events : List CapturedEvent} (h : List.Forall₂ IsEvent ls events)
    (hf : ∀ event ∈ events, ∀ line, IsEvent line event → f line = .ok (g event)) :
    ls.mapM f = .ok (events.map g) := by
  induction h with
  | nil => rfl
  | cons hline _ ih =>
    rw [List.forall_mem_cons] at hf
    rw [List.mapM_cons, hf.1 _ hline, ih hf.2]
    rfl

theorem contractEvent_eq_ok (h : IsEvent line event) : contractEvent t line = .ok event.2 := by
  obtain ⟨head, hex, hsplit, -, hchannel, hbytes⟩ := h
  rw [contractEvent, hsplit]
  simp only [okOr, Option.elim, bind, Except.bind, hchannel, hbytes, pure, Except.pure,
    String.ofList_toList]

theorem partialEvent_eq_ok (h : IsEvent line event) (hmerge : event.2.1 ∈ mergeChannels) :
    partialEvent t base line = .ok (saturatingAdd base event.1, event.2) := by
  obtain ⟨head, hex, hsplit, hoffset, hchannel, hbytes⟩ := h
  rw [partialEvent, hsplit]
  simp only [okOr, Option.elim, bind, Except.bind, hoffset, hchannel, mergeChannel, hbytes, pure,
    Except.pure, String.ofList_toList, hmerge, if_true]

theorem contractEvents_eq_ok {summary : CaptureSummary} {events : List CapturedEvent}
    (h : parseCaptureStructure t text = .ok summary) (hevents : Events text events) :
    contractEvents t text = .ok (events.map Prod.snd) := by
  rw [contractEvents, h]
  exact mapM_eq_ok hevents.lines fun event _ line hline => contractEvent_eq_ok hline

theorem mergePartialEvents_eq_ok {summary : CaptureSummary} {events : List CapturedEvent}
    (h : parseCaptureStructure t text = .ok summary) (hevents : Events text events)
    (hmerge : ∀ event ∈ events, event.2.1 ∈ mergeChannels) :
    mergePartialEvents t text base =
      .ok (events.map fun event => (saturatingAdd base event.1, event.2)) := by
  rw [mergePartialEvents, h]
  exact mapM_eq_ok hevents.lines fun event he line hline =>
    partialEvent_eq_ok hline (hmerge event he)

end Wingcapture

end LibWing
