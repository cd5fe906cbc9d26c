import LibWing.Tools.Reading

/-!
# What is written is read

The lines of events that `events_to_v2` writes are those of the events.  A line with an empty
payload ends in a blank, which is trimmed when the capture is read, and stays when its events are
taken.

* `bareEvents` : the lines; `eventText_eq` : the text of them;
* `eventWords_spec` : the event and the ordinal of a line, with its blank or without it;
* `readLines_bareEvents` : the lines are accepted.
-/

namespace LibWing

namespace Wingcapture

open Text

variable {t : Texts} {r : Reading} {event : CapturedEvent} {events : List CapturedEvent} {n : ℕ}

/-! ### Lines -/

/-- The ordinal of a line. -/
def ordinalWord (ordinal : ℕ) : List Char := '@' :: Nat.toDigits 10 ordinal

/-- The offset of a line. -/
def offsetWord (offset : ℕ) : List Char := '+' :: (Nat.toDigits 10 offset ++ ['u', 's'])

/-- Three words. -/
def threeWords (a b c : List Char) : List Char := a ++ ' ' :: (b ++ ' ' :: c)

/-- The words in front of the payload. -/
def eventWords (ordinal : ℕ) (event : CapturedEvent) : List Char :=
  threeWords (ordinalWord ordinal) (offsetWord event.1) event.2.1.toList

/-- The line of an event, without its end. -/
def bareEvent (ordinal : ℕ) (event : CapturedEvent) : List Char :=
  eventWords ordinal event ++ ' ' :: encodeHex event.2.2

/-- The lines of events, the first of which has the ordinal. -/
def bareEvents : ℕ → List CapturedEvent → List (List Char)
  | _, [] => []
  | ordinal, event :: events => bareEvent ordinal event :: bareEvents (ordinal + 1) events

theorem eventLine_eq (ordinal : ℕ) (event : CapturedEvent) :
    eventLine ordinal event = bareEvent ordinal event ++ ['\n'] := by
  simp [eventLine, bareEvent, eventWords, threeWords, ordinalWord, offsetWord]

theorem eventText_eq (ordinal : ℕ) (events : List CapturedEvent) :
    eventText ordinal events = unlines (bareEvents ordinal events) := by
  induction events generalizing ordinal with
  | nil => rfl
  | cons event events ih =>
    rw [eventText, bareEvents, unlines_cons, eventLine_eq, ih, List.append_assoc]
    rfl

/-- The characters of the words of an event. -/
def eventChars : List Char := ['@', '+', 'u', 's', '<', '>', 'D', 'M', 'N', 'O'] ++ hexDigits

theorem mem_eventChars_of_isDigit {c : Char} (h : c.isDigit = true) : c ∈ eventChars := by
  refine List.mem_append_right _ ?_
  have hvalue : hexValue c = some (c.toNat - 48) := by
    rw [Char.isDigit, Bool.and_eq_true, decide_eq_true_eq, decide_eq_true_eq] at h
    rw [hexValue, if_pos ⟨h.1, h.2⟩]
  exact mem_hexDigits hvalue

theorem mem_eventChars_of_toDigits {c : Char} (h : c ∈ Nat.toDigits 10 n) : c ∈ eventChars :=
  mem_eventChars_of_isDigit (Nat.isDigit_of_mem_toDigits (by decide) (by decide) h)

theorem mem_eventChars_of_encodeHex {c : Char} {bytes : List UInt8} (h : c ∈ encodeHex bytes) :
    c ∈ eventChars := by
  obtain ⟨v, hv⟩ := Option.isSome_iff_exists.1 ((hexText_encodeHex bytes).2 c h)
  exact List.mem_append_right _ (mem_hexDigits hv)

theorem eventChars_spec : ∀ c ∈ eventChars, isWhitespace c = false ∧ c ≠ '#' :=
  List.all_iff_forall_prop.1 (by decide +kernel)

/-- A word of an event. -/
structure EventWord (word : List Char) : Prop where
  /-- It is not empty. -/
  ne_nil : word ≠ []
  /-- It has only characters of an event line. -/
  chars : ∀ c ∈ word, c ∈ eventChars

theorem EventWord.plain {word : List Char} (h : EventWord word) :
    ∀ c ∈ word, isWhitespace c = false := fun c hc => (eventChars_spec c (h.chars c hc)).1

theorem eventWord_ordinal (ordinal : ℕ) : EventWord (ordinalWord ordinal) := by
  refine ⟨List.cons_ne_nil _ _, fun c hc => ?_⟩
  rcases List.mem_cons.1 hc with rfl | hc
  · decide
  · exact mem_eventChars_of_toDigits hc

theorem eventWord_offset (offset : ℕ) : EventWord (offsetWord offset) := by
  refine ⟨List.cons_ne_nil _ _, fun c hc => ?_⟩
  rcases List.mem_cons.1 hc with rfl | hc
  · decide
  · rcases List.mem_append.1 hc with hc | hc
    · exact mem_eventChars_of_toDigits hc
    · have hunit : ∀ c ∈ ['u', 's'], c ∈ eventChars :=
        List.all_iff_forall_prop.1 (by decide +kernel)
      exact hunit c hc

theorem eventWord_channel {channel : String} (h : channel ∈ captureChannels) :
    EventWord channel.toList := by
  have hall : ∀ channel ∈ captureChannels,
      channel.toList ≠ [] ∧ channel.toList.all (· ∈ eventChars) = true := by
    decide +kernel
  exact ⟨(hall channel h).1, List.all_iff_forall_prop.1 (hall channel h).2⟩

section Words

variable {a b c : List Char} (ha : EventWord a) (hb : EventWord b) (hc : EventWord c)

include ha hb hc

theorem splitWhitespace_threeWords : splitWhitespace (threeWords a b c) = [a, b, c] := by
  rw [threeWords, splitWhitespace_append_cons ha.plain ha.ne_nil (by decide),
    splitWhitespace_append_cons hb.plain hb.ne_nil (by decide),
    splitWhitespace_of_forall hc.plain hc.ne_nil]

theorem splitCaptureLine_threeWords (hat : a.head? = some '@') :
    splitCaptureLine (threeWords a b c) = some (threeWords a b c, []) := by
  have hhead : (threeWords a b c).head? = some '@' := by
    rw [threeWords, List.head?_append, hat]
    rfl
  refine (splitCaptureLine_at hhead).2 ⟨a, b, c, [], ?_, rfl, rfl⟩
  rw [threeWords, splitn_append_cons ha.plain (by decide), splitn_append_cons hb.plain (by decide),
    splitn_of_forall hc.plain]

theorem splitCaptureLine_threeWords_append (hat : a.head? = some '@') (hex : List Char) :
    splitCaptureLine (threeWords a b c ++ ' ' :: hex) = some (threeWords a b c, trim hex) := by
  have hhead : (threeWords a b c ++ ' ' :: hex).head? = some '@' := by
    rw [threeWords, List.append_assoc, List.head?_append, hat]
    rfl
  refine (splitCaptureLine_at hhead).2 ⟨a, b, c, [hex], ?_, rfl, rfl⟩
  rw [threeWords, List.append_assoc, List.cons_append, List.append_assoc, List.cons_append,
    splitn_append_cons ha.plain (by decide), splitn_append_cons hb.plain (by decide),
    splitn_append_cons hc.plain (by decide), splitn]

end Words

theorem parseOrdinal_ordinalWord (h : n < 2 ^ 64) : parseOrdinal (ordinalWord n) = some n := by
  have hdigits : stripPrefix ['@'] (ordinalWord n) = some (Nat.toDigits 10 n) :=
    stripPrefix_append (a := ['@'])
  rw [parseOrdinal, hdigits]
  exact parseUInt_toDigits h

theorem parseOffset_offsetWord (h : n < 2 ^ 64) : parseOffset (offsetWord n) = some n := by
  have hdigits : stripPrefix ['+'] (offsetWord n) = some (Nat.toDigits 10 n ++ ['u', 's']) :=
    stripPrefix_append (a := ['+'])
  rw [parseOffset, hdigits, Option.bind_some, stripSuffix_append]
  exact parseUInt_toDigits h

/-- A line that was written, with its blank or without it, has the event and the ordinal. -/
theorem eventWords_spec {line : List Char} (hvalid : Valid event) (hn : n < 2 ^ 64)
    (hline : line = eventWords n event ∧ event.2.2 = [] ∨ line = bareEvent n event) :
    IsEvent line event ∧ HasOrdinal line n := by
  have hwords := splitWhitespace_threeWords (eventWord_ordinal n) (eventWord_offset event.1)
    (eventWord_channel hvalid.channel)
  have hsplit : ∃ hex, splitCaptureLine line = some (eventWords n event, hex) ∧
      decodeHex hex = .ok event.2.2 := by
    rcases hline with ⟨rfl, hnil⟩ | rfl
    · refine ⟨[], splitCaptureLine_threeWords (eventWord_ordinal n) (eventWord_offset event.1)
        (eventWord_channel hvalid.channel) rfl, ?_⟩
      rw [hnil]
      rfl
    · refine ⟨_, splitCaptureLine_threeWords_append (eventWord_ordinal n)
        (eventWord_offset event.1) (eventWord_channel hvalid.channel) rfl _, ?_⟩
      rw [trim_of_forall fun c hc => (eventChars_spec c (mem_eventChars_of_encodeHex hc)).1]
      exact decodeHex_encodeHex event.2.2
  obtain ⟨hex, hsplit, hbytes⟩ := hsplit
  rw [← eventWords] at hwords
  constructor
  · refine ⟨_, hex, hsplit, ?_, ?_, hbytes⟩
    · rw [hwords]
      exact parseOffset_offsetWord hvalid.offset
    · rw [hwords]
      rfl
  · refine ⟨_, hex, hsplit, rfl, ?_⟩
    rw [hwords]
    exact parseOrdinal_ordinalWord hn

theorem trimEnd_bareEvent (hvalid : Valid event) :
    trimEnd (bareEvent n event) = eventWords n event ∧ event.2.2 = [] ∨
      trimEnd (bareEvent n event) = bareEvent n event := by
  have hchannel := eventWord_channel hvalid.channel
  cases hbytes : event.2.2 with
  | nil =>
    refine .inl ⟨?_, rfl⟩
    have hblank : bareEvent n event = eventWords n event ++ [' '] := by
      rw [bareEvent, hbytes]
      rfl
    rw [hblank, trimEnd_append (List.all_iff_forall_prop.1 (by decide))]
    refine trimEnd_of_last fun hne => hchannel.plain _ ?_
    simp only [eventWords, threeWords]
    rw [List.getLast_append_of_ne_nil _ (List.cons_ne_nil _ _),
      List.getLast_cons (by simp), List.getLast_append_of_ne_nil _ (List.cons_ne_nil _ _),
      List.getLast_cons hchannel.ne_nil]
    exact List.getLast_mem hchannel.ne_nil
  | cons byte bytes =>
    refine .inr (trimEnd_of_last fun hne => ?_)
    have hhex : encodeHex event.2.2 ≠ [] := by
      rw [hbytes, encodeHex_cons]
      exact List.cons_ne_nil _ _
    have hlast : (bareEvent n event).getLast hne = (encodeHex event.2.2).getLast hhex := by
      simp only [bareEvent]
      rw [List.getLast_append_of_ne_nil _ (List.cons_ne_nil _ _), List.getLast_cons hhex]
    rw [hlast]
    exact (eventChars_spec _ (mem_eventChars_of_encodeHex (List.getLast_mem hhex))).1

theorem isEvent_bareEvent (hvalid : Valid event) (hn : n < 2 ^ 64) :
    IsEvent (bareEvent n event) event :=
  (eventWords_spec hvalid hn (.inr rfl)).1

theorem readLine_bareEvent (hvalid : Valid event) (hn : r.expectedOrdinal < 2 ^ 64)
    (hle : r.previousOffset ≤ event.1) :
    readLine t false r (bareEvent r.expectedOrdinal event) = .ok (r.take event) := by
  have hline := eventWords_spec hvalid hn (trimEnd_bareEvent hvalid)
  have hhead := hline.2.head?_eq
  have hread : r.readEvent t false (trimEnd (bareEvent r.expectedOrdinal event)) =
      .ok (r.take event) :=
    readEvent_eq_ok.2 ⟨event, hline.1, hline.2, hvalid, hle, rfl⟩
  rw [readLine]
  simp only [hhead]
  rw [if_neg (by rintro h; rw [h] at hhead; cases hhead), if_neg (by decide)]
  exact hread

/-- The lines of events that were written are accepted. -/
theorem readLines_bareEvents (hvalid : ∀ event ∈ events, Valid event)
    (hsorted : (events.map Prod.fst).Pairwise (· ≤ ·))
    (hfrom : ∀ event ∈ events, r.previousOffset ≤ event.1)
    (hn : r.expectedOrdinal + events.length ≤ 2 ^ 64) :
    ∃ r', readLines t false r (bareEvents r.expectedOrdinal events) = .ok r' ∧
      r'.headers = r.headers ∧ r'.declaredVersion = r.declaredVersion ∧
      r'.eventCount = r.eventCount + events.length := by
  induction events generalizing r with
  | nil => exact ⟨r, rfl, rfl, rfl, rfl⟩
  | cons event events ih =>
    obtain ⟨hevent, hvalid⟩ := List.forall_mem_cons.1 hvalid
    obtain ⟨hle, -⟩ := List.forall_mem_cons.1 hfrom
    rw [List.map_cons, List.pairwise_cons, List.forall_mem_map] at hsorted
    rw [List.length_cons] at hn
    have hordinal : (r.take event).expectedOrdinal = r.expectedOrdinal + 1 := rfl
    have hcount : (r.take event).eventCount = r.eventCount + 1 := rfl
    obtain ⟨r', hread, hheaders, hversion, hcount'⟩ :=
      @ih (r.take event) hvalid hsorted.2 hsorted.1 (by rw [hordinal]; omega)
    refine ⟨r', ?_, hheaders, hversion, ?_⟩
    · rw [bareEvents, readLines, readLine_bareEvent hevent (by omega) hle]
      exact hread
    · rw [hcount', hcount, List.length_cons]
      omega

theorem mem_bareEvent (hvalid : Valid event) {c : Char} (hc : c ∈ bareEvent n event) :
    c = ' ' ∨ c ∈ eventChars := by
  simp only [bareEvent, eventWords, threeWords, List.append_assoc, List.cons_append,
    List.mem_append, List.mem_cons] at hc
  rcases hc with hc | hc | hc | hc | hc | hc | hc
  · exact .inr ((eventWord_ordinal n).chars c hc)
  · exact .inl hc
  · exact .inr ((eventWord_offset event.1).chars c hc)
  · exact .inl hc
  · exact .inr ((eventWord_channel hvalid.channel).chars c hc)
  · exact .inl hc
  · exact .inr (mem_eventChars_of_encodeHex hc)

/-- The lines of events are lines, and have no metadata in them. -/
theorem mem_bareEvents (hvalid : ∀ event ∈ events, Valid event) :
    ∀ line ∈ bareEvents n events, ('\n' ∉ line ∧ '\r' ∉ line) ∧ '#' ∉ line := by
  have hchars : ∀ c ∈ eventChars, (c ≠ '\n' ∧ c ≠ '\r') ∧ c ≠ '#' :=
    List.all_iff_forall_prop.1 (by decide +kernel)
  induction events generalizing n with
  | nil => simp [bareEvents]
  | cons event events ih =>
    obtain ⟨hevent, hvalid⟩ := List.forall_mem_cons.1 hvalid
    refine List.forall_mem_cons.2 ⟨?_, ih hvalid⟩
    have hall : ∀ c ∈ bareEvent n event, (c ≠ '\n' ∧ c ≠ '\r') ∧ c ≠ '#' := by
      intro c hc
      rcases mem_bareEvent hevent hc with rfl | hc
      · decide
      · exact hchars c hc
    exact ⟨⟨fun h => (hall _ h).1.1 rfl, fun h => (hall _ h).1.2 rfl⟩, fun h => (hall _ h).2 rfl⟩

theorem bareEvents_head? : ∀ line ∈ bareEvents n events, line.head? = some '@' := by
  induction events generalizing n with
  | nil => simp [bareEvents]
  | cons event events ih => exact List.forall_mem_cons.2 ⟨rfl, ih⟩

theorem bareEvents_forall₂ (hvalid : ∀ event ∈ events, Valid event)
    (hn : n + events.length ≤ 2 ^ 64) : List.Forall₂ IsEvent (bareEvents n events) events := by
  induction events generalizing n with
  | nil => exact .nil
  | cons event events ih =>
    obtain ⟨hevent, hvalid⟩ := List.forall_mem_cons.1 hvalid
    rw [List.length_cons] at hn
    exact .cons (isEvent_bareEvent hevent (by omega)) (ih hvalid (by omega))

end Wingcapture

end LibWing
