import LibWing.Tools.Entries

/-!
# What has been sanitized

A capture that is sanitized has the lines it had, with the payloads redacted by streams; and what is
written is read back as it is: sanitizing it once more changes nothing.

* `redactEvents_clean` : events in which nothing is found are redacted to themselves;
* `IsHead` : what stands in front of a payload; `isHead_of_split` : it is split off again;
* `Rewritten.kept` : a line that is rewritten is read back as it was written;
* `sanitizeText_eq_ok` : what is written, if anything is;
* `sanitizeText_sanitized`, `sanitizeText_accepts` : the sanitizer is sound, stable and complete.
-/

namespace LibWing

namespace Redact

open Stateful

variable {events events' : List Event} {bytes : List UInt8}

/-! ### Nothing to redact -/

theorem redactBytes_clean (h : findMatches bytes = []) : redactBytes bytes = .ok bytes := by
  rw [redactBytes, redactPasses, if_pos h]

theorem scan_eq_nil : scan bytes = [] ↔ findMatches bytes = [] := List.map_eq_nil_iff

theorem eq_of_flatMap_eq {α β : Type} {f g : α → List β} {l : List α}
    (hlength : ∀ a ∈ l, (f a).length = (g a).length) (h : l.flatMap f = l.flatMap g) :
    ∀ a ∈ l, f a = g a := by
  induction l with
  | nil => simp
  | cons a l ih =>
    obtain ⟨ha, hl⟩ := List.forall_mem_cons.1 hlength
    rw [List.flatMap_cons, List.flatMap_cons] at h
    obtain ⟨hhead, htail⟩ := List.append_inj h ha
    exact List.forall_mem_cons.2 ⟨hhead, ih hl htail⟩

theorem length_payload_of_shape (h : shape events' = shape events) (i : ℕ) :
    (payload events' i).length = (payload events i).length := by
  have hi : (shape events')[i]? = (shape events)[i]? := by rw [h]
  rw [shape, shape, List.getElem?_map, List.getElem?_map] at hi
  rw [payload, payload]
  cases hevent : events'[i]? <;> cases hevent' : events[i]? <;> simp_all

theorem eq_of_shape (h : shape events' = shape events)
    (hpayload : ∀ i, payload events' i = payload events i) :
    events' = events := by
  refine List.ext_getElem? fun i => ?_
  have hi : (shape events')[i]? = (shape events)[i]? := by rw [h]
  have hbytes := hpayload i
  rw [shape, shape, List.getElem?_map, List.getElem?_map] at hi
  rw [payload, payload] at hbytes
  cases hevent : events'[i]? <;> cases hevent' : events[i]? <;> simp_all [Prod.ext_iff]

/-- **Nothing to redact**: events in which nothing is found stay as they are. -/
theorem redactEvents_clean (h : scanEvents events = []) :
    outcome redactEvents events = (.ok ⟨⟩, events) := by
  have hclean : ∀ indices ∈ groups events, redactBytes (gather events indices) =
      .ok (gather events indices) :=
    fun indices hindices =>
      redactBytes_clean (scan_eq_nil.1 (List.flatMap_eq_nil_iff.1 h indices hindices))
  obtain ⟨hnodup, hbound⟩ := @groupsFrom_indices events [] [] 0 List.nodup_nil
    fun i hi => absurd hi List.not_mem_nil
  have hrange : ∀ i ∈ (groups events).flatten, i < events.length := fun i hi => by
    have hend := (hbound i hi).2
    omega
  have hspec : Triple (· = events) redactEvents
      (fun _ events' => Redacted (groups events) events events')
      (fun e _ => ∃ indices ∈ groups events, redactBytes (gather events indices) = .error e) := by
    refine Triple.bind_get fun s hs => ?_
    subst hs
    exact redactGroups_spec hnodup hrange
  rcases hspec.outcome (rfl : events = events) with
    ⟨_, events', hok, hredacted⟩ | ⟨e, _, -, indices, hindices, herror⟩
  · -- The groups keep their bytes, and the cut between payloads is the same.
    have hsame : events' = events := by
      refine eq_of_shape hredacted.shape fun i => ?_
      by_cases hi : i ∈ (groups events).flatten
      · obtain ⟨indices, hindices, hmem⟩ := List.mem_flatten.1 hi
        have hgather := (hredacted.redacted indices hindices).symm.trans (hclean indices hindices)
        exact eq_of_flatMap_eq (fun j _ => length_payload_of_shape hredacted.shape j)
          (Except.ok.inj hgather) i hmem
      · exact hredacted.frame i hi
    rw [hok, hsame]
  · rw [hclean indices hindices] at herror
    cases herror

end Redact

namespace Wingcapture

open Text Redact Stateful

variable {t : Texts} {text out line head hex : List Char} {bytes : List UInt8}

/-! ### What stands in front of a payload -/

/-- What stands in front of a payload is split off again, whatever the payload. -/
structure IsHead (head : List Char) : Prop where
  /-- It does not begin a comment. -/
  first : head.head? ≠ some '#'
  /-- It has no blanks but spaces. -/
  plain : ∀ c ∈ head, c = ' ' ∨ isWhitespace c = false
  /-- The payload is found behind it. -/
  split : ∀ hex, trim hex = hex →
    ∃ hex', splitCaptureLine (head ++ ' ' :: hex) = some (head, hex') ∧ trim hex' = hex
  /-- The blank in front of an empty payload is lost. -/
  bare : ∃ hex', splitCaptureLine head = some (head, hex') ∧ trim hex' = []

theorem splitn_eq_cons {p : Char → Bool} {s a b c : List Char} {fields : List (List Char)}
    (h : splitn p 4 s = a :: b :: c :: fields) :
    ((∀ x ∈ a, p x = false) ∧ (∀ x ∈ b, p x = false) ∧ ∀ x ∈ c, p x = false) ∧
      ∃ x y, p x = true ∧ p y = true ∧
        (fields = [] ∧ s = a ++ x :: (b ++ y :: c) ∨
          ∃ z rest, p z = true ∧ fields = [rest] ∧ s = a ++ x :: (b ++ y :: (c ++ z :: rest))) := by
  rcases splitn_cases p s with h₀ | ⟨a', x, s₁, rfl, ha, hx⟩
  · rw [splitn_of_forall h₀] at h
    cases h
  rw [splitn_append_cons ha hx] at h
  obtain ⟨rfl, hrest⟩ := List.cons.inj h
  rcases splitn_cases p s₁ with h₁ | ⟨b', y, s₂, rfl, hb, hy⟩
  · rw [splitn_of_forall h₁] at hrest
    cases hrest
  rw [splitn_append_cons hb hy] at hrest
  obtain ⟨rfl, htail⟩ := List.cons.inj hrest
  rcases splitn_cases p s₂ with h₂ | ⟨c', z, rest, rfl, hc, hz⟩
  · rw [splitn_of_forall h₂] at htail
    obtain ⟨rfl, rfl⟩ := List.cons.inj htail
    exact ⟨⟨ha, hb, h₂⟩, x, y, hx, hy, .inl ⟨rfl, rfl⟩⟩
  · rw [splitn_append_cons hc hz] at htail
    obtain ⟨rfl, rfl⟩ := List.cons.inj htail
    exact ⟨⟨ha, hb, hc⟩, x, y, hx, hy, .inr ⟨z, rest, hz, rfl, rfl⟩⟩

theorem isHead_of_words {a b c : List Char} (hat : a.head? = some '@')
    (ha : ∀ x ∈ a, isWhitespace x = false)
    (hb : ∀ x ∈ b, isWhitespace x = false) (hc : ∀ x ∈ c, isWhitespace x = false) :
    IsHead (a ++ ' ' :: (b ++ ' ' :: c)) := by
  have hfirst : ∀ rest, (a ++ rest).head? = some '@' := fun rest => by
    rw [List.head?_append, hat]
    rfl
  constructor
  · rw [hfirst]
    decide
  · intro x hx
    simp only [List.mem_append, List.mem_cons] at hx
    rcases hx with hx | rfl | hx | rfl | hx
    · exact .inr (ha x hx)
    · exact .inl rfl
    · exact .inr (hb x hx)
    · exact .inl rfl
    · exact .inr (hc x hx)
  · intro hex hhex
    refine ⟨trim hex, (splitCaptureLine_at ?_).2 ⟨a, b, c, [hex], ?_, rfl, rfl⟩, by rw [hhex, hhex]⟩
    · rw [List.append_assoc, hfirst]
    · rw [List.append_assoc, List.cons_append, List.append_assoc, List.cons_append,
        splitn_append_cons ha (by decide), splitn_append_cons hb (by decide),
        splitn_append_cons hc (by decide), splitn]
  · refine ⟨[], (splitCaptureLine_at (hfirst _)).2 ⟨a, b, c, [], ?_, rfl, rfl⟩, rfl⟩
    rw [splitn_append_cons ha (by decide), splitn_append_cons hb (by decide), splitn_of_forall hc]

/-- The channels in front of a payload without its time. -/
def bareChannels : List (List Char) :=
  [['N', '>'], ['N', '<'], ['M', '<'], ['O', '<'], ['O', '>'], ['D', '<']]

theorem splitPrefix_eq_some (h : splitPrefix line = some (head, hex)) :
    head ∈ bareChannels ∧ line = head ++ hex := by
  obtain ⟨channel, hchannel, hsome⟩ := List.exists_of_findSome?_eq_some h
  obtain ⟨rest, hrest, heq⟩ := Option.map_eq_some_iff.1 hsome
  obtain ⟨rfl, rfl⟩ := Prod.mk.inj heq
  have hmem : ∀ channel ∈ ["N>", "N<", "M<", "O<", "O>", "D<"], channel.toList ∈ bareChannels :=
    List.all_iff_forall_prop.1 (by decide +kernel)
  refine ⟨hmem channel hchannel, ?_⟩
  rw [stripPrefix] at hrest
  split_ifs at hrest with hprefix
  obtain ⟨tail, htail⟩ := List.isPrefixOf_iff_prefix.1 hprefix
  rw [← htail, List.drop_left] at hrest
  rw [← htail, Option.some.inj hrest]

theorem isHead_of_channel (h : head ∈ bareChannels) : IsHead head := by
  have hsplit : ∀ rest, splitCaptureLine (head ++ rest) = some (head, rest) := by
    intro rest
    simp only [bareChannels, List.mem_cons, List.not_mem_nil, or_false] at h
    rcases h with rfl | rfl | rfl | rfl | rfl | rfl <;> rfl
  have hplain : ∀ head ∈ bareChannels,
      head.head? ≠ some '#' ∧ head.all (fun c => !isWhitespace c) = true := by
    decide +kernel
  refine ⟨(hplain head h).1, fun c hc => .inr ?_,
    fun hex hhex => ⟨' ' :: hex, hsplit _, ?_⟩, [], ?_, rfl⟩
  · simpa using List.all_eq_true.1 (hplain head h).2 c hc
  · have hblank : trim (' ' :: hex) = trim hex := by
      rw [trim, trim, List.dropWhile_cons_of_pos (by decide)]
    rw [hblank, hhex]
  · have hbare := hsplit []
    rwa [List.append_nil] at hbare

/-- **What was split off is a head**. -/
theorem isHead_of_split (h : splitCaptureLine line = some (head, hex)) : IsHead head := by
  by_cases hat : line.head? = some '@'
  · obtain ⟨a, b, c, fields, hsplit, rfl, -⟩ := (splitCaptureLine_at hat).1 h
    obtain ⟨⟨ha, hb, hc⟩, x, y, hx, hy, hline⟩ := splitn_eq_cons hsplit
    refine isHead_of_words ?_ ha hb hc
    have hne : a ≠ [] := by
      rintro rfl
      have hblank : some x = some '@' := by
        rcases hline with ⟨-, rfl⟩ | ⟨z, rest, -, -, rfl⟩ <;> exact hat
      rw [Option.some.inj hblank] at hx
      exact absurd hx (by decide)
    obtain ⟨c', a, rfl⟩ := List.exists_cons_of_ne_nil hne
    rcases hline with ⟨-, rfl⟩ | ⟨z, rest, -, -, rfl⟩ <;> exact hat
  · rw [splitCaptureLine, if_neg hat] at h
    exact isHead_of_channel (splitPrefix_eq_some h).1

/-! ### Blanks at the end -/

theorem last_of_trimEnd (h : trimEnd line = line) (hne : line ≠ []) :
    isWhitespace (line.getLast hne) = false := by
  have hlast := List.rdropWhile_eq_self_iff.1 h hne
  simpa using hlast

theorem mem_trim {s : List Char} {c : Char} (hc : c ∈ s) (hplain : isWhitespace c = false) :
    c ∈ trim s := by
  obtain ⟨w, hs, hw⟩ := exists_trimEnd_append (s.dropWhile isWhitespace)
  have hdrop : c ∈ s.dropWhile isWhitespace := by
    rw [← @List.takeWhile_append_dropWhile _ isWhitespace s, List.mem_append] at hc
    refine hc.resolve_left fun hmem => ?_
    rw [List.mem_takeWhile_imp hmem] at hplain
    cases hplain
  rw [hs, List.mem_append] at hdrop
  refine hdrop.resolve_right fun hmem => ?_
  rw [hw c hmem] at hplain
  cases hplain

theorem compact_of_decodeHex {s : List Char} (h : decodeHex s = .ok []) : compact s = [] := by
  rw [decodeHex] at h
  split_ifs at h with heven
  rw [decodePairs] at h
  have hcount : byteLength (compact s) / 2 = 0 := by
    cases hn : byteLength (compact s) / 2 with
    | zero => rfl
    | succ n =>
      -- A pair of digits is a byte.
      rw [hn, List.range_succ_eq_map, List.mapM_cons, Except.bind_eq_ok] at h
      obtain ⟨byte, -, h⟩ := h
      obtain ⟨bytes, -, h⟩ := Except.bind_eq_ok.1 h
      cases h
  cases hcompact : compact s with
  | nil => rfl
  | cons c rest =>
    rw [hcompact, byteLength_cons] at heven hcount
    have hsize := c.utf8Size_pos
    omega

theorem trimEnd_head (h : splitCaptureLine line = some (head, hex)) (hline : trimEnd line = line)
    (hbytes : decodeHex (trim hex) = .ok []) : trimEnd head = head := by
  have hnone : ∀ c ∈ trim hex, isWhitespace c = true := fun c hc => by
    by_contra hplain
    have hmem : c ∈ compact (trim hex) := List.mem_filter.2 ⟨hc, by simpa using hplain⟩
    rw [compact_of_decodeHex hbytes] at hmem
    cases hmem
  refine trimEnd_of_last fun hne => ?_
  by_cases hat : line.head? = some '@'
  · obtain ⟨a, b, c, fields, hsplit, rfl, rfl⟩ := (splitCaptureLine_at hat).1 h
    obtain ⟨⟨-, -, hc⟩, x, y, -, hy, ⟨rfl, rfl⟩ | ⟨z, rest, hz, rfl, rfl⟩⟩ := splitn_eq_cons hsplit
    · -- Without a payload the line ends with the channel, which is not empty.
      have hlast := last_of_trimEnd hline (by simp)
      cases c with
      | nil =>
        simp [hy] at hlast
      | cons d c =>
        refine hc _ ?_
        simp
    · -- The payload would end the line, and is not white space.
      exfalso
      have hlast := last_of_trimEnd hline (by simp)
      cases rest with
      | nil => simp [hz] at hlast
      | cons d rest =>
        have hmem : ∀ hne, (a ++ x :: (b ++ y :: (c ++ z :: d :: rest))).getLast hne ∈
            d :: rest := by
          simp
        have htrim := mem_trim (mem_trim (hmem (by simp)) hlast) hlast
        rw [hnone _ htrim] at hlast
        cases hlast
  · rw [splitCaptureLine, if_neg hat] at h
    have hchannel := (splitPrefix_eq_some h).1
    have hlast : ∀ head ∈ bareChannels, ∀ hne : head ≠ [], isWhitespace (head.getLast hne) =
        false := by
      decide +kernel
    exact hlast head hchannel hne

/-! ### What is read back -/

theorem ReadsAs.ne_nil {e : Entry} (h : ReadsAs line e) : line ≠ [] := by
  rintro rfl
  cases h with
  | payload _ hsplit => cases hsplit

/-- A line that is written as it will be read. -/
structure Kept (e : Entry) : Prop where
  /-- Its text is read as it. -/
  reads : ReadsAs (trimEnd e.render) e
  /-- The text is one line. -/
  noBreak : '\n' ∉ e.render
  /-- It does not end in a carriage return. -/
  stripCr_eq : stripCr e.render = e.render
  /-- As a comment it has nothing to redact. -/
  clean : CleanComment e.render

theorem stripCr_of_last (h : ∀ c, line.getLast? = some c → c ≠ '\r') : stripCr line = line := by
  rw [stripCr, if_neg]
  exact fun hlast => h '\r' hlast rfl

theorem stripCr_of_trimEnd (h : trimEnd line = line) : stripCr line = line := by
  refine stripCr_of_last fun c hc => ?_
  rintro rfl
  have hne : line ≠ [] := by
    rintro rfl
    cases hc
  have hplain := last_of_trimEnd h hne
  rw [List.getLast?_eq_some_getLast hne] at hc
  rw [Option.some.inj hc] at hplain
  exact absurd hplain (by decide)

theorem kept_sanitizer : Kept .sanitizer := by
  have htrim : trimEnd sanitizerLine = sanitizerLine := by decide +kernel
  refine ⟨?_, by decide +kernel, stripCr_of_trimEnd htrim, cleanComment_sanitizerLine⟩
  rw [Entry.render, htrim]
  exact readsAs_sanitizerLine

theorem encodeHex_plain {c : Char} (h : c ∈ encodeHex bytes) : isWhitespace c = false := by
  obtain ⟨v, hv⟩ := Option.isSome_iff_exists.1 ((hexText_encodeHex bytes).2 c h)
  exact (hexDigits_spec c (mem_hexDigits hv)).2.2.1

theorem kept_payload {word : List Char} (hhead : IsHead head)
    (hempty : bytes = [] → trimEnd head = head)
    (hword : (splitWhitespace head).getLast? = some word) :
    Kept (.payload head (String.ofList word, bytes)) := by
  have hne : head ≠ [] := by
    rintro rfl
    cases hword
  have hfirst : ∀ rest, (head ++ rest).head? ≠ some '#' := fun rest => by
    rw [List.head?_append_of_ne_nil _ hne]
    exact hhead.first
  have hplain : ∀ c ∈ head ++ ' ' :: encodeHex bytes, c = ' ' ∨ isWhitespace c = false := by
    intro c hc
    rcases List.mem_append.1 hc with hc | hc
    · exact hhead.plain c hc
    · rcases List.mem_cons.1 hc with rfl | hc
      · exact .inl rfl
      · exact .inr (encodeHex_plain hc)
  -- There is no white space but blanks in the line.
  have hno : ∀ c, isWhitespace c = true → c ≠ ' ' → c ∉ head ++ ' ' :: encodeHex bytes := by
    intro c hblank hspace hc
    rcases hplain c hc with rfl | hc
    · exact hspace rfl
    · rw [hc] at hblank
      cases hblank
  refine ⟨?_, hno '\n' (by decide) (by decide), ?_, fun hhash => absurd hhash (hfirst _)⟩
  · rw [Entry.render]
    cases bytes with
    | nil =>
      -- Without bytes, the blank behind the head is trimmed.
      obtain ⟨hex', hsplit, hhex⟩ := hhead.bare
      have htrim : trimEnd (head ++ ' ' :: encodeHex []) = head :=
        (trimEnd_append fun c hc => by rw [List.mem_singleton.1 hc]; decide).trans (hempty rfl)
      rw [htrim]
      exact .payload hhead.first hsplit (by rw [hhex]; rfl) hword
    | cons byte bytes =>
      -- The last character is a digit.
      have htrim : trimEnd (head ++ ' ' :: encodeHex (byte :: bytes)) =
          head ++ ' ' :: encodeHex (byte :: bytes) := by
        refine trimEnd_of_last fun hne => ?_
        refine @encodeHex_plain (byte :: bytes) _ ?_
        simp
      obtain ⟨hex', hsplit, hhex⟩ := hhead.split (encodeHex (byte :: bytes))
        (trim_of_forall fun c hc => encodeHex_plain hc)
      rw [htrim]
      exact .payload (hfirst _) hsplit (by rw [hhex, decodeHex_encodeHex]) hword
  · refine stripCr_of_last fun c hc => ?_
    rintro rfl
    exact hno '\r' (by decide) (by decide) (List.mem_of_getLast? hc)

/-- **A rewritten line** is read back as it was written. -/
theorem Rewritten.kept {e e' : Entry} (h : Rewritten e e') (hreads : ReadsAs line e)
    (hline : trimEnd line = line) (hbreak : '\n' ∉ line) : Kept e' := by
  cases h with
  | sanitizer => exact kept_sanitizer
  | comment =>
    cases hreads with
    | comment hclean hnames =>
      refine ⟨?_, hbreak, stripCr_of_trimEnd hline, fun _ => hclean⟩
      rw [Entry.render, hline]
      exact .comment hclean hnames
  | payload head channel hlength =>
    cases hreads with
    | payload hhash hsplit hbytes hword =>
      refine kept_payload (isHead_of_split hsplit) (fun hnil => trimEnd_head hsplit hline ?_) hword
      rw [hnil, List.length_nil, eq_comm, List.length_eq_zero_iff] at hlength
      rw [hbytes, hlength]

theorem lines_unlines_of_stripCr {ls : List (List Char)}
    (h : ∀ line ∈ ls, '\n' ∉ line ∧ stripCr line = line) :
    lines (unlines ls) = ls := by
  induction ls with
  | nil => rfl
  | cons line ls ih =>
    obtain ⟨⟨hbreak, hreturn⟩, hls⟩ := List.forall_mem_cons.1 h
    rw [unlines_cons, lines_append hbreak, hreturn, ih hls]

theorem reads_unlines {entries : List Entry} (h : ∀ e ∈ entries, Kept e) :
    Reads (unlines (entries.map Entry.render)) entries := by
  rw [Reads, lines_unlines_of_stripCr
    (List.forall_mem_map.2 fun e he => ⟨(h e he).noBreak, (h e he).stripCr_eq⟩),
    List.map_map, List.filter_eq_self.2, List.forall₂_map_left_iff]
  · exact List.forall₂_same.2 fun e he => (h e he).reads
  · intro line hline
    obtain ⟨e, he, rfl⟩ := List.mem_map.1 hline
    exact decide_eq_true (h e he).reads.ne_nil

theorem linesFrom_noBreak {s current : List Char} (hcurrent : '\n' ∉ current) :
    ∀ line ∈ linesFrom current s, '\n' ∉ line := by
  induction s generalizing current with
  | nil =>
    rw [linesFrom]
    split_ifs
    · simp
    · simpa using hcurrent
  | cons c s ih =>
    rw [linesFrom]
    split_ifs with hc
    · refine List.forall_mem_cons.2 ⟨?_, ih List.not_mem_nil⟩
      rw [stripCr]
      split_ifs
      · exact fun hmem => hcurrent (List.mem_of_mem_dropLast hmem)
      · exact hcurrent
    · exact ih (by simp [hcurrent, Ne.symm hc])

theorem kept_of_reads {entries entries' : List Entry} (hreads : Reads text entries)
    (h : List.Forall₂ Rewritten entries entries') : ∀ e ∈ marked entries', Kept e := by
  have htrimmed : ∀ line ∈ ((lines text).map trimEnd).filter (· ≠ []),
      trimEnd line = line ∧ '\n' ∉ line := by
    intro line hline
    obtain ⟨raw, hraw, rfl⟩ := List.mem_map.1 (List.mem_filter.1 hline).1
    refine ⟨List.rdropWhile_idempotent _ _, fun hmem => ?_⟩
    obtain ⟨w, hs, -⟩ := exists_trimEnd_append raw
    refine linesFrom_noBreak List.not_mem_nil raw hraw ?_
    rw [hs]
    exact List.mem_append_left _ hmem
  have hkept : ∀ e ∈ entries', Kept e := by
    rw [Reads] at hreads
    generalize ((lines text).map trimEnd).filter (· ≠ []) = ls at hreads htrimmed
    induction h generalizing ls with
    | nil => simp
    | cons he _ ih =>
      cases hreads with
      | cons hline hrest =>
        obtain ⟨⟨hend, hbreak⟩, hls⟩ := List.forall_mem_cons.1 htrimmed
        exact List.forall_mem_cons.2 ⟨he.kept hline hend hbreak, ih _ hrest hls⟩
  intro e he
  rw [marked] at he
  split_ifs at he
  · exact hkept e he
  · rcases List.mem_cons.1 he with rfl | he
    · exact kept_sanitizer
    · exact hkept e he

/-! ### Sanitizing -/

theorem eq_of_rewritten {entries a b : List Entry} (ha : List.Forall₂ Rewritten entries a)
    (hb : List.Forall₂ Rewritten entries b) (hevents : entryEvents a = entryEvents b) : a = b := by
  induction ha generalizing b with
  | nil =>
    cases hb
    rfl
  | cons he _ ih =>
    cases hb with
    | cons he' hrest =>
      cases he with
      | sanitizer =>
        cases he'
        rw [ih hrest hevents]
      | comment line =>
        cases he'
        rw [ih hrest hevents]
      | payload head channel hlength =>
        cases he' with
        | payload _ _ hlength' =>
          obtain ⟨heq, hevents⟩ := List.cons.inj hevents
          rw [ih hrest hevents, heq]

/-- Lines and what becomes of them. -/
structure Redrawn (entries entries' : List Entry) : Prop where
  /-- Each line is rewritten with its new payload. -/
  rewritten : List.Forall₂ Rewritten entries entries'
  /-- The payloads are those of the redaction. -/
  outcome : outcome redactEvents (entryEvents entries) = (.ok ⟨⟩, entryEvents entries')
  /-- Nothing is left to redact. -/
  clean : scanEvents (entryEvents entries') = []
  /-- The streams of each connection are redacted, however they are cut into lines. -/
  streams : List.Forall₂ Connection.RedactsTo (connections (entryEvents entries))
    (connections (entryEvents entries'))

/-- **The lines that are written**, or the stream that cannot be redacted. -/
theorem sanitizedLines_of_reads {entries : List Entry} (h : Reads text entries) :
    (∃ entries', Redrawn entries entries' ∧
        sanitizedLines t text = .ok ((marked entries').map Entry.render)) ∨
      ∃ e, (∃ s ∈ (connections (entryEvents entries)).flatMap Connection.streams,
          redactBytes s = .error e) ∧
        sanitizedLines t text = .error (.error e) := by
  have hdraft : Draft.readLines t .start (lines text) = .ok (entries.foldl Draft.add .start) :=
    readLines_eq_ok.2 ⟨entries, h, rfl⟩
  have hevents : (entries.foldl Draft.add .start).events = entryEvents entries :=
    events_foldl entries .start
  simp only [sanitizedLines, hdraft, bind, Except.bind, hevents]
  rcases redactEvents_spec.outcome (rfl : entryEvents entries = entryEvents entries) with
    ⟨_, events', hok, hshape, hclean, hstreams⟩ | ⟨e, events', herror, hstream⟩
  · obtain ⟨entries', hrewritten, rfl⟩ := exists_rewritten hshape
    refine .inl ⟨entries', ⟨hrewritten, hok, hclean, hstreams⟩, ?_⟩
    obtain ⟨added, hpayloads, hlines, hpatch⟩ := patch_foldl hrewritten .start
    have hfilled : patch ((entries.foldl Draft.add .start).payloadLines.zip (entryEvents entries'))
        (entries.foldl Draft.add .start).outLines = entries'.map Entry.render := by
      rw [hpayloads, hlines]
      exact hpatch [] rfl
    have hsaw := sawSanitizerHeader_foldl entries .start
    have hmarked : (if (entries.foldl Draft.add .start).sawSanitizerHeader then entries'.map
      Entry.render
        else sanitizerLine :: entries'.map Entry.render) = (marked entries').map Entry.render := by
      have hiff := mem_sanitizer_iff hrewritten
      rw [marked]
      by_cases hmem : .sanitizer ∈ entries'
      · rw [if_pos hmem, if_pos (hsaw.2 (.inr (hiff.2 hmem)))]
      · rw [if_neg hmem, if_neg fun hno =>
          hmem (hiff.1 ((hsaw.1 hno).resolve_left Bool.false_ne_true))]
        rfl
    -- The comments were clean when they were read.
    have hchecked : checkComments t ((marked entries').map Entry.render) = .ok ⟨⟩ := by
      refine checkComments_eq_ok.2 (List.forall_mem_map.2 fun e he => ?_)
      exact (kept_of_reads h hrewritten e he).clean
    have hscan : rejectIf (scanEvents (entryEvents entries') ≠ [])
        "sanitized streams still contain sensitive identifiers" = .ok ⟨⟩ :=
      rejectIf_eq_ok.2 (not_not.2 hclean)
    rw [hok]
    simp only [Except.mapError, hscan, hfilled, hmarked, hchecked]
    rfl
  · refine .inr ⟨e, hstream, ?_⟩
    rw [herror]
    rfl

theorem reads_of_sanitizedLines {ls : List (List Char)} (h : sanitizedLines t text = .ok ls) :
    ∃ entries, Reads text entries := by
  rw [sanitizedLines, Except.bind_eq_ok] at h
  obtain ⟨draft, hdraft, -⟩ := h
  obtain ⟨entries, hreads, -⟩ := readLines_eq_ok.1 hdraft
  exact ⟨entries, hreads⟩

theorem intercalate_eq_unlines {ls : List (List Char)} (h : ls ≠ []) :
    ['\n'].intercalate ls ++ ['\n'] = unlines ls := by
  induction ls with
  | nil => exact absurd rfl h
  | cons line ls ih =>
    cases ls with
    | nil => simp [List.intercalate]
    | cons line' ls =>
      rw [unlines_cons, ← ih (List.cons_ne_nil _ _)]
      simp [List.intercalate]

/-- The streams of lines that were redrawn could be redacted. -/
theorem Redrawn.ok {entries entries' : List Entry} (h : Redrawn entries entries') {s : List UInt8}
    (hs : s ∈ (connections (entryEvents entries)).flatMap Connection.streams) :
      ∃ out, redactBytes s = .ok out := by
  obtain ⟨c, hc, hs⟩ := List.mem_flatMap.1 hs
  obtain ⟨c', hredacts⟩ := exists_of_forall₂ h.streams hc
  exact hredacts.ok hs

theorem Redrawn.of_clean {entries : List Entry} (h : scanEvents (entryEvents entries) = []) :
    Redrawn entries entries := by
  have houtcome := redactEvents_clean h
  refine ⟨List.forall₂_same.2 fun e _ => .refl e, houtcome, h, ?_⟩
  rcases redactEvents_spec.outcome (rfl : entryEvents entries = entryEvents entries) with
    ⟨_, events', hok, -, -, hstreams⟩ | ⟨e, events', herror, -⟩
  · rw [houtcome] at hok
    cases hok
    exact hstreams
  · rw [houtcome] at herror
    cases herror

/-- What is written, if anything is. -/
theorem sanitizeText_eq_ok : sanitizeText t text = .ok out ↔
    ∃ entries entries', Reads text entries ∧ Redrawn entries entries' ∧
      out = unlines ((marked entries').map Entry.render) := by
  have hne : ∀ entries, (marked entries).map Entry.render ≠ [] := fun entries hnil => by
    have hmem := mem_marked entries
    rw [List.map_eq_nil_iff.1 hnil] at hmem
    cases hmem
  rw [sanitizeText, Except.bind_eq_ok]
  constructor
  · rintro ⟨ls, hls, h⟩
    obtain ⟨entries, hreads⟩ := reads_of_sanitizedLines hls
    rcases @sanitizedLines_of_reads t _ _ hreads with ⟨entries', hredrawn, hlines⟩ | ⟨e, -, herror⟩
    · rw [hls] at hlines
      cases hlines
      cases h
      exact ⟨entries, entries', hreads, hredrawn, intercalate_eq_unlines (hne _)⟩
    · rw [hls] at herror
      cases herror
  · rintro ⟨entries, entries', hreads, hredrawn, rfl⟩
    rcases @sanitizedLines_of_reads t _ _ hreads with
      ⟨other, hother, hlines⟩ | ⟨e, ⟨s, hs, herror⟩, -⟩
    · -- The redaction is a function, so that there is one way to rewrite the lines.
      have hevents := congrArg Prod.snd (hredrawn.outcome.symm.trans hother.outcome)
      have hsame := eq_of_rewritten hredrawn.rewritten hother.rewritten hevents
      refine ⟨_, hlines, ?_⟩
      rw [← hsame, ← intercalate_eq_unlines (hne _)]
      rfl
    · obtain ⟨redacted, hredacted⟩ := hredrawn.ok hs
      rw [hredacted] at herror
      cases herror

/-- A capture and what it was sanitized to. -/
structure Sanitized (text out : List Char) (entries entries' : List Entry) : Prop where
  /-- The text is read as its entries. -/
  reads : Reads text entries
  /-- The lines are kept, but for the payloads, … -/
  rewritten : List.Forall₂ Rewritten entries entries'
  /-- … which are redacted by streams. -/
  streams : List.Forall₂ Connection.RedactsTo (connections (entryEvents entries))
    (connections (entryEvents entries'))
  /-- Nothing is left to redact. -/
  clean : scanEvents (entryEvents entries') = []
  /-- The text is read back as it was written, with the line of the sanitizer. -/
  readsBack : Reads out (marked entries')

/-- **The sanitizer is sound and stable**: what it writes has the lines that it read, clean and
redacted, and is sanitized to itself. -/
theorem sanitizeText_sanitized (h : sanitizeText t text = .ok out) :
    (∃ entries entries', Sanitized text out entries entries') ∧ sanitizeText t out = .ok out := by
  obtain ⟨entries, entries', hreads, hredrawn, rfl⟩ := sanitizeText_eq_ok.1 h
  have hback := reads_unlines (kept_of_reads hreads hredrawn.rewritten)
  refine ⟨⟨entries, entries', hreads, hredrawn.rewritten, hredrawn.streams,
    hredrawn.clean, hback⟩, ?_⟩
  have hclean : scanEvents (entryEvents (marked entries')) = [] := by
    rw [entryEvents_marked]
    exact hredrawn.clean
  exact sanitizeText_eq_ok.2
    ⟨_, _, hback, .of_clean hclean, by rw [marked_eq_self (mem_marked entries')]⟩

/-- A capture with an address that is cut by two payloads. -/
def leakyCapture : List Char := "# scenario: one\nN< 31302e32302e\n\nN<33302e3430 \nN<".toList

/-- The address becomes one set aside for documentation, cut in the same way. -/
theorem sanitizeText_sanitized_leaky :
    ∃ out, (∃ entries entries', Sanitized leakyCapture out entries entries') ∧
      sanitizeText ⟨fun _ => "", fun _ => "", fun _ => "", fun _ => ""⟩ out = .ok out :=
  ⟨"# sanitizer: wingcapture/3\n# scenario: one\nN< 3139322e302e\nN< 322e313030\nN< \n".toList,
    sanitizeText_sanitized (by decide +kernel :
      sanitizeText ⟨fun _ => "", fun _ => "", fun _ => "", fun _ => ""⟩ leakyCapture = .ok _)⟩

/-- **The sanitizer is complete**: it refuses nothing but lines that it cannot read, which comments
with a finding are, and streams that cannot be redacted; its own two checks never fail. -/
theorem sanitizeText_accepts (t : Texts) (text : List Char) :
    (∃ out, sanitizeText t text = .ok out) ↔
      ∃ entries, Reads text entries ∧
        ∀ s ∈ (connections (entryEvents entries)).flatMap Connection.streams,
          ∃ redacted, redactBytes s = .ok redacted := by
  constructor
  · rintro ⟨out, h⟩
    obtain ⟨entries, entries', hreads, hredrawn, -⟩ := sanitizeText_eq_ok.1 h
    exact ⟨entries, hreads, fun s hs => hredrawn.ok hs⟩
  · rintro ⟨entries, hreads, hstreams⟩
    rcases @sanitizedLines_of_reads t _ _ hreads with
      ⟨entries', hredrawn, -⟩ | ⟨e, ⟨s, hs, herror⟩, -⟩
    · exact ⟨_, sanitizeText_eq_ok.2 ⟨entries, entries', hreads, hredrawn, rfl⟩⟩
    · obtain ⟨redacted, hredacted⟩ := hstreams s hs
      rw [hredacted] at herror
      cases herror

end Wingcapture

end LibWing
