import LibWing.Tools.Written

/-!
# Merged captures

What `merge_v2` writes is read as the captures it was merged from.

* `mergeEvents_spec` : the events of all captures, the offsets of which never decrease, and stay at
  the largest once they have reached it;
* `Complete`, `accepted_unlines` : metadata that is complete, and the capture of some events with
  it;
* `buildMergedMatrix_eq` : the lines of the text, and with them its metadata;
* `mergeV2_faithful` : the text is accepted, and holds the events of all captures in order.
-/

namespace LibWing

namespace Wingcapture

open Text Redact

variable {t : Texts} {r : Reading} {event : CapturedEvent} {events : List CapturedEvent}
  {base offset : ℕ}

/-! ### Offsets -/

theorem le_saturatingAdd (h : base < 2 ^ 64) : base ≤ saturatingAdd base offset := by
  rw [saturatingAdd]
  omega

theorem saturatingAdd_lt : saturatingAdd base offset < 2 ^ 64 := by
  rw [saturatingAdd]
  omega

theorem saturatingAdd_mono {offset' : ℕ} (h : offset ≤ offset') :
    saturatingAdd base offset ≤ saturatingAdd base offset' := by
  rw [saturatingAdd, saturatingAdd]
  omega

theorem nextBase_lt (h : base < 2 ^ 64) : nextBase base events < 2 ^ 64 := by
  rw [nextBase]
  cases events.getLast? with
  | none => exact h
  | some event => exact saturatingAdd_lt

theorem le_nextBase (hsorted : (events.map Prod.fst).Pairwise (· ≤ ·))
    (hlt : ∀ event ∈ events, event.1 < 2 ^ 64) :
      ∀ event ∈ events, event.1 ≤ nextBase base events := by
  rcases List.eq_nil_or_concat events with rfl | ⟨before, last, rfl⟩
  · simp
  · intro event he
    have hlast : last.1 ≤ saturatingAdd last.1 1 := le_saturatingAdd (hlt last (by simp))
    rw [nextBase, List.concat_eq_append, List.getLast?_concat]
    rw [List.concat_eq_append, List.map_append, List.pairwise_append] at hsorted
    rw [List.concat_eq_append, List.mem_append, List.mem_singleton] at he
    rcases he with he | rfl
    · exact (hsorted.2.2 _ (List.mem_map_of_mem he) last.1 (by simp)).trans hlast
    · exact hlast

theorem base_le_nextBase (hfrom : ∀ event ∈ events, base ≤ event.1)
    (hlt : ∀ event ∈ events, event.1 < 2 ^ 64) : base ≤ nextBase base events := by
  rcases List.eq_nil_or_concat events with rfl | ⟨before, last, rfl⟩
  · exact le_rfl
  · rw [nextBase, List.concat_eq_append, List.getLast?_concat]
    exact (hfrom last (by simp)).trans (le_saturatingAdd (hlt last (by simp)))

/-! ### The events of all captures -/

/-- The events as they are based. -/
def rebase (base : ℕ) (events : List CapturedEvent) : List CapturedEvent :=
  events.map fun event => (saturatingAdd base event.1, event.2)

theorem rebase_sorted (h : (events.map Prod.fst).Pairwise (· ≤ ·)) :
    ((rebase base events).map Prod.fst).Pairwise (· ≤ ·) := by
  rw [rebase, List.map_map]
  rw [List.pairwise_map] at h ⊢
  exact h.imp fun hle => saturatingAdd_mono hle

theorem mem_rebase (h : event ∈ rebase base events) :
    ∃ offset, (offset, event.2) ∈ events ∧ event.1 = saturatingAdd base offset := by
  obtain ⟨e, he, rfl⟩ := List.mem_map.1 h
  exact ⟨e.1, he, rfl⟩

/-- A capture that is accepted, and its events. -/
def Accepted (t : Texts) (text : List Char) (events : List CapturedEvent) : Prop :=
  Events text events ∧
    ∃ summary, parseCaptureStructure t text = .ok summary ∧ summary.eventCount = events.length

/-- The events of all captures, in order. -/
theorem mergeEvents_spec {texts : List (List Char)} {all : List (List CapturedEvent)}
    (haccepted : List.Forall₂ (Accepted t) texts all)
    (hmerge : ∀ events ∈ all, ∀ event ∈ events, event.2.1 ∈ mergeChannels)
    (hbase : base < 2 ^ 64) :
    ∃ merged, mergeEvents t base texts = .ok merged ∧
      merged.map Prod.snd = (all.map (List.map Prod.snd)).flatten ∧
      (merged.map Prod.fst).Pairwise (· ≤ ·) ∧
      ∀ event ∈ merged, base ≤ event.1 ∧ Valid event ∧ event.2.1 ∈ mergeChannels := by
  induction haccepted generalizing base with
  | nil => exact ⟨[], rfl, rfl, .nil, by simp⟩
  | @cons text events texts all hhead _ ih =>
    obtain ⟨hevents, summary, hparse, -⟩ := hhead
    obtain ⟨hmerge, hmerge'⟩ := List.forall_mem_cons.1 hmerge
    have hnext : mergePartialEvents t text base = .ok (rebase base events) :=
      mergePartialEvents_eq_ok hparse hevents hmerge
    have hsorted : ((rebase base events).map Prod.fst).Pairwise (· ≤ ·) :=
      rebase_sorted hevents.sorted
    have hvalid : ∀ event ∈ rebase base events,
        base ≤ event.1 ∧ Valid event ∧ event.2.1 ∈ mergeChannels := by
      intro event he
      obtain ⟨offset, hmem, heq⟩ := mem_rebase he
      have hold := hevents.valid _ hmem
      exact ⟨heq ▸ le_saturatingAdd hbase, ⟨heq ▸ saturatingAdd_lt, hold.channel, hold.token⟩,
        hmerge (offset, event.2) hmem⟩
    have hlt : ∀ event ∈ rebase base events, event.1 < 2 ^ 64 := fun event he =>
      (hvalid event he).2.1.offset
    obtain ⟨merged, hrest, hsnd, hsorted', hvalid'⟩ :=
      @ih (nextBase base (rebase base events)) hmerge' (nextBase_lt hbase)
    have hback := base_le_nextBase (fun event he => (hvalid event he).1) hlt
    refine ⟨rebase base events ++ merged, ?_, ?_, ?_, ?_⟩
    · rw [mergeEvents, hnext]
      simp only [bind, Except.bind, hrest]
      rfl
    · rw [List.map_append, hsnd, List.map_cons, List.flatten_cons, rebase, List.map_map]
      rfl
    · rw [List.map_append, List.pairwise_append]
      refine ⟨hsorted, hsorted', ?_⟩
      intro x hx y hy
      obtain ⟨event, he, rfl⟩ := List.mem_map.1 hx
      obtain ⟨event', he', rfl⟩ := List.mem_map.1 hy
      exact (le_nextBase hsorted hlt event he).trans (hvalid' event' he').1
    · intro event he
      rcases List.mem_append.1 he with he | he
      · exact hvalid event he
      · exact ⟨hback.trans (hvalid' event he).1, (hvalid' event he).2⟩

/-! ### Metadata -/

/-- A line of metadata, without its end. -/
def bareHeader (p : List Char × List Char) : List Char := '#' :: ' ' :: (p.1 ++ ':' :: ' ' :: p.2)

/-- What has been read with a key and its value. -/
def Reading.addHeader (r : Reading) (p : List Char × List Char) : Reading :=
  { r with
    headers := p :: r.headers
    declaredVersion := if p.1 = "wingcap_version".toList then some p.2 else r.declaredVersion }

/-- The line is read as the key and its value. -/
def Plain (p : List Char × List Char) : Prop :=
  trimEnd (bareHeader p) = bareHeader p ∧
    (splitOnce ':' (trim (bareHeader p).tail)).map
      (fun x => ((trim x.1).map Char.toLower, trim x.2)) = some p ∧
    (p.1 = "wingcap_version".toList → p.2 = ['2'])

instance instDecidablePlain (p : List Char × List Char) : Decidable (Plain p) :=
  inferInstanceAs (Decidable (_ ∧ _ ∧ _))

theorem bareHeader_ne_nil (p : List Char × List Char) : bareHeader p ≠ [] := List.cons_ne_nil _ _

theorem bareHeader_head? (p : List Char × List Char) : (bareHeader p).head? = some '#' := rfl

theorem readLine_bareHeader {p : List Char × List Char} (hplain : Plain p)
    (hnew : r.headers.lookup p.1 = none) (hdata : r.sawData = false) :
    readLine t false r (bareHeader p) = .ok (r.addHeader p) := by
  obtain ⟨key, value⟩ := p
  obtain ⟨htrim, hsplit, hversion⟩ := hplain
  obtain ⟨x, hx, hpair⟩ := Option.map_eq_some_iff.1 hsplit
  obtain ⟨hkey, hvalue⟩ := Prod.mk.inj hpair
  have hdup : rejectIf (r.headers.lookup key).isSome
      ("duplicate capture metadata key: " ++ String.ofList key) = .ok () :=
    rejectIf_eq_ok.2 (by simp [hnew])
  have hread : r.readMetadata t false (bareHeader (key, value)) (bareHeader (key, value)).tail =
      .ok (r.addHeader (key, value)) := by
    rw [Reading.readMetadata, hx]
    simp only [hkey, hvalue, hdup, bind, Except.bind, Reading.addHeader]
    by_cases hv : key = "wingcap_version".toList
    · have h₁ : rejectIf (r.sawData = true) "wingcap_version must precede data" = .ok () :=
        rejectIf_eq_ok.2 (by simp [hdata])
      have h₂ : rejectIf (value ≠ ['2']) "unsupported wingcap_version" = .ok () :=
        rejectIf_eq_ok.2 (not_not.2 (hversion hv))
      simp only [if_pos hv, h₁, h₂]
      rfl
    · simp only [if_neg hv]
      rfl
  rw [readLine]
  simp only [htrim]
  rw [if_neg (bareHeader_ne_nil _), if_pos (bareHeader_head? _)]
  exact hread

/-- The metadata of a merged capture. -/
def mergedHeaders (destructive disconnect : Bool) : Headers :=
  [ ("wingcap_version", "2"), ("scenario", "hardware_matrix_raw"), ("source", "hardware"),
    ("console_model", "pending-manual-entry"), ("firmware", "pending-manual-entry"),
    ("capture_date", "pending-manual-entry"), ("sanitizer", "pending"),
    ("manual_redaction_attested", "false"),
    ("expected_behavior", "merged direct discovery, Native proxy, and raw meter evidence"),
    ("state_changing_write_approved", "true"),
    ("destructive_write_approved", toString destructive),
    ("matrix_contract", "wing-rack-3.1-v1"), ("restore_verified", "true"),
    ("concurrent_definition_write_observed", "true"),
    ("meter_cardinality_verdict", "ambiguous"),
    ("disconnect_observed", toString disconnect) ].map fun x => (x.1.toList, x.2.toList)

theorem mergedHeaders_plain : ∀ destructive disconnect,
    ∀ p ∈ mergedHeaders destructive disconnect, Plain p := by
  decide +kernel

theorem readLines_bareHeaders {headers : Headers} {ls : List (List Char)}
    (hplain : ∀ p ∈ headers, Plain p) (hkeys : (headers.map Prod.fst).Nodup)
    (hnew : ∀ p ∈ headers, r.headers.lookup p.1 = none) (hdata : r.sawData = false) :
    readLines t false r (headers.map bareHeader ++ ls) =
      readLines t false (headers.foldl Reading.addHeader r) ls := by
  induction headers generalizing r with
  | nil => rfl
  | cons p headers ih =>
    obtain ⟨hp, hplain⟩ := List.forall_mem_cons.1 hplain
    obtain ⟨hpnew, hnew⟩ := List.forall_mem_cons.1 hnew
    obtain ⟨hnotin, hkeys⟩ := List.nodup_cons.1 hkeys
    have hnext : ∀ q ∈ headers, (r.addHeader p).headers.lookup q.1 = none := by
      intro q hq
      have hne : (q.1 == p.1) = false :=
        beq_eq_false_iff_ne.2 fun h => hnotin (h ▸ List.mem_map_of_mem hq)
      rw [Reading.addHeader, List.lookup_cons, hne]
      exact hnew q hq
    rw [List.map_cons, List.cons_append, readLines, readLine_bareHeader hp hpnew hdata,
      List.foldl_cons]
    exact ih hplain hkeys hnext hdata

theorem foldl_addHeader (headers : Headers) :
    (headers.foldl Reading.addHeader r).expectedOrdinal = r.expectedOrdinal ∧
      (headers.foldl Reading.addHeader r).previousOffset = r.previousOffset ∧
      (headers.foldl Reading.addHeader r).eventCount = r.eventCount := by
  induction headers generalizing r with
  | nil => exact ⟨rfl, rfl, rfl⟩
  | cons p headers ih => exact @ih (r.addHeader p)

theorem requireHeaders_eq_ok {headers : Headers} {keys : List String}
    (h : ∀ key ∈ keys, ((headers.get key).filter fun value =>
      !value.isEmpty && !decide ("FILL-ME-IN".toList <:+: value)).isSome) :
    keys.forM (requireHeader false headers) = .ok () := by
  induction keys with
  | nil => rfl
  | cons key keys ih =>
    obtain ⟨hkey, hkeys⟩ := List.forall_mem_cons.1 h
    obtain ⟨value, hvalue⟩ := Option.isSome_iff_exists.1 hkey
    have hone : requireHeader false headers key = .ok () := by
      rw [requireHeader, hvalue]
      rfl
    calc (key :: keys).forM (requireHeader false headers)
        = (requireHeader false headers key >>= fun _ => keys.forM (requireHeader false headers)) :=
          rfl
      _ = .ok () := by rw [hone]; exact ih hkeys

/-! ### Complete metadata -/

/-- Metadata that is read back, and holds all that is required. -/
structure Complete (headers : Headers) : Prop where
  /-- Each can be written as a line. -/
  plain : ∀ p ∈ headers, Plain p
  /-- No key comes twice. -/
  keys : (headers.map Prod.fst).Nodup
  /-- None of the lines has a break. -/
  breaks : ∀ line ∈ headers.map bareHeader, '\n' ∉ line ∧ '\r' ∉ line
  /-- They declare the second version. -/
  version : (headers.foldl Reading.addHeader .start).declaredVersion = some ['2']
  /-- The required keys are among them. -/
  required : ∀ key ∈ requiredV2Headers,
    (((headers.foldl Reading.addHeader .start).headers.get key).filter fun value =>
      !value.isEmpty && !decide ("FILL-ME-IN".toList <:+: value)).isSome

/-- Complete metadata and some events are a capture that is accepted. -/
theorem accepted_unlines (t : Texts) {headers : Headers} (h : Complete headers)
    (hvalid : ∀ event ∈ events, Valid event)
    (hsorted : (events.map Prod.fst).Pairwise (· ≤ ·)) (hfits : events.length < 2 ^ 64) :
    Accepted t (unlines (headers.map bareHeader ++ bareEvents 1 events)) events := by
  have hlines : lines (unlines (headers.map bareHeader ++ bareEvents 1 events)) =
      headers.map bareHeader ++ bareEvents 1 events := by
    refine lines_unlines fun line hline => ?_
    rcases List.mem_append.1 hline with hline | hline
    · exact h.breaks line hline
    · exact (mem_bareEvents hvalid line hline).1
  obtain ⟨hordinal, hoffset, hcount⟩ := @foldl_addHeader .start headers
  constructor
  · refine ⟨?_, hvalid, hsorted⟩
    -- The lines of the metadata are no lines of events.
    have hheaders : (headers.map bareHeader).filter (fun line => line.head? = some '@') = [] := by
      refine List.filter_eq_nil_iff.2 fun line hline => ?_
      obtain ⟨p, -, rfl⟩ := List.mem_map.1 hline
      simp [bareHeader_head?]
    have hevents : (bareEvents 1 events).filter (fun line => line.head? = some '@') =
        bareEvents 1 events := by
      refine List.filter_eq_self.2 fun line hline => ?_
      exact decide_eq_true (bareEvents_head? line hline)
    rw [eventLines, hlines, List.filter_append, hheaders, hevents, List.nil_append]
    exact bareEvents_forall₂ hvalid (by omega)
  · -- The metadata leave the ordinals and the offsets at their start.
    have hone : (headers.foldl Reading.addHeader .start).expectedOrdinal = 1 := hordinal
    obtain ⟨r', hread, hheaders, hversion, hcount'⟩ :=
      @readLines_bareEvents t (headers.foldl Reading.addHeader .start) events hvalid hsorted
        (fun event _ => hoffset ▸ Nat.zero_le _) (by omega)
    rw [hone] at hread
    refine ⟨⟨2, r'.eventCount, r'.headers⟩, ?_, by rw [hcount', hcount]; exact Nat.zero_add _⟩
    have hall : readLines t false .start
        (lines (unlines (headers.map bareHeader ++ bareEvents 1 events))) = .ok r' := by
      rw [hlines, readLines_bareHeaders h.plain h.keys (fun _ _ => rfl) rfl]
      exact hread
    rw [parseCaptureStructure, parseCaptureWithPolicy, hall]
    simp only [bind, Except.bind, rejectIf, Bool.false_eq_true, false_and, if_false, hversion,
      h.version, okOr, Option.elim, hheaders]
    rw [requireHeaders_eq_ok h.required]
    rfl

theorem mergedHeaders_complete (destructive disconnect : Bool) :
    Complete (mergedHeaders destructive disconnect) where
  plain := mergedHeaders_plain destructive disconnect
  keys := by revert destructive disconnect; decide +kernel
  breaks := by revert destructive disconnect; decide +kernel
  version := by revert destructive disconnect; decide +kernel
  required := by revert destructive disconnect; decide +kernel

/-! ### The text -/

theorem insertAtEvents_append {header rest inserted : List Char} (hheader : '@' ∉ header)
    (hrest : rest = [] ∨ rest.head? = some '@') :
    insertAtEvents (header ++ rest) inserted = header ++ inserted ++ rest := by
  have hall : ∀ c ∈ header, decide (c ≠ '@') = true := fun c hc =>
    decide_eq_true fun h => hheader (h ▸ hc)
  have htake : rest.takeWhile (fun c => decide (c ≠ '@')) = [] ∧
      rest.dropWhile (fun c => decide (c ≠ '@')) = rest := by
    rcases hrest with rfl | hat
    · exact ⟨rfl, rfl⟩
    · obtain ⟨tail, rfl⟩ := List.head?_eq_some_iff.1 hat
      simp
  rw [insertAtEvents, List.takeWhile_append_of_pos hall, List.dropWhile_append_of_pos hall,
    htake.1, htake.2, List.append_nil]

theorem eventText_head (events : List CapturedEvent) :
    eventText 1 events = [] ∨ (eventText 1 events).head? = some '@' := by
  cases events with
  | nil => exact .inl rfl
  | cons event events => exact .inr rfl

theorem header_notMem : ∀ inserted ∈ [[], metadataLine "matrix_contract" "wing-rack-3.1-v1" ++
      metadataLine "restore_verified" "true" ++
      metadataLine "concurrent_definition_write_observed" "true" ++
      metadataLine "meter_cardinality_verdict" "ambiguous"],
    '@' ∉ eventsToV2 "hardware_matrix_raw"
      "merged direct discovery, Native proxy, and raw meter evidence" [] ++ inserted := by
  decide +kernel

theorem header_eq : ∀ disconnect : Bool,
    eventsToV2 "hardware_matrix_raw"
        "merged direct discovery, Native proxy, and raw meter evidence" [] ++
      (metadataLine "matrix_contract" "wing-rack-3.1-v1" ++
        metadataLine "restore_verified" "true" ++
        metadataLine "concurrent_definition_write_observed" "true" ++
        metadataLine "meter_cardinality_verdict" "ambiguous") ++
      metadataLine "disconnect_observed" (toString disconnect) =
        unlines ((mergedHeaders false disconnect).map bareHeader) := by
  decide +kernel

theorem replace_mergedHeaders : ∀ disconnect,
    ((mergedHeaders false disconnect).map bareHeader).map
      (replace "# destructive_write_approved: false".toList
        "# destructive_write_approved: true".toList) =
      (mergedHeaders true disconnect).map bareHeader := by
  decide +kernel

/-- The lines of a merged capture, and its text. -/
theorem buildMergedMatrix_eq (hvalid : ∀ event ∈ events, Valid event) (destructive : Bool) :
    ∃ disconnect, buildMergedMatrix events destructive =
      unlines ((mergedHeaders destructive disconnect).map bareHeader ++ bareEvents 1 events) := by
  refine ⟨events.any fun event => event.2.1 = "N<" && event.2.2.isEmpty, ?_⟩
  have hv2 : ∀ events, eventsToV2 "hardware_matrix_raw"
      "merged direct discovery, Native proxy, and raw meter evidence" events =
        eventsToV2 "hardware_matrix_raw"
          "merged direct discovery, Native proxy, and raw meter evidence" [] ++
        eventText 1 events := by
    intro events
    simp only [eventsToV2, eventText, List.append_nil]
  simp only [buildMergedMatrix]
  generalize (events.any fun event => event.2.1 = "N<" && event.2.2.isEmpty) = disconnect
  have hnone := header_notMem [] (by simp)
  rw [List.append_nil] at hnone
  rw [hv2, insertAtEvents_append hnone (eventText_head events),
    insertAtEvents_append (header_notMem _ (by simp)) (eventText_head events), header_eq,
    eventText_eq, ← unlines_append]
  cases destructive with
  | false => rw [if_neg Bool.false_ne_true]
  | true =>
    obtain ⟨pattern, hpattern⟩ : ∃ pattern,
        "# destructive_write_approved: false".toList = '#' :: pattern := ⟨_, rfl⟩
    have hevents : (bareEvents 1 events).map (replace "# destructive_write_approved: false".toList
        "# destructive_write_approved: true".toList) = bareEvents 1 events := by
      refine (List.map_congr_left fun line hline => ?_).trans (List.map_id _)
      rw [hpattern]
      exact replaceFrom_of_notMem (mem_bareEvents hvalid line hline).2
    rw [if_pos rfl, replace_unlines (by decide) (by decide), List.map_append,
      replace_mergedHeaders, hevents]

/-- A merged capture is accepted, and its events are those it was built from. -/
theorem accepted_buildMergedMatrix (t : Texts) (destructive : Bool)
    (hvalid : ∀ event ∈ events, Valid event)
    (hsorted : (events.map Prod.fst).Pairwise (· ≤ ·)) (hfits : events.length < 2 ^ 64) :
    Accepted t (buildMergedMatrix events destructive) events := by
  obtain ⟨disconnect, htext⟩ := buildMergedMatrix_eq hvalid destructive
  rw [htext]
  exact accepted_unlines t (mergedHeaders_complete destructive disconnect) hvalid hsorted hfits

theorem exists_events {texts : List (List Char)} {summaries : List CaptureSummary}
    (h : List.Forall₂ (fun text summary => parseCaptureStructure t text = .ok summary)
      texts summaries) :
    ∃ all, List.Forall₂ (Accepted t) texts all ∧
      all.map List.length = summaries.map CaptureSummary.eventCount := by
  induction h with
  | nil => exact ⟨[], .nil, rfl⟩
  | cons hparse _ ih =>
    obtain ⟨all, hall, hcounts⟩ := ih
    obtain ⟨events, hevents, hcount⟩ := Events.of_parse hparse
    exact ⟨events :: all, .cons ⟨hevents, _, hparse, hcount⟩ hall, by simp [hcounts, hcount]⟩

section AcceptedCaptures

variable {texts : List (List Char)} {all : List (List CapturedEvent)}
  (h : List.Forall₂ (Accepted t) texts all)

include h

theorem contracts_of_accepted :
    texts.mapM (contractEvents t) = .ok (all.map (List.map Prod.snd)) := by
  induction h with
  | nil => rfl
  | cons hhead _ ih =>
    obtain ⟨hevents, summary, hparse, -⟩ := hhead
    rw [List.mapM_cons, contractEvents_eq_ok hparse hevents, ih]
    rfl

theorem channels_of_accepted
    (hchannels : ∀ text ∈ texts, ∀ contract, contractEvents t text = .ok contract →
      ∀ event ∈ contract, event.1 ∈ mergeChannels) :
    ∀ events ∈ all, ∀ event ∈ events, event.2.1 ∈ mergeChannels := by
  induction h with
  | nil => simp
  | cons hhead _ ih =>
    obtain ⟨hevents, summary, hparse, -⟩ := hhead
    obtain ⟨hchannel, hchannels⟩ := List.forall_mem_cons.1 hchannels
    refine List.forall_mem_cons.2 ⟨fun event he => ?_, ih hchannels⟩
    exact hchannel _ (contractEvents_eq_ok hparse hevents) event.2 (List.mem_map_of_mem he)

end AcceptedCaptures

/-- What a merge gives: `capture` is accepted, with the events of all captures. -/
structure Merges (t : Texts) (destructive : Bool) (texts : List (List Char))
    (summaries : List CaptureSummary) (contracts : List (List Event))
    (events : List CapturedEvent) (capture : List Char) (summary : CaptureSummary) : Prop where
  /-- The events of each text. -/
  contracts_eq : texts.mapM (contractEvents t) = .ok contracts
  /-- The events of all, with their offsets. -/
  events_eq : mergeEvents t 0 texts = .ok events
  /-- The text that is made of them. -/
  capture_eq : capture = buildMergedMatrix events destructive
  /-- That is what the merge returns. -/
  merged : mergeV2 t texts destructive = .ok capture
  /-- It is accepted. -/
  accepted : parseCaptureStructure t capture = .ok summary
  /-- It has as many events as the texts together. -/
  count : summary.eventCount = (summaries.map CaptureSummary.eventCount).sum
  /-- It is read back as their events, one text after the other. -/
  contract : contractEvents t capture = .ok contracts.flatten
  /-- With the offsets that they were given. -/
  offsets : mergePartialEvents t capture 0 = .ok events
  /-- The events are in the order of time. -/
  sorted : (events.map Prod.fst).Pairwise (· ≤ ·)

/-- Captures of the discovery, Native and meter channels are merged to one with their events. -/
theorem mergeV2_faithful (t : Texts) (destructive : Bool) (texts : List (List Char))
    (summaries : List CaptureSummary)
    (haccepted : List.Forall₂ (fun text summary => parseCaptureStructure t text = .ok summary)
      texts summaries)
    (hchannels : ∀ text ∈ texts, ∀ contract, contractEvents t text = .ok contract →
      ∀ event ∈ contract, event.1 ∈ mergeChannels)
    (hsome : 0 < (summaries.map CaptureSummary.eventCount).sum)
    (hfits : (summaries.map CaptureSummary.eventCount).sum < 2 ^ 64) :
    ∃ contracts events capture summary,
      Merges t destructive texts summaries contracts events capture summary := by
  obtain ⟨all, hall, hcounts⟩ := exists_events haccepted
  have hcontracts := contracts_of_accepted hall
  have hmerge := channels_of_accepted hall hchannels
  obtain ⟨events, hevents, hsnd, hsorted, hvalid⟩ :=
    @mergeEvents_spec t 0 _ _ hall hmerge (by decide)
  have hlength : events.length = (summaries.map CaptureSummary.eventCount).sum := by
    have h := congrArg List.length hsnd
    rw [List.length_map, List.length_flatten, List.map_map] at h
    rw [h, ← hcounts]
    congr 1
    refine List.map_congr_left fun partialEvents _ => ?_
    exact List.length_map _
  obtain ⟨hread, summary, hparse, hcount⟩ := accepted_buildMergedMatrix t destructive
    (fun event he => (hvalid event he).2.1) hsorted (by omega)
  refine ⟨_, events, _, summary, hcontracts, hevents, rfl, ?_, hparse, hcount.trans hlength, ?_,
    ?_, hsorted⟩
  · have hne : events ≠ [] := List.ne_nil_of_length_pos (by omega)
    rw [mergeV2, hevents]
    simp only [bind, Except.bind, rejectIf, if_neg hne, hparse]
    rfl
  · rw [contractEvents_eq_ok hparse hread, hsnd]
  · rw [mergePartialEvents_eq_ok hparse hread fun event he => (hvalid event he).2.2]
    congr 1
    refine (List.map_congr_left fun event he => ?_).trans (List.map_id _)
    have hoffset := (hvalid event he).2.1.offset
    rw [saturatingAdd, Nat.zero_add, min_eq_left (by omega)]
    rfl

/-- A capture with nothing but what is required of it. -/
def plainCapture (ls : List String) : List Char :=
  unlines ((("wingcap_version", "2") :: requiredV2Headers.map fun key => (key, "n/a")).map
    (fun x => bareHeader (x.1.toList, x.2.toList)) ++ ls.map String.toList)

/-- What is read of its metadata. -/
def plainHeaders : Headers :=
  ((("wingcap_version", "2") :: requiredV2Headers.map fun key => (key, "n/a")).map
    fun x => (x.1.toList, x.2.toList)).reverse

/-- A capture that ends at the largest offset, and with an empty payload. -/
def saturatedCapture : List Char :=
  plainCapture ["@1 +3us D> 57 49", "", "@2 +18446744073709551615us N< "]

/-- A capture of one event. -/
def singleCapture : List Char := plainCapture ["@1 +5us N> DFd1"]

/-- What follows a capture that ends at the largest offset stays there. -/
theorem mergeV2_faithful_saturated :
    ∃ capture summary, Merges plainTexts true [saturatedCapture, singleCapture]
      [⟨2, 2, plainHeaders⟩, ⟨2, 1, plainHeaders⟩]
      [[("D>", [0x57, 0x49]), ("N<", [])], [("N>", [0xdf, 0xd1])]]
      [ (3, "D>", [0x57, 0x49]), (18446744073709551615, "N<", []),
        (18446744073709551615, "N>", [0xdf, 0xd1]) ] capture summary := by
  have hparse : parseCaptureStructure plainTexts saturatedCapture = .ok ⟨2, 2, plainHeaders⟩ := by
    decide +kernel
  have hparse' : parseCaptureStructure plainTexts singleCapture = .ok ⟨2, 1, plainHeaders⟩ := by
    decide +kernel
  have hcontract : contractEvents plainTexts saturatedCapture =
      .ok [("D>", [0x57, 0x49]), ("N<", [])] := by
    decide +kernel
  have hcontract' : contractEvents plainTexts singleCapture = .ok [("N>", [0xdf, 0xd1])] := by
    decide +kernel
  have hevents : mergeEvents plainTexts 0 [saturatedCapture, singleCapture] =
      .ok [ (3, "D>", [0x57, 0x49]), (18446744073709551615, "N<", []),
        (18446744073709551615, "N>", [0xdf, 0xd1]) ] := by
    decide +kernel
  have hcontracts : [saturatedCapture, singleCapture].mapM (contractEvents plainTexts) =
      .ok [[("D>", [0x57, 0x49]), ("N<", [])], [("N>", [0xdf, 0xd1])]] := by
    rw [List.mapM_cons, List.mapM_cons, hcontract, hcontract']
    rfl
  have hchannels : ∀ text ∈ [saturatedCapture, singleCapture], ∀ contract,
      contractEvents plainTexts text = .ok contract →
        ∀ event ∈ contract, event.1 ∈ mergeChannels := by
    intro text htext contract h
    rcases List.mem_cons.1 htext with rfl | htext
    · cases hcontract.symm.trans h
      decide
    · obtain rfl := List.mem_singleton.1 htext
      cases hcontract'.symm.trans h
      decide
  obtain ⟨contracts, events, capture, summary, h⟩ := mergeV2_faithful plainTexts true _ _
    (.cons hparse (.cons hparse' .nil)) hchannels (by decide) (by decide)
  cases hcontracts.symm.trans h.contracts_eq
  cases hevents.symm.trans h.events_eq
  exact ⟨capture, summary, h⟩

end Wingcapture

end LibWing
