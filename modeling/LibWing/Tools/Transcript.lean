import LibWing.Tools.Merged
import LibWing.Tools.Transparent

/-!
# The transcript of the proxy

What the proxy writes is a capture that the other tools read, and it holds the bytes that went
through the proxy.

* `eventsToV2_eq` : the text of some events, with the metadata of a capture;
* `run_transcript` : the capture of a proxy both workers of which succeeded.
-/

namespace LibWing

namespace Wingcapture

open Text Redact

variable {t : Texts} {events : List CapturedEvent}

/-! ### The text -/

/-- The metadata that `events_to_v2` writes. -/
def v2Headers (scenario expectedBehavior : String) : Headers :=
  [ ("wingcap_version", "2"), ("scenario", scenario), ("source", "hardware"),
    ("console_model", "pending-manual-entry"), ("firmware", "pending-manual-entry"),
    ("capture_date", "pending-manual-entry"), ("sanitizer", "pending"),
    ("manual_redaction_attested", "false"), ("expected_behavior", expectedBehavior),
    ("state_changing_write_approved", "true"), ("destructive_write_approved", "false") ].map
      fun x => (x.1.toList, x.2.toList)

theorem metadataLine_eq (key value : String) :
    metadataLine key value = bareHeader (key.toList, value.toList) ++ ['\n'] := by
  simp only [metadataLine, bareHeader, List.cons_append, List.append_assoc]

theorem eventsToV2_eq (scenario expectedBehavior : String) (events : List CapturedEvent) :
    eventsToV2 scenario expectedBehavior events =
      unlines ((v2Headers scenario expectedBehavior).map bareHeader ++ bareEvents 1 events) := by
  rw [unlines_append, ← eventText_eq]
  simp only [eventsToV2, v2Headers, metadataLine_eq, List.map_cons, List.map_nil, unlines_cons,
    unlines_nil, List.append_assoc, List.cons_append, List.nil_append]

namespace Proxy

/-! ### The proxy -/

/-- The metadata of the proxy. -/
def headers : Headers :=
  v2Headers "native_proxy_raw" "bounded transparent Native proxy transcript"

theorem headers_complete : Complete headers where
  plain := by decide +kernel
  keys := by decide +kernel
  breaks := by decide +kernel
  version := by decide +kernel
  required := by decide +kernel

theorem channel_mem (d : Direction) : d.channel ∈ captureChannels ∧ d.channel ≠ "M<" := by
  cases d <;> decide

/-- The events of the recorder are events of a capture. -/
theorem Noted.valid {s : State} (h : Noted s) : ∀ event ∈ s.recorder.events, Valid event := by
  intro event he
  obtain ⟨⟨d, hd⟩, -⟩ := h.chunk event he
  refine ⟨?_, hd ▸ (channel_mem d).1, fun hm => absurd (hd ▸ hm) (channel_mem d).2⟩
  have hnow := h.now event he
  have hlt : offsetAt s.now < 2 ^ 64 := by
    rw [offsetAt]
    omega
  omega

/-- What the capture of a proxy says. -/
structure Transcript (t : Texts) (s : State) (text : List Char) : Prop where
  /-- The capture is accepted, and all events are read from it. -/
  accepted : ∃ summary, parseCaptureStructure t text = .ok summary ∧
    summary.eventCount = s.recorder.events.length
  /-- It is read back as what was recorded. -/
  events : contractEvents t text = .ok (s.recorder.events.map Prod.snd)
  /-- The payloads of a direction are the bytes that were taken from its source, … -/
  taken : ∀ contract, contractEvents t text = .ok contract → ∀ d : Direction,
    (contract.filter fun event => event.1 = d.channel).flatMap Prod.snd = (s.legs d).taken
  /-- … which its destination was given, unless the other direction was closed first. -/
  given : ∀ d, (s.legs d).given <+: (s.legs d).taken ∧
    ((s.legs d).shut ≠ none → (s.legs d).given = (s.legs d).taken)

/-- A proxy succeeds if both workers do. -/
theorem outcome_eq_ok {s : State} {text : List Char} :
    outcome s = some (.ok text) ↔
      (∀ d, (s.legs d).worker = .done (.ok ())) ∧ text = s.recorder.intoV2 := by
  constructor
  · intro h
    unfold outcome at h
    split at h <;> cases h
    rename_i hclient hconsole
    refine ⟨fun d => ?_, rfl⟩
    cases d
    · exact hclient
    · exact hconsole
  · rintro ⟨hdone, rfl⟩
    rw [outcome, hdone .clientToConsole, hdone .consoleToClient]

/-- The capture of a proxy is accepted, with the events of the recorder. -/
theorem accepted_intoV2 {deadline : Time} {moves : List (Direction × Env)} {s : State}
    (hrun : run t deadline moves = some s) : Accepted t s.recorder.intoV2 s.recorder.events := by
  have hnoted := (run_keeps hrun).2
  have hlength : s.recorder.events.length < 2 ^ 64 := hnoted.length.trans_lt (by decide)
  rw [Recorder.intoV2, eventsToV2_eq]
  exact accepted_unlines t headers_complete hnoted.valid hnoted.sorted hlength

/-- When both workers have returned, all that was taken was noted. -/
theorem recorded_of_outcome {deadline : Time} {moves : List (Direction × Env)} {s : State}
    {text : List Char} (hrun : run t deadline moves = some s) (h : outcome s = some (.ok text))
    (d : Direction) : s.recorded d = (s.legs d).taken :=
  ((run_carries hrun d).transparent.done ((outcome_eq_ok.1 h).1 d)).symm

/-- **The transcript is what went through the proxy.**  If the proxy succeeds, its capture is
accepted, and in each direction the payloads are all the bytes that came from the source. -/
theorem run_transcript {deadline : Time} {moves : List (Direction × Env)} {s : State}
    {text : List Char} (hrun : run t deadline moves = some s) (h : outcome s = some (.ok text)) :
    Transcript t s text := by
  obtain ⟨hdone, rfl⟩ := outcome_eq_ok.1 h
  obtain ⟨hevents, summary, hparse, hcount⟩ := accepted_intoV2 (t := t) hrun
  have hcontract := contractEvents_eq_ok hparse hevents
  refine ⟨⟨summary, hparse, hcount⟩, hcontract, fun contract hread d => ?_, fun d => ?_⟩
  · cases hcontract.symm.trans hread
    rw [← recorded_of_outcome hrun h d, State.recorded, List.filter_map, List.flatMap_map]
    rfl
  · have hleg := (run_carries hrun d).transparent
    rw [hleg.done (hdone d)]
    exact ⟨hleg.behind.given, hleg.closed (hdone d)⟩

theorem run_transcript_hangUp :
    ∃ s text, run plainTexts 1000000 hangUp = some s ∧ outcome s = some (.ok text) ∧
      (s.legs .clientToConsole).taken = [0xd7, 0, 1] ∧ Transcript plainTexts s text := by
  have houtcome : (run plainTexts 1000000 hangUp).map (fun s =>
      ((s.legs .clientToConsole).taken, (outcome s).map fun r => r.toOption.isSome)) =
        some ([0xd7, 0, 1], some true) := by
    decide +kernel
  obtain ⟨s, hrun, hs⟩ := Option.map_eq_some_iff.1 houtcome
  obtain ⟨htaken, hok⟩ := Prod.mk.inj hs
  obtain ⟨result, hresult, hsome⟩ := Option.map_eq_some_iff.1 hok
  cases result with
  | error e => cases hsome
  | ok text => exact ⟨s, text, hrun, hresult, htaken, run_transcript hrun hresult⟩

end Proxy

end Wingcapture

end LibWing
