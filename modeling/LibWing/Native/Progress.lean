import LibWing.Native.Request
import LibWing.Lib.Except

/-!
# Progress of the request parser

`parse_audio` calls itself after a navigation token and `push_events` calls the parsers until they
have no request left.  The model runs both with fuel; this file shows that the fuel is never used
up, and what the parsers leave alone on the way.

* `Progress` : a pass of `parse_audio` that does not wait for more bytes takes at least one byte off
  the audio buffer, and keeps the limits and the meter buffer (`audioStep_progress`);
* `parseAudio_eq` : `parseAudio` satisfies the recursion equation of `parse_audio`;
* `pushEvent_limits` : parsing an event keeps the limits.
-/

namespace LibWing

namespace RequestParser

variable {p p' : RequestParser}

/-- What every pass over the audio buffer keeps: the limits and the meter buffer; and it takes at
least one byte off the audio buffer. -/
structure Shrinks (p p' : RequestParser) : Prop where
  /-- The limits are the same. -/
  limits : p'.limits = p.limits
  /-- The meter buffer is the same. -/
  meter : p'.meter = p.meter
  /-- The audio buffer is shorter. -/
  audio : p'.audio.length < p.audio.length

/-- A pass waits for more bytes or shrinks the audio buffer. -/
def Progress (p : RequestParser) : AudioStep → Prop
  | .more => True
  | .again p' => Shrinks p p'
  | .request _ p' => Shrinks p p'

theorem drainAudio_shrinks {used : ℕ} (hu : 0 < used) (hp : p.audio ≠ [])
    (hl : p'.limits = p.limits) (hm : p'.meter = p.meter) (ha : p'.audio = p.audio) :
    Shrinks p (p'.drainAudio used) := by
  refine ⟨hl, hm, ?_⟩
  have := List.length_pos_iff.2 hp
  simp only [drainAudio, List.length_drop, ha]
  omega

theorem setValue_progress {used : ℕ} {value : NativeValue} {step : AudioStep} (hu : 0 < used)
    (hp : p.audio ≠ []) (h : p.setValue used value = .ok step) : Progress p step := by
  unfold setValue at h
  split at h
  · cases h
  · cases h
    exact drainAudio_shrinks hu hp rfl rfl rfl

theorem parseStringToken_progress {len header : ℕ} {step : AudioStep} (hu : 0 < header)
    (hp : p.audio ≠ []) (h : p.parseStringToken len header = .ok step) : Progress p step := by
  unfold parseStringToken at h
  split_ifs at h
  split at h
  · cases h
  · exact setValue_progress (by omega) hp h

theorem pushPathIndex_progress {index : UInt32} {used : ℕ} {step : AudioStep} (hu : 0 < used)
    (hp : p.audio ≠ [])
    (h : (do
      let p ← p.pushPathIndex index
      return AudioStep.again (p.drainAudio used)) = .ok step) : Progress p step := by
  obtain ⟨p', hp', h⟩ := Except.bind_eq_ok.1 h
  unfold pushPathIndex at hp'
  obtain ⟨-, -, hp'⟩ := Except.bind_eq_ok.1 hp'
  cases Except.pure_eq_ok.1 hp'
  cases Except.pure_eq_ok.1 h
  exact drainAudio_shrinks hu hp rfl rfl rfl

/-- **Every pass that does not wait for more bytes consumes one.** -/
theorem audioToken_progress {opcode : UInt8} {rest : List UInt8} {step : AudioStep}
    (hp : p.audio ≠ []) (h : p.audioToken opcode rest = .ok step) : Progress p step := by
  unfold audioToken at h
  cases hop : Opcode.ofByte opcode <;> simp only [hop] at h
  case smallInt => exact setValue_progress (by omega) hp h
  case index => exact pushPathIndex_progress (by omega) hp h
  case shortString =>
    split_ifs at h
    · cases h; trivial
    · exact parseStringToken_progress (by omega) hp h
  case name =>
    split_ifs at h
    · cases h; trivial
    · obtain ⟨-, -, h⟩ := Except.bind_eq_ok.1 h
      split at h
      · cases h
      · cases Except.pure_eq_ok.1 h
        exact drainAudio_shrinks (by omega) hp rfl rfl rfl
  case emptyString => exact setValue_progress (by omega) hp h
  case longString =>
    split at h
    · cases h; trivial
    · split_ifs at h
      · cases h; trivial
      · exact parseStringToken_progress (by omega) hp h
  case index16 =>
    split at h
    · exact pushPathIndex_progress (by omega) hp h
    · cases h; trivial
  case int16 | int32 | float | rawFloat =>
    split at h
    · exact setValue_progress (by omega) hp h
    · cases h; trivial
  case nodeId =>
    split at h
    · cases h; exact drainAudio_shrinks (by omega) hp rfl rfl rfl
    · cases h; trivial
  case click =>
    split at h
    · cases h
    · cases h; exact drainAudio_shrinks (by omega) hp rfl rfl rfl
  case step =>
    split at h
    · cases h; trivial
    · split at h
      · cases h
      · cases h; exact drainAudio_shrinks (by omega) hp rfl rfl rfl
  case root | up | requestEnd | nodeDef | unknown =>
    cases h; exact drainAudio_shrinks (by omega) hp rfl rfl rfl
  case data | definition =>
    split at h <;>
    · cases h; exact drainAudio_shrinks (by omega) hp rfl rfl rfl

theorem audioStep_progress {step : AudioStep} (h : p.audioStep = .ok step) : Progress p step := by
  unfold audioStep at h
  split at h
  · cases h; trivial
  · rename_i opcode rest hp
    exact audioToken_progress (by rw [hp]; exact List.cons_ne_nil _ _) h

/-! ### The recursion of `parse_audio` -/

theorem parseAudioFuel_eq {m n : ℕ} (hm : p.audio.length < m) (hn : p.audio.length < n) :
    parseAudioFuel m p = parseAudioFuel n p := by
  induction m generalizing n p with
  | zero => exact absurd hm (Nat.not_lt_zero _)
  | succ m ih =>
    obtain ⟨n, rfl⟩ : ∃ k, n = k + 1 := ⟨n - 1, by omega⟩
    simp only [parseAudioFuel]
    cases hs : p.audioStep with
    | error e => rfl
    | ok step =>
      cases step with
      | more => rfl
      | request r p' => rfl
      | again p' =>
        have hlt : p'.audio.length < p.audio.length := (audioStep_progress hs).audio
        exact ih (by omega) (by omega)

/-- **The recursion equation of `parse_audio`.** -/
theorem parseAudio_eq (p : RequestParser) : p.parseAudio = do
    match ← p.audioStep with
    | .more => return (none, p)
    | .again p' => p'.parseAudio
    | .request r p' => return (some r, p') := by
  simp only [parseAudio, parseAudioFuel]
  cases hs : p.audioStep with
  | error e => rfl
  | ok step =>
    cases step with
    | more => rfl
    | request r p' => rfl
    | again p' =>
      have hlt : p'.audio.length < p.audio.length := (audioStep_progress hs).audio
      exact parseAudioFuel_eq hlt (Nat.lt_succ_self _)

/-- `parse_audio` keeps the limits and the meter buffer, and a request costs at least one byte. -/
theorem parseAudio_keeps {r : Option NativeRequest} (h : p.parseAudio = .ok (r, p')) :
    p'.limits = p.limits ∧ p'.meter = p.meter ∧ p'.audio.length ≤ p.audio.length ∧
      (r ≠ none → p'.audio.length < p.audio.length) := by
  induction hn : p.audio.length using Nat.strong_induction_on generalizing p with
  | _ n ih =>
    rw [parseAudio_eq] at h
    obtain ⟨step, hs, h⟩ := Except.bind_eq_ok.1 h
    have hpr := audioStep_progress hs
    cases step with
    | more =>
      cases Except.pure_eq_ok.1 h
      exact ⟨rfl, rfl, hn.le, fun hr => absurd rfl hr⟩
    | again q =>
      obtain ⟨hl, hm, ha⟩ : Shrinks p q := hpr
      obtain ⟨hl', hm', ha', hr⟩ := ih q.audio.length (by omega) h rfl
      exact ⟨hl'.trans hl, hm'.trans hm, by omega, fun hne => by have := hr hne; omega⟩
    | request r q =>
      cases Except.pure_eq_ok.1 h
      obtain ⟨hl, hm, ha⟩ : Shrinks p p' := hpr
      exact ⟨hl, hm, by omega, fun _ => by omega⟩

/-! ### The meter parser and the inner loops -/

/-- `parse_meter` keeps the limits, and a request costs at least one byte. -/
theorem parseMeter_keeps {r : Option NativeRequest} (h : p.parseMeter = .ok (r, p')) :
    p'.limits = p.limits ∧ (r ≠ none → p'.meter.length < p.meter.length) := by
  unfold parseMeter at h
  split at h
  · cases h; exact ⟨rfl, fun hr => absurd rfl hr⟩
  rename_i opcode rest hm
  have hpos : 0 < p.meter.length := by rw [hm]; exact Nat.succ_pos _
  split_ifs at h
  · split at h
    · cases h
      exact ⟨rfl, fun _ => by simp only [List.length_drop]; omega⟩
    · cases h; exact ⟨rfl, fun hr => absurd rfl hr⟩
  · split at h
    · split at h
      · cases h
        exact ⟨rfl, fun _ => by simp only [List.length_drop]; omega⟩
      · dsimp only at h
        split_ifs at h
        · cases h; exact ⟨rfl, fun hr => absurd rfl hr⟩
        · obtain ⟨meters, -, h⟩ := Except.bind_eq_ok.1 h
          split at h
          · cases h
          · cases Except.pure_eq_ok.1 h
            exact ⟨rfl, fun _ => by simp only [List.length_drop]; omega⟩
    · cases h; exact ⟨rfl, fun hr => absurd rfl hr⟩
  · cases h
    exact ⟨rfl, fun _ => by simp only [List.length_drop]; omega⟩

section drain

variable {parse : RequestParser → Result (Option NativeRequest × RequestParser)}

theorem drainWith_limits (hparse : ∀ p p' r, parse p = .ok (r, p') → p'.limits = p.limits) {n : ℕ}
    {rs : List NativeRequest} (h : drainWith parse n p = .ok (rs, p')) :
    p'.limits = p.limits := by
  induction n generalizing p rs with
  | zero => cases h; rfl
  | succ n ih =>
    simp only [drainWith] at h
    obtain ⟨⟨r, q⟩, hq, h⟩ := Except.bind_eq_ok.1 h
    cases r with
    | none => cases Except.pure_eq_ok.1 h; exact hparse _ _ _ hq
    | some r =>
      obtain ⟨⟨rs', q'⟩, hq', h⟩ := Except.bind_eq_ok.1 h
      cases Except.pure_eq_ok.1 h
      exact (ih hq').trans (hparse _ _ _ hq)

end drain

/-- Parsing one event keeps the limits. -/
theorem pushEvent_limits {event : ChannelEvent} {rs : List NativeRequest}
    (h : p.pushEvent event = .ok (rs, p')) : p'.limits = p.limits := by
  cases event with
  | selected channel =>
    obtain ⟨⟨rs', q⟩, hq, h⟩ := Except.bind_eq_ok.1 h
    cases Except.pure_eq_ok.1 h
    unfold flushMeterRenewal at hq
    split at hq
    · cases hq; rfl
    · split_ifs at hq
      cases hq; rfl
    · cases hq
  | data channel byte =>
    simp only [pushEvent] at h
    split_ifs at h
    · obtain ⟨-, -, h⟩ := Except.bind_eq_ok.1 h
      have := drainWith_limits (fun _ _ _ h => (parseAudio_keeps h).1) h
      exact this
    · obtain ⟨-, -, h⟩ := Except.bind_eq_ok.1 h
      have := drainWith_limits (fun _ _ _ h => (parseMeter_keeps h).1) h
      exact this
    · cases Except.pure_eq_ok.1 h; rfl

end RequestParser

end LibWing
