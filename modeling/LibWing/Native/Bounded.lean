import LibWing.Lib.Stateful
import LibWing.Native.Response

/-!
# The ceiling of the response encoder

The bounded encoder keeps the length its frame will have, while the frame itself is escaped only at
the end.

* `BoundedResponseEncoder.pushInPlace` : `push` as the source has it, on an encoder that a failed
  push leaves behind;
* `BoundedResponseEncoder.Measured` : the running length is the length of the frame;
* `encodeResponsesBounded_eq_ok` : a bounded batch is a batch whose frame is under the ceiling;
* `boundedEncoder_spec` : the bounded encoder is the unbounded one and a check of the size.
-/

namespace LibWing

open Stateful

theorem escapedLen_eq (payload : List UInt8) :
    escapedLen payload = (escapeBytes payload).length := by
  induction payload with
  | nil => rfl
  | cons byte rest ih =>
    have hcons : escapedLen (byte :: rest) =
      (if byte = escape then 2 else 1) + escapedLen rest := rfl
    rw [hcons, ih]
    by_cases h : byte = escape
    · rw [if_pos h]
      simp only [escapeBytes, h, ↓reduceIte, List.length_cons]
      omega
    · rw [if_neg h, escapeBytes_cons h, List.length_cons]
      omega

namespace BoundedResponseEncoder

/-- `push`, on the encoder in place: what it has changed stays when it fails. -/
def pushInPlace (response : NativeResponse) : EStateM Error BoundedResponseEncoder Unit := do
  let encoded ← ofExcept (encodeResponse response)
  let nextWireLen := min ((← get).wireLen + escapedLen encoded) usizeMax
  if nextWireLen > (← get).maxWireBytes then throw .invalidInput
  modify fun e => { e with payload := e.payload ++ encoded }
  modify fun e => { e with wireLen := nextWireLen }

/-- A sequence of pushes, whatever their outcomes. -/
def pushEach : List NativeResponse → BoundedResponseEncoder →
    List (Result Unit) × BoundedResponseEncoder
  | [], e => ([], e)
  | response :: responses, e =>
    let (r, e') := outcome (pushInPlace response) e
    let (rs, e'') := pushEach responses e'
    (r :: rs, e'')

/-- The frame `finish` builds. -/
def frame (e : BoundedResponseEncoder) : List UInt8 :=
  appendEscaped [escape, channelBase + 1] e.payload

theorem length_frame (e : BoundedResponseEncoder) : e.frame.length = 2 + escapedLen e.payload := by
  rw [frame, appendEscaped_eq, List.length_append, escapedLen_eq]
  rfl

/-- The running length is the length of the frame, as far as a `usize` can hold it. -/
def Measured (e : BoundedResponseEncoder) : Prop := e.wireLen = min e.frame.length usizeMax

theorem measured_new (maxWireBytes : ℕ) : (new maxWireBytes).Measured := by
  unfold Measured
  rw [length_frame]
  rfl

/-- The encoder that has taken one more token. -/
def add (e : BoundedResponseEncoder) (token : List UInt8) : BoundedResponseEncoder :=
  { e with
    payload := e.payload ++ token
    wireLen := min (e.wireLen + escapedLen token) usizeMax }

theorem length_frame_add (e : BoundedResponseEncoder) (token : List UInt8) :
    (e.add token).frame.length = e.frame.length + escapedLen token := by
  rw [length_frame, length_frame]
  simp only [add, escapedLen_eq, escapeBytes_append, List.length_append]
  omega

theorem Measured.add {e : BoundedResponseEncoder} (h : e.Measured) (token : List UInt8) :
    (e.add token).Measured := by
  unfold Measured at h ⊢
  rw [length_frame_add]
  change min (e.wireLen + escapedLen token) usizeMax = _
  omega

/-! ### One push -/

/-- A push in place: it adds the token of the response if that fits, and fails and changes nothing
otherwise. -/
theorem pushInPlace_cases (e : BoundedResponseEncoder) (response : NativeResponse) :
    (∃ token, encodeResponse response = .ok token ∧
        outcome (pushInPlace response) e = (.ok (), e.add token)) ∨
      ∃ err, outcome (pushInPlace response) e = (.error err, e) ∧
        ∀ token, encodeResponse response = .ok token → e.maxWireBytes < (e.add token).wireLen := by
  cases henc : encodeResponse response with
  | error err =>
    refine Or.inr ⟨err, ?_, nofun⟩
    simp only [outcome, pushInPlace, henc]
    rfl
  | ok token =>
    by_cases hgt : min (e.wireLen + escapedLen token) usizeMax > e.maxWireBytes
    · refine Or.inr ⟨.invalidInput, ?_, fun _ h => Except.ok.inj h ▸ hgt⟩
      have hrun : pushInPlace response e = .error .invalidInput e := by
        simp only [pushInPlace, henc, ofExcept, bind, EStateM.bind, pure, EStateM.pure,
          run_get, hgt,
          ↓reduceIte]
        rfl
      rw [outcome, hrun]
    · refine Or.inl ⟨token, rfl, ?_⟩
      have hrun : pushInPlace response e = .ok () (e.add token) := by
        simp only [pushInPlace, henc, ofExcept, bind, EStateM.bind, pure, EStateM.pure,
          run_get, hgt,
          ↓reduceIte]
        rfl
      rw [outcome, hrun]

theorem push_eq (e : BoundedResponseEncoder) (response : NativeResponse) :
    e.push response = (outcome (pushInPlace response) e).1.map fun _ =>
      (outcome (pushInPlace response) e).2 := by
  cases henc : encodeResponse response with
  | error err =>
    simp only [push, outcome, pushInPlace, henc]
    rfl
  | ok token =>
    by_cases hgt : min (e.wireLen + escapedLen token) usizeMax > e.maxWireBytes
    all_goals
      simp only [push, outcome, pushInPlace, henc, ofExcept, bind, EStateM.bind, Except.bind, pure,
        EStateM.pure, Except.pure, run_get, hgt, ↓reduceIte]
      rfl

theorem outcome_pushInPlace_measured {e : BoundedResponseEncoder} (h : e.Measured)
    (response : NativeResponse) : (outcome (pushInPlace response) e).2.Measured := by
  rcases pushInPlace_cases e response with ⟨token, -, hrun⟩ | ⟨err, hrun, -⟩
  · rw [hrun]
    exact h.add token
  · rw [hrun]
    exact h

/-- **Every sequence of pushes** keeps the running length right. -/
theorem pushEach_measured {e : BoundedResponseEncoder} (h : e.Measured)
    (responses : List NativeResponse) : (pushEach responses e).2.Measured := by
  induction responses generalizing e with
  | nil => exact h
  | cons response responses ih => exact ih (outcome_pushInPlace_measured h response)

/-- The frame of an encoder whose running length is right. -/
theorem Measured.finish_eq_ok {e : BoundedResponseEncoder} (h : e.Measured) {wire : List UInt8} :
    e.finish = .ok wire ↔ wire = e.frame ∧ min wire.length usizeMax ≤ e.maxWireBytes := by
  unfold finish
  rw [h]
  split_ifs with hgt
  · constructor
    · nofun
    · rintro ⟨rfl, hle⟩
      omega
  · constructor
    · intro heq
      cases heq
      exact ⟨rfl, Nat.not_lt.1 hgt⟩
    · rintro ⟨rfl, -⟩
      rfl

/-! ### A batch -/

theorem pushMany_finish {e : BoundedResponseEncoder} (h : e.Measured)
    (responses : List NativeResponse) {wire : List UInt8} :
    (e.pushMany responses >>= finish) = .ok wire ↔
      ∃ tokens, encodeTokens responses = .ok tokens ∧
        wire = appendEscaped [escape, channelBase + 1] (e.payload ++ tokens) ∧
        min wire.length usizeMax ≤ e.maxWireBytes := by
  induction responses generalizing e with
  | nil =>
    change e.finish = .ok wire ↔ _
    rw [h.finish_eq_ok]
    constructor
    · rintro ⟨rfl, hle⟩
      exact ⟨[], rfl, by rw [List.append_nil]; rfl, hle⟩
    · rintro ⟨tokens, ht, hwire, hle⟩
      cases ht
      rw [List.append_nil] at hwire
      exact ⟨hwire, hle⟩
  | cons response responses ih =>
    rw [pushMany, push_eq, bind_assoc]
    rcases pushInPlace_cases e response with ⟨token, henc, hrun⟩ | ⟨err, hrun, hfull⟩
    · rw [hrun]
      change ((e.add token).pushMany responses >>= finish) = .ok wire ↔ _
      rw [ih (h.add token)]
      constructor
      · rintro ⟨tokens, ht, hwire, hle⟩
        refine ⟨token ++ tokens, ?_, ?_, hle⟩
        · simp only [encodeTokens, henc, ht]
          rfl
        · rw [hwire, ← List.append_assoc]
          rfl
      · rintro ⟨all, hall, hwire, hle⟩
        obtain ⟨token', henc', hall⟩ := Except.bind_eq_ok.1 hall
        obtain ⟨tokens, ht, hall⟩ := Except.bind_eq_ok.1 hall
        cases Except.pure_eq_ok.1 hall
        cases henc.symm.trans henc'
        refine ⟨tokens, ht, ?_, hle⟩
        rw [hwire, ← List.append_assoc]
        rfl
    · rw [hrun]
      constructor
      · intro hok
        cases hok
      · -- What the push refused would not have fitted at the end either.
        rintro ⟨all, hall, hwire, hle⟩
        exfalso
        obtain ⟨token, henc, hall⟩ := Except.bind_eq_ok.1 hall
        obtain ⟨tokens, ht, hall⟩ := Except.bind_eq_ok.1 hall
        cases Except.pure_eq_ok.1 hall
        have hlen : (e.add token).frame.length ≤ wire.length := by
          rw [hwire, length_frame, appendEscaped_eq, ← List.append_assoc, escapeBytes_append,
            escapedLen_eq]
          simp only [List.length_append, List.length_cons, List.length_nil]
          change 2 + (escapeBytes (e.payload ++ token)).length ≤ _
          omega
        have hgt := hfull token henc
        rw [h.add token] at hgt
        omega

end BoundedResponseEncoder

/-- A batch fits its ceiling exactly if its frame does. -/
theorem encodeResponsesBounded_eq_ok (responses : List NativeResponse) (maxWireBytes : ℕ)
    {wire : List UInt8} :
    encodeResponsesBounded responses maxWireBytes = .ok wire ↔
      ∃ tokens, encodeTokens responses = .ok tokens ∧
        wire = appendEscaped [escape, channelBase + 1] tokens ∧
        min wire.length usizeMax ≤ maxWireBytes :=
  BoundedResponseEncoder.pushMany_finish
    (BoundedResponseEncoder.measured_new maxWireBytes) responses

/-- **The bounded encoder is the unbounded one and a check of the size.**  The length of a frame is
a `usize`, as the length of every `Vec` is.  A bounded batch is the unbounded batch, if that is no
longer than the ceiling.  After any sequence of pushes, whether they succeed or fail, the running
length is the length of the frame that `finish` returns, and a push that fails leaves the encoder
as it was. -/
theorem boundedEncoder_spec (maxWireBytes : ℕ) (responses : List NativeResponse)
    (wire : List UInt8) (hwire : wire.length ≤ usizeMax) :
    (encodeResponsesBounded responses maxWireBytes = .ok wire ↔
        encodeResponses responses = .ok wire ∧ wire.length ≤ maxWireBytes) ∧
      let e := (BoundedResponseEncoder.pushEach responses (.new maxWireBytes)).2
      (e.finish = .ok wire → e.wireLen = wire.length) ∧
        (e.frame = wire → e.wireLen = wire.length) ∧
        ∀ response err e', outcome (BoundedResponseEncoder.pushInPlace response) e =
          (.error err, e') →
          e'.payload = e.payload ∧ e'.wireLen = e.wireLen := by
  refine ⟨?_, ?_⟩
  · rw [encodeResponses, encodeResponsesBounded_eq_ok, encodeResponsesBounded_eq_ok]
    constructor
    · rintro ⟨tokens, ht, hframe, hle⟩
      exact ⟨⟨tokens, ht, hframe, Nat.min_le_right _ _⟩, by omega⟩
    · rintro ⟨⟨tokens, ht, hframe, -⟩, hle⟩
      exact ⟨tokens, ht, hframe, by omega⟩
  · intro e
    have hmeasured : e.Measured := BoundedResponseEncoder.pushEach_measured
      (BoundedResponseEncoder.measured_new maxWireBytes) responses
    have hlen : e.frame = wire → e.wireLen = wire.length := by
      intro hframe
      rw [hmeasured, hframe, Nat.min_eq_left hwire]
    refine ⟨fun hfin => hlen (hmeasured.finish_eq_ok.1 hfin).1.symm, hlen, ?_⟩
    intro response err e' hfail
    rcases BoundedResponseEncoder.pushInPlace_cases e response with
      ⟨token, -, hrun⟩ | ⟨err', hrun, -⟩
    · rw [hrun] at hfail
      cases hfail
    · rw [hrun] at hfail
      cases hfail
      exact ⟨rfl, rfl⟩

/-- Three pushes under a ceiling of nine bytes: the second is an unencodable string and the third
would cross the ceiling. -/
theorem boundedEncoder_spec_nine :
    let responses : List NativeResponse :=
      [.nodeData 0xdf (.integer 5), .nodeData 1 (.string (String.ofList (List.replicate 257 'a'))),
        .requestEnd]
    let e := (BoundedResponseEncoder.pushEach responses (.new 9)).2
    (BoundedResponseEncoder.pushEach responses (.new 9)).1 =
        [.ok (), .error .invalidInput, .error .invalidInput] ∧
      e.finish = .ok [0xdf, 0xd1, 0xd7, 0, 0, 0, 0xdf, 0xde, 5] ∧ e.wireLen = 9 := by
  intro responses e
  have hpush : (BoundedResponseEncoder.pushEach responses (.new 9)).1 =
      [.ok (), .error .invalidInput, .error .invalidInput] := by decide +kernel
  have hfin : e.finish = .ok [0xdf, 0xd1, 0xd7, 0, 0, 0, 0xdf, 0xde, 5] := by decide +kernel
  exact ⟨hpush, hfin, (boundedEncoder_spec 9 responses _ (by decide)).2.1 hfin⟩

end LibWing
