import LibWing.Native.Fragment

/-!
# Tokens of the request stream

What the request decoder makes of one whole token, byte by byte.  A token of the audio channel
waits in the buffer until its last byte; then it is taken off and the buffer is empty again.

* `feed_token` : the rule for one token, from the passes of `parse_audio` over its prefixes;
* `feed_nodeId`, `feed_value` : the selector and the values a client sends;
* `feed_meterPort`, `feed_subscribe` : a subscription on the meter channel.
-/

namespace LibWing

namespace RequestParser

variable {p p' : RequestParser}

/-! ### One event -/

/-- What one pass of `parse_audio` adds to the requests, and where it leaves the parser. -/
def AudioStep.Yields : AudioStep → List NativeRequest → RequestParser → Prop
  | .more, _, _ => False
  | .again p, rs, p' => rs = [] ∧ p' = p
  | .request r p, rs, p' => rs = [r] ∧ p' = p

theorem parseAudio_nil (hp : p.audio = []) : p.parseAudio = .ok (none, p) := by
  rw [parseAudio_eq]
  simp only [audioStep, hp]
  rfl

theorem pushEvent_more {byte : UInt8}
    (hlim : p.audio.length + 1 + p.meter.length ≤ p.limits.maxBufferedBytes)
    (hs : { p with audio := p.audio ++ [byte] }.audioStep = .ok .more) :
    p.pushEvent (.data 1 byte) = .ok ([], { p with audio := p.audio ++ [byte] }) := by
  have hparse : { p with audio := p.audio ++ [byte] }.parseAudio =
      .ok (none, { p with audio := p.audio ++ [byte] }) := by
    rw [parseAudio_eq, hs]
    rfl
  have hcheck : { p with audio := p.audio ++ [byte] }.checkBufferLimit = .ok () := by
    simp only [checkBufferLimit, List.length_append, List.length_singleton]
    rw [if_neg (by omega)]
  simp only [pushEvent, hcheck, drainWith, hparse, bind, Except.bind, ↓reduceIte]
  rfl

theorem pushEvent_done {byte : UInt8} {step : AudioStep} {rs : List NativeRequest}
    (hlim : p.audio.length + 1 + p.meter.length ≤ p.limits.maxBufferedBytes)
    (hs : { p with audio := p.audio ++ [byte] }.audioStep = .ok step) (hy : step.Yields rs p')
    (hp' : p'.audio = []) : p.pushEvent (.data 1 byte) = .ok (rs, p') := by
  have hcheck : { p with audio := p.audio ++ [byte] }.checkBufferLimit = .ok () := by
    simp only [checkBufferLimit, List.length_append, List.length_singleton]
    rw [if_neg (by omega)]
  have hnil := parseAudio_nil hp'
  have hparse := parseAudio_eq { p with audio := p.audio ++ [byte] }
  rw [hs] at hparse
  simp only [pushEvent, hcheck, bind, Except.bind, ↓reduceIte, List.length_append,
    List.length_singleton]
  cases step with
  | more => exact absurd hy id
  | again q =>
    obtain ⟨rfl, rfl⟩ := hy
    have hq : { p with audio := p.audio ++ [byte] }.parseAudio = .ok (none, p') :=
      hparse.trans hnil
    simp only [drainWith, hq, bind, Except.bind]
    rfl
  | request r q =>
    obtain ⟨rfl, rfl⟩ := hy
    have hq : { p with audio := p.audio ++ [byte] }.parseAudio = .ok (some r, p') := hparse
    simp only [drainWith, hq, hnil, bind, Except.bind]
    rfl

/-! ### One token -/

theorem set_audio {audio : List UInt8} (hp : p.audio = audio) : { p with audio := audio } = p := by
  cases p
  subst hp
  rfl

theorem feed_nil : p.feed [] = .ok ([], p) := rfl

/-- One event with an empty remainder. -/
theorem feed_singleton {event : ChannelEvent} {rs : List NativeRequest}
    (h : p.pushEvent event = .ok (rs, p')) : p.feed [event] = .ok (rs, p') :=
  feed_cons_eq_ok.2 ⟨rs, p', [], h, feed_nil, (List.append_nil _).symm⟩

theorem feed_collect (ch : UInt8) (buffered : List UInt8 → RequestParser) (token : List UInt8)
    (h : ∀ pre byte, pre ++ [byte] <+: token →
      (buffered pre).pushEvent (.data ch byte) = .ok ([], buffered (pre ++ [byte]))) :
    (buffered []).feed (token.map (.data ch)) = .ok ([], buffered token) := by
  induction token using List.reverseRecOn with
  | nil => rfl
  | append_singleton token byte ih =>
    have h₁ := ih fun pre b hpre => h pre b (hpre.trans (List.prefix_append _ _))
    have h₂ := h token byte (List.prefix_refl _)
    rw [List.map_append]
    exact feed_append_eq_ok.2 ⟨[], _, [], h₁, feed_singleton h₂, rfl⟩

theorem feed_more (hp : p.audio = []) {token : List UInt8}
    (hlim : token.length + p.meter.length ≤ p.limits.maxBufferedBytes)
    (hwait : ∀ pre, pre <+: token → { p with audio := pre }.audioStep = .ok .more) :
    p.feed (token.map (.data 1)) = .ok ([], { p with audio := token }) := by
  have h := feed_collect 1 (fun audio => { p with audio := audio }) token fun pre byte hpre => by
      have hlen := hpre.length_le
      rw [List.length_append, List.length_singleton] at hlen
      exact pushEvent_more (p := { p with audio := pre }) (by dsimp only; omega) (hwait _ hpre)
  rwa [set_audio hp] at h

/-- **One token.**  If every proper beginning of a token waits and the whole token is taken off by
one pass, feeding the token from an empty buffer gives what that pass gives. -/
theorem feed_token (token : List UInt8) {last : UInt8} {step : AudioStep}
    {rs : List NativeRequest} (hp : p.audio = [])
    (hlim : token.length + 1 + p.meter.length ≤ p.limits.maxBufferedBytes)
    (hwait : ∀ pre, pre <+: token → { p with audio := pre }.audioStep = .ok .more)
    (hs : { p with audio := token ++ [last] }.audioStep = .ok step) (hy : step.Yields rs p')
    (hp' : p'.audio = []) :
    p.feed ((token ++ [last]).map (.data 1)) = .ok (rs, p') := by
  have h₁ := feed_more hp (by omega) hwait
  have h₂ : { p with audio := token }.pushEvent (.data 1 last) = .ok (rs, p') :=
    pushEvent_done (by simpa using hlim) hs hy hp'
  rw [List.map_append]
  exact feed_append_eq_ok.2 ⟨[], _, rs, h₁, feed_singleton h₂, rfl⟩

/-- A token of one byte. -/
theorem feed_opcode (hp : p.audio = []) {opcode : UInt8} {step : AudioStep}
    {rs : List NativeRequest} (hlim : 1 + p.meter.length ≤ p.limits.maxBufferedBytes)
    (hs : { p with audio := [opcode] }.audioToken opcode [] = .ok step) (hy : step.Yields rs p')
    (hp' : p'.audio = []) : p.feed [.data 1 opcode] = .ok (rs, p') := by
  refine feed_token [] hp (by simpa using hlim) ?_ hs hy hp'
  intro pre hpre
  rw [List.prefix_nil.1 hpre]
  rfl

theorem audioStep_waits {opcode : UInt8} {rest : List UInt8}
    (h : ∀ r, r <+: rest → { p with audio := opcode :: r }.audioToken opcode r = .ok .more) :
    ∀ pre, pre <+: opcode :: rest → { p with audio := pre }.audioStep = .ok .more := by
  intro pre hpre
  rcases List.prefix_cons_iff.1 hpre with rfl | ⟨r, rfl, hr⟩
  · rfl
  · exact h r hr

/-! ### The tokens of a client -/

theorem audioToken_wide {opcode : UInt8} {r : List UInt8} (hr : r.length < 4)
    (hop : Opcode.ofByte opcode ∈ [Opcode.nodeId, .int32, .float, .rawFloat]) :
    p.audioToken opcode r = .ok .more := by
  simp only [List.mem_cons, List.not_mem_nil, or_false] at hop
  have hshort : ∀ (a b c d : UInt8) (tl : List UInt8), r = a :: b :: c :: d :: tl → False := by
    rintro a b c d tl rfl
    simp only [List.length_cons] at hr
    omega
  rcases hop with h | h | h | h <;> simp only [audioToken, h]

theorem feed_wide (hp : p.audio = []) {opcode a b c d : UInt8} {step : AudioStep}
    {rs : List NativeRequest} (hlim : 5 + p.meter.length ≤ p.limits.maxBufferedBytes)
    (hop : Opcode.ofByte opcode ∈ [Opcode.nodeId, .int32, .float, .rawFloat])
    (hs : { p with audio := [opcode, a, b, c, d] }.audioToken opcode [a, b, c, d] = .ok step)
    (hy : step.Yields rs p') (hp' : p'.audio = []) :
    p.feed ([opcode, a, b, c, d].map (.data 1)) = .ok (rs, p') := by
  refine feed_token [opcode, a, b, c] hp (by simpa using hlim) ?_ hs hy hp'
  refine audioStep_waits fun r hr => audioToken_wide ?_ hop
  have := hr.length_le
  simp only [List.length_cons, List.length_nil] at this
  omega

/-- `0xd7` and an id select the node. -/
theorem feed_nodeId (hp : p.audio = []) (hlim : 5 + p.meter.length ≤ p.limits.maxBufferedBytes)
    (id : Int32) :
    p.feed ((0xd7 :: i32Bytes id).map (.data 1)) = .ok ([], { p with selectedId := some id }) := by
  refine feed_wide hp hlim (by decide) rfl ⟨rfl, ?_⟩ hp
  cases p
  subst hp
  simp [drainAudio, i32OfBytes]

theorem setValue_yields (used : ℕ) (value : NativeValue) (token : List UInt8) {id : Int32}
    (hp : p.audio = []) (hid : p.selectedId = some id) (hu : used = token.length) :
    ∃ step, { p with audio := token }.setValue used value = .ok step ∧
      step.Yields [.set id value] p := by
  refine ⟨.request (.set id value) p, ?_, rfl, rfl⟩
  cases p
  subst hp hu
  simp_all [setValue, drainAudio]

theorem feed_string (header bytes : List UInt8) {id : Int32} {value : String} (hp : p.audio = [])
    (hid : p.selectedId = some id) (hne : bytes ≠ [])
    (hlim : header.length + bytes.length + p.meter.length ≤ p.limits.maxBufferedBytes)
    (hwait : ∀ pre, pre <+: header ++ bytes.dropLast →
      { p with audio := pre }.audioStep = .ok .more)
    (hlast : { p with audio := header ++ bytes }.audioStep =
      { p with audio := header ++ bytes }.setValue (header.length + bytes.length) (.string value)) :
    p.feed ((header ++ bytes).map (.data 1)) = .ok ([.set id (.string value)], p) := by
  obtain ⟨step, hs, hy⟩ := setValue_yields (header.length + bytes.length) (.string value)
    (header ++ bytes) hp hid (List.length_append).symm
  have hcut : header ++ bytes = header ++ bytes.dropLast ++ [bytes.getLast hne] := by
    rw [List.append_assoc, List.dropLast_append_getLast]
  rw [hs] at hlast
  rw [hcut] at hlast ⊢
  refine feed_token _ hp ?_ hwait hlast hy hp
  have := List.length_pos_iff.2 hne
  simp only [List.length_append, List.length_dropLast]
  omega

theorem feed_shortString (hp : p.audio = []) {id : Int32} {value : String}
    (hid : p.selectedId = some id) (h₀ : (utf8 value).length ≠ 0) (h₁ : (utf8 value).length ≤ 64)
    (hmax : (utf8 value).length ≤ p.limits.maxStringBytes)
    (hlim : 1 + (utf8 value).length + p.meter.length ≤ p.limits.maxBufferedBytes) :
    p.feed (((0x7f + UInt8.ofNat (utf8 value).length) :: utf8 value).map (.data 1)) =
      .ok ([.set id (.string value)], p) := by
  obtain ⟨hop, hlen⟩ := shortString_byte h₀ h₁
  have hne : utf8 value ≠ [] := fun h => h₀ (by rw [h]; rfl)
  refine feed_string [0x7f + UInt8.ofNat (utf8 value).length] (utf8 value) hp hid hne hlim
    (audioStep_waits fun r hr => ?_) ?_
  · have hr := hr.length_le
    change _ ≤ (utf8 value).dropLast.length at hr
    rw [List.length_dropLast] at hr
    simp only [audioToken, hop, hlen, List.length_cons]
    rw [if_pos (by omega)]
  · simp only [audioStep, audioToken, List.cons_append, List.nil_append, hop, hlen,
      List.length_cons, parseStringToken, List.drop_succ_cons, List.drop_zero, List.take_length,
      fromUtf8_utf8, List.length_nil]
    rw [if_neg (by omega), if_neg (by omega)]

theorem feed_longString (hp : p.audio = []) {id : Int32} {value : String}
    (hid : p.selectedId = some id) (h₀ : (utf8 value).length ≠ 0) (h₁ : (utf8 value).length ≤ 256)
    (hmax : (utf8 value).length ≤ p.limits.maxStringBytes)
    (hlim : 2 + (utf8 value).length + p.meter.length ≤ p.limits.maxBufferedBytes) :
    p.feed ((0xd1 :: UInt8.ofNat ((utf8 value).length - 1) :: utf8 value).map (.data 1)) =
      .ok ([.set id (.string value)], p) := by
  have hop : Opcode.ofByte 0xd1 = .longString := by decide
  have hlen := longString_byte h₀ h₁
  have hne : utf8 value ≠ [] := fun h => h₀ (by rw [h]; rfl)
  refine feed_string [0xd1, UInt8.ofNat ((utf8 value).length - 1)] (utf8 value) hp hid hne hlim
    (audioStep_waits fun r hr => ?_) ?_
  · -- The buffer holds the opcode alone, or the opcode, the length and a part of the string.
    rcases List.prefix_cons_iff.1 hr with rfl | ⟨r', rfl, hr'⟩
    · simp only [audioToken, hop]
    · have hr' := hr'.length_le
      change _ ≤ (utf8 value).dropLast.length at hr'
      rw [List.length_dropLast] at hr'
      simp only [audioToken, hop, hlen, List.length_cons]
      rw [if_pos (by omega)]
  · simp only [audioStep, audioToken, List.cons_append, List.nil_append, hop, hlen,
      List.length_cons, parseStringToken, List.drop_succ_cons, List.drop_zero, List.take_length,
      fromUtf8_utf8, List.length_nil]
    rw [if_neg (by omega), if_neg (by omega)]

/-- **A value token sets the selected node.**  The decoder, within the default limits, reads every
token the client's encoder writes as the value it was made from. -/
theorem feed_value (hp : p.audio = []) (hm : p.meter = []) (hl : p.limits = .default) {id : Int32}
    (hid : p.selectedId = some id) {value : NativeValue} {token : List UInt8}
    (henc : encodeValue value = .ok token) :
    p.feed (token.map (.data 1)) = .ok ([.set id value], p) := by
  have hbuf : p.limits.maxBufferedBytes = 65536 := by rw [hl]; rfl
  have hstr : p.limits.maxStringBytes = 256 := by rw [hl]; rfl
  have hm0 : p.meter.length = 0 := by rw [hm]; rfl
  cases value with
  | integer v =>
    simp only [encodeValue] at henc
    split_ifs at henc with hsmall h16
    · cases henc
      obtain ⟨hop, hv⟩ := smallInt_byte hsmall.1 hsmall.2
      obtain ⟨step, hs, hy⟩ := setValue_yields _ (.integer v) ([v.toUInt32.toUInt8]) hp hid rfl
      refine feed_opcode hp (by omega) ?_ hy hp
      simp only [audioToken, hop, hv]
      exact hs
    · cases henc
      obtain ⟨step, hs, hy⟩ := setValue_yields _ (.integer v) (0xd3 :: i16Bytes v) hp hid rfl
      have hop : Opcode.ofByte 0xd3 = .int16 := by decide
      have hv := toInt16_toInt32 h16.1 h16.2
      refine feed_token [0xd3, (v.toInt16.toUInt16 >>> 8).toUInt8] hp
        (by simp [hbuf, hm0]) (audioStep_waits fun r hr => ?_) ?_ hy hp
      · rcases List.prefix_cons_iff.1 hr with rfl | ⟨r', rfl, hr'⟩
        · simp only [audioToken, hop]
        · rw [List.prefix_nil.1 hr']
          simp only [audioToken, hop]
      · simp only [audioStep, audioToken, List.cons_append, List.nil_append, hop, i16OfBytes,
          BigEndian.fromBe16_toBe16, Int16.toInt16_toUInt16, hv]
        exact hs
    · cases henc
      obtain ⟨step, hs, hy⟩ := setValue_yields _ (.integer v) (0xd4 :: i32Bytes v) hp hid rfl
      have hop : Opcode.ofByte 0xd4 = .int32 := by decide
      refine feed_wide hp (by omega) (by decide) ?_ hy hp
      simp only [audioToken, hop, i32OfBytes, BigEndian.fromBe32_toBe32, Int32.toInt32_toUInt32]
      exact hs
  | float v =>
    cases henc
    obtain ⟨step, hs, hy⟩ := setValue_yields _ (.float v) (0xd5 :: f32Bytes v) hp hid rfl
    have hop : Opcode.ofByte 0xd5 = .float := by decide
    refine feed_wide hp (by omega) (by decide) ?_ hy hp
    simp only [audioToken, hop, f32OfBytes, BigEndian.fromBe32_toBe32]
    exact hs
  | rawFloat v =>
    cases henc
    obtain ⟨step, hs, hy⟩ := setValue_yields _ (.rawFloat v) (0xd6 :: f32Bytes v) hp hid rfl
    have hop : Opcode.ofByte 0xd6 = .rawFloat := by decide
    refine feed_wide hp (by omega) (by decide) ?_ hy hp
    simp only [audioToken, hop, f32OfBytes, BigEndian.fromBe32_toBe32]
    exact hs
  | string v =>
    simp only [encodeValue] at henc
    split_ifs at henc with h₀ h₁ h₂
    · cases henc
      have hv : v = "" := utf8_eq_nil (List.length_eq_zero_iff.1 h₀)
      obtain ⟨step, hs, hy⟩ := setValue_yields _ (.string v) ([0xd0]) hp hid rfl
      refine feed_opcode hp (by omega) ?_ hy hp
      rw [hv] at hs
      exact hs
    · cases henc
      exact feed_shortString hp hid h₀ h₁ (by omega) (by omega)
    · cases henc
      exact feed_longString hp hid h₀ h₂ (by omega) (by omega)

/-! ### The meter channel -/

theorem checkBufferLimit_meter {meter : List UInt8}
    (hlim : p.audio.length + meter.length ≤ p.limits.maxBufferedBytes) :
    { p with meter := meter }.checkBufferLimit = .ok () := by
  simp only [checkBufferLimit]
  rw [if_neg (by omega)]

theorem parseMeter_nil (hp : p.meter = []) : p.parseMeter = .ok (none, p) := by
  simp only [parseMeter, hp]

theorem pushEvent_meter_more {byte : UInt8}
    (hlim : p.audio.length + (p.meter ++ [byte]).length ≤ p.limits.maxBufferedBytes)
    (hs : { p with meter := p.meter ++ [byte] }.parseMeter =
      .ok (none, { p with meter := p.meter ++ [byte] })) :
    p.pushEvent (.data 3 byte) = .ok ([], { p with meter := p.meter ++ [byte] }) := by
  simp only [pushEvent, checkBufferLimit_meter hlim, drainWith, hs, bind, Except.bind]
  rfl

theorem pushEvent_meter_done {byte : UInt8} {r : NativeRequest}
    (hlim : p.audio.length + (p.meter ++ [byte]).length ≤ p.limits.maxBufferedBytes)
    (hs : { p with meter := p.meter ++ [byte] }.parseMeter = .ok (some r, p'))
    (hp' : p'.meter = []) : p.pushEvent (.data 3 byte) = .ok ([r], p') := by
  simp only [pushEvent, checkBufferLimit_meter hlim, bind, Except.bind, List.length_append,
    List.length_singleton, drainWith, hs, parseMeter_nil hp']
  rfl

theorem set_meter {meter : List UInt8} (hp : p.meter = meter) : { p with meter := meter } = p := by
  cases p
  subst hp
  rfl

/-- The bytes of an incomplete command collect in the buffer. -/
theorem feed_meter_more (hp : p.meter = []) {token : List UInt8}
    (hlim : p.audio.length + token.length ≤ p.limits.maxBufferedBytes)
    (hwait : ∀ pre, pre <+: token →
      { p with meter := pre }.parseMeter = .ok (none, { p with meter := pre })) :
    p.feed (token.map (.data 3)) = .ok ([], { p with meter := token }) := by
  have h := feed_collect 3 (fun meter => { p with meter := meter }) token fun pre byte hpre => by
      have hlen := hpre.length_le
      exact pushEvent_meter_more (p := { p with meter := pre }) (by dsimp only; omega)
        (hwait _ hpre)
  rwa [set_meter hp] at h

/-- **One meter command.**  If every proper beginning of a command waits and the whole command is
taken off by one pass, feeding it from an empty buffer gives that request. -/
theorem feed_meter_command (token : List UInt8) {last : UInt8} {r : NativeRequest}
    (hp : p.meter = [])
    (hlim : p.audio.length + (token ++ [last]).length ≤ p.limits.maxBufferedBytes)
    (hwait : ∀ pre, pre <+: token →
      { p with meter := pre }.parseMeter = .ok (none, { p with meter := pre }))
    (hs : { p with meter := token ++ [last] }.parseMeter = .ok (some r, p'))
    (hp' : p'.meter = []) :
    p.feed ((token ++ [last]).map (.data 3)) = .ok ([r], p') := by
  have hlen : (token ++ [last]).length = token.length + 1 := by simp
  have h₁ := feed_meter_more hp (by omega) hwait
  have h₂ : { p with meter := token }.pushEvent (.data 3 last) = .ok ([r], p') :=
    pushEvent_meter_done hlim hs hp'
  rw [List.map_append]
  exact feed_append_eq_ok.2 ⟨[], _, [r], h₁, feed_singleton h₂, rfl⟩

/-- `0xd3` and a port announce the UDP port. -/
theorem feed_meterPort (hp : p.meter = []) (hlim : p.audio.length + 3 ≤ p.limits.maxBufferedBytes)
    (port : UInt16) :
    p.feed ((0xd3 :: BigEndian.toBe16 port).map (.data 3)) =
      .ok ([.meterPort port], { p with meterPort := some port }) := by
  refine feed_meter_command [0xd3, (port >>> 8).toUInt8] hp hlim ?_ ?_ hp
  · intro pre hpre
    rcases List.prefix_cons_iff.1 hpre with rfl | ⟨r, rfl, hr⟩
    · rfl
    · rcases List.prefix_cons_iff.1 hr with rfl | ⟨r', rfl, hr'⟩
      · rfl
      · rw [List.prefix_nil.1 hr']
        rfl
  · rw [← set_meter hp]
    simp [parseMeter]

/-- `0xd4` and a report id wait for what follows. -/
theorem parseMeter_head {pre : List UInt8} {a b c e : UInt8} (hpre : pre <+: [0xd4, a, b, c, e]) :
    { p with meter := pre }.parseMeter = .ok (none, { p with meter := pre }) := by
  rcases List.prefix_cons_iff.1 hpre with rfl | ⟨r, rfl, hr⟩
  · rfl
  · have hshort : ∀ (a b c d e : UInt8) (tl : List UInt8), r = a :: b :: c :: d :: e :: tl →
        False := by
      rintro a b c d e tl rfl
      have := hr.length_le
      simp only [List.length_cons, List.length_nil] at this
      omega
    simp only [parseMeter, show ¬ (0xd4 : UInt8) = 0xd3 by decide, ↓reduceIte]

theorem parseMeter_collection {entries : List UInt8} {a b c e : UInt8}
    (hend : (0xde : UInt8) ∉ entries) :
    { p with meter := 0xd4 :: a :: b :: c :: e :: 0xdc :: entries }.parseMeter =
      .ok (none, { p with meter := 0xd4 :: a :: b :: c :: e :: 0xdc :: entries }) := by
  have hopen : (0xd4 :: a :: b :: c :: e :: 0xdc :: entries).length - 1 < 6 ∨
      (0xd4 :: a :: b :: c :: e :: 0xdc :: entries).getLast? ≠ some 0xde := by
    by_cases hnil : entries = []
    · left
      simp [hnil]
    · right
      intro hlast
      rw [show 0xd4 :: a :: b :: c :: e :: 0xdc :: entries = [0xd4, a, b, c, e, 0xdc] ++
        entries from
        rfl, List.getLast?_append_of_ne_nil _ hnil] at hlast
      exact hend (List.mem_of_getLast? hlast)
  simp only [parseMeter, show ¬ (0xd4 : UInt8) = 0xd3 by decide, ↓reduceIte, ne_eq, not_true]
  rw [if_pos hopen]

theorem parseMeter_waits {entries : List UInt8} {a b c e : UInt8} (hend : (0xde : UInt8) ∉ entries)
    {pre : List UInt8} (hpre : pre <+: [0xd4, a, b, c, e] ++ 0xdc :: entries) :
    { p with meter := pre }.parseMeter = .ok (none, { p with meter := pre }) := by
  rcases List.prefix_or_prefix_of_prefix hpre (List.prefix_append _ _) with h | ⟨r, rfl⟩
  · exact parseMeter_head h
  · rcases List.prefix_cons_iff.1 ((List.prefix_append_right_inj _).1 hpre) with
      rfl | ⟨r', rfl, hr'⟩
    · exact parseMeter_head (List.prefix_refl _)
    · exact parseMeter_collection fun h => hend (hr'.subset h)

/-- **A subscription.**  From an empty meter buffer, with the port announced, a subscription is read
as its report id and its meters. -/
theorem feed_subscribe (hp : p.meter = []) {port : UInt16} (hport : p.meterPort = some port)
    {entries : List UInt8} {meters : List Meter} (hend : (0xde : UInt8) ∉ entries)
    (hlim : p.audio.length + entries.length + 7 ≤ p.limits.maxBufferedBytes)
    (hdec : decodeMeterEntries entries p.limits.maxMeterEntries = .ok meters)
    (a b c e : UInt8) :
    p.feed (([0xd4, a, b, c, e] ++ 0xdc :: entries ++ [0xde]).map (.data 3)) =
      .ok ([.meterSubscribe port (BigEndian.fromBe32 a b c e) meters], p) := by
  refine feed_meter_command _ hp ?_ (fun pre hpre => parseMeter_waits hend hpre) ?_ hp
  · simp only [List.length_append, List.length_cons, List.length_nil]
    omega
  · have hlen : (0xd4 :: a :: b :: c :: e :: 0xdc :: (entries ++ [0xde])).length - 1 =
        entries.length + 6 := by
      simp
    have hclosed : ¬ (entries.length + 6 < 6 ∨
        (0xd4 :: a :: b :: c :: e :: 0xdc :: (entries ++ [0xde])).getLast? ≠ some 0xde) := by
      rw [show 0xd4 :: a :: b :: c :: e :: 0xdc :: (entries ++ [0xde]) =
        ([0xd4, a, b, c, e, 0xdc] ++ entries) ++ [0xde] from by simp, List.getLast?_concat]
      simp
    have hbody : ((0xd4 :: a :: b :: c :: e :: 0xdc :: (entries ++ [0xde])).take
        (entries.length + 6)).drop 6 = entries := by
      simp
    have hdrop : (0xd4 :: a :: b :: c :: e :: 0xdc :: (entries ++ [0xde])).drop
        (entries.length + 6 + 1) = [] := by
      rw [List.drop_eq_nil_iff]
      simp
    simp only [List.cons_append, List.nil_append, parseMeter,
      show ¬ (0xd4 : UInt8) = 0xd3 by decide, ↓reduceIte, ne_eq, not_true, hlen]
    rw [if_neg hclosed, hbody, hdec, hdrop]
    cases p
    subst hp hport
    rfl

end RequestParser

end LibWing
