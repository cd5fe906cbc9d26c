import LibWing.Native.Tokens

/-!
# Resources of the request decoder

A server reads from peers it does not trust, so what the decoder keeps between two pushes is
bounded: one incomplete token of each channel and the current path.

* `payloadLength`, `IsAudioToken`, `IsMeterCommand` : the framing of the two channels;
* `PathBounded` : the path is within its limits, and `path_bytes` is the bytes of its names;
* `Within`, `Bounded` : what the parser keeps, between the events of a push and after them;
* `pushEvent_bounded` : one event keeps it; `pushes_resources` : so do all pushes, and a push that
  fails leaves a new decoder.
-/

namespace LibWing

namespace RequestParser

variable {p p' : RequestParser}

/-! ### Framing -/

/-- How many bytes follow the opcode of a token of the audio channel, as far as `payload`, the bytes
that have come, tells: a long string needs its length byte first. -/
def payloadLength (opcode : UInt8) (payload : List UInt8) : ℕ :=
  match Opcode.ofByte opcode with
  | .shortString => (opcode - 0x7f).toNat
  | .name => (opcode - 0xbf).toNat
  | .longString =>
    match payload with
    | [] => 1
    | len :: _ => len.toNat + 2
  | .index16 | .int16 => 2
  | .int32 | .float | .rawFloat | .nodeId => 4
  | .step => 1
  | _ => 0

/-- A token of the audio channel. -/
def IsAudioToken : List UInt8 → Prop
  | [] => False
  | opcode :: payload => payload.length = payloadLength opcode payload

/-- A command of the meter channel: a port, a renewal, a collection with any entries up to its first
end token, or an unknown opcode. -/
inductive IsMeterCommand : List UInt8 → Prop
  | port (a b : UInt8) : IsMeterCommand [0xd3, a, b]
  | renewal (a b c e : UInt8) : IsMeterCommand [0xd4, a, b, c, e]
  | collection (a b c e : UInt8) (entries : List UInt8) (h : 0xde ∉ entries) :
      IsMeterCommand (0xd4 :: a :: b :: c :: e :: 0xdc :: entries ++ [0xde])
  | unknown (opcode : UInt8) (h₁ : opcode ≠ 0xd3) (h₂ : opcode ≠ 0xd4) : IsMeterCommand [opcode]

/-- The audio buffer holds no whole token. -/
def AudioPending : List UInt8 → Prop
  | [] => True
  | opcode :: payload => payload.length < payloadLength opcode payload

/-- The audio buffer holds no more than one token. -/
def AudioReady : List UInt8 → Prop
  | [] => True
  | opcode :: payload => payload.length ≤ payloadLength opcode payload

/-- The meter buffer holds no whole command, or a renewal that may yet turn out to be a
collection. -/
inductive MeterPending : List UInt8 → Prop
  | nil : MeterPending []
  | port {rest : List UInt8} (h : rest.length < 2) : MeterPending (0xd3 :: rest)
  | report {rest : List UInt8} (h : rest.length ≤ 4) : MeterPending (0xd4 :: rest)
  | collection (a b c e : UInt8) {entries : List UInt8} (h : 0xde ∉ entries) :
      MeterPending (0xd4 :: a :: b :: c :: e :: 0xdc :: entries)

/-- The meter buffer when one byte has come since it was last parsed. -/
inductive MeterReady : List UInt8 → Prop
  | nil : MeterReady []
  | port {rest : List UInt8} (h : rest.length ≤ 2) : MeterReady (0xd3 :: rest)
  | report {rest : List UInt8} (h : rest.length ≤ 4) : MeterReady (0xd4 :: rest)
  | next (a b c e byte : UInt8) : MeterReady [0xd4, a, b, c, e, byte]
  | collection (a b c e : UInt8) {entries : List UInt8} (byte : UInt8) (h : 0xde ∉ entries) :
      MeterReady (0xd4 :: a :: b :: c :: e :: 0xdc :: (entries ++ [byte]))
  | unknown {opcode : UInt8} (h₁ : opcode ≠ 0xd3) (h₂ : opcode ≠ 0xd4) : MeterReady [opcode]

theorem AudioPending.ready {audio : List UInt8} (h : AudioPending audio) : AudioReady audio := by
  cases audio with
  | nil => trivial
  | cons opcode payload => exact Nat.le_of_lt h

/-- A byte more completes at most the token that is pending. -/
theorem AudioPending.append {audio : List UInt8} (h : AudioPending audio) (byte : UInt8) :
    AudioReady (audio ++ [byte]) := by
  cases audio with
  | nil => exact Nat.zero_le _
  | cons opcode payload =>
    change (payload ++ [byte]).length ≤ payloadLength opcode (payload ++ [byte])
    unfold AudioPending payloadLength at h
    unfold payloadLength
    rw [List.length_append, List.length_singleton]
    cases hop : Opcode.ofByte opcode with
    | longString =>
      simp only [hop] at h ⊢
      cases payload with
      | nil =>
        simp only [List.nil_append, List.length_nil]
        omega
      | cons len rest => exact h
    | _ =>
      simp only [hop] at h ⊢
      omega

theorem meterReady_singleton (byte : UInt8) : MeterReady [byte] := by
  by_cases h₁ : byte = 0xd3
  · rw [h₁]
    exact .port (Nat.zero_le _)
  by_cases h₂ : byte = 0xd4
  · rw [h₂]
    exact .report (Nat.zero_le _)
  exact .unknown h₁ h₂

theorem MeterPending.append {meter : List UInt8} (h : MeterPending meter) (byte : UInt8) :
    MeterReady (meter ++ [byte]) := by
  cases h with
  | nil => exact meterReady_singleton byte
  | @port rest h =>
    refine .port ?_
    change (rest ++ [byte]).length ≤ 2
    rw [List.length_append]
    exact h
  | @report rest h =>
    by_cases hlt : rest.length < 4
    · refine .report ?_
      change (rest ++ [byte]).length ≤ 4
      rw [List.length_append]
      exact hlt
    · match rest, h, hlt with
      | [a, b, c, e], _, _ => exact .next a b c e byte
      | [], _, hlt => exact absurd (by decide : 0 < 4) hlt
      | [_], _, hlt => exact absurd (by decide : 1 < 4) hlt
      | [_, _], _, hlt => exact absurd (by decide : 2 < 4) hlt
      | [_, _, _], _, hlt => exact absurd (by decide : 3 < 4) hlt
  | @collection a b c e entries h => exact .collection a b c e byte h

theorem AudioPending.strictPrefix {audio : List UInt8} (h : AudioPending audio) :
    audio = [] ∨ ∃ token, IsAudioToken token ∧ audio <+: token ∧ audio ≠ token := by
  cases audio with
  | nil => exact Or.inl rfl
  | cons opcode payload =>
    refine Or.inr ?_
    have hlt : payload.length < payloadLength opcode payload := h
    -- The rest of the token may be any bytes; after `0xd1` the first of them is its length.
    have hfill : ∀ n, payloadLength opcode (payload ++ List.replicate n 0) = payload.length + n →
        n ≠ 0 → ∃ token, IsAudioToken token ∧ opcode :: payload <+: token ∧
          opcode :: payload ≠ token := by
      intro n hn hpos
      refine ⟨opcode :: (payload ++ List.replicate n 0), ?_, ⟨List.replicate n 0, rfl⟩,
        fun heq => ?_⟩
      · change (payload ++ List.replicate n 0).length = _
        rw [hn, List.length_append, List.length_replicate]
      · have hlen := congrArg List.length heq
        simp only [List.length_cons, List.length_append, List.length_replicate] at hlen
        omega
    unfold payloadLength at hlt
    cases hop : Opcode.ofByte opcode with
    | longString =>
      simp only [hop] at hlt
      cases payload with
      | nil => exact hfill 2 (by simp only [payloadLength, hop]; rfl) (by omega)
      | cons len rest =>
        simp only [List.length_cons] at hlt
        refine hfill (len.toNat + 2 - (rest.length + 1)) ?_ (by omega)
        simp only [payloadLength, hop, List.cons_append, List.length_cons]
        omega
    | _ =>
      simp only [hop] at hlt
      refine hfill _ ?_ (Nat.sub_ne_zero_of_lt hlt)
      simp only [payloadLength, hop]
      omega

theorem MeterPending.strictPrefix {meter : List UInt8} (h : MeterPending meter) :
    meter = [] ∨ ∃ command, IsMeterCommand command ∧ meter <+: command ∧ meter ≠ command := by
  cases h with
  | nil => exact Or.inl rfl
  | @port rest h =>
    refine Or.inr ?_
    match rest, h with
    | [], _ => exact ⟨_, .port 0 0, ⟨[0, 0], rfl⟩, nofun⟩
    | [a], _ => exact ⟨_, .port a 0, ⟨[0], rfl⟩, nofun⟩
  | @report rest h =>
    refine Or.inr ?_
    match rest, h with
    | [], _ => exact ⟨_, .renewal 0 0 0 0, ⟨[0, 0, 0, 0], rfl⟩, nofun⟩
    | [a], _ => exact ⟨_, .renewal a 0 0 0, ⟨[0, 0, 0], rfl⟩, nofun⟩
    | [a, b], _ => exact ⟨_, .renewal a b 0 0, ⟨[0, 0], rfl⟩, nofun⟩
    | [a, b, c], _ => exact ⟨_, .renewal a b c 0, ⟨[0], rfl⟩, nofun⟩
    | [a, b, c, e], _ =>
      exact ⟨_, .collection a b c e [] List.not_mem_nil, ⟨[0xdc, 0xde], rfl⟩, nofun⟩
  | @collection a b c e entries h =>
    refine Or.inr ⟨_, .collection a b c e entries h, ⟨[0xde], rfl⟩, fun heq => ?_⟩
    have hlen := congrArg List.length heq
    simp only [List.cons_append, List.length_cons, List.length_append, List.length_nil] at hlen
    omega

/-! ### The path -/

/-- The bytes of the names among path elements. -/
def nameBytes (path : List PathElement) : ℕ :=
  (path.map fun
    | .name value => (utf8 value).length
    | .index _ => 0).sum

theorem nameBytes_append (a b : List PathElement) :
    nameBytes (a ++ b) = nameBytes a + nameBytes b := by
  simp only [nameBytes, List.map_append, List.sum_append]

/-- The path is within its limits. -/
structure PathBounded (p : RequestParser) : Prop where
  /-- The path is not too long. -/
  elements : p.path.length ≤ p.limits.maxPathElements
  /-- The bytes of its names are counted. -/
  counted : p.pathBytes = nameBytes p.path
  /-- They are not too many. -/
  bytes : p.pathBytes ≤ p.limits.maxPathBytes

/-- The last name of the path was counted, so that going up can take its bytes off again. -/
theorem PathBounded.last (h : PathBounded p) {name : String}
    (hlast : p.path.getLast? = some (.name name)) :
    p.pathBytes - (utf8 name).length + (utf8 name).length = p.pathBytes ∧
      p.pathBytes - (utf8 name).length = nameBytes p.path.dropLast := by
  have hpath := List.dropLast_append_getLast? _ hlast
  have hsum : p.pathBytes = nameBytes p.path.dropLast + (utf8 name).length := by
    rw [h.counted]
    conv_lhs => rw [← hpath]
    rw [nameBytes_append]
    rfl
  omega

/-- Going up keeps the count. -/
theorem PathBounded.up (h : PathBounded p) :
    (match p.path.getLast? with
      | some (PathElement.name name) => p.pathBytes - (utf8 name).length
      | _ => p.pathBytes) = nameBytes p.path.dropLast := by
  cases hlast : p.path.getLast? with
  | none =>
    rw [List.getLast?_eq_none_iff.1 hlast]
    rw [h.counted, List.getLast?_eq_none_iff.1 hlast]
    rfl
  | some element =>
    cases element with
    | name name => exact (h.last hlast).2
    | index value =>
      have hpath := List.dropLast_append_getLast? _ hlast
      change p.pathBytes = _
      rw [h.counted]
      conv_lhs => rw [← hpath]
      rw [nameBytes_append]
      rfl

/-- What a pass over the audio buffer leaves behind when it has used up `used` bytes. -/
structure Used (used : ℕ) (p p' : RequestParser) : Prop where
  /-- The limits are the same. -/
  limits : p'.limits = p.limits
  /-- The meter buffer is the same. -/
  meter : p'.meter = p.meter
  /-- These bytes are used up. -/
  audio : p'.audio = p.audio.drop used
  /-- The path keeps within its limits. -/
  path : PathBounded p'

/-- A pass waits for the rest of its token, or uses up all of it. -/
def Consumes (used : ℕ) (p : RequestParser) : AudioStep → Prop
  | .more => p.audio.length < used
  | .again p' => Used used p p'
  | .request _ p' => Used used p p'

theorem used_drainAudio (used : ℕ) (hl : p'.limits = p.limits) (hm : p'.meter = p.meter)
    (ha : p'.audio = p.audio) (hb : PathBounded p') : Used used p (p'.drainAudio used) :=
  ⟨hl, hm, by rw [drainAudio, ha], ⟨hb.elements, hb.counted, hb.bytes⟩⟩

theorem setValue_consumes {used : ℕ} {value : NativeValue} {step : AudioStep} (hb : PathBounded p)
    (h : p.setValue used value = .ok step) : Consumes used p step := by
  unfold setValue at h
  split at h
  · cases h
  · cases h
    exact used_drainAudio used rfl rfl rfl hb

theorem parseStringToken_consumes {len header : ℕ} {step : AudioStep} (hb : PathBounded p)
    (h : p.parseStringToken len header = .ok step) : Consumes (header + len) p step := by
  unfold parseStringToken at h
  split_ifs at h
  split at h
  · cases h
  · exact setValue_consumes hb h

theorem checkPathRoom_ok {n : ℕ} (h : p.checkPathRoom n = .ok ()) :
    p.path.length < p.limits.maxPathElements ∧ p.pathBytes + n ≤ p.limits.maxPathBytes := by
  unfold checkPathRoom at h
  split_ifs at h with hroom
  exact hroom

theorem pushPathIndex_consumes {index : UInt32} {used : ℕ} {step : AudioStep} (hb : PathBounded p)
    (h : (do
      let p ← p.pushPathIndex index
      return AudioStep.again (p.drainAudio used)) = .ok step) : Consumes used p step := by
  obtain ⟨p', hp', h⟩ := Except.bind_eq_ok.1 h
  unfold pushPathIndex at hp'
  obtain ⟨⟨⟩, hroom, hp'⟩ := Except.bind_eq_ok.1 hp'
  obtain ⟨helements, -⟩ := checkPathRoom_ok hroom
  cases Except.pure_eq_ok.1 hp'
  cases Except.pure_eq_ok.1 h
  refine used_drainAudio used rfl rfl rfl ⟨?_, ?_, hb.bytes⟩
  · rw [List.length_append]
    exact helements
  · rw [nameBytes_append]
    exact hb.counted

theorem length_lt_two {l : List UInt8} (h : ∀ a b tail, l = a :: b :: tail → False) :
    l.length < 2 := by
  match l, h with
  | [], _ => exact Nat.zero_lt_two
  | [_], _ => exact Nat.one_lt_two
  | a :: b :: tail, h => exact (h a b tail rfl).elim

theorem length_lt_four {l : List UInt8} (h : ∀ a b c d tail, l = a :: b :: c :: d :: tail → False) :
    l.length < 4 := by
  match l, h with
  | [], _ => decide
  | [_], _ => exact (by decide : 1 < 4)
  | [_, _], _ => exact (by decide : 2 < 4)
  | [_, _, _], _ => exact (by decide : 3 < 4)
  | a :: b :: c :: d :: tail, h => exact (h a b c d tail rfl).elim

/-! ### One token -/

section Token

variable {opcode : UInt8} {rest : List UInt8} {step : AudioStep}
  (hb : PathBounded p) (h : p.audioToken opcode rest = .ok step)

include hb h

theorem nameToken_consumes (hop : Opcode.ofByte opcode = .name) :
    Consumes (1 + payloadLength opcode rest) p step := by
  simp only [audioToken, payloadLength, hop] at h ⊢
  split_ifs at h with hshort
  · cases h
    change p.audio.length < _
    omega
  · obtain ⟨⟨⟩, hroom, h⟩ := Except.bind_eq_ok.1 h
    obtain ⟨helements, hbytes⟩ := checkPathRoom_ok hroom
    split at h
    · cases h
    · rename_i value hvalue
      cases Except.pure_eq_ok.1 h
      -- The bytes counted are the bytes of the name.
      have hname : (utf8 value).length = (opcode - 0xbf).toNat := by
        rw [utf8_fromUtf8 hvalue, List.length_take, List.length_drop]
        omega
      rw [Nat.add_comm 1]
      refine used_drainAudio _ rfl rfl rfl ⟨?_, ?_, hbytes⟩
      · rw [List.length_append]
        exact helements
      · rw [nameBytes_append, hb.counted, ← hname]
        rfl

theorem shortString_consumes (hop : Opcode.ofByte opcode = .shortString) :
    Consumes (1 + payloadLength opcode rest) p step := by
  simp only [audioToken, payloadLength, hop] at h ⊢
  split_ifs at h with hshort
  · cases h
    change p.audio.length < _
    omega
  · exact parseStringToken_consumes hb h

theorem longString_consumes (hp : p.audio = opcode :: rest)
    (hop : Opcode.ofByte opcode = .longString) :
      Consumes (1 + payloadLength opcode rest) p step := by
  simp only [audioToken, payloadLength, hop] at h ⊢
  cases rest with
  | nil =>
    cases h
    change p.audio.length < 2
    rw [hp]
    exact Nat.one_lt_two
  | cons len rest =>
    dsimp only at h ⊢
    split_ifs at h with hshort
    · cases h
      change p.audio.length < _
      omega
    · have hused := parseStringToken_consumes hb h
      rwa [show 2 + (len.toNat + 1) = 1 + (len.toNat + 2) by omega] at hused

theorem twoBytes_consumes (hp : p.audio = opcode :: rest)
    (hop : Opcode.ofByte opcode = .index16 ∨ Opcode.ofByte opcode = .int16) :
    Consumes (1 + payloadLength opcode rest) p step := by
  have hshort : (∀ a b tail, rest = a :: b :: tail → False) → p.audio.length < 3 := by
    intro hshort
    have hlt := length_lt_two hshort
    rw [hp, List.length_cons]
    omega
  rcases hop with hop | hop <;> simp only [audioToken, payloadLength, hop] at h ⊢ <;> split at h
  · exact pushPathIndex_consumes hb h
  · cases h
    exact hshort ‹_›
  · exact setValue_consumes hb h
  · cases h
    exact hshort ‹_›

theorem fourBytes_consumes (hp : p.audio = opcode :: rest)
    (hop : Opcode.ofByte opcode ∈ [.nodeId, .int32, .float, .rawFloat]) :
    Consumes (1 + payloadLength opcode rest) p step := by
  have hshort : (∀ a b c d tail, rest = a :: b :: c :: d :: tail → False) → p.audio.length < 5 := by
    intro hshort
    have hlt := length_lt_four hshort
    rw [hp, List.length_cons]
    omega
  simp only [List.mem_cons, List.not_mem_nil, or_false] at hop
  rcases hop with hop | hop | hop | hop <;> simp only [audioToken, payloadLength, hop] at h ⊢ <;>
    split at h
  · cases h
    exact used_drainAudio 5 rfl rfl rfl ⟨hb.elements, hb.counted, hb.bytes⟩
  · cases h
    exact hshort ‹_›
  all_goals first
    | exact setValue_consumes hb h
    | cases h
      exact hshort ‹_›

theorem moveToken_consumes (hop : Opcode.ofByte opcode = .root ∨ Opcode.ofByte opcode = .up) :
    Consumes (1 + payloadLength opcode rest) p step := by
  rcases hop with hop | hop <;> simp only [audioToken, payloadLength, hop] at h ⊢ <;> cases h
  · exact used_drainAudio 1 rfl rfl rfl ⟨Nat.zero_le _, rfl, Nat.zero_le _⟩
  · refine used_drainAudio 1 rfl rfl rfl ⟨?_, hb.up, le_trans ?_ hb.bytes⟩
    · exact (by rw [List.length_dropLast]; omega : p.path.dropLast.length ≤ p.path.length).trans
        hb.elements
    · dsimp only
      split
      · exact Nat.sub_le _ _
      · exact le_rfl

theorem requestToken_consumes (hp : p.audio = opcode :: rest) (hop : Opcode.ofByte opcode ∈
    [.click, .step, .data, .definition, .requestEnd, .nodeDef, .unknown]) :
    Consumes (1 + payloadLength opcode rest) p step := by
  simp only [List.mem_cons, List.not_mem_nil, or_false] at hop
  rcases hop with hop | hop | hop | hop | hop | hop | hop <;>
    simp only [audioToken, payloadLength, hop] at h ⊢
  · split at h <;> cases h
    exact used_drainAudio 1 rfl rfl rfl hb
  · split at h
    · cases h
      change p.audio.length < 2
      rw [hp]
      exact Nat.one_lt_two
    · split at h <;> cases h
      exact used_drainAudio 2 rfl rfl rfl hb
  · split at h <;> cases h <;> exact used_drainAudio 1 rfl rfl rfl hb
  · split at h <;> cases h <;> exact used_drainAudio 1 rfl rfl rfl hb
  all_goals
    cases h
    exact used_drainAudio 1 rfl rfl rfl hb

/-- **One pass over a token** waits for the rest of it or uses up all of it, and keeps the path
within its limits. -/
theorem audioToken_consumes (hp : p.audio = opcode :: rest) :
    Consumes (1 + payloadLength opcode rest) p step := by
  cases hop : Opcode.ofByte opcode
  case name => exact nameToken_consumes hb h hop
  case shortString => exact shortString_consumes hb h hop
  case longString => exact longString_consumes hb h hp hop
  case index16 | int16 => exact twoBytes_consumes hb h hp (by simp [hop])
  case nodeId | int32 | float | rawFloat => exact fourBytes_consumes hb h hp (by simp [hop])
  case root | up => exact moveToken_consumes hb h (by simp [hop])
  case smallInt | emptyString =>
    simp only [audioToken, payloadLength, hop] at h ⊢
    exact setValue_consumes hb h
  case index =>
    simp only [audioToken, payloadLength, hop] at h ⊢
    exact pushPathIndex_consumes hb h
  all_goals exact requestToken_consumes hb h hp (by simp [hop])

end Token

/-! ### One event -/

/-- The parser keeps within its limits, with `A` and `M` of its two buffers. -/
structure Within (A M : List UInt8 → Prop) (p : RequestParser) : Prop extends PathBounded p where
  /-- The audio buffer is as `A` says. -/
  audio : A p.audio
  /-- The meter buffer is as `M` says. -/
  meter : M p.meter
  /-- Both are within the limit together. -/
  buffered : p.audio.length + p.meter.length ≤ p.limits.maxBufferedBytes

/-- What the parser keeps between two events. -/
def Bounded (p : RequestParser) : Prop := Within AudioPending MeterPending p

theorem Used.audio_nil {opcode : UInt8} {rest : List UInt8} (hp : p.audio = opcode :: rest)
    (hready : AudioReady p.audio) (h : Used (1 + payloadLength opcode rest) p p') :
      p'.audio = [] := by
  rw [hp] at hready
  have hle : rest.length ≤ payloadLength opcode rest := hready
  rw [h.audio, hp]
  refine List.drop_eq_nil_of_le ?_
  rw [List.length_cons]
  omega

/-- `parse_audio` over a buffer of at most one token: either nothing happens, or the buffer is
empty afterwards. -/
theorem parseAudio_within {M : List UInt8 → Prop} {r : Option NativeRequest}
    (h : Within AudioReady M p) (hr : p.parseAudio = .ok (r, p')) : Within AudioPending M p' := by
  rw [parseAudio_eq] at hr
  obtain ⟨step, hs, hr⟩ := Except.bind_eq_ok.1 hr
  unfold audioStep at hs
  cases hp : p.audio with
  | nil =>
    rw [hp] at hs
    cases hs
    cases Except.pure_eq_ok.1 hr
    exact { h with audio := by rw [hp]; trivial }
  | cons opcode rest =>
    simp only [hp] at hs
    have hc := audioToken_consumes h.toPathBounded hs hp
    have hused : ∀ {q : RequestParser}, Used (1 + payloadLength opcode rest) p q →
        Within AudioPending M q ∧ q.audio = [] := by
      intro q hq
      have hnil := hq.audio_nil hp h.audio
      refine ⟨{ hq.path with audio := ?_, meter := ?_, buffered := ?_ }, hnil⟩
      · rw [hnil]
        trivial
      · rw [hq.meter]
        exact h.meter
      · have hle := h.buffered
        rw [hnil, hq.meter, hq.limits]
        exact (Nat.add_le_add_right (Nat.zero_le _) _).trans hle
    cases step with
    | more =>
      cases Except.pure_eq_ok.1 hr
      refine { h with audio := ?_ }
      have hlt : p.audio.length < 1 + payloadLength opcode rest := hc
      rw [hp, List.length_cons] at hlt
      rw [hp]
      change rest.length < payloadLength opcode rest
      omega
    | again q =>
      -- The navigation token was the whole buffer, so the recursive call finds nothing.
      obtain ⟨hw, hnil⟩ := hused hc
      have hstop := parseAudio_nil hnil
      cases hstop.symm.trans hr
      exact hw
    | request req q =>
      cases Except.pure_eq_ok.1 hr
      exact (hused hc).1

theorem parseMeter_frame {r : Option NativeRequest} (h : p.parseMeter = .ok (r, p')) :
    ∃ meter port, p' = { p with meter := meter, meterPort := port } ∧
      meter.length ≤ p.meter.length := by
  unfold parseMeter at h
  have hsame : ∃ meter port, p = { p with meter := meter, meterPort := port } ∧
      meter.length ≤ p.meter.length := ⟨p.meter, p.meterPort, rfl, le_rfl⟩
  have hdrop : ∀ n, (p.meter.drop n).length ≤ p.meter.length := fun n => by
    rw [List.length_drop]
    exact Nat.sub_le _ _
  split at h
  · cases h
    exact hsame
  split_ifs at h
  · split at h
    · cases h
      exact ⟨_, _, rfl, hdrop 3⟩
    · cases h
      exact hsame
  · split at h
    · split at h
      · cases h
        exact ⟨_, _, rfl, hdrop 5⟩
      · dsimp only at h
        split_ifs at h
        · cases h
          exact hsame
        · obtain ⟨meters, -, h⟩ := Except.bind_eq_ok.1 h
          split at h
          · cases h
          · cases Except.pure_eq_ok.1 h
            exact ⟨_, _, rfl, hdrop _⟩
    · cases h
      exact hsame
  · cases h
    exact ⟨_, _, rfl, hdrop 1⟩

/-- `parse_meter` over a buffer to which one byte has come: without a request the buffer holds no
whole command, and a request takes off all of it or all but that byte. -/
theorem parseMeter_buffer {r : Option NativeRequest} (hready : MeterReady p.meter)
    (h : p.parseMeter = .ok (r, p')) :
    (r = none ∧ MeterPending p'.meter) ∨ (r ≠ none ∧ MeterReady p'.meter) := by
  unfold parseMeter at h
  cases hm : p.meter with
  | nil =>
    simp only [hm] at h
    cases h
    exact Or.inl ⟨rfl, by rw [hm]; exact .nil⟩
  | cons opcode rest =>
    rw [hm] at hready
    simp only [hm] at h
    cases hready with
    | port hlen =>
      rw [if_pos rfl] at h
      match rest, hlen, h with
      | [a, b], _, h =>
        cases h
        exact Or.inr ⟨nofun, .nil⟩
      | [], _, h =>
        cases h
        exact Or.inl ⟨rfl, by rw [hm]; exact .port (by decide)⟩
      | [a], _, h =>
        cases h
        exact Or.inl ⟨rfl, by rw [hm]; exact .port (Nat.one_lt_two)⟩
    | report hlen =>
      have hne : ¬ (0xd4 : UInt8) = 0xd3 := by decide
      rw [if_neg hne, if_pos rfl] at h
      have hnone : r = none ∧ p' = p := by
        match rest, hlen, h with
        | [], _, h | [_], _, h | [_, _], _, h | [_, _, _], _, h | [_, _, _, _], _, h =>
          cases h
          exact ⟨rfl, rfl⟩
      obtain ⟨rfl, rfl⟩ := hnone
      exact Or.inl ⟨rfl, by rw [hm]; exact .report hlen⟩
    | next a b c e byte =>
      have hne : ¬ (0xd4 : UInt8) = 0xd3 := by decide
      rw [if_neg hne, if_pos rfl] at h
      by_cases hdc : byte ≠ 0xdc
      · simp only [if_pos hdc] at h
        cases h
        exact Or.inr ⟨nofun, meterReady_singleton byte⟩
      · have hbyte : byte = 0xdc := Decidable.not_not.1 hdc
        subst hbyte
        cases h
        exact Or.inl ⟨rfl, by rw [hm]; exact .collection a b c e List.not_mem_nil⟩
    | @collection a b c e entries byte hnot =>
      have hne : ¬ (0xd4 : UInt8) = 0xd3 := by decide
      have hdc : ¬ (0xdc : UInt8) ≠ 0xdc := fun h => h rfl
      rw [if_neg hne, if_pos rfl] at h
      simp only [if_neg hdc] at h
      have hlast : (0xd4 :: a :: b :: c :: e :: 0xdc :: (entries ++ [byte])).getLast? =
          some byte := by
        rw [show 0xd4 :: a :: b :: c :: e :: 0xdc :: (entries ++ [byte]) =
          (0xd4 :: a :: b :: c :: e :: 0xdc :: entries) ++ [byte] from rfl, List.getLast?_concat]
      rw [hlast] at h
      split_ifs at h with hopen
      · -- The collection goes on.
        cases h
        refine Or.inl ⟨rfl, ?_⟩
        rw [hm]
        refine .collection a b c e fun hmem => ?_
        rcases List.mem_append.1 hmem with hmem | hmem
        · exact hnot hmem
        · rcases hopen with hshort | hother
          · simp only [List.length_cons, List.length_append, List.length_nil] at hshort
            omega
          · exact hother (by rw [List.mem_singleton.1 hmem])
      · obtain ⟨meters, -, h⟩ := Except.bind_eq_ok.1 h
        split at h
        · cases h
        · cases Except.pure_eq_ok.1 h
          refine Or.inr ⟨nofun, ?_⟩
          rw [List.drop_eq_nil_of_le (by omega)]
          exact .nil
    | unknown h₁ h₂ =>
      rw [if_neg h₁, if_neg h₂] at h
      cases h
      exact Or.inr ⟨nofun, .nil⟩

theorem parseMeter_within {A : List UInt8 → Prop} {r : Option NativeRequest}
    (h : Within A MeterReady p) (hr : p.parseMeter = .ok (r, p')) :
    (r = none → Within A MeterPending p') ∧ (r ≠ none → Within A MeterReady p') := by
  obtain ⟨meter, port, rfl, hlen⟩ := parseMeter_frame hr
  have hbuffered : p.audio.length + meter.length ≤ p.limits.maxBufferedBytes :=
    (Nat.add_le_add_left hlen _).trans h.buffered
  have hw : ∀ {M : List UInt8 → Prop}, M meter →
      Within A M { p with meter := meter, meterPort := port } := fun hM =>
    ⟨⟨h.elements, h.counted, h.bytes⟩, h.audio, hM, hbuffered⟩
  rcases parseMeter_buffer h.meter hr with ⟨hnone, hm⟩ | ⟨hsome, hm⟩
  · exact ⟨fun _ => hw hm, fun hne => absurd hnone hne⟩
  · exact ⟨fun hnone => absurd hnone hsome, fun _ => hw hm⟩

/-- A loop `while let Some(request) = parse()?`: each request keeps `Pre`, and the last call, which
finds none, establishes `Post`. -/
theorem drainWith_post {parse : RequestParser → Result (Option NativeRequest × RequestParser)}
    (Pre : RequestParser → Prop) {Post : RequestParser → Prop} (size : RequestParser → ℕ)
    (hsize : ∀ p p' r, parse p = .ok (some r, p') → size p' < size p)
    (hnone : ∀ p p', Pre p → parse p = .ok (none, p') → Post p')
    (hsome : ∀ p p' r, Pre p → parse p = .ok (some r, p') → Pre p') {n : ℕ} (hn : size p < n)
    {rs : List NativeRequest} (h : Pre p) (hr : drainWith parse n p = .ok (rs, p')) : Post p' := by
  induction n generalizing p rs with
  | zero => exact absurd hn (Nat.not_lt_zero _)
  | succ n ih =>
    simp only [drainWith] at hr
    obtain ⟨⟨r, q⟩, hq, hr⟩ := Except.bind_eq_ok.1 hr
    cases r with
    | none =>
      cases Except.pure_eq_ok.1 hr
      exact hnone p p' h hq
    | some r =>
      obtain ⟨⟨rs', q'⟩, hq', hr⟩ := Except.bind_eq_ok.1 hr
      cases Except.pure_eq_ok.1 hr
      have hlt := hsize p q r hq
      exact ih (by omega) (hsome p q r h hq) hq'

/-- **One event** keeps the parser within its limits. -/
theorem pushEvent_bounded {event : ChannelEvent} {rs : List NativeRequest} (h : Bounded p)
    (hr : p.pushEvent event = .ok (rs, p')) : Bounded p' := by
  have hcheck : ∀ {q : RequestParser}, q.checkBufferLimit = .ok () →
      q.audio.length + q.meter.length ≤ q.limits.maxBufferedBytes := by
    intro q hq
    unfold checkBufferLimit at hq
    split_ifs at hq with hgt
    exact Nat.not_lt.1 hgt
  cases event with
  | selected channel =>
    obtain ⟨⟨rs', q⟩, hq, hr⟩ := Except.bind_eq_ok.1 hr
    cases Except.pure_eq_ok.1 hr
    unfold flushMeterRenewal at hq
    split at hq
    · cases hq
      exact h
    · split_ifs at hq
      cases hq
      exact ⟨⟨h.elements, h.counted, h.bytes⟩, h.audio, .nil,
        (Nat.add_le_add_left (Nat.zero_le _) _).trans h.buffered⟩
    · cases hq
  | data channel byte =>
    simp only [pushEvent] at hr
    split_ifs at hr
    · obtain ⟨⟨⟩, hc, hr⟩ := Except.bind_eq_ok.1 hr
      refine drainWith_post (Within AudioReady MeterPending) (fun p => p.audio.length)
        (fun p p' r hp => (parseAudio_keeps hp).2.2.2 (Option.some_ne_none r))
        (fun p p' hp hr => parseAudio_within hp hr) (fun p p' r hp hr => ?_)
          (Nat.lt_succ_self _) ?_ hr
      · have hw := parseAudio_within hp hr
        exact { hw with audio := hw.audio.ready }
      · exact ⟨⟨h.elements, h.counted, h.bytes⟩, h.audio.append byte, h.meter, hcheck hc⟩
    · obtain ⟨⟨⟩, hc, hr⟩ := Except.bind_eq_ok.1 hr
      refine drainWith_post (Within AudioPending MeterReady) (fun p => p.meter.length)
        (fun p p' r hp => (parseMeter_keeps hp).2 (Option.some_ne_none r))
        (fun p p' hp hr => (parseMeter_within hp hr).1 rfl)
        (fun p p' r hp hr => (parseMeter_within hp hr).2 (Option.some_ne_none r))
        (Nat.lt_succ_self _) ?_ hr
      exact ⟨⟨h.elements, h.counted, h.bytes⟩, h.audio, h.meter.append byte, hcheck hc⟩
    · cases Except.pure_eq_ok.1 hr
      exact h

theorem feed_bounded {events : List ChannelEvent} {rs : List NativeRequest} (h : Bounded p)
    (hr : p.feed events = .ok (rs, p')) : Bounded p' := by
  induction events generalizing p rs with
  | nil =>
    cases hr
    exact h
  | cons event events ih =>
    obtain ⟨rs₁, p₁, rs₂, h₁, h₂, rfl⟩ := feed_cons_eq_ok.1 hr
    exact ih (pushEvent_bounded h h₁) h₂

end RequestParser

namespace NativeRequestDecoder

open RequestParser

/-! ### Runs -/

theorem bounded_new (limits : NativeLimits) : Bounded (new limits).toRequestParser :=
  ⟨⟨Nat.zero_le _, rfl, Nat.zero_le _⟩, trivial, .nil, Nat.zero_le _⟩

/-- A sequence of pushes, whatever their outcomes. -/
def pushes (d : NativeRequestDecoder) (fragments : List (List UInt8)) : NativeRequestDecoder :=
  fragments.foldl (fun d fragment => (d.push fragment).2) d

theorem push_error {d d' : NativeRequestDecoder} {fragment : List UInt8} {e : Error}
    (h : d.push fragment = (.error e, d')) : d' = new d.limits := by
  unfold push at h
  cases hev : d.pushEvents fragment with
  | error e' =>
    rw [hev] at h
    exact (Prod.mk.inj h).2.symm
  | ok x =>
    rw [hev] at h
    cases h

/-- **One push**, whether it succeeds or fails, keeps the decoder and its limits. -/
theorem push_bounded {d : NativeRequestDecoder} (h : Bounded d.toRequestParser)
    (fragment : List UInt8) :
    Bounded (d.push fragment).2.toRequestParser ∧ (d.push fragment).2.limits = d.limits := by
  rcases hpush : d.push fragment with ⟨e | rs, d'⟩
  · rw [push_error hpush]
    exact ⟨bounded_new d.limits, rfl⟩
  · obtain ⟨hall, -⟩ := push_eq_ok.1 hpush
    obtain ⟨events, -, hfeed⟩ := decodeAll_eq_ok.1 hall
    exact ⟨feed_bounded h hfeed, decodeAll_limits hall⟩

theorem pushes_bounded {d : NativeRequestDecoder} (h : Bounded d.toRequestParser)
    (fragments : List (List UInt8)) :
    Bounded (d.pushes fragments).toRequestParser ∧ (d.pushes fragments).limits = d.limits := by
  induction fragments generalizing d with
  | nil => exact ⟨h, rfl⟩
  | cons fragment fragments ih =>
    obtain ⟨hb, hl⟩ := push_bounded h fragment
    obtain ⟨hb', hl'⟩ := ih hb
    exact ⟨hb', hl'.trans hl⟩

/-- **The resources of the decoder.**  Whatever the limits and whatever fragments are pushed, some
of them failing: afterwards the audio buffer is empty or a strict prefix of one token, the meter
buffer is empty or a strict prefix of one command, both together are no larger than the limit on
buffered bytes, the path has no more elements than allowed, `path_bytes` is the bytes of its names
and no more than allowed, so that going up never takes more off it than there is, and a push that
fails leaves the decoder that `new` makes of these limits. -/
theorem pushes_resources (limits : NativeLimits) (fragments : List (List UInt8)) :
    let d := (new limits).pushes fragments
    (d.audio = [] ∨ ∃ token, IsAudioToken token ∧ d.audio <+: token ∧ d.audio ≠ token) ∧
      (d.meter = [] ∨ ∃ command, IsMeterCommand command ∧ d.meter <+: command ∧ d.meter ≠ command) ∧
      d.audio.length + d.meter.length ≤ limits.maxBufferedBytes ∧
      d.path.length ≤ limits.maxPathElements ∧
      d.pathBytes = nameBytes d.path ∧ d.pathBytes ≤ limits.maxPathBytes ∧
      (∀ name, d.path.getLast? = some (.name name) → (utf8 name).length ≤ d.pathBytes) ∧
      ∀ fragment e d', d.push fragment = (.error e, d') → d' = new limits := by
  intro d
  obtain ⟨hb, hl⟩ := pushes_bounded (bounded_new limits) fragments
  have hlimits : d.limits = limits := hl
  have hbuffered := hb.buffered
  have helements := hb.elements
  have hbytes := hb.bytes
  rw [hl] at hbuffered helements hbytes
  refine ⟨hb.audio.strictPrefix, hb.meter.strictPrefix, hbuffered, helements, hb.counted,
    hbytes, ?_, ?_⟩
  · intro name hlast
    have hsum := (hb.toPathBounded.last hlast).1
    exact hsum ▸ Nat.le_add_left _ _
  · intro fragment e d' hpush
    rw [push_error hpush, hlimits]

end NativeRequestDecoder

end LibWing
