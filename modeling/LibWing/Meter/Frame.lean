import LibWing.Meter.Basic

/-!
# Meter frames

A meter frame is the words of all meters of a request, one after the other: nothing on the wire
tells them apart.

* `ChannelMeter`, `DcaMeter`, `FxMeter`, `MonitorMeter`, `ChannelMeterV2` : the meter objects, with
  `fromSlice` and the words they are made of;
* `MeterFrameEntry` : a meter object of a family, and `OfFamily`, that of the meter requested;
* `decodeFrame` : `decode_frame`, with its panics;
* `decodeFrame_spec` : a frame is split exactly if it has as many words as the families take, and
  then into its own words.
-/

namespace LibWing

/-! ### Meter objects -/

/-- One (channel/aux/bus/main/matrix) meter object. -/
structure ChannelMeter where
  inputL : Int16
  inputR : Int16
  outputL : Int16
  outputR : Int16
  gateKey : Int16
  gateGain : Int16
  dynKey : Int16
  dynGain : Int16
  deriving DecidableEq, Repr

/-- One `dca` meter object. -/
structure DcaMeter where
  preFaderL : Int16
  preFaderR : Int16
  postFaderL : Int16
  postFaderR : Int16
  deriving DecidableEq, Repr

/-- One `fx` meter object: four levels and six state meters. -/
structure FxMeter where
  inputL : Int16
  inputR : Int16
  outputL : Int16
  outputR : Int16
  /-- What the processor of the slot reports. -/
  state : Vector Int16 6
  deriving DecidableEq, Repr

/-- One `monitor` meter object. -/
structure MonitorMeter where
  soloL : Int16
  soloR : Int16
  mon1L : Int16
  mon1R : Int16
  mon2L : Int16
  mon2R : Int16
  deriving DecidableEq, Repr

/-- One V2 (channel/aux/bus/main/matrix) meter object. -/
structure ChannelMeterV2 where
  inputL : Int16
  inputR : Int16
  outputL : Int16
  outputR : Int16
  gateKey : Int16
  gateGain : Int16
  gateLed : Int16
  dynKey : Int16
  dynGain : Int16
  dynState : Int16
  automixGain : Int16
  deriving DecidableEq, Repr

/-- `ChannelMeter::from_slice`; any other number of words is a panic. -/
def ChannelMeter.fromSlice : List Int16 → Option ChannelMeter
  | [w0, w1, w2, w3, w4, w5, w6, w7] =>
    some { inputL := w0, inputR := w1, outputL := w2, outputR := w3, gateKey := w4, gateGain := w5,
           dynKey := w6, dynGain := w7 }
  | _ => none

/-- `DcaMeter::from_slice`. -/
def DcaMeter.fromSlice : List Int16 → Option DcaMeter
  | [w0, w1, w2, w3] =>
    some { preFaderL := w0, preFaderR := w1, postFaderL := w2, postFaderR := w3 }
  | _ => none

/-- `FxMeter::from_slice`. -/
def FxMeter.fromSlice : List Int16 → Option FxMeter
  | [w0, w1, w2, w3, w4, w5, w6, w7, w8, w9] =>
    some { inputL := w0, inputR := w1, outputL := w2, outputR := w3,
           state := #v[w4, w5, w6, w7, w8, w9] }
  | _ => none

/-- `MonitorMeter::from_slice`. -/
def MonitorMeter.fromSlice : List Int16 → Option MonitorMeter
  | [w0, w1, w2, w3, w4, w5] =>
    some { soloL := w0, soloR := w1, mon1L := w2, mon1R := w3, mon2L := w4, mon2R := w5 }
  | _ => none

/-- `ChannelMeterV2::from_slice`. -/
def ChannelMeterV2.fromSlice : List Int16 → Option ChannelMeterV2
  | [w0, w1, w2, w3, w4, w5, w6, w7, w8, w9, w10] =>
    some { inputL := w0, inputR := w1, outputL := w2, outputR := w3, gateKey := w4, gateGain := w5,
           gateLed := w6, dynKey := w7, dynGain := w8, dynState := w9, automixGain := w10 }
  | _ => none

/-- `words.try_into()`, to an array of eight words. -/
def intoEight (words : List Int16) : Option (Vector Int16 8) :=
  if h : words.length = 8 then some ⟨words.toArray, h⟩ else none

/-- One decoded meter object, by the family it was requested of. -/
inductive MeterFrameEntry where
  | channel (m : ChannelMeter)
  | aux (m : ChannelMeter)
  | bus (m : ChannelMeter)
  | main (m : ChannelMeter)
  | matrix (m : ChannelMeter)
  | dca (m : DcaMeter)
  | fx (m : FxMeter)
  | source (words : Vector Int16 8)
  | output (words : Vector Int16 8)
  | monitor (m : MonitorMeter)
  | rta (words : List Int16)
  | channel2 (m : ChannelMeterV2)
  | aux2 (m : ChannelMeterV2)
  | bus2 (m : ChannelMeterV2)
  | main2 (m : ChannelMeterV2)
  | matrix2 (m : ChannelMeterV2)
  deriving DecidableEq, Repr

/-! ### Splitting a frame -/

abbrev channelWords : ℕ := 8
abbrev dcaWords : ℕ := 4
abbrev fxWords : ℕ := 10
abbrev sourceWords : ℕ := 8
abbrev outputWords : ℕ := 8
abbrev monitorWords : ℕ := 6
abbrev rtaWords : ℕ := 120
abbrev channelV2Words : ℕ := 11

/-- `meter_word_count`. -/
def meterWordCount : Meter → ℕ
  | .channel _ | .aux _ | .bus _ | .main _ | .matrix _ => channelWords
  | .dca _ => dcaWords
  | .fx _ => fxWords
  | .source _ => sourceWords
  | .output _ => outputWords
  | .monitor => monitorWords
  | .rta => rtaWords
  | .channel2 _ | .aux2 _ | .bus2 _ | .main2 _ | .matrix2 _ => channelV2Words

/-- The entry of a meter; `none` is a panic. -/
def meterEntry (words : List Int16) : Meter → Option MeterFrameEntry
  | .channel _ => (ChannelMeter.fromSlice words).map .channel
  | .aux _ => (ChannelMeter.fromSlice words).map .aux
  | .bus _ => (ChannelMeter.fromSlice words).map .bus
  | .main _ => (ChannelMeter.fromSlice words).map .main
  | .matrix _ => (ChannelMeter.fromSlice words).map .matrix
  | .dca _ => (DcaMeter.fromSlice words).map .dca
  | .fx _ => (FxMeter.fromSlice words).map .fx
  | .source _ => (intoEight words).map .source
  | .output _ => (intoEight words).map .output
  | .monitor => (MonitorMeter.fromSlice words).map .monitor
  | .rta => some (.rta words)
  | .channel2 _ => (ChannelMeterV2.fromSlice words).map .channel2
  | .aux2 _ => (ChannelMeterV2.fromSlice words).map .aux2
  | .bus2 _ => (ChannelMeterV2.fromSlice words).map .bus2
  | .main2 _ => (ChannelMeterV2.fromSlice words).map .main2
  | .matrix2 _ => (ChannelMeterV2.fromSlice words).map .matrix2

/-- `raw[offset..offset + n]`; `none` is a panic. -/
def sliceWords (raw : List Int16) (offset n : ℕ) : Option (List Int16) :=
  if offset + n ≤ raw.length then some ((raw.drop offset).take n) else none

/-- The loop of `decode_frame`. -/
def decodeFrameLoop (raw : List Int16) :
    List Meter → ℕ → List MeterFrameEntry → Option (List MeterFrameEntry)
  | [], _, out => some out
  | meter :: request, offset, out => do
    let n := meterWordCount meter
    let words ← sliceWords raw offset n
    let entry ← meterEntry words meter
    decodeFrameLoop raw request (offset + n) (out ++ [entry])

/-- `Error::MeterFrameLength`. -/
structure MeterFrameLength where
  /-- How many words the families take. -/
  expected : ℕ
  /-- How many there are. -/
  actual : ℕ
  deriving DecidableEq, Repr

/-- `decode_frame`; `none` is a panic. -/
def decodeFrame (request : List Meter) (raw : List Int16) :
    Option (Except MeterFrameLength (List MeterFrameEntry)) :=
  let expected := (request.map meterWordCount).sum
  if raw.length ≠ expected then some (.error ⟨expected, raw.length⟩)
  else (decodeFrameLoop raw request 0 []).map .ok

/-! ### The words of an entry -/

def ChannelMeter.words (m : ChannelMeter) : List Int16 :=
  [m.inputL, m.inputR, m.outputL, m.outputR, m.gateKey, m.gateGain, m.dynKey, m.dynGain]

def DcaMeter.words (m : DcaMeter) : List Int16 :=
  [m.preFaderL, m.preFaderR, m.postFaderL, m.postFaderR]

def FxMeter.words (m : FxMeter) : List Int16 :=
  [m.inputL, m.inputR, m.outputL, m.outputR] ++ m.state.toList

def MonitorMeter.words (m : MonitorMeter) : List Int16 :=
  [m.soloL, m.soloR, m.mon1L, m.mon1R, m.mon2L, m.mon2R]

def ChannelMeterV2.words (m : ChannelMeterV2) : List Int16 :=
  [m.inputL, m.inputR, m.outputL, m.outputR, m.gateKey, m.gateGain, m.gateLed, m.dynKey, m.dynGain,
    m.dynState, m.automixGain]

/-- The words of an entry, in the order of its fields. -/
def MeterFrameEntry.words : MeterFrameEntry → List Int16
  | channel m | aux m | bus m | main m | matrix m => m.words
  | dca m => m.words
  | fx m => m.words
  | source words | output words => words.toList
  | monitor m => m.words
  | rta words => words
  | channel2 m | aux2 m | bus2 m | main2 m | matrix2 m => m.words

/-- The entry is of the family of the meter. -/
inductive OfFamily : Meter → MeterFrameEntry → Prop where
  | channel (n : UInt8) (m : ChannelMeter) : OfFamily (.channel n) (.channel m)
  | aux (n : UInt8) (m : ChannelMeter) : OfFamily (.aux n) (.aux m)
  | bus (n : UInt8) (m : ChannelMeter) : OfFamily (.bus n) (.bus m)
  | main (n : UInt8) (m : ChannelMeter) : OfFamily (.main n) (.main m)
  | matrix (n : UInt8) (m : ChannelMeter) : OfFamily (.matrix n) (.matrix m)
  | dca (n : UInt8) (m : DcaMeter) : OfFamily (.dca n) (.dca m)
  | fx (n : UInt8) (m : FxMeter) : OfFamily (.fx n) (.fx m)
  | source (n : UInt8) (words : Vector Int16 8) : OfFamily (.source n) (.source words)
  | output (n : UInt8) (words : Vector Int16 8) : OfFamily (.output n) (.output words)
  | monitor (m : MonitorMeter) : OfFamily .monitor (.monitor m)
  | rta (words : List Int16) : OfFamily .rta (.rta words)
  | channel2 (n : UInt8) (m : ChannelMeterV2) : OfFamily (.channel2 n) (.channel2 m)
  | aux2 (n : UInt8) (m : ChannelMeterV2) : OfFamily (.aux2 n) (.aux2 m)
  | bus2 (n : UInt8) (m : ChannelMeterV2) : OfFamily (.bus2 n) (.bus2 m)
  | main2 (n : UInt8) (m : ChannelMeterV2) : OfFamily (.main2 n) (.main2 m)
  | matrix2 (n : UInt8) (m : ChannelMeterV2) : OfFamily (.matrix2 n) (.matrix2 m)

/-! ### No word is lost -/

variable {words raw : List Int16}

theorem exists_cons {n : ℕ} (h : words.length = n + 1) :
    ∃ w rest, words = w :: rest ∧ rest.length = n := by
  obtain ⟨w, rest, rfl⟩ := List.exists_of_length_succ words h
  exact ⟨w, rest, rfl, Nat.succ.inj h⟩

theorem exists_four (h : words.length = 4) : ∃ w0 w1 w2 w3, words = [w0, w1, w2, w3] :=
  List.length_eq_four.1 h

theorem exists_six (h : words.length = 6) :
    ∃ w0 w1 w2 w3 w4 w5, words = [w0, w1, w2, w3, w4, w5] := by
  obtain ⟨w0, _, rfl, h₁⟩ := exists_cons h
  obtain ⟨w1, _, rfl, h₂⟩ := exists_cons h₁
  obtain ⟨w2, w3, w4, w5, rfl⟩ := exists_four h₂
  exact ⟨w0, w1, w2, w3, w4, w5, rfl⟩

theorem exists_eight (h : words.length = 8) :
    ∃ w0 w1 w2 w3 w4 w5 w6 w7, words = [w0, w1, w2, w3, w4, w5, w6, w7] := by
  obtain ⟨w0, _, rfl, h₁⟩ := exists_cons h
  obtain ⟨w1, _, rfl, h₂⟩ := exists_cons h₁
  obtain ⟨w2, w3, w4, w5, w6, w7, rfl⟩ := exists_six h₂
  exact ⟨w0, w1, w2, w3, w4, w5, w6, w7, rfl⟩

theorem ChannelMeter.exists_fromSlice (h : words.length = channelWords) :
    ∃ m, ChannelMeter.fromSlice words = some m ∧ m.words = words := by
  obtain ⟨w0, w1, w2, w3, w4, w5, w6, w7, rfl⟩ := exists_eight h
  exact ⟨_, rfl, rfl⟩

theorem DcaMeter.exists_fromSlice (h : words.length = dcaWords) :
    ∃ m, DcaMeter.fromSlice words = some m ∧ m.words = words := by
  obtain ⟨w0, w1, w2, w3, rfl⟩ := exists_four h
  exact ⟨_, rfl, rfl⟩

theorem FxMeter.exists_fromSlice (h : words.length = fxWords) :
    ∃ m, FxMeter.fromSlice words = some m ∧ m.words = words := by
  obtain ⟨w0, _, rfl, h₁⟩ := exists_cons h
  obtain ⟨w1, _, rfl, h₂⟩ := exists_cons h₁
  obtain ⟨w2, w3, w4, w5, w6, w7, w8, w9, rfl⟩ := exists_eight h₂
  exact ⟨_, rfl, rfl⟩

theorem MonitorMeter.exists_fromSlice (h : words.length = monitorWords) :
    ∃ m, MonitorMeter.fromSlice words = some m ∧ m.words = words := by
  obtain ⟨w0, w1, w2, w3, w4, w5, rfl⟩ := exists_six h
  exact ⟨_, rfl, rfl⟩

theorem ChannelMeterV2.exists_fromSlice (h : words.length = channelV2Words) :
    ∃ m, ChannelMeterV2.fromSlice words = some m ∧ m.words = words := by
  obtain ⟨w0, _, rfl, h₁⟩ := exists_cons h
  obtain ⟨w1, _, rfl, h₂⟩ := exists_cons h₁
  obtain ⟨w2, _, rfl, h₃⟩ := exists_cons h₂
  obtain ⟨w3, w4, w5, w6, w7, w8, w9, w10, rfl⟩ := exists_eight h₃
  exact ⟨_, rfl, rfl⟩

theorem exists_intoEight (h : words.length = 8) :
    ∃ v, intoEight words = some v ∧ v.toList = words := by
  rw [intoEight, dif_pos h]
  exact ⟨_, rfl, rfl⟩

/-- **One meter**: as many words as its family takes become an entry of its family, made of these
words. -/
theorem exists_meterEntry {meter : Meter} (h : words.length = meterWordCount meter) :
    ∃ entry, meterEntry words meter = some entry ∧ OfFamily meter entry ∧ entry.words = words := by
  cases meter with
  | channel n | aux n | bus n | main n | matrix n =>
    obtain ⟨m, hm, hwords⟩ := ChannelMeter.exists_fromSlice h
    exact ⟨_, congrArg (Option.map _) hm, by constructor, hwords⟩
  | dca n =>
    obtain ⟨m, hm, hwords⟩ := DcaMeter.exists_fromSlice h
    exact ⟨_, congrArg (Option.map _) hm, .dca n m, hwords⟩
  | fx n =>
    obtain ⟨m, hm, hwords⟩ := FxMeter.exists_fromSlice h
    exact ⟨_, congrArg (Option.map _) hm, .fx n m, hwords⟩
  | source n | output n =>
    obtain ⟨v, hv, hwords⟩ := exists_intoEight h
    exact ⟨_, congrArg (Option.map _) hv, by constructor, hwords⟩
  | monitor =>
    obtain ⟨m, hm, hwords⟩ := MonitorMeter.exists_fromSlice h
    exact ⟨_, congrArg (Option.map _) hm, .monitor m, hwords⟩
  | rta => exact ⟨_, rfl, .rta words, rfl⟩
  | channel2 n | aux2 n | bus2 n | main2 n | matrix2 n =>
    obtain ⟨m, hm, hwords⟩ := ChannelMeterV2.exists_fromSlice h
    exact ⟨_, congrArg (Option.map _) hm, by constructor, hwords⟩

theorem decodeFrameLoop_spec {request : List Meter} {offset : ℕ} {out : List MeterFrameEntry}
    (h : offset + (request.map meterWordCount).sum = raw.length) :
    ∃ entries, decodeFrameLoop raw request offset out = some (out ++ entries) ∧
      List.Forall₂ OfFamily request entries ∧
      entries.flatMap MeterFrameEntry.words = raw.drop offset := by
  induction request generalizing offset out with
  | nil =>
    refine ⟨[], by rw [decodeFrameLoop, List.append_nil], .nil, ?_⟩
    rw [List.drop_eq_nil_of_le (by simpa using h.ge)]
    rfl
  | cons meter request ih =>
    rw [List.map_cons, List.sum_cons] at h
    have hslice : sliceWords raw offset (meterWordCount meter) =
        some ((raw.drop offset).take (meterWordCount meter)) := if_pos (by omega)
    have hlength : ((raw.drop offset).take (meterWordCount meter)).length =
        meterWordCount meter := by
      rw [List.length_take, List.length_drop]
      omega
    obtain ⟨entry, hentry, hfamily, hwords⟩ := exists_meterEntry hlength
    obtain ⟨entries, hentries, hfamilies, hrest⟩ :=
      @ih (offset + meterWordCount meter) (out ++ [entry]) (by omega)
    refine ⟨entry :: entries, ?_, .cons hfamily hfamilies, ?_⟩
    · rw [decodeFrameLoop, hslice, Option.bind_eq_bind, Option.bind_some, hentry,
        Option.bind_eq_bind, Option.bind_some, hentries, List.append_assoc, List.singleton_append]
    · rw [List.flatMap_cons, hwords, hrest, ← List.drop_drop, List.take_append_drop]

/-- **A frame is split without loss.**  No slice or conversion fails; the result is an entry for
each meter, of its family, with the words of the frame in their order, exactly if the frame has as
many words as the families take. -/
theorem decodeFrame_spec (request : List Meter) (raw : List Int16) :
    ∃ result, decodeFrame request raw = some result ∧
      ((∃ entries, result = .ok entries) ↔ raw.length = (request.map meterWordCount).sum) ∧
      (∀ entries, result = .ok entries → List.Forall₂ OfFamily request entries ∧
        entries.flatMap MeterFrameEntry.words = raw) ∧
      ∀ error, result = .error error →
        error = ⟨(request.map meterWordCount).sum, raw.length⟩ := by
  rw [decodeFrame]
  by_cases h : raw.length = (request.map meterWordCount).sum
  · obtain ⟨entries, hentries, hfamilies, hwords⟩ :=
      @decodeFrameLoop_spec raw request 0 [] (by rw [h, Nat.zero_add])
    refine ⟨.ok entries, ?_, ⟨fun _ => h, fun _ => ⟨entries, rfl⟩⟩, ?_, nofun⟩
    · rw [if_neg (not_not.2 h), hentries]
      rfl
    · rintro _ ⟨⟩
      exact ⟨hfamilies, hwords⟩
  · refine ⟨_, if_pos h, ⟨nofun, fun heq => absurd heq h⟩, nofun, ?_⟩
    rintro _ ⟨⟩
    rfl

end LibWing
