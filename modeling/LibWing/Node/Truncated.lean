import LibWing.Node.Indexed
import LibWing.Node.Recode

/-!
# Truncated definitions

A body that stops early is rejected, wherever it stops.  The readers do not look past what they take
(`Cursor.Local`), so one that accepts a prefix accepts the whole with bytes to spare; the encoder
leaves none to spare.  Only the range of a fader level may be missing.

* `WingNodeDef.fromBytes_prefix` : no strict prefix of any other definition is accepted;
* `WingNodeDef.fromBytes_prefix_fader` : the prefixes of a fader level, with and without its range;
* `WingNodeDef.truncated_rejected` : both, and no bytes at all make the reader panic.
-/

namespace LibWing

open BigEndian

/-! ### Readers that look at what they take -/

namespace Cursor

variable {α β : Type}

/-- A reader that does not look past what it takes, and fails with `InvalidData` only. -/
structure Local (x : Cursor α) : Prop where
  /-- More bytes behind are left over. -/
  extend : ∀ {s a s'}, x s = .ok (a, s') → ∀ t, x (s ++ t) = .ok (a, s' ++ t)
  /-- It only fails with `InvalidData`. -/
  fails : ∀ {s e}, x s = .error e → e = .invalidData

theorem Local.pure (a : α) : Local (Pure.pure a : Cursor α) where
  extend h t := by
    cases h
    rfl
  fails h := by cases h

theorem Local.bind {x : Cursor α} {f : α → Cursor β} (hx : Local x) (hf : ∀ a, Local (f a)) :
    Local (x >>= f) where
  extend h t := by
    obtain ⟨a, s₁, hfirst, h⟩ := bind_eq_ok.1 h
    rw [bind_ok (hx.extend hfirst t)]
    exact (hf a).extend h t
  fails {s e} h := by
    cases hfirst : x s with
    | error e' =>
      have he : (x >>= f) s = .error e' := by
        change (x s >>= fun p => f p.1 p.2) = _
        rw [hfirst]
        rfl
      rw [he] at h
      cases h
      exact hx.fails hfirst
    | ok p =>
      rw [bind_ok hfirst] at h
      exact (hf p.1).fails h

theorem Local.take (len : ℕ) : Local (Cursor.take len) where
  extend {s a s'} h t := by
    unfold Cursor.take at h ⊢
    split_ifs at h with hshort
    cases h
    have hle : len ≤ s.length := not_lt.mp hshort
    rw [if_neg (by rw [List.length_append]; omega), List.take_append_of_le_length hle,
      List.drop_append_of_le_length hle]
  fails {s e} h := by
    unfold Cursor.take at h
    split_ifs at h
    cases h
    rfl

theorem Local.readU8 : Local Cursor.readU8 where
  extend {s a s'} h t := by
    rcases s with _ | ⟨a, rest⟩ <;> cases h
    rfl
  fails {s e} h := by
    rcases s with _ | ⟨a, rest⟩ <;> cases h
    rfl

theorem Local.readU16 : Local Cursor.readU16 where
  extend {s a s'} h t := by
    rcases s with _ | ⟨a, _ | ⟨b, rest⟩⟩ <;> cases h
    rfl
  fails {s e} h := by
    rcases s with _ | ⟨a, _ | ⟨b, rest⟩⟩ <;> cases h <;> rfl

theorem Local.readWord (word : UInt8 → UInt8 → UInt8 → UInt8 → α) :
    Local (Cursor.readWord word) where
  extend {s a s'} h t := by
    rcases s with _ | ⟨a, _ | ⟨b, _ | ⟨c, _ | ⟨d, rest⟩⟩⟩⟩ <;> cases h
    rfl
  fails {s e} h := by
    rcases s with _ | ⟨a, _ | ⟨b, _ | ⟨c, _ | ⟨d, rest⟩⟩⟩⟩ <;> cases h <;> rfl

theorem Local.readI32 : Local Cursor.readI32 := by
  rw [readI32_eq]
  exact Local.readWord _

theorem Local.readF32 : Local Cursor.readF32 := by
  rw [readF32_eq]
  exact Local.readWord _

theorem Local.readShortString : Local Cursor.readShortString := by
  refine Local.readU8.bind fun len => (Local.take _).bind fun bytes => ?_
  cases fromUtf8 bytes with
  | some value => exact Local.pure _
  | none =>
    constructor
    · intro s a s' h
      cases h
    · intro s e h
      cases h
      rfl

theorem Local.readMany {x : Cursor α} (hitem : Local x) (n : ℕ) : Local (Cursor.readMany x n) := by
  induction n with
  | zero => exact Local.pure _
  | succ n ih => exact hitem.bind fun _ => ih.bind fun _ => Local.pure _

theorem Local.readStringItem : Local Cursor.readStringItem :=
  Local.readShortString.bind fun _ => Local.readShortString.bind fun _ => Local.pure _

theorem Local.readFloatItem : Local Cursor.readFloatItem :=
  Local.readF32.bind fun _ => Local.readShortString.bind fun _ => Local.pure _

/-- Only the range of a fader level is read by what is left. -/
theorem Local.readFields {d : WingNodeDef} (hd : d.nodeType ≠ .faderLevel) :
    Local (Cursor.readFields d) := by
  unfold Cursor.readFields
  cases ht : d.nodeType with
  | node => exact Local.pure _
  | unknown nibble => exact Local.pure _
  | string => exact Local.readU16.bind fun _ => Local.pure _
  | linearFloat | logarithmicFloat =>
    exact Local.readF32.bind fun _ => Local.readF32.bind fun _ => Local.readI32.bind fun _ =>
      Local.pure _
  | faderLevel => exact absurd ht hd
  | integer => exact Local.readI32.bind fun _ => Local.readI32.bind fun _ => Local.pure _
  | stringEnum =>
    exact Local.readU16.bind fun _ => (Local.readMany Local.readStringItem _).bind fun _ =>
      Local.pure _
  | floatEnum =>
    exact Local.readU16.bind fun _ => (Local.readMany Local.readFloatItem _).bind fun _ =>
      Local.pure _

theorem Local.readHeader (raw : List UInt8) : Local (Cursor.readHeader raw) :=
  Local.readI32.bind fun _ => Local.readI32.bind fun _ => Local.readU16.bind fun _ =>
    Local.readShortString.bind fun _ => Local.readShortString.bind fun _ =>
      Local.readU16.bind fun _ => Local.pure _

end Cursor

namespace WingNodeDef

variable {d : WingNodeDef} {body p t : List UInt8}

/-! ### Prefixes -/

theorem readHeader_prefix (ht : d.nodeType.Readable) (h : d.toWireBytes = .ok (p ++ t)) :
    p.length < d.flagsEnd ∧ Cursor.readHeader p p = .error .invalidData ∨
      d.flagsEnd ≤ p.length ∧ ∃ s, d.typeBytes = .ok (s ++ t) ∧
        Cursor.readHeader p p = .ok (d.header p, s) := by
  obtain ⟨front, fields, hbody, hlen, hfields, hheader⟩ := toWireBytes_eq ht h
  by_cases hshort : p.length < d.flagsEnd
  · refine Or.inl ⟨hshort, ?_⟩
    cases hread : Cursor.readHeader p p with
    | error e => rw [(Cursor.Local.readHeader p).fails hread]
    | ok q =>
      -- The header would be read from the whole body as well, and leave more than the fields.
      have hwhole := (Cursor.Local.readHeader p).extend hread t
      rw [hbody, hheader] at hwhole
      have hrest : fields = q.2 ++ t := congrArg Prod.snd (Except.ok.inj hwhole)
      have hsum := congrArg List.length hbody
      rw [hrest, List.length_append, List.length_append, List.length_append] at hsum
      omega
  · have hle : d.flagsEnd ≤ p.length := not_lt.mp hshort
    obtain ⟨s, rfl⟩ : front <+: p :=
      List.prefix_of_prefix_length_le ⟨fields, hbody.symm⟩ ⟨t, rfl⟩ (by omega)
    rw [List.append_assoc, List.append_cancel_left_eq] at hbody
    rw [← hbody] at hfields
    exact Or.inr ⟨hle, s, hfields, hheader _ s⟩

/-- A definition whose header cannot be read is rejected. -/
theorem fromBytes_of_header_error {e : Error} (h : Cursor.readHeader p p = .error e) :
    fromBytes p = .error e := by
  have hread : Cursor.readDef p p = .error e := by
    rw [Cursor.readDef_eq]
    change (Cursor.readHeader p p >>= fun q => Cursor.readFields q.1 q.2) = _
    rw [h]
    rfl
  rw [fromBytes, hread]
  rfl

/-- No strict prefix of the body of a definition is accepted, unless the definition is a fader
level: with the rest of the body, the fields would be read with that rest to spare. -/
theorem fromBytes_prefix (htype : d.nodeType ≠ .faderLevel) (ht : d.nodeType.Readable)
    (h : d.toWireBytes = .ok (p ++ t)) (hcut : t ≠ []) : fromBytes p = .error .invalidData := by
  rcases readHeader_prefix ht h with ⟨-, hheader⟩ | ⟨-, s, hfields, hheader⟩
  · exact fromBytes_of_header_error hheader
  · rw [fromBytes_of_header_ok hheader]
    have hlocal : Cursor.Local (Cursor.readFields (d.header p)) := Cursor.Local.readFields htype
    cases hread : Cursor.readFields (d.header p) s with
    | error e =>
      rw [hlocal.fails hread]
      rfl
    | ok q =>
      have hspare := hlocal.extend hread t
      -- The unit plays no part in the fields, whatever nibble it was written as.
      have hexact : Cursor.readFields (d.header p) (s ++ t) =
          .ok ({ d with unit := .ofNibble d.unit.nibble }.canonical p, []) :=
        readFields_base (d := { d with unit := .ofNibble d.unit.nibble }) hfields
      rw [hexact] at hspare
      have hnil : q.2 ++ t = [] := (congrArg Prod.snd (Except.ok.inj hspare)).symm
      exact absurd (List.append_eq_nil_iff.mp hnil).2 hcut

/-- A definition without the range of a fader level. -/
def withoutRange (d : WingNodeDef) (raw : List UInt8) : WingNodeDef :=
  { d.canonical raw with minFloat := none, maxFloat := none, steps := none }

variable {min max : F32} {steps : Int32}

/-- The body of a fader level with a range, cut anywhere: before the end of the flags it is
rejected, behind them it is the fader level without its range. -/
theorem fromBytes_prefix_fader (htype : d.nodeType = .faderLevel) (hd : d.Readable)
    (hmin : d.minFloat = some min) (hmax : d.maxFloat = some max) (hsteps : d.steps = some steps)
    (h : d.toWireBytes = .ok (p ++ t)) :
    (p.length < d.flagsEnd → fromBytes p = .error .invalidData) ∧
      (d.flagsEnd ≤ p.length → t ≠ [] → fromBytes p = .ok (d.withoutRange p)) := by
  have hrange : d.typeBytes = .ok (f32Bytes min ++ f32Bytes max ++ i32Bytes steps) := by
    simp only [typeBytes, htype, hmin, hmax, hsteps]
  rcases readHeader_prefix hd.1 h with ⟨hlt, hheader⟩ | ⟨hle, s, hfields, hheader⟩
  · exact ⟨fun _ => fromBytes_of_header_error hheader, fun hle => absurd hlt (not_lt.mpr hle)⟩
  · refine ⟨fun hlt => absurd hlt (not_lt.mpr hle), fun _ hcut => ?_⟩
    rw [hrange] at hfields
    have hlen := congrArg List.length (Except.ok.inj hfields)
    simp only [List.length_append, length_f32Bytes, length_i32Bytes] at hlen
    have hpos : 0 < t.length := List.length_pos_of_ne_nil hcut
    rw [fromBytes_of_header_ok hheader, header_eq_base hd]
    have hb : (d.base p).nodeType = .faderLevel := htype
    have hread : Cursor.readFields (d.base p) s = .ok (d.base p, s) := by
      have hget : (get : Cursor (List UInt8)) s = .ok (s, s) := rfl
      simp only [Cursor.readFields, hb]
      rw [Cursor.bind_ok hget, if_neg (by omega)]
      rfl
    rw [hread, withoutRange, canonical, htype]
    rfl

theorem length_of_range (htype : d.nodeType = .faderLevel) (hd : d.nodeType.Readable)
    (hmin : d.minFloat = some min) (hmax : d.maxFloat = some max) (hsteps : d.steps = some steps)
    (h : d.toWireBytes = .ok body) : body.length = d.flagsEnd + 12 := by
  obtain ⟨front, fields, rfl, hlen, hfields, -⟩ := toWireBytes_eq hd h
  simp only [typeBytes, htype, hmin, hmax, hsteps] at hfields
  cases hfields
  simp [hlen]

/-- **Truncated definitions are rejected.**  No strict prefix of the body of a definition is
accepted, unless it is a fader level; a fader level cut behind its flags and before the end of its
range is read without the range, cut earlier it is rejected, and so no prefix of it has other
values; and the reader by index gives what the cursor gives for any bytes, without an access outside
of them and without a subtraction below zero. -/
theorem truncated_rejected :
    (∀ (d : WingNodeDef) (body p t : List UInt8), d.nodeType ≠ .faderLevel → d.nodeType.Readable →
      d.toWireBytes = .ok body → body = p ++ t → t ≠ [] → fromBytes p = .error .invalidData) ∧
    (∀ (d : WingNodeDef) (min max : F32) (steps : Int32) (body p t : List UInt8),
      d.nodeType = .faderLevel → d.Readable → d.minFloat = some min → d.maxFloat = some max →
      d.steps = some steps → d.toWireBytes = .ok body → body = p ++ t →
        body.length = d.flagsEnd + 12 ∧
        (p.length < d.flagsEnd → fromBytes p = .error .invalidData) ∧
        (d.flagsEnd ≤ p.length → p.length < d.flagsEnd + 12 →
          fromBytes p = .ok (d.withoutRange p)) ∧
        (∀ d', fromBytes p = .ok d' → d' = d.withoutRange p ∨ d' = d.canonical body ∧ p = body)) ∧
    (∀ raw : List UInt8, Indexed.fromBytes raw = (fromBytes raw).mapError .error ∧
      Indexed.fromBytes raw ≠ .error .outOfBounds ∧ Indexed.fromBytes raw ≠ .error .underflow) := by
  refine ⟨?_, ?_, ?_⟩
  · rintro d _ p t htype ht h rfl hcut
    exact fromBytes_prefix htype ht h hcut
  · rintro d min max steps _ p t htype hd hmin hmax hsteps h rfl
    have hlen := length_of_range htype hd.1 hmin hmax hsteps h
    obtain ⟨hshort, hlong⟩ := fromBytes_prefix_fader htype hd hmin hmax hsteps h
    rw [List.length_append] at hlen ⊢
    refine ⟨hlen, hshort, fun hle hlt => hlong hle fun hnil => ?_, fun d' hread => ?_⟩
    · rw [hnil, List.length_nil] at hlen
      omega
    · by_cases hcut : t = []
      · rw [hcut, List.append_nil] at h ⊢
        rw [fromBytes_toWireBytes hd h] at hread
        exact Or.inr ⟨(Except.ok.inj hread).symm, rfl⟩
      · by_cases hle : d.flagsEnd ≤ p.length
        · rw [hlong hle hcut] at hread
          exact Or.inl (Except.ok.inj hread).symm
        · rw [hshort (not_le.mp hle)] at hread
          cases hread
  · intro raw
    rw [Indexed.fromBytes_eq]
    exact ⟨rfl, Indexed.mapError_error_ne _⟩

/-- A fader named `f`, with a range. -/
def fader : WingNodeDef where
  id := 7
  parentId := 1
  index := 2
  name := "f"
  longName := ""
  nodeType := .faderLevel
  unit := .db
  readOnly := false
  minFloat := some ⟨0xc3100000⟩
  maxFloat := some ⟨0x41200000⟩
  steps := some 1024
  minInt := none
  maxInt := none
  maxStringLen := none
  stringEnum := none
  floatEnum := none
  raw := []

/-- The body of `fader`. -/
def faderBody : List UInt8 :=
  [0, 0, 0, 1, 0, 0, 0, 7, 0, 2, 1, 0x66, 0, 0, 0x31] ++
    [0xc3, 0x10, 0, 0, 0x41, 0x20, 0, 0, 0, 0, 4, 0]

/-- A string parameter whose length is cut, a fader whose range is cut, and one whose flags are. -/
theorem truncated_rejected_fader :
    fromBytes [0, 0, 0, 1, 0, 0, 0, 7, 0, 2, 1, 0x66, 0, 0, 0x70, 0] = .error .invalidData ∧
      fromBytes (faderBody.take 20) = .ok (fader.withoutRange (faderBody.take 20)) ∧
      fromBytes (faderBody.take 14) = .error .invalidData := by
  have hbody : fader.toWireBytes = .ok faderBody := by decide +kernel
  have hend : fader.flagsEnd = 15 := by decide +kernel
  obtain ⟨hplain, hfader, -⟩ := truncated_rejected
  have hcut : ∀ n, faderBody = faderBody.take n ++ faderBody.drop n := fun n =>
    (List.take_append_drop n faderBody).symm
  have hreadable : fader.Readable := by
    constructor
    · intro nibble h
      cases h
    · intro nibble h
      cases h
  refine ⟨?_, ?_, ?_⟩
  · refine hplain { fader with nodeType := .string, unit := .none, maxStringLen := some 16 }
      [0, 0, 0, 1, 0, 0, 0, 7, 0, 2, 1, 0x66, 0, 0, 0x70, 0, 16] _ [16] (by decide) ?_
      (by decide +kernel) rfl (by decide)
    intro nibble h
    cases h
  · refine (hfader fader _ _ _ faderBody _ _ rfl hreadable rfl rfl rfl hbody
      (hcut 20)).2.2.1 ?_ ?_
    · rw [hend]
      decide
    · rw [hend]
      decide
  · refine (hfader fader _ _ _ faderBody _ _ rfl hreadable rfl rfl rfl hbody (hcut 14)).2.1 ?_
    rw [hend]
    decide

end WingNodeDef

end LibWing
