import LibWing.Console.Read
import LibWing.PropMap.Layout

/-!
# The framing of the property map

A record tells how long its definition is in two bytes, while the console may send definitions of up
to a megabyte.

* `SweptRecord` : a record of a sweep, as the console may have sent its definition;
* `recordLoop` : the record loop of the generator, with all that a round of it reads;
* `Framed` : the records are counted and read as they were pushed;
* `framed_iff_fits` : they are exactly if no definition and no offset is too long for its field.
-/

namespace LibWing

open BigEndian

/-- A record of a sweep: a name that fits its field, and a definition that the reader of the console
accepts. -/
structure SweptRecord where
  /-- The byte in front of the name. -/
  flag : UInt8
  /-- The path of the node. -/
  fullname : String
  /-- Its definition, as it came. -/
  bytes : List UInt8
  /-- Its length has 16 bits. -/
  fullname_le : (utf8 fullname).length ≤ 65535
  /-- A reader accepts it. -/
  accepted : ∃ d, WingNodeDef.fromBytes bytes = .ok d
  /-- It is not too long for the reader. -/
  bytes_le : bytes.length ≤ maxNodeDefBytes

namespace SweptRecord

/-- What `push_entry` appends for the record. -/
def entry (r : SweptRecord) : List UInt8 := pushEntry r.flag r.fullname r.bytes

/-- The records of a sweep, pushed in turn. -/
def rawOf (records : List SweptRecord) : List UInt8 := records.flatMap entry

theorem rawOf_cons (pre : List UInt8) (r : SweptRecord) (records : List SweptRecord) :
    pre ++ rawOf (r :: records) = pre ++ (r.entry ++ rawOf records) := by
  rw [rawOf, List.flatMap_cons]
  rfl

theorem length_entry (r : SweptRecord) :
    r.entry.length = (3 + (utf8 r.fullname).length) + (2 + r.bytes.length) := by
  simp only [entry, pushEntry, List.length_append, List.length_singleton, length_toBe16]
  omega

/-- No record is empty. -/
theorem length_le_rawOf (records : List SweptRecord) : records.length ≤ (rawOf records).length := by
  induction records with
  | nil => exact Nat.zero_le _
  | cons r records ih =>
    have hentry := r.length_entry
    have hraw := congrArg List.length (rawOf_cons [] r records)
    rw [List.nil_append, List.nil_append, List.length_append] at hraw
    rw [hraw, List.length_cons]
    omega

/-- The offsets, names and definitions of the records, if the first is at `offset`. -/
def framesFrom : ℕ → List SweptRecord → List (ℕ × List UInt8 × List UInt8)
  | _, [] => []
  | offset, r :: records =>
    (offset, utf8 r.fullname, r.bytes) :: framesFrom (offset + r.entry.length) records

/-- The offsets of the records, if the first is at `offset`. -/
def offsetsFrom (offset : ℕ) (records : List SweptRecord) : List ℕ :=
  (framesFrom offset records).map Prod.fst

/-- Every definition fits the two bytes of its length, and every offset the four bytes of its entry
in the table. -/
structure Fits (offset : ℕ) (records : List SweptRecord) : Prop where
  /-- The lengths of the definitions have 16 bits. -/
  definitions : ∀ r ∈ records, r.bytes.length ≤ 65535
  /-- The offsets have 32. -/
  offsets : ∀ o ∈ offsetsFrom offset records, o < 2 ^ 32

theorem fits_nil (offset : ℕ) : Fits offset [] := by
  constructor
  · intro r h
    exact absurd h List.not_mem_nil
  · intro o h
    exact absurd h List.not_mem_nil

theorem fits_cons {offset : ℕ} {r : SweptRecord} {records : List SweptRecord} :
    Fits offset (r :: records) ↔
      (r.bytes.length ≤ 65535 ∧ offset < 2 ^ 32) ∧ Fits (offset + r.entry.length) records := by
  constructor
  · rintro ⟨hdefs, hoffsets⟩
    simp only [offsetsFrom, framesFrom, List.map_cons, List.forall_mem_cons] at hdefs hoffsets
    exact ⟨⟨hdefs.1, hoffsets.1⟩, hdefs.2, hoffsets.2⟩
  · rintro ⟨⟨hdef, hoffset⟩, hdefs, hoffsets⟩
    refine ⟨List.forall_mem_cons.2 ⟨hdef, hdefs⟩, ?_⟩
    simp only [offsetsFrom, framesFrom, List.map_cons, List.forall_mem_cons]
    exact ⟨hoffset, hoffsets⟩

end SweptRecord

namespace Wingschema

/-! ### The record loop -/

/-- What one round of the record loop reads: what it keeps, and the definition. -/
structure Round extends Scanned where
  /-- The bytes that are taken for the definition. -/
  definition : List UInt8

/-- The loop over the records, from offset `i` on, with the definitions it passes over. -/
def recordLoop (raw : List UInt8) : ℕ → ℕ → Option (List Round)
  | 0, _ => none
  | fuel + 1, i =>
    if i < raw.length then do
      let offset := i
      let nameLen ← be16 raw (i + 1)
      let name ← slice raw (i + 3) nameLen
      let i := i + (3 + nameLen)
      let defLen ← be16 raw i
      let definition ← slice raw (i + 2) defLen
      let id ← definitionId definition
      let i := i + (2 + defLen)
      let rest ← recordLoop raw fuel i
      return ⟨⟨UInt32.ofNat offset, name, id⟩, definition⟩ :: rest
    else some []

/-- The loop of the writer is this one, without the definitions. -/
theorem scanEntries_eq_recordLoop (raw : List UInt8) (fuel i : ℕ) :
    scanEntries raw fuel i = (recordLoop raw fuel i).map (List.map Round.toScanned) := by
  induction fuel generalizing i with
  | zero => rfl
  | succ fuel ih =>
    rw [scanEntries, recordLoop]
    split_ifs
    · simp only [ih, Option.bind_eq_bind, Option.map_bind, Option.bind_map, Function.comp_def,
        Option.pure_def, Option.map_some, List.map_cons]
    · rfl

variable {pre : List UInt8} {r : SweptRecord} {records : List SweptRecord}

theorem lt_length_rawOf (pre : List UInt8) (r : SweptRecord) (records : List SweptRecord) :
    pre.length < (pre ++ SweptRecord.rawOf (r :: records)).length := by
  have hentry := r.length_entry
  rw [SweptRecord.rawOf_cons, List.length_append, List.length_append]
  omega

theorem recordLoop_cons (pre : List UInt8) (r : SweptRecord) (records : List SweptRecord)
    (fuel : ℕ) :
    recordLoop (pre ++ SweptRecord.rawOf (r :: records)) (fuel + 1) pre.length = (do
      let id ← definitionId (r.bytes.take (r.bytes.length % 65536))
      let rest ← recordLoop (pre ++ SweptRecord.rawOf (r :: records)) fuel
        (pre.length + (3 + (utf8 r.fullname).length) + (2 + r.bytes.length % 65536))
      return ⟨⟨UInt32.ofNat pre.length, utf8 r.fullname, id⟩,
        r.bytes.take (r.bytes.length % 65536)⟩ :: rest) := by
  obtain ⟨hnameLen, hname, hdefLen, hdef⟩ := pushEntry_at pre (SweptRecord.rawOf records) r.flag
    r.bytes r.fullname_le (SweptRecord.rawOf_cons pre r records)
  rw [recordLoop, if_pos (lt_length_rawOf pre r records)]
  simp only [hnameLen, hname, hdefLen, hdef, Option.bind_eq_bind, Option.bind_some]

theorem countLoop_cons (pre : List UInt8) (r : SweptRecord) (records : List SweptRecord)
    (fuel count : ℕ) :
    countLoop (pre ++ SweptRecord.rawOf (r :: records)) (fuel + 1) pre.length count =
      countLoop (pre ++ SweptRecord.rawOf (r :: records)) fuel
        (pre.length + (3 + (utf8 r.fullname).length) + (2 + r.bytes.length % 65536))
        (count + 1) := by
  obtain ⟨hnameLen, -, hdefLen, -⟩ := pushEntry_at pre (SweptRecord.rawOf records) r.flag
    r.bytes r.fullname_le (SweptRecord.rawOf_cons pre r records)
  rw [countLoop, if_pos (lt_length_rawOf pre r records)]
  simp only [hnameLen, hdefLen, Option.bind_eq_bind, Option.bind_some]

theorem length_append_entry (hfits : r.bytes.length ≤ 65535) :
    pre.length + (3 + (utf8 r.fullname).length) + (2 + r.bytes.length % 65536) =
      (pre ++ r.entry).length := by
  rw [List.length_append, SweptRecord.length_entry, Nat.mod_eq_of_lt (Nat.lt_succ_of_le hfits)]
  omega

theorem append_rawOf_cons (pre : List UInt8) (r : SweptRecord) (records : List SweptRecord) :
    pre ++ SweptRecord.rawOf (r :: records) = (pre ++ r.entry) ++ SweptRecord.rawOf records := by
  rw [SweptRecord.rawOf_cons, List.append_assoc]

theorem not_lt_length_rawOf_nil (pre : List UInt8) :
    ¬ pre.length < (pre ++ SweptRecord.rawOf []).length := by
  rw [SweptRecord.rawOf, List.flatMap_nil, List.append_nil]
  exact Nat.lt_irrefl _

/-! ### What is read back -/

/-- The offset, the name and the definition of a round, as the generator keeps and reads them. -/
def Round.frame (round : Round) : ℕ × List UInt8 × List UInt8 :=
  (round.offset.toNat, round.name, round.definition)

/-- The records are counted, and the record loop reads exactly them, each at its offset. -/
def Framed (records : List SweptRecord) : Prop :=
  let raw := SweptRecord.rawOf records
  countEntries raw = some records.length ∧
    (recordLoop raw (raw.length + 1) 0).map (List.map Round.frame) =
      some (SweptRecord.framesFrom 0 records)

theorem countLoop_rawOf (hfits : ∀ r ∈ records, r.bytes.length ≤ 65535) {fuel : ℕ} (count : ℕ)
    (hfuel : records.length < fuel) :
    countLoop (pre ++ SweptRecord.rawOf records) fuel pre.length count =
      some (count + records.length) := by
  induction records generalizing pre fuel count with
  | nil =>
    obtain ⟨fuel, rfl⟩ := Nat.exists_eq_succ_of_ne_zero (Nat.ne_of_gt hfuel)
    rw [countLoop, if_neg (not_lt_length_rawOf_nil pre)]
    rfl
  | cons r records ih =>
    obtain ⟨fuel, rfl⟩ := Nat.exists_eq_succ_of_ne_zero (Nat.ne_of_gt (Nat.zero_lt_of_lt hfuel))
    obtain ⟨hr, hrest⟩ := List.forall_mem_cons.1 hfits
    rw [countLoop_cons, length_append_entry hr, append_rawOf_cons,
      ih hrest (count + 1) (Nat.lt_of_succ_lt_succ hfuel), List.length_cons]
    exact congrArg some (by omega)

theorem recordLoop_rawOf (hfits : SweptRecord.Fits pre.length records) {fuel : ℕ}
    (hfuel : records.length < fuel) :
    (recordLoop (pre ++ SweptRecord.rawOf records) fuel pre.length).map (List.map Round.frame) =
      some (SweptRecord.framesFrom pre.length records) := by
  induction records generalizing pre fuel with
  | nil =>
    obtain ⟨fuel, rfl⟩ := Nat.exists_eq_succ_of_ne_zero (Nat.ne_of_gt hfuel)
    rw [recordLoop, if_neg (not_lt_length_rawOf_nil pre)]
    rfl
  | cons r records ih =>
    obtain ⟨fuel, rfl⟩ := Nat.exists_eq_succ_of_ne_zero (Nat.ne_of_gt (Nat.zero_lt_of_lt hfuel))
    obtain ⟨⟨hr, hoffset⟩, hrest⟩ := SweptRecord.fits_cons.1 hfits
    rw [← List.length_append] at hrest
    have hloop := ih hrest (Nat.lt_of_succ_lt_succ hfuel)
    obtain ⟨d, hd⟩ := r.accepted
    obtain ⟨⟨_, rest⟩, hread, hd⟩ := Except.bind_eq_ok.1 hd
    have hid := definitionId_of_readDef hread
    have htake : r.bytes.take (r.bytes.length % 65536) = r.bytes := by
      rw [Nat.mod_eq_of_lt (Nat.lt_succ_of_le hr), List.take_length]
    have hkept : (UInt32.ofNat pre.length).toNat = pre.length := by
      rw [UInt32.toNat_ofNat', Nat.mod_eq_of_lt hoffset]
    obtain ⟨rounds, hrounds, hframes⟩ := Option.map_eq_some_iff.1 hloop
    rw [recordLoop_cons, length_append_entry hr, append_rawOf_cons, htake, hid, hrounds,
      SweptRecord.framesFrom, ← List.length_append, ← hframes]
    simp only [Option.bind_eq_bind, Option.bind_some, Option.pure_def, Option.map_some,
      List.map_cons, Round.frame, hkept]

theorem fits_of_recordLoop {fuel : ℕ}
    (h : (recordLoop (pre ++ SweptRecord.rawOf records) fuel pre.length).map
      (List.map Round.frame) =
      some (SweptRecord.framesFrom pre.length records)) :
    SweptRecord.Fits pre.length records := by
  induction records generalizing pre fuel with
  | nil => exact SweptRecord.fits_nil _
  | cons r records ih =>
    cases fuel with
    | zero => cases h
    | succ fuel =>
      obtain ⟨rounds, hrounds, hframes⟩ := Option.map_eq_some_iff.1 h
      rw [recordLoop_cons] at hrounds
      obtain ⟨id, -, hrounds⟩ := Option.bind_eq_some_iff.1 hrounds
      obtain ⟨rest, hrest, hrounds⟩ := Option.bind_eq_some_iff.1 hrounds
      cases hrounds
      rw [List.map_cons, SweptRecord.framesFrom] at hframes
      obtain ⟨hhead, htail⟩ := List.cons.inj hframes
      have hoffset : (UInt32.ofNat pre.length).toNat = pre.length := congrArg Prod.fst hhead
      have htake : r.bytes.take (r.bytes.length % 65536) = r.bytes :=
        congrArg (fun frame => frame.2.2) hhead
      have hr : r.bytes.length ≤ 65535 := by
        have hlen := congrArg List.length htake
        rw [List.length_take] at hlen
        omega
      have hlt : pre.length < 2 ^ 32 := by
        rw [← hoffset]
        exact UInt32.toNat_lt _
      rw [length_append_entry hr, append_rawOf_cons] at hrest
      rw [← List.length_append] at htail
      refine SweptRecord.fits_cons.2 ⟨⟨hr, hlt⟩, ?_⟩
      rw [← List.length_append]
      exact ih (by rw [hrest, Option.map_some, htail])

theorem framed_of_fits (hfits : SweptRecord.Fits 0 records) : Framed records := by
  have hfuel := Nat.lt_succ_of_le (SweptRecord.length_le_rawOf records)
  have hcount := @countLoop_rawOf [] records hfits.definitions _ 0 hfuel
  rw [Nat.zero_add] at hcount
  exact ⟨hcount, @recordLoop_rawOf [] records hfits _ hfuel⟩

theorem fits_of_framed (h : Framed records) : SweptRecord.Fits 0 records :=
  @fits_of_recordLoop [] records _ h.2

/-- **The records are read as they were pushed** exactly if every definition has at most 65535 bytes
and every record starts below 4 GiB. -/
theorem framed_iff_fits (records : List SweptRecord) :
    Framed records ↔
      (∀ r ∈ records, r.bytes.length ≤ 65535) ∧
        ∀ o ∈ SweptRecord.offsetsFrom 0 records, o < 2 ^ 32 := by
  constructor
  · intro h
    have hfits := fits_of_framed h
    exact ⟨hfits.definitions, hfits.offsets⟩
  · rintro ⟨hdefs, hoffsets⟩
    exact framed_of_fits ⟨hdefs, hoffsets⟩

/-! ### A definition that is too long -/

/-- A selector with `n` items that have no text. -/
def selectorOf (n : ℕ) : WingNodeDef where
  id := 1
  parentId := 0
  index := 0
  name := "sel"
  longName := ""
  nodeType := .stringEnum
  unit := .none
  readOnly := false
  minFloat := none
  maxFloat := none
  steps := none
  minInt := none
  maxInt := none
  maxStringLen := none
  stringEnum := some (List.replicate n ⟨"", ""⟩)
  floatEnum := none
  raw := []

theorem writeMany_replicate {α : Type} {write : α → Result (List UInt8)} {i : α}
    {bytes : List UInt8} (h : write i = .ok bytes) (n : ℕ) :
    writeMany write (List.replicate n i) = .ok (List.replicate n bytes).flatten := by
  induction n with
  | zero => rfl
  | succ n ih =>
    rw [List.replicate_succ, writeMany, h, ih]
    rfl

theorem selectorOf_body {n : ℕ} (hn : n ≤ 65535) :
    ∃ body, (selectorOf n).toWireBytes = .ok body ∧ body.length = 19 + n * 2 := by
  have hitems := writeMany_replicate (rfl : stringItem ⟨"", ""⟩ = .ok [0, 0]) n
  have hcount : itemCount (List.replicate n (⟨"", ""⟩ : StringEnumItem)).length =
      .ok (toBe16 (UInt16.ofNat n)) := by
    rw [List.length_replicate, itemCount, if_pos hn]
  have htype : (selectorOf n).typeBytes =
      .ok (toBe16 (UInt16.ofNat n) ++ (List.replicate n [0, 0]).flatten) :=
    Except.bind_eq_ok.2 ⟨_, rfl, Except.bind_eq_ok.2 ⟨_, hcount,
      Except.bind_eq_ok.2 ⟨_, hitems, rfl⟩⟩⟩
  refine ⟨_, Except.bind_eq_ok.2 ⟨_, rfl, Except.bind_eq_ok.2 ⟨_, rfl,
    Except.bind_eq_ok.2 ⟨_, htype, rfl⟩⟩⟩, ?_⟩
  have hname : (UInt8.ofNat (utf8 "sel").length :: utf8 "sel").length = 4 := by decide
  have hlong : (UInt8.ofNat (utf8 "").length :: utf8 "").length = 1 := by decide
  simp only [List.length_append, length_i32Bytes, length_toBe16, List.length_flatten,
    List.map_replicate, List.sum_replicate_nat, selectorOf, hname, hlong, List.length_cons,
    List.length_nil]
  omega

theorem exists_longRecord : ∃ r : SweptRecord, 65535 < r.bytes.length := by
  obtain ⟨body, hbody, hlen⟩ := selectorOf_body (n := 32768) (by decide)
  have hreadable : (selectorOf 32768).Readable := ⟨(fun _ h => by cases h), (fun _ h => by cases h)⟩
  have hmax : maxNodeDefBytes = 1048576 := rfl
  refine ⟨⟨0, "/sel", body, by decide, ⟨_, WingNodeDef.fromBytes_toWireBytes hreadable hbody⟩, ?_⟩,
    ?_⟩
  · omega
  · change 65535 < body.length
    omega

/-- A definition with more than 65535 bytes is not read back. -/
theorem not_framed_long : ¬ ∀ records : List SweptRecord, Framed records := by
  intro h
  obtain ⟨r, hr⟩ := exists_longRecord
  have hfits := fits_of_framed (h [r])
  exact absurd (hfits.definitions r (List.mem_singleton.2 rfl)) (Nat.not_le.2 hr)

end Wingschema

end LibWing
