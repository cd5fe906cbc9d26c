import LibWing.PropMap.Lookup

/-!
# The property map is faithful

The index of the blob that the generator writes is a map of the records it was given.

* `new_blob` : the index takes a blob apart as the generator put it together;
* `placed` : the records with their offsets, in the order of their names;
* `represents_blob` : the index has these records, and its tables agree;
* `writePropmapBin_faithful` : the lookups.
-/

namespace LibWing

open BigEndian Wingschema

/-! ### The header -/

/-- The parts of a blob. -/
def blobOf (ix : PropIndex) : List UInt8 :=
  propMapMagic ++ (toBe32 (UInt32.ofNat ix.len) ++ (toBe32 (UInt32.ofNat ix.entries.length) ++
    (ix.entries ++ (ix.offsets ++ (ix.byIdTable ++ ix.hash)))))

/-- **`PropIndex::new`** takes a blob apart. -/
theorem new_blob {ix : PropIndex} (hlen : ix.len < 2 ^ 32) (hentries : ix.entries.length < 2 ^ 32)
    (hoffsets : ix.offsets.length = ix.len * 4) (hbyId : ix.byIdTable.length = ix.len * 4)
    (hhash : ix.hash.length = hashSlots ix.len * 4) : PropIndex.new (blobOf ix) = some ix := by
  have htoNat : ∀ n < 2 ^ 32, (UInt32.ofNat n).toNat = n := by
    intro n hn
    rw [UInt32.toNat_ofNat', Nat.mod_eq_of_lt hn]
  let rest := ix.entries ++ (ix.offsets ++ (ix.byIdTable ++ ix.hash))
  have hcount : be32 (blobOf ix) 4 = some ix.len := by
    have h := be32_at propMapMagic (toBe32 (UInt32.ofNat ix.entries.length) ++ rest)
      (UInt32.ofNat ix.len)
    rwa [htoNat _ hlen] at h
  have hsize : be32 (blobOf ix) 8 = some ix.entries.length := by
    have h := be32_at (propMapMagic ++ toBe32 (UInt32.ofNat ix.len)) rest
      (UInt32.ofNat ix.entries.length)
    rwa [htoNat _ hentries, List.append_assoc] at h
  have hbody : (blobOf ix).drop headerLen = rest := rfl
  have htotal : (blobOf ix).length =
      headerLen + ix.entries.length + ix.len * 8 + hashSlots ix.len * 4 := by
    simp only [blobOf, List.length_append, length_toBe32, hoffsets, hbyId, hhash, headerLen]
    change 4 + _ = _
    omega
  have hmagic : (blobOf ix).take 4 = propMapMagic := rfl
  have hheader : (blobOf ix).length ≥ headerLen ∧ (blobOf ix).take 4 = propMapMagic :=
    ⟨by omega, hmagic⟩
  rw [PropIndex.new, guard, if_pos hheader]
  simp only [hcount, hsize, Option.pure_def, Option.bind_eq_bind, Option.bind_some, guard, htotal,
    ↓reduceIte, hbody, rest, List.drop_left, List.take_left]
  rw [← hoffsets, List.drop_left, List.take_left, hoffsets, ← hbyId, List.drop_left, List.take_left]

/-! ### The records in the order of their names -/

/-- The records with their offsets, in the order of their names. -/
def placed (records : List Record) : List (ℕ × Record) := (located 0 records).mergeSort nameLe

section Placed

variable {records : List Record}

theorem placed_perm : ((placed records).map (·.2)).Perm records := by
  have h := (List.mergeSort_perm (located 0 records) nameLe).map (·.2)
  rwa [map_located] at h

theorem length_placed : (placed records).length = records.length := by
  have h := (@placed_perm records).length_eq
  rwa [List.length_map] at h

theorem placed_strict (hnames : (records.map Record.name).Nodup) :
    (placed records).Pairwise fun a b => utf8 a.2.name < utf8 b.2.name := by
  have htrans : ∀ a b c, nameLe a b = true → nameLe b c = true → nameLe a c = true := by
    intro a b c hab hbc
    simp only [nameLe, decide_eq_true_eq] at hab hbc ⊢
    exact List.le_trans hab hbc
  have htotal : ∀ a b, (nameLe a b || nameLe b a) = true := by
    intro a b
    simp only [nameLe, Bool.or_eq_true, decide_eq_true_eq]
    exact List.le_total _ _
  have hsorted : (placed records).Pairwise fun a b => nameLe a b = true :=
    List.pairwise_mergeSort htrans htotal _
  have hdistinct : (placed records).Pairwise fun a b => a.2.name ≠ b.2.name := by
    have h := (placed_perm.map Record.name).nodup_iff.mpr hnames
    rw [List.map_map, List.Nodup, List.pairwise_map] at h
    exact h
  refine (hsorted.and hdistinct).imp fun {a b} h => ?_
  have hle := of_decide_eq_true h.1
  exact Std.lt_of_le_of_ne hle fun heq => h.2 (utf8_inj heq)

theorem entryAt_placed {p : ℕ × Record} (h : p ∈ placed records) :
    EntryAt (Record.rawOf records) p.1 p.2 ∧ p.1 ≤ (Record.rawOf records).length := by
  have hmem : p ∈ located ([] : List UInt8).length records :=
    (List.mergeSort_perm (located 0 records) nameLe).mem_iff.mp h
  obtain ⟨before, after, hraw, hlen⟩ := mem_located hmem
  rw [List.nil_append] at hraw
  have hentry := entryAt before after p.2
  rw [← hraw, hlen] at hentry
  refine ⟨hentry, ?_⟩
  rw [hraw, List.length_append, hlen]
  exact Nat.le_add_right _ _

end Placed

theorem noDuplicates_eq_true {l : List (ℕ × Record)}
    (h : l.Pairwise fun a b => utf8 a.2.name < utf8 b.2.name) :
    noDuplicates (l.map scannedOf) = true := by
  induction l with
  | nil => rfl
  | cons a l ih =>
    obtain ⟨hall, hrest⟩ := List.pairwise_cons.mp h
    cases l with
    | nil => rfl
    | cons b l =>
      have hne : (scannedOf a).name ≠ (scannedOf b).name := by
        intro heq
        have hlt := hall b List.mem_cons_self
        change utf8 a.2.name = utf8 b.2.name at heq
        rw [heq] at hlt
        exact Std.lt_irrefl hlt
      have htail := ih hrest
      simp only [noDuplicates, List.map_cons, List.tail_cons, List.zip_cons_cons, List.all_cons,
        Bool.and_eq_true, decide_eq_true_eq] at htail ⊢
      exact ⟨hne, htail⟩

/-! ### The index of the blob -/

/-- The index of the blob that the generator writes, with the hash table `hash`. -/
def indexOf (records : List Record) (hash : List UInt32) : PropIndex where
  entries := Record.rawOf records
  offsets := ((placed records).map scannedOf).flatMap (toBe32 ·.offset)
  byIdTable := (idOrder ((placed records).map scannedOf)).flatMap (toBe32 ∘ UInt32.ofNat)
  hash := hash.flatMap toBe32
  len := records.length

section Index

variable {records : List Record} {hash : List UInt32}

theorem raw_indexOf (hraw : (Record.rawOf records).length < 2 ^ 32) {o : ℕ} {r : Record}
    (hr : ((placed records).map (·.2))[o]? = some r) :
    (indexOf records hash).raw o = some (utf8 r.name, r.bytes) := by
  rw [List.getElem?_map, Option.map_eq_some_iff] at hr
  obtain ⟨p, hp, rfl⟩ := hr
  obtain ⟨hentry, hle⟩ := entryAt_placed (List.mem_of_getElem? hp)
  have hoffset : be32 (indexOf records hash).offsets (o * 4) = some p.1 := by
    have hword : ((placed records).map fun p => UInt32.ofNat p.1)[o]? =
        some (UInt32.ofNat p.1) := by
      rw [List.getElem?_map, hp]
      rfl
    have h := be32_table _ hword
    rw [UInt32.toNat_ofNat', Nat.mod_eq_of_lt (by omega), List.flatMap_map] at h
    rw [indexOf, List.flatMap_map]
    exact h
  rw [PropIndex.raw, hoffset]
  have hname : p.1 + 1 + 2 = p.1 + 3 := rfl
  have hdefLen : p.1 + 3 + (utf8 p.2.name).length = p.1 + (3 + (utf8 p.2.name).length) :=
    Nat.add_assoc _ _ _
  simp only [indexOf, Option.bind_eq_bind, Option.bind_some, hentry.nameLen, hname, hentry.name,
    hdefLen, hentry.defLen, hentry.definition]
  rfl

theorem idAt_placed {o : ℕ} {r : Record} (hr : ((placed records).map (·.2))[o]? = some r) :
    idAt ((placed records).map scannedOf) o = r.definition.id := by
  rw [List.getElem?_map, Option.map_eq_some_iff] at hr
  obtain ⟨p, hp, rfl⟩ := hr
  simp only [idAt, List.getElem?_map, hp, Option.map_some]
  rfl

theorem nameAt_placed {o : ℕ} {r : Record} (hr : ((placed records).map (·.2))[o]? = some r) :
    nameAt ((placed records).map scannedOf) o = utf8 r.name := by
  rw [List.getElem?_map, Option.map_eq_some_iff] at hr
  obtain ⟨p, hp, rfl⟩ := hr
  simp only [nameAt, List.getElem?_map, hp, Option.map_some]
  rfl

/-- The generator fills the hash table, or there is nothing to put into it. -/
theorem hashTable_placed (hcount : records.length < 2 ^ 31) :
    ∃ hash, hashTable ((placed records).map scannedOf) = some hash ∧
      hash.length = hashSlots records.length ∧
      ((records = [] ∧ hash = []) ∨ ∃ k, hash.length = 2 ^ k ∧ records.length < 2 ^ k ∧
        Filled (nameAt ((placed records).map scannedOf)) (2 ^ k) hash records.length) := by
  have hlen : ((placed records).map scannedOf).length = records.length := by
    rw [List.length_map, length_placed]
  cases records with
  | nil => exact ⟨[], by rw [placed, located, List.mergeSort_nil]; rfl, rfl, Or.inl ⟨rfl, rfl⟩⟩
  | cons r records =>
    have hne : (placed (r :: records)).map scannedOf ≠ [] := by
      intro hnil
      rw [hnil] at hlen
      cases hlen
    obtain ⟨k, hash, hslots, hroom, htable, hfilled⟩ := hashTable_filled hne (hlen ▸ hcount)
    rw [hlen] at hslots hroom hfilled
    exact ⟨hash, htable, hfilled.length.trans hslots.symm,
      Or.inr ⟨k, hfilled.length, hroom, hfilled⟩⟩

/-- **The index of the blob has the records**, in the order of their names. -/
theorem represents_indexOf (hnames : (records.map Record.name).Nodup)
    (hcount : records.length < 2 ^ 31) (hraw : (Record.rawOf records).length < 2 ^ 32)
    (hhash : (records = [] ∧ hash = []) ∨ ∃ k, hash.length = 2 ^ k ∧ records.length < 2 ^ k ∧
      Filled (nameAt ((placed records).map scannedOf)) (2 ^ k) hash records.length) :
    Represents (indexOf records hash) ((placed records).map (·.2)) := by
  have hlen : ((placed records).map (·.2)).length = records.length := placed_perm.length_eq
  have hscanned : ((placed records).map scannedOf).length = records.length := by
    rw [List.length_map, length_placed]
  refine ⟨hlen.symm, List.pairwise_map.mpr (placed_strict hnames), raw_indexOf hraw,
    ⟨idOrder ((placed records).map scannedOf), ?_, ?_, fun k o ho => ?_⟩, ?_⟩
  · have h := idOrder_perm (hscanned ▸ hcount)
    rwa [hscanned, ← hlen] at h
  · refine (idOrder_pairwise _).imp fun {a b} hab r r' hr hr' => ?_
    rwa [Sorting.LexLe, idAt_placed hr, idAt_placed hr'] at hab
  · have hlt : o < records.length := by
      have h := (idOrder_perm (hscanned ▸ hcount)).mem_iff.mp (List.mem_of_getElem? ho)
      rwa [hscanned, List.mem_range] at h
    have hword : ((idOrder ((placed records).map scannedOf)).map UInt32.ofNat)[k]? =
        some (UInt32.ofNat o) := by
      rw [List.getElem?_map, ho]
      rfl
    have h := be32_table _ hword
    rw [UInt32.toNat_ofNat', Nat.mod_eq_of_lt (by omega), List.flatMap_map] at h
    exact h
  · rcases hhash with ⟨rfl, rfl⟩ | ⟨k, hslots, hroom, hfilled⟩
    · exact Or.inl ⟨List.eq_nil_of_length_eq_zero hlen, rfl⟩
    · refine Or.inr ⟨k, hash, nameAt ((placed records).map scannedOf), ?_, ?_, fun s x hx => ?_, ?_,
        fun o r hr => nameAt_placed hr⟩
      · rw [indexOf, length_flatMap_toBe32, hslots]
      · rw [hlen]
        exact hroom
      · exact be32_table hash hx
      · rw [hlen]
        exact hfilled

end Index

/-- What the generator writes. -/
theorem writePropmapBin_eq {records : List Record} {hash : List UInt32}
    (hnames : (records.map Record.name).Nodup)
    (hhash : hashTable ((placed records).map scannedOf) = some hash) :
    writePropmapBin (Record.rawOf records) = some (blobOf (indexOf records hash)) := by
  have hfuel : records.length < (Record.rawOf records).length + 1 :=
    Nat.lt_succ_of_le (Record.length_le_rawOf records)
  have hscan := scanEntries_located [] records hfuel
  rw [List.nil_append, List.length_nil] at hscan
  have hsort : sortByName ((located 0 records).map scannedOf) = (placed records).map scannedOf :=
    sortByName_located _
  have hguard : noDuplicates ((placed records).map scannedOf) = true :=
    noDuplicates_eq_true (placed_strict hnames)
  have hlen : ((placed records).map scannedOf).length = records.length := by
    rw [List.length_map, length_placed]
  rw [writePropmapBin, hscan]
  simp only [Option.bind_eq_bind, Option.bind_some, hsort, hguard, guard, ↓reduceIte, hhash, hlen]
  rfl

/-- The index takes the blob apart. -/
theorem new_indexOf {records : List Record} {hash : List UInt32} (hcount : records.length < 2 ^ 31)
    (hraw : (Record.rawOf records).length < 2 ^ 32)
    (hslots : hash.length = hashSlots records.length) :
    PropIndex.new (blobOf (indexOf records hash)) = some (indexOf records hash) := by
  refine new_blob ?_ hraw ?_ ?_ ?_
  · change records.length < 2 ^ 32
    omega
  · rw [indexOf, List.flatMap_map]
    have hlen := length_flatMap_toBe32 ((placed records).map fun p => UInt32.ofNat p.1)
    rw [List.flatMap_map, List.length_map, length_placed] at hlen
    exact hlen
  · have hlen := length_flatMap_toBe32 ((idOrder ((placed records).map scannedOf)).map UInt32.ofNat)
    have hscanned : ((placed records).map scannedOf).length = records.length := by
      rw [List.length_map, length_placed]
    have hperm := (idOrder_perm (hscanned ▸ hcount)).length_eq
    rw [List.length_range, hscanned] at hperm
    rw [List.flatMap_map, List.length_map, hperm] at hlen
    exact hlen
  · rw [indexOf, length_flatMap_toBe32, hslots]

/-- **The embedded index is a faithful map of the records.**  The generator writes a blob of them
that the index accepts, and every lookup ends.  `get` and `id_of` return what belongs to the record
with the name; `iter` yields the records in the order of their names, and `by_id` those with the
id. -/
theorem writePropmapBin_faithful (records : List Record) (hnames : (records.map Record.name).Nodup)
    (hcount : records.length < 2 ^ 31) (hraw : (Record.rawOf records).length < 2 ^ 32) :
    ∃ (blob : List UInt8) (ix : PropIndex) (sorted : List Record),
      writePropmapBin (Record.rawOf records) = some blob ∧
      PropIndex.new blob = some ix ∧
      sorted.Perm records ∧ (sorted.Pairwise fun a b => utf8 a.name < utf8 b.name) ∧
      (∀ name, ∃ found, ix.find name = some found) ∧
      (∀ name, ix.get name =
        some ((records.find? (fun r => decide (r.name = name))).map Record.definition)) ∧
      (∀ name, ix.idOf name =
        some ((records.find? (fun r => decide (r.name = name))).map (·.definition.id))) ∧
      ix.iter = some (sorted.map fun r => (r.name, r.definition)) ∧
      ∀ id, ix.byId id = some (
        match sorted.filter fun r => decide (r.definition.id = id) with
        | [] => none
        | r :: rs => some ((r :: rs).map fun r => (r.name, r.definition))) := by
  obtain ⟨hash, htable, hslots, hfilled⟩ := hashTable_placed hcount
  have h := represents_indexOf hnames hcount hraw hfilled
  refine ⟨blobOf (indexOf records hash), indexOf records hash, (placed records).map (·.2),
    writePropmapBin_eq hnames htable, new_indexOf hcount hraw hslots, placed_perm, h.strict,
    fun name => ?_, h.get_eq placed_perm, h.idOf_eq placed_perm, h.iter_eq, h.byId_eq⟩
  obtain ⟨found, hfind, -⟩ := h.find_spec name
  exact ⟨found, hfind⟩

/-- A plain node with the id `id`. -/
def plainRecord (name : String) (id : UInt8) (hname : (utf8 name).length ≤ 65535) : Record where
  flag := 0
  name := name
  bytes := [0, 0, 0, 0, 0, 0, 0, id, 0, 0, 0, 0, 0, 0]
  definition :=
    { id := i32OfBytes 0 0 0 id
      parentId := 0
      index := 0
      name := ""
      longName := ""
      nodeType := .node
      unit := .none
      readOnly := false
      minFloat := none
      maxFloat := none
      steps := none
      minInt := none
      maxInt := none
      maxStringLen := none
      stringEnum := none
      floatEnum := none
      raw := [] }
  parses := by rfl
  name_le := hname
  bytes_le := by simp

/-- Two models that share an id. -/
def sharedRecords : List Record :=
  [plainRecord "/fx/b" 7 (by decide), plainRecord "/fx/a" 7 (by decide)]

theorem sharedRecords_faithful :
    ∃ blob ix, writePropmapBin (Record.rawOf sharedRecords) = some blob ∧
      PropIndex.new blob = some ix ∧ ix.idOf "/fx/a" = some (some 7) ∧ ix.idOf "/fx" =
        some none := by
  obtain ⟨blob, ix, -, hwrite, hnew, -, -, -, -, hid, -⟩ :=
    writePropmapBin_faithful sharedRecords (by decide) (by decide) (by decide)
  exact ⟨blob, ix, hwrite, hnew, hid "/fx/a", hid "/fx"⟩

end LibWing
