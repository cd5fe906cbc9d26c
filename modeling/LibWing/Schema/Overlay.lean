import LibWing.Lib.Writes
import LibWing.Schema.Live

/-!
# The two maps of an overlay stay in step

An overlay keeps its definitions by id and its paths apart from them.  One application may name a
definition, drop a placeholder, overwrite a candidate and rebind a path that another id had.

* `LiveSchema.keyOf` : the name a definition is stored under, and `LiveSchema.writesOf` the names of
  a run;
* `InStep` : what holds of the two maps after the names of a run were written;
* `InStep.apply`, `ingest_inStep` : every application keeps it, so it holds of every overlay;
* `ingest_consistent` : what that says of the two maps.
-/

namespace LibWing

open Session

/-! ### Names and placeholders -/

/-- A placeholder is no path. -/
theorem slash_notMem_placeholder (id : Int32) : '/' ∉ (placeholder id).toList := by
  rw [placeholder, Int.toString_eq_repr, Int.repr_eq_if]
  split_ifs
  · simp [Path.slash_notMem_toDigits]
  · simp [Path.slash_notMem_toDigits]

/-- A name with a slash in it is not a placeholder. -/
theorem ne_placeholder {name : String} (h : '/' ∈ name.toList) (id : Int32) :
    name ≠ placeholder id := by
  rintro rfl
  exact slash_notMem_placeholder id h

/-- A path that starts at the root. -/
def Rooted (path : String) : Prop := path.toList.head? = some '/'

instance decRooted (path : String) : Decidable (Rooted path) :=
  inferInstanceAs (Decidable (path.toList.head? = some '/'))

theorem Rooted.slash {path : String} (h : Rooted path) : '/' ∈ path.toList :=
  List.mem_of_head? h

/-! ### Candidates -/

section Candidates

variable {key : String} {d : WingNodeDef} {l : List (String × WingNodeDef)}
  {c : String × WingNodeDef}

/-- A name is kept in its place, or put at the end. -/
theorem map_fst_setCandidate (key : String) (d : WingNodeDef) (l : List (String × WingNodeDef)) :
    (setCandidate key d l).map Prod.fst =
      if key ∈ l.map Prod.fst then l.map Prod.fst else l.map Prod.fst ++ [key] := by
  induction l with
  | nil => rfl
  | cons c l ih =>
    obtain ⟨name, d'⟩ := c
    by_cases hname : name = key
    · simp [setCandidate, hname]
    · rw [setCandidate, if_neg hname, List.map_cons, ih, List.map_cons]
      by_cases hmem : key ∈ l.map Prod.fst
      · rw [if_pos hmem, if_pos (List.mem_cons_of_mem _ hmem)]
      · rw [if_neg hmem, if_neg, List.cons_append]
        rw [List.mem_cons]
        rintro (h | h)
        · exact hname h.symm
        · exact hmem h

theorem nodup_setCandidate (h : (l.map Prod.fst).Nodup) :
    ((setCandidate key d l).map Prod.fst).Nodup := by
  rw [map_fst_setCandidate]
  split_ifs with hmem
  · exact h
  · rw [List.nodup_append_comm]
    exact List.nodup_cons.mpr ⟨hmem, h⟩

theorem mem_setCandidate (h : (l.map Prod.fst).Nodup) :
    c ∈ setCandidate key d l ↔ c = (key, d) ∨ c ∈ l ∧ c.1 ≠ key := by
  induction l with
  | nil => simp [setCandidate]
  | cons c' l ih =>
    obtain ⟨name, d'⟩ := c'
    rw [List.map_cons, List.nodup_cons] at h
    by_cases hname : name = key
    · subst hname
      rw [setCandidate, if_pos rfl, List.mem_cons, List.mem_cons]
      constructor
      · rintro (rfl | hc)
        · exact Or.inl rfl
        · refine Or.inr ⟨Or.inr hc, fun hkey => h.1 ?_⟩
          exact List.mem_map.mpr ⟨c, hc, hkey⟩
      · rintro (rfl | ⟨rfl | hc, hne⟩)
        · exact Or.inl rfl
        · exact absurd rfl hne
        · exact Or.inr hc
    · rw [setCandidate, if_neg hname, List.mem_cons, ih h.2, List.mem_cons]
      constructor
      · rintro (rfl | hc | ⟨hc, hne⟩)
        · exact Or.inr ⟨Or.inl rfl, hname⟩
        · exact Or.inl hc
        · exact Or.inr ⟨Or.inr hc, hne⟩
      · rintro (hc | ⟨rfl | hc, hne⟩)
        · exact Or.inr (Or.inl hc)
        · exact Or.inl rfl
        · exact Or.inr (Or.inr ⟨hc, hne⟩)

end Candidates

/-! ### One application -/

namespace LiveSchema

variable (map : PropertyMap) (live : LiveSchema)

/-- The candidates of an id. -/
def candidates (id : Int32) : List (String × WingNodeDef) := (live.byId id).getD []

/-- The names of an id. -/
def names (id : Int32) : List String := (live.candidates id).map Prod.fst

/-- The path a definition gets, if it gets one. -/
def pathOf (d : WingNodeDef) (fullname : Option String) : Option String :=
  fullname <|> live.synthesizeFullname map d

/-- The name a definition is stored under: its path, or its placeholder. -/
def keyOf (d : WingNodeDef) (fullname : Option String) : String :=
  (live.pathOf map d fullname).getD (placeholder d.id)

/-- The candidates that are kept when a definition is stored. -/
def keptOf (d : WingNodeDef) (fullname : Option String) : List (String × WingNodeDef) :=
  if (live.pathOf map d fullname).isSome then
    (live.candidates d.id).filter fun c => c.1 ≠ placeholder d.id
  else live.candidates d.id

/-- What a run writes: each definition under its id and its name. -/
def writesOf : LiveSchema → List (WingNodeDef × Option String) →
    List ((Int32 × String) × WingNodeDef)
  | _, [] => []
  | live, (d, fullname) :: defs =>
    ((d.id, live.keyOf map d fullname), d) :: writesOf (live.applyNodeDef map d fullname) defs

variable {map live} {d : WingNodeDef} {fullname : Option String} {id : Int32} {path : String}

theorem candidates_apply_self :
    (live.applyNodeDef map d fullname).candidates d.id =
      setCandidate (live.keyOf map d fullname) d (live.keptOf map d fullname) := by
  simp only [candidates, applyNodeDef, Function.update_self, Option.getD_some]
  rfl

theorem candidates_apply_of_ne (h : id ≠ d.id) :
    (live.applyNodeDef map d fullname).candidates id = live.candidates id := by
  simp only [candidates, applyNodeDef, Function.update_of_ne h]

/-- A definition without a path leaves the paths as they are. -/
theorem byPath_apply_none (h : live.pathOf map d fullname = none) :
    (live.applyNodeDef map d fullname).byPath = live.byPath := by
  rw [pathOf] at h
  simp only [applyNodeDef, h]

theorem byPath_apply_some (h : live.pathOf map d fullname = some path) :
    (live.applyNodeDef map d fullname).byPath = Function.update live.byPath path (some d.id) := by
  rw [pathOf] at h
  simp only [applyNodeDef, h]

theorem synthesizeFullname_eq_some (h : live.synthesizeFullname map d = some path) :
    ∃ parent, ((live.byId d.parentId).bind singlePath <|>
      (map.byId d.parentId).bind singlePath) = some parent ∧ path = parent ++ "/" ++ d.name := by
  unfold synthesizeFullname at h
  obtain ⟨parent, hparent, h⟩ := Option.bind_eq_some_iff.mp h
  refine ⟨parent, hparent, ?_⟩
  simp only at h
  split_ifs at h
  exact (Option.some.inj h).symm

theorem slash_of_pathOf (hcaller : ∀ p, fullname = some p → Rooted p)
    (h : live.pathOf map d fullname = some path) : '/' ∈ path.toList := by
  cases fullname with
  | some p =>
    cases h
    exact (hcaller _ rfl).slash
  | none =>
    obtain ⟨parent, -, rfl⟩ := synthesizeFullname_eq_some h
    simp

theorem keyOf_of_some (h : live.pathOf map d fullname = some path) :
    live.keyOf map d fullname = path := by
  rw [keyOf, h, Option.getD_some]

theorem keyOf_of_none (h : live.pathOf map d fullname = none) :
    live.keyOf map d fullname = placeholder d.id := by
  rw [keyOf, h, Option.getD_none]

theorem mem_keptOf {c : String × WingNodeDef} :
    c ∈ live.keptOf map d fullname ↔ c ∈ live.candidates d.id ∧
      ((live.pathOf map d fullname).isSome = true → c.1 ≠ placeholder d.id) := by
  rw [keptOf]
  split_ifs with h
  · rw [List.mem_filter, decide_eq_true_eq]
    exact and_congr_right fun _ => ⟨fun hne _ => hne, fun hne => hne h⟩
  · exact ⟨fun hc => ⟨hc, fun h' => absurd h' h⟩, fun hc => hc.1⟩

theorem nodup_keptOf (h : (live.names d.id).Nodup) :
    ((live.keptOf map d fullname).map Prod.fst).Nodup := by
  rw [keptOf]
  split_ifs
  · exact (List.filter_sublist.map Prod.fst).nodup h
  · exact h

/-! ### Over a run -/

/-- The two maps after the names of a run were written. -/
structure InStep (live : LiveSchema) (writes : List ((Int32 × String) × WingNodeDef)) : Prop where
  /-- The names of an id are distinct. -/
  nodup : ∀ id, (live.names id).Nodup
  /-- What has an id as its path has a slash in it. -/
  slash : ∀ path id, live.byPath path = some id → '/' ∈ path.toList
  /-- Where a path leads, it is the name of a candidate. -/
  named : ∀ path id, live.byPath path = some id → path ∈ live.names id
  /-- The name of a candidate is its placeholder or a path. -/
  path : ∀ id name, name ∈ live.names id → name ≠ placeholder id → (live.byPath name).isSome = true
  /-- The definition of a candidate is the last one that was written under its name and id. -/
  last : ∀ id c, c ∈ live.candidates id → Writes.last writes (id, c.1) = some c.2

theorem InStep.new : InStep LiveSchema.new [] where
  nodup _ := List.nodup_nil
  slash _ _ h := by cases h
  named _ _ h := by cases h
  path _ _ h := by cases h
  last _ _ h := by cases h

variable {writes : List ((Int32 × String) × WingNodeDef)}

/-- The candidates of the definition's id after an application: the definition, and what was kept
under another name. -/
theorem mem_candidates_apply (hnodup : (live.names d.id).Nodup) {c : String × WingNodeDef} :
    c ∈ (live.applyNodeDef map d fullname).candidates d.id ↔
      c = (live.keyOf map d fullname, d) ∨
        c ∈ live.keptOf map d fullname ∧ c.1 ≠ live.keyOf map d fullname := by
  rw [candidates_apply_self, mem_setCandidate (nodup_keptOf hnodup)]

theorem mem_names {id : Int32} {name : String} :
    name ∈ live.names id ↔ ∃ c ∈ live.candidates id, c.1 = name := List.mem_map

theorem mem_names_of_apply (hnodup : (live.names d.id).Nodup) {name : String}
    (h : name ∈ (live.applyNodeDef map d fullname).names d.id) :
    name = live.keyOf map d fullname ∨ name ∈ live.names d.id := by
  obtain ⟨c, hc, rfl⟩ := mem_names.mp h
  rcases (mem_candidates_apply hnodup).mp hc with rfl | ⟨hkept, -⟩
  · exact Or.inl rfl
  · exact Or.inr (mem_names.mpr ⟨c, (mem_keptOf.mp hkept).1, rfl⟩)

theorem mem_names_apply (hnodup : (live.names d.id).Nodup) {name : String}
    (h : name = live.keyOf map d fullname ∨ name ∈ live.names d.id ∧ '/' ∈ name.toList) :
    name ∈ (live.applyNodeDef map d fullname).names d.id := by
  by_cases hkey : name = live.keyOf map d fullname
  · exact mem_names.mpr ⟨_, (mem_candidates_apply hnodup).mpr (Or.inl rfl), hkey.symm⟩
  · obtain ⟨hname, hslash⟩ := h.resolve_left hkey
    obtain ⟨c, hc, rfl⟩ := mem_names.mp hname
    refine mem_names.mpr ⟨c, (mem_candidates_apply hnodup).mpr (Or.inr ⟨?_, hkey⟩), rfl⟩
    exact mem_keptOf.mpr ⟨hc, fun _ => ne_placeholder hslash d.id⟩

theorem byPath_apply_eq_some {name : String} (hcaller : ∀ p, fullname = some p → Rooted p)
    (h : (live.applyNodeDef map d fullname).byPath name = some id) :
    id = d.id ∧ name = live.keyOf map d fullname ∧ '/' ∈ name.toList ∨
      live.byPath name = some id := by
  cases hpath : live.pathOf map d fullname with
  | none =>
    rw [byPath_apply_none hpath] at h
    exact Or.inr h
  | some p =>
    rw [byPath_apply_some hpath] at h
    by_cases hname : name = p
    · subst hname
      rw [Function.update_self] at h
      exact Or.inl ⟨(Option.some.inj h).symm, (keyOf_of_some hpath).symm,
        slash_of_pathOf hcaller hpath⟩
    · rw [Function.update_of_ne hname] at h
      exact Or.inr h

theorem isSome_byPath_apply {name : String}
    (h : (live.byPath name).isSome = true ∨ live.pathOf map d fullname = some name) :
    ((live.applyNodeDef map d fullname).byPath name).isSome = true := by
  cases hpath : live.pathOf map d fullname with
  | none =>
    rw [hpath] at h
    rw [byPath_apply_none hpath]
    exact h.resolve_right (by simp)
  | some p =>
    rw [byPath_apply_some hpath]
    by_cases hname : name = p
    · rw [hname, Function.update_self]
      rfl
    · rw [Function.update_of_ne hname]
      refine h.resolve_right fun heq => hname ?_
      rw [hpath] at heq
      exact (Option.some.inj heq).symm

/-- An application keeps the maps in step. -/
theorem InStep.apply (h : InStep live writes) (hcaller : ∀ p, fullname = some p → Rooted p) :
    InStep (live.applyNodeDef map d fullname)
      (writes ++ [((d.id, live.keyOf map d fullname), d)]) where
  nodup id := by
    by_cases hid : id = d.id
    · subst hid
      rw [names, candidates_apply_self]
      exact nodup_setCandidate (nodup_keptOf (h.nodup d.id))
    · rw [names, candidates_apply_of_ne hid]
      exact h.nodup id
  slash path id hpath := by
    rcases byPath_apply_eq_some hcaller hpath with ⟨-, -, hslash⟩ | hbefore
    · exact hslash
    · exact h.slash path id hbefore
  named path id hpath := by
    rcases byPath_apply_eq_some hcaller hpath with ⟨rfl, hkey, -⟩ | hbefore
    · exact mem_names_apply (h.nodup d.id) (Or.inl hkey)
    · by_cases hid : id = d.id
      · subst hid
        exact mem_names_apply (h.nodup d.id)
          (Or.inr ⟨h.named path d.id hbefore, h.slash path d.id hbefore⟩)
      · rw [names, candidates_apply_of_ne hid]
        exact h.named path id hbefore
  path id name hname hplaced := by
    by_cases hid : id = d.id
    · subst hid
      rcases mem_names_of_apply (h.nodup d.id) hname with rfl | hbefore
      · cases hpath : live.pathOf map d fullname with
        | none => exact absurd (keyOf_of_none hpath) hplaced
        | some p => exact isSome_byPath_apply (Or.inr (by rw [hpath, keyOf_of_some hpath]))
      · exact isSome_byPath_apply (Or.inl (h.path d.id name hbefore hplaced))
    · rw [names, candidates_apply_of_ne hid] at hname
      exact isSome_byPath_apply (Or.inl (h.path id name hname hplaced))
  last id c hc := by
    rw [Writes.last_append]
    by_cases hid : id = d.id
    · subst hid
      rcases (mem_candidates_apply (h.nodup d.id)).mp hc with rfl | ⟨hkept, hkey⟩
      · simp [Writes.last]
      · have hother : ¬ (d.id, live.keyOf map d fullname) = (d.id, c.1) := fun heq =>
          hkey (congrArg Prod.snd heq).symm
        simp only [Writes.last, if_neg hother, Option.none_or]
        exact h.last d.id c (mem_keptOf.mp hkept).1
    · rw [candidates_apply_of_ne hid] at hc
      have hother : ¬ (d.id, live.keyOf map d fullname) = (id, c.1) := fun heq =>
        hid (congrArg Prod.fst heq).symm
      simp only [Writes.last, if_neg hother, Option.none_or]
      exact h.last id c hc

/-- A run keeps the maps in step. -/
theorem InStep.run {defs : List (WingNodeDef × Option String)} (h : InStep live writes)
    (hcallers : ∀ e ∈ defs, ∀ p, e.2 = some p → Rooted p) :
    InStep (defs.foldl (fun live (d, fullname) => live.applyNodeDef map d fullname) live)
      (writes ++ writesOf map live defs) := by
  induction defs generalizing live writes with
  | nil =>
    rw [writesOf, List.append_nil]
    exact h
  | cons e defs ih =>
    obtain ⟨d, fullname⟩ := e
    have hstep : InStep (live.applyNodeDef map d fullname)
        (writes ++ [((d.id, live.keyOf map d fullname), d)]) :=
      h.apply (hcallers _ List.mem_cons_self)
    have hnext := ih hstep fun e he => hcallers e (List.mem_cons_of_mem _ he)
    rw [List.append_assoc] at hnext
    exact hnext

theorem ingest_inStep {defs : List (WingNodeDef × Option String)}
    (hcallers : ∀ e ∈ defs, ∀ p, e.2 = some p → Rooted p) :
    InStep (ingest map defs) (writesOf map new defs) :=
  InStep.new.run hcallers

/-- **The maps of an overlay are in step.**  Whatever definitions were applied, with paths from the
root where the caller gave one: the names of an id are distinct, and at most one of them is the
placeholder; a path leads to an id that has exactly one candidate of that name; a candidate whose
name is not the placeholder is path-addressable; and the definition of a candidate is the last one
that was applied under its name and id. -/
theorem ingest_consistent (map : PropertyMap) {defs : List (WingNodeDef × Option String)}
    (hcallers : ∀ e ∈ defs, ∀ p, e.2 = some p → Rooted p) :
    (∀ id, ((ingest map defs).names id).Nodup) ∧
    (∀ id, ((ingest map defs).names id).count (placeholder id) ≤ 1) ∧
    (∀ path id, (ingest map defs).byPath path = some id →
      ((ingest map defs).names id).count path = 1) ∧
    (∀ id c, c ∈ (ingest map defs).candidates id → c.1 ≠ placeholder id →
      ((ingest map defs).byPath c.1).isSome = true) ∧
    (∀ id c, c ∈ (ingest map defs).candidates id →
      Writes.last (writesOf map new defs) (id, c.1) = some c.2) := by
  have h : InStep (ingest map defs) (writesOf map new defs) := ingest_inStep hcallers
  refine ⟨h.nodup, ?_, ?_, ?_, h.last⟩
  · intro id
    exact List.nodup_iff_count_le_one.mp (h.nodup id) _
  · intro path id hpath
    exact List.count_eq_one_of_mem (h.nodup id) (h.named path id hpath)
  · intro id c hc
    exact h.path id c.1 (mem_names.mpr ⟨c, hc, rfl⟩)

/-- A parameter that is placed after its placeholder was stored. -/
theorem ingest_consistent_placed :
    ((ingest reverbMap [(pdel, none), (pdel, some "/fx/1/HALL/pdel")]).names 7).count
      "/fx/1/HALL/pdel" = 1 := by
  obtain ⟨-, -, hpath, -⟩ := @ingest_consistent reverbMap
    [(pdel, none), (pdel, some "/fx/1/HALL/pdel")] (by
      intro e he p hp
      simp only [List.mem_cons, List.not_mem_nil, or_false] at he
      rcases he with rfl | rfl
      · cases hp
      · cases hp
        decide)
  exact hpath _ 7 (by decide)

end LiveSchema

end LibWing
