import LibWing.Session.Sweep

/-!
# Resolving an id by the model of its slot

The models of a slot share parameter ids, so an id alone does not say which parameter is meant.
`Schema` picks the candidate of the embedded map whose path has the live model.  `LiveSchema` is an
overlay of definitions that were read off the console; it answers first, and falls back to the map
for a model it has not seen.

* `resolveCandidates`, `Schema.resolveId` : resolution over the embedded map;
* `LiveSchema.applyNodeDef`, `LiveSchema.resolveId` : the overlay;
* `NeverWrong`, `UnknownIfUnseen` : what resolution is for;
* `resolveId_sound_iff` : an overlay that has seen a single candidate takes it for any model, unless
  the map knows better.
-/

namespace LibWing

open Session

/-! ### Strings -/

/-- `str::contains`. -/
def containsStr (s needle : String) : Bool := decide (needle.toList <:+: s.toList)

/-- `str::ends_with`. -/
def endsWith (s suffix : String) : Bool := suffix.toList.isSuffixOf s.toList

/-- `format!("/{model}/")`. -/
def needle (model : String) : String := "/" ++ model ++ "/"

/-- `format!("#{}", id)`: the name of a definition whose path is not known. -/
def placeholder (id : Int32) : String := "#" ++ toString id.toInt

/-- `name.starts_with('#')`. -/
def unplaced (name : String) : Bool := name.toList.head? = some '#'

/-- A candidate whose path embeds the model. -/
def hasModel (model : String) (candidate : String × WingNodeDef) : Bool :=
  containsStr candidate.1 (needle model)

/-! ### The embedded map -/

/-- `Provenance`. -/
inductive Provenance where
  | embedded
  | live
  deriving DecidableEq, Repr

/-- `Resolution`. -/
inductive Resolution where
  | confirmed (fullname : String) (definition : WingNodeDef) (provenance : Provenance)
  | unknown (id : Int32) (model : Option String)
  deriving DecidableEq

/-- `resolve_candidates`. -/
def resolveCandidates (id : Int32) (model : Option String)
    (candidates : List (String × WingNodeDef))
    (provenance : Provenance) : Resolution :=
  match candidates with
  | [] => .unknown id model
  -- A single candidate is taken whatever the model is.
  | [(fullname, d)] => .confirmed fullname d provenance
  | candidates =>
    match model with
    | none => .unknown id none
    | some model =>
      match candidates.filter (hasModel model) with
      | [(fullname, d)] => .confirmed fullname d provenance
      | _ => .unknown id (some model)

/-- `str::parse::<i32>`. -/
def parseI32 (s : String) : Option Int32 :=
  let (negative, digits) := match s.toList with
    | '-' :: digits => (true, digits)
    | '+' :: digits => (false, digits)
    | digits => (false, digits)
  if digits ≠ [] ∧ digits.all Char.isDigit then
    let magnitude : ℤ := digits.foldl (fun n ch => 10 * n + (ch.toNat - 48)) 0
    let value := if negative then -magnitude else magnitude
    if -2 ^ 31 ≤ value ∧ value < 2 ^ 31 then some (Int32.ofInt value) else none
  else none

/-- `name_to_id`. -/
def nameToId (map : PropertyMap) (fullname : String) : Option Int32 :=
  match parseI32 fullname with
  | some num => some num
  | none => (map.get fullname).map (·.id)

namespace Schema

/-- `Schema::resolve_id`. -/
def resolveId (map : PropertyMap) (id : Int32) (model : Option String) : Option Resolution :=
  (map.byId id).map fun candidates => resolveCandidates id model candidates .embedded

/-- `Schema::resolve_path`. -/
def resolvePath (map : PropertyMap) (fullname : String) (model : Option String) :
    Option Resolution := do
  let id ← nameToId map fullname
  resolveId map id model

end Schema

/-! ### The overlay -/

/-- `LiveSchema`. -/
structure LiveSchema where
  /-- The definitions of an id, each with the name it is stored under. -/
  byId : Int32 → Option (List (String × WingNodeDef))
  /-- The id of a path. -/
  byPath : String → Option Int32

/-- Put a definition under a name, in the place of the one that has it. -/
def setCandidate (key : String) (d : WingNodeDef) :
    List (String × WingNodeDef) → List (String × WingNodeDef)
  | [] => [(key, d)]
  | (name, d') :: candidates =>
    if name = key then (name, d) :: candidates else (name, d') :: setCandidate key d candidates

/-- `single_path`. -/
def singlePath : List (String × WingNodeDef) → Option String
  | [(name, _)] => some name
  | _ => none

namespace LiveSchema

/-- `LiveSchema::new`. -/
def new : LiveSchema := ⟨fun _ => none, fun _ => none⟩

variable (map : PropertyMap)

/-- `synthesize_fullname`. -/
def synthesizeFullname (live : LiveSchema) (d : WingNodeDef) : Option String := do
  let parentPath ← (live.byId d.parentId).bind singlePath <|> (map.byId d.parentId).bind singlePath
  let fullname := parentPath ++ "/" ++ d.name
  let suffix := "/" ++ d.name
  let isUnqualifiedModelChild := ((map.byId d.id).getD []).any fun (embedded, _) =>
    embedded ≠ fullname && endsWith embedded suffix
  if isUnqualifiedModelChild then none else some fullname

/-- `apply_node_def`. -/
def applyNodeDef (live : LiveSchema) (d : WingNodeDef) (fullname : Option String) : LiveSchema :=
  let resolved := fullname <|> live.synthesizeFullname map d
  let key := resolved.getD (placeholder d.id)
  let candidates := (live.byId d.id).getD []
  let candidates :=
    if resolved.isSome then candidates.filter fun c => c.1 ≠ placeholder d.id else candidates
  { byId := Function.update live.byId d.id (some (setCandidate key d candidates))
    byPath := match resolved with
      | some fullname => Function.update live.byPath fullname (some d.id)
      | none => live.byPath }

/-- `LiveSchema::resolve_id`. -/
def resolveId (live : LiveSchema) (id : Int32) (model : Option String) : Option Resolution :=
  match live.byId id with
  | none => Schema.resolveId map id model
  | some candidates =>
    let answer := resolveCandidates id model candidates .live
    match model with
    | none => some answer
    | some model =>
      if !candidates.any (hasModel model) && !candidates.any (fun c => unplaced c.1) then
        match Schema.resolveId map id (some model) with
        | some (.confirmed fullname d provenance) =>
          if containsStr fullname (needle model) then some (.confirmed fullname d provenance)
          else some answer
        | _ => some answer
      else some answer

/-- `LiveSchema::resolve_path`. -/
def resolvePath (live : LiveSchema) (fullname : String) (model : Option String) :
    Option Resolution :=
  match live.byPath fullname with
  | some id => live.resolveId map id model
  | none => Schema.resolvePath map fullname model

/-- The overlay after some definitions, each with the path that the caller knows. -/
def ingest (defs : List (WingNodeDef × Option String)) : LiveSchema :=
  defs.foldl (fun live (d, fullname) => live.applyNodeDef map d fullname) new

end LiveSchema

/-! ### What resolution is for -/

/-- The candidates an overlay or a map has for an id. -/
abbrev Candidates := Option (List (String × WingNodeDef))

/-- Some candidate is of the model. -/
def Knows (candidates : Candidates) (model : String) : Prop :=
  ∃ c ∈ candidates.getD [], hasModel model c = true

/-- Exactly one candidate is of the model. -/
def Settles (candidates : Candidates) (model : String) : Prop :=
  ∃ c, (candidates.getD []).filter (hasModel model) = [c]

variable {map : PropertyMap} {live : LiveSchema} {id : Int32} {model : String}

/-- A name that is confirmed is a placeholder or has the model. -/
def NeverWrong (id : Int32) (model : String) (answer : Option Resolution) : Prop :=
  ∀ fullname d provenance, answer = some (.confirmed fullname d provenance) →
    fullname ≠ placeholder id → containsStr fullname (needle model) = true

/-- If neither the overlay nor the map knows the model, it stays unknown. -/
def UnknownIfUnseen (map : PropertyMap) (live : LiveSchema) (id : Int32) (model : String) : Prop :=
  ¬ Knows (live.byId id) model → ¬ Knows (map.byId id) model →
    live.resolveId map id (some model) = some (.unknown id (some model))

/-! ### Several candidates -/

/-- The only candidate of the model, if there is one. -/
def pick (id : Int32) (model : String) (provenance : Provenance) :
    List (String × WingNodeDef) → Resolution
  | [(fullname, d)] => .confirmed fullname d provenance
  | _ => .unknown id (some model)

theorem resolveCandidates_eq_pick (id : Int32) (model : String)
    {candidates : List (String × WingNodeDef)} (h : candidates.length ≠ 1)
    (provenance : Provenance) :
    resolveCandidates id (some model) candidates provenance =
      pick id model provenance (candidates.filter (hasModel model)) := by
  match candidates, h with
  | [], _ => rfl
  | _ :: _ :: _, _ => rfl

theorem neverWrong_pick (candidates : List (String × WingNodeDef)) (provenance : Provenance) :
    NeverWrong id model (some (pick id model provenance (candidates.filter (hasModel model)))) := by
  intro fullname d provenance' h _
  match hf : candidates.filter (hasModel model) with
  | [] =>
    rw [hf] at h
    cases h
  | [c] =>
    have hmem : c ∈ candidates.filter (hasModel model) := hf ▸ List.mem_singleton_self c
    rw [hf] at h
    cases h
    exact (List.mem_filter.mp hmem).2
  | _ :: _ :: _ =>
    rw [hf] at h
    cases h

theorem filter_eq_nil_of_not_knows {candidates : Candidates} (h : ¬ Knows candidates model) :
    (candidates.getD []).filter (hasModel model) = [] :=
  List.filter_eq_nil_iff.mpr fun c hc hm => h ⟨c, hc, hm⟩

theorem schema_resolveId_eq_pick (model : String)
    (hshared : 2 ≤ ((map.byId id).getD []).length) :
    Schema.resolveId map id (some model) =
      some (pick id model .embedded (((map.byId id).getD []).filter (hasModel model))) := by
  unfold Schema.resolveId
  cases hmap : map.byId id with
  | none =>
    rw [hmap] at hshared
    exact absurd hshared (by decide)
  | some candidates =>
    rw [hmap] at hshared
    have hlen : candidates.length ≠ 1 := by
      have : 2 ≤ candidates.length := hshared
      omega
    rw [Option.map_some, resolveCandidates_eq_pick id model hlen, Option.getD_some]

theorem resolveId_cases (map : PropertyMap) (model : String)
    {candidates : List (String × WingNodeDef)} (hlive : live.byId id = some candidates) :
    live.resolveId map id (some model) =
        some (resolveCandidates id (some model) candidates .live) ∨
      live.resolveId map id (some model) = Schema.resolveId map id (some model) := by
  unfold LiveSchema.resolveId
  simp only [hlive]
  split_ifs
  · cases Schema.resolveId map id (some model) with
    | none => exact Or.inl rfl
    | some answer =>
      cases answer with
      | unknown => exact Or.inl rfl
      | confirmed fullname d provenance =>
        by_cases h : containsStr fullname (needle model) = true
        · simp [h]
        · simp [h]
  · exact Or.inl rfl

theorem sound_of_length_ne_one (hshared : 2 ≤ ((map.byId id).getD []).length)
    (hlive : ∀ c, live.byId id ≠ some [c]) :
    NeverWrong id model (live.resolveId map id (some model)) ∧
      UnknownIfUnseen map live id model := by
  have hschema := schema_resolveId_eq_pick model hshared
  cases hcs : live.byId id with
  | none =>
    have heq : live.resolveId map id (some model) = Schema.resolveId map id (some model) := by
      simp [LiveSchema.resolveId, hcs]
    rw [UnknownIfUnseen, heq, hschema]
    refine ⟨neverWrong_pick _ _, fun _ hmap => ?_⟩
    rw [filter_eq_nil_of_not_knows hmap]
    rfl
  | some candidates =>
    have hlen : candidates.length ≠ 1 := by
      intro hone
      obtain ⟨c, rfl⟩ := List.length_eq_one_iff.mp hone
      exact hlive c hcs
    have hown := resolveCandidates_eq_pick id model hlen .live
    rcases resolveId_cases map model hcs with heq | heq
    · rw [UnknownIfUnseen, heq, hown]
      refine ⟨neverWrong_pick _ _, fun hunseen _ => ?_⟩
      have hnil : candidates.filter (hasModel model) = [] := by
        have := filter_eq_nil_of_not_knows hunseen
        rwa [hcs] at this
      rw [hnil]
      rfl
    · rw [UnknownIfUnseen, heq, hschema]
      refine ⟨neverWrong_pick _ _, fun _ hmap => ?_⟩
      rw [filter_eq_nil_of_not_knows hmap]
      rfl

/-! ### A single candidate -/

variable {c : String × WingNodeDef}

theorem Settles.knows {candidates : Candidates} (h : Settles candidates model) :
    Knows candidates model := by
  obtain ⟨c, hc⟩ := h
  have hmem : c ∈ (candidates.getD []).filter (hasModel model) := hc ▸ List.mem_singleton_self c
  exact ⟨c, (List.mem_filter.mp hmem).1, (List.mem_filter.mp hmem).2⟩

theorem resolveId_settled (hshared : 2 ≤ ((map.byId id).getD []).length)
    (hlive : live.byId id = some [c]) (hother : hasModel model c = false)
    (hplaced : unplaced c.1 = false) (hsettles : Settles (map.byId id) model) :
    live.resolveId map id (some model) = Schema.resolveId map id (some model) := by
  obtain ⟨c', hc'⟩ := hsettles
  have hmem : c' ∈ ((map.byId id).getD []).filter (hasModel model) :=
    hc' ▸ List.mem_singleton_self c'
  have hmodel : containsStr c'.1 (needle model) = true := (List.mem_filter.mp hmem).2
  have hschema := schema_resolveId_eq_pick model hshared
  rw [hc', pick] at hschema
  simp [LiveSchema.resolveId, hlive, hother, hplaced, hschema, hmodel]

theorem resolveId_shortcut (hshared : 2 ≤ ((map.byId id).getD []).length)
    (hlive : live.byId id = some [c])
    (h : hasModel model c = true ∨ unplaced c.1 = true ∨ ¬ Settles (map.byId id) model) :
    live.resolveId map id (some model) = some (.confirmed c.1 c.2 .live) := by
  have hschema := schema_resolveId_eq_pick model hshared
  rcases h with h | h | h
  · simp [LiveSchema.resolveId, hlive, h, resolveCandidates]
  · simp [LiveSchema.resolveId, hlive, h, resolveCandidates]
  · have hpick : pick id model .embedded (((map.byId id).getD []).filter (hasModel model)) =
        .unknown id (some model) := by
      match hf : ((map.byId id).getD []).filter (hasModel model) with
      | [] => rfl
      | [c'] => exact absurd ⟨c', hf⟩ h
      | _ :: _ :: _ => rfl
    rw [hpick] at hschema
    simp [LiveSchema.resolveId, hlive, hschema, resolveCandidates]

/-! ### When resolution is right -/

/-- The only candidate the overlay has seen is of another model, and the map does not correct it. -/
def WrongShortcut (map : PropertyMap) (live : LiveSchema) (id : Int32) (model : String) : Prop :=
  ∃ c, live.byId id = some [c] ∧ c.1 ≠ placeholder id ∧ hasModel model c = false ∧
    (unplaced c.1 = true ∨ ¬ Settles (map.byId id) model)

theorem neverWrong_iff (hshared : 2 ≤ ((map.byId id).getD []).length) :
    NeverWrong id model (live.resolveId map id (some model)) ↔
      ¬ WrongShortcut map live id model := by
  constructor
  · rintro hright ⟨c, hlive, hname, hother, h⟩
    have hmodel := hright _ _ _ (resolveId_shortcut hshared hlive (Or.inr h)) hname
    rw [hasModel] at hother
    rw [hother] at hmodel
    cases hmodel
  · intro hno
    by_cases hsingle : ∃ c, live.byId id = some [c]
    · obtain ⟨c, hlive⟩ := hsingle
      by_cases hsettled : hasModel model c = false ∧ unplaced c.1 = false ∧
          Settles (map.byId id) model
      · rw [resolveId_settled hshared hlive hsettled.1 hsettled.2.1 hsettled.2.2,
          schema_resolveId_eq_pick model hshared]
        exact neverWrong_pick _ _
      · have hshortcut : hasModel model c = true ∨ unplaced c.1 = true ∨
            ¬ Settles (map.byId id) model := by
          by_contra hcon
          simp only [not_or, Bool.not_eq_true, not_not] at hcon
          exact hsettled hcon
        rw [resolveId_shortcut hshared hlive hshortcut]
        rintro _ _ _ ⟨⟩ hname
        -- A candidate of another model would be the shortcut.
        by_contra hother
        have hother : hasModel model c = false := Bool.not_eq_true _ ▸ hother
        rw [hother] at hshortcut
        exact hno ⟨c, hlive, hname, hother, hshortcut.resolve_left Bool.false_ne_true⟩
    · exact (sound_of_length_ne_one hshared (not_exists.mp hsingle)).1

theorem unknownIfUnseen_iff (hshared : 2 ≤ ((map.byId id).getD []).length) :
    UnknownIfUnseen map live id model ↔
      (¬ Knows (live.byId id) model → ¬ Knows (map.byId id) model → ∀ c,
        live.byId id ≠ some [c]) := by
  constructor
  · intro hunknown hlive hmap c hc
    have h := hunknown hlive hmap
    rw [resolveId_shortcut hshared hc (Or.inr (Or.inr fun hsettles => hmap hsettles.knows))] at h
    cases h
  · intro h hlive hmap
    exact (sound_of_length_ne_one hshared (h hlive hmap)).2 hlive hmap

/-- **When the overlay confirms the wrong model.**  For an id that models share, and any definitions
that were applied, a name that is confirmed has the model exactly if it is not the case that the
overlay has seen a single candidate, of another model, which the map does not correct; and a model
that nobody knows is unknown exactly if the overlay has not seen a single candidate. -/
theorem resolveId_sound_iff (map : PropertyMap) (defs : List (WingNodeDef × Option String))
    (id : Int32) (model : String) (hshared : 2 ≤ ((map.byId id).getD []).length) :
    (NeverWrong id model ((LiveSchema.ingest map defs).resolveId map id (some model)) ↔
      ¬ WrongShortcut map (LiveSchema.ingest map defs) id model) ∧
    (UnknownIfUnseen map (LiveSchema.ingest map defs) id model ↔
      (¬ Knows ((LiveSchema.ingest map defs).byId id) model → ¬ Knows (map.byId id) model →
        ∀ c, (LiveSchema.ingest map defs).byId id ≠ some [c])) :=
  ⟨neverWrong_iff hshared, unknownIfUnseen_iff hshared⟩

/-! ### A slot with two models -/

/-- A parameter of a reverb. -/
def pdel : WingNodeDef := { plainDef 7 .integer none with name := "pdel" }

/-- A parameter of another model, with the same id. -/
def egrp : WingNodeDef := { plainDef 7 .integer none with name := "egrp" }

/-- A map with the parameters of two models under one id. -/
def reverbMap : PropertyMap where
  entries := [("/fx/1/EXT/egrp", egrp), ("/fx/1/HALL/pdel", pdel)]
  nodup := by decide

/-- An overlay that has seen both models knows them apart. -/
theorem reverbMap_sound :
    NeverWrong 7 "NOPE" ((LiveSchema.ingest reverbMap
      [(pdel, some "/fx/1/HALL/pdel"), (egrp, some "/fx/1/EXT/egrp")]).resolveId reverbMap 7
        (some "NOPE")) := by
  refine (resolveId_sound_iff reverbMap _ 7 "NOPE" (by decide)).1.mpr ?_
  rintro ⟨c, hc, -⟩
  have htwo : ((LiveSchema.ingest reverbMap [(pdel, some "/fx/1/HALL/pdel"),
      (egrp, some "/fx/1/EXT/egrp")]).byId 7).map List.length = some 2 := by decide
  rw [hc] at htwo
  exact absurd (Option.some.inj htwo) (by simp)

/-- An overlay that has seen one model confirms it for a model that nobody knows. -/
theorem reverbMap_confirms_wrong :
    ¬ ∀ (map : PropertyMap) (defs : List (WingNodeDef × Option String)) (id : Int32)
        (model : String), 2 ≤ ((map.byId id).getD []).length →
      NeverWrong id model ((LiveSchema.ingest map defs).resolveId map id (some model)) ∧
        UnknownIfUnseen map (LiveSchema.ingest map defs) id model := by
  intro h
  have hright := (h reverbMap [(pdel, some "/fx/1/HALL/pdel")] 7 "NOPE" (by decide)).1
  have hanswer : (LiveSchema.ingest reverbMap [(pdel, some "/fx/1/HALL/pdel")]).resolveId
    reverbMap 7
      (some "NOPE") = some (.confirmed "/fx/1/HALL/pdel" pdel .live) := by decide
  exact absurd (hright _ _ _ hanswer (by decide)) (by decide)

end LibWing
