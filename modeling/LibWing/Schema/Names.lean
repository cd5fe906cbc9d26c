import LibWing.Schema.Overlay

/-!
# The names an overlay makes up

A definition that comes without a path is named after its parent: the overlay's path of the parent,
or else the map's, and the definition's own name.

* `LiveSchema.synthesizeFullname_eq` : the name, as a function of the parent's path;
* `paths_rooted_iff` : every path of the overlay starts at the root, unless a child is named after
  the placeholder of its parent;
* `swept_names_iff` : the names are those of the sweep, but for nodes without a name;
* `reingest_iff` : applying a definition again keeps its id resolved exactly if the path is the
  same.
-/

namespace LibWing

open Session

namespace LiveSchema

/-! ### A parent's path and a child's name -/

variable (map : PropertyMap)

/-- The path of a definition's parent, if the overlay, or else the map, has a single one. -/
def parentPath (live : LiveSchema) (d : WingNodeDef) : Option String :=
  (live.byId d.parentId).bind singlePath <|> (map.byId d.parentId).bind singlePath

/-- `is_unqualified_model_child`, for the path of the parent: the map has the name under another
path. -/
def modelChild (d : WingNodeDef) (parent : String) : Bool :=
  ((map.byId d.id).getD []).any fun (embedded, _) =>
    embedded ≠ parent ++ "/" ++ d.name && endsWith embedded ("/" ++ d.name)

variable {map} {live : LiveSchema} {d : WingNodeDef} {parent path : String} {id : Int32}

theorem synthesizeFullname_eq :
    live.synthesizeFullname map d = (live.parentPath map d).bind fun parent =>
      if modelChild map d parent then none else some (parent ++ "/" ++ d.name) := rfl

theorem pathOf_none_eq_some : live.pathOf map d none = some path ↔
    ∃ parent, live.parentPath map d = some parent ∧ modelChild map d parent = false ∧
      path = parent ++ "/" ++ d.name := by
  change live.synthesizeFullname map d = some path ↔ _
  rw [synthesizeFullname_eq, Option.bind_eq_some_iff]
  refine exists_congr fun parent => and_congr_right fun _ => ?_
  cases modelChild map d parent with
  | true => simp
  | false => simp [eq_comm]

/-! ### Paths from the root -/

/-- Every path of the overlay starts at the root. -/
def PathsRooted (live : LiveSchema) : Prop :=
  ∀ path id, live.byPath path = some id → Rooted path

/-- A definition that would be named after a parent that has no path from the root. -/
def Leaks (map : PropertyMap) (live : LiveSchema) (d : WingNodeDef) : Prop :=
  ∃ parent, live.parentPath map d = some parent ∧ modelChild map d parent = false ∧
    parent ≠ "" ∧ ¬ Rooted parent

/-- All that the overlay has seen of the parent is a definition without a path. -/
def UnderPlaceholder (map : PropertyMap) (live : LiveSchema) (d : WingNodeDef) : Prop :=
  live.names d.parentId = [placeholder d.parentId] ∧
    modelChild map d (placeholder d.parentId) = false

theorem rooted_child : Rooted (parent ++ "/" ++ d.name) ↔ parent = "" ∨ Rooted parent := by
  unfold Rooted
  rw [String.toList_append, String.toList_append]
  cases hp : parent.toList with
  | nil =>
    have hempty : parent = "" := String.toList_eq_nil_iff.mp hp
    simp [hempty]
  | cons c cs =>
    have hne : parent ≠ "" := by
      rintro rfl
      cases hp
    simp [hne]

/-- An application leaves the paths rooted exactly if it does not name a definition after a parent
without a path. -/
theorem pathsRooted_apply {fullname : Option String} (h : live.PathsRooted)
    (hcaller : ∀ p, fullname = some p → Rooted p) :
    (live.applyNodeDef map d fullname).PathsRooted ↔
      (fullname = none → ¬ Leaks map live d) := by
  constructor
  · rintro hafter rfl ⟨parent, hparent, hchild, hne, hroot⟩
    have hpath := pathOf_none_eq_some.mpr ⟨parent, hparent, hchild, rfl⟩
    have hplaced : (live.applyNodeDef map d none).byPath (parent ++ "/" ++ d.name) = some d.id := by
      rw [byPath_apply_some hpath, Function.update_self]
    rcases rooted_child.mp (hafter _ _ hplaced) with hempty | hroot'
    · exact hne hempty
    · exact hroot hroot'
  · intro hleaks path id hpath
    cases hof : live.pathOf map d fullname with
    | none =>
      rw [byPath_apply_none hof] at hpath
      exact h path id hpath
    | some p =>
      rw [byPath_apply_some hof] at hpath
      by_cases hp : path = p
      · subst hp
        cases fullname with
        | some p' =>
          cases hof
          exact hcaller _ rfl
        | none =>
          obtain ⟨parent, hparent, hchild, rfl⟩ := pathOf_none_eq_some.mp hof
          rw [rooted_child]
          by_contra hcon
          obtain ⟨hne, hroot⟩ := not_or.mp hcon
          exact hleaks rfl ⟨parent, hparent, hchild, hne, hroot⟩
      · rw [Function.update_of_ne hp] at hpath
        exact h path id hpath

theorem singlePath_eq_some {l : List (String × WingNodeDef)} :
    singlePath l = some path ↔ ∃ d, l = [(path, d)] := by
  constructor
  · intro h
    unfold singlePath at h
    split at h
    · cases h
      exact ⟨_, rfl⟩
    · cases h
  · rintro ⟨d, rfl⟩
    rfl

theorem map_byId_mem {l : List (String × WingNodeDef)} (h : map.byId id = some l)
    {c : String × WingNodeDef} (hc : c ∈ l) : c ∈ map.entries := by
  unfold Session.PropertyMap.byId at h
  split at h
  · cases h
  · rename_i entry entries hfilter
    cases h
    rw [← hfilter] at hc
    exact (List.mem_filter.mp hc).1

theorem parentPath_cases (h : live.parentPath map d = some parent) :
    live.names d.parentId = [parent] ∨ ∃ pd, (parent, pd) ∈ map.entries := by
  rw [parentPath] at h
  cases hlive : (live.byId d.parentId).bind singlePath with
  | some p =>
    rw [hlive] at h
    cases h
    obtain ⟨l, hl, hsingle⟩ := Option.bind_eq_some_iff.mp hlive
    obtain ⟨d', rfl⟩ := singlePath_eq_some.mp hsingle
    refine Or.inl ?_
    rw [names, candidates, hl]
    rfl
  | none =>
    rw [hlive] at h
    obtain ⟨l, hl, hsingle⟩ := Option.bind_eq_some_iff.mp h
    obtain ⟨d', rfl⟩ := singlePath_eq_some.mp hsingle
    exact Or.inr ⟨d', map_byId_mem hl (List.mem_singleton_self _)⟩

theorem not_rooted_placeholder (id : Int32) : ¬ Rooted (placeholder id) := fun h =>
  slash_notMem_placeholder id h.slash

theorem placeholder_ne_empty (id : Int32) : placeholder id ≠ "" := by
  intro h
  have := congrArg String.toList h
  simp [placeholder] at this

/-- In an overlay whose paths are rooted, over a map whose paths are, the only parent without a path
from the root is a placeholder. -/
theorem leaks_iff {writes : List ((Int32 × String) × WingNodeDef)}
    (hmap : ∀ e ∈ map.entries, Rooted e.1) (hstep : InStep live writes) (h : live.PathsRooted) :
    Leaks map live d ↔ UnderPlaceholder map live d := by
  constructor
  · rintro ⟨parent, hparent, hchild, -, hroot⟩
    have hname : live.names d.parentId = [parent] := by
      rcases parentPath_cases hparent with hlive | ⟨pd, hpd⟩
      · exact hlive
      · exact absurd (hmap _ hpd) hroot
    have hplaceholder : parent = placeholder d.parentId := by
      by_contra hne
      have hmem : parent ∈ live.names d.parentId := by
        rw [hname]
        exact List.mem_singleton_self _
      obtain ⟨id', hpath⟩ := Option.isSome_iff_exists.mp (hstep.path d.parentId parent hmem hne)
      exact hroot (h parent id' hpath)
    rw [hplaceholder] at hname hchild
    exact ⟨hname, hchild⟩
  · rintro ⟨hnames, hchild⟩
    refine ⟨placeholder d.parentId, ?_, hchild, placeholder_ne_empty _, not_rooted_placeholder _⟩
    obtain ⟨c, hcands, hc⟩ := List.map_eq_singleton_iff.mp hnames
    cases hl : live.byId d.parentId with
    | none =>
      rw [candidates, hl] at hcands
      cases hcands
    | some l =>
      rw [candidates, hl, Option.getD_some] at hcands
      obtain ⟨name, d'⟩ := c
      rw [parentPath, hl, hcands, ← hc]
      rfl

theorem ingest_snoc (map : PropertyMap) (defs : List (WingNodeDef × Option String))
    (d : WingNodeDef) (fullname : Option String) :
    ingest map (defs ++ [(d, fullname)]) = (ingest map defs).applyNodeDef map d fullname := by
  rw [ingest, List.foldl_append]
  rfl

/-- **When only real paths are path-addressable.**  In a run of definitions, with paths from the
root where the caller gave one, every path of every overlay on the way starts at the root exactly if
no definition is named after a parent that has no path from the root.  Over a map of paths from the
root, that parent is one of which the overlay has only seen a definition without a path. -/
theorem paths_rooted_iff (map : PropertyMap) {defs : List (WingNodeDef × Option String)}
    (hcallers : ∀ e ∈ defs, ∀ p, e.2 = some p → Rooted p) :
    ((∀ before after, defs = before ++ after → (ingest map before).PathsRooted) ↔
      ∀ before d after, defs = before ++ (d, none) :: after → ¬ Leaks map (ingest map before) d) ∧
    ((∀ e ∈ map.entries, Rooted e.1) → ∀ before after d, defs = before ++ after →
      (ingest map before).PathsRooted →
        (Leaks map (ingest map before) d ↔ UnderPlaceholder map (ingest map before) d)) := by
  refine ⟨⟨?_, ?_⟩, ?_⟩
  · rintro hall before d after rfl
    have hnow := hall before _ rfl
    have hnext := hall (before ++ [(d, none)]) after (by rw [List.append_assoc]; rfl)
    rw [ingest_snoc] at hnext
    exact (pathsRooted_apply hnow (by intro p h; cases h)).mp hnext rfl
  · intro hgood before
    induction before using List.reverseRecOn with
    | nil =>
      rintro after - path id h
      cases h
    | append_singleton before e ih =>
      rintro after rfl
      obtain ⟨d, fullname⟩ := e
      rw [List.append_assoc] at hcallers hgood ih
      have hnow := ih _ rfl
      rw [ingest_snoc]
      refine (pathsRooted_apply hnow ?_).mpr ?_
      · exact hcallers (d, fullname) (by simp)
      · rintro rfl
        exact hgood before d after rfl
  · rintro hmap before after d rfl hrooted
    have hbefore : ∀ e ∈ before, ∀ p, e.2 = some p → Rooted p := fun e he =>
      hcallers e (List.mem_append_left _ he)
    exact leaks_iff hmap (ingest_inStep hbefore) hrooted

/-- A definition whose parent nobody knows is not path-addressable. -/
theorem paths_rooted_unplaced : (ingest reverbMap [(pdel, none)]).PathsRooted := by
  refine (@paths_rooted_iff reverbMap [(pdel, none)] ?_).1.mpr ?_ _ [] (by simp)
  · intro e he p hp
    cases List.mem_singleton.mp he
    cases hp
  · intro before d after h
    cases before with
    | nil =>
      cases h
      rintro ⟨parent, hparent, -⟩
      have hnone : parentPath reverbMap new pdel = none := by decide
      change parentPath reverbMap new pdel = some parent at hparent
      rw [hnone] at hparent
      cases hparent
    | cons e before =>
      cases before <;> cases h

/-- A group of parameters, and a parameter in it. -/
def group : WingNodeDef := { plainDef 5 .node none with parentId := 4, name := "grp" }

def member : WingNodeDef := { plainDef 6 .integer none with parentId := 5, name := "x" }

/-- A parameter that arrives after its group is named after the group's placeholder. -/
theorem placeholder_leaks :
    ¬ ∀ (map : PropertyMap) (defs : List (WingNodeDef × Option String)),
      (∀ e ∈ defs, ∀ p, e.2 = some p → Rooted p) → (ingest map defs).PathsRooted := by
  intro h
  have hpaths := h reverbMap [(group, none), (member, none)] (by
    intro e he p hp
    simp only [List.mem_cons, List.not_mem_nil, or_false] at he
    rcases he with rfl | rfl
    · cases hp
    · cases hp)
  have hleak : (ingest reverbMap [(group, none), (member, none)]).byPath "#5/x" =
    some 6 := by decide
  exact absurd (hpaths _ _ hleak) (by decide)

/-! ### The names of the sweep -/

/-- The path the sweep gives a child of a node: by its name, or by its index if it has none. -/
def sweptName (parent : String) (d : WingNodeDef) : String :=
  if d.name = "" then parent ++ "/" ++ toString d.index.toNat else parent ++ "/" ++ d.name

/-- A map as the sweep names it: a node hangs from the root, from a node of the map, or from a model
that the sweep put below one. -/
def Swept (map : PropertyMap) : Prop :=
  ∀ e ∈ map.entries, e.2.parentId = 0 ∧ e.1 = sweptName "" e.2 ∨
    ∃ parent ∈ map.entries, parent.2.id = e.2.parentId ∧
      (e.1 = sweptName parent.1 e.2 ∨
        e.2.index ≠ 0 ∧ ∃ model, e.1 = sweptName (parent.1 ++ "/" ++ model) e.2)

/-- An empty overlay stores the definition under its path in the sweep, or under its placeholder. -/
def AgreesWithSweep (map : PropertyMap) (parent : String) (d : WingNodeDef) : Prop :=
  (new.applyNodeDef map d none).names d.id = [sweptName parent d] ∨
    (new.applyNodeDef map d none).names d.id = [placeholder d.id]

/-- Two definitions get the same path from an empty overlay. -/
def SamePath (map : PropertyMap) (d₁ d₂ : WingNodeDef) : Prop :=
  ∃ path, (new.applyNodeDef map d₁ none).byPath path = some d₁.id ∧
    (new.applyNodeDef map d₂ none).byPath path = some d₂.id

/-- A definition that is stored under the path of its parent and nothing more. -/
def Nameless (map : PropertyMap) (parent : String) (d : WingNodeDef) : Prop :=
  d.name = "" ∧ modelChild map d parent = false

theorem names_apply_new : (new.applyNodeDef map d none).names d.id = [new.keyOf map d none] := by
  rw [names, candidates_apply_self, keptOf]
  split_ifs <;> rfl

theorem parentPath_new (h : (map.byId d.parentId).bind singlePath = some parent) :
    new.parentPath map d = some parent := h

theorem pathOf_new (h : (map.byId d.parentId).bind singlePath = some parent) :
    new.pathOf map d none =
      if modelChild map d parent then none else some (parent ++ "/" ++ d.name) := by
  change new.synthesizeFullname map d = _
  rw [synthesizeFullname_eq, parentPath_new h, Option.bind_some]

theorem byPath_apply_new : (new.applyNodeDef map d none).byPath path = some id ↔
    new.pathOf map d none = some path ∧ id = d.id := by
  cases hpath : new.pathOf map d none with
  | none =>
    rw [byPath_apply_none hpath]
    constructor
    · intro h
      cases h
    · rintro ⟨h, -⟩
      cases h
  | some p =>
    rw [byPath_apply_some hpath]
    by_cases hp : path = p
    · rw [hp, Function.update_self]
      simp [eq_comm]
    · rw [Function.update_of_ne hp]
      constructor
      · intro h
        cases h
      · rintro ⟨h, -⟩
        exact absurd (Option.some.inj h).symm hp

theorem repr_ne_empty (n : ℕ) : toString n ≠ "" := by
  rw [Nat.toString_eq_repr]
  exact Nat.repr_ne_empty

theorem agreesWithSweep_iff (h : (map.byId d.parentId).bind singlePath = some parent) :
    AgreesWithSweep map parent d ↔ ¬ Nameless map parent d := by
  rw [AgreesWithSweep, names_apply_new]
  simp only [List.cons.injEq, and_true]
  cases hchild : modelChild map d parent with
  | true =>
    have hkey : new.keyOf map d none = placeholder d.id :=
      keyOf_of_none (by rw [pathOf_new h, if_pos hchild])
    simp [hkey, Nameless, hchild]
  | false =>
    have hkey : new.keyOf map d none = parent ++ "/" ++ d.name :=
      keyOf_of_some (by rw [pathOf_new h, hchild]; rfl)
    have hplaced : parent ++ "/" ++ d.name ≠ placeholder d.id :=
      ne_placeholder (by simp) d.id
    rw [hkey, Nameless, hchild, sweptName]
    simp only [hplaced, or_false, and_true]
    split_ifs with hname
    · simp only [hname, not_true_eq_false, iff_false]
      rw [String.append_right_inj]
      exact fun heq => repr_ne_empty _ heq.symm
    · simp [hname]

/-- Siblings that the sweep names differently share a path exactly if neither has a name. -/
theorem samePath_iff {d₁ d₂ : WingNodeDef} (hsiblings : d₁.parentId = d₂.parentId)
    (h : (map.byId d₁.parentId).bind singlePath = some parent)
    (hswept : sweptName parent d₁ ≠ sweptName parent d₂) :
    SamePath map d₁ d₂ ↔ Nameless map parent d₁ ∧ Nameless map parent d₂ := by
  have h₂ : (map.byId d₂.parentId).bind singlePath = some parent := hsiblings ▸ h
  simp only [SamePath, byPath_apply_new, and_true, pathOf_new h, pathOf_new h₂, Nameless]
  constructor
  · rintro ⟨path, hp₁, hp₂⟩
    split_ifs at hp₁ hp₂ with hc₁ hc₂
    have hname : d₁.name = d₂.name := by
      have heq := hp₁.trans hp₂.symm
      rwa [Option.some.injEq, String.append_right_inj] at heq
    have hempty : d₁.name = "" := by
      by_contra hne
      refine hswept ?_
      rw [sweptName, sweptName, if_neg hne, if_neg (hname ▸ hne), hname]
    exact ⟨⟨hempty, Bool.not_eq_true _ ▸ hc₁⟩, hname ▸ hempty, Bool.not_eq_true _ ▸ hc₂⟩
  · rintro ⟨⟨hn₁, hc₁⟩, hn₂, hc₂⟩
    refine ⟨parent ++ "/" ++ "", ?_, ?_⟩
    · rw [hc₁, hn₁]
      rfl
    · rw [hc₂, hn₂]
      rfl

/-- **When live names are those of the sweep.**  A definition whose parent has a single path in the
map is stored in an empty overlay under the path the sweep gives it, or under its placeholder,
exactly if it does not go nameless under its parent; and two siblings that the sweep names
differently get one path exactly if both of them do. -/
theorem swept_names_iff (map : PropertyMap) (parent : String) :
    (∀ d : WingNodeDef, (map.byId d.parentId).bind singlePath = some parent →
      (AgreesWithSweep map parent d ↔ ¬ Nameless map parent d)) ∧
    (∀ d₁ d₂ : WingNodeDef, d₁.parentId = d₂.parentId →
      (map.byId d₁.parentId).bind singlePath = some parent →
      (d₁.name, d₁.index) ≠ (d₂.name, d₂.index) → sweptName parent d₁ ≠ sweptName parent d₂ →
        (¬ SamePath map d₁ d₂ ↔ ¬ (Nameless map parent d₁ ∧ Nameless map parent d₂))) :=
  ⟨fun _ h => agreesWithSweep_iff h,
    fun _ _ hsiblings h _ hswept => not_congr (samePath_iff hsiblings h hswept)⟩

/-- The channels, and a channel, which has an index and no name. -/
def channels : WingNodeDef := { plainDef 1 .node none with name := "ch" }

def channel (index : UInt16) : WingNodeDef :=
  { plainDef (10 + index.toUInt32.toInt32) .node none with parentId := 1, index }

/-- A console with two channels, as the sweep names them. -/
def channelMap : PropertyMap where
  entries := [("/ch", channels), ("/ch/1", channel 1), ("/ch/2", channel 2)]
  nodup := by decide

theorem channelMap_swept : Swept channelMap := by
  intro e he
  simp only [channelMap, List.mem_cons, List.not_mem_nil, or_false] at he
  rcases he with rfl | rfl | rfl
  · exact Or.inl ⟨rfl, by decide⟩
  · exact Or.inr ⟨("/ch", channels), List.mem_cons_self, rfl, Or.inl (by decide)⟩
  · exact Or.inr ⟨("/ch", channels), List.mem_cons_self, rfl, Or.inl (by decide)⟩

/-- A node of the channels that has a name. -/
def solo : WingNodeDef := { channel 3 with name := "solo" }

/-- It gets the path of the sweep, and not the path of a channel. -/
theorem swept_names_named :
    AgreesWithSweep channelMap "/ch" solo ∧ ¬ SamePath channelMap solo (channel 1) := by
  obtain ⟨hagrees, hsame⟩ := swept_names_iff channelMap "/ch"
  constructor
  · refine (hagrees solo (by decide)).mpr ?_
    rintro ⟨hname, -⟩
    exact absurd hname (by decide)
  · refine (hsame solo (channel 1) rfl (by decide) (by decide) (by decide)).mpr ?_
    rintro ⟨⟨hname, -⟩, -⟩
    exact absurd hname (by decide)

/-- The two channels get one path. -/
theorem channels_collide :
    ¬ ∀ (map : PropertyMap) (parent : String), Swept map →
      (∀ d : WingNodeDef, (map.byId d.parentId).bind singlePath = some parent →
        AgreesWithSweep map parent d) ∧
      (∀ d₁ d₂ : WingNodeDef, d₁.parentId = d₂.parentId →
        (map.byId d₁.parentId).bind singlePath = some parent →
        (d₁.name, d₁.index) ≠ (d₂.name, d₂.index) → sweptName parent d₁ ≠ sweptName parent d₂ →
          ¬ SamePath map d₁ d₂) := by
  intro h
  refine (h channelMap "/ch" channelMap_swept).2 (channel 1) (channel 2) rfl (by decide)
    (by decide) (by decide) ?_
  exact ⟨"/ch/", by decide, by decide⟩

/-! ### Applying a definition again -/

theorem resolveCandidates_none {l : List (String × WingNodeDef)} {provenance : Provenance}
    (h : l.length ≠ 1) : resolveCandidates id none l provenance = .unknown id none := by
  rcases l with _ | ⟨c, _ | ⟨c', l⟩⟩
  · rfl
  · exact absurd rfl h
  · rfl

/-- Without a model, an id is confirmed live exactly if it has a single candidate. -/
theorem resolveId_none_eq_confirmed {fullname : String} :
    live.resolveId map id none = some (.confirmed fullname d .live) ↔
      live.byId id = some [(fullname, d)] := by
  cases hl : live.byId id with
  | none =>
    simp only [resolveId, hl, reduceCtorEq, iff_false]
    rw [Schema.resolveId, Option.map_eq_some_iff]
    rintro ⟨l, -, h⟩
    -- The map answers as the embedded map.
    rcases l with _ | ⟨c, _ | ⟨c', l⟩⟩ <;> cases h
  | some l =>
    simp only [resolveId, hl, Option.some.injEq]
    constructor
    · intro h
      by_cases hlen : l.length = 1
      · obtain ⟨c, rfl⟩ := List.length_eq_one_iff.mp hlen
        cases h
        rfl
      · rw [resolveCandidates_none hlen] at h
        cases h
    · rintro rfl
      rfl

theorem ne_placeholder_of_placed {fullname : String} (h : unplaced fullname = false) (id : Int32) :
    fullname ≠ placeholder id := by
  rintro rfl
  simp [unplaced, placeholder] at h

theorem byId_apply_placed {fullname : String} {d₀ : WingNodeDef}
    (hl : live.byId d.id = some [(fullname, d₀)]) (hplaced : unplaced fullname = false) :
    (live.applyNodeDef map d none).byId d.id =
      some (setCandidate (live.keyOf map d none) d [(fullname, d₀)]) := by
  have hcands : live.candidates d.id = [(fullname, d₀)] := by rw [candidates, hl]; rfl
  have hkept : live.keptOf map d none = [(fullname, d₀)] := by
    have hne := ne_placeholder_of_placed hplaced d.id
    rw [keptOf, hcands]
    split_ifs
    · rw [List.filter_cons_of_pos (by simpa using hne), List.filter_nil]
    · rfl
  have hafter : (live.applyNodeDef map d none).candidates d.id =
      setCandidate (live.keyOf map d none) d (live.keptOf map d none) := candidates_apply_self
  rw [hkept] at hafter
  rw [← hafter]
  simp only [candidates, applyNodeDef, Function.update_self, Option.getD_some]

/-- An id that is confirmed at a path stays confirmed exactly if its new definition is stored under
that path.  A definition without one is stored under the placeholder, beside the path. -/
theorem resolveId_apply_placed {fullname : String} {d₀ : WingNodeDef}
    (hl : live.byId d.id = some [(fullname, d₀)]) (hplaced : unplaced fullname = false) :
    (live.applyNodeDef map d none).resolveId map d.id none =
      some (if live.keyOf map d none = fullname then .confirmed fullname d .live
        else .unknown d.id none) := by
  have hafter : (live.applyNodeDef map d none).byId d.id =
      some (setCandidate (live.keyOf map d none) d [(fullname, d₀)]) := byId_apply_placed hl hplaced
  split_ifs with hkey
  · rw [resolveId_none_eq_confirmed, hafter, hkey, setCandidate, if_pos rfl]
  · rw [setCandidate, if_neg (Ne.symm hkey)] at hafter
    simp only [resolveId, hafter]
    rfl

/-- **When a definition that is applied again stays resolved.**  In any overlay, with an id that is
confirmed at a path, and a new definition of the id for which a path is made up: the id is confirmed
with the new definition if the path is the same, and else it has a candidate for each path and is
unknown. -/
theorem reingest_iff (map : PropertyMap) (defs : List (WingNodeDef × Option String))
    {d d₀ : WingNodeDef} {fullname path : String}
    (hconfirmed : (ingest map defs).resolveId map d.id none =
      some (.confirmed fullname d₀ .live)) (hplaced : unplaced fullname = false)
    (hpath : (ingest map defs).synthesizeFullname map d = some path) :
    (path = fullname → ((ingest map defs).applyNodeDef map d none).resolveId map d.id none =
      some (.confirmed fullname d .live)) ∧
    (path ≠ fullname →
      ((ingest map defs).applyNodeDef map d none).byId d.id = some [(fullname, d₀), (path, d)] ∧
        ((ingest map defs).applyNodeDef map d none).resolveId map d.id none =
          some (.unknown d.id none)) := by
  have hl := resolveId_none_eq_confirmed.mp hconfirmed
  have hkey : (ingest map defs).keyOf map d none = path := keyOf_of_some hpath
  rw [byId_apply_placed hl hplaced, resolveId_apply_placed hl hplaced, hkey]
  refine ⟨fun heq => by rw [if_pos heq], fun hne => ⟨?_, by rw [if_neg hne]⟩⟩
  -- The new path goes behind the one that is kept.
  rw [setCandidate, if_neg (Ne.symm hne), setCandidate]

/-- A node that is read again keeps its path. -/
theorem reingest_same :
    ((ingest channelMap [(solo, some "/ch/solo")]).applyNodeDef channelMap solo none).resolveId
      channelMap 13 none = some (.confirmed "/ch/solo" solo .live) :=
  (@reingest_iff channelMap [(solo, some "/ch/solo")] solo solo "/ch/solo" "/ch/solo"
    (by decide) (by decide) (by decide)).1 rfl

/-- A channel that comes back with a name has a candidate for each path, and is unknown. -/
theorem reingest_renamed :
    ¬ ∀ (map : PropertyMap) (defs : List (WingNodeDef × Option String)) (d d₀ : WingNodeDef)
        (fullname : String), (∀ e ∈ defs, ∀ p, e.2 = some p → Rooted p) →
      (ingest map defs).resolveId map d.id none = some (.confirmed fullname d₀ .live) →
      unplaced fullname = false → ∃ fullname' d' provenance,
        ((ingest map defs).applyNodeDef map d none).resolveId map d.id none =
          some (.confirmed fullname' d' provenance) := by
  intro h
  obtain ⟨fullname, d, provenance, hconfirmed⟩ := h channelMap [(channel 3, some "/ch/3")]
    solo (channel 3) "/ch/3" (by
      intro e he p hp
      cases List.mem_singleton.mp he
      cases hp
      decide) (by decide) (by decide)
  have hunknown : ((ingest channelMap [(channel 3, some "/ch/3")]).applyNodeDef channelMap solo
      none).resolveId channelMap 13 none = some (.unknown 13 none) := by decide
  exact absurd (hunknown.symm.trans hconfirmed) (by simp)

end LiveSchema

end LibWing
