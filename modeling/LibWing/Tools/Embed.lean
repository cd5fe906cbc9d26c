import LibWing.Tools.Crawl

/-!
# Embedding the rows of a crawl

The parent of a row is not written; `parent_id_for` finds it above the path of the row.

* `Under` : a path below which a crawl writes the definitions of a node: that of the row of the
  node, or that of a model;
* `Placed` : what a crawl knows of a row it has written, and `Invariant`, for all its rows;
* `add_spec` : a crawl keeps the invariant, and it ends;
* `parentIdFor_above` : what is found above a path;
* `embedRows_crawled` : the rows of a crawl give back the canonical forms of its definitions.
-/

namespace LibWing

namespace Wingschema

open Stateful Path
open LiveSchema (sweptName)

variable {t : Texts} {C : ConsoleTree}

/-! ### Rows and what is above them -/

/-- The path of a node that is the root or has a row. -/
def OfNode (rows : List Row) (path : String) (id : Int32) : Prop :=
  (path = "" ∧ id = 0) ∨ ∃ r ∈ rows, r.fullname = path ∧ r.definition.id = id

/-- The item of a selector of a crawl. -/
structure ItemOf (snapshot : List SelectorSnapshot) (slot item : String) : Prop where
  /-- It is an item of the selector of the slot. -/
  exists_selector : ∃ e ∈ snapshot, e.fullname = slot ++ "/mdl" ∧
    ∃ items, e.definition.stringEnum = some items ∧ ∃ i ∈ items, i.item = item

/-- A path below which the definitions of a node are written. -/
inductive Under (rows : List Row) (snapshot : List SelectorSnapshot) : String → Int32 → Prop where
  | node {path : String} {id : Int32} (h : OfNode rows path id) : Under rows snapshot path id
  | model {slot item : String} {id : Int32} (hi : ItemOf snapshot slot item)
      (h : OfNode rows slot id) : Under rows snapshot (slot ++ ("/" ++ item)) id

/-- What a console may send: a name has no slash in it. -/
structure Sendable (d : WingNodeDef) : Prop where
  /-- Its row can be read back. -/
  sweepable : Sweepable d
  /-- Its name is a part of a path. -/
  slash : '/' ∉ d.name.toList

/-- A row and the rows it was written behind. -/
structure Placed (rows : List Row) (snapshot : List SelectorSnapshot) (r : Row) : Prop where
  /-- A console can send its definition. -/
  sendable : Sendable r.definition
  /-- It is below the row of its parent. -/
  under : ∃ path, Under rows snapshot path r.definition.parentId ∧
    r.fullname = sweptName path r.definition

/-- All rows are placed. -/
def Invariant (s : Crawl C) : Prop := ∀ r ∈ s.rows, Placed s.rows s.snapshot r

/-- Nothing is taken back. -/
structure Grown (s s' : Crawl C) : Prop where
  /-- Rows are only added. -/
  rows : s.rows ⊆ s'.rows
  /-- And so are selectors. -/
  snapshot : s.snapshot ⊆ s'.snapshot

theorem Grown.refl (s : Crawl C) : Grown s s := ⟨fun _ h => h, fun _ h => h⟩

theorem Grown.trans {s s' s'' : Crawl C} (h : Grown s s') (h' : Grown s' s'') : Grown s s'' :=
  ⟨fun _ hr => h'.rows (h.rows hr), fun _ he => h'.snapshot (h.snapshot he)⟩

theorem OfNode.mono {rows rows' : List Row} {path : String} {id : Int32} (h : OfNode rows path id)
    (hrows : rows ⊆ rows') : OfNode rows' path id := by
  rcases h with hroot | ⟨r, hr, hrow⟩
  · exact Or.inl hroot
  · exact Or.inr ⟨r, hrows hr, hrow⟩

theorem Under.mono {rows rows' : List Row} {snapshot snapshot' : List SelectorSnapshot}
    {path : String} {id : Int32} (h : Under rows snapshot path id) (hrows : rows ⊆ rows')
    (hsnapshot : snapshot ⊆ snapshot') : Under rows' snapshot' path id := by
  cases h with
  | node h => exact .node (h.mono hrows)
  | model hi h =>
    obtain ⟨e, he, hitem⟩ := hi.exists_selector
    exact .model ⟨e, hsnapshot he, hitem⟩ (h.mono hrows)

theorem Placed.mono {rows rows' : List Row} {snapshot snapshot' : List SelectorSnapshot} {r : Row}
    (h : Placed rows snapshot r) (hrows : rows ⊆ rows') (hsnapshot : snapshot ⊆ snapshot') :
    Placed rows' snapshot' r := by
  obtain ⟨path, hunder, hname⟩ := h.under
  exact ⟨h.sendable, path, hunder.mono hrows hsnapshot, hname⟩

/-! ### The crawl -/

/-- A state that keeps the invariant and what a state before it had. -/
def After (s₀ s : Crawl C) : Prop := Invariant s ∧ Grown s₀ s

/-- A crawl that stops has not run out of calls. -/
def Stopped (e : Stop) (s : Crawl C) : Prop := e ≠ .outOfFuel ∧ Invariant s

theorem triple_after {s₀ : Crawl C} {P : Crawl C → Prop} {x : CrawlM C Unit}
    (h : ∀ s, After s₀ s → P s → Triple (After s) x (fun _ => After s) Stopped) :
    Triple (fun s => After s₀ s ∧ P s) x (fun _ => After s₀) Stopped := by
  rintro s ⟨hs, hp⟩
  have hx : Triple (After s) x (fun _ => After s₀) Stopped :=
    (h s hs hp).conseq (fun _ h => h) (fun _ s' hs' => ⟨hs'.1, hs.2.trans hs'.2⟩) fun _ _ h => h
  exact hx s ⟨hs.1, Grown.refl s⟩

theorem forEach_spec {α : Type} {s₀ : Crawl C} {f : α → CrawlM C Unit} {l : List α}
    (h : ∀ a ∈ l, Triple (After s₀) (f a) (fun _ => After s₀) Stopped) :
    Triple (After s₀) (forEach f l) (fun _ => After s₀) Stopped := by
  induction l with
  | nil => exact Triple.pure fun _ hs => hs
  | cons a l ih =>
    refine (h a List.mem_cons_self).bind fun _ => ?_
    exact ih fun b hb => h b (List.mem_cons_of_mem _ hb)

theorem count_spec {s₀ : Crawl C} (n : ℕ) :
    Triple (After s₀) (count n) (fun _ => After s₀) Stopped :=
  fun _ hs => ⟨hs.1, hs.2.rows, hs.2.snapshot⟩

theorem unwrapped_spec {s₀ : Crawl C} (act : C.State → C.State) :
    Triple (After s₀) (unwrapped act) (fun _ => After s₀) Stopped := by
  have hperform : Triple (After s₀)
      (modifyGet fun s : Crawl C =>
        ((s.line.perform act).1, { s with line := (s.line.perform act).2 }) :
        CrawlM C (Except Error Unit)) (fun _ => After s₀) Stopped :=
    fun _ hs => ⟨hs.1, hs.2.rows, hs.2.snapshot⟩
  refine hperform.bind fun result => ?_
  cases result with
  | ok _ => exact Triple.pure fun _ hs => hs
  | error _ => exact Triple.throw fun _ hs => ⟨nofun, hs.1⟩

theorem readSelector_spec {s₀ : Crawl C} (id : Int32) :
    Triple (After s₀) (readSelector id) (fun _ => After s₀) Stopped :=
  fun _ hs => ⟨hs.1, hs.2.rows, hs.2.snapshot⟩

theorem getNodeDef_spec {s₀ : Crawl C} (parents : List Int32) :
    Triple (After s₀) (getNodeDef C parents)
      (fun children s => (∃ console, children = parents.map (C.below console)) ∧ After s₀ s)
      Stopped := by
  refine (forEach_spec fun _ _ => unwrapped_spec _).bind fun _ => ?_
  refine (forEach_spec fun _ _ => unwrapped_spec _).bind fun _ => ?_
  exact Triple.bind_get fun s hs => Triple.pure fun _ h => ⟨⟨s.line.console, rfl⟩, h ▸ hs⟩

/-- A row is written below a path of its parent. -/
theorem emit_spec {s₀ : Crawl C} {path : String} {d : WingNodeDef} (flag : UInt8)
    (hd : Sendable d) (hunder : Under s₀.rows s₀.snapshot path d.parentId) :
    Triple (After s₀) (emit flag (sweptName path d) d)
      (fun _ s => After s₀ s ∧ OfNode s.rows (sweptName path d) d.id) Stopped := by
  refine (unwrapped_spec _).bind fun _ s hs => ?_
  have hrows : s.rows ⊆ s.rows ++ [⟨flag, sweptName path d, d⟩] := List.subset_append_left _ _
  refine ⟨⟨?_, fun r hr => hrows (hs.2.rows hr), hs.2.snapshot⟩,
    Or.inr ⟨⟨flag, sweptName path d, d⟩, ?_, rfl, rfl⟩⟩
  · intro r hr
    rcases List.mem_append.mp hr with hr | hr
    · exact (hs.1 r hr).mono hrows fun _ he => he
    · obtain rfl := List.mem_singleton.mp hr
      refine ⟨hd, path, ?_, rfl⟩
      exact hunder.mono (fun r hr => hrows (hs.2.rows hr)) hs.2.snapshot
  · exact List.mem_append_right _ List.mem_cons_self

theorem selectorSnapshot_eq_ok {fullname : String} {d : WingNodeDef} {data : Option WingNodeData}
    {e : SelectorSnapshot} (h : selectorSnapshot t fullname d data = .ok e) :
    e.fullname = fullname ∧ e.definition = d := by
  unfold selectorSnapshot at h
  split at h
  · cases h
  · split_ifs at h
    · split at h
      · cases h
        exact ⟨rfl, rfl⟩
      · cases h
    · cases h
      exact ⟨rfl, rfl⟩

theorem keepSnapshot_spec {s₀ : Crawl C} {fullname : String} {d : WingNodeDef}
    (data : Option WingNodeData) :
    Triple (After s₀) (keepSnapshot (selectorSnapshot t fullname d data))
      (fun _ s => After s₀ s ∧ ∃ e ∈ s.snapshot, e.fullname = fullname ∧ e.definition = d)
      Stopped := by
  cases h : selectorSnapshot t fullname d data with
  | error error => exact Triple.throw fun s hs => ⟨nofun, hs.1⟩
  | ok captured =>
    intro s hs
    have hsnapshot : s.snapshot ⊆ s.snapshot ++ [captured] := List.subset_append_left _ _
    refine ⟨⟨?_, hs.2.rows, fun e he => hsnapshot (hs.2.snapshot he)⟩, captured, ?_, ?_⟩
    · exact fun r hr => (hs.1 r hr).mono (fun _ h => h) hsnapshot
    · exact List.mem_append_right _ List.mem_cons_self
    · exact selectorSnapshot_eq_ok h

/-- Where a call of `add` may be: below a node, or below one of its models. -/
def Visits (s : Crawl C) (path : String) (id : Int32) : Bool → Prop
  | false => OfNode s.rows path id
  | true => Under s.rows s.snapshot path id

theorem Visits.under {s : Crawl C} {path : String} {id : Int32} {ignore : Bool}
    (h : Visits s path id ignore) : Under s.rows s.snapshot path id := by
  cases ignore with
  | false => exact .node h
  | true => exact h

/-- The calls that are enough below a node of a height. -/
def enough (n : ℕ) : Bool → ℕ
  | false => 2 * n + 2
  | true => 2 * n + 1

theorem mem_below {s : C.State} {id : Int32} {d : WingNodeDef} (h : d ∈ C.below s id) :
    d ∈ C.definitions s id ∧ d.parentId = id := by
  simpa [ConsoleTree.below] using h

/-- The nodes of a reply, each with those below it. -/
theorem mem_zip_children {s : C.State} {nodes : List WingNodeDef}
    {x : WingNodeDef × List WingNodeDef}
    (h : x ∈ nodes.zip ((nodes.map (·.id)).map (C.below s))) :
    x.1 ∈ nodes ∧ x.2 = C.below s x.1.id := by
  induction nodes with
  | nil => cases h
  | cons d nodes ih =>
    rcases List.mem_cons.mp h with rfl | h
    · exact ⟨List.mem_cons_self, rfl⟩
    · exact ⟨List.mem_cons_of_mem _ (ih h).1, (ih h).2⟩

theorem slotSelector_eq_some {nodes : List WingNodeDef} {ignore : Bool} {mdlDef : WingNodeDef}
    (h : slotSelector nodes ignore = some mdlDef) :
    ignore = false ∧ mdlDef ∈ nodes ∧ isSelector mdlDef = true := by
  cases ignore with
  | true => cases h
  | false => exact ⟨rfl, List.mem_of_find?_eq_some h, List.find?_some h⟩

theorem emit_add_spec {s₀ : Crawl C} {fuel : ℕ} {path : String} {d : WingNodeDef}
    {below : List WingNodeDef} (flag : UInt8) (hd : Sendable d)
    (hunder : Under s₀.rows s₀.snapshot path d.parentId)
    (ih : ∀ s, Visits s (sweptName path d) d.id false →
      Triple (After s) (add t C fuel (sweptName path d) below false) (fun _ => After s) Stopped) :
    Triple (After s₀) (do
      emit flag (sweptName path d) d
      add t C fuel (sweptName path d) below false) (fun _ => After s₀) Stopped :=
  (emit_spec flag hd hunder).bind fun _ => triple_after fun s _ hs => ih s hs

/-- **A crawl** keeps the invariant, and it ends. -/
theorem add_spec (hC : ∀ s id, ∀ d ∈ C.definitions s id, Sendable d) {fuel n : ℕ} {id : Int32}
    {path : String} {ignore : Bool} {sent : C.State} (hheight : C.Height n id)
    (hfuel : enough n ignore ≤ fuel) {s₀ : Crawl C} (hs₀ : Visits s₀ path id ignore) :
    Triple (After s₀) (add t C fuel path (C.below sent id) ignore) (fun _ => After s₀) Stopped := by
  induction fuel generalizing n id path ignore sent s₀ with
  | zero =>
    cases ignore with
    | false => simp [enough] at hfuel
    | true => simp [enough] at hfuel
  | succ fuel ih =>
    have hchild : ∀ d ∈ C.below sent id, ∃ m, n = m + 1 ∧ C.Height m d.id := by
      intro d hd
      cases n with
      | zero =>
        rw [hheight sent] at hd
        cases hd
      | succ m => exact ⟨m, rfl, hheight sent d hd⟩
    -- A row of the reply, and what is below it.
    have hrow : ∀ (s : C.State) (flag : UInt8), ∀ d ∈ C.below sent id, Triple (After s₀) (do
        emit flag (sweptName path d) d
        add t C fuel (sweptName path d) (C.below s d.id) false) (fun _ => After s₀) Stopped := by
      intro s flag d hd
      have hcalls : 2 * n ≤ fuel := by
        cases ignore <;> simp only [enough] at hfuel <;> omega
      obtain ⟨hsent, hparent⟩ := mem_below hd
      obtain ⟨m, rfl, hm⟩ := hchild d hd
      refine emit_add_spec flag (hC sent id d hsent) (hparent ▸ hs₀.under) fun s₁ hs₁ => ?_
      exact ih hm (by simp only [enough]; omega) hs₁
    rw [add]
    refine (getNodeDef_spec _).bind fun children => ?_
    refine Triple.assume fun hchildren => ?_
    obtain ⟨console, rfl⟩ := hchildren
    refine (count_spec _).bind fun _ => ?_
    cases hselector : slotSelector (C.below sent id) ignore with
    | none =>
      dsimp only
      refine forEach_spec fun x hx => ?_
      obtain ⟨hd, hbelow⟩ := mem_zip_children hx
      rw [hbelow]
      by_cases hindex : (!ignore) = true ∨ x.1.index ≠ 0
      · rw [if_pos hindex]
        exact hrow console _ x.1 hd
      · rw [if_neg hindex]
        exact Triple.pure fun _ hs => hs
    | some mdlDef =>
      dsimp only
      obtain ⟨rfl, hmdl, hname⟩ := slotSelector_eq_some hselector
      refine (forEach_spec fun x hx => ?_).bind fun _ => ?_
      · obtain ⟨hd, hbelow⟩ := mem_zip_children hx
        rw [hbelow]
        by_cases hindex : x.1.index = 0
        · rw [if_pos hindex]
          exact hrow console 0 x.1 hd
        · rw [if_neg hindex]
          exact Triple.pure fun _ hs => hs
      · refine (readSelector_spec _).bind fun data => (keepSnapshot_spec data).bind fun _ => ?_
        refine triple_after fun s₁ hs₁ hkept => ?_
        obtain ⟨e, he, hename, hdef⟩ := hkept
        cases hitems : mdlDef.stringEnum with
        | none => exact Triple.throw fun s hs => ⟨nofun, hs.1⟩
        | some items =>
          dsimp only
          refine forEach_spec fun item hitem => ?_
          refine (unwrapped_spec _).bind fun _ => ?_
          refine (getNodeDef_spec _).bind fun replies => Triple.assume fun hreplies => ?_
          obtain ⟨console, rfl⟩ := hreplies
          have hparent : mdlDef.parentId = id := (mem_below hmdl).2
          have hitemOf : ItemOf s₁.snapshot path item.item :=
            ⟨e, he, hename, items, hdef ▸ hitems, item, hitem, rfl⟩
          rw [hparent]
          refine ih hheight ?_ (.model hitemOf (OfNode.mono hs₀ hs₁.2.rows))
          exact Nat.le_of_succ_le_succ hfuel

/-! ### The parent of a row -/

section Parent

variable {idOf : String → Option Int32}

theorem parentIdLoop_above {slot : String} {id : Int32} (hroot : slot = "" → id = 0)
    (hslot : slot ≠ "" → idOf slot = some id) {below : List Char}
    (hnone : ∀ upper rest, below.reverse = upper ++ '/' :: rest →
      idOf (slot ++ ("/" ++ String.ofList upper)) = none) :
    parentIdLoop idOf (below ++ '/' :: slot.toList.reverse) = id := by
  induction below with
  | nil =>
    rw [List.nil_append, parentIdLoop, if_pos rfl]
    by_cases h : slot = ""
    · rw [hroot h, if_pos (by rw [h]; rfl)]
    · have hchars : slot.toList.reverse ≠ [] := by simpa using h
      rw [if_neg hchars, List.reverse_reverse, String.ofList_toList, hslot h]
  | cons ch below ih =>
    have hrest : parentIdLoop idOf (below ++ '/' :: slot.toList.reverse) = id := by
      refine ih fun upper rest h => hnone upper (rest ++ [ch]) ?_
      rw [List.reverse_cons, h, List.append_assoc, List.cons_append]
    rw [List.cons_append, parentIdLoop]
    by_cases hslash : ch = '/'
    · have hpath : String.ofList (below ++ '/' :: slot.toList.reverse).reverse =
          slot ++ ("/" ++ String.ofList below.reverse) := by
        rw [eq_append_iff]
        simp
      have hnot : idOf (slot ++ ("/" ++ String.ofList below.reverse)) = none :=
        hnone below.reverse [] (by rw [List.reverse_cons, hslash])
      rw [if_pos hslash, if_neg (by simp), hpath, hnot]
      exact hrest
    · rw [if_neg hslash]
      exact hrest

/-- The parent of a path is that of the slot it is below, if nothing between them has a row. -/
theorem parentIdFor_above {slot below : String} {id : Int32} (hroot : slot = "" → id = 0)
    (hslot : slot ≠ "" → idOf slot = some id)
    (hnone : ∀ upper rest, below = upper ++ ("/" ++ rest) → idOf (slot ++ ("/" ++ upper)) = none) :
    parentIdFor (slot ++ ("/" ++ below)) idOf = id := by
  have hchars : (slot ++ ("/" ++ below)).toList.reverse =
      below.toList.reverse ++ '/' :: slot.toList.reverse := by simp
  rw [parentIdFor, hchars]
  refine parentIdLoop_above hroot hslot fun upper rest h => ?_
  refine hnone (String.ofList upper) (String.ofList rest) ?_
  rw [List.reverse_reverse] at h
  rw [eq_append_iff, h]
  simp

end Parent

/-! ### The index of the rows -/

/-- The last segment of the path of a node. -/
def segment (d : WingNodeDef) : String := if d.name = "" then toString d.index.toNat else d.name

theorem sweptName_eq (parent : String) (d : WingNodeDef) :
    sweptName parent d = parent ++ ("/" ++ segment d) := by
  rw [sweptName, segment]
  split_ifs
  · rw [String.append_assoc]
  · rw [String.append_assoc]

theorem segment_ne (d : WingNodeDef) : segment d ≠ "" := by
  rw [segment]
  split_ifs with h
  · exact Nat.repr_ne_empty
  · exact h

theorem slash_notMem_segment {d : WingNodeDef} (hd : Sendable d) : '/' ∉ (segment d).toList := by
  rw [segment]
  split_ifs
  · simp [slash_notMem_toDigits]
  · exact hd.slash

variable {p : FloatText}

theorem field_fullname {d : WingNodeDef} (hd : Sweepable d) (fullname : String) :
    (Json.field (d.toJson p ++ [("fullname", Json.str fullname)]) "fullname").asStr =
      some fullname := by
  rw [Json.field, lookup_row hd.type hd.unit, lookup_typeFields (by decide)]
  rfl

theorem field_id {d : WingNodeDef} (hd : Sweepable d) (fullname : String) :
    (Json.field (d.toJson p ++ [("fullname", Json.str fullname)]) "id").asI32 = some d.id := by
  rw [Json.field, lookup_row hd.type hd.unit]
  exact asI32_toInt d.id

/-- The ids of the rows by path. -/
def idsOf (rows : List Row) : List (String × Int32) := rows.map fun r =>
    (r.fullname, r.definition.id)

theorem indexRows_json {rows : List Row} {ids : List (String × Int32)}
    (hrows : ∀ r ∈ rows, Sweepable r.definition)
    (hnodup : (ids.map Prod.fst ++ rows.map (·.fullname)).Nodup) :
    indexRows (rows.map (Row.json p)) ids = some (ids ++ idsOf rows) := by
  induction rows generalizing ids with
  | nil => simp [indexRows, idsOf]
  | cons r rows ih =>
    have hr := hrows r List.mem_cons_self
    have hnew : ids.lookup r.fullname = none := by
      rw [List.lookup_eq_none_iff]
      intro x hx
      have hne := (List.nodup_append.mp hnodup).2.2 x.1 (List.mem_map_of_mem hx) r.fullname
        (by simp)
      simpa using Ne.symm hne
    rw [List.map_cons, indexRows, Row.json, field_fullname hr, field_id hr]
    simp only [Option.bind_eq_bind, Option.bind_some, hnew]
    rw [ih (fun r' hr' => hrows r' (List.mem_cons_of_mem _ hr')) (by simpa using hnodup)]
    simp [idsOf]

theorem lookup_idsOf {rows : List Row} (hnodup : (rows.map (·.fullname)).Nodup) {r : Row}
    (hr : r ∈ rows) : (idsOf rows).lookup r.fullname = some r.definition.id := by
  induction rows with
  | nil => cases hr
  | cons r' rows ih =>
    rw [List.map_cons, List.nodup_cons] at hnodup
    rw [idsOf, List.map_cons, List.lookup_cons]
    rcases List.mem_cons.mp hr with rfl | hr
    · simp
    · have hne : r.fullname ≠ r'.fullname := fun h => hnodup.1 (List.mem_map.mpr ⟨r, hr, h⟩)
      rw [beq_false_of_ne hne]
      exact ih hnodup.2 hr

theorem lookup_idsOf_none {rows : List Row} {path : String} (h : ∀ r ∈ rows, r.fullname ≠ path) :
    (idsOf rows).lookup path = none := by
  rw [List.lookup_eq_none_iff]
  intro x hx
  obtain ⟨r, hr, rfl⟩ := List.mem_map.mp hx
  simpa using Ne.symm (h r hr)

/-! ### The rows of a crawl -/

/-- The paths of a crawl are told apart: they are different, and no row is where the items of a
selector lead. -/
structure Apart (s : Crawl C) : Prop where
  /-- No path comes twice. -/
  nodup : (s.rows.map (·.fullname)).Nodup
  /-- No row is where the items of a selector lead. -/
  items : ∀ slot item, ItemOf s.snapshot slot item → ∀ upper, Leads upper item → upper ≠ "" →
    ∀ r ∈ s.rows, r.fullname ≠ slot ++ ("/" ++ upper)

variable {s : Crawl C}

theorem Placed.fullname_ne {r : Row} (h : Placed s.rows s.snapshot r) (path : String) :
    r.fullname ≠ "" ∧ r.fullname ≠ path ++ ("/" ++ "") := by
  obtain ⟨above, -, hname⟩ := h.under
  rw [hname, sweptName_eq]
  refine ⟨fun heq => ?_, fun heq => ?_⟩
  · simpa using congrArg String.toList heq
  · have hlast := last_segment (slash_notMem_segment h.sendable) (by decide) heq
    exact segment_ne _ hlast.2

/-- What a node is known by is what is found at its path. -/
theorem OfNode.lookup {path : String} {id : Int32} (h : OfNode s.rows path id) (hs : Invariant s)
    (hapart : Apart s) :
    (path = "" → id = 0) ∧ (path ≠ "" → (idsOf s.rows).lookup path = some id) := by
  rcases h with ⟨rfl, rfl⟩ | ⟨r, hr, rfl, rfl⟩
  · exact ⟨fun _ => rfl, fun h => absurd rfl h⟩
  · refine ⟨fun h => absurd h ((hs r hr).fullname_ne "").1, fun _ => ?_⟩
    exact lookup_idsOf hapart.nodup hr

/-- **The parent of a row** is found again. -/
theorem parentIdFor_row (hs : Invariant s) (hapart : Apart s) {r : Row} (hr : r ∈ s.rows) :
    parentIdFor r.fullname (fun name => (idsOf s.rows).lookup name) = r.definition.parentId := by
  obtain ⟨path, hunder, hname⟩ := (hs r hr).under
  have hsegment := slash_notMem_segment (hs r hr).sendable
  rw [hname, sweptName_eq]
  generalize r.definition.parentId = id at hunder
  cases hunder with
  | node h =>
    obtain ⟨hroot, hslot⟩ := h.lookup hs hapart
    refine parentIdFor_above hroot hslot fun upper rest heq => ?_
    exact absurd (by rw [heq]; simp) hsegment
  | @model slot item _ hi h =>
    obtain ⟨hroot, hslot⟩ := h.lookup hs hapart
    have hassoc : slot ++ ("/" ++ item) ++ ("/" ++ segment r.definition) =
        slot ++ ("/" ++ (item ++ ("/" ++ segment r.definition))) := by
      simp only [String.append_assoc]
    rw [hassoc]
    refine parentIdFor_above hroot hslot fun upper rest heq => lookup_idsOf_none fun r' hr' => ?_
    rcases above_cases heq.symm with hleads | ⟨x, rfl⟩
    · by_cases hempty : upper = ""
      · rw [hempty]
        exact ((hs r' hr').fullname_ne slot).2
      · exact hapart.items slot item hi upper hleads hempty r' hr'
    · -- The last segment has no slash in it.
      rw [eq_append_iff] at heq
      simp only [String.toList_append, List.append_assoc, List.append_cancel_left_eq] at heq
      exact absurd (by rw [heq]; simp) hsegment

theorem canonical_parentId (d : WingNodeDef) :
    { d.canonical [] with parentId := d.parentId } = d.canonical [] := by
  unfold WingNodeDef.canonical
  split <;> rfl

theorem mapM_eq_some {α β : Type} {f : α → Option β} {g : α → β} {l : List α}
    (h : ∀ a ∈ l, f a = some (g a)) : l.mapM f = some (l.map g) := by
  induction l with
  | nil => rfl
  | cons a l ih =>
    rw [List.mapM_cons, h a List.mem_cons_self, ih fun b hb => h b (List.mem_cons_of_mem _ hb)]
    rfl

theorem crawled_spec (hC : ∀ s id, ∀ d ∈ C.definitions s id, Sendable d) {n : ℕ}
    (hheight : C.Height n 0) (line : Line C) :
    (crawled t C n line).1 ≠ .error .outOfFuel ∧ Invariant (crawled t C n line).2 := by
  have hstart : After (C := C) ⟨line, 1, [], []⟩ ⟨line, 1, [], []⟩ :=
    ⟨fun _ hr => (by cases hr), Grown.refl _⟩
  have hcrawl : Triple (After (C := C) ⟨line, 1, [], []⟩) (crawl t C (2 * n + 2))
      (fun _ => After ⟨line, 1, [], []⟩) Stopped := by
    refine (getNodeDef_spec _).bind fun replies => Triple.assume fun hreplies => ?_
    obtain ⟨sent, rfl⟩ := hreplies
    have hroot : Visits (C := C) ⟨line, 1, [], []⟩ "" 0 false := Or.inl ⟨rfl, rfl⟩
    exact add_spec hC hheight le_rfl hroot
  rcases hcrawl.outcome hstart with ⟨_, s, ho, hs⟩ | ⟨e, s, ho, hs⟩
  · rw [crawled, ho]
    exact ⟨nofun, hs.1⟩
  · rw [crawled, ho]
    exact ⟨fun h => hs.1 (Except.error.inj h), hs.2⟩

/-- **Embedding the rows of a crawl** gives back the canonical forms of its definitions, with their
parents. -/
theorem embedRows_crawled (hp : ∀ x : F32, x.isFinite = true → p.parse (p.write x) = some x)
    (hC : ∀ s id, ∀ d ∈ C.definitions s id, Sendable d) {n : ℕ} (hheight : C.Height n 0)
    {line : Line C} (hapart : Apart (crawled t C n line).2) :
    (crawled t C n line).1 ≠ .error .outOfFuel ∧
      embedRows p ((crawled t C n line).2.rows.map (Row.json p)) =
        some ((crawled t C n line).2.rows.map fun r => r.definition.canonical []) := by
  obtain ⟨hends, hs⟩ := crawled_spec (t := t) hC hheight line
  refine ⟨hends, ?_⟩
  generalize (crawled t C n line).2 = s at hapart hs
  have hindex : indexRows (s.rows.map (Row.json p)) [] = some (idsOf s.rows) :=
    indexRows_json (fun r hr => (hs r hr).sendable.sweepable) hapart.nodup
  rw [embedRows, hindex]
  simp only [Option.bind_eq_bind, Option.bind_some]
  rw [List.mapM_map]
  refine mapM_eq_some fun r hr => ?_
  have hd := (hs r hr).sendable.sweepable
  rw [Function.comp_apply, Row.json, field_fullname hd, Option.bind_some,
    parentIdFor_row hs hapart hr,
    defFromSweepRow_toJson hp hd, canonical_parentId]
  rfl

/-! ### A slot -/

def fx : WingNodeDef := { WingNodeDef.bare .node with id := 1, parentId := 0, name := "fx" }

/-- The selector of the slot, with a model whose name has a slash in it. -/
def mdl : WingNodeDef :=
  { WingNodeDef.bare .stringEnum with
    id := 2, parentId := 1, name := "mdl", stringEnum := some [⟨"B/C", ""⟩] }

/-- A parameter of the model. -/
def knob : WingNodeDef :=
  { WingNodeDef.bare .integer with
    id := 3, parentId := 1, index := 1, minInt := some 0, maxInt := some 9 }

def slotConsole : ConsoleTree where
  State := Unit
  definitions _ id := if id = 0 then [fx] else if id = 1 then [mdl, knob] else []
  nodeData _ _ := some (.withString "B/C")
  setString _ _ _ := ()

theorem sendable_slot (s : Unit) (id : Int32) : ∀ d ∈ slotConsole.definitions s id, Sendable d := by
  have hfx : Sendable fx := by
    refine ⟨⟨⟨⟨nofun, nofun⟩, ⟨_, rfl⟩, fun _ => rfl⟩, rfl, rfl, nofun, nofun, nofun⟩, by decide⟩
  have hmdl : Sendable mdl := by
    refine ⟨⟨⟨⟨nofun, nofun⟩, ⟨_, rfl⟩, fun _ => rfl⟩, rfl, rfl, nofun, nofun, nofun⟩, by decide⟩
  have hknob : Sendable knob := by
    refine ⟨⟨⟨⟨nofun, nofun⟩, ⟨_, rfl⟩, fun _ => rfl⟩, rfl, rfl, nofun, nofun, nofun⟩, by decide⟩
  intro d hd
  simp only [slotConsole] at hd
  split_ifs at hd
  · simp only [List.mem_singleton] at hd
    rw [hd]
    exact hfx
  · simp only [List.mem_cons, List.not_mem_nil, or_false] at hd
    rcases hd with rfl | rfl
    · exact hmdl
    · exact hknob
  · cases hd

theorem height_slot : slotConsole.Height 2 0 := by
  intro s d hd
  have hroot : slotConsole.below s 0 = [fx] := rfl
  rw [hroot, List.mem_singleton] at hd
  rw [hd]
  intro s' d' hd'
  have hslot : slotConsole.below s' fx.id = [mdl, knob] := rfl
  rw [hslot] at hd'
  simp only [List.mem_cons, List.not_mem_nil, or_false] at hd'
  rcases hd' with rfl | rfl
  · exact fun _ => rfl
  · exact fun _ => rfl

/-- Floats as their bits, one stroke each. -/
def strokes : FloatText where
  write x := String.ofList (List.replicate x.bits.toNat '1')
  parse s := some ⟨UInt32.ofNat s.toList.length⟩

theorem parse_strokes (x : F32) (_ : x.isFinite = true) :
    strokes.parse (strokes.write x) = some x := by
  simp [strokes]

def noTexts : Texts := ⟨fun _ => "", fun _ => "", fun _ => "", fun _ => ""⟩

theorem crawled_slot : (crawled noTexts slotConsole 2 ⟨(), []⟩).2.rows =
      [⟨0, "/fx", fx⟩, ⟨0, "/fx/mdl", mdl⟩, ⟨1, "/fx/B/C/1", knob⟩] ∧
    (crawled noTexts slotConsole 2 ⟨(), []⟩).2.snapshot = [⟨2, "/fx/mdl", "B/C", mdl⟩] :=
  ⟨by decide +kernel, by decide +kernel⟩

theorem apart_slot : Apart (crawled noTexts slotConsole 2 ⟨(), []⟩).2 := by
  obtain ⟨hrows, hsnapshot⟩ := crawled_slot
  refine ⟨by rw [hrows]; decide +kernel, fun slot item hitem upper hleads hne r hr heq => ?_⟩
  obtain ⟨e, he, hname, items, hitems, i, hi, rfl⟩ := hitem.exists_selector
  rw [hsnapshot, List.mem_singleton] at he
  obtain rfl := he
  obtain rfl := Option.some.inj hitems
  obtain rfl := List.mem_singleton.mp hi
  obtain rfl : "/fx" = slot := by
    rw [← String.toList_inj]
    exact List.append_cancel_right (by simpa using congrArg String.toList hname)
  obtain ⟨x, hx⟩ := hleads.isPrefix
  rw [← String.toList_inj] at hx heq
  simp only [String.toList_append] at hx heq
  rw [hrows] at hr
  simp only [List.mem_cons, List.not_mem_nil, or_false] at hr
  rcases hr with rfl | rfl | rfl
  · simp at heq
  all_goals
    simp only [String.reduceToList, List.cons_append, List.nil_append, List.cons.injEq, true_and]
      at heq
    simp [← heq] at hx

/-- The rows of a slot whose model has a slash in its name. -/
theorem embedRows_slot : embedRows strokes ((crawled noTexts slotConsole 2 ⟨(), []⟩).2.rows.map
    (Row.json strokes)) = some [fx.canonical [], mdl.canonical [], knob.canonical []] := by
  have hrows := (embedRows_crawled parse_strokes sendable_slot height_slot apart_slot).2
  rw [crawled_slot.1] at hrows ⊢
  exact hrows

end Wingschema

end LibWing
