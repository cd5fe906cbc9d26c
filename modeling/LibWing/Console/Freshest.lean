import LibWing.Console.Nodes
import Mathlib.Data.List.DropRight

/-!
# The freshest values

`get_nodes` is meant to return the freshest value it has seen of each node.  Of several values of a
node it takes the first it meets, so another value may overtake the one it returns.  Whether that
happens is decided by the state before each result.

* `Turn`, `setAside` : the state before a result, and what the gets since the last result for a node
  have taken on the way to values of their own;
* `Freshest` : a result is the last value of its node that had been read;
* `Undisputed` : what must hold of the state before a result;
* `getNodes_freshest_iff` : the results are fresh exactly if the states before them are undisputed.
-/

namespace LibWing

open Stateful

namespace Console

variable {w : World} {c c' start : Console} {id : Int32} {rs rs' : List WingResponse}
  {data : WingNodeData}

/-! ### Turns -/

/-- A result that is still to be decided: its node, and the console before it. -/
structure Turn where
  /-- The node that was asked for. -/
  id : Int32
  /-- The console before its get. -/
  console : Console

/-- Where a decision was made. -/
def Decision.turn (d : Decision) : Turn := ⟨d.id, d.before⟩

/-- The responses taken off a console on the way to a later state. -/
def takenUntil (c c' : Console) : List WingResponse :=
  c.remaining.take (c.remaining.length - c'.remaining.length)

/-- The state at the first of some turns; `c` when there are none. -/
def opening (turns : List Turn) (c : Console) : Console := (turns.head?.map Turn.console).getD c

/-- What the get of a turn has set aside when `c` is reached: all it took, if it came to a value of
its node.  A get that did not has failed, and what it took is lost. -/
def Turn.setAside (t : Turn) (c : Console) : List WingResponse :=
  if valuesOf t.id (takenUntil t.console c) = [] then [] else takenUntil t.console c

/-- What the gets of some turns have set aside when `c` is reached. -/
def setAside : List Turn → Console → List WingResponse
  | [], _ => []
  | t :: turns, c => t.setAside (opening turns c) ++ setAside turns c

/-- The turns since the last one for a node. -/
def sinceLast (id : Int32) (turns : List Turn) : List Turn := turns.rtakeWhile fun t => t.id ≠ id

/-- All responses that had been read off the stream of a call that began at `start`: those that were
queued then, and those parsed since. -/
def seen (start c : Console) : List WingResponse :=
  start.remaining.take (start.remaining.length - c.stream.responses.length)

/-- The result is the last value of its node that had been read. -/
def Freshest (start : Console) (d : Decision) : Prop :=
  ∀ data, d.result = .ok data → lastValue d.id (seen start d.after) = some data

/-- What a turn must find for its result to be fresh, after the turns `earlier`: of the values of
its node that it is going to take the first from, the first is not overtaken by a different one. -/
structure Undisputed (w : World) (timeout : Time) (earlier : List Turn) (t : Turn) : Prop where
  /-- A value that was set aside since the last turn for the node is still the last one read. -/
  setAside : valuesOf t.id (setAside (sinceLast t.id earlier) t.console) ≠ [] →
    lastValue t.id (seen (opening (sinceLast t.id earlier) t.console) t.console) =
      firstValue t.id (setAside (sinceLast t.id earlier) t.console)
  /-- Otherwise a queued value that is in reach is the last one queued. -/
  queued : valuesOf t.id (Console.setAside (sinceLast t.id earlier) t.console) = [] →
    InReach w timeout t.console t.id →
      lastValue t.id t.console.main.pending = firstValue t.id t.console.main.pending

/-! ### What was read -/

theorem takenUntil_eq {taken : List WingResponse} (h : c.remaining = taken ++ c'.remaining) :
    takenUntil c c' = taken := by
  rw [takenUntil, h, List.length_append, Nat.add_sub_cancel, List.take_left]

theorem takenUntil_append (h : c'.remaining <:+ c.remaining) :
    takenUntil c c' ++ c'.remaining = c.remaining := by
  obtain ⟨taken, htaken⟩ := h
  rw [takenUntil_eq htaken.symm, htaken]

theorem takenUntil_trans {c₁ : Console} (h : c₁.remaining <:+ c.remaining)
    (h' : c'.remaining <:+ c₁.remaining) :
      takenUntil c c' = takenUntil c c₁ ++ takenUntil c₁ c' := by
  refine takenUntil_eq ?_
  rw [List.append_assoc, takenUntil_append h', takenUntil_append h]

theorem seen_eq (h : c.remaining <:+ start.remaining) :
    seen start c = takenUntil start c ++ c.main.pending := by
  rw [seen, ← takenUntil_append h, remaining, ← List.append_assoc, List.length_append,
    Nat.add_sub_cancel, List.take_left]

/-- What was read since a later state is the end of what was read. -/
theorem seen_split {o : Console} (h : o.remaining <:+ start.remaining)
    (h' : c.remaining <:+ o.remaining) : seen start c = takenUntil start o ++ seen o c := by
  rw [seen_eq (h'.trans h), seen_eq h', takenUntil_trans h h', List.append_assoc]

/-- The states of some turns that lead to `c`: each has fewer responses left. -/
structure Descends (turns : List Turn) (c : Console) : Prop where
  /-- The stream only gets shorter from turn to turn. -/
  pairwise : turns.Pairwise fun t t' => t'.console.remaining <:+ t.console.remaining
  /-- And so it does after the last one. -/
  last : ∀ t ∈ turns, c.remaining <:+ t.console.remaining

namespace Descends

variable {turns : List Turn} {t : Turn}

theorem sinceLast (h : Descends turns c) (id : Int32) : Descends (sinceLast id turns) c :=
  ⟨h.pairwise.sublist (List.rtakeWhile_suffix _ _).sublist,
    fun t ht => h.last t ((List.rtakeWhile_suffix _ _).subset ht)⟩

theorem tail (h : Descends (t :: turns) c) : Descends turns c :=
  ⟨(List.pairwise_cons.mp h.pairwise).2, fun t' ht' => h.last t' (List.mem_cons_of_mem _ ht')⟩

theorem concat (h : Descends turns t.console) (hc : c.remaining <:+ t.console.remaining) :
    Descends (turns ++ [t]) c := by
  constructor
  · refine List.pairwise_append.mpr ⟨h.pairwise, List.pairwise_singleton _ _,
      fun t' ht' t'' ht'' => ?_⟩
    rw [List.mem_singleton.mp ht'']
    exact h.last t' ht'
  · intro t' ht'
    rcases List.mem_append.mp ht' with ht' | ht'
    · exact hc.trans (h.last t' ht')
    · rw [List.mem_singleton.mp ht']
      exact hc

theorem opening_suffix (h : Descends (t :: turns) c) :
    (opening turns c).remaining <:+ t.console.remaining := by
  cases turns with
  | nil => exact h.last t List.mem_cons_self
  | cons t' turns => exact (List.pairwise_cons.mp h.pairwise).1 t' List.mem_cons_self

theorem suffix_opening (h : Descends turns c) : c.remaining <:+ (opening turns c).remaining := by
  cases turns with
  | nil => exact List.suffix_refl _
  | cons t turns => exact h.last t List.mem_cons_self

theorem setAside_subset (h : Descends turns c) :
    setAside turns c ⊆ takenUntil (opening turns c) c := by
  induction turns with
  | nil => exact List.nil_subset _
  | cons t turns ih =>
    have hsplit := takenUntil_trans h.opening_suffix h.tail.suffix_opening
    change _ ⊆ takenUntil t.console c
    rw [hsplit, setAside]
    refine List.append_subset.mpr ⟨?_, List.subset_append_of_subset_right _ (ih h.tail)⟩
    rw [Turn.setAside]
    split_ifs
    · exact List.nil_subset _
    · exact List.subset_append_left _ _

end Descends

theorem opening_concat (turns : List Turn) (t : Turn) (c : Console) :
    opening (turns ++ [t]) c = opening turns t.console := by
  cases turns <;> rfl

theorem setAside_concat (turns : List Turn) (t : Turn) (c : Console) :
    setAside (turns ++ [t]) c = setAside turns t.console ++ t.setAside c := by
  induction turns with
  | nil => exact List.append_nil _
  | cons t' turns ih =>
    rw [List.cons_append, setAside, ih, opening_concat, setAside, List.append_assoc]

theorem mem_valuesOf : data ∈ valuesOf id rs ↔ .nodeData id data ∈ rs := by
  rw [valuesOf, List.mem_filterMap]
  constructor
  · rintro ⟨r, hr, hdata⟩
    cases r with
    | requestEnd => cases hdata
    | nodeDef d => cases hdata
    | nodeData rid d =>
      simp only at hdata
      split_ifs at hdata with hid
      cases hdata
      rwa [← hid]
  · exact fun h => ⟨_, h, by simp⟩

theorem valuesOf_ne_nil_of_subset (h : rs ⊆ rs') (hrs : valuesOf id rs ≠ []) :
    valuesOf id rs' ≠ [] := by
  obtain ⟨data, hdata⟩ := List.exists_mem_of_ne_nil _ hrs
  exact List.ne_nil_of_mem (mem_valuesOf.mpr (h (mem_valuesOf.mp hdata)))

/-! ### A decision -/

theorem sinceLast_of_ne {t : Turn} (h : t.id ≠ id) (turns : List Turn) :
    sinceLast id (turns ++ [t]) = sinceLast id turns ++ [t] :=
  List.rtakeWhile_concat_pos _ _ _ (by simpa using h)

theorem sinceLast_self (turns : List Turn) (t : Turn) : sinceLast t.id (turns ++ [t]) = [] :=
  List.rtakeWhile_concat_neg _ _ _ (by simp)

/-- Where the loop is after some turns. -/
structure Tracked (ids : List Int32) (start : Console) (turns : List Turn)
    (pending : Int32 → Option WingNodeData) (c : Console) : Prop where
  /-- No raw capture is going on. -/
  capture : c.main.capture = none
  /-- The turns came after the start. -/
  turnsBelow : ∀ t ∈ turns, t.console.remaining <:+ start.remaining
  /-- And so does the console. -/
  below : c.remaining <:+ start.remaining
  /-- The stream only gets shorter. -/
  descends : Descends turns c
  /-- The stash has the first value of each node that was set aside since its last turn. -/
  stashed : ∀ id ∈ ids, pending id = firstValue id (setAside (sinceLast id turns) c)

namespace Tracked

variable {ids : List Int32} {turns : List Turn} {pending : Int32 → Option WingNodeData}
  {timeout : Time}

/-- After a turn for `id`: the stash has no value of that node, and for the other nodes it has taken
up what the turn has set aside. -/
theorem next {pending' : Int32 → Option WingNodeData} (h : Tracked ids start turns pending c)
    (hcap : c'.main.capture = none) (hrem : c'.remaining <:+ c.remaining)
    (hself : pending' id = none)
    (hothers : ∀ id' ∈ ids, id' ≠ id →
      pending' id' = (pending id').or (firstValue id' (Turn.setAside ⟨id, c⟩ c'))) :
    Tracked ids start (turns ++ [⟨id, c⟩]) pending' c' where
  capture := hcap
  turnsBelow t ht := by
    rcases List.mem_append.mp ht with ht | ht
    · exact h.turnsBelow t ht
    · rw [List.mem_singleton.mp ht]
      exact h.below
  below := hrem.trans h.below
  descends := h.descends.concat hrem
  stashed id' hid' := by
    by_cases hd : id' = id
    · subst hd
      rw [hself, sinceLast_self turns ⟨id', c⟩]
      rfl
    · rw [sinceLast_of_ne (t := ⟨id, c⟩) (Ne.symm hd), setAside_concat, firstValue_append,
        ← h.stashed id' hid', hothers id' hid' hd]

/-- The values since the last turn for a node are the end of what was read. -/
theorem seen_split (h : Tracked ids start turns pending c) (id : Int32) :
    ∃ older, seen start c = older ++ seen (opening (sinceLast id turns) c) c := by
  refine ⟨_, Console.seen_split ?_ (h.descends.sinceLast id).suffix_opening⟩
  rw [opening]
  cases hhead : (sinceLast id turns).head? with
  | none => exact h.below
  | some t =>
    exact h.turnsBelow t ((List.rtakeWhile_suffix _ _).subset (List.mem_of_mem_head? hhead))

/-- The stash answers. -/
theorem hit (h : Tracked ids start turns pending c) (hid : id ∈ ids) (hp : pending id = some data) :
    Tracked ids start (turns ++ [⟨id, c⟩]) (Function.update pending id none) c ∧
      (Freshest start ⟨id, .ok data, c, c⟩ ↔ Undisputed w timeout turns ⟨id, c⟩) := by
  have hnone : takenUntil c c = [] := takenUntil_eq rfl
  have hfirst := (h.stashed id hid).symm.trans hp
  have hne : valuesOf id (setAside (sinceLast id turns) c) ≠ [] := by
    intro hnil
    rw [firstValue, hnil] at hfirst
    cases hfirst
  constructor
  · refine h.next h.capture (List.suffix_refl _) (Function.update_self ..) fun id' _ hd => ?_
    rw [Function.update_of_ne hd, Turn.setAside, hnone, ite_self]
    exact Option.or_none.symm
  · -- What was set aside has been read since the last turn for the node.
    have hsince := h.descends.sinceLast id
    have hlast : lastValue id (seen start c) =
        lastValue id (seen (opening (sinceLast id turns) c) c) := by
      obtain ⟨older, holder⟩ := h.seen_split id
      rw [holder]
      refine lastValue_append older
        (valuesOf_ne_nil_of_subset (List.Subset.trans hsince.setAside_subset ?_) hne)
      rw [seen_eq hsince.suffix_opening]
      exact List.subset_append_left _ _
    constructor
    · intro hfresh
      refine ⟨fun _ => ?_, fun hnil => absurd hnil hne⟩
      rw [← hlast, hfresh data rfl, hfirst]
    · rintro hundisputed data' ⟨⟩
      rw [hlast, hundisputed.setAside hne, hfirst]

/-- A get answers. -/
theorem got (h : Tracked ids start turns pending c) (hw : w.Calm) (hid : id ∈ ids)
    (hp : pending id = none) {buffered : List WingResponse}
    (hrun : outcome (getNodeData w id timeout) c = (.ok (data, buffered), c'))
    (hcap : c'.main.capture = none) (hno : valuesOf id buffered = [])
    (hcons : Consumed c (buffered ++ [.nodeData id data]) c') :
    Tracked ids start (turns ++ [⟨id, c⟩]) (stash ids id pending buffered) c' ∧
      (Freshest start ⟨id, .ok data, c, c'⟩ ↔ Undisputed w timeout turns ⟨id, c⟩) := by
  have hrem := hcons.remaining
  have htaken : takenUntil c c' = buffered ++ [.nodeData id data] := takenUntil_eq hrem
  have hself : valuesOf id (takenUntil c c') = [data] := by
    rw [htaken, valuesOf_append, hno]
    simp [valuesOf]
  have hbelow : c'.remaining <:+ c.remaining := ⟨_, hrem.symm⟩
  constructor
  · refine h.next hcap hbelow ((stash_self ids id pending buffered).trans hp) fun id' hid' hd => ?_
    -- The answer itself is no value of another node.
    have hanswer : firstValue id' [.nodeData id data] = none := by
      simp [firstValue, valuesOf, Ne.symm hd]
    rw [stash_of_mem hd hid', Turn.setAside, if_neg (by rw [hself]; simp), htaken,
      firstValue_append,
      hanswer, Option.or_none]
  · have hnil : valuesOf id (setAside (sinceLast id turns) c) = [] :=
      firstValue_eq_none_iff.mp ((h.stashed id hid).symm.trans hp)
    rcases hcons with ⟨hqueue, hstream⟩ | ⟨parsed, hparsed, hbuffered, hqueue, -⟩
    · -- The answer was queued, and nothing was read.
      have hseen : seen start c' = seen start c := by rw [seen, seen, hstream]
      have hfirst : firstValue id c.main.pending = some data := by
        rw [hqueue, List.append_assoc, firstValue_append_none (firstValue_eq_none_iff.mpr hno)]
        simp [firstValue, valuesOf]
      have hqueued : valuesOf id c.main.pending ≠ [] := by
        intro hnone
        rw [firstValue, hnone] at hfirst
        cases hfirst
      have hlast : lastValue id (seen start c') = lastValue id c.main.pending := by
        rw [hseen, seen_eq h.below, lastValue_append _ hqueued]
      have hreach : InReach w timeout c id := by
        refine (getNodeData_isOk_iff hw h.capture hqueued timeout).mp ?_
        rw [hrun]
        rfl
      constructor
      · intro hfresh
        refine ⟨fun hne => absurd hnil hne, fun _ _ => ?_⟩
        rw [← hlast, hfresh data rfl, hfirst]
      · rintro hundisputed data' ⟨⟩
        rw [hlast, hundisputed.queued hnil hreach, hfirst]
    · -- The answer was read last of all.
      have hnone : valuesOf id c.main.pending = [] := by
        obtain ⟨parsed', last, rfl⟩ := List.eq_nil_or_concat parsed |>.resolve_left hparsed
        rw [List.concat_eq_append, ← List.append_assoc] at hbuffered
        obtain ⟨rfl, -⟩ := List.append_singleton_inj.mp hbuffered
        rw [valuesOf_append] at hno
        exact (List.append_eq_nil_iff.mp hno).1
      have hlast : lastValue id (seen start c') = some data := by
        rw [seen_eq (hbelow.trans h.below), hqueue, List.append_nil,
          takenUntil_trans h.below hbelow,
          lastValue, valuesOf_append, hself]
        exact List.getLast?_append_of_ne_nil _ (List.cons_ne_nil _ _)
      refine ⟨fun _ => ⟨fun hne => absurd hnil hne, fun _ hreach => absurd hnone hreach.queued⟩, ?_⟩
      rintro _ data' ⟨⟩
      exact hlast

/-- A get fails. -/
theorem failed (h : Tracked ids start turns pending c) (hw : w.Calm) (hid : id ∈ ids)
    (hp : pending id = none) {e : Error}
    (hrun : outcome (getNodeData w id timeout) c = (.error e, c')) (hpassed : Passed id c c') :
    Tracked ids start (turns ++ [⟨id, c⟩]) pending c' ∧
      (Freshest start ⟨id, .error e, c, c'⟩ ↔ Undisputed w timeout turns ⟨id, c⟩) := by
  obtain ⟨hcap, taken, hnone, hrem⟩ := hpassed
  have hnil : valuesOf id (setAside (sinceLast id turns) c) = [] :=
    firstValue_eq_none_iff.mp ((h.stashed id hid).symm.trans hp)
  constructor
  · refine h.next hcap ⟨taken, hrem.symm⟩ hp fun id' _ _ => ?_
    rw [Turn.setAside, takenUntil_eq hrem, if_pos hnone]
    exact Option.or_none.symm
  · refine ⟨fun _ => ⟨fun hne => absurd hnil hne, fun _ hreach => ?_⟩, fun _ => nofun⟩
    -- A get for which a value is in reach does not fail.
    have hok := (getNodeData_isOk_iff hw h.capture hreach.queued timeout).mpr hreach
    rw [hrun] at hok
    cases hok

end Tracked

/-! ### The loop -/

theorem outcome_cons {x : ConsoleM (List Decision)} {d : Decision} {ds : List Decision}
    (h : outcome (do let later ← x; return d :: later) c = (.ok ds, c')) :
    ∃ later, outcome x c = (.ok later, c') ∧ ds = d :: later := by
  rcases hx : outcome x c with ⟨r, c₁⟩
  cases r with
  | error e =>
    cases (outcome_bind_error hx).symm.trans h
  | ok later =>
    cases (outcome_bind_ok hx).symm.trans h
    exact ⟨later, rfl, rfl⟩

theorem getNodesLoop_decided (hw : w.Calm) {ids : List Int32} {timeout : Time} {todo : List Int32}
    (hsub : ∀ id ∈ todo, id ∈ ids) {turns : List Turn} {pending : Int32 → Option WingNodeData}
    (h : Tracked ids start turns pending c) {ds : List Decision}
    (hrun : outcome (getNodesLoop w ids timeout todo pending) c = (.ok ds, c')) :
    ∀ before d after, ds = before ++ d :: after →
      (Freshest start d ↔ Undisputed w timeout (turns ++ before.map Decision.turn) d.turn) := by
  induction todo generalizing turns pending c ds with
  | nil =>
    cases hrun
    intro before d after hsplit
    simp at hsplit
  | cons id rest ih =>
    have hid : id ∈ ids := hsub id List.mem_cons_self
    have hrest : ∀ id' ∈ rest, id' ∈ ids := fun id' hmem => hsub id' (List.mem_cons_of_mem _ hmem)
    -- Whatever the first decision is, the loop goes on behind it.
    have hcons : ∀ (d₁ : Decision) {pending' : Int32 → Option WingNodeData} {c₁ : Console},
        Tracked ids start (turns ++ [d₁.turn]) pending' c₁ ∧
          (Freshest start d₁ ↔ Undisputed w timeout turns d₁.turn) →
        outcome (do
          let later ← getNodesLoop w ids timeout rest pending'
          return d₁ :: later) c₁ = (.ok ds, c') →
        ∀ before d after, ds = before ++ d :: after →
          (Freshest start d ↔ Undisputed w timeout (turns ++ before.map Decision.turn) d.turn) := by
      rintro d₁ pending' c₁ ⟨hnext, hdecided⟩ hrun before d after hsplit
      obtain ⟨later, hlater, rfl⟩ := outcome_cons hrun
      cases before with
      | nil =>
        obtain ⟨rfl, -⟩ := List.cons.inj hsplit
        rw [List.map_nil, List.append_nil]
        exact hdecided
      | cons d' before =>
        obtain ⟨rfl, hlater'⟩ := List.cons.inj hsplit
        have := ih hrest hnext hlater before d after hlater'
        rwa [List.append_assoc] at this
    have hget : outcome (get : ConsoleM Console) c = (.ok c, c) := rfl
    rw [getNodesLoop, outcome_bind_ok hget] at hrun
    cases hp : pending id with
    | some data =>
      simp only [hp] at hrun
      exact hcons ⟨id, .ok data, c, c⟩ (h.hit hid hp) hrun
    | none =>
      simp only [hp] at hrun
      rcases getNodeData_taken hw h.capture id timeout with
        ⟨data, buffered, c₁, ho, hcap, hno, htaken⟩ | ⟨e, c₁, ho, hpassed⟩
      · have hattempt : outcome (attempt (getNodeData w id timeout)) c =
            (.ok (.ok (data, buffered)), c₁) := by
          rw [outcome, attempt, ho]
        have hget₁ : outcome (get : ConsoleM Console) c₁ = (.ok c₁, c₁) := rfl
        rw [outcome_bind_ok hattempt, outcome_bind_ok hget₁] at hrun
        exact hcons ⟨id, .ok data, c, c₁⟩ (h.got hw hid hp ho hcap hno htaken) hrun
      · have hattempt : outcome (attempt (getNodeData w id timeout)) c = (.ok (.error e), c₁) := by
          rw [outcome, attempt, ho]
        have hget₁ : outcome (get : ConsoleM Console) c₁ = (.ok c₁, c₁) := rfl
        rw [outcome_bind_ok hattempt, outcome_bind_ok hget₁] at hrun
        exact hcons ⟨id, .error e, c, c₁⟩ (h.failed hw hid hp ho hpassed) hrun

theorem decideNodes_decided (hw : w.Calm) (hcap : c.main.capture = none) {ids : List Int32}
    {timeout : Time} {ds : List Decision}
    (hrun : outcome (decideNodes w ids timeout) c = (.ok ds, c')) :
    ∀ before d after, ds = before ++ d :: after →
      (Freshest c d ↔ Undisputed w timeout (before.map Decision.turn) d.turn) := by
  have hstart : Tracked ids c [] (fun _ => none) c :=
    ⟨hcap, by simp, List.suffix_refl _, ⟨List.Pairwise.nil, by simp⟩, fun _ _ => rfl⟩
  exact getNodesLoop_decided hw (fun _ h => h) hstart hrun

theorem decideNodes_freshest_iff (hw : w.Calm) (hcap : c.main.capture = none) {ids : List Int32}
    {timeout : Time} {ds : List Decision}
    (hrun : outcome (decideNodes w ids timeout) c = (.ok ds, c')) :
    (∀ d ∈ ds, Freshest c d) ↔ ∀ before t after, ds.map Decision.turn = before ++ t :: after →
      Undisputed w timeout before t := by
  have hdecided := decideNodes_decided hw hcap hrun
  constructor
  · intro hfresh before t after hsplit
    obtain ⟨ds₁, ds₂, rfl, rfl, hds₂⟩ := List.map_eq_append_iff.mp hsplit
    obtain ⟨d, ds₃, rfl, rfl, rfl⟩ := List.map_eq_cons_iff.mp hds₂
    exact (hdecided ds₁ d ds₃ rfl).mp (hfresh d (List.mem_append_right _ List.mem_cons_self))
  · intro hcond d hmem
    obtain ⟨before, after, rfl⟩ := List.append_of_mem hmem
    exact (hdecided before d after rfl).mpr (hcond _ _ (after.map Decision.turn) (by simp))

/-- **When `get_nodes` returns the freshest values**, in an undisturbed session, whatever is queued,
whatever the stream is and whichever gets run out of time.  It returns a result for each id, in
order; and the results are fresh exactly if, in the state before each of them, the value that is
going to be taken first has not been overtaken by a different one. -/
theorem getNodes_freshest_iff (hw : w.Calm) (hcap : c.main.capture = none) (ids : List Int32)
    (timeout : Time) :
    ∃ ds c', outcome (decideNodes w ids timeout) c = (.ok ds, c') ∧ ds.map Decision.id = ids ∧
      outcome (getNodes w ids timeout) c = (.ok (ds.map fun d => (d.id, d.result)), c') ∧
      ((∀ d ∈ ds, Freshest c d) ↔ ∀ before t after, ds.map Decision.turn = before ++ t :: after →
        Undisputed w timeout before t) := by
  obtain ⟨ds, c', hrun, hids, hreturned⟩ := getNodes_returns w ids timeout c
  exact ⟨ds, c', hrun, hids, hreturned, decideNodes_freshest_iff hw hcap hrun⟩

/-- A stream with the given values of node 20 in front of the value 5 of node 10. -/
def nodesConsole (values : List UInt8) : Console :=
  .new 0 [.read (.ok ([0xd7, 0, 0, 0, 20] ++ values ++ [0xd7, 0, 0, 0, 10, 5]))]

/-- A result and the last value that had been read. -/
def Decision.report (start : Console) (d : Decision) :
    Int32 × Option WingNodeData × Option WingNodeData :=
  (d.id, d.result.toOption, lastValue d.id (seen start d.after))

/-- The reports of a call for nodes 10 and 20. -/
def nodesReport (values : List UInt8) :
    Option (List (Int32 × Option WingNodeData × Option WingNodeData)) :=
  (outcome (decideNodes .steady [10, 20] 99) (nodesConsole values)).1.toOption.map
    (List.map (Decision.report (nodesConsole values)))

theorem exists_of_nodesReport {values : List UInt8}
    {reports : List (Int32 × Option WingNodeData × Option WingNodeData)}
    (h : nodesReport values = some reports) :
    ∃ ds c', outcome (decideNodes .steady [10, 20] 99) (nodesConsole values) = (.ok ds, c') ∧
      ds.map (Decision.report (nodesConsole values)) = reports := by
  rw [nodesReport] at h
  rcases hrun : outcome (decideNodes .steady [10, 20] 99) (nodesConsole values) with ⟨r, c'⟩
  rw [hrun] at h
  cases r with
  | error e => cases h
  | ok ds => exact ⟨ds, c', rfl, Option.some.inj h⟩

theorem Decision.freshest_of_report {d : Decision} {data : WingNodeData}
    (h : d.report start = (id, some data, some data)) : Freshest start d := by
  intro data' hok
  simp only [Decision.report, hok, Except.toOption, Prod.mk.injEq, Option.some.injEq] at h
  rw [h.2.1, h.2.2]

/-- With one value of node 20, both results are fresh. -/
theorem nodesConsole_fresh :
    ∃ ds c', outcome (decideNodes .steady [10, 20] 99) (nodesConsole [1]) = (.ok ds, c') ∧
      ds.map (Decision.report (nodesConsole [1])) = [(10, some (.withI32 5), some (.withI32 5)),
        (20, some (.withI32 1), some (.withI32 1))] ∧
      ∀ before t after, ds.map Decision.turn = before ++ t :: after →
        Undisputed .steady 99 before t := by
  obtain ⟨ds, c', hrun, hds⟩ := exists_of_nodesReport
    (show nodesReport [1] = some [(10, some (.withI32 5), some (.withI32 5)),
      (20, some (.withI32 1), some (.withI32 1))] by decide +kernel)
  obtain ⟨ds', c'', hrun', -, -, hiff⟩ :=
    getNodes_freshest_iff (c := nodesConsole [1]) World.steady_calm rfl [10, 20] 99
  rw [hrun, Prod.mk.injEq, Except.ok.injEq] at hrun'
  obtain ⟨rfl, rfl⟩ := hrun'
  refine ⟨ds, c', hrun, hds, hiff.mp ?_⟩
  intro d hmem
  have hreport := List.mem_map_of_mem (f := Decision.report (nodesConsole [1])) hmem
  rw [hds] at hreport
  rcases List.mem_cons.mp hreport with h | h
  · exact Decision.freshest_of_report h
  · exact Decision.freshest_of_report (List.mem_singleton.mp h)

/-- With two values of node 20, the first is returned, although the second had been read. -/
theorem nodesConsole_not_fresh :
    ¬ ∀ (w : World) (c c' : Console) (ids : List Int32) (timeout : Time) (ds : List Decision),
      w.Calm → c.main.capture = none → outcome (decideNodes w ids timeout) c = (.ok ds, c') →
        ∀ d ∈ ds, Freshest c d := by
  intro h
  obtain ⟨ds, c', hrun, hds⟩ := exists_of_nodesReport
    (show nodesReport [1, 2] = some [(10, some (.withI32 5), some (.withI32 5)),
      (20, some (.withI32 1), some (.withI32 2))] by decide +kernel)
  have hmem : ((20 : Int32), some (WingNodeData.withI32 1), some (WingNodeData.withI32 2)) ∈
      ds.map (Decision.report (nodesConsole [1, 2])) := by
    rw [hds]
    exact List.mem_cons_of_mem _ (List.mem_singleton_self _)
  obtain ⟨d, hd, heq⟩ := List.mem_map.mp hmem
  simp only [Decision.report, Prod.mk.injEq] at heq
  have hfresh := h .steady _ _ _ _ _ World.steady_calm rfl hrun d hd
  cases hr : d.result with
  | error e =>
    rw [hr] at heq
    cases heq.2.1
  | ok data =>
    rw [hr] at heq
    obtain rfl : data = .withI32 1 := Option.some.inj heq.2.1
    have hlast := hfresh _ hr
    rw [heq.2.2] at hlast
    cases hlast

end Console

end LibWing
