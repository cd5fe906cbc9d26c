import Mathlib.Data.List.Range
import LibWing.Lib.Stateful
import LibWing.Tools.Redact

/-!
# Redacting a capture

The events of a capture are redacted by streams: the bytes of each direction of a Native connection,
put together, and each other payload by itself.  An empty event of `N<` ends a connection.

* `scanEvents`, `redactEvents` : over the groups of events that make up the streams;
* `connections` : the streams by connection, however they were cut;
* `streams_eq` : what is gathered over the groups is what is gathered over the connections;
* `redactEvents_spec` : each stream is redacted by itself, or the first that cannot be is the error;
* `redactEvents_complete` : redacted events are cut as they were, nothing is found in them, and how
  the events were cut makes no difference.
-/

namespace LibWing

namespace Redact

open Stateful

/-- A channel and a payload. -/
abbrev Event := String × List UInt8

/-- A group, if there are events in it. -/
def flush (indices : List ℕ) : List (List ℕ) := if indices = [] then [] else [indices]

/-- The indices of the events of each stream, from `index` on. -/
def groupsFrom : ℕ → List ℕ → List ℕ → List Event → List (List ℕ)
  | _, incoming, outgoing, [] => flush incoming ++ flush outgoing
  | index, incoming, outgoing, (channel, bytes) :: events =>
    if channel = "N<" ∧ bytes = [] then
      flush incoming ++ flush outgoing ++ groupsFrom (index + 1) [] [] events
    else if channel = "N<" then groupsFrom (index + 1) (incoming ++ [index]) outgoing events
    else if channel = "N>" then groupsFrom (index + 1) incoming (outgoing ++ [index]) events
    else [index] :: groupsFrom (index + 1) incoming outgoing events

/-- `groups`. -/
def groups (events : List Event) : List (List ℕ) := groupsFrom 0 [] [] events

/-- The payload of an event. -/
def payload (events : List Event) (index : ℕ) : List UInt8 := (events[index]?.map Prod.snd).getD []

/-- The payloads of a group. -/
def gather (events : List Event) (indices : List ℕ) : List UInt8 := indices.flatMap (payload events)

/-- `scan_events`. -/
def scanEvents (events : List Event) : List Finding :=
  (groups events).flatMap fun indices => scan (gather events indices)

/-- Put the bytes from `offset` on back into the events. -/
def scatter (redacted : List UInt8) : ℕ → List ℕ → List Event → List Event
  | _, [], events => events
  | offset, index :: indices, events =>
    let length := (payload events index).length
    scatter redacted (offset + length) indices
      (events.modify index fun event => (event.1, slice redacted offset (offset + length)))

/-- Redact the groups, one after the other. -/
def redactGroups : List (List ℕ) → EStateM String (List Event) PUnit
  | [] => pure ⟨⟩
  | indices :: rest => do
    match redactBytes (gather (← get) indices) with
    | .error error => throw error
    | .ok redacted =>
      modify (scatter redacted 0 indices)
      redactGroups rest

/-- `redact_events`. -/
def redactEvents : EStateM String (List Event) PUnit := do redactGroups (groups (← get))

/-! ### Connections -/

/-- What is sent until a connection ends: other events, and the two directions of the connection. -/
structure Connection where
  /-- The events of other channels. -/
  others : List Event
  /-- What the console has sent. -/
  incoming : List UInt8
  /-- What the client has sent. -/
  outgoing : List UInt8
  deriving DecidableEq, Repr

/-- The connections, the first of which has begun. -/
def connectionsFrom : Connection → List Event → List Connection
  | c, [] => [c]
  | c, (channel, bytes) :: events =>
    if channel = "N<" ∧ bytes = [] then c :: connectionsFrom ⟨[], [], []⟩ events
    else if channel = "N<" then connectionsFrom { c with incoming := c.incoming ++ bytes } events
    else if channel = "N>" then connectionsFrom { c with outgoing := c.outgoing ++ bytes } events
    else connectionsFrom { c with others := c.others ++ [(channel, bytes)] } events

/-- The streams of a capture. -/
def connections (events : List Event) : List Connection := connectionsFrom ⟨[], [], []⟩ events

/-- The streams of a connection that have any bytes. -/
def Connection.streams (c : Connection) : List (List UInt8) :=
  (c.others.map Prod.snd ++ [c.incoming, c.outgoing]).filter (· ≠ [])

/-- What a redaction leaves of an event. -/
def shape (events : List Event) : List (String × ℕ) := events.map fun e => (e.1, e.2.length)

variable {events events' before : List Event} {incoming outgoing indices : List ℕ} {index i : ℕ}
  {gs : List (List ℕ)} {c : Connection} {redacted : List UInt8}

/-! ### Streams -/

@[simp] theorem gather_append (more : List ℕ) :
    gather events (indices ++ more) = gather events indices ++ gather events more :=
  List.flatMap_append

@[simp] theorem gather_singleton : gather events [i] = payload events i :=
    List.flatMap_singleton _ _

theorem payload_append (e : Event) : payload (before ++ e :: events) before.length = e.2 := by
  rw [payload, List.getElem?_append_right (Nat.le_refl _), Nat.sub_self]
  rfl

theorem streams_flush :
    ((flush indices).map (gather events)).filter (· ≠ []) =
      [gather events indices].filter (· ≠ []) := by
  rw [flush]
  split_ifs with hnil
  · rw [hnil]
    rfl
  · rfl

theorem streams_groupsFrom (hincoming : c.incoming = gather (before ++ events) incoming)
    (houtgoing : c.outgoing = gather (before ++ events) outgoing) :
    (c.others.map Prod.snd).filter (· ≠ []) ++
        ((groupsFrom before.length incoming outgoing events).map
          (gather (before ++ events))).filter (· ≠ []) =
      (connectionsFrom c events).flatMap Connection.streams := by
  induction events generalizing before incoming outgoing c with
  | nil =>
    rw [groupsFrom, connectionsFrom, List.flatMap_singleton, Connection.streams, List.filter_append,
      List.map_append, List.filter_append, streams_flush, streams_flush, ← List.filter_append,
      ← hincoming, ← houtgoing]
    rfl
  | cons e events ih =>
    obtain ⟨channel, bytes⟩ := e
    have hlength : (before ++ [(channel, bytes)]).length = before.length + 1 := by
      rw [List.length_append, List.length_singleton]
    have hassoc : before ++ [(channel, bytes)] ++ events =
        before ++ (channel, bytes) :: events := by
      rw [List.append_assoc, List.singleton_append]
    have hpayload := @payload_append events before (channel, bytes)
    have ih := fun c incoming outgoing => @ih (before ++ [(channel, bytes)]) incoming outgoing c
    rw [hlength, hassoc] at ih
    rw [groupsFrom, connectionsFrom]
    split_ifs with hmarker hin hout
    · rw [List.flatMap_cons, ← ih ⟨[], [], []⟩ [] [] rfl rfl, Connection.streams,
        List.filter_append,
        List.map_append, List.map_append, List.filter_append, List.filter_append, streams_flush,
        streams_flush, ← List.filter_append, ← hincoming, ← houtgoing]
      rw [List.append_assoc]
      rfl
    · refine ih { c with incoming := c.incoming ++ bytes } _ _ ?_ houtgoing
      rw [gather_append, gather_singleton, hpayload, hincoming]
    · refine ih { c with outgoing := c.outgoing ++ bytes } _ _ hincoming ?_
      rw [gather_append, gather_singleton, hpayload, houtgoing]
    · rw [← ih { c with others := c.others ++ [(channel, bytes)] } _ _ hincoming houtgoing,
        List.map_append, List.filter_append, List.append_assoc, List.map_cons, gather_singleton,
        hpayload, ← List.singleton_append, List.filter_append]
      rfl

/-- **The streams** of a capture are those of its connections. -/
theorem streams_eq (events : List Event) :
    ((groups events).map (gather events)).filter (· ≠ []) =
      (connections events).flatMap Connection.streams := by
  have h := @streams_groupsFrom events [] [] [] ⟨[], [], []⟩ rfl rfl
  exact h

theorem flatMap_filter_ne_nil {α : Type} {f : List UInt8 → List α} (hf : f [] = [])
    (streams : List (List UInt8)) : (streams.filter (· ≠ [])).flatMap f = streams.flatMap f := by
  induction streams with
  | nil => rfl
  | cons s streams ih =>
    rw [List.filter_cons, List.flatMap_cons, ← ih]
    split_ifs with h
    · rw [List.flatMap_cons]
    · have hnil : s = [] := by simpa using h
      rw [hnil, hf, List.nil_append]

theorem scanEvents_eq (events : List Event) :
    scanEvents events = ((connections events).flatMap Connection.streams).flatMap scan := by
  rw [← streams_eq, flatMap_filter_ne_nil rfl, List.flatMap_map]
  rfl

/-! ### Putting bytes back -/

theorem gather_cons : gather events (i :: indices) = payload events i ++ gather events indices :=
  List.flatMap_cons

theorem gather_congr (h : ∀ i ∈ indices, payload events' i = payload events i) :
    gather events' indices = gather events indices :=
  List.flatMap_congr h

theorem payload_modify (written : List UInt8) (hi : i < events.length) (j : ℕ) :
    payload (events.modify i fun e => (e.1, written)) j =
      if i = j then written else payload events j := by
  rw [payload, List.getElem?_modify]
  split_ifs with hij
  · subst hij
    rw [List.getElem?_eq_getElem hi]
    rfl
  · rw [payload]
    cases events[j]? <;> rfl

theorem shape_modify {written : List UInt8} (h : written.length = (payload events i).length) :
    shape (events.modify i fun e => (e.1, written)) = shape events := by
  refine List.ext_getElem? fun j => ?_
  rw [shape, shape, List.getElem?_map, List.getElem?_map, List.getElem?_modify]
  cases hj : events[j]? with
  | none => rfl
  | some e =>
    rw [Option.map_eq_map, Option.map_some, Option.map_some, Option.map_some]
    split_ifs with hij
    · subst hij
      rw [payload, hj] at h
      rw [h]
      rfl
    · rfl

/-- **Putting bytes back** into the events of a group makes them its payloads. -/
theorem scatter_spec {offset : ℕ} (hnodup : indices.Nodup)
    (hrange : ∀ i ∈ indices, i < events.length)
    (hlength : redacted.length = offset + (gather events indices).length) :
    shape (scatter redacted offset indices events) = shape events ∧
      gather (scatter redacted offset indices events) indices = redacted.drop offset ∧
        ∀ i ∉ indices, payload (scatter redacted offset indices events) i = payload events i := by
  induction indices generalizing offset events with
  | nil =>
    refine ⟨rfl, ?_, fun i _ => rfl⟩
    rw [List.drop_eq_nil_of_le (by rw [hlength]; rfl)]
    rfl
  | cons i indices ih =>
    obtain ⟨hnot, hnodup⟩ := List.nodup_cons.1 hnodup
    obtain ⟨hi, hrange⟩ := List.forall_mem_cons.1 hrange
    rw [gather_cons, List.length_append] at hlength
    rw [scatter]
    have hslice : (slice redacted offset (offset + (payload events i).length)).length =
        (payload events i).length := by
      simp only [slice, List.length_take, List.length_drop]
      omega
    have hothers : ∀ j, i ≠ j → payload (events.modify i fun e =>
        (e.1, slice redacted offset (offset + (payload events i).length))) j =
          payload events j := by
      intro j hij
      rw [payload_modify _ hi, if_neg hij]
    have hsame := gather_congr fun j hj => hothers j fun hij => hnot (hij ▸ hj)
    obtain ⟨hshape, hgather, hframe⟩ := @ih (events.modify i fun e =>
      (e.1, slice redacted offset (offset + (payload events i).length)))
      (offset + (payload events i).length) hnodup
      (fun j hj => (hrange j hj).trans_eq (List.length_modify _ _ _).symm)
      (by rw [hsame, hlength, Nat.add_assoc])
    refine ⟨hshape.trans (shape_modify hslice), ?_, ?_⟩
    · rw [gather_cons, hframe i hnot, payload_modify _ hi, if_pos rfl, hgather, slice,
        Nat.add_sub_cancel_left, ← List.drop_drop, List.take_append_drop]
    · intro j hj
      rw [List.mem_cons, not_or] at hj
      rw [hframe j hj.2, hothers j (Ne.symm hj.1)]

/-! ### Redacting the groups -/

/-- What a redaction does to the groups `gs`. -/
structure Redacted (gs : List (List ℕ)) (events events' : List Event) : Prop where
  /-- Channels and lengths are as they were. -/
  shape : shape events' = shape events
  /-- The bytes of a group are redacted together. -/
  redacted : ∀ indices ∈ gs, redactBytes (gather events indices) = .ok (gather events' indices)
  /-- An event of no group is as it was. -/
  frame : ∀ i, i ∉ gs.flatten → payload events' i = payload events i

/-- **Each group is redacted by itself**, or one of them cannot be. -/
theorem redactGroups_spec (hnodup : gs.flatten.Nodup)
    (hrange : ∀ i ∈ gs.flatten, i < events.length) :
    Triple (· = events) (redactGroups gs) (fun _ events' => Redacted gs events events')
      (fun e _ => ∃ indices ∈ gs, redactBytes (gather events indices) = .error e) := by
  induction gs generalizing events with
  | nil =>
    refine Triple.pure ?_
    rintro _ rfl
    exact ⟨rfl, fun indices h => absurd h List.not_mem_nil, fun i _ => rfl⟩
  | cons indices gs ih =>
    rw [List.flatten_cons, List.nodup_append] at hnodup
    obtain ⟨hindices, hgs, hdisjoint⟩ := hnodup
    rw [List.flatten_cons] at hrange
    refine Triple.bind_get fun s hs => ?_
    subst hs
    cases hredact : redactBytes (gather s indices) with
    | error error => exact Triple.throw fun s' _ => ⟨indices, List.mem_cons_self, hredact⟩
    | ok redacted =>
      have hlength := (redactBytes_spec hredact).1
      obtain ⟨hshape, hgather, hframe⟩ := scatter_spec hindices
        (fun i hi => hrange i (List.mem_append_left _ hi)) (hlength.trans (Nat.zero_add _).symm)
      have hlater : ∀ group ∈ gs, gather (scatter redacted 0 indices s) group = gather s group :=
        fun group hgroup => gather_congr fun i hi =>
          hframe i fun hmem => hdisjoint i hmem i (List.mem_flatten_of_mem hgroup hi) rfl
      have hlen : (scatter redacted 0 indices s).length = s.length := by
        have := congrArg List.length hshape
        rwa [shape, shape, List.length_map, List.length_map] at this
      refine Triple.bind (Q := fun _ s' => s' = scatter redacted 0 indices s) ?_ fun _ =>
        (ih hgs fun i hi => ?_).conseq (fun _ h => h) ?_ ?_
      · rintro _ rfl
        rfl
      · rw [hlen]
        exact hrange i (List.mem_append_right _ hi)
      · intro _ events' h
        refine ⟨h.shape.trans hshape, List.forall_mem_cons.2 ⟨?_, fun group hgroup => ?_⟩, ?_⟩
        · have hsame : gather events' indices = gather (scatter redacted 0 indices s) indices :=
            gather_congr fun i hi => h.frame i fun hmem => hdisjoint i hi i hmem rfl
          rw [hredact, hsame, hgather, List.drop_zero]
        · rw [← hlater group hgroup]
          exact h.redacted group hgroup
        · intro i hi
          rw [List.flatten_cons, List.mem_append, not_or] at hi
          rw [h.frame i hi.2, hframe i hi.1]
      · rintro e _ ⟨group, hgroup, herror⟩
        rw [hlater group hgroup] at herror
        exact ⟨group, List.mem_cons_of_mem _ hgroup, herror⟩

/-! ### The groups of the events -/

theorem flatten_flush : (flush indices).flatten = indices := by
  rw [flush]
  split_ifs with hnil
  · exact hnil.symm
  · exact List.flatten_singleton

/-- The groups share no event. -/
theorem groupsFrom_indices (hnodup : (incoming ++ outgoing).Nodup)
    (hlt : ∀ i ∈ incoming ++ outgoing, i < index) :
    (groupsFrom index incoming outgoing events).flatten.Nodup ∧
      ∀ i ∈ (groupsFrom index incoming outgoing events).flatten,
        (i ∈ incoming ++ outgoing ∨ index ≤ i) ∧ i < index + events.length := by
  induction events generalizing index incoming outgoing with
  | nil =>
    rw [groupsFrom, List.flatten_append, flatten_flush, flatten_flush]
    exact ⟨hnodup, fun i hi => ⟨Or.inl hi, hlt i hi⟩⟩
  | cons e events ih =>
    obtain ⟨channel, bytes⟩ := e
    have hfresh : index ∉ incoming ++ outgoing := fun hmem => (hlt index hmem).false
    -- One of the two directions goes on with the event.
    have hextend : ∀ incoming' outgoing', (incoming' ++ outgoing').Perm
      (index :: (incoming ++ outgoing)) →
        (groupsFrom (index + 1) incoming' outgoing' events).flatten.Nodup ∧
          ∀ i ∈ (groupsFrom (index + 1) incoming' outgoing' events).flatten,
            (i ∈ incoming ++ outgoing ∨ index ≤ i) ∧ i < index + (events.length + 1) := by
      intro incoming' outgoing' hperm
      obtain ⟨hrest, hbound⟩ := @ih incoming' outgoing' (index + 1)
        (hperm.nodup_iff.2 (List.nodup_cons.2 ⟨hfresh, hnodup⟩)) (fun i hi => by
          rcases List.mem_cons.1 (hperm.mem_iff.1 hi) with rfl | hi
          · omega
          · have hlow := hlt i hi
            omega)
      refine ⟨hrest, fun i hi => ?_⟩
      obtain ⟨hfrom, hend⟩ := hbound i hi
      refine ⟨?_, by omega⟩
      rcases hfrom with hfrom | hfrom
      · rcases List.mem_cons.1 (hperm.mem_iff.1 hfrom) with rfl | hfrom
        · exact Or.inr (Nat.le_refl _)
        · exact Or.inl hfrom
      · exact Or.inr (by omega)
    rw [groupsFrom, List.length_cons]
    split_ifs with hmarker hin hout
    · obtain ⟨hrest, hbound⟩ := @ih [] [] (index + 1) List.nodup_nil
        fun i hi => absurd hi List.not_mem_nil
      rw [List.flatten_append, List.flatten_append, flatten_flush, flatten_flush]
      refine ⟨List.nodup_append.2 ⟨hnodup, hrest, fun i hi j hj hij => ?_⟩, fun i hi => ?_⟩
      · have hlow := hlt i hi
        have hhigh := (hbound j hj).1.resolve_left List.not_mem_nil
        omega
      · rcases List.mem_append.1 hi with hi | hi
        · have hlow := hlt i hi
          exact ⟨Or.inl hi, by omega⟩
        · have hhigh := (hbound i hi).1.resolve_left List.not_mem_nil
          have hend := (hbound i hi).2
          exact ⟨Or.inr (by omega), by omega⟩
    · refine hextend _ _ ?_
      rw [List.append_assoc, List.singleton_append]
      exact List.perm_middle
    · refine hextend _ _ ?_
      rw [← List.append_assoc]
      exact List.perm_append_singleton _ _
    · obtain ⟨hrest, hbound⟩ := @ih incoming outgoing (index + 1) hnodup
        fun i hi => (hlt i hi).trans (Nat.lt_succ_self _)
      rw [List.flatten_cons, List.singleton_append]
      refine ⟨List.nodup_cons.2 ⟨fun hmem => ?_, hrest⟩,
        List.forall_mem_cons.2 ⟨?_, fun i hi => ?_⟩⟩
      · rcases (hbound index hmem).1 with hmem | hle
        · exact hfresh hmem
        · omega
      · exact ⟨Or.inr (Nat.le_refl _), by omega⟩
      · obtain ⟨hfrom, hend⟩ := hbound i hi
        exact ⟨hfrom.imp_right fun hle => by omega, by omega⟩

theorem groupsFrom_congr (h : shape events' = shape events) :
    groupsFrom index incoming outgoing events' = groupsFrom index incoming outgoing events := by
  induction events generalizing events' index incoming outgoing with
  | nil =>
    rw [List.map_eq_nil_iff.1 h]
  | cons e events ih =>
    obtain ⟨e', rest, rfl, he, hrest⟩ := List.map_eq_cons_iff.1 h
    obtain ⟨channel, bytes⟩ := e
    obtain ⟨channel', bytes'⟩ := e'
    obtain ⟨rfl, hlength⟩ := Prod.mk.inj he
    have hnil : bytes' = [] ↔ bytes = [] := by
      rw [← List.length_eq_zero_iff, ← List.length_eq_zero_iff]
      exact hlength ▸ Iff.rfl
    simp only [groupsFrom, hnil, ih hrest]

/-! ### Redacting the connections -/

/-- Each stream of a connection is redacted. -/
structure Connection.RedactsTo (c c' : Connection) : Prop where
  /-- Each other event is redacted by itself. -/
  others : List.Forall₂ (fun e e' => e'.1 = e.1 ∧ redactBytes e.2 = .ok e'.2) c.others c'.others
  /-- What the console has sent is redacted as one. -/
  incoming : redactBytes c.incoming = .ok c'.incoming
  /-- So is what the client has sent. -/
  outgoing : redactBytes c.outgoing = .ok c'.outgoing

theorem Connection.RedactsTo.unique : Relator.RightUnique Connection.RedactsTo := by
  intro c a b ha hb
  have hothers : Relator.RightUnique fun e e' : Event =>
      e'.1 = e.1 ∧ redactBytes e.2 = .ok e'.2 := by
    intro e e₁ e₂ h₁ h₂
    exact Prod.ext (h₁.1.trans h₂.1.symm) (Except.ok.inj (h₁.2.symm.trans h₂.2))
  obtain ⟨others, incoming, outgoing⟩ := a
  obtain ⟨others', incoming', outgoing'⟩ := b
  cases hothers.forall₂ ha.others hb.others
  cases ha.incoming.symm.trans hb.incoming
  cases ha.outgoing.symm.trans hb.outgoing
  rfl

theorem redacted_flush {all all' : List Event}
    (h : ∀ g ∈ flush indices, redactBytes (gather all g) = .ok (gather all' g)) :
    redactBytes (gather all indices) = .ok (gather all' indices) := by
  rw [flush] at h
  split_ifs at h with hnil
  · rw [hnil]
    rfl
  · exact h indices (List.mem_singleton.2 rfl)

theorem connectionsFrom_redacted {before' : List Event} {c' : Connection}
    (hshape : shape events' = shape events) (hlength : before'.length = before.length)
    (hincoming : c.incoming = gather (before ++ events) incoming)
    (hincoming' : c'.incoming = gather (before' ++ events') incoming)
    (houtgoing : c.outgoing = gather (before ++ events) outgoing)
    (houtgoing' : c'.outgoing = gather (before' ++ events') outgoing)
    (hothers : List.Forall₂ (fun e e' => e'.1 = e.1 ∧ redactBytes e.2 = .ok e'.2)
      c.others c'.others)
    (hredacted : ∀ g ∈ groupsFrom before.length incoming outgoing events,
      redactBytes (gather (before ++ events) g) = .ok (gather (before' ++ events') g)) :
    List.Forall₂ Connection.RedactsTo (connectionsFrom c events) (connectionsFrom c' events') := by
  induction events generalizing events' before before' incoming outgoing c c' with
  | nil =>
    cases List.map_eq_nil_iff.1 hshape
    rw [groupsFrom] at hredacted
    refine .cons ⟨hothers, ?_, ?_⟩ .nil
    · rw [hincoming, hincoming']
      exact redacted_flush fun g hg => hredacted g (List.mem_append_left _ hg)
    · rw [houtgoing, houtgoing']
      exact redacted_flush fun g hg => hredacted g (List.mem_append_right _ hg)
  | cons e events ih =>
    obtain ⟨e', rest, rfl, he, hrest⟩ := List.map_eq_cons_iff.1 hshape
    obtain ⟨channel, bytes⟩ := e
    obtain ⟨channel', bytes'⟩ := e'
    obtain ⟨rfl, hbytes⟩ := Prod.mk.inj he
    have hpayload := @payload_append events before (channel', bytes)
    have hpayload' := @payload_append rest before' (channel', bytes')
    rw [hlength] at hpayload'
    have hnil : bytes' = [] ↔ bytes = [] := by
      rw [← List.length_eq_zero_iff, ← List.length_eq_zero_iff]
      exact hbytes ▸ Iff.rfl
    have ih := fun c c' incoming outgoing =>
      @ih rest (before ++ [(channel', bytes)]) incoming outgoing c
      (before' ++ [(channel', bytes')]) c' hrest (by
        rw [List.length_append, List.length_append, hlength]
        rfl)
    simp only [List.length_append, List.length_singleton, List.append_assoc,
      List.singleton_append] at ih
    rw [groupsFrom] at hredacted
    simp only [connectionsFrom, hnil]
    split_ifs at hredacted ⊢ with hmarker hin hout
    · refine .cons ⟨hothers, ?_, ?_⟩ ?_
      · rw [hincoming, hincoming']
        exact redacted_flush fun g hg =>
          hredacted g (List.mem_append_left _ (List.mem_append_left _ hg))
      · rw [houtgoing, houtgoing']
        exact redacted_flush fun g hg =>
          hredacted g (List.mem_append_left _ (List.mem_append_right _ hg))
      · exact ih ⟨[], [], []⟩ ⟨[], [], []⟩ [] [] rfl rfl rfl rfl .nil
          fun g hg => hredacted g (List.mem_append_right _ hg)
    · refine ih { c with incoming := c.incoming ++ bytes }
        { c' with incoming := c'.incoming ++ bytes' }
        _ _ ?_ ?_ houtgoing houtgoing' hothers hredacted
      · rw [gather_append, gather_singleton, hpayload, hincoming]
      · rw [gather_append, gather_singleton, hpayload', hincoming']
    · refine ih { c with outgoing := c.outgoing ++ bytes }
        { c' with outgoing := c'.outgoing ++ bytes' }
        _ _ hincoming hincoming' ?_ ?_ hothers hredacted
      · rw [gather_append, gather_singleton, hpayload, houtgoing]
      · rw [gather_append, gather_singleton, hpayload', houtgoing']
    · obtain ⟨hfirst, hredacted⟩ := List.forall_mem_cons.1 hredacted
      refine ih { c with others := c.others ++ [(channel', bytes)] }
        { c' with others := c'.others ++ [(channel', bytes')] } _ _ hincoming hincoming' houtgoing
        houtgoing' (List.rel_append hothers (.cons ⟨rfl, ?_⟩ .nil)) hredacted
      rwa [gather_singleton, gather_singleton, hpayload, hpayload'] at hfirst

/-! ### Redacting a capture -/

/-- **Redacting a capture** redacts its connections and leaves the shape of the events, or one of
the streams cannot be redacted. -/
theorem redactEvents_spec :
    Triple (· = events) redactEvents
      (fun _ events' => shape events' = shape events ∧ scanEvents events' = [] ∧
        List.Forall₂ Connection.RedactsTo (connections events) (connections events'))
      (fun e _ => ∃ s ∈ (connections events).flatMap Connection.streams,
        redactBytes s = .error e) := by
  refine Triple.bind_get fun s hs => ?_
  subst hs
  obtain ⟨hnodup, hbound⟩ := @groupsFrom_indices s [] [] 0 List.nodup_nil
    fun i hi => absurd hi List.not_mem_nil
  refine (redactGroups_spec hnodup fun i hi => ?_).conseq (fun _ h => h) ?_ ?_
  · have hend := (hbound i hi).2
    omega
  · intro _ events' h
    refine ⟨h.shape, ?_, ?_⟩
    · rw [scanEvents, groups, groupsFrom_congr h.shape, List.flatMap_eq_nil_iff]
      intro g hg
      rw [scan, (redactBytes_spec (h.redacted g hg)).2]
      rfl
    · exact @connectionsFrom_redacted s events' [] [] [] ⟨[], [], []⟩ []
        ⟨[], [], []⟩ h.shape rfl rfl rfl
        rfl rfl .nil h.redacted
  · rintro e _ ⟨g, hg, herror⟩
    refine ⟨gather s g, ?_, herror⟩
    rw [← streams_eq]
    refine List.mem_filter.2 ⟨List.mem_map_of_mem hg, decide_eq_true fun hnil => ?_⟩
    rw [hnil] at herror
    cases herror

theorem exists_of_forall₂ {α β : Type} {R : α → β → Prop} {as : List α} {bs : List β} {a : α}
    (h : List.Forall₂ R as bs) (ha : a ∈ as) : ∃ b, R a b := by
  induction h with
  | nil => cases ha
  | cons hab _ ih =>
    rcases List.mem_cons.1 ha with rfl | ha
    · exact ⟨_, hab⟩
    · exact ih ha

/-- The streams of a connection that was redacted could be. -/
theorem Connection.RedactsTo.ok {c' : Connection} (h : c.RedactsTo c') {s : List UInt8}
    (hs : s ∈ c.streams) : ∃ out, redactBytes s = .ok out := by
  have hmem := (List.mem_filter.1 hs).1
  rcases List.mem_append.1 hmem with hmem | hmem
  · obtain ⟨e, he, rfl⟩ := List.mem_map.1 hmem
    obtain ⟨e', -, hredact⟩ := exists_of_forall₂ h.others he
    exact ⟨e'.2, hredact⟩
  · rcases List.mem_cons.1 hmem with rfl | hmem
    · exact ⟨_, h.incoming⟩
    · rw [List.mem_singleton.1 hmem]
      exact ⟨_, h.outgoing⟩

/-- Two captures that differ in how the bytes of their connections are cut into events. -/
def Recut (events events' : List Event) : Prop := connections events = connections events'

/-- A redacted capture has the channels and the lengths it had, and nothing is found in it. -/
def Complete (events : List Event) : Prop :=
  ∀ events', outcome redactEvents events = (.ok ⟨⟩, events') →
    shape events' = shape events ∧ scanEvents events' = []

/-- The same is found in both, and both are redacted to the same streams or none is. -/
def Agree (events events' : List Event) : Prop :=
  scanEvents events = scanEvents events' ∧
    ((∃ e₁ e₂, (outcome redactEvents events).1 = .error e₁ ∧
        (outcome redactEvents events').1 = .error e₂) ∨
      ∃ r r', outcome redactEvents events = (.ok ⟨⟩, r) ∧ outcome redactEvents events' =
        (.ok ⟨⟩, r') ∧
        connections r = connections r')

/-- **Redacting streams** is complete, and how they are cut into events makes no difference. -/
theorem redactEvents_complete :
    (∀ events, Complete events) ∧ ∀ events events', Recut events events' →
      Agree events events' := by
  constructor
  · intro events events' hrun
    rcases redactEvents_spec.outcome (rfl : events = events) with ⟨_, s, hok, h⟩ | ⟨e, s, herror, -⟩
    · rw [hrun] at hok
      cases hok
      exact ⟨h.1, h.2.1⟩
    · rw [hrun] at herror
      cases herror
  · intro events events' hrecut
    have hfails : ∀ {e : String} {cs cs' : List Connection},
      List.Forall₂ Connection.RedactsTo cs cs' →
        ¬ ∃ s ∈ cs.flatMap Connection.streams, redactBytes s = .error e := by
      rintro e cs cs' hall ⟨s, hs, herror⟩
      obtain ⟨c, hc, hs⟩ := List.mem_flatMap.1 hs
      obtain ⟨c', hredacts⟩ := exists_of_forall₂ hall hc
      obtain ⟨out, hok⟩ := hredacts.ok hs
      rw [hok] at herror
      cases herror
    rw [Recut] at hrecut
    refine ⟨by rw [scanEvents_eq, scanEvents_eq, hrecut], ?_⟩
    rcases redactEvents_spec.outcome (rfl : events = events) with
      ⟨_, s, hok, -, -, h⟩ | ⟨e, s, herror, h⟩
    · rcases redactEvents_spec.outcome (rfl : events' = events') with
        ⟨_, s', hok', -, -, h'⟩ | ⟨e', s', herror', h'⟩
      · rw [hrecut] at h
        exact Or.inr ⟨s, s', hok, hok', Connection.RedactsTo.unique.forall₂ h h'⟩
      · rw [hrecut] at h
        exact absurd h' (hfails h)
    · rcases redactEvents_spec.outcome (rfl : events' = events') with
        ⟨_, s', hok', -, -, h'⟩ | ⟨e', s', herror', -⟩
      · rw [hrecut] at h
        exact absurd h (hfails h')
      · exact Or.inl ⟨e, e', congrArg Prod.fst herror, congrArg Prod.fst herror'⟩

/-- An address on one connection, in one event and in two. -/
theorem redactEvents_complete_cut :
    Complete [("N<", utf8 "10.20."), ("N>", utf8 "b"), ("N<", utf8 "30.40")] ∧
      Agree [("N<", utf8 "10.20."), ("N>", utf8 "b"), ("N<", utf8 "30.40")]
        [("N>", utf8 "b"), ("N<", utf8 "10.20.30.40")] :=
  ⟨redactEvents_complete.1 _, redactEvents_complete.2 _ _ (by unfold Recut; decide)⟩

end Redact

end LibWing
