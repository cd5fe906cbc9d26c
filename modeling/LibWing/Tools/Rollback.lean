import LibWing.Tools.Publish
import Mathlib.Data.List.Nodup

/-!
# Rolling a publication back

What there is on the disk in the middle of a publication, and that each of the operations that undo
it goes back to what there was.

* `Midway` : the disk when some outputs are staged, some destinations moved aside and some outputs
  published, told by what it was before;
* `Midway.stage`, `aside`, `publish`, and `discard`, `restore`, `withdraw`, `clear` : what each
  operation does to it;
* `discardAll_spec`, `restoreAll_spec`, `withdrawAll_spec`, `clearAll_spec` : the loops that undo.
-/

namespace LibWing

namespace AtomicWrite

open Files Stateful

/-! ### One operation -/

/-- The host with another disk. -/
def Host.moveTo (s : Host) (d : Disk FilePath) : Host :=
  { s with disk := d, past := s.disk :: s.past }

@[simp] theorem Host.moveTo_disk (s : Host) (d : Disk FilePath) : (s.moveTo d).disk = d := rfl

@[simp] theorem Host.moveTo_next (s : Host) (d : Disk FilePath) : (s.moveTo d).next = s.next := rfl

@[simp] theorem Host.history_moveTo (s : Host) (d : Disk FilePath) :
    (s.moveTo d).history = d :: s.history := rfl

variable {env : Env} {op : Op} {f : Disk FilePath → Except Fault (Disk FilePath)}
  {P : Host → Prop} {Q : Unit → Host → Prop} {E : IoError → Host → Prop}

/-- An operation is refused, or fails on its own, and changes nothing; or it changes the disk. -/
theorem perform_triple (hrefused : ∀ s e, P s → env.refused op = some e → E e s)
    (hfault : ∀ s fault, P s → env.refused op = none → f s.disk = .error fault →
      E (env.errorOf fault) s)
    (hok : ∀ s d, P s → env.refused op = none → f s.disk = .ok d → Q ⟨⟩ (s.moveTo d)) :
    Triple P (perform env op f) Q E := by
  cases hop : env.refused op with
  | some e =>
    rw [perform, hop]
    exact Triple.throw fun s hs => hrefused s e hs hop
  | none =>
    rw [perform, hop]
    refine Triple.bind_get fun s hs => ?_
    cases hf : f s.disk with
    | error fault =>
      refine Triple.throw fun s' hs' => ?_
      rw [hs']
      exact hfault s fault hs hop hf
    | ok d =>
      intro s' hs'
      rw [hs']
      exact hok s d hs hop hf

/-- An operation that is not refused and finds what it needs. -/
theorem attempt_perform_triple {β : Type} {k : Except IoError PUnit → Publication β}
    {R : β → Host → Prop} {E' : IoError → Host → Prop} (hop : env.refused op = none)
    (hf : ∀ s, P s → ∃ d, f s.disk = .ok d ∧ Q ⟨⟩ (s.moveTo d))
    (hk : Triple (Q ⟨⟩) (k (.ok ⟨⟩)) R E') :
    Triple P (attempt (perform env op f) >>= k) R E' := by
  refine Triple.bind_attempt (E := fun _ _ => False) (perform_triple (Q := Q) ?_ ?_ ?_)
    (fun _ => hk) ?_
  · intro s e _ hrefused
    rw [hop] at hrefused
    cases hrefused
  · intro s fault hs _ hfault
    obtain ⟨d, hd, -⟩ := hf s hs
    rw [hd] at hfault
    cases hfault
  · intro s d hs _ hd
    obtain ⟨d', hd', hq⟩ := hf s hs
    rw [hd] at hd'
    cases hd'
    exact hq
  · intro e s h
    exact absurd h id

/-! ### The middle of a publication -/

/-- The disk when the files of `pending` are staged, the originals of `backups` moved aside, and
`published` published; it was `d₀` before, and `own` are the names the call gives. -/
structure Midway (own : FilePath → Prop) (d₀ : Disk FilePath) (backups : List (FilePath × FilePath))
    (published : List Output) (pending : List (Output × FilePath)) (d : Disk FilePath) : Prop where
  /-- What is staged has its contents. -/
  staged : ∀ x ∈ pending, d x.2 = some (.file x.1.2)
  /-- What is published has its contents. -/
  output : ∀ o ∈ published, d o.1 = some (.file o.2)
  /-- A backup has what was there. -/
  saved : ∀ x ∈ backups, ∃ contents, d₀ x.1 = some (.file contents) ∧ d x.2 = some (.file contents)
  /-- What was backed up and is not published is gone. -/
  vacated : ∀ x ∈ backups, x.1 ∉ published.map Prod.fst → d x.1 = none
  /-- Everything else is as it was. -/
  frame : ∀ p, p ∉ pending.map Prod.snd → p ∉ published.map Prod.fst → p ∉ backups.map Prod.fst →
    p ∉ backups.map Prod.snd → d p = d₀ p
  /-- The files of the call have names of their own, at which nothing was. -/
  named : ∀ t ∈ pending.map Prod.snd ++ backups.map Prod.snd, own t ∧ d₀ t = none
  /-- These names are different. -/
  nodup : (pending.map Prod.snd ++ backups.map Prod.snd).Nodup
  /-- No destination has such a name. -/
  foreign : ∀ p ∈ published.map Prod.fst ++ backups.map Prod.fst, ¬ own p
  /-- Nothing is backed up twice. -/
  originals : (backups.map Prod.fst).Nodup

namespace Midway

variable {own : FilePath → Prop} {d₀ d : Disk FilePath} {backups : List (FilePath × FilePath)}
  {published : List Output} {pending : List (Output × FilePath)} {o : Output} {t p b : FilePath}

theorem init (own : FilePath → Prop) (d₀ : Disk FilePath) : Midway own d₀ [] [] [] d₀ where
  staged _ h := absurd h List.not_mem_nil
  output _ h := absurd h List.not_mem_nil
  saved _ h := absurd h List.not_mem_nil
  vacated _ h := absurd h List.not_mem_nil
  frame _ _ _ _ _ := rfl
  named _ h := absurd h List.not_mem_nil
  nodup := List.nodup_nil
  foreign _ h := absurd h List.not_mem_nil
  originals := List.nodup_nil

/-- Nothing is left of a publication that is undone. -/
theorem eq_of_nil (h : Midway own d₀ [] [] [] d) : d = d₀ := by
  funext p
  exact h.frame p List.not_mem_nil List.not_mem_nil List.not_mem_nil List.not_mem_nil

theorem not_own (h : Midway own d₀ backups published pending d) (ho : o ∈ published) : ¬ own o.1 :=
  h.foreign _ (List.mem_append_left _ (List.mem_map_of_mem ho))

theorem original_not_own (h : Midway own d₀ backups published pending d)
    {x : FilePath × FilePath} (hx : x ∈ backups) : ¬ own x.1 :=
  h.foreign _ (List.mem_append_right _ (List.mem_map_of_mem hx))

theorem own_pending (h : Midway own d₀ backups published pending d) {x : Output × FilePath}
    (hx : x ∈ pending) : own x.2 ∧ d₀ x.2 = none :=
  h.named _ (List.mem_append_left _ (List.mem_map_of_mem hx))

theorem own_backup (h : Midway own d₀ backups published pending d) {x : FilePath × FilePath}
    (hx : x ∈ backups) : own x.2 ∧ d₀ x.2 = none :=
  h.named _ (List.mem_append_right _ (List.mem_map_of_mem hx))

theorem pending_ne_backup (h : Midway own d₀ backups published pending d) {x : Output × FilePath}
    {y : FilePath × FilePath} (hx : x ∈ pending) (hy : y ∈ backups) : x.2 ≠ y.2 :=
  (List.nodup_append.1 h.nodup).2.2 _ (List.mem_map_of_mem hx) _ (List.mem_map_of_mem hy)

/-- A path with nothing at it is no name the call has given. -/
theorem not_mem_of_none (h : Midway own d₀ backups published pending d) (hp : d p = none) :
    p ∉ pending.map Prod.snd ∧ p ∉ backups.map Prod.snd := by
  constructor
  · intro hmem
    obtain ⟨x, hx, rfl⟩ := List.mem_map.1 hmem
    rw [h.staged x hx] at hp
    cases hp
  · intro hmem
    obtain ⟨x, hx, rfl⟩ := List.mem_map.1 hmem
    obtain ⟨contents, -, hsaved⟩ := h.saved x hx
    rw [hsaved] at hp
    cases hp

/-- A name of the call with nothing at it had nothing at it before. -/
theorem was_none (h : Midway own d₀ backups published pending d) (hp : d p = none) (hown : own p) :
    d₀ p = none := by
  obtain ⟨hpending, hbackups⟩ := h.not_mem_of_none hp
  rw [← h.frame p hpending ?_ ?_ hbackups, hp]
  · intro hmem
    exact h.foreign p (List.mem_append_left _ hmem) hown
  · intro hmem
    exact h.foreign p (List.mem_append_right _ hmem) hown

/-- The order of the backups does not matter. -/
theorem reverse (h : Midway own d₀ backups published pending d) :
    Midway own d₀ backups.reverse published pending d where
  staged := h.staged
  output := h.output
  saved x hx := h.saved x (List.mem_reverse.1 hx)
  vacated x hx := h.vacated x (List.mem_reverse.1 hx)
  frame p hpending hpublished horiginal hbackup := by
    rw [List.map_reverse, List.mem_reverse] at horiginal hbackup
    exact h.frame p hpending hpublished horiginal hbackup
  named t ht := by
    rw [List.map_reverse, List.mem_append, List.mem_reverse, ← List.mem_append] at ht
    exact h.named t ht
  nodup := by
    rw [List.map_reverse]
    exact ((List.Perm.refl _).append (List.reverse_perm _)).nodup_iff.2 h.nodup
  foreign p hp := by
    rw [List.map_reverse, List.mem_append, List.mem_reverse, ← List.mem_append] at hp
    exact h.foreign p hp
  originals := by
    rw [List.map_reverse]
    exact List.nodup_reverse.2 h.originals

/-! ### Going on -/

/-- A file is staged. -/
theorem stage (h : Midway own d₀ [] [] pending d) (ht : d t = none) (hown : own t) :
    Midway own d₀ [] [] (pending ++ [(o, t)]) (Function.update d t (some (.file o.2))) := by
  obtain ⟨hnew, -⟩ := h.not_mem_of_none ht
  have hwas := h.was_none ht hown
  have hsnd : (pending ++ [(o, t)]).map Prod.snd = pending.map Prod.snd ++ [t] := by
    rw [List.map_append, List.map_singleton]
  refine ⟨?_, fun _ h => absurd h List.not_mem_nil, fun _ h => absurd h List.not_mem_nil,
    fun _ h => absurd h List.not_mem_nil, ?_, ?_, ?_, fun _ h => absurd h List.not_mem_nil,
    List.nodup_nil⟩
  · intro x hx
    rcases List.mem_append.1 hx with hx | hx
    · have hne : x.2 ≠ t := fun heq => hnew (heq ▸ List.mem_map_of_mem hx)
      rw [Function.update_of_ne hne]
      exact h.staged x hx
    · obtain rfl := List.mem_singleton.1 hx
      exact Function.update_self ..
  · intro p hp hpublished horiginal hbackup
    rw [hsnd, List.mem_append, List.mem_singleton, not_or] at hp
    rw [Function.update_of_ne hp.2]
    exact h.frame p hp.1 hpublished horiginal hbackup
  · intro t' ht'
    rw [List.map_nil, List.append_nil, hsnd, List.mem_append, List.mem_singleton] at ht'
    rcases ht' with ht' | rfl
    · exact h.named t' (List.mem_append_left _ ht')
    · exact ⟨hown, hwas⟩
  · rw [List.map_nil, List.append_nil, hsnd, List.nodup_append]
    have hnodup := h.nodup
    rw [List.map_nil, List.append_nil] at hnodup
    refine ⟨hnodup, List.nodup_singleton _, fun a ha b hb => ?_⟩
    rw [List.mem_singleton.1 hb]
    rintro rfl
    exact hnew ha

/-- A destination is moved aside. -/
theorem aside (h : Midway own d₀ backups [] pending d) {contents : List UInt8}
    (hp : d p = some (.file contents)) (hforeign : ¬ own p) (hnew : p ∉ backups.map Prod.fst)
    (hb : d b = none) (hown : own b) :
    Midway own d₀ (backups ++ [(p, b)]) [] pending
      (Function.update (Function.update d b (some (.file contents))) p none) := by
  obtain ⟨hpending, hbackups⟩ := h.not_mem_of_none hb
  have hwas := h.was_none hb hown
  have hpb : p ≠ b := fun heq => hforeign (heq ▸ hown)
  have hfst : (backups ++ [(p, b)]).map Prod.fst = backups.map Prod.fst ++ [p] := by
    rw [List.map_append, List.map_singleton]
  have hsnd : (backups ++ [(p, b)]).map Prod.snd = backups.map Prod.snd ++ [b] := by
    rw [List.map_append, List.map_singleton]
  -- The destination is as it was before the call.
  have hsame : d₀ p = some (.file contents) := by
    rw [← h.frame p ?_ List.not_mem_nil hnew ?_, hp]
    · intro hmem
      obtain ⟨x, hx, rfl⟩ := List.mem_map.1 hmem
      exact hforeign (h.own_pending hx).1
    · intro hmem
      obtain ⟨x, hx, rfl⟩ := List.mem_map.1 hmem
      exact hforeign (h.own_backup hx).1
  refine ⟨?_, fun _ h => absurd h List.not_mem_nil, ?_, ?_, ?_, ?_, ?_, ?_, ?_⟩
  · intro x hx
    have hxp : x.2 ≠ p := fun heq => hforeign (heq ▸ (h.own_pending hx).1)
    have hxb : x.2 ≠ b := fun heq => hpending (heq ▸ List.mem_map_of_mem hx)
    rw [Function.update_of_ne hxp, Function.update_of_ne hxb]
    exact h.staged x hx
  · intro x hx
    rcases List.mem_append.1 hx with hx | hx
    · have hxp : x.2 ≠ p := fun heq => hforeign (heq ▸ (h.own_backup hx).1)
      have hxb : x.2 ≠ b := fun heq => hbackups (heq ▸ List.mem_map_of_mem hx)
      obtain ⟨old, hold, hsaved⟩ := h.saved x hx
      exact ⟨old, hold, by rw [Function.update_of_ne hxp, Function.update_of_ne hxb, hsaved]⟩
    · obtain rfl := List.mem_singleton.1 hx
      refine ⟨contents, hsame, ?_⟩
      rw [Function.update_of_ne (Ne.symm hpb), Function.update_self]
  · intro x hx hx'
    rcases List.mem_append.1 hx with hx | hx
    · have hxp : x.1 ≠ p := fun heq => hnew (heq ▸ List.mem_map_of_mem hx)
      have hxb : x.1 ≠ b := fun heq => h.original_not_own hx (heq ▸ hown)
      rw [Function.update_of_ne hxp, Function.update_of_ne hxb]
      exact h.vacated x hx hx'
    · obtain rfl := List.mem_singleton.1 hx
      exact Function.update_self ..
  · intro q hq hpublished horiginal hbackup
    rw [hfst, List.mem_append, List.mem_singleton, not_or] at horiginal
    rw [hsnd, List.mem_append, List.mem_singleton, not_or] at hbackup
    rw [Function.update_of_ne horiginal.2, Function.update_of_ne hbackup.2]
    exact h.frame q hq hpublished horiginal.1 hbackup.1
  · intro t' ht'
    rw [hsnd, ← List.append_assoc, List.mem_append, List.mem_singleton] at ht'
    rcases ht' with ht' | rfl
    · exact h.named t' ht'
    · exact ⟨hown, hwas⟩
  · rw [hsnd, ← List.append_assoc, List.nodup_append]
    refine ⟨h.nodup, List.nodup_singleton _, fun a ha a' ha' => ?_⟩
    rw [List.mem_singleton.1 ha']
    rintro rfl
    rcases List.mem_append.1 ha with ha | ha
    · exact hpending ha
    · exact hbackups ha
  · intro q hq
    rw [List.map_nil, List.nil_append, hfst, List.mem_append, List.mem_singleton] at hq
    rcases hq with hq | rfl
    · exact h.foreign q (List.mem_append_right _ hq)
    · exact hforeign
  · rw [hfst, List.nodup_append]
    refine ⟨h.originals, List.nodup_singleton _, fun a ha a' ha' => ?_⟩
    rw [List.mem_singleton.1 ha']
    rintro rfl
    exact hnew ha

/-- A staged file is renamed into place. -/
theorem publish (h : Midway own d₀ backups published ((o, t) :: pending) d) (hforeign : ¬ own o.1)
    (hnew : o.1 ∉ published.map Prod.fst) :
    Midway own d₀ backups (published ++ [o]) pending
      (Function.update (Function.update d t none) o.1 (some (.file o.2))) := by
  have hmem : (o, t) ∈ (o, t) :: pending := List.mem_cons_self
  obtain ⟨hown, hwas⟩ := h.own_pending hmem
  have hto : t ≠ o.1 := fun heq => hforeign (heq ▸ hown)
  have hfst : (published ++ [o]).map Prod.fst = published.map Prod.fst ++ [o.1] := by
    rw [List.map_append, List.map_singleton]
  have hnodup := h.nodup
  rw [List.map_cons, List.cons_append, List.nodup_cons] at hnodup
  refine ⟨?_, ?_, ?_, ?_, ?_, ?_, hnodup.2, ?_, h.originals⟩
  · intro x hx
    have hx' : x ∈ (o, t) :: pending := List.mem_cons_of_mem _ hx
    have hxo : x.2 ≠ o.1 := fun heq => hforeign (heq ▸ (h.own_pending hx').1)
    have hxt : x.2 ≠ t := by
      intro heq
      refine hnodup.1 (List.mem_append_left _ ?_)
      change t ∈ pending.map Prod.snd
      rw [← heq]
      exact List.mem_map_of_mem hx
    rw [Function.update_of_ne hxo, Function.update_of_ne hxt]
    exact h.staged x hx'
  · intro o' ho'
    rcases List.mem_append.1 ho' with ho' | ho'
    · have hne : o'.1 ≠ o.1 := fun heq => hnew (heq ▸ List.mem_map_of_mem ho')
      have hnt : o'.1 ≠ t := fun heq => h.not_own ho' (heq ▸ hown)
      rw [Function.update_of_ne hne, Function.update_of_ne hnt]
      exact h.output o' ho'
    · obtain rfl := List.mem_singleton.1 ho'
      exact Function.update_self ..
  · intro x hx
    have hxo : x.2 ≠ o.1 := fun heq => hforeign (heq ▸ (h.own_backup hx).1)
    have hxt : x.2 ≠ t := Ne.symm (h.pending_ne_backup hmem hx)
    obtain ⟨old, hold, hsaved⟩ := h.saved x hx
    exact ⟨old, hold, by rw [Function.update_of_ne hxo, Function.update_of_ne hxt, hsaved]⟩
  · intro x hx hx'
    rw [hfst, List.mem_append, List.mem_singleton, not_or] at hx'
    have hxt : x.1 ≠ t := fun heq => h.original_not_own hx (heq ▸ hown)
    rw [Function.update_of_ne hx'.2, Function.update_of_ne hxt]
    exact h.vacated x hx hx'.1
  · intro q hq hpublished horiginal hbackup
    rw [hfst, List.mem_append, List.mem_singleton, not_or] at hpublished
    rw [Function.update_of_ne hpublished.2]
    by_cases hqt : q = t
    · rw [hqt, Function.update_self, hwas]
    · rw [Function.update_of_ne hqt]
      refine h.frame q ?_ hpublished.1 horiginal hbackup
      rw [List.map_cons, List.mem_cons, not_or]
      exact ⟨hqt, hq⟩
  · intro t' ht'
    exact h.named t' (List.mem_cons_of_mem _ ht')
  · intro q hq
    rw [hfst, List.append_assoc, List.mem_append, List.mem_append, List.mem_singleton] at hq
    rcases hq with hq | rfl | hq
    · exact h.foreign q (List.mem_append_left _ hq)
    · exact hforeign
    · exact h.foreign q (List.mem_append_right _ hq)

/-! ### Going back -/

/-- A staged file is removed. -/
theorem discard (h : Midway own d₀ [] [] ((o, t) :: pending) d) :
    Midway own d₀ [] [] pending (Function.update d t none) := by
  obtain ⟨-, hwas⟩ := h.own_pending List.mem_cons_self
  have hnodup := h.nodup
  rw [List.map_cons, List.cons_append, List.nodup_cons] at hnodup
  refine ⟨?_, fun _ h => absurd h List.not_mem_nil, fun _ h => absurd h List.not_mem_nil,
    fun _ h => absurd h List.not_mem_nil, ?_, fun t' ht' => h.named t' (List.mem_cons_of_mem _ ht'),
    hnodup.2, h.foreign, h.originals⟩
  · intro x hx
    have hxt : x.2 ≠ t := by
      intro heq
      refine hnodup.1 (List.mem_append_left _ ?_)
      change t ∈ pending.map Prod.snd
      rw [← heq]
      exact List.mem_map_of_mem hx
    rw [Function.update_of_ne hxt]
    exact h.staged x (List.mem_cons_of_mem _ hx)
  · intro q hq hpublished horiginal hbackup
    by_cases hqt : q = t
    · rw [hqt, Function.update_self, hwas]
    · rw [Function.update_of_ne hqt]
      refine h.frame q ?_ hpublished horiginal hbackup
      rw [List.map_cons, List.mem_cons, not_or]
      exact ⟨hqt, hq⟩

theorem nodup_tail {l : List (FilePath × FilePath)}
    (h : Midway own d₀ ((p, b) :: l) published pending d) :
    (pending.map Prod.snd ++ l.map Prod.snd).Nodup ∧ ∀ x ∈ l, x.2 ≠ b := by
  have hnodup := h.nodup
  refine ⟨hnodup.sublist ((List.Sublist.refl _).append (List.sublist_cons_self _ _)),
    fun x hx heq => ?_⟩
  have hbackups := (List.nodup_append.1 hnodup).2.1
  rw [List.map_cons, List.nodup_cons] at hbackups
  refine hbackups.1 ?_
  change b ∈ l.map Prod.snd
  rw [← heq]
  exact List.mem_map_of_mem hx

/-- A destination that was moved aside is moved back. -/
theorem restore {l : List (FilePath × FilePath)} {contents : List UInt8}
    (h : Midway own d₀ ((p, b) :: l) [] pending d) (hb : d b = some (.file contents)) :
    Midway own d₀ l [] pending
      (Function.update (Function.update d b none) p (some (.file contents))) := by
  have hmem : (p, b) ∈ (p, b) :: l := List.mem_cons_self
  obtain ⟨hown, hwas⟩ := h.own_backup hmem
  have hforeign := h.original_not_own hmem
  obtain ⟨old, hold, hsaved⟩ := h.saved (p, b) hmem
  obtain rfl : old = contents := by
    rw [hb] at hsaved
    cases hsaved
    rfl
  obtain ⟨hnodup, hbackups⟩ := h.nodup_tail
  have horiginals := h.originals
  rw [List.map_cons, List.nodup_cons] at horiginals
  refine ⟨?_, fun _ h => absurd h List.not_mem_nil, ?_, ?_, ?_, ?_, hnodup, ?_, horiginals.2⟩
  · intro x hx
    have hxp : x.2 ≠ p := fun heq => hforeign (heq ▸ (h.own_pending hx).1)
    have hxb : x.2 ≠ b := h.pending_ne_backup hx hmem
    rw [Function.update_of_ne hxp, Function.update_of_ne hxb]
    exact h.staged x hx
  · intro x hx
    have hx' : x ∈ (p, b) :: l := List.mem_cons_of_mem _ hx
    have hxp : x.2 ≠ p := fun heq => hforeign (heq ▸ (h.own_backup hx').1)
    obtain ⟨old', hold', hsaved'⟩ := h.saved x hx'
    exact ⟨old', hold', by
      rw [Function.update_of_ne hxp, Function.update_of_ne (hbackups x hx), hsaved']⟩
  · intro x hx hpublished
    have hx' : x ∈ (p, b) :: l := List.mem_cons_of_mem _ hx
    have hxp : x.1 ≠ p := by
      intro heq
      refine horiginals.1 ?_
      change p ∈ l.map Prod.fst
      rw [← heq]
      exact List.mem_map_of_mem hx
    have hxb : x.1 ≠ b := fun heq => h.original_not_own hx' (heq ▸ hown)
    rw [Function.update_of_ne hxp, Function.update_of_ne hxb]
    exact h.vacated x hx' hpublished
  · intro q hq hpublished horiginal hbackup
    by_cases hqp : q = p
    · rw [hqp, Function.update_self, hold]
    · rw [Function.update_of_ne hqp]
      by_cases hqb : q = b
      · rw [hqb, Function.update_self, hwas]
      · rw [Function.update_of_ne hqb]
        refine h.frame q hq hpublished ?_ ?_
        · rw [List.map_cons, List.mem_cons, not_or]
          exact ⟨hqp, horiginal⟩
        · rw [List.map_cons, List.mem_cons, not_or]
          exact ⟨hqb, hbackup⟩
  · intro t' ht'
    refine h.named t' ?_
    rw [List.map_cons, List.mem_append, List.mem_cons]
    exact (List.mem_append.1 ht').imp_right Or.inr
  · intro q hq
    exact h.foreign q (List.mem_cons_of_mem _ hq)

/-- An output is withdrawn. -/
theorem withdraw (h : Midway own d₀ backups (o :: published) pending d)
    (hnew : o.1 ∉ published.map Prod.fst)
    (hkept : o.1 ∈ backups.map Prod.fst ∨ d₀ o.1 = none) :
    Midway own d₀ backups published pending (Function.update d o.1 none) := by
  have hforeign := h.not_own List.mem_cons_self
  refine ⟨?_, ?_, ?_, ?_, ?_, h.named, h.nodup, ?_, h.originals⟩
  · intro x hx
    have hxo : x.2 ≠ o.1 := fun heq => hforeign (heq ▸ (h.own_pending hx).1)
    rw [Function.update_of_ne hxo]
    exact h.staged x hx
  · intro o' ho'
    have hne : o'.1 ≠ o.1 := fun heq => hnew (heq ▸ List.mem_map_of_mem ho')
    rw [Function.update_of_ne hne]
    exact h.output o' (List.mem_cons_of_mem _ ho')
  · intro x hx
    have hxo : x.2 ≠ o.1 := fun heq => hforeign (heq ▸ (h.own_backup hx).1)
    obtain ⟨old, hold, hsaved⟩ := h.saved x hx
    exact ⟨old, hold, by rw [Function.update_of_ne hxo, hsaved]⟩
  · intro x hx hpublished
    by_cases hxo : x.1 = o.1
    · rw [hxo, Function.update_self]
    · rw [Function.update_of_ne hxo]
      refine h.vacated x hx ?_
      rw [List.map_cons, List.mem_cons, not_or]
      exact ⟨hxo, hpublished⟩
  · intro q hq hpublished horiginal hbackup
    by_cases hqo : q = o.1
    · rw [hqo] at horiginal ⊢
      rw [Function.update_self, hkept.resolve_left horiginal]
    · rw [Function.update_of_ne hqo]
      refine h.frame q hq ?_ horiginal hbackup
      rw [List.map_cons, List.mem_cons, not_or]
      exact ⟨hqo, hpublished⟩
  · intro q hq
    exact h.foreign q (List.mem_cons_of_mem _ hq)

/-- A backup is removed when its original is published. -/
theorem clear {l : List (FilePath × FilePath)} (h : Midway own d₀ ((p, b) :: l) published [] d)
    (hp : p ∈ published.map Prod.fst) :
    Midway own d₀ l published [] (Function.update d b none) := by
  have hmem : (p, b) ∈ (p, b) :: l := List.mem_cons_self
  obtain ⟨hown, hwas⟩ := h.own_backup hmem
  obtain ⟨hnodup, hbackups⟩ := h.nodup_tail
  have horiginals := h.originals
  rw [List.map_cons, List.nodup_cons] at horiginals
  refine ⟨fun _ h => absurd h List.not_mem_nil, ?_, ?_, ?_, ?_, ?_, hnodup, ?_, horiginals.2⟩
  · intro o' ho'
    have hne : o'.1 ≠ b := fun heq => h.not_own ho' (heq ▸ hown)
    rw [Function.update_of_ne hne]
    exact h.output o' ho'
  · intro x hx
    obtain ⟨old, hold, hsaved⟩ := h.saved x (List.mem_cons_of_mem _ hx)
    exact ⟨old, hold, by rw [Function.update_of_ne (hbackups x hx), hsaved]⟩
  · intro x hx hpublished
    have hx' : x ∈ (p, b) :: l := List.mem_cons_of_mem _ hx
    have hxb : x.1 ≠ b := fun heq => h.original_not_own hx' (heq ▸ hown)
    rw [Function.update_of_ne hxb]
    exact h.vacated x hx' hpublished
  · intro q hq hpublished horiginal hbackup
    by_cases hqb : q = b
    · rw [hqb, Function.update_self, hwas]
    · rw [Function.update_of_ne hqb]
      refine h.frame q hq hpublished ?_ ?_
      · rw [List.map_cons, List.mem_cons, not_or]
        exact ⟨fun hqp => hpublished (hqp ▸ hp), horiginal⟩
      · rw [List.map_cons, List.mem_cons, not_or]
        exact ⟨hqb, hbackup⟩
  · intro t' ht'
    exact h.named t' (List.mem_cons_of_mem _ ht')
  · intro q hq
    refine h.foreign q ?_
    rw [List.map_cons, List.mem_append, List.mem_cons]
    exact (List.mem_append.1 hq).imp_right Or.inr

end Midway

/-! ### The loops that undo -/

/-- Nothing that undoes is refused. -/
def Env.Undoes (env : Env) : Prop := ∀ op : Op, ¬ op.IsMain → env.refused op = none

section Undo

variable {own : FilePath → Prop} {d₀ : Disk FilePath} {backups : List (FilePath × FilePath)}
  {published : List Output} {pending tail : List (Output × FilePath)}

theorem discardAll_spec (hundoes : env.Undoes) :
    Triple (fun s => Midway own d₀ [] [] (pending ++ tail) s.disk)
      (discardAll env (pending.map Prod.snd)) (fun _ s => Midway own d₀ [] [] tail s.disk)
      (fun _ _ => False) := by
  induction pending with
  | nil => exact Triple.pure fun s hs => hs
  | cons x pending ih =>
    obtain ⟨o, t⟩ := x
    rw [List.map_cons, discardAll]
    refine attempt_perform_triple (Q := fun _ s => Midway own d₀ [] [] (pending ++ tail) s.disk)
      (hundoes _ id) (fun s hs => ?_) ih
    have ht := hs.staged (o, t) List.mem_cons_self
    exact ⟨_, Disk.remove_eq_ok.2 ⟨⟨_, ht⟩, rfl⟩, hs.discard⟩

theorem restoreAll_spec (hundoes : env.Undoes) :
    Triple (fun s => Midway own d₀ backups [] pending s.disk) (restoreAll env backups)
      (fun _ s => Midway own d₀ [] [] pending s.disk) (fun _ _ => False) := by
  induction backups with
  | nil => exact Triple.pure fun s hs => hs
  | cons x backups ih =>
    obtain ⟨p, b⟩ := x
    rw [restoreAll]
    refine attempt_perform_triple
      (Q := fun _ s => Midway own d₀ backups [] pending s.disk) (hundoes _ id) (fun s hs => ?_) ?_
    · obtain ⟨contents, -, hb⟩ := hs.saved (p, b) List.mem_cons_self
      have hp : s.disk p = none := hs.vacated (p, b) List.mem_cons_self List.not_mem_nil
      have hother : s.disk p ≠ some .other := by
        rw [hp]
        exact (Option.some_ne_none _).symm
      exact ⟨_, Disk.rename_eq_ok.2 ⟨contents, hb, hother, rfl⟩, hs.restore hb⟩
    · exact ih.bind fun errors => Triple.pure fun s hs => hs

theorem withdrawAll_spec (hundoes : env.Undoes) (hnodup : (published.map Prod.fst).Nodup)
    (hkept : ∀ o ∈ published, o.1 ∈ backups.map Prod.fst ∨ d₀ o.1 = none) :
    Triple (fun s => Midway own d₀ backups published pending s.disk)
      (withdrawAll env (published.map Prod.fst))
      (fun _ s => Midway own d₀ backups [] pending s.disk) (fun _ _ => False) := by
  induction published with
  | nil => exact Triple.pure fun s hs => hs
  | cons o published ih =>
    rw [List.map_cons, List.nodup_cons] at hnodup
    obtain ⟨ho, hkept⟩ := List.forall_mem_cons.1 hkept
    rw [List.map_cons, withdrawAll]
    refine attempt_perform_triple
      (Q := fun _ s => Midway own d₀ backups published pending s.disk) (hundoes _ id)
      (fun s hs => ?_) ?_
    · have hpublished := hs.output o List.mem_cons_self
      exact ⟨_, Disk.remove_eq_ok.2 ⟨⟨_, hpublished⟩, rfl⟩, hs.withdraw hnodup.1 ho⟩
    · exact (ih hnodup.2 hkept).bind fun errors => Triple.pure fun s hs => hs

theorem clearAll_spec (hundoes : env.Undoes)
    (hpublished : ∀ x ∈ backups, x.1 ∈ published.map Prod.fst) :
    Triple (fun s => Midway own d₀ backups published [] s.disk) (clearAll env backups)
      (fun _ s => Midway own d₀ [] published [] s.disk) (fun _ _ => False) := by
  induction backups with
  | nil => exact Triple.pure fun s hs => hs
  | cons x backups ih =>
    obtain ⟨p, b⟩ := x
    obtain ⟨hp, hpublished⟩ := List.forall_mem_cons.1 hpublished
    rw [clearAll]
    refine attempt_perform_triple (Q := fun _ s => Midway own d₀ backups published [] s.disk)
      (hundoes _ id) (fun s hs => ?_) (ih hpublished)
    obtain ⟨contents, -, hb⟩ := hs.saved (p, b) List.mem_cons_self
    exact ⟨_, Disk.remove_eq_ok.2 ⟨⟨contents, hb⟩, rfl⟩, hs.clear hp⟩

end Undo

end AtomicWrite

end LibWing
