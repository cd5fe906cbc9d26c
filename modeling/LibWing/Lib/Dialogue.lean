import Mathlib.Data.List.Basic

/-!
# A dialogue with an object

A client sends requests to an object with a state.  The object answers some of them, in order, and
says other things in between; the client takes the first thing that answers its request.

* `Object`, `Object.results`, `Object.after` : an object, what it answers to requests, and where
  they take it;
* `Object.Answers` : what may be heard of an object that reads the requests;
* `Takes` : what a client takes of what it hears;
* `Takes.eq_results` : the client takes what the object answers.
-/

namespace Dialogue

variable {σ ρ β : Type}

/-- An object: how a request changes its state, and its answer, if it has one. -/
structure Object (σ ρ β : Type) where
  /-- What a request does to the state. -/
  react : ρ → σ → σ
  /-- What is answered, if anything. -/
  reply : ρ → σ → Option β

/-- What the object answers to requests, in order. -/
def Object.results (o : Object σ ρ β) : σ → List ρ → List β
  | _, [] => []
  | s, r :: rs => (o.reply r s).toList ++ o.results (o.react r s) rs

/-- The state after some requests. -/
def Object.after (o : Object σ ρ β) (s : σ) (rs : List ρ) : σ := rs.foldl (fun s r => o.react r s) s

theorem Object.results_append (o : Object σ ρ β) (s : σ) (rs rs' : List ρ) :
    o.results s (rs ++ rs') = o.results s rs ++ o.results (o.after s rs) rs' := by
  induction rs generalizing s with
  | nil => rfl
  | cons r rs ih =>
    rw [List.cons_append, results, results, ih, List.append_assoc]
    rfl

variable (o : Object σ ρ β) (Matches : ρ → β → Prop)

/-- What may be heard of an object that reads the requests: its answers, and before each of them
things that do not answer the request.  After the last one anything may come. -/
inductive Object.Answers : σ → List ρ → List β → Prop
  | ended (s : σ) (heard : List β) : Answers s [] heard
  | silent {s : σ} {r : ρ} {rs : List ρ} {heard : List β} (hreply : o.reply r s = none)
      (h : Answers (o.react r s) rs heard) : Answers s (r :: rs) heard
  | replied {s : σ} {r : ρ} {rs : List ρ} {a : β} {between heard : List β}
      (hreply : o.reply r s = some a) (hbetween : ∀ x ∈ between, ¬ Matches r x)
      (h : Answers (o.react r s) rs heard) : Answers s (r :: rs) (between ++ a :: heard)

variable (Expects : ρ → Prop)

/-- What a client takes that waits, after a request that expects one, for the first answer. -/
inductive Takes : List ρ → List β → List β → Prop
  | ended (heard : List β) : Takes [] heard []
  | silent {r : ρ} {rs : List ρ} {heard taken : List β} (hr : ¬ Expects r)
      (h : Takes rs heard taken) : Takes (r :: rs) heard taken
  | matched {r : ρ} {rs : List ρ} {a : β} {before heard taken : List β} (hr : Expects r)
      (hbefore : ∀ x ∈ before, ¬ Matches r x) (ha : Matches r a) (h : Takes rs heard taken) :
      Takes (r :: rs) (before ++ a :: heard) (a :: taken)

theorem append_cons_unique {p : β → Prop} {before between heard rest : List β} {a b : β}
    (hbefore : ∀ x ∈ before, ¬ p x) (ha : p a) (hbetween : ∀ x ∈ between, ¬ p x) (hb : p b)
    (h : before ++ a :: heard = between ++ b :: rest) : a = b ∧ heard = rest := by
  induction before generalizing between with
  | nil =>
    cases between with
    | nil => exact List.cons.inj h
    | cons x between =>
      obtain ⟨rfl, -⟩ := List.cons.inj h
      -- The match would be among those before the other one.
      exact absurd ha (hbetween _ List.mem_cons_self)
  | cons x before ih =>
    cases between with
    | nil =>
      obtain ⟨rfl, -⟩ := List.cons.inj h
      exact absurd hb (hbefore _ List.mem_cons_self)
    | cons y between =>
      obtain ⟨-, hrest⟩ := List.cons.inj h
      exact ih (fun z hz => hbefore z (List.mem_cons_of_mem _ hz))
        (fun z hz => hbetween z (List.mem_cons_of_mem _ hz)) hrest

variable {o Matches Expects}

/-- **A client takes what the object answers**, where the object answers what the client expects to
be answered, with an answer that matches. -/
theorem Takes.eq_results (hreply : ∀ r s a, o.reply r s = some a → Expects r ∧ Matches r a)
    (hsilent : ∀ r s, o.reply r s = none → ¬ Expects r) {s : σ} {rs : List ρ} {heard taken : List β}
    (htakes : Takes Matches Expects rs heard taken) (h : o.Answers Matches s rs heard) :
    taken = o.results s rs := by
  induction htakes generalizing s with
  | ended heard => rfl
  | @silent r rs heard taken hr _ ih =>
    generalize hrequests : r :: rs = requests at h
    cases h with
    | ended => cases hrequests
    | silent hnone h =>
      cases hrequests
      rw [Object.results, hnone]
      exact ih h
    | replied hsome _ _ =>
      cases hrequests
      -- The object answers only what is expected.
      exact absurd (hreply _ _ _ hsome).1 hr
  | @matched r rs a before heard taken hr hbefore ha _ ih =>
    generalize hrequests : r :: rs = requests at h
    generalize hheard : before ++ a :: heard = all at h
    cases h with
    | ended => cases hrequests
    | silent hnone _ =>
      cases hrequests
      exact absurd hr (hsilent _ _ hnone)
    | replied hsome hbetween h =>
      cases hrequests
      -- Both have the first match, so that it is the same.
      obtain ⟨rfl, rfl⟩ := append_cons_unique hbefore ha hbetween (hreply _ _ _ hsome).2 hheard
      rw [Object.results, hsome, ih h]
      rfl

end Dialogue
