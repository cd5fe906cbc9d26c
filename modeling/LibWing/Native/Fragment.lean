import LibWing.Native.Progress

/-!
# Fragmentation independence of the request decoder

A server receives the request stream in fragments it does not choose.  `push` decodes the framing
of a whole fragment first and parses its events afterwards; what it returns, and the state it ends
in, do not depend on the cut.

* `RequestParser.feed` : the loop of `push_events` without the ceiling on requests per push;
  `pushLoop_eq_ok` : the loop is `feed` with the ceiling checked at the end;
* `decodeAll` : the decoder without that ceiling, which splits along every cut
  (`decodeAll_append`);
* `pushAll` : pushing fragments one by one; `FragmentsWithin` : no fragment holds too many
  requests;
* `push_fragments` : pushing the fragments and pushing their concatenation succeed together, return
  the same requests and end in the same state.
-/

namespace LibWing

namespace RequestParser

variable {p p' : RequestParser}

/-! ### The loop without its ceiling -/

/-- The loop of `push_events` without the check on the number of requests. -/
def feed (p : RequestParser) : List ChannelEvent → Result (List NativeRequest × RequestParser)
  | [] => .ok ([], p)
  | event :: events => do
    let (rs, p') ← p.pushEvent event
    let (more, p'') ← p'.feed events
    return (rs ++ more, p'')

theorem feed_cons_eq_ok {event : ChannelEvent} {events : List ChannelEvent}
    {rs : List NativeRequest} :
    p.feed (event :: events) = .ok (rs, p') ↔
      ∃ rs₁ p₁ rs₂, p.pushEvent event = .ok (rs₁, p₁) ∧ p₁.feed events = .ok (rs₂, p') ∧
        rs = rs₁ ++ rs₂ := by
  simp only [feed, Except.bind_eq_ok, Except.pure_eq_ok, Prod.exists, Prod.mk.injEq]
  constructor
  · rintro ⟨rs₁, p₁, h₁, rs₂, p₂, h₂, rfl, rfl⟩
    exact ⟨rs₁, p₁, rs₂, h₁, h₂, rfl⟩
  · rintro ⟨rs₁, p₁, rs₂, h₁, h₂, rfl⟩
    exact ⟨rs₁, p₁, h₁, rs₂, p', h₂, rfl, rfl⟩

/-- Parsing events splits along every cut. -/
theorem feed_append_eq_ok {a b : List ChannelEvent} {rs : List NativeRequest} :
    p.feed (a ++ b) = .ok (rs, p') ↔
      ∃ rs₁ p₁ rs₂, p.feed a = .ok (rs₁, p₁) ∧ p₁.feed b = .ok (rs₂, p') ∧ rs = rs₁ ++ rs₂ := by
  induction a generalizing p rs with
  | nil =>
    constructor
    · intro h
      exact ⟨[], p, rs, rfl, h, rfl⟩
    · rintro ⟨rs₁, p₁, rs₂, h₁, h₂, rfl⟩
      cases h₁
      exact h₂
  | cons event events ih =>
    rw [List.cons_append, feed_cons_eq_ok]
    constructor
    · rintro ⟨rs₁, p₁, rs₂, h₁, h₂, rfl⟩
      obtain ⟨rs₂, p₂, rs₃, h₂', h₃, rfl⟩ := ih.1 h₂
      exact ⟨rs₁ ++ rs₂, p₂, rs₃, feed_cons_eq_ok.2 ⟨rs₁, p₁, rs₂, h₁, h₂', rfl⟩, h₃,
        (List.append_assoc _ _ _).symm⟩
    · rintro ⟨rs₁, p₂, rs₃, h₁, h₃, rfl⟩
      obtain ⟨rs₁, p₁, rs₂, h₁', h₂, rfl⟩ := feed_cons_eq_ok.1 h₁
      exact ⟨rs₁, p₁, rs₂ ++ rs₃, h₁', ih.2 ⟨rs₂, p₂, rs₃, h₂, h₃, rfl⟩, List.append_assoc _ _ _⟩

theorem feed_limits {events : List ChannelEvent} {rs : List NativeRequest}
    (h : p.feed events = .ok (rs, p')) : p'.limits = p.limits := by
  induction events generalizing p rs with
  | nil => cases h; rfl
  | cons event events ih =>
    obtain ⟨rs₁, p₁, rs₂, h₁, h₂, rfl⟩ := feed_cons_eq_ok.1 h
    exact (ih h₂).trans (pushEvent_limits h₁)

/-- The loop is `feed` with the ceiling checked on the whole: the requests collected only grow, so
the last check decides. -/
theorem pushLoop_eq_ok {acc rs : List NativeRequest} {events : List ChannelEvent}
    (hacc : acc.length ≤ p.limits.maxBatchRequests) :
    p.pushLoop acc events = .ok (rs, p') ↔
      ∃ more, p.feed events = .ok (more, p') ∧ rs = acc ++ more ∧
        rs.length ≤ p.limits.maxBatchRequests := by
  induction events generalizing p acc with
  | nil =>
    constructor
    · intro h
      cases h
      exact ⟨[], rfl, (List.append_nil _).symm, hacc⟩
    · rintro ⟨more, h, rfl, -⟩
      cases h
      simp [pushLoop]
  | cons event events ih =>
    constructor
    · intro h
      obtain ⟨⟨rs', q⟩, hq, h⟩ := Except.bind_eq_ok.1 h
      have hl := pushEvent_limits hq
      simp only at h
      split_ifs at h with hgt
      · cases h
      obtain ⟨more, hm, rfl, hle⟩ := (ih (by rw [hl]; omega)).1 h
      exact ⟨rs' ++ more, feed_cons_eq_ok.2 ⟨rs', q, more, hq, hm, rfl⟩,
        List.append_assoc _ _ _, by rwa [hl] at hle⟩
    · rintro ⟨more, h, rfl, hle⟩
      obtain ⟨rs', q, more', hq, hq', rfl⟩ := feed_cons_eq_ok.1 h
      have hl := pushEvent_limits hq
      have hle' : (acc ++ rs').length ≤ p.limits.maxBatchRequests := by
        simp only [List.length_append] at hle ⊢
        omega
      simp only [pushLoop, hq, bind, Except.bind]
      rw [if_neg (by omega)]
      exact (ih (by rwa [hl])).2 ⟨more', hq', by rw [List.append_assoc], by rwa [hl]⟩

end RequestParser

namespace NativeRequestDecoder

variable {d d' : NativeRequestDecoder}

/-! ### The decoder without its ceiling -/

/-- The requests in `input`, and the state after it: the decoder without the ceiling on requests
per push. -/
def decodeAll (d : NativeRequestDecoder) (input : List UInt8) :
    Result (List NativeRequest × NativeRequestDecoder) :=
  match d.channels.push input with
  | (.error e, _) => .error e
  | (.ok events, channels) => do
    let (requests, parser) ← d.toRequestParser.feed events
    return (requests, { toRequestParser := parser, channels := channels })

theorem decodeAll_eq_ok {input : List UInt8} {rs : List NativeRequest} :
    d.decodeAll input = .ok (rs, d') ↔
      ∃ events, d.channels.push input = (.ok events, d'.channels) ∧
        d.toRequestParser.feed events = .ok (rs, d'.toRequestParser) := by
  unfold decodeAll
  rcases d.channels.push input with ⟨e | events, c⟩
  · simp
  · simp only [Except.bind_eq_ok, Except.pure_eq_ok, Prod.exists, Prod.mk.injEq, Except.ok.injEq]
    constructor
    · rintro ⟨rs, q, h, rfl, rfl⟩
      exact ⟨events, ⟨rfl, rfl⟩, h⟩
    · rintro ⟨events', ⟨rfl, rfl⟩, h⟩
      exact ⟨rs, d'.toRequestParser, h, rfl, rfl⟩

/-- Decoding splits along every cut. -/
theorem decodeAll_append {a b : List UInt8} {rs : List NativeRequest} :
    d.decodeAll (a ++ b) = .ok (rs, d') ↔
      ∃ rs₁ d₁ rs₂, d.decodeAll a = .ok (rs₁, d₁) ∧ d₁.decodeAll b = .ok (rs₂, d') ∧
        rs = rs₁ ++ rs₂ := by
  simp only [decodeAll_eq_ok]
  constructor
  · rintro ⟨events, hev, hfeed⟩
    obtain ⟨first, c, more, h₁, h₂, rfl⟩ := ChannelDecoder.push_append_eq_ok.1 hev
    obtain ⟨rs₁, p₁, rs₂, h₃, h₄, rfl⟩ := RequestParser.feed_append_eq_ok.1 hfeed
    exact ⟨rs₁, { toRequestParser := p₁, channels := c }, rs₂, ⟨first, h₁, h₃⟩, ⟨more, h₂, h₄⟩, rfl⟩
  · rintro ⟨rs₁, d₁, rs₂, ⟨first, h₁, h₃⟩, ⟨more, h₂, h₄⟩, rfl⟩
    exact ⟨first ++ more, ChannelDecoder.push_append_eq_ok.2 ⟨first, _, more, h₁, h₂, rfl⟩,
      RequestParser.feed_append_eq_ok.2 ⟨rs₁, _, rs₂, h₃, h₄, rfl⟩⟩

theorem decodeAll_limits {input : List UInt8} {rs : List NativeRequest}
    (h : d.decodeAll input = .ok (rs, d')) : d'.limits = d.limits := by
  obtain ⟨events, -, hfeed⟩ := decodeAll_eq_ok.1 h
  exact RequestParser.feed_limits hfeed

/-- **A push is a decoding that stays below the ceiling.** -/
theorem push_eq_ok {input : List UInt8} {rs : List NativeRequest} :
    d.push input = (.ok rs, d') ↔
      d.decodeAll input = .ok (rs, d') ∧ rs.length ≤ d.limits.maxBatchRequests := by
  have hev : d.pushEvents input = .ok (rs, d') ↔
      d.decodeAll input = .ok (rs, d') ∧ rs.length ≤ d.limits.maxBatchRequests := by
    unfold pushEvents decodeAll
    rcases d.channels.push input with ⟨e | events, c⟩
    · simp
    · simp only [Except.bind_eq_ok, Except.pure_eq_ok, Prod.exists, Prod.mk.injEq]
      constructor
      · rintro ⟨rs, q, h, rfl, rfl⟩
        obtain ⟨more, hm, rfl, hle⟩ := (RequestParser.pushLoop_eq_ok (Nat.zero_le _)).1 h
        exact ⟨⟨_, q, hm, rfl, rfl⟩, hle⟩
      · rintro ⟨⟨rs, q, h, rfl, rfl⟩, hle⟩
        exact ⟨rs, q, (RequestParser.pushLoop_eq_ok (Nat.zero_le _)).2 ⟨rs, h, rfl, hle⟩, rfl, rfl⟩
  rw [← hev]
  unfold push
  cases d.pushEvents input with
  | error e => simp
  | ok x => simp [Prod.ext_iff]

/-! ### Fragments -/

/-- Push fragments one by one: the requests of each and the final state, if every push succeeds. -/
def pushAll (d : NativeRequestDecoder) :
    List (List UInt8) → Option (List (List NativeRequest) × NativeRequestDecoder)
  | [] => some ([], d)
  | fragment :: fragments =>
    match d.push fragment with
    | (.error _, _) => none
    | (.ok rs, d') => (d'.pushAll fragments).map fun x => (rs :: x.1, x.2)

theorem pushAll_cons {fragment : List UInt8} {fragments : List (List UInt8)}
    {rss : List (List NativeRequest)} :
    d.pushAll (fragment :: fragments) = some (rss, d') ↔
      ∃ rs d₁ rss', d.push fragment = (.ok rs, d₁) ∧ d₁.pushAll fragments = some (rss', d') ∧
        rss = rs :: rss' := by
  simp only [pushAll]
  rcases d.push fragment with ⟨e | rs, d₁⟩
  · simp
  · simp only [Option.map_eq_some_iff, Prod.exists, Prod.mk.injEq, Except.ok.injEq]
    constructor
    · rintro ⟨rss', q, h, rfl, rfl⟩
      exact ⟨rs, d₁, rss', ⟨rfl, rfl⟩, h, rfl⟩
    · rintro ⟨rs', d₁', rss', ⟨rfl, rfl⟩, h, rfl⟩
      exact ⟨rss', d', h, rfl, rfl⟩

/-- Fragments that are all accepted decode to what their concatenation decodes to. -/
theorem decodeAll_of_pushAll {fragments : List (List UInt8)} {rss : List (List NativeRequest)}
    (h : d.pushAll fragments = some (rss, d')) :
    d.decodeAll fragments.flatten = .ok (rss.flatten, d') := by
  induction fragments generalizing d rss with
  | nil =>
    cases h
    rfl
  | cons fragment fragments ih =>
    obtain ⟨rs, d₁, rss', h₁, h₂, rfl⟩ := pushAll_cons.1 h
    rw [List.flatten_cons, List.flatten_cons]
    exact decodeAll_append.2 ⟨rs, d₁, rss'.flatten, (push_eq_ok.1 h₁).1, ih h₂, rfl⟩

/-- Each fragment, decoded where the ones before it end, holds at most `n` requests. -/
def FragmentsWithin (n : ℕ) (d : NativeRequestDecoder) : List (List UInt8) → Prop
  | [] => True
  | fragment :: fragments =>
    ∀ rs d', d.decodeAll fragment = .ok (rs, d') → rs.length ≤ n ∧ FragmentsWithin n d' fragments

/-- Fragments that each stay below the ceiling are all accepted. -/
theorem pushAll_of_within {fragments : List (List UInt8)} {rs : List NativeRequest}
    (h : d.decodeAll fragments.flatten = .ok (rs, d'))
    (hw : FragmentsWithin d.limits.maxBatchRequests d fragments) :
    ∃ rss, d.pushAll fragments = some (rss, d') ∧ rss.flatten = rs := by
  induction fragments generalizing d rs with
  | nil =>
    cases h
    exact ⟨[], rfl, rfl⟩
  | cons fragment fragments ih =>
    rw [List.flatten_cons] at h
    obtain ⟨rs₁, d₁, rs₂, h₁, h₂, rfl⟩ := decodeAll_append.1 h
    obtain ⟨hle, hw'⟩ := hw rs₁ d₁ h₁
    obtain ⟨rss, hr, rfl⟩ := ih h₂ (by rwa [decodeAll_limits h₁])
    exact ⟨rs₁ :: rss, pushAll_cons.2 ⟨rs₁, d₁, rss, push_eq_ok.2 ⟨h₁, hle⟩, hr, rfl⟩,
      by rw [List.flatten_cons]⟩

/-- No fragment holds more requests than the whole. -/
theorem fragmentsWithin_of_le {n : ℕ} {fragments : List (List UInt8)} {rs : List NativeRequest}
    (h : d.decodeAll fragments.flatten = .ok (rs, d')) (hle : rs.length ≤ n) :
    FragmentsWithin n d fragments := by
  induction fragments generalizing d rs with
  | nil => trivial
  | cons fragment fragments ih =>
    rw [List.flatten_cons] at h
    obtain ⟨rs₁, d₁, rs₂, h₁, h₂, rfl⟩ := decodeAll_append.1 h
    rw [List.length_append] at hle
    intro rs' d'' h'
    cases h₁.symm.trans h'
    exact ⟨by omega, ih h₂ (by omega)⟩

/-- **Fragmentation independence.**  For every state of the decoder and every split of a byte
string whose requests do not exceed the ceiling: the fragments are all accepted, with these
requests and this final state, if and only if the whole string is. -/
theorem push_fragments (d d' : NativeRequestDecoder) (fragments : List (List UInt8))
    (rs : List NativeRequest)
    (hmax : ∀ rs d', d.decodeAll fragments.flatten = .ok (rs, d') →
      rs.length ≤ d.limits.maxBatchRequests) :
    (∃ rss, d.pushAll fragments = some (rss, d') ∧ rss.flatten = rs) ↔
      d.push fragments.flatten = (.ok rs, d') := by
  rw [push_eq_ok]
  constructor
  · rintro ⟨rss, h, rfl⟩
    have hall := decodeAll_of_pushAll h
    exact ⟨hall, hmax _ _ hall⟩
  · rintro ⟨h, hle⟩
    exact pushAll_of_within h (fragmentsWithin_of_le h hle)

/-- A request cut inside an escape and inside an id is accepted as the whole is. -/
theorem push_fragments_get_seven :
    (NativeRequestDecoder.new .default).push [0xdf, 0xd1, 0xd7, 0, 0, 0, 7, 0xdc] =
      (.ok [.keepAlive 1, .get 7],
        { toRequestParser := { (NativeRequestDecoder.new .default).toRequestParser with
            selectedId := some 7 }
          channels := .on 1 }) :=
  (push_fragments (.new .default) _ [[0xdf], [0xd1, 0xd7, 0, 0], [0, 7, 0xdc]]
    [.keepAlive 1, .get 7] (by
      intro rs d' h
      have hd : (NativeRequestDecoder.new .default).decodeAll
          [[0xdf], [0xd1, 0xd7, 0, 0], [0, 7, 0xdc]].flatten = .ok ([.keepAlive 1, .get 7],
            { toRequestParser := { (NativeRequestDecoder.new .default).toRequestParser with
                selectedId := some 7 }
              channels := .on 1 }) := by
        decide +kernel
      cases hd.symm.trans h
      decide)).1 ⟨[[], [.keepAlive 1], [.get 7]], by decide +kernel, rfl⟩

end NativeRequestDecoder

end LibWing
