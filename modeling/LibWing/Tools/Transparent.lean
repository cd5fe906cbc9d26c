import LibWing.Tools.Proxy

/-!
# What the proxy notes

* `Leg.Carries` : where the bytes of a direction are, for each place of its worker;
* `run_carries` : it holds in every run, so what a destination is given has been noted before, and
  what is noted has been taken from the source;
* `Noted`, `run_noted` : the limits of the recorder, the order of its events, and the end of a
  source;
* `run_winds_down` : once one worker has told the other to stop, or the deadline has passed, each of
  them takes a few more steps only.
-/

namespace LibWing

namespace Wingcapture

namespace Proxy

variable {t : Texts} {deadline : Time} {s s' : State} {d d' : Direction} {env : Env} {leg : Leg}

/-! ### Changing a direction -/

@[simp] theorem set_legs_self : (s.set d leg).legs d = leg := Function.update_self ..

theorem set_legs_ne (h : d' ≠ d) : (s.set d leg).legs d' = s.legs d' := Function.update_of_ne h ..

@[simp] theorem set_recorded : (s.set d leg).recorded = s.recorded := rfl

theorem channel_injective (h : d.channel = d'.channel) : d = d' := by
  revert h
  cases d <;> cases d' <;> simp [Direction.channel]

theorem record_eq_ok {r r' : Recorder} {elapsed : Time} {channel : String} {bytes : List UInt8} :
    r.record elapsed channel bytes = .ok r' ↔
      r.events.length < maxEvents ∧ r.bytes + bytes.length ≤ maxBytes ∧
        r' = ⟨r.events ++ [(offsetAt elapsed, channel, bytes)], r.bytes + bytes.length⟩ := by
  rw [Recorder.record]
  split_ifs with h
  · simp only [false_iff]
    rintro ⟨hlength, hbytes, -⟩
    omega
  · simp only [Except.ok.injEq]
    rw [not_or, not_le, not_lt] at h
    exact ⟨fun heq => ⟨h.1, h.2, heq.symm⟩, fun heq => heq.2.2.symm⟩

theorem recorded_noted {recorder : Recorder} {elapsed : Time} {chunk : List UInt8}
    (h : s.recorder.record elapsed d.channel chunk = .ok recorder) (d' : Direction) :
    ({ s with recorder } : State).recorded d' =
      s.recorded d' ++ if d.channel = d'.channel then chunk else [] := by
  obtain ⟨-, -, rfl⟩ := record_eq_ok.1 h
  simp only [State.recorded, List.filter_append, List.flatMap_append]
  congr 1
  by_cases hc : d.channel = d'.channel <;> simp [hc]

/-- What a step of the worker of a direction does. -/
inductive Advanced (deadline : Time) (s : State) (d : Direction) : State → Prop where
  | fail (message : String) (h : (s.legs d).worker = .starting ∨ (s.legs d).worker = .limiting) :
    Advanced deadline s d (s.go d (.done (.error message)))
  | limit (h : (s.legs d).worker = .starting) : Advanced deadline s d (s.go d .limiting)
  | check (h : (s.legs d).worker = .limiting) : Advanced deadline s d (s.go d .checking)
  | leave (h : (s.legs d).worker = .checking) :
    Advanced deadline s d (s.go d (.ending .both (.ok ())))
  | enter (h : (s.legs d).worker = .checking) (hstop : s.stop = false) (hnow : s.now < deadline) :
    Advanced deadline s d (s.go d .reading)
  | take (chunk : List UInt8) (h : (s.legs d).worker = .reading)
    (hchunk : chunk.length ≤ bufferBytes) :
    Advanced deadline s d
      (s.set d { s.legs d with worker := .recording chunk, taken := (s.legs d).taken ++ chunk })
  | retry (h : (s.legs d).worker = .reading) : Advanced deadline s d (s.go d .checking)
  | refuse (message : String) (h : (s.legs d).worker = .reading) :
    Advanced deadline s d (s.go d (.refused message))
  | note (chunk : List UInt8) {recorder : Recorder} (h : (s.legs d).worker = .recording chunk)
    (hrecord : s.recorder.record s.now d.channel chunk = .ok recorder) :
    Advanced deadline s d (({ s with recorder } : State).go d
      (if chunk = [] then .ending .write (.ok ()) else .forwarding chunk))
  | full (chunk : List UInt8) (how : Shutdown) (message : String)
    (h : (s.legs d).worker = .recording chunk) :
    Advanced deadline s d (s.go d (.ending how (.error message)))
  | give (chunk : List UInt8) (h : (s.legs d).worker = .forwarding chunk) :
    Advanced deadline s d
      (s.set d { s.legs d with worker := .checking, given := (s.legs d).given ++ chunk })
  | giveLess (chunk : List UInt8) (n : ℕ) (message : String)
    (h : (s.legs d).worker = .forwarding chunk) :
    Advanced deadline s d (s.set d
      { s.legs d with worker := .refused message, given := (s.legs d).given ++ chunk.take n })
  | quit (message : String) (h : (s.legs d).worker = .refused message) (hstop : s.stop = true) :
    Advanced deadline s d (s.go d (.done (.ok ())))
  | report (message : String) (h : (s.legs d).worker = .refused message) :
    Advanced deadline s d (s.go d (.ending .both (.error message)))
  | tell (how : Shutdown) (result : Except String Unit)
    (h : (s.legs d).worker = .ending how result) :
    Advanced deadline s d (({ s with stop := true } : State).go d (.closing how result))
  | shut (how : Shutdown) (result : Except String Unit)
    (h : (s.legs d).worker = .closing how result) :
    Advanced deadline s d (s.set d { s.legs d with worker := .done result, shut := some how })

theorem advanced_of_advance (h : advance t deadline s d env = some s') :
    Advanced deadline s d s' := by
  cases hw : (s.legs d).worker with
  | starting =>
    simp only [advance, hw] at h
    split at h <;> cases h
    · exact .limit hw
    · exact .fail _ (.inl hw)
  | limiting =>
    simp only [advance, hw] at h
    split at h <;> cases h
    · exact .check hw
    · exact .fail _ (.inr hw)
  | checking =>
    simp only [advance, hw] at h
    split_ifs at h with hleave <;> cases h
    · exact .leave hw
    · rw [not_or, not_le, Bool.not_eq_true] at hleave
      exact .enter hw hleave.1 hleave.2
  | reading =>
    simp only [advance, hw] at h
    split at h
    · cases h
      exact .take _ hw (List.length_take_le _ _)
    · split_ifs at h <;> cases h
      · exact .retry hw
      · exact .refuse _ hw
  | recording chunk =>
    simp only [advance, hw] at h
    split at h <;> cases h
    · rename_i hrecord
      exact .note chunk hw hrecord
    · exact .full chunk _ _ hw
  | forwarding chunk =>
    simp only [advance, hw] at h
    split at h <;> cases h
    · exact .give chunk hw
    · exact .giveLess chunk _ _ hw
  | refused message =>
    simp only [advance, hw] at h
    split_ifs at h with hstop <;> cases h
    · exact .quit message hw hstop
    · exact .report message hw
  | ending how result =>
    simp only [advance, hw] at h
    cases h
    exact .tell how result hw
  | closing how result =>
    simp only [advance, hw] at h
    cases h
    exact .shut how result hw
  | done result =>
    simp only [advance, hw] at h
    cases h

/-- The state in which a step is made. -/
def State.at (s : State) (elapsed : Time) : State := { s with now := s.now + elapsed }

theorem advanced (h : step t deadline s (d, env) = some s') :
    Advanced deadline (s.at env.elapsed) d s' :=
  advanced_of_advance h

/-! ### Where the bytes are -/

/-- What is given was noted, and what is noted was taken; at most one chunk is on its way. -/
structure Leg.Behind (leg : Leg) (recorded : List UInt8) : Prop where
  /-- What was handed on has been recorded. -/
  given : leg.given <+: recorded
  /-- What was recorded has been taken. -/
  taken : recorded <+: leg.taken
  /-- At most one buffer has been taken and not handed on. -/
  chunk : leg.taken.length ≤ leg.given.length + bufferBytes

/-- Where the bytes of a direction are, by the place of its worker. -/
def Leg.Carries (leg : Leg) (recorded : List UInt8) : Prop :=
  match leg.worker with
  | .starting | .limiting | .checking | .reading =>
    leg.given = recorded ∧ leg.taken = recorded ∧ leg.shut = none
  | .recording chunk =>
    leg.given = recorded ∧ leg.taken = recorded ++ chunk ∧ chunk.length ≤ bufferBytes ∧
      leg.shut = none
  | .forwarding chunk =>
    recorded = leg.given ++ chunk ∧ leg.taken = recorded ∧ chunk.length ≤ bufferBytes ∧
      leg.shut = none
  | .refused _ => leg.Behind recorded ∧ leg.taken = recorded ∧ leg.shut = none
  | .ending _ result | .closing _ result =>
    leg.Behind recorded ∧
      (result = .ok () → leg.given = recorded ∧ leg.taken = recorded) ∧ leg.shut = none
  | .done result =>
    leg.Behind recorded ∧ (result = .ok () → leg.taken = recorded) ∧
      (result = .ok () → leg.shut ≠ none → leg.given = recorded)

/-- Nothing is on its way. -/
theorem Leg.Behind.of_eq {recorded : List UInt8} (hgiven : leg.given = recorded)
    (htaken : leg.taken = recorded) : leg.Behind recorded where
  given := by rw [hgiven]
  taken := by rw [htaken]
  chunk := by
    rw [hgiven, htaken]
    omega

theorem Leg.Carries.behind {recorded : List UInt8} (h : leg.Carries recorded) :
    leg.Behind recorded := by
  unfold Leg.Carries at h
  split at h
  case h_5 chunk hw =>
    obtain ⟨hgiven, htaken, hchunk, -⟩ := h
    refine ⟨by rw [hgiven], by rw [htaken]; exact List.prefix_append _ _, ?_⟩
    rw [htaken, hgiven, List.length_append]
    omega
  case h_6 chunk hw =>
    obtain ⟨hrecorded, htaken, hchunk, -⟩ := h
    refine ⟨by rw [hrecorded]; exact List.prefix_append _ _, by rw [htaken], ?_⟩
    rw [htaken, hrecorded, List.length_append]
    omega
  case h_7 | h_8 | h_9 | h_10 => exact h.1
  all_goals exact .of_eq h.1 h.2.1

theorem carries_set (h : ∀ d, (s.legs d).Carries (s.recorded d))
    (hleg : leg.Carries (s.recorded d)) :
    ∀ d', ((s.set d leg).legs d').Carries ((s.set d leg).recorded d') := by
  intro d'
  by_cases hd : d' = d
  · subst hd
    simpa using hleg
  · rw [set_legs_ne hd]
    exact h d'

/-- **A step carries the bytes on.** -/
theorem step_carries (h : ∀ d, (s.legs d).Carries (s.recorded d))
    (hstep : step t deadline s (d, env) = some s') :
      ∀ d', (s'.legs d').Carries (s'.recorded d') := by
  change ∀ d, ((s.at env.elapsed).legs d).Carries ((s.at env.elapsed).recorded d) at h
  have hd := h d
  unfold Leg.Carries at hd
  cases advanced hstep with
  | fail message hw =>
    refine carries_set h ?_
    rcases hw with hw | hw <;> rw [hw] at hd
    all_goals exact ⟨.of_eq hd.1 hd.2.1, fun hr => (nomatch hr), fun hr => (nomatch hr)⟩
  | limit hw | check hw | enter hw | retry hw =>
    rw [hw] at hd
    exact carries_set h hd
  | leave hw =>
    rw [hw] at hd
    exact carries_set h ⟨.of_eq hd.1 hd.2.1, fun _ => ⟨hd.1, hd.2.1⟩, hd.2.2⟩
  | take chunk hw hchunk =>
    rw [hw] at hd
    -- The chunk is taken, but not yet noted or given.
    refine carries_set h ⟨hd.1, ?_, hchunk, hd.2.2⟩
    rw [hd.2.1]
  | refuse message hw =>
    rw [hw] at hd
    exact carries_set h ⟨.of_eq hd.1 hd.2.1, hd.2.1, hd.2.2⟩
  | note chunk hw hrecord =>
    rw [hw] at hd
    obtain ⟨hgiven, htaken, hchunk, hshut⟩ := hd
    intro d'
    have hnoted := recorded_noted hrecord d'
    by_cases hd' : d' = d
    · subst hd'
      -- An empty chunk is noted too, and ends the loop.
      simp only [State.go, set_legs_self, set_recorded, hnoted, if_true]
      split_ifs with hempty
      · subst hempty
        rw [List.append_nil] at htaken ⊢
        exact ⟨.of_eq hgiven htaken, fun _ => ⟨hgiven, htaken⟩, hshut⟩
      · exact ⟨by rw [hgiven], htaken, hchunk, hshut⟩
    · -- The other direction is noted on its own channel.
      have hne : d.channel ≠ d'.channel := fun heq => hd' (channel_injective heq).symm
      simp only [State.go, set_legs_ne hd', set_recorded, hnoted, if_neg hne, List.append_nil]
      exact h d'
  | full chunk how message hw =>
    rw [hw] at hd
    obtain ⟨hgiven, htaken, hchunk, hshut⟩ := hd
    -- The recorder is full: the chunk is not given, and the worker fails.
    refine carries_set h ⟨⟨by rw [hgiven], ?_, ?_⟩, fun hr => (nomatch hr), hshut⟩
    · rw [htaken]
      exact List.prefix_append _ _
    · simp only [htaken, hgiven, List.length_append]
      omega
  | give chunk hw =>
    rw [hw] at hd
    obtain ⟨hrecorded, htaken, hchunk, hshut⟩ := hd
    exact carries_set h ⟨hrecorded.symm, htaken, hshut⟩
  | giveLess chunk n message hw =>
    rw [hw] at hd
    obtain ⟨hrecorded, htaken, hchunk, hshut⟩ := hd
    -- The write failed behind some bytes of the chunk.
    refine carries_set h ⟨⟨?_, by rw [htaken], ?_⟩, htaken, hshut⟩
    · rw [hrecorded]
      exact (List.prefix_append_right_inj _).2 (List.take_prefix _ _)
    · simp only [htaken, hrecorded, List.length_append, List.length_take]
      omega
  | quit message hw =>
    rw [hw] at hd
    obtain ⟨hbehind, htaken, hshut⟩ := hd
    exact carries_set h ⟨⟨hbehind.given, hbehind.taken, hbehind.chunk⟩, fun _ => htaken,
      fun _ hne => absurd hshut hne⟩
  | report message hw =>
    rw [hw] at hd
    obtain ⟨hbehind, htaken, hshut⟩ := hd
    exact carries_set h
      ⟨⟨hbehind.given, hbehind.taken, hbehind.chunk⟩, fun hr => (nomatch hr), hshut⟩
  | tell how result hw =>
    rw [hw] at hd
    obtain ⟨hbehind, hok, hshut⟩ := hd
    exact carries_set (s := { s.at env.elapsed with stop := true }) h
      ⟨⟨hbehind.given, hbehind.taken, hbehind.chunk⟩, hok, hshut⟩
  | shut how result hw =>
    rw [hw] at hd
    obtain ⟨hbehind, hok, -⟩ := hd
    exact carries_set h ⟨⟨hbehind.given, hbehind.taken, hbehind.chunk⟩, fun hr => (hok hr).2,
      fun hr _ => (hok hr).1⟩

/-- The bytes are where the workers say, in every run. -/
theorem run_carries {moves : List (Direction × Env)} (hrun : run t deadline moves = some s) :
    ∀ d, (s.legs d).Carries (s.recorded d) := by
  refine Machine.run_invariant (I := fun s => ∀ d, (s.legs d).Carries (s.recorded d))
    (fun s move s' h hstep => step_carries h hstep) hrun fun d => ?_
  exact ⟨rfl, rfl, rfl⟩

/-- What a worker leaves behind, as its caller sees it. -/
structure Leg.Transparent (leg : Leg) (recorded : List UInt8) : Prop where
  /-- What is given was noted, what is noted was taken, and at most one chunk is on its way. -/
  behind : leg.Behind recorded
  /-- At the head of the loop, nothing is on its way. -/
  checking : leg.worker = .checking → leg.given = recorded ∧ leg.taken = recorded
  /-- A worker that succeeded has noted all it took. -/
  done : leg.worker = .done (.ok ()) → leg.taken = recorded
  /-- If it also shut its destination down, it has given all of it. -/
  closed : leg.worker = .done (.ok ()) → leg.shut ≠ none → leg.given = recorded

theorem Leg.Carries.transparent {recorded : List UInt8} (h : leg.Carries recorded) :
    leg.Transparent recorded where
  behind := h.behind
  checking hw := by
    rw [Leg.Carries, hw] at h
    exact ⟨h.1, h.2.1⟩
  done hw := by
    rw [Leg.Carries, hw] at h
    exact h.2.1 rfl
  closed hw := by
    rw [Leg.Carries, hw] at h
    exact h.2.2 rfl

/-- **The proxy is transparent**, however its workers take turns and whatever the sockets do: in
each direction, what the destination is given is what was taken from the source, in order and
without gaps, and it was noted before. -/
theorem run_transparent {moves : List (Direction × Env)} (hrun : run t deadline moves = some s)
    (d : Direction) : (s.legs d).Transparent (s.recorded d) :=
  (run_carries hrun d).transparent

/-- A step of a microsecond in which nothing fails, and the source has ended. -/
def Env.quiet : Env := ⟨1000, .ok (), .ok [], .ok ()⟩

/-- The client sends three bytes, and then the console hangs up. -/
def hangUp : List (Direction × Env) :=
  List.replicate 3 (.clientToConsole, .quiet) ++
    (.clientToConsole, { Env.quiet with read := .ok [0xd7, 0, 1] }) ::
    List.replicate 2 (.clientToConsole, .quiet) ++ List.replicate 7 (.consoleToClient, .quiet) ++
    List.replicate 3 (.clientToConsole, .quiet)

theorem run_transparent_hangUp :
    ∃ s, run plainTexts 1000000 hangUp = some s ∧
      (s.legs .clientToConsole).given = [0xd7, 0, 1] ∧
      (s.legs .clientToConsole).Transparent (s.recorded .clientToConsole) := by
  have hgiven : (run plainTexts 1000000 hangUp).map (fun s => (s.legs .clientToConsole).given) =
      some [0xd7, 0, 1] := by
    decide +kernel
  obtain ⟨s, hrun, hs⟩ := Option.map_eq_some_iff.1 hgiven
  exact ⟨s, hrun, hs, run_transparent hrun .clientToConsole⟩

/-! ### What is noted -/

/-- The events on the channel of a direction. -/
def State.noted (s : State) (d : Direction) : List CapturedEvent :=
  s.recorder.events.filter fun event => event.2.1 = d.channel

/-- The worker has left its loop. -/
def Worker.left : Worker → Prop
  | .ending .. | .closing .. | .done _ => True
  | _ => False

/-- What holds of the recorder. -/
structure Noted (s : State) : Prop where
  /-- The number of events is bounded, … -/
  length : s.recorder.events.length ≤ maxEvents
  /-- … and so is the number of bytes, which is counted right. -/
  bytes : s.recorder.bytes = (s.recorder.events.map fun event => event.2.2.length).sum
  /-- The recorded bytes are within the limit. -/
  within : s.recorder.bytes ≤ maxBytes
  /-- No event is from the future, and their offsets never decrease. -/
  now : ∀ event ∈ s.recorder.events, event.1 ≤ offsetAt s.now
  /-- The events are in the order of time. -/
  sorted : (s.recorder.events.map Prod.fst).Pairwise (· ≤ ·)
  /-- Every event is a chunk of a direction. -/
  chunk : ∀ event ∈ s.recorder.events,
    (∃ d : Direction, event.2.1 = d.channel) ∧ event.2.2.length ≤ bufferBytes
  /-- The end of a source is noted behind all its bytes, … -/
  last : ∀ d, ∀ event ∈ (s.noted d).dropLast, event.2.2 ≠ []
  /-- … when its worker leaves the loop. -/
  ended : ∀ d, (∃ event ∈ s.noted d, event.2.2 = []) → (s.legs d).worker.left

theorem offsetAt_mono {elapsed elapsed' : Time} (h : elapsed ≤ elapsed') :
    offsetAt elapsed ≤ offsetAt elapsed' := by
  exact min_le_min_right _ (Nat.div_le_div_right h)

theorem step_left (hstep : step t deadline s (d, env) = some s') (hleft : (s.legs d').worker.left) :
    (s'.legs d').worker.left := by
  change ((s.at env.elapsed).legs d').worker.left at hleft
  by_cases hd : d' = d
  · subst hd
    cases advanced hstep with
    | fail message hw => simp [State.go, Worker.left]
    | tell how result hw => simp [State.go, Worker.left]
    | shut how result hw => simp [Worker.left]
    | leave hw => simp [State.go, Worker.left]
    | full chunk how message hw => simp [State.go, Worker.left]
    | quit message hw hstop => simp [State.go, Worker.left]
    | report message hw => simp [State.go, Worker.left]
    | limit hw | check hw | enter hw | take chunk hw | retry hw | refuse message hw | note chunk hw
    | give chunk hw | giveLess chunk n message hw =>
      rw [hw] at hleft
      exact hleft.elim
  · cases advanced hstep <;> simpa [State.go, set_legs_ne hd] using hleft

theorem Noted.of_recorder_eq (h : Noted s) (hrecorder : s'.recorder = s.recorder)
    (hnow : s.now ≤ s'.now) (hleft : ∀ d, (s.legs d).worker.left → (s'.legs d).worker.left) :
    Noted s' where
  length := hrecorder ▸ h.length
  bytes := hrecorder ▸ h.bytes
  within := hrecorder ▸ h.within
  now event he := (h.now event (hrecorder ▸ he)).trans (offsetAt_mono hnow)
  sorted := hrecorder ▸ h.sorted
  chunk := hrecorder ▸ h.chunk
  last d := by
    rw [State.noted, hrecorder]
    exact h.last d
  ended d := by
    rw [State.noted, hrecorder]
    exact fun hempty => hleft d (h.ended d hempty)

/-- What holds of the recorder holds when a chunk is noted. -/
theorem Noted.note {chunk : List UInt8} {recorder : Recorder} (h : Noted s)
    (hw : (s.legs d).worker = .recording chunk) (hchunk : chunk.length ≤ bufferBytes)
    (hrecord : s.recorder.record s.now d.channel chunk = .ok recorder) :
    Noted (({ s with recorder } : State).go d
      (if chunk = [] then .ending .write (.ok ()) else .forwarding chunk)) := by
  obtain ⟨hlength, hbytes, rfl⟩ := record_eq_ok.1 hrecord
  -- The worker was in its loop, so the end of its source is not noted yet.
  have hopen : ∀ event ∈ s.noted d, event.2.2 ≠ [] := by
    intro event he hempty
    have hleft := h.ended d ⟨event, he, hempty⟩
    rw [hw] at hleft
    exact hleft
  constructor
  · simp only [State.go, State.set, List.length_append, List.length_singleton]
    omega
  · simp only [State.go, State.set, h.bytes, List.map_append, List.map_cons, List.map_nil,
      List.sum_append, List.sum_singleton]
  · exact hbytes
  · intro event he
    rcases List.mem_append.1 he with he | he
    · exact h.now event he
    · rw [List.mem_singleton.1 he]
      exact le_rfl
  · simp only [State.go, State.set, List.map_append, List.map_cons, List.map_nil]
    refine List.pairwise_append.2 ⟨h.sorted, List.pairwise_singleton _ _, ?_⟩
    intro offset hoffset offset' hoffset'
    obtain ⟨event, he, rfl⟩ := List.mem_map.1 hoffset
    rw [List.mem_singleton.1 hoffset']
    exact h.now event he
  · intro event he
    rcases List.mem_append.1 he with he | he
    · exact h.chunk event he
    · rw [List.mem_singleton.1 he]
      exact ⟨⟨d, rfl⟩, hchunk⟩
  · intro d'
    simp only [State.go, State.set, State.noted, List.filter_append]
    by_cases hd : d' = d
    · subst hd
      rw [List.filter_cons_of_pos (by simp), List.filter_nil, List.dropLast_concat]
      exact hopen
    · have hne : d.channel ≠ d'.channel := fun heq => hd (channel_injective heq).symm
      rw [List.filter_cons_of_neg (by simpa using hne), List.filter_nil, List.append_nil]
      exact h.last d'
  · intro d'
    simp only [State.go, State.set, State.noted, List.filter_append]
    by_cases hd : d' = d
    · subst hd
      rw [List.filter_cons_of_pos (by simp), List.filter_nil, Function.update_self]
      rintro ⟨event, he, hempty⟩
      rcases List.mem_append.1 he with he | he
      · exact absurd hempty (hopen event he)
      · rw [List.mem_singleton.1 he] at hempty
        rw [if_pos hempty]
        exact True.intro
    · have hne : d.channel ≠ d'.channel := fun heq => hd (channel_injective heq).symm
      rw [List.filter_cons_of_neg (by simpa using hne), List.filter_nil, List.append_nil,
        Function.update_of_ne hd]
      exact h.ended d'

theorem step_noted (hcarries : ∀ d, (s.legs d).Carries (s.recorded d)) (h : Noted s)
    (hstep : step t deadline s (d, env) = some s') : Noted s' := by
  have hat : Noted (s.at env.elapsed) :=
    h.of_recorder_eq rfl (Nat.le_add_right _ _) fun _ hleft => hleft
  have hleft : ∀ d', ((s.at env.elapsed).legs d').worker.left → (s'.legs d').worker.left :=
    fun _ hleft => step_left (s := s) hstep hleft
  cases advanced hstep with
  | note chunk hw hrecord =>
    have hd := hcarries d
    rw [Leg.Carries, show (s.legs d).worker = .recording chunk from hw] at hd
    exact hat.note hw hd.2.2.1 hrecord
  | fail | limit | check | leave | enter | take | retry | refuse | full | give | giveLess | quit
  | report | tell | shut => exact hat.of_recorder_eq rfl le_rfl hleft

/-- What the recorder keeps, and where the bytes are, is kept together. -/
theorem run_keeps {moves : List (Direction × Env)} (hrun : run t deadline moves = some s) :
    (∀ d, (s.legs d).Carries (s.recorded d)) ∧ Noted s := by
  refine Machine.run_invariant (I := fun s => (∀ d, (s.legs d).Carries (s.recorded d)) ∧ Noted s)
    (fun s move s' h hstep => ⟨step_carries h.1 hstep, step_noted h.1 h.2 hstep⟩) hrun
    ⟨fun d => ⟨rfl, rfl, rfl⟩, ?_⟩
  constructor <;> simp [State.new, Recorder.new, State.noted, maxEvents, maxBytes]

/-- **What is noted stays within the limits of the recorder** and in the order of time, every event
is a chunk of one direction, and the end of a source is noted once, behind all its bytes. -/
theorem run_noted {moves : List (Direction × Env)} (hrun : run t deadline moves = some s) :
    Noted s :=
  (run_keeps hrun).2

theorem run_noted_hangUp :
    ∃ s, run plainTexts 1000000 hangUp = some s ∧
      s.recorder.events = [(5, "N>", [0xd7, 0, 1]), (11, "N<", [])] ∧ Noted s := by
  have hevents : (run plainTexts 1000000 hangUp).map (fun s => s.recorder.events) =
      some [(5, "N>", [0xd7, 0, 1]), (11, "N<", [])] := by
    decide +kernel
  obtain ⟨s, hrun, hs⟩ := Option.map_eq_some_iff.1 hevents
  exact ⟨s, hrun, hs, run_noted hrun⟩

/-! ### The end of the proxy -/

/-- How many steps a worker takes at most once it has been told to stop. -/
def Worker.rank : Worker → ℕ
  | .reading => 6
  | .recording _ | .starting => 5
  | .forwarding _ | .limiting => 4
  | .checking | .refused _ => 3
  | .ending .. => 2
  | .closing .. => 1
  | .done _ => 0

theorem rank_le (w : Worker) : w.rank ≤ 6 := by
  cases w <;> simp [Worker.rank]

theorem rank_eq_zero {w : Worker} : w.rank = 0 ↔ ∃ result, w = .done result := by
  cases w <;> simp [Worker.rank]

/-- The workers leave their loops when they come to its head. -/
def Stopping (deadline : Time) (s : State) : Prop := s.stop = true ∨ deadline ≤ s.now

theorem step_legs_ne (hstep : step t deadline s (d, env) = some s') (hd : d' ≠ d) :
    s'.legs d' = s.legs d' := by
  cases advanced hstep <;> simp only [State.go, set_legs_ne hd, State.at]

theorem step_stopping (hstep : step t deadline s (d, env) = some s') (h : Stopping deadline s) :
    Stopping deadline s' := by
  have hat : Stopping deadline (s.at env.elapsed) := by
    rcases h with h | h
    · exact .inl h
    · exact .inr (h.trans (Nat.le_add_right _ _))
  cases advanced hstep with
  | tell => exact .inl rfl
  | fail | limit | check | leave | enter | take | retry | refuse | note | full | give | giveLess
  | quit | report | shut => exact hat

theorem step_rank (hstep : step t deadline s (d, env) = some s') (h : Stopping deadline s) :
    (s'.legs d).worker.rank < (s.legs d).worker.rank := by
  change _ < ((s.at env.elapsed).legs d).worker.rank
  cases advanced hstep with
  | enter hw hstop hnow =>
    -- The head of the loop is left while stopping.
    rcases h with h | h
    · exact absurd h (by simpa [State.at] using hstop)
    · exact absurd (h.trans (Nat.le_add_right _ env.elapsed)) (not_le.2 hnow)
  | fail message hw =>
    rcases hw with hw | hw <;> rw [hw] <;> simp [State.go, Worker.rank]
  | note chunk hw =>
    rw [hw]
    simp only [State.go, set_legs_self]
    split_ifs <;> simp [Worker.rank]
  | limit hw | check hw | leave hw | take chunk hw | retry hw | refuse message hw
  | full chunk how message hw | give chunk hw | giveLess chunk n message hw | quit message hw
  | report message hw | tell how result hw | shut how result hw =>
    rw [hw]
    simp [State.go, Worker.rank]

theorem step_isSome (h : (s.legs d).worker.rank ≠ 0) (env : Env) :
    (step t deadline s (d, env)).isSome = true := by
  rw [step]
  simp only [advance]
  cases hw : (s.legs d).worker with
  | done result =>
    rw [hw] at h
    exact absurd rfl h
  | ending | closing => rfl
  | starting | limiting | checking | reading | recording | forwarding | refused =>
    simp only
    split <;> first | rfl | (split <;> rfl)

/-- A worker that has returned has told the other one to stop, unless it has not begun to read. -/
structure Leg.Told (leg : Leg) (stop : Bool) : Prop where
  /-- A worker that closes has told the other one to stop. -/
  closing : ∀ how result, leg.worker = .closing how result → stop = true
  /-- And so has one that is done, unless it never took anything. -/
  done : ∀ result, leg.worker = .done result → stop = true ∨ leg.taken = []
  /-- One that has not begun has taken nothing. -/
  starting : leg.worker = .starting ∨ leg.worker = .limiting → leg.taken = []

theorem Leg.Told.mono {stop : Bool} (h : leg.Told stop) : leg.Told true where
  closing _ _ _ := rfl
  done _ _ := .inl rfl
  starting := h.starting

theorem step_told (h : ∀ d, (s.legs d).Told s.stop) (hstep : step t deadline s (d, env) = some s') :
    ∀ d', (s'.legs d').Told s'.stop := by
  intro d'
  change ∀ d, ((s.at env.elapsed).legs d).Told (s.at env.elapsed).stop at h
  by_cases hd : d' = d
  · subst hd
    have hself := h d'
    cases advanced hstep with
    | fail message hw => constructor <;> simp [State.go, hself.starting hw]
    | limit hw => constructor <;> simp [State.go, hself.starting (.inl hw)]
    | note chunk hw hrecord =>
      simp only [State.go, set_legs_self]
      constructor <;> split_ifs <;> simp
    | quit message hw hstop =>
      constructor <;> simp only [State.go, set_legs_self]
      · simp
      · exact fun _ _ => .inl hstop
      · simp
    | shut how result hw =>
      have hstop := hself.closing how result hw
      constructor <;> simp only [set_legs_self]
      · simp
      · exact fun _ _ => .inl hstop
      · simp
    | tell how result hw => constructor <;> simp [State.go, State.set]
    | check | leave | enter | take | retry | refuse | full | give | giveLess | report =>
      constructor <;> simp [State.go]
  · -- The other worker is where it was, and the flag is only ever set.
    have hlegs : s'.legs d' = (s.at env.elapsed).legs d' := step_legs_ne (s := s) hstep hd
    rw [hlegs]
    cases advanced hstep with
    | tell => exact (h d').mono
    | fail | limit | check | leave | enter | take | retry | refuse | note | full | give | giveLess
    | quit | report | shut => exact h d'

/-- The end of the worker of a direction, from a state on. -/
structure WindsDown (t : Texts) (deadline : Time) (s : State) (d : Direction) : Prop where
  /-- A worker that returns after it has read tells the other one to stop. -/
  told : ∀ result, (s.legs d).worker = .done result → s.stop = true ∨ (s.legs d).taken = []
  /-- A worker that has not returned can go on. -/
  goes : (∀ result, (s.legs d).worker ≠ .done result) →
    ∀ env, (step t deadline s (d, env)).isSome = true
  /-- Once it has to stop, it has returned after six steps at most. -/
  ends : s.stop = true ∨ deadline ≤ s.now → ∀ moves s',
    Machine.run (step t deadline) s moves = some s' →
      (moves.filter fun move => move.1 = d).length ≤ 6 ∧
        ((moves.filter fun move => move.1 = d).length = 6 →
          ∃ result, (s'.legs d).worker = .done result)

/-- **The proxy ends**: a worker that has read and returned has told the other one to stop; once a
worker is told so, or the deadline has passed, it returns within six steps of its own, however the
steps of the other one fall between them. -/
theorem run_winds_down {moves : List (Direction × Env)} (hrun : run t deadline moves = some s)
    (d : Direction) : WindsDown t deadline s d := by
  have htold : ∀ d, (s.legs d).Told s.stop := by
    refine Machine.run_invariant (I := fun s => ∀ d, (s.legs d).Told s.stop)
      (fun s move s' h hstep => step_told h hstep) hrun fun d => ?_
    constructor <;> simp [State.new, Leg.new]
  refine ⟨(htold d).done, fun hdone env => step_isSome ?_ env, fun hstop moves' s' hrest => ?_⟩
  · rw [Ne, rank_eq_zero]
    rintro ⟨result, hw⟩
    exact hdone result hw
  · -- Each step of the worker brings it nearer to its end; those of the other one do not change it.
    have hcount := Machine.run_count (I := Stopping deadline)
      (fun s => (s.legs d).worker.rank) (fun move => move.1 = d)
      (fun s move s' h hs => step_stopping hs h)
      (fun s move s' h hs hmine => by
        obtain rfl : move.1 = d := by simpa using hmine
        exact step_rank hs h)
      (fun s move s' h hs => by
        by_cases hd : d = move.1
        · subst hd
          exact (step_rank hs h).le
        · rw [step_legs_ne hs hd])
      hrest hstop
    have hrank := rank_le (s.legs d).worker
    refine ⟨by omega, fun hsix => rank_eq_zero.1 (by omega)⟩

/-- The console has hung up, and the client is at the head of its loop. -/
theorem run_winds_down_hangUp :
    ∃ s, run plainTexts 1000000 (hangUp.take 13) = some s ∧ s.stop = true ∧
      WindsDown plainTexts 1000000 s .clientToConsole := by
  have hstop : (run plainTexts 1000000 (hangUp.take 13)).map (fun s => s.stop) = some true := by
    decide +kernel
  obtain ⟨s, hrun, hs⟩ := Option.map_eq_some_iff.1 hstop
  exact ⟨s, hrun, hs, run_winds_down hrun .clientToConsole⟩

end Proxy

end Wingcapture

end LibWing
