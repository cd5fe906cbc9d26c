import LibWing.Console.Fenced

/-!
# Bad values keep the framing

A string that is not UTF-8 and a definition whose body is none are refused after their last byte, so
the response after them is read as if they had been good.

* `Yields` : a parser takes exactly some bytes and returns or fails, as given;
* `WireDef`, `WireResponse` : a framed definition and a framed response, with any bytes for its
  strings and bodies;
* `WireResponse.outcome`, `outcomes` : what reading makes of one response, and of a sequence;
* `runCalls_framed` : reading a sequence, however the transport cuts it and wherever reads run out
  of time.
-/

namespace LibWing

open Stateful

/-! ### Parsers that take some bytes and return or fail -/

/-- `x` takes exactly `bytes` and ends with `r`, with the node id going from `id` to `id'`. -/
def Yields {α : Type} (x : EStateM Error Stream α) (bytes : List UInt8) (id : Int32)
    (r : Except Error α) (id' : Int32) : Prop :=
  ∀ rest n, n + bytes.length ≤ maxNativeResponseBytes →
    Stateful.outcome x ⟨bytes.map audioSymbol ++ rest, id, n⟩ = (r, ⟨rest, id', n + bytes.length⟩)

namespace Yields

variable {α β : Type} {x : EStateM Error Stream α} {f : α → EStateM Error Stream β}
  {b₁ b₂ : List UInt8} {id id₁ id₂ : Int32} {a : α} {r : Except Error β} {e : Error}

theorem of_takes (h : Takes 0 x b₁ id true a id₁) : Yields x b₁ id (.ok a) id₁ := by
  intro rest n hn
  have hx := h rest n (Nat.zero_le n) (by omega)
  rw [if_pos ⟨hn, rfl⟩] at hx
  rw [Stateful.outcome, hx]

theorem throw (e : Error) (id : Int32) :
    Yields (MonadExcept.throw e : EStateM Error Stream α) [] id (.error e) id := fun _ _ _ => rfl

theorem pure (a : α) (id : Int32) :
    Yields (Pure.pure a : EStateM Error Stream α) [] id (.ok a) id := fun _ _ _ => rfl

theorem bind (hx : Yields x b₁ id (.ok a) id₁) (hf : Yields (f a) b₂ id₁ r id₂) :
    Yields (x >>= f) (b₁ ++ b₂) id r id₂ := by
  intro rest n hn
  rw [List.length_append] at hn
  have h₁ := hx (b₂.map audioSymbol ++ rest) n (by omega)
  have h₂ := hf rest (n + b₁.length) (by omega)
  rw [List.map_append, List.append_assoc, List.length_append, ← Nat.add_assoc, ← h₂]
  exact outcome_bind_ok h₁

/-- A program that takes nothing after `x`. -/
theorem bind_nil (hx : Yields x b₁ id (.ok a) id₁) (hf : Yields (f a) [] id₁ r id₂) :
    Yields (x >>= f) b₁ id r id₂ := by
  have h := hx.bind hf
  rwa [List.append_nil] at h

theorem bind_error (hx : Yields x b₁ id (.error e) id₁) :
    Yields (x >>= f) b₁ id (.error e) id₁ := fun rest n hn => outcome_bind_error (hx rest n hn)

theorem badString {bytes : List UInt8} (h : fromUtf8 bytes = none) (id : Int32) :
    Yields (Stream.source.readString bytes.length) bytes id (.error .invalidData) id := by
  refine (of_takes (Takes.readBytes bytes id)).bind_nil ?_
  rw [h]
  exact throw .invalidData id

/-- A token from its opcode and the rest. -/
theorem readToken {cmd : UInt8} {bytes : List UInt8} {r : Except Error (Option WingResponse)}
    (h : Yields (Stream.source.token cmd) bytes id r id₁) :
    Yields Stream.source.readToken (cmd :: bytes) id r id₁ :=
  (of_takes (Takes.next cmd id)).bind h

end Yields

/-! ### Tokens -/

theorem yields_badToken {t : ReplyToken} (h : t.isUtf8 = false) (id : Int32) :
    Yields Stream.source.readToken t.bytes id (.error .invalidData) (t.nodeId id) := by
  obtain ⟨cmd, payload, hframed⟩ := t
  unfold ReplyToken.isUtf8 ReplyToken.text at h
  unfold ReplyToken.bytes ReplyToken.nodeId ReplyToken.selects
  unfold LibWing.framed at hframed
  refine Yields.readToken ?_
  cases hop : Opcode.ofByte cmd with
  | shortString =>
    simp only [hop, decide_eq_true_eq] at hframed h ⊢
    simp only [Source.token, hop, ← hframed]
    exact (Yields.badString (Option.isNone_iff_eq_none.1 (Option.isSome_eq_false_iff.1 h))
      id).bind_error
  | longString =>
    simp only [hop] at hframed h ⊢
    cases payload with
    | nil => cases hframed
    | cons len bytes =>
      simp only [decide_eq_true_eq, List.tail_cons] at hframed h
      have htext := Yields.badString (Option.isNone_iff_eq_none.1
        (Option.isSome_eq_false_iff.1 h)) id
      rw [hframed] at htext
      simp only [Source.token, hop]
      exact (Yields.of_takes (Takes.readU8 len id)).bind htext.bind_error
  | _ =>
    simp only [hop] at h
    cases h

/-- What the parser makes of a token. -/
def ReplyToken.outcome (t : ReplyToken) (id : Int32) : Result (Option WingResponse) :=
  if t.isUtf8 then .ok (t.response id) else .error .invalidData

theorem yields_token (t : ReplyToken) (id : Int32) :
    Yields Stream.source.readToken t.bytes id (t.outcome id) (t.nodeId id) := by
  unfold ReplyToken.outcome
  cases hutf8 : t.isUtf8 with
  | true =>
    have htakes := takes_readToken 0 t id
    rw [hutf8] at htakes
    exact Yields.of_takes htakes
  | false => exact yields_badToken hutf8 id

theorem ReplyToken.isUtf8_of_value {t : ReplyToken} (h : t.value = none) : t.isUtf8 = true := by
  obtain ⟨cmd, payload, hframed⟩ := t
  unfold ReplyToken.value at h
  unfold ReplyToken.isUtf8 ReplyToken.text
  unfold LibWing.framed at hframed
  cases hop : Opcode.ofByte cmd with
  | shortString =>
    simp only [hop] at h
    cases h
  | longString =>
    simp only [hop] at h hframed
    cases payload with
    | nil => cases hframed
    | cons len bytes => cases h
  | _ => simp only

/-! ### Responses -/

/-- A framed definition: a body of 1 byte to 1 MiB, with its length in sixteen bits, or in
thirty-two bits after a zero. -/
structure WireDef where
  /-- The length is written with 32 bits. -/
  wide : Bool
  /-- The bytes of the definition. -/
  body : List UInt8
  /-- It is not empty. -/
  pos : body ≠ []
  /-- It is not too long. -/
  max : body.length ≤ maxNodeDefBytes
  /-- A short length has 16 bits. -/
  fits : wide = true ∨ body.length ≤ 65535

namespace WireDef

/-- The declared length. -/
def length (d : WireDef) : List UInt8 :=
  if d.wide then BigEndian.toBe16 0 ++ BigEndian.toBe32 (UInt32.ofNat d.body.length)
  else BigEndian.toBe16 (UInt16.ofNat d.body.length)

/-- The definition on the wire, before escaping. -/
def bytes (d : WireDef) : List UInt8 := 0xdf :: d.length ++ d.body

theorem reads_length (d : WireDef) (id : Int32) :
    ∃ n : UInt32, Reads Stream.source.readDefLength d.length id n id ∧ n.toNat = d.body.length := by
  have hmax : maxNodeDefBytes = 1048576 := rfl
  have hle := d.max
  have hpos : 0 < d.body.length := List.length_pos_of_ne_nil d.pos
  unfold length
  split_ifs with hwide
  · refine ⟨UInt32.ofNat d.body.length, (Reads.readU16 _ _ id).bind ?_, ?_⟩
    · rw [BigEndian.fromBe16_toBe16, if_pos rfl]
      have h := Reads.readU32 (UInt32.ofNat d.body.length >>> 24).toUInt8
        (UInt32.ofNat d.body.length >>> 16).toUInt8 (UInt32.ofNat d.body.length >>> 8).toUInt8
        (UInt32.ofNat d.body.length).toUInt8 id
      rw [BigEndian.fromBe32_toBe32] at h
      exact h
    · rw [UInt32.toNat_ofNat']
      omega
  · have hshort := d.fits.resolve_left hwide
    refine ⟨(UInt16.ofNat d.body.length).toUInt32, (Reads.readU16 _ _ id).bind_nil ?_, ?_⟩
    · have hne : ¬ UInt16.ofNat d.body.length = 0 := by
        intro h
        have hz := congrArg UInt16.toNat h
        rw [UInt16.toNat_ofNat'] at hz
        change d.body.length % 65536 = 0 at hz
        omega
      rw [BigEndian.fromBe16_toBe16, if_neg hne]
      exact Reads.pure _ id
    · rw [UInt16.toNat_toUInt32, UInt16.toNat_ofNat']
      omega

/-- What the parser makes of a definition. -/
def outcome (d : WireDef) : Result WingResponse :=
  match WingNodeDef.fromBytes d.body with
  | .ok def' => .ok (.nodeDef def')
  | .error _ => .error .invalidData

end WireDef

/-- The token that ends a response: what `read` returns or refuses. -/
inductive LastToken where
  | value (t : ReplyToken) (h : t.value.isSome = true)
  | requestEnd
  | nodeDef (d : WireDef)

/-- A framed response: navigation and node selectors, and the token that is the response. -/
structure WireResponse where
  /-- Tokens that carry no value. -/
  quiet : List ReplyToken
  /-- They only navigate. -/
  isQuiet : ∀ t ∈ quiet, t.value = none
  /-- The token that ends the response. -/
  last : LastToken

/-- The last token on the wire, before escaping. -/
def LastToken.bytes : LastToken → List UInt8
  | value t _ => t.bytes
  | requestEnd => [0xde]
  | nodeDef d => d.bytes

/-- What reading makes of the last token, when node `id` is the current one. -/
def LastToken.outcome (id : Int32) : LastToken → Result WingResponse
  | value t h =>
    if t.isUtf8 then .ok (.nodeData id (t.value.get h).received) else .error .invalidData
  | requestEnd => .ok .requestEnd
  | nodeDef d => d.outcome

/-- The current node after some tokens. -/
def nodeIdAfter (id : Int32) (tokens : List ReplyToken) : Int32 :=
  tokens.foldl (fun id t => t.nodeId id) id

theorem nodeId_value {t : ReplyToken} (h : t.value.isSome = true) (id : Int32) :
    t.nodeId id = id := by
  unfold ReplyToken.nodeId ReplyToken.selects
  unfold ReplyToken.value at h
  cases hop : Opcode.ofByte t.cmd with
  | nodeId =>
    simp only [hop] at h
    cases h
  | _ => simp only [Option.getD_none]

namespace WireResponse

/-- The response on the wire, before escaping. -/
def bytes (r : WireResponse) : List UInt8 := r.quiet.flatMap ReplyToken.bytes ++ r.last.bytes

/-- The current node after the response. -/
def nodeId (r : WireResponse) (id : Int32) : Int32 := nodeIdAfter id r.quiet

/-- What reading makes of the response, when node `id` was the current one before it. -/
def outcome (r : WireResponse) (id : Int32) : Result WingResponse := r.last.outcome (r.nodeId id)

end WireResponse

/-- A response is within the reader's limit unless it is drowned in navigation. -/
theorem WireResponse.length_le (r : WireResponse) (h : r.quiet.length ≤ 60000) :
    r.bytes.length ≤ maxNativeResponseBytes := by
  have hmax : maxNativeResponseBytes = 16777216 := rfl
  have hquiet : ∀ tokens : List ReplyToken,
      (tokens.flatMap ReplyToken.bytes).length ≤ 258 * tokens.length := by
    intro tokens
    induction tokens with
    | nil => exact le_rfl
    | cons t tokens ih =>
      have hlen := framed_length t.framed
      simp only [List.flatMap_cons, List.length_append, List.length_cons, ReplyToken.bytes]
      omega
  have hlast : r.last.bytes.length ≤ 1048583 := by
    cases r.last with
    | value t ht =>
      have hlen := framed_length t.framed
      simp only [LastToken.bytes, ReplyToken.bytes, List.length_cons]
      omega
    | requestEnd =>
      simp only [LastToken.bytes, List.length_singleton]
      omega
    | nodeDef d =>
      have hbody : d.body.length ≤ 1048576 := d.max
      have hlen : d.length.length ≤ 6 := by
        unfold WireDef.length
        split_ifs <;> simp
      simp only [LastToken.bytes, WireDef.bytes, List.cons_append, List.length_cons,
        List.length_append]
      omega
  have := hquiet r.quiet
  rw [WireResponse.bytes, List.length_append]
  omega

theorem yields_last (last : LastToken) (id : Int32) :
    Yields Stream.source.readToken last.bytes id ((last.outcome id).map some) id := by
  have hop : Opcode.ofByte 0xdf = .nodeDef := by decide
  cases last with
  | value t h =>
    have ht := yields_token t id
    rw [nodeId_value h] at ht
    have hout : t.outcome id = ((LastToken.value t h).outcome id).map some := by
      unfold ReplyToken.outcome LastToken.outcome ReplyToken.response
      obtain ⟨v, hv⟩ := Option.isSome_iff_exists.1 h
      simp only [hv]
      split_ifs <;> rfl
    rw [← hout]
    exact ht
  | requestEnd => exact Yields.of_takes (takes_requestEnd 0 id)
  | nodeDef d =>
    obtain ⟨n, hread, hn⟩ := d.reads_length id
    have hlength : Yields Stream.source.readDefLength d.length id (.ok n) id := by
      intro rest k hk
      rw [Stateful.outcome, hread rest k hk]
    refine Yields.readToken ?_
    simp only [Source.token, hop]
    refine hlength.bind ?_
    rw [if_neg (by rw [hn]; exact Nat.not_lt.2 d.max), hn]
    refine (Yields.of_takes (Takes.readBytes d.body id)).bind_nil ?_
    change Yields _ [] id (d.outcome.map some) id
    unfold WireDef.outcome
    cases hbody : WingNodeDef.fromBytes d.body with
    | ok def' => exact Yields.pure _ id
    | error e =>
      rw [WingNodeDef.fromBytes_error hbody]
      exact Yields.throw .invalidData id

/-- Tokens that are no response are passed over.  The induction is on these tokens. -/
theorem readInner_quiet {quiet : List ReplyToken} (h : ∀ t ∈ quiet, t.value = none) (fuel : ℕ)
    (id : Int32) (rest : List (Except Error Decoded)) (n : ℕ)
    (hn : n + (quiet.flatMap ReplyToken.bytes).length ≤ maxNativeResponseBytes) :
    Stateful.outcome (Stream.source.readInner (quiet.length + fuel))
        ⟨(quiet.flatMap ReplyToken.bytes).map audioSymbol ++ rest, id, n⟩ =
      Stateful.outcome (Stream.source.readInner fuel)
        ⟨rest, nodeIdAfter id quiet, n + (quiet.flatMap ReplyToken.bytes).length⟩ := by
  induction quiet generalizing id n with
  | nil =>
    rw [List.length_nil, Nat.zero_add]
    rfl
  | cons t quiet ih =>
    obtain ⟨hvalue, hquiet⟩ := List.forall_mem_cons.1 h
    rw [List.flatMap_cons, List.length_append] at hn
    have ht : Yields Stream.source.readToken t.bytes id (.ok none) (t.nodeId id) := by
      have h := yields_token t id
      unfold ReplyToken.outcome ReplyToken.response at h
      rwa [ReplyToken.isUtf8_of_value hvalue, hvalue] at h
    have hread := ht ((quiet.flatMap ReplyToken.bytes).map audioSymbol ++ rest) n (by omega)
    rw [List.length_cons, Nat.add_right_comm, List.flatMap_cons, List.map_append,
      List.append_assoc, List.length_append, ← Nat.add_assoc]
    refine (outcome_bind_ok hread).trans ?_
    exact ih hquiet (t.nodeId id) (n + t.bytes.length) (by omega)

/-- **A response is read up to its last byte**, whether it is returned or refused. -/
theorem yields_readInner (r : WireResponse) {fuel : ℕ} (hfuel : r.quiet.length < fuel)
    (id : Int32) :
    Yields (Stream.source.readInner fuel) r.bytes id (r.outcome id) (r.nodeId id) := by
  intro rest n hn
  obtain ⟨fuel, rfl⟩ := Nat.exists_eq_add_of_lt hfuel
  have hlast : Yields (Stream.source.readInner (fuel + 1)) r.last.bytes (r.nodeId id)
      (r.outcome id) (r.nodeId id) := by
    have htoken := yields_last r.last (r.nodeId id)
    unfold WireResponse.outcome
    cases hout : r.last.outcome (r.nodeId id) with
    | ok response =>
      rw [hout] at htoken
      exact Yields.bind_nil (a := some response) htoken (Yields.pure response _)
    | error e =>
      rw [hout] at htoken
      exact Yields.bind_error htoken
  rw [WireResponse.bytes, List.length_append] at hn
  rw [WireResponse.bytes, List.map_append, List.append_assoc, List.length_append, ← Nat.add_assoc,
    Nat.add_assoc r.quiet.length, readInner_quiet r.isQuiet _ id _ n (by omega)]
  exact hlast rest _ (by omega)

/-! ### Sequences of responses -/

theorem length_le_flatMap_bytes (tokens : List ReplyToken) :
    tokens.length ≤ (tokens.flatMap ReplyToken.bytes).length := by
  induction tokens with
  | nil => exact le_rfl
  | cons t tokens ih =>
    simp only [List.flatMap_cons, List.length_append, List.length_cons, ReplyToken.bytes]
    omega

theorem read_framed {r : WireResponse} (hfits : r.bytes.length ≤ maxNativeResponseBytes)
    (rest : List (Except Error Decoded)) (id : Int32) :
    Stateful.outcome Stream.read ⟨r.bytes.map audioSymbol ++ rest, id, 0⟩ =
      (r.outcome id, ⟨rest, r.nodeId id, 0⟩) := by
  have hlen := length_le_flatMap_bytes r.quiet
  have hbytes : r.bytes.length = (r.quiet.flatMap ReplyToken.bytes).length +
      r.last.bytes.length := by
    rw [WireResponse.bytes, List.length_append]
  exact Stream.outcome_read (s := ⟨r.bytes.map audioSymbol ++ rest, id, 0⟩)
    (yields_readInner r (by omega) id rest 0 (by omega))

/-- What reading makes of a sequence of responses, one read after the other. -/
def outcomes (id : Int32) : List WireResponse → List (Result WingResponse)
  | [] => []
  | r :: rs => r.outcome id :: outcomes (r.nodeId id) rs

/-- The current node after a sequence of responses. -/
def lastNodeId (id : Int32) (rs : List WireResponse) : Int32 :=
  rs.foldl (fun id r => r.nodeId id) id

theorem length_outcomes (id : Int32) (rs : List WireResponse) :
    (outcomes id rs).length = rs.length := by
  induction rs generalizing id with
  | nil => rfl
  | cons r rs ih => rw [outcomes, List.length_cons, List.length_cons, ih]

/-- Reading a sequence takes all of it, and goes on with what follows. -/
theorem reads_framed {rs : List WireResponse}
    (hfits : ∀ r ∈ rs, r.bytes.length ≤ maxNativeResponseBytes)
    (rest : List (Except Error Decoded)) (id : Int32) (k : ℕ) :
    Stream.reads (rs.length + k) ⟨(rs.flatMap WireResponse.bytes).map audioSymbol ++ rest, id, 0⟩ =
      (outcomes id rs ++ (Stream.reads k ⟨rest, lastNodeId id rs, 0⟩).1,
        (Stream.reads k ⟨rest, lastNodeId id rs, 0⟩).2) := by
  induction rs generalizing id with
  | nil =>
    rw [List.length_nil, Nat.zero_add]
    rfl
  | cons r rs ih =>
    have hread := read_framed (hfits r List.mem_cons_self)
      ((rs.flatMap WireResponse.bytes).map audioSymbol ++ rest) id
    rw [List.flatMap_cons, List.map_append, List.append_assoc, List.length_cons,
      Nat.add_right_comm, Stream.reads, hread]
    simp only [ih (fun r' h => hfits r' (List.mem_cons_of_mem _ h)) (r.nodeId id)]
    rfl

theorem reads_take (n k : ℕ) (s : Stream) :
    (Stream.reads n s).1 = (Stream.reads (n + k) s).1.take n := by
  induction n generalizing s with
  | zero => rfl
  | succ n ih =>
    rw [Nat.add_right_comm, Stream.reads, Stream.reads]
    simp only [List.take_succ_cons, ih (Stateful.outcome Stream.read s).2]

/-- The stream behind the framing of escaped bytes, and of what follows them. -/
theorem decodeSymbols_escapeBytes (bytes : List UInt8) (more : List (Except Error UInt8)) :
    decodeSymbols (.on audioEngineChannel) ((escapeBytes bytes).map .ok ++ more) =
      bytes.map audioSymbol ++ decodeSymbols (.on audioEngineChannel) more := by
  rw [decodeSymbols_push_append (ChannelDecoder.push_escapeBytes audioEngineChannel bytes),
    ← audioBytes_data]
  rfl

namespace Console

/-- **A bad value does not desynchronise the stream.**  Take any sequence of framed responses, each
no longer than a response may be, some of them with strings that are not UTF-8 or with bodies that
are no definition, in an undisturbed session over any transport that brings them, however it cuts
them and whatever follows.  Whatever calls are made and wherever they run out of time, the calls
that complete return the outcomes of the responses in order: one `InvalidData` in the place of each
bad one, and every other one as it is and with its node id.  Plain reads all complete. -/
theorem runCalls_framed (rs : List WireResponse)
    (hfits : ∀ r ∈ rs, r.bytes.length ≤ maxNativeResponseBytes) (w : World) (hw : w.Calm)
    (now : Time) (rsock : List Poll) (more : List (Except Error UInt8))
    (hsock : rawSymbols rsock = (escapeBytes (rs.flatMap WireResponse.bytes)).map .ok ++ more)
    (calls : List ReadCall) :
    let delivered := completed (runCalls w calls (new now rsock)).1
    delivered.take rs.length = (outcomes 0 rs).take delivered.length ∧
      (runCalls w (List.replicate rs.length .read) (new now rsock)).1 = outcomes 0 rs := by
  have hstream : ∀ k, (Stream.reads (rs.length + k) (new now rsock).stream).1 = outcomes 0 rs ++
      (Stream.reads k ⟨decodeSymbols (.on audioEngineChannel) more, lastNodeId 0 rs, 0⟩).1 := by
    intro k
    rw [stream_new, hsock, decodeSymbols_escapeBytes, reads_framed hfits]
  have htake : ∀ {n : ℕ} {l : List (Result WingResponse)} {s : Stream},
      (new now rsock).stream.reads n = (l, s) → l.take rs.length = (outcomes 0 rs).take n := by
    intro n l s h
    have hn := reads_take n rs.length (new now rsock).stream
    rw [h, Nat.add_comm, hstream n] at hn
    change l = _ at hn
    rw [hn, List.take_take, Nat.min_comm, ← List.take_take, ← length_outcomes 0 rs,
      List.take_left]
  refine ⟨htake (runCalls_reads hw calls (idle_new now rsock) rfl).1, ?_⟩
  rcases hrun : runCalls w (List.replicate rs.length .read) (new now rsock) with ⟨l, c⟩
  obtain ⟨hreads, -⟩ := runCalls_reads hw _ (idle_new now rsock) hrun
  obtain ⟨hall, hlen⟩ := runCalls_plain hw _ (idle_new now rsock) hrun
  rw [hall, hlen] at hreads
  have h := htake hreads
  rwa [← hlen, List.take_length, hlen, ← length_outcomes 0 rs, List.take_length] at h

/-- A string that is not UTF-8, a definition of one byte and a good value, cut by a read that runs
out of time. -/
theorem runCalls_framed_bad :
    let rs : List WireResponse :=
      [⟨[⟨0xd7, [0, 0, 0, 7], by decide⟩],
        by decide, .value ⟨0x81, [0xff, 0x41], by decide⟩ (by decide)⟩,
        ⟨[], nofun, .nodeDef ⟨true, [1], nofun, by decide, .inl rfl⟩⟩,
        ⟨[], nofun, .value ⟨5, [], by decide⟩ (by decide)⟩]
    let rsock : List Poll := [.read (.ok [0xd7, 0, 0]), .read (.error .wouldBlock),
      .read (.ok [0, 7, 0x81, 0xff, 0x41, 0xdf, 0xde, 0, 0, 0, 0, 0, 1, 1, 5])]
    let delivered := completed
      (runCalls .steady [.readTimeout 8, .read, .readTimeout 100, .read] (new 0 rsock)).1
    delivered.take 3 = (outcomes 0 rs).take delivered.length ∧
      delivered = [.error .invalidData, .error .invalidData, .ok (.nodeData 7 (.withI32 5))] := by
  intro rs rsock delivered
  have hfits : ∀ r ∈ rs, r.bytes.length ≤ maxNativeResponseBytes := by
    intro r hr
    refine r.length_le ?_
    simp only [rs, List.mem_cons, List.not_mem_nil, or_false] at hr
    rcases hr with rfl | rfl | rfl <;> decide
  refine ⟨(runCalls_framed rs hfits .steady World.steady_calm 0 rsock [] (by decide +kernel)
    [.readTimeout 8, .read, .readTimeout 100, .read]).1, by decide +kernel⟩

end Console

end LibWing
