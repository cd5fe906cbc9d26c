import LibWing.Console.Capture

/-!
# Exact captures

`get_binary_node` is to return the bytes of a reply as they are, whatever they mean.  It takes them
from the parser, which also checks that a string value is UTF-8, and a capture has a largest size.

* `replyBytes` : a reply, up to its end token;
* `takes_drain` : draining a reply takes all of it, or fails;
* `logical_length_le` : a console has no more to read than its budget;
* `exactCapture_iff` : a capture is exact exactly when the strings of the reply are UTF-8 and it is
  not too long.
-/

namespace LibWing

open Stateful

/-- The bytes of a reply: its tokens and the end token. -/
def replyBytes (tokens : List ReplyToken) : List UInt8 := tokens.flatMap ReplyToken.bytes ++ [0xde]

/-! ### Draining a reply -/

namespace Stream

/-- Draining, in the middle of a response that may have `f` more tokens. -/
def drainFrom (f fuel : ℕ) : EStateM Error Stream Unit := do
  match ← source.readInner f with
  | .requestEnd => return ()
  | _ => drain fuel

theorem drain_succ (fuel : ℕ) : drain (fuel + 1) =
    drainFrom (maxNativeResponseBytes + 1) fuel := rfl

/-- One token of a drain. -/
theorem drainFrom_succ (f fuel : ℕ) : drainFrom (f + 1) fuel = (do
    match ← source.readToken with
    | none => drainFrom f fuel
    | some .requestEnd => return ()
    | some _ => drain fuel) := by
  rw [drainFrom, Source.readInner, bind_assoc]
  congr 1
  funext r
  rcases r with _ | _ | _ | _ <;> rfl

end Stream

theorem takes_requestEnd (m : ℕ) (id : Int32) :
    Takes m Stream.source.readToken [0xde] id true (some .requestEnd) id :=
  Takes.readToken (Takes.pure _ id)

/-- Every response of the parser takes a byte, so it is the limit on the bytes that ends a long
response, never the limit on its tokens. -/
theorem takes_drainFrom (tokens : List ReplyToken) {m f fuel : ℕ}
    (hf : maxNativeResponseBytes < m + f) (hfuel : tokens.length ≤ fuel) (id : Int32) :
    ∃ id', Takes m (Stream.drainFrom f fuel) (replyBytes tokens) id
      (tokens.all ReplyToken.isUtf8) () id' := by
  induction tokens generalizing m f fuel id with
  | nil =>
    cases f with
    | zero => exact ⟨id, fun rest n hm hn => by omega⟩
    | succ f =>
      rw [Stream.drainFrom_succ]
      exact ⟨id, (takes_requestEnd m id).bind (Takes.pure () id)⟩
  | cons t tokens ih =>
    cases f with
    | zero => exact ⟨id, fun rest n hm hn => by omega⟩
    | succ f =>
      rw [Stream.drainFrom_succ]
      have hbytes : replyBytes (t :: tokens) = t.bytes ++ replyBytes tokens := by
        rw [replyBytes, List.flatMap_cons, List.append_assoc]
        rfl
      have hlen : 0 < t.bytes.length := Nat.succ_pos _
      rw [List.length_cons] at hfuel
      rw [hbytes, List.all_cons]
      have htoken := takes_readToken m t id
      have hr := t.response_ne_requestEnd id
      cases hresp : t.response id with
      | none =>
        rw [hresp] at htoken
        obtain ⟨id', hrest⟩ := @ih (m + t.bytes.length) f fuel (by omega) (by omega) (t.nodeId id)
        exact ⟨id', htoken.bind hrest⟩
      | some response =>
        -- The next response begins with all of its tokens.
        rw [hresp] at htoken hr
        obtain ⟨fuel, rfl⟩ := Nat.exists_eq_succ_of_ne_zero (Nat.ne_of_gt (Nat.zero_lt_of_lt hfuel))
        obtain ⟨id', hrest⟩ := @ih (m + t.bytes.length) (maxNativeResponseBytes + 1) fuel (by omega)
          (by omega) (t.nodeId id)
        refine ⟨id', htoken.bind ?_⟩
        rw [← Stream.drain_succ] at hrest
        cases response with
        | requestEnd => exact absurd rfl hr
        | nodeDef d => exact hrest
        | nodeData rid data => exact hrest

/-- **Draining a reply** takes all of it if its strings are UTF-8 and it is not too long, and fails
otherwise. -/
theorem takes_drain (tokens : List ReplyToken) {fuel : ℕ} (hfuel : tokens.length < fuel)
    (id : Int32) : ∃ id', Takes 0 (Stream.drain fuel) (replyBytes tokens) id
      (tokens.all ReplyToken.isUtf8) () id' := by
  obtain ⟨fuel, rfl⟩ := Nat.exists_eq_succ_of_ne_zero (Nat.ne_of_gt (Nat.zero_lt_of_lt hfuel))
  rw [Stream.drain_succ]
  exact takes_drainFrom tokens (by omega) (Nat.le_of_lt_succ hfuel) id

theorem length_le_replyBytes (tokens : List ReplyToken) :
    tokens.length < (replyBytes tokens).length := by
  induction tokens with
  | nil => exact Nat.one_pos
  | cons t tokens ih =>
    simp only [replyBytes, List.flatMap_cons, List.length_append, List.length_cons,
      ReplyToken.bytes] at ih ⊢
    omega

/-! ### What a console can still read -/

theorem audioBytes_length (events : List ChannelEvent) :
    (audioBytes events).length ≤ events.length := by
  induction events with
  | nil => exact le_rfl
  | cons event events ih =>
    cases event with
    | selected channel => exact Nat.le_succ_of_le ih
    | data channel value =>
      simp only [audioBytes]
      split_ifs
      · exact Nat.succ_le_succ ih
      · exact Nat.le_succ_of_le ih

theorem decodeSymbols_length (d : ChannelDecoder) (symbols : List (Except Error UInt8)) :
    (decodeSymbols d symbols).length ≤ 2 * symbols.length := by
  induction symbols generalizing d with
  | nil => exact le_rfl
  | cons symbol symbols ih =>
    rw [List.length_cons]
    cases symbol with
    | error e =>
      have := ih d
      rw [decodeSymbols, List.length_cons]
      omega
    | ok byte =>
      have hrest := ih (d.pushByte byte).2
      cases hpush : (d.pushByte byte).1 with
      | error e =>
        rw [decodeSymbols_error hpush, List.length_cons]
        omega
      | ok events =>
        have hevents : (ChannelDecoder.flatten events).length ≤ 2 := by
          rcases events with ⟨_ | _, _ | _⟩ <;> simp [ChannelDecoder.flatten]
        have haudio := audioBytes_length (ChannelDecoder.flatten events)
        rw [decodeSymbols_ok hpush, List.length_append]
        omega

theorem Poll.symbols_length (poll : Poll) : poll.symbols.length ≤ poll.weight := by
  rcases poll with kind | ⟨kind | _ | ⟨byte, bytes⟩⟩
  · exact le_rfl
  · simp only [Poll.symbols, Poll.weight]
    split_ifs <;> simp
  · exact le_rfl
  · simp [Poll.symbols, Poll.weight]

theorem rawSymbols_length (rsock : List Poll) :
    (rawSymbols rsock).length ≤ (rsock.map Poll.weight).sum := by
  induction rsock with
  | nil => exact le_rfl
  | cons poll rsock ih =>
    rw [rawSymbols, List.flatMap_cons, List.length_append, List.map_cons, List.sum_cons]
    exact Nat.add_le_add poll.symbols_length ih

namespace Console

variable {w : World} {c c' : Console}

/-- A console has no more to read than its budget. -/
theorem logical_length_le (c : Console) : c.logical.length ≤ c.budget := by
  have hevents := audioBytes_length c.main.rxEvents
  have hunread := decodeSymbols_length c.main.rxChannels c.unread
  have hraw := rawSymbols_length c.rsock
  have hlen : c.unread.length = c.main.rxBuf.length + (rawSymbols c.rsock).length := by
    rw [Console.unread, List.length_append, List.length_map]
  rw [Console.logical, List.length_append, List.length_append, List.length_map, budget, weight]
  omega

/-! ### Captures -/

/-- The capture does not see its deadline pass. -/
def InTime (w : World) (c : Console) (id : Int32) (timeout : Time) : Prop :=
  ∀ n, c.tick + 1 < n → n < (outcome (getBinaryNode w id timeout) c).2.tick →
    w.now n < w.now (c.tick + 1) + timeout

/-- `get_binary_node` returns the bytes of the reply, all of them and no more: the session can be
read on, earlier responses are in the queue as before and the next byte to be read is the one after
the reply. -/
def ExactCapture (w : World) (c : Console) (id : Int32) (timeout : Time) (reply : List UInt8)
    (tail : List (Except Error Decoded)) : Prop :=
  ∃ c', outcome (getBinaryNode w id timeout) c = (.ok reply, c') ∧ Ready c' ∧
    c'.main.pending = c.main.pending ∧ c'.logical = tail

theorem taken_eq {reply : List UInt8} {tail : List (Except Error Decoded)} {taken : List Decoded}
    (h : taken.map .ok ++ tail = reply.map audioSymbol ++ tail) : taken.map (·.2) = reply := by
  have hsym : taken.map .ok = (reply.map fun byte => ((1, byte) : Decoded)).map
      (.ok : Decoded → Except Error Decoded) := by
    rw [List.append_cancel_right h, List.map_map]
    rfl
  have htaken : taken = reply.map fun byte => (1, byte) :=
    List.map_injective_iff.mpr (fun _ _ => Except.ok.inj) hsym
  rw [htaken, List.map_map]
  exact List.map_id reply

theorem drain_reply {tokens : List ReplyToken} {tail : List (Except Error Decoded)}
    (hreply : c.logical = (replyBytes tokens).map audioSymbol ++ tail) :
    if (replyBytes tokens).length ≤ maxNativeResponseBytes ∧
        tokens.all ReplyToken.isUtf8 = true then
      ∃ s, Stream.drain (c.budget + 1) c.stream = .ok () s ∧ s.symbols = tail
    else ∃ e s, Stream.drain (c.budget + 1) c.stream = .error e s := by
  have hfuel : tokens.length < c.budget + 1 := by
    have hlen := logical_length_le c
    have htokens := length_le_replyBytes tokens
    rw [hreply, List.length_append, List.length_map] at hlen
    omega
  obtain ⟨id', htakes⟩ := takes_drain tokens hfuel c.main.currentNodeId
  have hstream : c.stream = ⟨(replyBytes tokens).map audioSymbol ++ tail,
      c.main.currentNodeId, 0⟩ := by
    rw [stream, hreply]
  have hdrain := htakes tail 0 le_rfl (Nat.zero_le _)
  rw [← hstream, Nat.zero_add] at hdrain
  split_ifs at hdrain ⊢
  · exact ⟨_, hdrain, rfl⟩
  · exact hdrain

theorem exactCapture_of_utf8 (hw : w.Calm) (hc : Ready c) {tokens : List ReplyToken}
    {tail : List (Except Error Decoded)}
    (hreply : c.logical = (replyBytes tokens).map audioSymbol ++ tail) {id : Int32} {timeout : Time}
    (htime : InTime w c id timeout) (hutf8 : ∀ t ∈ tokens, t.isUtf8 = true)
    (hlen : (replyBytes tokens).length ≤ maxNativeResponseBytes) :
    ExactCapture w c id timeout (replyBytes tokens) tail := by
  have hdrain := drain_reply hreply
  rw [if_pos ⟨hlen, List.all_eq_true.mpr hutf8⟩] at hdrain
  obtain ⟨s, hdrain, htail⟩ := hdrain
  rcases (getBinaryNode_drain (w := w) hc id timeout).outcome rfl with
    ⟨bytes, c', ho, hcap⟩ | ⟨e, c', ho, hlost⟩
  · obtain ⟨s', hs, hsym⟩ := hcap.drained
    obtain ⟨taken, rfl, htaken⟩ := hcap.bytes
    rw [hdrain] at hs
    cases hs
    have htail' : c'.logical = tail := hsym.symm.trans htail
    rw [htail', hreply] at htaken
    rw [taken_eq htaken.symm] at ho
    exact ⟨c', ho, hcap.ready, hcap.pending, htail'⟩
  · cases hlost with
    | timeout n _ hn hn' hlate =>
      have hbefore := htime n hn (by rw [ho]; exact hn')
      exact absurd hlate (Nat.not_le_of_lt hbefore)
    | disturbed _ hcalm => exact absurd hw hcalm
    | stream he hs _ =>
      rw [hdrain] at hs
      cases hs

/-- **When a capture is exact.**  For every reply, however the transport cuts and escapes it, that
is the next to be read and arrives in time in an undisturbed session: `get_binary_node` returns
exactly its bytes if and only if each of its strings is UTF-8 and it has at most
`MAX_NATIVE_RESPONSE_BYTES` of them. -/
theorem exactCapture_iff (hw : w.Calm) (hc : Ready c) (tokens : List ReplyToken)
    (tail : List (Except Error Decoded))
    (hreply : c.logical = (replyBytes tokens).map audioSymbol ++ tail) (id : Int32) (timeout : Time)
    (htime : InTime w c id timeout) :
    ExactCapture w c id timeout (replyBytes tokens) tail ↔
      (∀ t ∈ tokens, t.isUtf8 = true) ∧ (replyBytes tokens).length ≤ maxNativeResponseBytes := by
  constructor
  · rintro ⟨c', ho, -⟩
    by_contra hno
    have hdrain := drain_reply hreply
    rw [if_neg fun h => hno ⟨List.all_eq_true.mp h.2, h.1⟩] at hdrain
    obtain ⟨e, s, hdrain⟩ := hdrain
    rcases (getBinaryNode_drain (w := w) hc id timeout).outcome rfl with
      ⟨bytes, c₁, -, hcap⟩ | ⟨e', c₁, ho', -⟩
    · obtain ⟨s', hs, -⟩ := hcap.drained
      rw [hdrain] at hs
      cases hs
    · rw [ho] at ho'
      cases ho'
  · exact fun ⟨hutf8, hlen⟩ => exactCapture_of_utf8 hw hc hreply htime hutf8 hlen

theorem inTime_steady {id : Int32} {timeout : Time}
    (h : (outcome (getBinaryNode .steady id timeout) c).2.tick ≤ c.tick + 1 + timeout) :
    InTime .steady c id timeout :=
  fun _ _ hn => hn.trans_le h

/-- A console with a queued response, and a reply cut inside an escape and inside a string: a
selector, a string and the end; an integer follows. -/
def replyConsole (string : List UInt8) : Console :=
  let c := Console.new 0 [.read (.ok [0xd7, 0, 0, 0, 0xdf]), .read (.error .wouldBlock),
    .read (.ok ([0xde, 0x81] ++ string.take 1)), .read (.ok (string.drop 1 ++ [0xde, 0xd3])),
    .read (.ok [0, 7])]
  { c with main := { c.main with pending := [.nodeData 1 (.withI32 1)] } }

theorem replyConsole_exact :
    let tokens : List ReplyToken := [⟨0xd7, [0, 0, 0, 0xdf], by decide⟩,
      ⟨0x81, [0xc3, 0xa9], by decide⟩]
    (replyBytes tokens = [0xd7, 0, 0, 0, 0xdf, 0x81, 0xc3, 0xa9, 0xde]) ∧
      ExactCapture .steady (replyConsole [0xc3, 0xa9]) 3 99 (replyBytes tokens)
        ([0xd3, 0, 7].map audioSymbol) := by
  intro tokens
  exact ⟨rfl, (exactCapture_iff World.steady_calm ⟨rfl, rfl⟩ tokens _ (by decide +kernel) 3 99
    (inTime_steady (by decide +kernel))).mpr ⟨by decide +kernel, by decide⟩⟩

/-- A reply whose string is not UTF-8 is not captured. -/
theorem replyConsole_not_exact :
    let tokens : List ReplyToken := [⟨0xd7, [0, 0, 0, 0xdf], by decide⟩,
      ⟨0x81, [0xff, 0x41], by decide⟩]
    Ready (replyConsole [0xff, 0x41]) ∧
      (replyConsole [0xff, 0x41]).logical =
        (replyBytes tokens).map audioSymbol ++ [0xd3, 0, 7].map audioSymbol ∧
      InTime .steady (replyConsole [0xff, 0x41]) 3 99 ∧
      (outcome (getBinaryNode .steady 3 99) (replyConsole [0xff, 0x41])).1 = .error .invalidData ∧
      ¬ ExactCapture .steady (replyConsole [0xff, 0x41]) 3 99 (replyBytes tokens)
        ([0xd3, 0, 7].map audioSymbol) := by
  intro tokens
  have hfail : (outcome (getBinaryNode .steady 3 99) (replyConsole [0xff, 0x41])).1 =
      .error .invalidData := by
    decide +kernel
  refine ⟨⟨rfl, rfl⟩, by decide +kernel, inTime_steady (by decide +kernel), hfail, ?_⟩
  rintro ⟨c', ho, -⟩
  rw [ho] at hfail
  cases hfail

end Console

end LibWing
