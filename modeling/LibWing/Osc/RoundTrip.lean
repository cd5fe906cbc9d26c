import LibWing.Osc.Codec
import Mathlib.Tactic.SplitIfs

/-!
# OSC messages survive the wire

* `readOscString_append`, `readBlob_append`, `readArgs_append` : the readers undo the writers,
  wherever in a datagram they start;
* `Safely` : a reader that starts inside the datagram stays inside, and what it accepts the writers
  can write again, in no more bytes (`readOscString_safely`, `readBlob_safely`, `readArgs_safely`);
* `message_codec` : the round trips of messages and of datagrams.
-/

namespace LibWing

namespace Osc

/-! ### Slices -/

variable {bytes pre mid post : List UInt8} {start stop i j : ℕ}

theorem drop_take_append :
    ((pre ++ (mid ++ post)).take (pre.length + mid.length)).drop pre.length = mid := by
  rw [← List.append_assoc, ← List.length_append, List.take_left, List.drop_left]

theorem get?_append : get? (pre ++ (mid ++ post)) pre.length (pre.length + mid.length) =
    some mid := by
  rw [get?, if_pos, drop_take_append]
  simp only [List.length_append]
  omega

theorem slice_append :
    slice (pre ++ (mid ++ post)) pre.length (pre.length + mid.length) = .ok mid := by
  rw [slice, if_pos, drop_take_append]
  simp only [List.length_append]
  omega

theorem slice_tail : slice (pre ++ post) pre.length (pre ++ post).length = .ok post := by
  rw [slice, if_pos, List.take_length, List.drop_left]
  simp only [List.length_append]
  omega

theorem slice_inBounds (h : start ≤ stop) (h' : stop ≤ bytes.length) :
    slice bytes start stop = .ok ((bytes.take stop).drop start) :=
  if_pos ⟨h, h'⟩

/-! ### Padding -/

theorem lt_paddedTotal (len : ℕ) : len < paddedTotal len := by
  unfold paddedTotal
  omega

theorem oscString_length (s : String) : (oscString s).length = paddedTotal (utf8 s).length := by
  have hlt := lt_paddedTotal (utf8 s).length
  rw [oscString, List.length_append, List.length_replicate]
  omega

theorem oscBlob_length (data : List UInt8) :
    (oscBlob data).length = 4 + data.length + blobPad data.length := by
  rw [oscBlob, List.length_append, List.length_append, List.length_replicate, length_i32Bytes]

/-! ### The readers undo the writers -/

theorem findIdx?_oscString {s : String} (hs : 0 ∉ utf8 s) :
    (oscString s ++ post).findIdx? (· = 0) = some (utf8 s).length := by
  have hlt := lt_paddedTotal (utf8 s).length
  obtain ⟨n, hn⟩ : ∃ n, paddedTotal (utf8 s).length - (utf8 s).length = n + 1 :=
    ⟨_, (Nat.sub_add_cancel (Nat.sub_pos_of_lt hlt)).symm⟩
  rw [oscString, hn, List.replicate_succ, List.append_assoc, List.cons_append,
    List.findIdx?_append]
  have hnone : (utf8 s).findIdx? (· = 0) = none := by
    rw [List.findIdx?_eq_none_iff]
    intro b hb
    exact decide_eq_false fun h => hs (h ▸ hb)
  rw [hnone]
  simp [List.findIdx?_cons]

theorem readOscString_append {s : String} (hs : 0 ∉ utf8 s) :
    readOscString (pre ++ (oscString s ++ post)) pre.length =
      .ok (s, pre.length + (oscString s).length) := by
  have htext : slice (pre ++ (oscString s ++ post)) pre.length (pre.length + (utf8 s).length) =
      .ok (utf8 s) := by
    rw [oscString, List.append_assoc]
    exact slice_append
  have hroom : ¬ pre.length + paddedTotal (utf8 s).length >
      (pre ++ (oscString s ++ post)).length := by
    rw [List.length_append, List.length_append, oscString_length]
    omega
  rw [readOscString, slice_tail]
  simp only [bind, Except.bind, findIdx?_oscString hs, htext, fromUtf8_utf8, if_neg hroom,
    oscString_length]
  rfl

theorem readWord_append {α : Type} {word : UInt8 → UInt8 → UInt8 → UInt8 → α} {what : String}
    {a b c d : UInt8} :
    readWord (pre ++ ([a, b, c, d] ++ post)) word what pre.length =
      .ok (word a b c d, pre.length + 4) := by
  have hget : get? (pre ++ ([a, b, c, d] ++ post)) pre.length (pre.length + 4) =
      some [a, b, c, d] :=
    get?_append
  rw [readWord, hget]

theorem readI32_append (v : Int32) :
    readI32 (pre ++ (i32Bytes v ++ post)) pre.length = .ok (v, pre.length + 4) := by
  refine readWord_append.trans ?_
  simp [i32OfBytes]

theorem readF32_append (v : F32) :
    readF32 (pre ++ (f32Bytes v ++ post)) pre.length = .ok (v, pre.length + 4) := by
  refine readWord_append.trans ?_
  simp [f32OfBytes]

theorem readBlob_append {data : List UInt8} (hsize : data.length < 2 ^ 31) :
    readBlob (pre ++ (oscBlob data ++ post)) pre.length =
      .ok (data, pre.length + (oscBlob data).length) := by
  have hint : (Int32.ofNat data.length).toInt = data.length := Int32.toInt_ofNat_of_lt hsize
  have hi32 : readI32 (pre ++ (oscBlob data ++ post)) pre.length =
      .ok (Int32.ofNat data.length, pre.length + 4) := by
    rw [oscBlob, List.append_assoc, List.append_assoc]
    exact readI32_append _
  have hdata : get? (pre ++ (oscBlob data ++ post)) (pre.length + 4)
    (pre.length + 4 + data.length) =
      some data := by
    have hsplit : pre ++ (oscBlob data ++ post) = (pre ++ i32Bytes (Int32.ofNat data.length)) ++
        (data ++ (List.replicate (blobPad data.length) 0 ++ post)) := by
      simp only [oscBlob, List.append_assoc]
    have hlen : pre.length + 4 = (pre ++ i32Bytes (Int32.ofNat data.length)).length := by
      rw [List.length_append, length_i32Bytes]
    rw [hsplit, hlen]
    exact get?_append
  have hroom : ¬ pre.length + 4 + data.length + blobPad data.length >
      (pre ++ (oscBlob data ++ post)).length := by
    rw [List.length_append, List.length_append, oscBlob_length]
    omega
  rw [readBlob, hi32]
  simp only [bind, Except.bind, hint, Int.toNat_natCast, hdata, if_neg hroom, oscBlob_length,
    if_neg (Int.not_lt.mpr (Int.natCast_nonneg _))]
  rw [← Nat.add_assoc, ← Nat.add_assoc]
  rfl

/-- An argument that can be read back: no NUL in a string, and not too long for its length word. -/
def OscArg.Fits (arg : OscArg) : Prop := arg.hasNul = false ∧ arg.bytes.length < 2 ^ 31

theorem not_mem_of_contains {s : String} (h : (utf8 s).contains 0 = false) : 0 ∉ utf8 s := by
  intro hmem
  rw [List.contains_iff_mem.mpr hmem] at h
  cases h

theorem readArg_append {arg : OscArg} (h : arg.Fits) :
    readArg (pre ++ (arg.bytes ++ post)) arg.tag pre.length =
      .ok (arg, pre.length + arg.bytes.length) := by
  cases arg with
  | int v =>
    have hread : readI32 (pre ++ (i32Bytes v ++ post)) pre.length = _ := readI32_append v
    simp only [readArg, OscArg.tag, OscArg.bytes, if_true, hread, bind, Except.bind]
    rfl
  | float v =>
    have hread : readF32 (pre ++ (f32Bytes v ++ post)) pre.length = _ := readF32_append v
    simp only [readArg, OscArg.tag, OscArg.bytes, if_true, hread, bind, Except.bind]
    rfl
  | str v =>
    have hread : readOscString (pre ++ (oscString v ++ post)) pre.length = _ :=
      readOscString_append (not_mem_of_contains h.1)
    simp only [readArg, OscArg.tag, OscArg.bytes, if_true, hread, bind, Except.bind]
    rfl
  | blob v =>
    have hsize : v.length < 2 ^ 31 := by
      have hbytes := h.2
      rw [OscArg.bytes, oscBlob_length] at hbytes
      omega
    have hread : readBlob (pre ++ (oscBlob v ++ post)) pre.length = _ := readBlob_append hsize
    simp only [readArg, OscArg.tag, OscArg.bytes, if_true, hread, bind, Except.bind]
    rfl

theorem readArgs_append {args : List OscArg} (h : ∀ arg ∈ args, arg.Fits) :
    readArgs (pre ++ (args.flatMap OscArg.bytes ++ post)) (args.map OscArg.tag) pre.length =
      .ok (args, pre.length + (args.flatMap OscArg.bytes).length) := by
  induction args generalizing pre with
  | nil => rfl
  | cons arg args ih =>
    have harg : readArg (pre ++ ((arg :: args).flatMap OscArg.bytes ++ post)) arg.tag pre.length =
        .ok (arg, (pre ++ arg.bytes).length) := by
      rw [List.flatMap_cons, List.append_assoc, List.length_append]
      exact readArg_append (h arg List.mem_cons_self)
    have hargs : readArgs (pre ++ arg.bytes ++ (args.flatMap OscArg.bytes ++ post))
        (args.map OscArg.tag) (pre ++ arg.bytes).length = _ :=
      ih fun arg' hmem => h arg' (List.mem_cons_of_mem _ hmem)
    rw [List.map_cons, readArgs, harg]
    simp only [bind, Except.bind]
    rw [List.flatMap_cons, List.append_assoc, ← List.append_assoc pre, hargs]
    simp only [List.length_append, Nat.add_assoc]
    rfl

theorem tagString_noNul (args : List OscArg) : 0 ∉ utf8 (tagString args) := by
  rw [tagString, utf8_ofList, List.mem_flatMap]
  rintro ⟨c, hc, hzero⟩
  rcases List.mem_cons.mp hc with rfl | hc
  · revert hzero
    decide
  · obtain ⟨arg, -, rfl⟩ := List.mem_map.mp hc
    revert hzero
    cases arg <;> simp only [OscArg.tag] <;> decide

/-- The bytes that `encode` puts together. -/
def body (msg : OscMessage) : List UInt8 :=
  oscString msg.addr ++
    if msg.args = [] then [] else oscString (tagString msg.args) ++ msg.args.flatMap OscArg.bytes

/-- A message whose strings have no NUL. -/
def NoNul (msg : OscMessage) : Prop := 0 ∉ utf8 msg.addr ∧ ∀ arg ∈ msg.args, arg.hasNul = false

theorem encode_eq_ok {msg : OscMessage} :
    encode msg = .ok bytes ↔ NoNul msg ∧ (body msg).length ≤ maxPacketBytes ∧ bytes = body msg := by
  have hnul : ((utf8 msg.addr).contains 0 || msg.args.any OscArg.hasNul) = false ↔ NoNul msg := by
    rw [Bool.or_eq_false_iff, List.any_eq_false, NoNul, ← List.contains_iff_mem, Bool.not_eq_true]
    simp
  by_cases h : NoNul msg
  · rw [encode, if_neg (by rw [hnul.mpr h]; exact Bool.false_ne_true)]
    by_cases hsize : (body msg).length > maxPacketBytes
    · constructor
      · intro hok
        rw [body] at hsize
        simp only [if_pos hsize] at hok
        cases hok
      · rintro ⟨-, hle, -⟩
        omega
    · rw [body] at hsize
      simp only [if_neg hsize]
      constructor
      · rintro ⟨⟩
        exact ⟨h, Nat.not_lt.mp hsize, rfl⟩
      · rintro ⟨-, -, rfl⟩
        rfl
  · constructor
    · intro hok
      rw [encode, if_pos (by rw [← Bool.not_eq_false]; exact fun hf => h (hnul.mp hf))] at hok
      cases hok
    · exact fun hok => absurd hok.1 h

theorem decode_body {msg : OscMessage} (hslash : msg.addr.toList.head? = some '/')
    (hnul : NoNul msg) (hsize : (body msg).length ≤ maxPacketBytes) :
    decode (body msg) = .ok msg := by
  obtain ⟨addr, args⟩ := msg
  have haddr : ∀ post, readOscString (oscString addr ++ post) 0 =
      .ok (addr, (oscString addr).length) := by
    intro post
    have h : readOscString ([] ++ (oscString addr ++ post)) ([] : List UInt8).length = _ :=
      readOscString_append hnul.1
    simpa using h
  by_cases hargs : args = []
  · subst hargs
    have hbody : body ⟨addr, []⟩ = oscString addr ++ [] := rfl
    rw [hbody, decode, haddr]
    simp only [bind, Except.bind, hslash, ne_eq, not_true_eq_false, if_false, List.append_nil,
      ge_iff_le, le_refl, if_true]
    rfl
  · have hbody : body ⟨addr, args⟩ = oscString addr ++
        (oscString (tagString args) ++ args.flatMap OscArg.bytes) := by
      rw [body, if_neg hargs]
    have htag : readOscString (oscString addr ++ (oscString (tagString args) ++
        args.flatMap OscArg.bytes)) (oscString addr).length =
        .ok (tagString args, (oscString addr ++ oscString (tagString args)).length) := by
      rw [List.length_append]
      exact readOscString_append (tagString_noNul args)
    have hfits : ∀ arg ∈ args, arg.Fits := by
      intro arg hmem
      refine ⟨hnul.2 arg hmem, ?_⟩
      have hle : arg.bytes.length ≤ (args.flatMap OscArg.bytes).length := by
        obtain ⟨before, after, rfl⟩ := List.append_of_mem hmem
        simp only [List.flatMap_append, List.flatMap_cons, List.length_append]
        omega
      rw [hbody, List.length_append, List.length_append, maxPacketBytes] at hsize
      omega
    have hread : readArgs (oscString addr ++ oscString (tagString args) ++
        (args.flatMap OscArg.bytes ++ [])) (args.map OscArg.tag)
        (oscString addr ++ oscString (tagString args)).length = _ := readArgs_append hfits
    rw [List.append_nil, List.append_assoc] at hread
    have hmore : ¬ (oscString addr).length ≥ (oscString addr ++ (oscString (tagString args) ++
        args.flatMap OscArg.bytes)).length := by
      have hpos := lt_paddedTotal (utf8 (tagString args)).length
      rw [List.length_append, List.length_append, oscString_length (tagString args)]
      omega
    rw [hbody, decode, haddr]
    simp only [bind, Except.bind, hslash, ne_eq, not_true_eq_false, if_false, if_neg hmore, htag]
    rw [tagString, String.toList_ofList, ← tagString]
    simp only [hread]
    rw [if_neg]
    · rfl
    · simp only [List.length_append, Nat.add_assoc, not_true_eq_false, not_false_eq_true]

/-! ### What the readers accept -/

variable {α β : Type}

/-- A reader that does not leave the datagram, and whose results satisfy `Q`. -/
def Safely (Q : α → Prop) : Except Fault α → Prop
  | .ok a => Q a
  | .error .outOfBounds => False
  | .error (.error _) => True

theorem safely_malformed {Q : α → Prop} (what : String) : Safely Q (malformed what) := trivial

theorem Safely.bind {P : α → Prop} {Q : β → Prop} {x : Except Fault α} {f : α → Except Fault β}
    (hx : Safely P x) (hf : ∀ a, P a → Safely Q (f a)) : Safely Q (x >>= f) := by
  cases x with
  | ok a => exact hf a hx
  | error fault =>
    cases fault with
    | outOfBounds => exact hx
    | error e => trivial

theorem readOscString_safely (hi : i ≤ bytes.length) :
    Safely (fun r => 0 ∉ utf8 r.1 ∧ r.2 = i + (oscString r.1).length ∧ r.2 ≤ bytes.length)
      (readOscString bytes i) := by
  have htail : slice bytes i bytes.length = .ok (bytes.drop i) := by
    rw [slice_inBounds hi le_rfl, List.take_length]
  rw [readOscString, htail]
  simp only [bind, Except.bind]
  cases hnul : (bytes.drop i).findIdx? (· = 0) with
  | none => exact safely_malformed _
  | some nul =>
    obtain ⟨hlt, -, hbefore⟩ := List.findIdx?_eq_some_iff_getElem.mp hnul
    rw [List.length_drop] at hlt
    have htext : slice bytes i (i + nul) = .ok ((bytes.drop i).take nul) := by
      rw [slice_inBounds (Nat.le_add_right _ _) (by omega), List.drop_take]
      congr 2
      omega
    have hlen : ((bytes.drop i).take nul).length = nul := by
      rw [List.length_take, List.length_drop]
      omega
    simp only [htext]
    cases hutf : fromUtf8 ((bytes.drop i).take nul) with
    | none => exact safely_malformed _
    | some s =>
      simp only
      have hs : utf8 s = (bytes.drop i).take nul := utf8_fromUtf8 hutf
      by_cases hroom : i + paddedTotal nul > bytes.length
      · rw [if_pos hroom]
        exact safely_malformed _
      · rw [if_neg hroom]
        refine ⟨?_, ?_, Nat.not_lt.mp hroom⟩
        · -- The NUL is the first one.
          intro hmem
          rw [hs] at hmem
          obtain ⟨k, hk, hzero⟩ := List.mem_iff_getElem.mp hmem
          rw [hlen] at hk
          rw [List.getElem_take] at hzero
          exact absurd hzero (of_decide_eq_false (Bool.eq_false_iff.mpr (hbefore k hk)))
        · rw [oscString_length, hs, hlen]

theorem readWord_safely {word : UInt8 → UInt8 → UInt8 → UInt8 → α} {what : String} :
    Safely (fun r => r.2 = i + 4 ∧ r.2 ≤ bytes.length) (readWord bytes word what i) := by
  rw [readWord]
  by_cases hroom : i ≤ i + 4 ∧ i + 4 ≤ bytes.length
  · have hlen : ((bytes.take (i + 4)).drop i).length = 4 := by
      rw [List.length_drop, List.length_take]
      omega
    rw [get?, if_pos hroom]
    -- Four bytes are there.
    match hword : (bytes.take (i + 4)).drop i with
    | [a, b, c, d] => exact ⟨rfl, hroom.2⟩
    | [] | [_] | [_, _] | [_, _, _] | _ :: _ :: _ :: _ :: _ :: _ =>
      rw [hword] at hlen
      simp at hlen
  · rw [get?, if_neg hroom]
    exact safely_malformed _

theorem readBlob_safely :
    Safely (fun r => r.2 = i + (oscBlob r.1).length ∧ r.2 ≤ bytes.length) (readBlob bytes i) := by
  refine Safely.bind readWord_safely ?_
  rintro ⟨size, j⟩ ⟨rfl, hj⟩
  simp only
  by_cases hneg : size.toInt < 0
  · rw [if_pos hneg]
    exact safely_malformed _
  · rw [if_neg hneg]
    by_cases hdata : i + 4 ≤ i + 4 + size.toInt.toNat ∧ i + 4 + size.toInt.toNat ≤ bytes.length
    · rw [get?, if_pos hdata]
      simp only
      by_cases hroom : i + 4 + size.toInt.toNat + blobPad size.toInt.toNat > bytes.length
      · rw [if_pos hroom]
        exact safely_malformed _
      · rw [if_neg hroom]
        have hlen : ((bytes.take (i + 4 + size.toInt.toNat)).drop (i + 4)).length =
            size.toInt.toNat := by
          rw [List.length_drop, List.length_take]
          omega
        refine ⟨?_, Nat.not_lt.mp hroom⟩
        rw [oscBlob_length, hlen]
        omega
    · rw [get?, if_neg hdata]
      exact safely_malformed _

theorem readArg_safely (tag : Char) (hi : i ≤ bytes.length) :
    Safely (fun r => r.1.tag = tag ∧ r.1.hasNul = false ∧ r.2 = i + r.1.bytes.length ∧
      r.2 ≤ bytes.length) (readArg bytes tag i) := by
  rw [readArg]
  split_ifs with hint hfloat hstr hblob
  · subst hint
    refine Safely.bind readWord_safely ?_
    rintro ⟨v, j⟩ ⟨hj, hle⟩
    exact ⟨rfl, rfl, hj, hle⟩
  · subst hfloat
    refine Safely.bind readWord_safely ?_
    rintro ⟨v, j⟩ ⟨hj, hle⟩
    exact ⟨rfl, rfl, hj, hle⟩
  · subst hstr
    refine Safely.bind (readOscString_safely hi) ?_
    rintro ⟨v, j⟩ ⟨hnul, hj, hle⟩
    refine ⟨rfl, ?_, hj, hle⟩
    rw [OscArg.hasNul, Bool.eq_false_iff]
    exact fun hmem => hnul (List.contains_iff_mem.mp hmem)
  · subst hblob
    refine Safely.bind readBlob_safely ?_
    rintro ⟨v, j⟩ ⟨hj, hle⟩
    exact ⟨rfl, rfl, hj, hle⟩
  · exact safely_malformed _

theorem readArgs_safely (tags : List Char) (hi : i ≤ bytes.length) :
    Safely (fun r => r.1.map OscArg.tag = tags ∧ (∀ arg ∈ r.1, arg.hasNul = false) ∧
      r.2 = i + (r.1.flatMap OscArg.bytes).length ∧ r.2 ≤ bytes.length)
        (readArgs bytes tags i) := by
  induction tags generalizing i with
  | nil => exact ⟨rfl, fun _ h => absurd h List.not_mem_nil, rfl, hi⟩
  | cons tag tags ih =>
    refine Safely.bind (readArg_safely tag hi) ?_
    rintro ⟨arg, j⟩ ⟨htag, hnul, hj, hle⟩
    refine Safely.bind (ih hle) ?_
    rintro ⟨args, k⟩ ⟨htags, hnuls, hk, hle'⟩
    refine ⟨by rw [List.map_cons, htag, htags], ?_, ?_, hle'⟩
    · intro arg' hmem
      rcases List.mem_cons.mp hmem with rfl | hmem
      · exact hnul
      · exact hnuls arg' hmem
    · simp only [List.flatMap_cons, List.length_append] at *
      omega

/-- A message that was decoded can be encoded in no more bytes than it came in. -/
theorem decode_safely :
    Safely (fun msg => msg.addr.toList.head? = some '/' ∧ NoNul msg ∧
      (body msg).length ≤ bytes.length) (decode bytes) := by
  refine Safely.bind (readOscString_safely (Nat.zero_le _)) ?_
  rintro ⟨addr, i⟩ ⟨hnul, hi, hle⟩
  simp only at hnul hi hle ⊢
  rw [Nat.zero_add] at hi
  by_cases hslash : addr.toList.head? = some '/'
  · simp only [hslash, ne_eq, not_true_eq_false, if_false]
    by_cases hbare : i ≥ bytes.length
    · rw [if_pos hbare]
      refine ⟨hslash, ⟨hnul, fun _ h => absurd h List.not_mem_nil⟩, ?_⟩
      rw [body, if_pos rfl, List.append_nil, ← hi]
      exact hle
    · rw [if_neg hbare]
      refine Safely.bind (readOscString_safely hle) ?_
      rintro ⟨tag, j⟩ ⟨-, hj, hle'⟩
      simp only at hj hle' ⊢
      split
      · next tags htag =>
        refine Safely.bind (readArgs_safely tags hle') ?_
        rintro ⟨args, k⟩ ⟨htags, hnuls, hk, hle''⟩
        simp only at htags hnuls hk hle'' ⊢
        by_cases hend : k = bytes.length
        · rw [if_neg (not_not_intro hend)]
          refine ⟨hslash, ⟨hnul, hnuls⟩, ?_⟩
          by_cases hargs : args = []
          · -- An empty type tag string is left out.
            rw [body, if_pos hargs, List.append_nil, ← hi]
            exact hle
          · have htagString : tagString args = tag := by
              rw [tagString, htags, ← htag, String.ofList_toList]
            have hbody : body ⟨addr, args⟩ =
                oscString addr ++ (oscString tag ++ args.flatMap OscArg.bytes) := by
              rw [body, if_neg hargs, htagString]
            rw [hbody, List.length_append, List.length_append]
            omega
        · rw [if_pos hend]
          exact safely_malformed _
      · exact safely_malformed _
  · simp only [ne_eq, hslash, not_false_eq_true, if_true]
    exact safely_malformed _

/-- **The OSC codec.**  A message that can be encoded is decoded again; what a datagram decodes to
can be encoded, in no more bytes, and decodes to the same message; and decoding never leaves the
datagram. -/
theorem message_codec :
    (∀ (msg : OscMessage) (bytes : List UInt8), msg.addr.toList.head? = some '/' →
      encode msg = .ok bytes → decode bytes = .ok msg) ∧
    (∀ (bytes : List UInt8) (msg : OscMessage), bytes.length ≤ maxPacketBytes →
      decode bytes = .ok msg →
      ∃ out, encode msg = .ok out ∧ out.length ≤ bytes.length ∧ decode out = .ok msg) ∧
    ∀ bytes : List UInt8, decode bytes ≠ .error .outOfBounds := by
  refine ⟨?_, ?_, ?_⟩
  · intro msg bytes hslash h
    obtain ⟨hnul, hsize, rfl⟩ := encode_eq_ok.mp h
    exact decode_body hslash hnul hsize
  · intro bytes msg hmax h
    have hsafe : Safely _ (decode bytes) := decode_safely
    rw [h] at hsafe
    obtain ⟨hslash, hnul, hle⟩ := hsafe
    have hsize := hle.trans hmax
    exact ⟨body msg, encode_eq_ok.mpr ⟨hnul, hsize, rfl⟩, hle, decode_body hslash hnul hsize⟩
  · intro bytes h
    have hsafe : Safely _ (decode bytes) := decode_safely
    rw [h] at hsafe
    exact hsafe

/-- A bare address with an empty type tag string and padding that is not zero. -/
theorem message_codec_bare : ∃ out, encode ⟨"/?", []⟩ = .ok out ∧ out.length ≤ 8 ∧
    decode [0x2f, 0x3f, 0, 9, 0x2c, 0, 7, 7] = .ok ⟨"/?", []⟩ ∧ decode out = .ok ⟨"/?", []⟩ := by
  have h : decode [0x2f, 0x3f, 0, 9, 0x2c, 0, 7, 7] = .ok ⟨"/?", []⟩ := by decide +kernel
  obtain ⟨out, hout, hle, hdecode⟩ := message_codec.2.1 _ _ (by decide) h
  exact ⟨out, hout, hle, h, hdecode⟩

end Osc

end LibWing
