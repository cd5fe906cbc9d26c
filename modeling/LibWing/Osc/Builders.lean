import LibWing.Osc.Client
import LibWing.Osc.NodePairs

/-!
# OSC requests

A parameter has two addresses, its path and its hash, and a request may name the port that its reply
shall go to.

* `Osc.toggle`, `Osc.getParamById` : the message of a write by path, and that of a request by hash;
* `Osc.withReplyPort` : a message with a reply port, and `stripReplyPort_withReplyPort`, its address
  without it;
* `Osc.fromStrRadix16_hash` : the hash in an address is read back;
* `Osc.replyMatches_byId` : the replies that answer a request by hash.
-/

namespace LibWing

namespace Osc

/-! ### Building -/

/-- The characters that an address path may not contain. -/
def reservedChars : List Char := ['*', '?', '[', ']', '{', '}', ',', ' ']

/-- `validate_address_path`. -/
def validateAddressPath (path : String) : Except OscError Unit :=
  if path.toList.any fun c => reservedChars.contains c then
    .error (.malformed "address path contains an OSC-reserved wildcard/pattern character")
  else .ok ()

/-- The message of some arguments at a path. -/
def messageAt (path : String) (args : List OscArg) : Except OscError OscMessage := do
  validateAddressPath path
  return ⟨path, args⟩

/-- The last digits of a number in hex. -/
def hexPadded : ℕ → ℕ → List Char
  | 0, _ => []
  | width + 1, n => hexPadded width (n / 16) ++ [Nat.digitChar (n % 16)]

/-- The address of a hash. -/
def hashAddress (id : Int32) : String := String.ofList ('/' :: '#' :: hexPadded 8 id.toUInt32.toNat)

/-- `get_param_by_id`. -/
def getParamById (id : Int32) : OscMessage := ⟨hashAddress id, []⟩

/-- `set_int`. -/
def setInt (path : String) (value : Int32) : Except OscError OscMessage :=
  messageAt path [.int value]

/-- `toggle`. -/
def toggle (path : String) : Except OscError OscMessage := setInt path (-1)

/-- `with_reply_port`. -/
def withReplyPort (port : UInt16) (msg : OscMessage) : OscMessage :=
  { msg with addr := String.ofList ('/' :: '%' :: (Nat.toDigits 10 port.toNat ++ msg.addr.toList)) }

/-! ### Reply ports -/

variable {port : UInt16} {msg : OscMessage} {n width : ℕ}

theorem isDigit_of_mem_toDigits {c : Char} (h : c ∈ Nat.toDigits 10 n) : c.isDigit = true :=
  Nat.isDigit_of_mem_toDigits (by decide) (by decide) h

/-- A reply port is ignored when an address is matched. -/
theorem stripReplyPort_withReplyPort (h : msg.addr.toList.head? = some '/') :
    stripReplyPort (withReplyPort port msg).addr = msg.addr := by
  obtain ⟨rest, hrest⟩ : ∃ rest, msg.addr.toList = '/' :: rest := by
    cases hl : msg.addr.toList with
    | nil =>
      rw [hl] at h
      cases h
    | cons c rest =>
      rw [hl] at h
      cases h
      exact ⟨rest, rfl⟩
  have hprefix : Path.stripPrefix "/%" (withReplyPort port msg).addr =
      some (String.ofList (Nat.toDigits 10 port.toNat ++ msg.addr.toList)) := by
    rw [Path.stripPrefix_eq_some, Path.eq_append_iff]
    simp [withReplyPort]
  have hdigits : (Nat.toDigits 10 port.toNat ++ msg.addr.toList).takeWhile Char.isDigit =
      Nat.toDigits 10 port.toNat := by
    rw [hrest, List.takeWhile_append_of_pos fun c hc => isDigit_of_mem_toDigits hc]
    simp [Char.isDigit]
  rw [stripReplyPort, hprefix]
  simp only [String.toList_ofList, hdigits, List.drop_left]
  rw [if_pos ⟨Nat.toDigits_ne_nil, h⟩, String.ofList_toList]

/-! ### Hashes -/

theorem hexDigit_digitChar (h : n < 16) : hexDigit (Nat.digitChar n) = some n := by
  revert n
  decide

theorem hexValue_concat (cs : List Char) (c : Char) (acc : ℕ) :
    hexValue (cs ++ [c]) acc =
      (hexValue cs acc).bind fun n => (hexDigit c).map fun digit => 16 * n + digit := by
  induction cs generalizing acc with
  | nil =>
    cases hd : hexDigit c <;> simp [hexValue, hd]
  | cons d cs ih =>
    cases hd : hexDigit d with
    | none => simp [hexValue, hd]
    | some digit => simpa [hexValue, hd] using ih (16 * acc + digit)

theorem hexValue_hexPadded (width n : ℕ) :
    hexValue (hexPadded width n) 0 = some (n % 16 ^ width) := by
  induction width generalizing n with
  | zero => simp [hexPadded, hexValue, Nat.mod_one]
  | succ width ih =>
    have hlt : n % 16 < 16 := Nat.mod_lt n (by decide)
    have hsplit : n % 16 ^ (width + 1) = 16 * (n / 16 % 16 ^ width) + n % 16 := by
      rw [pow_succ, Nat.mul_comm, Nat.mod_mul]
      omega
    rw [hexPadded, hexValue_concat, ih, hexDigit_digitChar hlt, hsplit]
    rfl

theorem mem_hexPadded {c : Char} (h : c ∈ hexPadded width n) :
    ∃ digit < 16, c = Nat.digitChar digit := by
  induction width generalizing n with
  | zero => cases h
  | succ width ih =>
    rcases List.mem_append.1 h with h | h
    · exact ih h
    · exact ⟨n % 16, Nat.mod_lt n (by decide), List.mem_singleton.1 h⟩

theorem digitChar_ne : ∀ digit < 16, Nat.digitChar digit ≠ '+' ∧ Nat.digitChar digit ≠ '*' := by
  decide

/-- The hash in an address is read back. -/
theorem fromStrRadix16_hash (id : Int32) :
    fromStrRadix16 (String.ofList (hexPadded 8 id.toUInt32.toNat)) = some id.toUInt32 := by
  obtain ⟨c, cs, hcs⟩ : ∃ c cs, hexPadded 8 id.toUInt32.toNat = c :: cs :=
    ⟨_, _, rfl⟩
  have hplus : c ≠ '+' := by
    obtain ⟨digit, hlt, rfl⟩ := mem_hexPadded (hcs ▸ List.mem_cons_self : c ∈ hexPadded 8 _)
    exact (digitChar_ne digit hlt).1
  have hvalue := hexValue_hexPadded 8 id.toUInt32.toNat
  have hlt : id.toUInt32.toNat < 2 ^ 32 := id.toUInt32.toNat_lt
  rw [hcs, Nat.mod_eq_of_lt (by omega)] at hvalue
  unfold fromStrRadix16
  rw [hcs, String.toList_ofList]
  dsimp only
  split
  · rename_i heq
    exact absurd (List.cons.inj heq).1 hplus
  · rw [if_neg (List.cons_ne_nil c cs), hvalue, Option.bind_some, if_pos hlt, UInt32.ofNat_toNat]

/-! ### The replies to a request -/

variable {map : Session.PropertyMap} {id : Int32} {reply : String}

/-- The path of a reply; an acknowledgement has an asterisk behind it. -/
def replyPath (reply : String) : String := (Path.stripSuffix "*" reply).getD reply

/-- The reply is on the address of a hash, or on a path that has it. -/
def Answers (map : Session.PropertyMap) (id : Int32) (reply : String) : Prop :=
  replyPath reply = hashAddress id ∨ ∃ d, (replyPath reply, d) ∈ map.entries ∧ d.id = id

theorem mem_byId (map : Session.PropertyMap) (id : Int32) (path : String) :
    (∃ names, map.byId id = some names ∧ ∃ x ∈ names, x.1 = path) ↔
      ∃ d, (path, d) ∈ map.entries ∧ d.id = id := by
  have hfilter : (∃ x ∈ map.entries.filter (fun entry => entry.2.id = id), x.1 = path) ↔
      ∃ d, (path, d) ∈ map.entries ∧ d.id = id := by
    constructor
    · rintro ⟨⟨name, d⟩, hmem, rfl⟩
      rw [List.mem_filter] at hmem
      exact ⟨d, hmem.1, by simpa using hmem.2⟩
    · rintro ⟨d, hmem, hid⟩
      exact ⟨(path, d), List.mem_filter.2 ⟨hmem, by simpa using hid⟩, rfl⟩
  rw [← hfilter, Session.PropertyMap.byId]
  cases map.entries.filter (fun entry => entry.2.id = id) with
  | nil => simp
  | cons entry entries => simp only [Option.some.injEq, exists_eq_left']

theorem hashAddress_head (id : Int32) : (hashAddress id).toList.head? = some '/' := by
  simp [hashAddress]

theorem stripReplyPort_hashAddress (id : Int32) :
    stripReplyPort (hashAddress id) = hashAddress id := by
  have hnone : Path.stripPrefix "/%" (hashAddress id) = none := by
    rw [Option.eq_none_iff_forall_ne_some]
    intro rest hrest
    rw [Path.stripPrefix_eq_some, Path.eq_append_iff] at hrest
    simp [hashAddress] at hrest
  rw [stripReplyPort, hnone]

theorem replyMatches_congr {request request' : String}
    (h : stripReplyPort request = stripReplyPort request') :
    replyMatches map request reply = replyMatches map request' reply := by
  simp only [replyMatches, h]

/-- **A request by hash**, with or without a reply port, is answered by exactly the replies on its
own address and on the paths that have the hash. -/
theorem replyMatches_byId (map : Session.PropertyMap) (id : Int32) (port : UInt16)
    (reply : String) :
    (replyMatches map (getParamById id).addr reply = true ↔ Answers map id reply) ∧
      (replyMatches map (withReplyPort port (getParamById id)).addr reply = true ↔
        Answers map id reply) := by
  have hport : replyMatches map (withReplyPort port (getParamById id)).addr reply =
      replyMatches map (getParamById id).addr reply := by
    refine replyMatches_congr ?_
    rw [@stripReplyPort_withReplyPort port (getParamById id) (hashAddress_head id)]
    exact (stripReplyPort_hashAddress id).symm
  have hhash : Path.stripPrefix "/#" (hashAddress id) =
      some (String.ofList (hexPadded 8 id.toUInt32.toNat)) := by
    rw [Path.stripPrefix_eq_some, Path.eq_append_iff]
    simp [hashAddress]
  have hone : replyMatches map (getParamById id).addr reply = true ↔ Answers map id reply := by
    rw [Answers, ← mem_byId]
    unfold replyMatches
    simp only [getParamById, stripReplyPort_hashAddress, hhash, Option.bind_some,
      fromStrRadix16_hash, Int32.toInt32_toUInt32, Bool.or_eq_true, beq_iff_eq]
    refine or_congr_right ?_
    cases map.byId id with
    | none => simp
    | some names => simp [List.any_eq_true, replyPath]
  exact ⟨hone, by rw [hport]; exact hone⟩

end Osc

end LibWing
