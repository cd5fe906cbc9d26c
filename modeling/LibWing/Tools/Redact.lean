import LibWing.Basic
import LibWing.Lib.Path
import LibWing.Lib.Scan

/-!
# The redactor

Serials, addresses and hardware addresses in the bytes of a capture, and the values of the same
length that are written over them.

* `findMatches` : what the policy does not allow, with where it stands;
* `redactBytes` : four passes at most of finding and replacing;
* `findMatches_bounds` : what is found lies within the bytes;
* `redactBytes_spec` : redacted bytes have the length they had, and nothing is found in them.
-/

namespace LibWing

namespace Redact

open Scan

/-- What the policy does not allow. -/
inductive Finding where
  | serial (text : String)
  | ip (text : String)
  | mac (text : String)
  deriving DecidableEq, Repr

/-- A finding and where it stands. -/
structure Match where
  /-- Where it begins. -/
  start : ℕ
  /-- Where it ends. -/
  stop : ℕ
  /-- What it is. -/
  finding : Finding
  deriving DecidableEq, Repr

/-! ### Bytes -/

/-- `u8::is_ascii_digit`. -/
def isDigit (b : UInt8) : Bool := 0x30 ≤ b && b ≤ 0x39

/-- `u8::is_ascii_hexdigit`. -/
def isHexDigit (b : UInt8) : Bool :=
  isDigit b || (0x41 ≤ b && b ≤ 0x46) || (0x61 ≤ b && b ≤ 0x66)

def dot : UInt8 := 0x2e

def colon : UInt8 := 0x3a

/-- The bytes of `NGC`. -/
def ngc : List UInt8 := [0x4e, 0x47, 0x43]

def isIpBody (b : UInt8) : Bool := isDigit b || b == dot

def isMacBody (b : UInt8) : Bool := isHexDigit b || b == colon

/-- `bytes[start..stop]`. -/
def slice (bytes : List UInt8) (start stop : ℕ) : List UInt8 :=
  (bytes.drop start).take (stop - start)

/-- The index is past an edge of the bytes, or the byte there is none of the body. -/
def isBoundary (bytes : List UInt8) (idx : ℤ) (isBody : UInt8 → Bool) : Bool :=
  if idx < 0 then true else bytes[idx.toNat]?.all fun b => !isBody b

/-- The value of decimal digits. -/
def decimal (digits : List UInt8) : ℕ :=
  digits.foldl (fun n b => 10 * n + (b.toNat - 0x30)) 0

/-! ### Serials -/

/-- Where the digits that start at `pos` end. -/
def digitsEnd (bytes : List UInt8) (pos : ℕ) : ℕ :=
  pos + ((bytes.drop pos).takeWhile isDigit).length

/-- The serial at a position: `NGC` with the digits behind it, found if one of them is not zero. -/
def serialToken (bytes : List UInt8) (i : ℕ) : Option (ℕ × Option Finding) :=
  if slice bytes i (i + 3) = ngc then
    let stop := digitsEnd bytes (i + 3)
    if (slice bytes (i + 3) stop).any fun b => b ≠ 0x30 then
      some (stop, some (.serial (fromUtf8Lossy (slice bytes i stop))))
    else some (stop, none)
  else none

/-! ### Addresses -/

/-- Where the octet at `pos` ends: one to three digits of at most 255. -/
def octetEnd (bytes : List UInt8) (pos : ℕ) : Option ℕ :=
  let digits := ((bytes.drop pos).take 3).takeWhile isDigit
  if digits = [] ∨ 255 < decimal digits then none else some (pos + digits.length)

/-- Where the octets from `pos` on end. -/
def octetsEnd (bytes : List UInt8) : ℕ → ℕ → Option ℕ
  | 0, pos => some pos
  | left + 1, pos =>
    (octetEnd bytes pos).bind fun pos =>
      if left = 0 then some pos
      else if bytes[pos]? = some dot then octetsEnd bytes left (pos + 1) else none

/-- `parse_ipv4_end`. -/
def parseIpv4End (bytes : List UInt8) (start : ℕ) : Option ℕ := octetsEnd bytes 4 start

/-- `str::parse::<u32>`: a plus sign may stand in front of the digits. -/
def parseU32 (text : String) : Option ℕ :=
  let digits := match text.toList with
    | '+' :: digits => digits
    | digits => digits
  if digits = [] ∨ digits.any (fun c => !c.isDigit) then none
  else
    let n := digits.foldl (fun n c => 10 * n + (c.toNat - 48)) 0
    if n < 2 ^ 32 then some n else none

/-- Zero, the host itself, and the addresses set aside for documentation. -/
def isAllowedIp (ip : String) : Bool :=
  ip == "0.0.0.0" || ip == "127.0.0.1" ||
    ((Path.stripPrefix "192.0.2." ip).bind parseU32).any fun n => n ≤ 255

/-- The address at a position, found if nothing else of an address follows and it is not allowed. -/
def ipToken (bytes : List UInt8) (i : ℕ) : Option (ℕ × Option Finding) :=
  if bytes[i]?.any isDigit ∧ isBoundary bytes (i - 1) isIpBody then
    (parseIpv4End bytes i).map fun stop =>
      let ip := fromUtf8Lossy (slice bytes i stop)
      if isBoundary bytes stop isIpBody ∧ isAllowedIp ip = false then (stop, some (.ip ip))
      else (stop, none)
  else none

/-! ### Hardware addresses -/

/-- Where the groups from `pos` on end. -/
def groupsEnd (bytes : List UInt8) : ℕ → ℕ → Option ℕ
  | 0, pos => some pos
  | left + 1, pos =>
    if bytes[pos]?.any isHexDigit ∧ bytes[pos + 1]?.any isHexDigit then
      if left = 0 then some (pos + 2)
      else if bytes[pos + 2]? = some colon then groupsEnd bytes left (pos + 3) else none
    else none

/-- `parse_mac_end`. -/
def parseMacEnd (bytes : List UInt8) (start : ℕ) : Option ℕ := groupsEnd bytes 6 start

/-- The locally administered addresses that differ in the last group. -/
def isAllowedMac (mac : String) : Bool :=
  (Path.stripPrefix "02:00:00:00:00:" mac).any fun last =>
    (utf8 last).length = 2 ∧ (utf8 last).all isHexDigit

/-- The hardware address at a position, found if it is all there is and it is not allowed. -/
def macToken (bytes : List UInt8) (i : ℕ) : Option (ℕ × Option Finding) :=
  (parseMacEnd bytes i).map fun stop =>
    let mac := (fromUtf8Lossy (slice bytes i stop)).map Char.toLower
    if isBoundary bytes (i - 1) isMacBody ∧ isBoundary bytes stop isMacBody ∧
        isAllowedMac mac = false then (stop, some (.mac mac))
    else (stop, none)

/-! ### Finding -/

/-- All that a rule finds. -/
def findAll (token : List UInt8 → ℕ → Option (ℕ × Option Finding)) (bytes : List UInt8) :
    List Match :=
  (scanFrom (token bytes) bytes.length 0).map fun (start, stop, finding) => ⟨start, stop, finding⟩

def findSerials (bytes : List UInt8) : List Match := findAll serialToken bytes

def findIps (bytes : List UInt8) : List Match := findAll ipToken bytes

def findMacs (bytes : List UInt8) : List Match := findAll macToken bytes

/-- `find_matches`. -/
def findMatches (bytes : List UInt8) : List Match :=
  findSerials bytes ++ findIps bytes ++ findMacs bytes

/-- `scan`. -/
def scan (bytes : List UInt8) : List Finding := (findMatches bytes).map Match.finding

/-! ### Replacing -/

/-- The text of a finding, as it is written in an error. -/
def Finding.debug : Finding → String
  | serial text => "Serial(" ++ debugText text ++ ")"
  | ip text => "Ip(" ++ debugText text ++ ")"
  | mac text => "Mac(" ++ debugText text ++ ")"
where
  /-- What is found has nothing that would be escaped. -/
  debugText (text : String) : String := "\"" ++ text ++ "\""

/-- `fit_test_net_ip`: the first documentation address of that length. -/
def fitTestNetIp (length : ℕ) : Option String :=
  ((List.range 256).map fun n => "192.0.2." ++ toString n).find? fun s => (utf8 s).length = length

/-- What is written over a finding. -/
def replacement : Finding → Except String String
  | .serial text => .ok ("NGC" ++ String.ofList (List.replicate ((utf8 text).length - 3) '0'))
  | .mac _ => .ok "02:00:00:00:00:00"
  | .ip text =>
    match fitTestNetIp (utf8 text).length with
    | some fitting => .ok fitting
    | none => .error ("no same-length TEST-NET-1 replacement for IP literal " ++
        Finding.debug.debugText text ++ " (length " ++ toString (utf8 text).length ++
        "); rewrite this fixture by hand per REDACTION.md")

/-- `bytes[start..stop].copy_from_slice(written)`. -/
def overwrite (bytes : List UInt8) (start stop : ℕ) (written : List UInt8) : List UInt8 :=
  bytes.take start ++ written ++ bytes.drop stop

/-- Write over what was found, one after the other. -/
def replaceAll : List Match → List UInt8 → Except String (List UInt8)
  | [], out => .ok out
  | m :: matches', out =>
    match replacement m.finding with
    | .error error => .error error
    | .ok text =>
      if (utf8 text).length = m.stop - m.start then
        replaceAll matches' (overwrite out m.start m.stop (utf8 text))
      else .error ("internal error: replacement length mismatch for " ++ m.finding.debug)

/-- Find and replace until nothing is found, `passes` times at most. -/
def redactPasses : ℕ → List UInt8 → Except String (List UInt8)
  | 0, _ => .error "could not fully redact after repeated passes"
  | passes + 1, out =>
    if findMatches out = [] then .ok out
    else
      match replaceAll (findMatches out) out with
      | .error error => .error error
      | .ok out => redactPasses passes out

/-- `redact_bytes`. -/
def redactBytes (bytes : List UInt8) : Except String (List UInt8) := redactPasses 4 bytes

/-! ### Within the bytes -/

variable {bytes out : List UInt8} {i pos start stop left : ℕ} {found : Option Finding} {m : Match}
  {matches' : List Match}

theorem lt_of_any {p : UInt8 → Bool} (h : bytes[i]?.any p = true) : i < bytes.length := by
  obtain ⟨b, hb, -⟩ := (Option.any_eq_true _ _).1 h
  exact (List.getElem?_eq_some_iff.1 hb).1

theorem digitsEnd_bounds (hpos : pos ≤ bytes.length) :
    pos ≤ digitsEnd bytes pos ∧ digitsEnd bytes pos ≤ bytes.length := by
  have hle := (List.takeWhile_sublist (l := bytes.drop pos) isDigit).length_le
  rw [List.length_drop] at hle
  rw [digitsEnd]
  omega

theorem serialToken_bounds (h : serialToken bytes i = some (stop, found)) :
    i ≤ stop ∧ stop ≤ bytes.length := by
  rw [serialToken] at h
  split_ifs at h with hngc
  have hlen : (slice bytes i (i + 3)).length = 3 := by
    rw [hngc]
    rfl
  have hbounds := @digitsEnd_bounds bytes (i + 3) (by
    simp only [slice, List.length_take, List.length_drop] at hlen
    omega)
  dsimp only at h
  split_ifs at h <;> (cases h; omega)

theorem octetEnd_bounds (h : octetEnd bytes pos = some stop) :
    pos ≤ stop ∧ stop ≤ bytes.length := by
  rw [octetEnd] at h
  split_ifs at h with hnone
  have hdigits := fun heq => hnone (Or.inl heq)
  cases h
  have hle := (List.takeWhile_sublist (l := (bytes.drop pos).take 3) isDigit).length_le
  have hpos := List.length_pos_of_ne_nil hdigits
  simp only [List.length_take, List.length_drop] at hle
  omega

theorem octetsEnd_bounds (h : octetsEnd bytes (left + 1) pos = some stop) :
    pos ≤ stop ∧ stop ≤ bytes.length := by
  induction left generalizing pos with
  | zero =>
    obtain ⟨mid, hmid, h⟩ := Option.bind_eq_some_iff.1 h
    cases h
    exact octetEnd_bounds hmid
  | succ left ih =>
    obtain ⟨mid, hmid, h⟩ := Option.bind_eq_some_iff.1 h
    rw [if_neg (Nat.succ_ne_zero left)] at h
    split_ifs at h
    have hbounds := octetEnd_bounds hmid
    have hrest := ih h
    omega

theorem groupsEnd_bounds (h : groupsEnd bytes (left + 1) pos = some stop) :
    pos ≤ stop ∧ stop ≤ bytes.length := by
  induction left generalizing pos with
  | zero =>
    rw [groupsEnd, if_pos rfl] at h
    split_ifs at h with hhex
    have hlt := lt_of_any hhex.2
    cases h
    omega
  | succ left ih =>
    rw [groupsEnd, if_neg (Nat.succ_ne_zero left)] at h
    split_ifs at h
    have hrest := ih h
    omega

theorem ipToken_bounds (h : ipToken bytes i = some (stop, found)) :
    i ≤ stop ∧ stop ≤ bytes.length := by
  rw [ipToken] at h
  split_ifs at h
  obtain ⟨stop', hstop, h⟩ := Option.map_eq_some_iff.1 h
  have hbounds := octetsEnd_bounds hstop
  dsimp only at h
  split_ifs at h <;> (cases h; exact hbounds)

theorem macToken_bounds (h : macToken bytes i = some (stop, found)) :
    i ≤ stop ∧ stop ≤ bytes.length := by
  obtain ⟨stop', hstop, h⟩ := Option.map_eq_some_iff.1 h
  have hbounds := groupsEnd_bounds hstop
  dsimp only at h
  split_ifs at h <;> (cases h; exact hbounds)

/-- What a rule finds is one of its tokens. -/
theorem token_of_mem_findAll {token : List UInt8 → ℕ → Option (ℕ × Option Finding)}
    (h : m ∈ findAll token bytes) : token bytes m.start = some (m.stop, some m.finding) := by
  obtain ⟨⟨start, stop, finding⟩, hmem, rfl⟩ := List.mem_map.1 h
  exact token_of_mem hmem

/-- **What is found** lies within the bytes. -/
theorem findMatches_bounds (h : m ∈ findMatches bytes) :
    m.start ≤ m.stop ∧ m.stop ≤ bytes.length := by
  rcases List.mem_append.1 h with h | h
  · rcases List.mem_append.1 h with h | h
    · exact serialToken_bounds (token_of_mem_findAll h)
    · exact ipToken_bounds (token_of_mem_findAll h)
  · exact macToken_bounds (token_of_mem_findAll h)

@[simp] theorem findMatches_nil : findMatches [] = [] := rfl

/-! ### What is redacted -/

theorem length_overwrite {written : List UInt8} (hwritten : written.length = stop - start)
    (hle : start ≤ stop) (hstop : stop ≤ bytes.length) :
    (overwrite bytes start stop written).length = bytes.length := by
  simp only [overwrite, List.length_append, List.length_take, List.length_drop]
  omega

/-- Replacing keeps the length. -/
theorem length_replaceAll
    (hbounds : ∀ m ∈ matches', m.start ≤ m.stop ∧ m.stop ≤ bytes.length)
    (h : replaceAll matches' bytes = .ok out) : out.length = bytes.length := by
  induction matches' generalizing bytes with
  | nil =>
    cases h
    rfl
  | cons m matches' ih =>
    obtain ⟨hm, hbounds⟩ := List.forall_mem_cons.1 hbounds
    rw [replaceAll] at h
    cases hreplacement : replacement m.finding with
    | error error => rw [hreplacement] at h; cases h
    | ok text =>
      simp only [hreplacement] at h
      split_ifs at h with hlength
      have hkept := length_overwrite hlength hm.1 hm.2
      rw [ih (fun m' hm' => ?_) h, hkept]
      rw [hkept]
      exact hbounds m' hm'

theorem redactPasses_spec {passes : ℕ} (h : redactPasses passes bytes = .ok out) :
    out.length = bytes.length ∧ findMatches out = [] := by
  induction passes generalizing bytes with
  | zero => cases h
  | succ passes ih =>
    rw [redactPasses] at h
    split_ifs at h with hclean
    · cases h
      exact ⟨rfl, hclean⟩
    · cases hreplaced : replaceAll (findMatches bytes) bytes with
      | error error => rw [hreplaced] at h; cases h
      | ok next =>
        rw [hreplaced] at h
        have hnext := ih h
        exact ⟨hnext.1.trans (length_replaceAll (fun m hm => findMatches_bounds hm) hreplaced),
          hnext.2⟩

/-- **Redacted bytes** have the length they had, and nothing is found in them. -/
theorem redactBytes_spec (h : redactBytes bytes = .ok out) :
    out.length = bytes.length ∧ findMatches out = [] :=
  redactPasses_spec h

end Redact

end LibWing
