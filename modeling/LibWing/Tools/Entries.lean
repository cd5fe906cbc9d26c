import LibWing.Tools.Sanitize

/-!
# The lines of a capture

The sanitizer reads a capture line by line, and writes the payloads into lines that it has kept for
them.

* `Entry`, `ReadsAs` : a line, as it is read; `readLines_eq_ok` : when the lines are read;
* `Rewritten` : a line with another payload of the same length; `patch_foldl` : the lines with the
  payloads that are written into them;
* `marked` : the lines with that of the sanitizer.
-/

namespace LibWing

namespace Wingcapture

open Text Redact Stateful

variable {t : Texts} {line head raw : List Char} {d d' : Draft}

/-! ### Lines -/

/-- A line that is read. -/
inductive Entry where
  | sanitizer
  | comment (line : List Char)
  /-- A payload, and what stands in front of it. -/
  | payload (head : List Char) (event : Event)
  deriving DecidableEq

/-- The line that is written. -/
def Entry.render : Entry → List Char
  | .sanitizer => sanitizerLine
  | .comment line => line
  | .payload head event => head ++ ' ' :: encodeHex event.2

/-- The line before the payloads are written. -/
def Entry.blank : Entry → List Char
  | .sanitizer => sanitizerLine
  | .comment line => line
  | .payload _ _ => []

def Entry.event : Entry → Option Event
  | .payload _ event => some event
  | _ => none

/-- The events of lines. -/
def entryEvents (entries : List Entry) : List Event := entries.filterMap Entry.event

@[simp] theorem entryEvents_sanitizer (entries : List Entry) :
    entryEvents (.sanitizer :: entries) = entryEvents entries := rfl

@[simp] theorem entryEvents_comment (entries : List Entry) :
    entryEvents (.comment line :: entries) = entryEvents entries := rfl

@[simp] theorem entryEvents_payload (event : Event) (entries : List Entry) :
    entryEvents (.payload head event :: entries) = event :: entryEvents entries := rfl

/-- A line without blanks at its end is read. -/
inductive ReadsAs : List Char → Entry → Prop
  | sanitizer {rest : List Char} (hclean : scan (utf8 (String.ofList rest)) = [])
      (hnames : namesSanitizer rest = true) : ReadsAs ('#' :: rest) .sanitizer
  | comment {rest : List Char} (hclean : scan (utf8 (String.ofList rest)) = [])
      (hnames : namesSanitizer rest = false) : ReadsAs ('#' :: rest) (.comment ('#' :: rest))
  | payload {line head hex word : List Char} {bytes : List UInt8} (hhash : line.head? ≠ some '#')
      (hsplit : splitCaptureLine line = some (head, hex))
      (hbytes : decodeHex (trim hex) = .ok bytes)
      (hword : (splitWhitespace head).getLast? = some word) :
      ReadsAs line (.payload head (String.ofList word, bytes))

/-- The lines of a capture, as they are read. -/
def Reads (text : List Char) (entries : List Entry) : Prop :=
  List.Forall₂ ReadsAs (((lines text).map trimEnd).filter (· ≠ [])) entries

/-- What a line adds to the draft. -/
def Draft.add (d : Draft) : Entry → Draft
  | .sanitizer => { d with outLines := d.outLines ++ [sanitizerLine], sawSanitizerHeader := true }
  | .comment line => { d with outLines := d.outLines ++ [line] }
  | .payload head event =>
    { d with
      events := d.events ++ [event]
      payloadLines := d.payloadLines ++ [(d.outLines.length, head)]
      outLines := d.outLines ++ [[]] }

theorem readComment_eq_ok {rest : List Char} :
    d.readComment t ('#' :: rest) = .ok d' ↔ scan (utf8 (String.ofList rest)) = [] ∧
      d' = if namesSanitizer rest then d.add .sanitizer else d.add (.comment ('#' :: rest)) := by
  rw [Draft.readComment, Except.bind_eq_ok, List.tail_cons]
  simp only [rejectIf_eq_ok, not_not]
  constructor
  · rintro ⟨-, hclean, h⟩
    refine ⟨hclean, ?_⟩
    split_ifs at h ⊢ <;> (cases h; rfl)
  · rintro ⟨hclean, rfl⟩
    refine ⟨⟨⟩, hclean, ?_⟩
    split_ifs <;> rfl

theorem readPayload_eq_ok : d.readPayload t line = .ok d' ↔
    ∃ head hex word bytes, splitCaptureLine line = some (head, hex) ∧
      decodeHex (trim hex) = .ok bytes ∧
      (splitWhitespace head).getLast? = some word ∧
        d' = d.add (.payload head (String.ofList word, bytes)) := by
  have hlast : ∀ (x : Option (List Char)) (word : List Char),
      x.elim (.error .panic : Except Failure (List Char)) .ok = .ok word ↔ x = some word := by
    intro x word
    cases x <;> simp
  simp only [Draft.readPayload, Except.bind_eq_ok, Except.pure_eq_ok, okOr_eq_ok, mapError_eq_ok,
    Prod.exists, hlast]
  constructor
  · rintro ⟨head, hex, hsplit, bytes, hbytes, word, hword, rfl⟩
    exact ⟨head, hex, word, bytes, hsplit, hbytes, hword, rfl⟩
  · rintro ⟨head, hex, word, bytes, hsplit, hbytes, hword, rfl⟩
    exact ⟨head, hex, hsplit, bytes, hbytes, word, hword, rfl⟩

theorem readLine_eq_ok : d.readLine t raw = .ok d' ↔
    trimEnd raw = [] ∧ d' = d ∨ trimEnd raw ≠ [] ∧ ∃ e, ReadsAs (trimEnd raw) e ∧ d' = d.add e := by
  simp only [Draft.readLine]
  generalize trimEnd raw = line
  split_ifs with hnil hhash
  · simp [hnil, eq_comm]
  · obtain ⟨rest, rfl⟩ : ∃ rest, line = '#' :: rest := by
      cases line with
      | nil => cases hhash
      | cons c rest => exact ⟨rest, by rw [Option.some.inj hhash]⟩
    rw [readComment_eq_ok]
    constructor
    · rintro ⟨hclean, rfl⟩
      refine .inr ⟨hnil, ?_⟩
      cases hnames : namesSanitizer rest with
      | true => exact ⟨_, .sanitizer hclean hnames, rfl⟩
      | false => exact ⟨_, .comment hclean hnames, rfl⟩
    · rintro (⟨hno, -⟩ | ⟨-, e, hreads, rfl⟩)
      · exact absurd hno hnil
      · cases hreads with
        | sanitizer hclean hnames => exact ⟨hclean, by rw [if_pos hnames]⟩
        | comment hclean hnames => exact ⟨hclean, by rw [hnames]; rfl⟩
        | payload hno => exact absurd rfl hno
  · rw [readPayload_eq_ok]
    constructor
    · rintro ⟨head, hex, word, bytes, hsplit, hbytes, hword, rfl⟩
      exact .inr ⟨hnil, _, .payload hhash hsplit hbytes hword, rfl⟩
    · rintro (⟨hno, -⟩ | ⟨-, e, hreads, rfl⟩)
      · exact absurd hno hnil
      · cases hreads with
        | sanitizer => exact absurd rfl hhash
        | comment => exact absurd rfl hhash
        | payload _ hsplit hbytes hword => exact ⟨_, _, _, _, hsplit, hbytes, hword, rfl⟩

/-- **When the lines are read**: each of them is, and each adds its entry. -/
theorem readLines_eq_ok {ls : List (List Char)} : Draft.readLines t d ls = .ok d' ↔
    ∃ entries, List.Forall₂ ReadsAs ((ls.map trimEnd).filter (· ≠ [])) entries ∧
      d' = entries.foldl Draft.add d := by
  induction ls generalizing d with
  | nil =>
    rw [Draft.readLines]
    constructor
    · rintro h
      cases h
      exact ⟨[], .nil, rfl⟩
    · rintro ⟨entries, hreads, rfl⟩
      cases hreads
      rfl
  | cons line ls ih =>
    rw [Draft.readLines, Except.bind_eq_ok, List.map_cons]
    simp only [readLine_eq_ok, ih]
    constructor
    · rintro ⟨d₁, ⟨hnil, rfl⟩ | ⟨hne, e, he, rfl⟩, entries, hentries, rfl⟩
      · refine ⟨entries, ?_, rfl⟩
        rwa [List.filter_cons_of_neg (by simpa using hnil)]
      · refine ⟨e :: entries, ?_, rfl⟩
        rw [List.filter_cons_of_pos (by simpa using hne)]
        exact .cons he hentries
    · rintro ⟨entries, hentries, rfl⟩
      by_cases hnil : trimEnd line = []
      · rw [List.filter_cons_of_neg (by simpa using hnil)] at hentries
        exact ⟨d, .inl ⟨hnil, rfl⟩, entries, hentries, rfl⟩
      · rw [List.filter_cons_of_pos (by simpa using hnil)] at hentries
        cases hentries with
        | cons he hrest => exact ⟨_, .inr ⟨hnil, _, he, rfl⟩, _, hrest, rfl⟩

/-! ### The payloads that are written -/

/-- A line with another payload of the same length. -/
inductive Rewritten : Entry → Entry → Prop
  | sanitizer : Rewritten .sanitizer .sanitizer
  | comment (line : List Char) : Rewritten (.comment line) (.comment line)
  | payload (head : List Char) (channel : String) {bytes bytes' : List UInt8}
      (hlength : bytes'.length = bytes.length) :
      Rewritten (.payload head (channel, bytes)) (.payload head (channel, bytes'))

theorem Rewritten.refl (e : Entry) : Rewritten e e := by
  cases e with
  | sanitizer => exact .sanitizer
  | comment line => exact .comment line
  | payload head event => exact .payload head event.1 rfl

/-- Other payloads of the same lengths are those of rewritten lines. -/
theorem exists_rewritten {entries : List Entry} {events' : List Event}
    (h : shape events' = shape (entryEvents entries)) :
    ∃ entries', List.Forall₂ Rewritten entries entries' ∧ entryEvents entries' = events' := by
  induction entries generalizing events' with
  | nil =>
    rw [List.map_eq_nil_iff.1 h]
    exact ⟨[], .nil, rfl⟩
  | cons e entries ih =>
    cases e with
    | sanitizer =>
      obtain ⟨entries', hentries, hevents⟩ := ih h
      exact ⟨.sanitizer :: entries', .cons .sanitizer hentries, hevents⟩
    | comment line =>
      obtain ⟨entries', hentries, hevents⟩ := ih h
      exact ⟨.comment line :: entries', .cons (.comment line) hentries, hevents⟩
    | payload head event =>
      obtain ⟨event', rest, rfl, hevent, hrest⟩ := List.map_eq_cons_iff.1 h
      obtain ⟨entries', hentries, rfl⟩ := ih hrest
      obtain ⟨channel, bytes⟩ := event
      obtain ⟨channel', bytes'⟩ := event'
      obtain ⟨rfl, hlength⟩ := Prod.mk.inj hevent
      exact ⟨.payload head (channel', bytes') :: entries',
        .cons (.payload head channel' hlength) hentries, rfl⟩

/-- The lines of the draft, and where its payloads are. -/
theorem patch_foldl {entries entries' : List Entry} (h : List.Forall₂ Rewritten entries entries')
    (d : Draft) :
    ∃ added, (entries.foldl Draft.add d).payloadLines = d.payloadLines ++ added ∧
      (entries.foldl Draft.add d).outLines = d.outLines ++ entries.map Entry.blank ∧
        ∀ done, done.length = d.outLines.length →
          patch (added.zip (entryEvents entries')) (done ++ entries.map Entry.blank) =
            done ++ entries'.map Entry.render := by
  induction h generalizing d with
  | nil => exact ⟨[], by simp, by simp, fun done _ => rfl⟩
  | @cons e e' entries entries' he _ ih =>
    obtain ⟨added, hpayloads, hlines, hpatch⟩ := ih (d.add e)
    rw [List.foldl_cons, hpayloads, hlines]
    cases he with
    | sanitizer =>
      refine ⟨added, rfl, by simp [Draft.add, Entry.blank], fun done hdone => ?_⟩
      have hrest := hpatch (done ++ [sanitizerLine]) (by simp [Draft.add, hdone])
      simpa [Entry.blank, Entry.render] using hrest
    | comment line =>
      refine ⟨added, rfl, by simp [Draft.add, Entry.blank], fun done hdone => ?_⟩
      have hrest := hpatch (done ++ [line]) (by simp [Draft.add, hdone])
      simpa [Entry.blank, Entry.render] using hrest
    | @payload head channel bytes bytes' hlength =>
      refine ⟨(d.outLines.length, head) :: added,
        by simp [Draft.add], by simp [Draft.add, Entry.blank],
        fun done hdone => ?_⟩
      have hrest := hpatch (done ++ [head ++ ' ' :: encodeHex bytes']) (by simp [Draft.add, hdone])
      have hset : (done ++ [] :: entries.map Entry.blank).set d.outLines.length
          (head ++ ' ' :: encodeHex bytes') =
            done ++ [head ++ ' ' :: encodeHex bytes'] ++ entries.map Entry.blank := by
        rw [← hdone, List.set_append_right _ _ (Nat.le_refl _), Nat.sub_self, List.set_cons_zero,
          List.append_assoc, List.singleton_append]
      rw [entryEvents_payload, List.zip_cons_cons, patch, List.map_cons, Entry.blank, hset, hrest,
        List.map_cons, List.append_assoc]
      rfl

theorem events_foldl (entries : List Entry) (d : Draft) :
    (entries.foldl Draft.add d).events = d.events ++ entryEvents entries := by
  induction entries generalizing d with
  | nil => exact (List.append_nil _).symm
  | cons e entries ih =>
    rw [List.foldl_cons, ih]
    cases e with
    | sanitizer => rfl
    | comment line => rfl
    | payload head event =>
      rw [entryEvents_payload, Draft.add, List.append_assoc]
      rfl

theorem sawSanitizerHeader_foldl (entries : List Entry) (d : Draft) :
    (entries.foldl Draft.add d).sawSanitizerHeader = true ↔
      d.sawSanitizerHeader = true ∨ .sanitizer ∈ entries := by
  induction entries generalizing d with
  | nil => simp
  | cons e entries ih =>
    rw [List.foldl_cons, ih]
    cases e <;> simp [Draft.add]

/-- The lines that are written, with that of the sanitizer. -/
def marked (entries : List Entry) : List Entry :=
  if .sanitizer ∈ entries then entries else .sanitizer :: entries

theorem mem_marked (entries : List Entry) : .sanitizer ∈ marked entries := by
  rw [marked]
  split_ifs with h
  · exact h
  · exact List.mem_cons_self

theorem marked_eq_self {entries : List Entry} (h : .sanitizer ∈ entries) :
    marked entries = entries :=
  if_pos h

theorem entryEvents_marked (entries : List Entry) :
    entryEvents (marked entries) = entryEvents entries := by
  rw [marked]
  split_ifs <;> rfl

theorem mem_sanitizer_iff {entries entries' : List Entry}
    (h : List.Forall₂ Rewritten entries entries') :
    .sanitizer ∈ entries ↔ .sanitizer ∈ entries' := by
  induction h with
  | nil => rfl
  | cons he _ ih => cases he <;> simp [ih]

/-! ### Comments -/

/-- A comment that is written is clean. -/
def CleanComment (line : List Char) : Prop :=
  line.head? = some '#' → scan (utf8 (String.ofList line.tail)) = []

theorem checkComments_eq_ok {ls : List (List Char)} {u : Unit} :
    checkComments t ls = .ok u ↔ ∀ line ∈ ls, CleanComment line := by
  induction ls with
  | nil => simp [checkComments]
  | cons line ls ih =>
    rw [checkComments, Except.bind_eq_ok, List.forall_mem_cons, ← ih]
    simp only [rejectIf_eq_ok, not_and, not_not]
    constructor
    · rintro ⟨-, hline, hls⟩
      exact ⟨hline, hls⟩
    · rintro ⟨hline, hls⟩
      exact ⟨⟨⟩, hline, hls⟩

theorem sanitizerLine_eq : sanitizerLine = '#' :: " sanitizer: wingcapture/3".toList := by
  decide +kernel

theorem scan_sanitizerLine :
    scan (utf8 (String.ofList " sanitizer: wingcapture/3".toList)) = [] := by
  decide +kernel

theorem readsAs_sanitizerLine : ReadsAs sanitizerLine .sanitizer := by
  rw [sanitizerLine_eq]
  exact .sanitizer scan_sanitizerLine (by decide +kernel)

theorem cleanComment_sanitizerLine : CleanComment sanitizerLine := fun _ => by
  rw [sanitizerLine_eq]
  exact scan_sanitizerLine

end Wingcapture

end LibWing
