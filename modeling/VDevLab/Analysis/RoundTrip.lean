import VDevLab.Analysis.Windows
import VDevLab.Lib.JsonPrefix

/-!
# Written logs are read back

A log of JSON objects, one a line and joined by line feeds, with blank lines
wherever one likes. What the parser ought to make of it is said without the
parser: the events in order, each on its line, or an error about the first
line that breaks a rule.

The parser does so as long as its own lines are these lines. It cuts at every
boundary of `str.splitlines`, and JSON allows U+0085, U+2028 and U+2029 inside
a string as they are. A line with one of them is cut inside a string, and what
is left of it is no JSON text. The other way out is the `ValueError` of an
integer with too many digits, which is no decoding error.
-/

namespace VDevLab.Analysis

open Check PyStr

/-! ## The log as it is written -/

inductive WrittenLine
  | blank (text : PyStr)
  | object (text : PyStr) (document : PyDict)

namespace WrittenLine

def text : WrittenLine → PyStr
  | .blank text => text
  | .object text _ => text

/-- A blank line is one line; the text of an object is any serialization
without a line feed or carriage return. -/
def Written : WrittenLine → Prop
  | .blank text => isBlank text = true ∧ ∀ c ∈ text, isLineBreak c = false
  | .object text document =>
      Json.Rfc8259 text (.dict document) ∧ ch '\n' ∉ text ∧ ch '\r' ∉ text

end WrittenLine

/-- The lines, joined by line feeds. -/
def logText (lines : List WrittenLine) : PyStr := join [ch '\n'] (lines.map WrittenLine.text)

/-- The objects with the numbers of their lines, the first of which is `line`. -/
def numbered (line : Nat) : List WrittenLine → List (Nat × PyDict)
  | [] => []
  | .blank _ :: lines => numbered (line + 1) lines
  | .object _ document :: lines => (line, document) :: numbered (line + 1) lines

/-- An event to be logged. -/
structure LoggedEvent where
  timestampMs : Nat
  event : PyStr
  fields : PyDict
  named : isBlank event = false
  nodup : (fields.map Prod.fst).Nodup
  free : ∀ kv ∈ fields, kv.1 ≠ .str (py "timestamp_ms") ∧ kv.1 ≠ .str (py "event")

/-- The object of an event. -/
def LoggedEvent.document (e : LoggedEvent) : PyDict :=
  (.str (py "timestamp_ms"), .int e.timestampMs) :: (.str (py "event"), .str e.event) :: e.fields

/-- The event rules, for an object with the given timestamp behind an event
with the previous one. -/
structure Obeys (previous : Option Int) (document : PyDict) (timestampMs : Int) : Prop where
  timestamp : document.get? (py "timestamp_ms") = some (.int timestampMs)
  nonneg : 0 ≤ timestampMs
  ordered : ∀ p ∈ previous, p ≤ timestampMs
  named : ∃ name, document.get? (py "event") = some (.str name) ∧ isBlank name = false

/-- The number of the first line that breaks a rule. -/
inductive FirstViolation : Option Int → List (Nat × PyDict) → Nat → Prop
  | here {previous line document rest} : (∀ t, ¬ Obeys previous document t) →
      FirstViolation previous ((line, document) :: rest) line
  | later {previous line document rest t k} : Obeys previous document t →
      FirstViolation (some t) rest k → FirstViolation previous ((line, document) :: rest) k

/-- An event that was read is the one that was logged. -/
structure ReadBack (read : ApplicationLogEvent) (e : LoggedEvent) : Prop where
  timestampMs : read.timestampMs = e.timestampMs
  event : read.event = e.event
  fields : PyValue.Same (.dict read.fields) (.dict e.fields)

/-- The log is read back. -/
structure RoundTrip (lim : IntLimit) (lines : List WrittenLine) : Prop where
  events : ∀ events : List LoggedEvent, (events.map (·.timestampMs)).Pairwise (· ≤ ·) →
    List.Forall₂ (fun l e => PyValue.Same (.dict l.2) (.dict e.document)) (numbered 1 lines) events →
    ∃ reads, parseApplicationLog lim (logText lines) = .ok reads ∧
      reads.map (·.line) = (numbered 1 lines).map Prod.fst ∧ List.Forall₂ ReadBack reads events
  violation : ∀ k, FirstViolation none (numbered 1 lines) k →
    ∃ message, parseApplicationLog lim (logText lines) = .error (.applicationLogError k message)

/-! ## What the parser asks for besides -/

/-- The text up to a boundary of `str.splitlines`. -/
def firstPiece (text : PyStr) : PyStr := text.takeWhile fun c => !isLineBreak c

/-- No line before the first that breaks a rule has another boundary in it or
an integer beyond the digit limit; in that line itself there is no such
integer before a boundary. -/
def Intact (lim : IntLimit) : Option Int → List WrittenLine → Prop
  | _, [] => True
  | previous, .blank _ :: lines => Intact lim previous lines
  | previous, .object text document :: lines =>
      (∀ t, Obeys previous document t → (∀ c ∈ text, isLineBreak c = false) ∧
        Json.loads lim text ≠ .error .value ∧ Intact lim (some t) lines) ∧
      ((∀ t, ¬ Obeys previous document t) → Json.loads lim (firstPiece text) ≠ .error .value)

/-! ## One object -/

theorem Obeys.unique {previous previous' : Option Int} {d : PyDict} {t t' : Int}
    (h : Obeys previous d t) (h' : Obeys previous' d t') : t = t' := by
  cases h.timestamp.symm.trans h'.timestamp
  rfl

theorem requireEventName_eq_ok {v : PyValue} {line : Nat} {name : PyStr} :
    requireEventName v line = .ok name ↔ v = .str name ∧ isBlank name = false := by
  cases v with
  | str s =>
    simp only [requireEventName, ite_error_eq_ok, Except.ok.injEq, PyValue.str.injEq,
      Bool.not_eq_true]
    constructor
    · intro h
      obtain ⟨hs, rfl⟩ := h
      exact ⟨rfl, hs⟩
    · intro h
      obtain ⟨rfl, hs⟩ := h
      exact ⟨hs, rfl⟩
  | _ => simp [requireEventName]

theorem getOrNone_eq {d : PyDict} {key : String} {v : PyValue} (hne : v ≠ .none) :
    getOrNone d key = v ↔ d.get? (py key) = some v := by
  rw [getOrNone]
  cases d.get? (py key) with
  | none => simpa using Ne.symm hne
  | some w => simp

theorem getOrNone_eq_int {d : PyDict} {key : String} {n : Int} :
    getOrNone d key = .int n ↔ d.get? (py key) = some (.int n) :=
  getOrNone_eq (by simp)

theorem getOrNone_eq_str {d : PyDict} {key : String} {s : PyStr} :
    getOrNone d key = .str s ↔ d.get? (py key) = some (.str s) :=
  getOrNone_eq (by simp)

/-- An object is an event exactly when it obeys the rules. -/
theorem parseRecord_eq_ok {line : Nat} {previous : Option Int} {d : PyDict}
    {event : ApplicationLogEvent} : parseRecord line previous (.dict d) = .ok event ↔
      Obeys previous d event.timestampMs ∧ event.line = line ∧
        d.get? (py "event") = some (.str event.event) ∧ event.fields = extraFields d := by
  simp only [parseRecord, bind_eq_ok, refuse_eq_ok, pure_eq_ok, requireNonnegativeInteger_eq_ok,
    requireEventName_eq_ok, getOrNone_eq_int, getOrNone_eq_str]
  constructor
  · intro h
    obtain ⟨t, ⟨htimestamp, hnonneg⟩, _, hordered, name, ⟨hevent, hnamed⟩, rfl⟩ := h
    refine ⟨⟨htimestamp, hnonneg, ?_, name, hevent, hnamed⟩, rfl, hevent, rfl⟩
    intro p hp
    by_contra hlt
    exact hordered ⟨p, hp, not_le.mp hlt⟩
  · intro h
    obtain ⟨⟨htimestamp, hnonneg, hordered, name, hevent, hnamed⟩, hline, hname, hfields⟩ := h
    cases hevent.symm.trans hname
    refine ⟨_, ⟨htimestamp, hnonneg⟩, (), ?_, _, ⟨hevent, hnamed⟩, ?_⟩
    · intro h
      obtain ⟨p, hp, hlt⟩ := h
      exact absurd (hordered p hp) (not_le.mpr hlt)
    · rw [← hline, ← hfields]

theorem parseRecord_of_obeys {previous : Option Int} {d : PyDict} {t : Int}
    (h : Obeys previous d t) (line : Nat) : ∃ event,
      parseRecord line previous (.dict d) = .ok event ∧ event.timestampMs = t := by
  obtain ⟨name, hname, -⟩ := h.named
  exact ⟨⟨line, t, name, extraFields d⟩, parseRecord_eq_ok.mpr ⟨h, rfl, hname, rfl⟩, rfl⟩

theorem parseRecord_of_violation {previous : Option Int} {d : PyDict}
    (h : ∀ t, ¬ Obeys previous d t) (line : Nat) :
    ∃ message, parseRecord line previous (.dict d) = .error (.applicationLogError line message) := by
  cases hrecord : parseRecord line previous (.dict d) with
  | ok event => exact absurd (parseRecord_eq_ok.mp hrecord).1 (h _)
  | error e =>
    obtain ⟨text, rfl⟩ := parseRecord_error hrecord
    exact ⟨py text, rfl⟩

/-! ## The lines of the parser -/

/-- The objects as records, one after the other. -/
def readRecords : Option Int → List (Nat × PyDict) → Except Raised (List ApplicationLogEvent)
  | _, [] => .ok []
  | previous, (line, document) :: rest => do
      let event ← parseRecord line previous (.dict document)
      let events ← readRecords (some event.timestampMs) rest
      return event :: events

/-- Errors name the line of an object. -/
theorem readRecords_error {previous : Option Int} {objects : List (Nat × PyDict)} {e : Raised}
    (h : readRecords previous objects = .error e) :
    ∃ o ∈ objects, ∃ message, e = .applicationLogError o.1 message := by
  induction objects generalizing previous with
  | nil => cases h
  | cons o objects ih =>
    rcases bind_eq_error.mp h with herr | ⟨event, -, h⟩
    · obtain ⟨text, rfl⟩ := parseRecord_error herr
      exact ⟨o, List.mem_cons_self, py text, rfl⟩
    · rcases bind_eq_error.mp h with herr | ⟨_, -, h⟩
      · obtain ⟨o', ho', hmessage⟩ := ih herr
        exact ⟨o', List.mem_cons_of_mem o ho', hmessage⟩
      · cases h

theorem numbered_le {line : Nat} {lines : List WrittenLine} : ∀ o ∈ numbered line lines,
    line ≤ o.1 := by
  induction lines generalizing line with
  | nil => simp [numbered]
  | cons l lines ih =>
    intro o ho
    cases l with
    | blank _ => exact Nat.le_of_succ_le (ih o ho)
    | object _ _ =>
      rcases List.mem_cons.mp ho with rfl | ho
      · exact le_rfl
      · exact Nat.le_of_succ_le (ih o ho)

theorem logText_cons_cons (l l' : WrittenLine) (lines : List WrittenLine) :
    logText (l :: l' :: lines) = l.text ++ ch '\n' :: logText (l' :: lines) := by
  simp [logText, join]

theorem logText_singleton (l : WrittenLine) : logText [l] = l.text := by
  simp [logText, join]

theorem parseLines_blank {lim : IntLimit} {line : Nat} {previous : Option Int} {raw : PyStr}
    (h : isBlank raw = true) (rest : List PyStr) :
    parseLines lim line previous (raw :: rest) = parseLines lim (line + 1) previous rest := by
  rw [parseLines, if_pos h]

/-- A text without boundaries is one line, or none. -/
theorem splitlines_of_whole {text : PyStr} (h : ∀ c ∈ text, isLineBreak c = false) :
    splitlines text = if text = [] then [] else [text] := by
  have hfrom : ∀ acc, splitlinesFrom acc false text =
      if acc.reverse ++ text = [] then [] else [acc.reverse ++ text] := by
    induction text with
    | nil => simp [splitlinesFrom]
    | cons c text ih =>
      intro acc
      rw [splitlinesFrom, Bool.false_and, if_neg (by decide), h c List.mem_cons_self,
        if_neg (by decide), ih (fun d hd => h d (List.mem_cons_of_mem c hd))]
      simp
  have hwhole := hfrom []
  rwa [List.reverse_nil, List.nil_append] at hwhole

/-- A line without other boundaries is a line of the parser. -/
theorem parseLines_logText {lim : IntLimit} {l : WrittenLine} (lines : List WrittenLine)
    (h : ∀ c ∈ l.text, isLineBreak c = false) (line : Nat) (previous : Option Int) :
    parseLines lim line previous (splitlines (logText (l :: lines))) =
      parseLines lim line previous (l.text :: splitlines (logText lines)) := by
  cases lines with
  | cons l' lines => rw [logText_cons_cons, splitlines_line h]
  | nil =>
    have hnil : splitlines (logText []) = [] := rfl
    rw [logText_singleton, splitlines_of_whole h, hnil]
    split
    · next hempty =>
      -- an empty last line is no line, and a blank one is skipped
      rw [hempty, parseLines_blank rfl]
      rfl
    · rfl

/-- A boundary ends the line of the parser, whatever is behind it. -/
theorem splitlines_cut {text : PyStr} {b : CodePoint} (h : ∀ c ∈ text, isLineBreak c = false)
    (hb : isLineBreak b = true) (rest : PyStr) :
    ∃ more, splitlines (text ++ b :: rest) = text :: more := by
  have hfrom : ∀ acc, ∃ more,
      splitlinesFrom acc false (text ++ b :: rest) = (acc.reverse ++ text) :: more := by
    induction text with
    | nil =>
      intro acc
      exact ⟨_, by
        rw [List.nil_append, splitlinesFrom, Bool.false_and, if_neg (by decide), if_pos hb,
          List.append_nil]⟩
    | cons c text ih =>
      intro acc
      obtain ⟨more, hmore⟩ := ih (fun d hd => h d (List.mem_cons_of_mem c hd)) (c :: acc)
      refine ⟨more, ?_⟩
      rw [List.cons_append, splitlinesFrom, Bool.false_and, if_neg (by decide),
        h c List.mem_cons_self, if_neg (by decide), hmore]
      simp
  have hpiece := hfrom []
  rwa [List.reverse_nil, List.nil_append] at hpiece

section Objects

variable {lim : IntLimit} {text : PyStr} {document : PyDict}
  (hwritten : (WrittenLine.object text document).Written)

/-- The boundaries besides line feed and carriage return are no characters of
a token. -/
theorem foreign_of_isLineBreak {b : CodePoint} (hb : isLineBreak b = true) (hlf : b ≠ ch '\n')
    (hcr : b ≠ ch '\r') : Json.Foreign b := by
  have hrange : b.val < 0x20 ∨ 0x7e < b.val := by
    simp only [isLineBreak, Bool.or_eq_true, Bool.and_eq_true, decide_eq_true_eq,
      beq_iff_eq] at hb
    omega
  refine ⟨hrange, ?_⟩
  cases hws : Json.isWs b with
  | false => rfl
  | true =>
    simp only [Json.isWs, Bool.or_eq_true, beq_iff_eq] at hws
    rcases hws with ((rfl | rfl) | rfl) | rfl
    · exact absurd hb (by decide)
    · exact absurd hb (by decide)
    · exact absurd rfl hlf
    · exact absurd rfl hcr

include hwritten

/-- The brace is in the first piece. -/
theorem brace_mem_firstPiece : ch '\x7b' ∈ firstPiece text := by
  obtain ⟨hjson, hlf, hcr⟩ := hwritten
  obtain ⟨before, rest, hbefore, rfl⟩ := Json.Text.brace hjson
  have hkeep : ∀ c ∈ before, (!isLineBreak c) = true := by
    intro c hc
    have hws := hbefore c hc
    simp only [Json.isWs, Bool.or_eq_true, beq_iff_eq] at hws
    rcases hws with ((rfl | rfl) | rfl) | rfl
    · decide
    · decide
    · exact absurd (List.mem_append_left _ hc) hlf
    · exact absurd (List.mem_append_left _ hc) hcr
  rw [firstPiece, List.takeWhile_append_of_pos hkeep, List.takeWhile_cons, if_pos (by decide)]
  simp

theorem firstPiece_notBlank : isBlank (firstPiece text) = false := by
  rw [isBlank, List.all_eq_false]
  exact ⟨_, brace_mem_firstPiece hwritten, by decide⟩

/-- A line is read whole, or cut at a boundary into a piece that does not
load. -/
theorem object_whole_or_cut : ((∀ c ∈ text, isLineBreak c = false) ∧ firstPiece text = text ∧
      (Json.loads lim text = .ok (.dict document) ∨ Json.loads lim text = .error .value)) ∨
    (¬(∀ c ∈ text, isLineBreak c = false) ∧ (∀ v, Json.loads lim (firstPiece text) ≠ .ok v) ∧
      ∀ rest, ∃ more, splitlines (text ++ rest) = firstPiece text :: more) := by
  obtain ⟨hjson, hlf, hcr⟩ := hwritten
  by_cases hwhole : ∀ c ∈ text, isLineBreak c = false
  · left
    refine ⟨hwhole, ?_, hjson.loads lim⟩
    rw [firstPiece, List.takeWhile_eq_self_iff]
    intro c hc
    rw [hwhole c hc]
    rfl
  · right
    have hpiece : ∀ c ∈ firstPiece text, isLineBreak c = false := by
      intro c hc
      simpa using List.mem_takeWhile_imp hc
    have hsplit : text = firstPiece text ++ text.dropWhile fun c => !isLineBreak c :=
      (List.takeWhile_append_dropWhile).symm
    cases htail : text.dropWhile fun c => !isLineBreak c with
    | nil =>
      rw [htail, List.append_nil] at hsplit
      rw [← hsplit] at hpiece
      exact absurd hpiece hwhole
    | cons b tail =>
      rw [htail] at hsplit
      have hb : isLineBreak b = true := by
        have := List.head_dropWhile_not (p := fun c => !isLineBreak c) (l := text) (by simp [htail])
        simpa [htail] using this
      have hmem : b ∈ text := by
        rw [hsplit]
        simp
      have hforeign := foreign_of_isLineBreak hb (fun h => hlf (h ▸ hmem)) fun h => hcr (h ▸ hmem)
      refine ⟨hwhole, ?_, ?_⟩
      · intro v
        rw [hsplit] at hjson
        exact hjson.cut hforeign lim v
      · intro rest
        have hcut := splitlines_cut hpiece hb (tail ++ rest)
        rwa [← List.cons_append, ← List.append_assoc, ← hsplit] at hcut

end Objects

/-! ## Running over the lines -/

theorem parseLines_object {lim : IntLimit} {line : Nat} {previous : Option Int} {raw : PyStr}
    (h : isBlank raw = false) (rest : List PyStr) :
    parseLines lim line previous (raw :: rest) = (do
      let event ← parseLine lim line previous raw
      let events ← parseLines lim (line + 1) (some event.timestampMs) rest
      return event :: events) := by
  rw [parseLines, if_neg (by simp [h])]

/-- The parser fails with the line's own failure. -/
theorem parseLines_error_of_line {lim : IntLimit} {line : Nat} {previous : Option Int}
    {raw : PyStr} (h : isBlank raw = false) {e : Raised}
    (herr : parseLine lim line previous raw = .error e) (rest : List PyStr) :
    parseLines lim line previous (raw :: rest) = .error e := by
  rw [parseLines_object h, herr]
  rfl

section Run

variable {lim : IntLimit}

/-- A blank line is counted and skipped. -/
theorem parseLines_blankLine {text : PyStr} (hwritten : (WrittenLine.blank text).Written)
    (lines : List WrittenLine) (line : Nat) (previous : Option Int) :
    parseLines lim line previous (splitlines (logText (.blank text :: lines))) =
      parseLines lim (line + 1) previous (splitlines (logText lines)) := by
  have htext : ∀ c ∈ (WrittenLine.blank text).text, isLineBreak c = false := hwritten.2
  rw [parseLines_logText lines htext, WrittenLine.text, parseLines_blank hwritten.1]

/-- The first piece of a line that is cut decides. -/
theorem parseLines_cut {text : PyStr} {d : PyDict}
    (hwritten : (WrittenLine.object text d).Written)
    (hload : ∀ v, Json.loads lim (firstPiece text) ≠ .ok v)
    (hcut : ∀ rest, ∃ more, splitlines (text ++ rest) = firstPiece text :: more)
    (lines : List WrittenLine) (line : Nat) (previous : Option Int) :
    ∃ e, parseLines lim line previous (splitlines (logText (.object text d :: lines))) = .error e ∧
      (Json.loads lim (firstPiece text) = .error .value ∧ e = .intLimit ∨
        Json.loads lim (firstPiece text) ≠ .error .value ∧
          e = .applicationLogError line (py "invalid JSON")) := by
  have hpieces : ∃ more, splitlines (logText (.object text d :: lines)) =
      firstPiece text :: more := by
    cases lines with
    | nil =>
      obtain ⟨more, hmore⟩ := hcut []
      rw [List.append_nil] at hmore
      exact ⟨more, by rw [logText_singleton, WrittenLine.text, hmore]⟩
    | cons l lines =>
      rw [logText_cons_cons]
      exact hcut _
  obtain ⟨more, hmore⟩ := hpieces
  rw [hmore]
  cases hresult : Json.loads lim (firstPiece text) with
  | ok v => exact absurd hresult (hload v)
  | error e =>
    have herr : ∃ e', parseLine lim line previous (firstPiece text) = .error e' ∧
        (e = .value ∧ e' = .intLimit ∨
          e ≠ .value ∧ e' = .applicationLogError line (py "invalid JSON")) := by
      rw [parseLine, hresult]
      cases e with
      | decode => exact ⟨_, rfl, .inr ⟨by decide, rfl⟩⟩
      | value => exact ⟨_, rfl, .inl ⟨rfl, rfl⟩⟩
    obtain ⟨e', he', hcases⟩ := herr
    refine ⟨e', parseLines_error_of_line (firstPiece_notBlank hwritten) he' more, ?_⟩
    simpa using hcases

/-- A line that is read whole is the record of its object. -/
theorem parseLines_whole {text : PyStr} {d : PyDict}
    (hwritten : (WrittenLine.object text d).Written) (hwhole : ∀ c ∈ text, isLineBreak c = false)
    (hpiece : firstPiece text = text) (hload : Json.loads lim text = .ok (.dict d))
    (lines : List WrittenLine) (line : Nat) (previous : Option Int) :
    parseLines lim line previous (splitlines (logText (.object text d :: lines))) = (do
      let event ← parseRecord line previous (.dict d)
      let events ← parseLines lim (line + 1) (some event.timestampMs) (splitlines (logText lines))
      return event :: events) := by
  have hblank : isBlank text = false := hpiece ▸ firstPiece_notBlank hwritten
  have htext : ∀ c ∈ (WrittenLine.object text d).text, isLineBreak c = false := hwhole
  rw [parseLines_logText lines htext, WrittenLine.text, parseLines_object hblank, parseLine, hload]

/-- The plain `ValueError` is nobody's. -/
theorem parseLines_overlong {text : PyStr} {d : PyDict}
    (hwritten : (WrittenLine.object text d).Written) (hwhole : ∀ c ∈ text, isLineBreak c = false)
    (hpiece : firstPiece text = text) (hload : Json.loads lim text = .error .value)
    (lines : List WrittenLine) (line : Nat) (previous : Option Int) :
    parseLines lim line previous (splitlines (logText (.object text d :: lines))) =
      .error .intLimit := by
  have hblank : isBlank text = false := hpiece ▸ firstPiece_notBlank hwritten
  have hline : parseLine lim line previous text = .error .intLimit := by rw [parseLine, hload]
  have htext : ∀ c ∈ (WrittenLine.object text d).text, isLineBreak c = false := hwhole
  rw [parseLines_logText lines htext]
  exact parseLines_error_of_line hblank hline _

/-- An intact log is read record by record; an error is about the same line. -/
theorem parseLines_intact {lines : List WrittenLine} : ∀ {line : Nat} {previous : Option Int},
    (∀ l ∈ lines, l.Written) → Intact lim previous lines →
    (∀ events, readRecords previous (numbered line lines) = .ok events →
      parseLines lim line previous (splitlines (logText lines)) = .ok events) ∧
    ∀ k message, readRecords previous (numbered line lines) =
        .error (.applicationLogError k message) →
      ∃ message', parseLines lim line previous (splitlines (logText lines)) =
        .error (.applicationLogError k message') := by
  induction lines with
  | nil =>
    intro line previous _ _
    constructor
    · intro events h
      cases h
      rfl
    · intro k message h
      cases h
  | cons l lines ih =>
    intro line previous hwritten hintact
    have hl := hwritten l List.mem_cons_self
    have hrest : ∀ l ∈ lines, l.Written := fun l' hl' => hwritten l' (List.mem_cons_of_mem l hl')
    cases l with
    | blank text =>
      rw [parseLines_blankLine hl]
      exact ih hrest hintact
    | object text d =>
      obtain ⟨hobeys, hviolates⟩ := hintact
      by_cases hrule : ∃ t, Obeys previous d t
      · -- the line is whole, and the record is that of the object
        obtain ⟨t, ht⟩ := hrule
        obtain ⟨hwhole, hvalue, hintact⟩ := hobeys t ht
        rcases object_whole_or_cut hl with ⟨-, hpiece, hload⟩ | ⟨hnot, -⟩
        · have hok := hload.resolve_right hvalue
          obtain ⟨event, hevent, rfl⟩ := parseRecord_of_obeys ht line
          obtain ⟨ihOk, ihError⟩ := ih hrest hintact
          rw [parseLines_whole hl hwhole hpiece hok, hevent, numbered, readRecords, hevent]
          simp only [ok_bind, bind_eq_ok, bind_eq_error, pure_eq_ok]
          constructor
          · rintro events ⟨more, hmore, rfl⟩
            exact ⟨more, ihOk more hmore, rfl⟩
          · rintro k message (herr | ⟨_, -, h⟩)
            · obtain ⟨message', herr'⟩ := ihError k message herr
              exact ⟨message', .inl herr'⟩
            · cases h
        · exact absurd hwhole hnot
      · have hnone : ∀ t, ¬ Obeys previous d t := fun t ht => hrule ⟨t, ht⟩
        obtain ⟨message, hrecord⟩ := parseRecord_of_violation hnone line
        have hread : readRecords previous (numbered line (.object text d :: lines)) =
            .error (.applicationLogError line message) := by
          rw [numbered, readRecords, hrecord]
          rfl
        have hparse : ∃ message', parseLines lim line previous
            (splitlines (logText (.object text d :: lines))) =
              .error (.applicationLogError line message') := by
          rcases object_whole_or_cut hl with ⟨hwhole, hpiece, hload⟩ | ⟨-, hload, hcut⟩
          · have hok := hload.resolve_right (hpiece ▸ hviolates hnone)
            rw [parseLines_whole hl hwhole hpiece hok, hrecord]
            exact ⟨message, rfl⟩
          · obtain ⟨e, he, ⟨hvalue, -⟩ | ⟨-, rfl⟩⟩ := parseLines_cut hl hload hcut lines line previous
            · exact absurd hvalue (hviolates hnone)
            · exact ⟨_, he⟩
        rw [hread]
        constructor
        · intro events h
          cases h
        · intro k message' h
          cases h
          exact hparse

/-- A log that is not intact ends in an error that is not the one to expect. -/
theorem parseLines_not_intact {lines : List WrittenLine} : ∀ {line : Nat} {previous : Option Int},
    (∀ l ∈ lines, l.Written) → ¬ Intact lim previous lines →
    ∃ e, parseLines lim line previous (splitlines (logText lines)) = .error e ∧
      ∀ k message, e = .applicationLogError k message →
        ∀ message', readRecords previous (numbered line lines) ≠
          .error (.applicationLogError k message') := by
  induction lines with
  | nil =>
    intro line previous _ hnot
    exact absurd trivial hnot
  | cons l lines ih =>
    intro line previous hwritten hnot
    have hl := hwritten l List.mem_cons_self
    have hrest : ∀ l ∈ lines, l.Written := fun l' hl' => hwritten l' (List.mem_cons_of_mem l hl')
    cases l with
    | blank text =>
      rw [parseLines_blankLine hl]
      exact ih hrest hnot
    | object text d =>
      by_cases hrule : ∃ t, Obeys previous d t
      · obtain ⟨t, ht⟩ := hrule
        obtain ⟨event, hevent, rfl⟩ := parseRecord_of_obeys ht line
        -- an error to expect would be about a line behind this one
        have hlater : ∀ k message', readRecords previous (numbered line (.object text d :: lines)) =
            .error (.applicationLogError k message') → line < k ∧
              readRecords (some event.timestampMs) (numbered (line + 1) lines) =
                .error (.applicationLogError k message') := by
          intro k message' h
          rw [numbered, readRecords, hevent, ok_bind] at h
          rcases bind_eq_error.mp h with herr | ⟨_, -, h⟩
          · obtain ⟨o, ho, _, hk⟩ := readRecords_error herr
            cases hk
            exact ⟨numbered_le o ho, herr⟩
          · cases h
        rcases object_whole_or_cut hl with ⟨hwhole, hpiece, hok | hvalue⟩ | ⟨-, hload, hcut⟩
        · have hnotRest : ¬ Intact lim (some event.timestampMs) lines := by
            intro hrest'
            apply hnot
            refine ⟨?_, fun hnone => absurd ht (hnone _)⟩
            intro t' ht'
            rw [← ht.unique ht']
            refine ⟨hwhole, ?_, hrest'⟩
            rw [hok]
            simp
          obtain ⟨e, he, hunexpected⟩ := ih hrest hnotRest
          refine ⟨e, ?_, fun k message hk message' h => ?_⟩
          · rw [parseLines_whole hl hwhole hpiece hok, hevent, ok_bind, he]
            rfl
          · exact hunexpected k message hk message' (hlater k message' h).2
        · refine ⟨.intLimit, parseLines_overlong hl hwhole hpiece hvalue lines line previous, ?_⟩
          intro k message hk
          cases hk
        · obtain ⟨e, he, ⟨-, rfl⟩ | ⟨-, rfl⟩⟩ := parseLines_cut hl hload hcut lines line previous
          · refine ⟨_, he, ?_⟩
            intro k message hk
            cases hk
          · refine ⟨_, he, ?_⟩
            intro k message hk message' h
            cases hk
            exact absurd (hlater line message' h).1 (lt_irrefl line)
      · have hnone : ∀ t, ¬ Obeys previous d t := fun t ht => hrule ⟨t, ht⟩
        have hvalue : Json.loads lim (firstPiece text) = .error .value := by
          by_contra hne
          exact hnot ⟨fun t ht => absurd ht (hnone t), fun _ => hne⟩
        rcases object_whole_or_cut hl with ⟨hwhole, hpiece, -⟩ | ⟨-, hload, hcut⟩
        · rw [hpiece] at hvalue
          refine ⟨.intLimit, parseLines_overlong hl hwhole hpiece hvalue lines line previous, ?_⟩
          intro k message hk
          cases hk
        · obtain ⟨e, he, ⟨-, rfl⟩ | ⟨hne, -⟩⟩ := parseLines_cut hl hload hcut lines line previous
          · refine ⟨_, he, ?_⟩
            intro k message hk
            cases hk
          · exact absurd hvalue hne

end Run

/-! ## Events and records -/

/-- The line of the first violation is the line of the error. -/
theorem firstViolation_iff {previous : Option Int} {objects : List (Nat × PyDict)} {k : Nat} :
    FirstViolation previous objects k ↔
      ∃ message, readRecords previous objects = .error (.applicationLogError k message) := by
  constructor
  · intro h
    induction h with
    | @here previous line d rest hnone =>
      obtain ⟨message, hrecord⟩ := parseRecord_of_violation hnone line
      exact ⟨message, by rw [readRecords, hrecord]; rfl⟩
    | @later previous line d rest t k ht _ ih =>
      obtain ⟨event, hevent, rfl⟩ := parseRecord_of_obeys ht line
      obtain ⟨message, hrest⟩ := ih
      exact ⟨message, by rw [readRecords, hevent, ok_bind, hrest]; rfl⟩
  · intro h
    obtain ⟨message, h⟩ := h
    induction objects generalizing previous with
    | nil => cases h
    | cons o objects ih =>
      obtain ⟨line, d⟩ := o
      rw [readRecords] at h
      by_cases hrule : ∃ t, Obeys previous d t
      · obtain ⟨t, ht⟩ := hrule
        obtain ⟨event, hevent, rfl⟩ := parseRecord_of_obeys ht line
        rw [hevent, ok_bind] at h
        rcases bind_eq_error.mp h with herr | ⟨_, -, h⟩
        · exact .later ht (ih herr)
        · cases h
      · have hnone : ∀ t, ¬ Obeys previous d t := fun t ht => hrule ⟨t, ht⟩
        obtain ⟨_, hrecord⟩ := parseRecord_of_violation hnone line
        rw [hrecord] at h
        cases h
        exact .here hnone

/-- The object of an event obeys the rules behind an earlier event. -/
theorem obeys_of_same {d : PyDict} (hkeyed : d.Keyed) {e : LoggedEvent}
    (hsame : PyValue.Same (.dict d) (.dict e.document)) {previous : Option Int}
    (hordered : ∀ p ∈ previous, p ≤ e.timestampMs) :
    Obeys previous d e.timestampMs ∧ d.get? (py "event") = some (.str e.event) ∧
      PyValue.Same (.dict (extraFields d)) (.dict e.fields) := by
  obtain ⟨entries, hentries, hperm, hdocument⟩ := hsame.dict_inv
  -- the entries of the document are the two of every event, and the fields
  match entries with
  | [] | [_] => simp [LoggedEvent.document] at hdocument
  | (k, v, v') :: (k₂, w, w') :: fields =>
    simp only [LoggedEvent.document, List.map_cons, List.cons.injEq, Prod.mk.injEq] at hdocument
    obtain ⟨⟨rfl, rfl⟩, ⟨rfl, rfl⟩, hfields⟩ := hdocument
    have hv := (hentries _ List.mem_cons_self).int
    have hw := (hentries _ (List.mem_cons_of_mem _ List.mem_cons_self)).str
    simp only at hv hw
    subst hv hw
    have hmem := fun kv => (hperm.mem_iff (a := kv)).mpr
    have htimestamp := PyDict.get?_of_mem hkeyed.nodup (hmem _ List.mem_cons_self)
    have hevent := PyDict.get?_of_mem hkeyed.nodup
      (hmem _ (List.mem_cons_of_mem _ List.mem_cons_self))
    refine ⟨⟨htimestamp, Int.natCast_nonneg _, hordered, _, hevent, e.named⟩, hevent, ?_⟩
    have hextra : (extraFields d).Perm (fields.map fun t => (t.1, t.2.1)) := by
      have hfilter := hperm.filter fun kv =>
        !(kv.1.eqStr (py "timestamp_ms") || kv.1.eqStr (py "event"))
      have hkeep : ∀ kv ∈ fields.map (fun t => (t.1, t.2.1)),
          (!(kv.1.eqStr (py "timestamp_ms") || kv.1.eqStr (py "event"))) = true := by
        intro kv hkv
        obtain ⟨t, ht, rfl⟩ := List.mem_map.mp hkv
        have hfree := e.free (t.1, t.2.2) (by
          rw [hfields]
          exact List.mem_map.mpr ⟨t, ht, rfl⟩)
        simp only [Bool.not_eq_true', Bool.or_eq_false_iff]
        exact ⟨Bool.eq_false_iff.mpr fun h => hfree.1 (PyValue.eqStr_iff.mp h),
          Bool.eq_false_iff.mpr fun h => hfree.2 (PyValue.eqStr_iff.mp h)⟩
      simp only [List.map_cons] at hfilter
      rw [List.filter_cons_of_neg (by simp), List.filter_cons_of_neg (by simp),
        List.filter_eq_self.mpr hkeep] at hfilter
      exact hfilter
    rw [hfields]
    exact .dict fields (fun t ht => hentries t (by simp [ht])) hextra

theorem mem_extraFields {d : PyDict} {kv : PyValue × PyValue} : kv ∈ extraFields d ↔
    kv ∈ d ∧ kv.1 ≠ .str (py "timestamp_ms") ∧ kv.1 ≠ .str (py "event") := by
  simp only [extraFields, List.mem_filter, Bool.not_eq_true', Bool.eq_false_iff, ne_eq,
    Bool.or_eq_true, not_or, PyValue.eqStr_iff]

/-- An object that obeys the rules is the object of an event. -/
theorem same_of_obeys {d : PyDict} (hkeyed : d.Keyed) {previous : Option Int} {t : Int}
    (h : Obeys previous d t) : ∃ e : LoggedEvent, e.timestampMs = t ∧
      PyValue.Same (.dict d) (.dict e.document) := by
  obtain ⟨htimestamp, hnonneg, -, name, hevent, hnamed⟩ := h
  obtain ⟨n, rfl⟩ := Int.eq_ofNat_of_zero_le hnonneg
  have hnodup : ((extraFields d).map Prod.fst).Nodup := (hkeyed.filter _).nodup
  have hfree : ∀ kv ∈ extraFields d,
      kv.1 ≠ .str (py "timestamp_ms") ∧ kv.1 ≠ .str (py "event") :=
    fun kv hkv => (mem_extraFields.mp hkv).2
  refine ⟨⟨n, name, extraFields d, hnamed, hnodup, hfree⟩, rfl, .of_perm ?_⟩
  have hdocument : (LoggedEvent.document
      ⟨n, name, extraFields d, hnamed, hnodup, hfree⟩).Nodup := by
    simp only [LoggedEvent.document, List.nodup_cons, List.mem_cons, Prod.mk.injEq,
      PyValue.str.injEq, not_or]
    refine ⟨⟨by simp [show py "timestamp_ms" ≠ py "event" by decide], ?_⟩, ?_, hnodup.of_map _⟩
    · intro hmem
      exact (hfree _ hmem).1 rfl
    · intro hmem
      exact (hfree _ hmem).2 rfl
  rw [List.perm_ext_iff_of_nodup (hkeyed.nodup.of_map _) hdocument]
  intro h
  obtain ⟨k, v⟩ := h
  simp only [LoggedEvent.document, List.mem_cons, Prod.mk.injEq, mem_extraFields]
  constructor
  · intro hmem
    by_cases hk : k = .str (py "timestamp_ms")
    · subst hk
      cases htimestamp.symm.trans (PyDict.get?_of_mem hkeyed.nodup hmem)
      exact .inl ⟨rfl, rfl⟩
    · by_cases hk' : k = .str (py "event")
      · subst hk'
        cases hevent.symm.trans (PyDict.get?_of_mem hkeyed.nodup hmem)
        exact .inr (.inl ⟨rfl, rfl⟩)
      · exact .inr (.inr ⟨hmem, hk, hk'⟩)
  · intro h
    rcases h with ⟨rfl, rfl⟩ | ⟨rfl, rfl⟩ | ⟨hmem, -⟩
    · exact PyDict.mem_of_get? htimestamp
    · exact PyDict.mem_of_get? hevent
    · exact hmem

section Events

variable {objects : List (Nat × PyDict)} (hkeyed : ∀ o ∈ objects, o.2.Keyed)

include hkeyed

theorem readRecords_of_events {previous : Option Int} {events : List LoggedEvent}
    (hordered : (events.map (·.timestampMs)).Pairwise (· ≤ ·))
    (hprevious : ∀ p ∈ previous, ∀ e ∈ events, p ≤ e.timestampMs)
    (hsame : List.Forall₂ (fun o e => PyValue.Same (.dict o.2) (.dict e.document))
      objects events) :
    ∃ reads, readRecords previous objects = .ok reads ∧
      reads.map (·.line) = objects.map Prod.fst ∧ List.Forall₂ ReadBack reads events := by
  induction hsame generalizing previous with
  | nil => exact ⟨[], rfl, rfl, .nil⟩
  | @cons o e objects events ho _ ih =>
    rw [List.map_cons, List.pairwise_cons] at hordered
    obtain ⟨hobeys, hname, hfields⟩ := obeys_of_same (hkeyed o List.mem_cons_self) ho
      fun p hp => hprevious p hp e List.mem_cons_self
    obtain ⟨event, hevent, htime⟩ := parseRecord_of_obeys hobeys o.1
    obtain ⟨-, hline, hname', hextra⟩ := parseRecord_eq_ok.mp hevent
    have hlater : ∀ p ∈ some event.timestampMs, ∀ e' ∈ events, p ≤ e'.timestampMs := by
      intro p hp e' he'
      cases Option.mem_some_iff.mp hp
      rw [htime]
      exact_mod_cast hordered.1 _ (List.mem_map.mpr ⟨e', he', rfl⟩)
    obtain ⟨reads, hreads, hlines, hback⟩ := ih
      (fun o' ho' => hkeyed o' (List.mem_cons_of_mem o ho')) hordered.2 hlater
    refine ⟨event :: reads, ?_, by simp [hline, hlines], .cons ⟨htime, ?_, ?_⟩ hback⟩
    · rw [readRecords, hevent, ok_bind, hreads]
      rfl
    · have heq := hname'.symm.trans hname
      simpa using heq
    · rw [hextra]
      exact hfields

theorem events_of_readRecords {previous : Option Int} {reads : List ApplicationLogEvent}
    (h : readRecords previous objects = .ok reads) :
    ∃ events : List LoggedEvent, (events.map (·.timestampMs)).Pairwise (· ≤ ·) ∧
      (∀ p ∈ previous, ∀ e ∈ events, p ≤ e.timestampMs) ∧
      List.Forall₂ (fun o e => PyValue.Same (.dict o.2) (.dict e.document)) objects events := by
  induction objects generalizing previous reads with
  | nil => exact ⟨[], .nil, by simp, .nil⟩
  | cons o objects ih =>
    obtain ⟨line, d⟩ := o
    simp only [readRecords, bind_eq_ok, pure_eq_ok] at h
    obtain ⟨event, hevent, more, hmore, rfl⟩ := h
    obtain ⟨hobeys, -⟩ := parseRecord_eq_ok.mp hevent
    obtain ⟨e, he, hsame⟩ := same_of_obeys (hkeyed _ List.mem_cons_self) hobeys
    obtain ⟨events, hordered, hlater, hrest⟩ :=
      ih (fun o' ho' => hkeyed o' (List.mem_cons_of_mem _ ho')) hmore
    have hfirst : ∀ e' ∈ events, e.timestampMs ≤ e'.timestampMs := by
      intro e' he'
      have := hlater _ rfl e' he'
      rw [← he] at this
      exact_mod_cast this
    refine ⟨e :: events, ?_, ?_, .cons hsame hrest⟩
    · rw [List.map_cons, List.pairwise_cons]
      exact ⟨fun n hn => by
        obtain ⟨e', he', rfl⟩ := List.mem_map.mp hn
        exact hfirst e' he', hordered⟩
    · intro p hp e' he'
      have hle := hobeys.ordered p hp
      rw [← he] at hle
      rcases List.mem_cons.mp he' with rfl | he'
      · exact hle
      · exact hle.trans (by exact_mod_cast hfirst e' he')

end Events

theorem numbered_keyed {lines : List WrittenLine} (h : ∀ l ∈ lines, l.Written) (line : Nat) :
    ∀ o ∈ numbered line lines, o.2.Keyed := by
  induction lines generalizing line with
  | nil => simp [numbered]
  | cons l lines ih =>
    have hrest := ih (fun l' hl' => h l' (List.mem_cons_of_mem l hl')) (line + 1)
    have hl := h l List.mem_cons_self
    cases l with
    | blank _ => exact hrest
    | object _ _ =>
      intro o ho
      rcases List.mem_cons.mp ho with rfl | ho
      · exact Json.Text.keyed hl.1
      · exact hrest o ho

/-! ## The round trip -/

theorem whole_of_all {t : PyStr} (h : t.all (fun c => !isLineBreak c) = true) :
    ∀ c ∈ t, isLineBreak c = false := by
  intro c hc
  simpa using List.all_eq_true.mp h c hc

/-- The members of an event without fields. -/
def bareMembers (timestamp name : PyStr) : List Json.Pair :=
  [{ before := [], text := timestamp, after := [], value := .int (natOfDigits timestamp), lead := [],
     nameText := py "timestamp_ms", name := py "timestamp_ms", gap := [] },
   { before := [], text := ch '"' :: (name ++ [ch '"']), after := [], value := .str name, lead := [],
     nameText := py "event", name := py "event", gap := [] }]

/-- Such an event in its shortest form. -/
def bareLine (timestamp name : PyStr) : PyStr :=
  py "\x7b\"timestamp_ms\":" ++ (timestamp ++ (py ",\"event\":\"" ++ (name ++ py "\"\x7d")))

def bareDocument (timestamp name : PyStr) : PyDict :=
  [(.str (py "timestamp_ms"), .int (natOfDigits timestamp)), (.str (py "event"), .str name)]

theorem bareLine_text {numeral : PyStr → Prop} {timestamp name : PyStr}
    (hnumeral : IsNumeral timestamp) (hadmitted : numeral timestamp)
    (hname : ∀ c ∈ name, Json.Plain c) :
    Json.Text numeral (bareLine timestamp name) (.dict (bareDocument timestamp name)) := by
  have hws : Json.Ws [] := by simp [Json.Ws]
  have hspaced : ∀ m ∈ bareMembers timestamp name, m.Spaced := by
    simp [bareMembers, Json.Pair.Spaced, Json.Item.Spaced, hws]
  have htimestamp : ∀ c ∈ py "timestamp_ms", Json.Plain c := Json.plain_of_all (by decide)
  have hevent : ∀ c ∈ py "event", Json.Plain c := Json.plain_of_all (by decide)
  have hnames : ∀ m ∈ bareMembers timestamp name, Json.Chars m.nameText m.name := by
    rw [bareMembers, List.forall_mem_cons, List.forall_mem_singleton]
    exact ⟨Json.chars_plain htimestamp, Json.chars_plain hevent⟩
  have hvalues : ∀ m ∈ bareMembers timestamp name, Json.Value numeral m.text m.value := by
    rw [bareMembers, List.forall_mem_cons, List.forall_mem_singleton]
    exact ⟨.number (@Json.Number.integer numeral false timestamp hnumeral hadmitted),
      .string (Json.chars_plain hname)⟩
  have hobject := Json.Value.object (by simp [bareMembers]) hspaced hnames hvalues
  have hkeys : ¬py "timestamp_ms" = py "event" := by decide
  have hdocument : Json.pairsDict [] (bareMembers timestamp name) = bareDocument timestamp name := by
    simp [Json.pairsDict, bareMembers, bareDocument, PyDict.insert, PyValue.eqStr, hkeys]
  have htext : bareLine timestamp name = ch '\x7b' ::
      (Json.listed ((bareMembers timestamp name).map Json.Pair.print) ++ [ch '\x7d']) := by
    have hfirst : py "\x7b\"timestamp_ms\":" =
        ch '\x7b' :: ch '"' :: (py "timestamp_ms" ++ [ch '"', ch ':']) := by decide
    have hsecond : py ",\"event\":\"" =
        ch ',' :: ch '"' :: (py "event" ++ [ch '"', ch ':', ch '"']) := by decide
    have hlast : py "\"\x7d" = [ch '"', ch '\x7d'] := by decide
    simp [bareLine, bareMembers, Json.Pair.print, Json.Item.print, hfirst, hsecond, hlast]
  rw [hdocument] at hobject
  exact ⟨[], _, [], hws, hobject, hws, by rw [htext, List.nil_append, List.append_nil]⟩

/-- A blank line and an event. -/
def plainLog : List WrittenLine :=
  [.blank (py " \t"), .object (bareLine (py "7") (py "STARTED")) (bareDocument (py "7") (py "STARTED"))]

theorem plainLog_written : ∀ l ∈ plainLog, l.Written := by
  rw [plainLog, List.forall_mem_cons, List.forall_mem_singleton]
  exact ⟨⟨by decide, whole_of_all (by decide)⟩,
    bareLine_text (by decide) trivial (Json.plain_of_all (by decide)), by decide, by decide⟩

/-- An event whose name holds U+2028. -/
def separatorLog : List WrittenLine :=
  [.object (bareLine (py "7") [ch 'A', 0x2028]) (bareDocument (py "7") [ch 'A', 0x2028])]

end VDevLab.Analysis
