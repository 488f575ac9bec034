import Mathlib.Data.List.TakeWhile
import VDevLab.Monitor.Loop

/-!
# Line framing of the client

What `consume_input` has to do with a stream of bytes, line by line, and what
it does: at the 4096th byte of a line it reports the line and starts over with
an empty buffer, so the rest of an oversized line is taken for a line of its
own. `process_line` works on a C string, so a line ends for it at its first
NUL.
-/

namespace VDevLab.Monitor

/-! ## The intended framing -/

/-- The lines of a stream, and the bytes behind the last newline; `line` is
what stands before. -/
def linesFrom (line : List UInt8) : List UInt8 → List (List UInt8) × List UInt8
  | [] => ([], line)
  | b :: data =>
      if b = 0x0a then (line :: (linesFrom [] data).1, (linesFrom [] data).2)
      else linesFrom (line ++ [b]) data

def streamLines (data : List UInt8) : List (List UInt8) × List UInt8 := linesFrom [] data

/-- The number that a whole line is: blanks, a text that `strtod` reads to a
finite value without an error, blanks. A NUL is neither. -/
def reading? (o : Options) (line : List UInt8) : Option Celsius :=
  let start := line.dropWhile isBlankByte
  let r := o.strtod start
  if h : r.value.isFinite = true then
    if 0 ∉ line ∧ r.errnoSet = false ∧ r.consumed ≠ 0 ∧
        (start.drop r.consumed).all isBlankByte = true then some ⟨r.value, h⟩
    else none
  else none

/-- The event of a line that fits the buffer. -/
def readingEvent (o : Options) (line : List UInt8) : LogLine :=
  match reading? o line with
  | some value => .temperature value
  | none => .simple .invalidInput

/-- The one event of a line. -/
def lineEvent (o : Options) (line : List UInt8) : LogLine :=
  if line.length < maxPendingBytes then readingEvent o line else .simple .inputTooLong

/-- The events of a stream. An unfinished line is reported as soon as it is
too long. -/
def framedEvents (o : Options) (data : List UInt8) : List LogLine :=
  (streamLines data).1.map (lineEvent o) ++
    (if (streamLines data).2.length < maxPendingBytes then [] else [.simple .inputTooLong])

/-! ## What the code does -/

/-- The bytes of a line that are in the buffer. -/
def pendingPart (line : List UInt8) : List UInt8 :=
  line.drop (maxPendingBytes * (line.length / maxPendingBytes))

theorem length_pendingPart (line : List UInt8) :
    (pendingPart line).length = line.length % maxPendingBytes := by
  rw [pendingPart, List.length_drop]
  have := Nat.div_add_mod line.length maxPendingBytes
  omega

def pendingBuffer (line : List UInt8) : InputBuffer :=
  ⟨pendingPart line, by rw [length_pendingPart]; exact Nat.mod_lt _ (by decide)⟩

/-- One report for every 4096 bytes. -/
def overflows (line : List UInt8) : List LogLine :=
  List.replicate (line.length / maxPendingBytes) (.simple .inputTooLong)

/-- The events of a line: the reports, and the event of what is left. -/
def cutEvents (o : Options) (line : List UInt8) : List LogLine :=
  overflows line ++ [processLine o (pendingPart line)]

/-- A byte that still fits. -/
theorem pendingPart_snoc {line : List UInt8} {b : UInt8}
    (h : line.length % maxPendingBytes + 1 < maxPendingBytes) :
    pendingPart (line ++ [b]) = pendingPart line ++ [b] ∧
      overflows (line ++ [b]) = overflows line := by
  have hdiv : (line.length + 1) / maxPendingBytes = line.length / maxPendingBytes := by
    simp only [maxPendingBytes] at h ⊢
    omega
  have hle : maxPendingBytes * (line.length / maxPendingBytes) ≤ line.length :=
    Nat.mul_div_le _ _
  constructor
  · rw [pendingPart, pendingPart, List.length_append, List.length_singleton, hdiv,
      List.drop_append_of_le_length hle]
  · rw [overflows, overflows, List.length_append, List.length_singleton, hdiv]

/-- The byte that does not. -/
theorem pendingPart_overflow {line : List UInt8} {b : UInt8}
    (h : ¬ line.length % maxPendingBytes + 1 < maxPendingBytes) :
    pendingPart (line ++ [b]) = [] ∧
      overflows (line ++ [b]) = overflows line ++ [.simple .inputTooLong] := by
  have hlt : line.length % maxPendingBytes < maxPendingBytes := Nat.mod_lt _ (by decide)
  have hdiv : (line.length + 1) / maxPendingBytes = line.length / maxPendingBytes + 1 := by
    simp only [maxPendingBytes] at h hlt ⊢
    omega
  constructor
  · rw [← List.length_eq_zero_iff, length_pendingPart, List.length_append, List.length_singleton]
    simp only [maxPendingBytes] at h hlt ⊢
    omega
  · rw [overflows, overflows, List.length_append, List.length_singleton, hdiv,
      List.replicate_succ']

/-- The whole stream, with the reports of the first line put back. -/
theorem consumeInput_cutEvents {o : Options} (ho : o.maxEvents = 0) (line : List UInt8)
    (n : UInt32) (data : List UInt8) :
    overflows line ++ (consumeInput o (pendingBuffer line) n data).lines =
      (linesFrom line data).1.flatMap (cutEvents o) ++ overflows (linesFrom line data).2 := by
  induction data generalizing line n with
  | nil => simp [consumeInput, linesFrom]
  | cons b data ih =>
    by_cases hb : b = 0x0a
    · have hrest := ih [] (countEvent (processLine o (pendingPart line)) n)
      have hempty : pendingBuffer [] = .empty := rfl
      have hnone : overflows [] = [] := rfl
      rw [hempty, hnone, List.nil_append] at hrest
      simp [consumeInput, linesFrom, hb, ho, pendingBuffer, cutEvents, hrest]
    · have hlen : (pendingBuffer line).data.length = line.length % maxPendingBytes :=
        length_pendingPart line
      have hrest := ih (line ++ [b]) n
      rw [linesFrom, if_neg hb, ← hrest, consumeInput, if_neg hb]
      by_cases hroom : line.length % maxPendingBytes + 1 < maxPendingBytes
      · obtain ⟨hpart, hover⟩ := @pendingPart_snoc line b hroom
        rw [dif_pos (by rw [hlen]; exact hroom), hover]
        simp only [pendingBuffer, hpart]
      · obtain ⟨hpart, hover⟩ := @pendingPart_overflow line b hroom
        have hempty : pendingBuffer (line ++ [b]) = .empty := by
          simp only [pendingBuffer, hpart]
          rfl
        rw [dif_neg (by rw [hlen]; exact hroom), hover, hempty]
        simp

/-- The events of a stream that starts at the beginning of a line. -/
theorem consumeInput_lines {o : Options} (ho : o.maxEvents = 0) (n : UInt32) (data : List UInt8) :
    (consumeInput o .empty n data).lines =
      (streamLines data).1.flatMap (cutEvents o) ++ overflows (streamLines data).2 :=
  consumeInput_cutEvents ho [] n data

/-! ## Short lines -/

theorem takeWhile_eq_self_of_not_mem {line : List UInt8} (h : 0 ∉ line) :
    line.takeWhile (fun c => decide (c ≠ 0)) = line := by
  rw [List.takeWhile_eq_self_iff]
  intro c hc
  simp only [ne_eq, decide_eq_true_eq]
  rintro rfl
  exact h hc

theorem not_mem_takeWhile (line : List UInt8) :
    0 ∉ line.takeWhile (fun c => decide (c ≠ 0)) := by
  intro h
  have := List.mem_takeWhile_imp h
  simp at this

/-- `process_line` reads the line up to its first NUL. -/
theorem processLine_eq (o : Options) (line : List UInt8) :
    processLine o line = readingEvent o (line.takeWhile (fun c => decide (c ≠ 0))) := by
  have hnul := not_mem_takeWhile line
  unfold processLine readingEvent reading?
  generalize line.takeWhile (fun c => decide (c ≠ 0)) = text at hnul
  simp only
  generalize o.strtod (text.dropWhile isBlankByte) = r
  have htail : ((text.dropWhile isBlankByte).drop r.consumed).dropWhile isBlankByte = [] ↔
      ((text.dropWhile isBlankByte).drop r.consumed).all isBlankByte = true := by
    rw [List.dropWhile_eq_nil_iff, List.all_eq_true]
  by_cases hfinite : r.value.isFinite = true
  · rw [dif_pos hfinite, dif_pos hfinite]
    by_cases herr : (r.errnoSet || decide (r.consumed = 0)) = true
    · rw [if_pos herr, if_neg]
      intro h
      obtain ⟨-, herrno, hconsumed, -⟩ := h
      simp [herrno, hconsumed] at herr
    · rw [if_neg herr]
      have hok : r.errnoSet = false ∧ r.consumed ≠ 0 := by simpa using herr
      by_cases hrest : ((text.dropWhile isBlankByte).drop r.consumed).dropWhile isBlankByte = []
      · rw [if_neg (not_not.mpr hrest), if_pos ⟨hnul, hok.1, hok.2, htail.mp hrest⟩]
      · rw [if_pos hrest, if_neg]
        intro h
        obtain ⟨-, -, -, hall⟩ := h
        exact hrest (htail.mpr hall)
  · rw [dif_neg hfinite, dif_neg hfinite]

theorem reading?_nul {o : Options} {line : List UInt8} (h : 0 ∈ line) : reading? o line = none := by
  simp only [reading?]
  split
  · rw [if_neg]
    exact fun hall => hall.1 h
  · rfl

/-- A line that fits the buffer has its event iff no number ends at a NUL. -/
theorem processLine_framed_iff (o : Options) (line : List UInt8) :
    processLine o line = readingEvent o line ↔
      (0 ∈ line → reading? o (line.takeWhile (fun c => decide (c ≠ 0))) = none) := by
  rw [processLine_eq]
  by_cases hnul : 0 ∈ line
  · have hline : readingEvent o line = .simple .invalidInput := by
      rw [readingEvent, reading?_nul hnul]
    rw [hline, readingEvent]
    cases reading? o (line.takeWhile (fun c => decide (c ≠ 0))) with
    | none => simp
    | some value => simp [hnul]
  · rw [takeWhile_eq_self_of_not_mem hnul]
    simp [hnul]

/-! ## When the two agree -/

/-- The streams that are framed as intended: no finished line is too long or
has a number in front of a NUL, and the unfinished one is reported at most
once. -/
structure Framed (o : Options) (data : List UInt8) : Prop where
  fits : ∀ line ∈ (streamLines data).1, line.length < maxPendingBytes
  nul : ∀ line ∈ (streamLines data).1, 0 ∈ line →
    reading? o (line.takeWhile (fun c => decide (c ≠ 0))) = none
  rest : (streamLines data).2.length < 2 * maxPendingBytes

theorem cutEvents_short (o : Options) {line : List UInt8} (h : line.length < maxPendingBytes) :
    cutEvents o line = [processLine o line] := by
  simp [cutEvents, overflows, pendingPart, Nat.div_eq_of_lt h]

theorem lineEvent_short (o : Options) {line : List UInt8} (h : line.length < maxPendingBytes) :
    lineEvent o line = readingEvent o line := by
  rw [lineEvent, if_pos h]

theorem flatMap_cutEvents_short (o : Options) {lines : List (List UInt8)}
    (h : ∀ line ∈ lines, line.length < maxPendingBytes) :
    lines.flatMap (cutEvents o) = lines.map (processLine o) := by
  induction lines with
  | nil => rfl
  | cons line lines ih =>
    rw [List.forall_mem_cons] at h
    rw [List.flatMap_cons, List.map_cons, cutEvents_short o h.1, ih h.2]
    rfl

/-- Every line makes at least one event, and an oversized one more. -/
theorem length_cutEvents (o : Options) (line : List UInt8) :
    1 ≤ (cutEvents o line).length ∧
      ((cutEvents o line).length = 1 → line.length < maxPendingBytes) := by
  have hlen : (cutEvents o line).length = line.length / maxPendingBytes + 1 := by
    simp [cutEvents, overflows]
  rw [hlen]
  constructor
  · exact Nat.le_add_left 1 _
  · intro h
    have hzero : line.length / maxPendingBytes = 0 := Nat.succ.inj h
    exact (Nat.div_eq_zero_iff.mp hzero).resolve_left (by decide)

theorem length_flatMap_cutEvents (o : Options) (lines : List (List UInt8)) :
    lines.length ≤ (lines.flatMap (cutEvents o)).length ∧
      ((lines.flatMap (cutEvents o)).length = lines.length →
        ∀ line ∈ lines, line.length < maxPendingBytes) := by
  induction lines with
  | nil => simp
  | cons line lines ih =>
    obtain ⟨hle, heq⟩ := length_cutEvents o line
    obtain ⟨hles, heqs⟩ := ih
    rw [List.flatMap_cons, List.length_append, List.length_cons]
    refine ⟨by omega, ?_⟩
    intro h
    rw [List.forall_mem_cons]
    exact ⟨heq (by omega), heqs (by omega)⟩

/-- The reports of an unfinished line. -/
theorem length_overflows_rest (rest : List UInt8) :
    (if rest.length < maxPendingBytes then ([] : List LogLine)
      else [.simple .inputTooLong]).length ≤ (overflows rest).length ∧
    (overflows rest = (if rest.length < maxPendingBytes then []
      else [.simple .inputTooLong]) ↔ rest.length < 2 * maxPendingBytes) := by
  have hlen : (overflows rest).length = rest.length / maxPendingBytes := by simp [overflows]
  by_cases hshort : rest.length < maxPendingBytes
  · have hzero : rest.length / maxPendingBytes = 0 := Nat.div_eq_of_lt hshort
    simp only [if_pos hshort, overflows, hzero, List.replicate_zero, true_iff]
    exact ⟨Nat.zero_le _, by omega⟩
  · rw [if_neg hshort]
    simp only [maxPendingBytes] at hshort hlen ⊢
    refine ⟨by simp only [List.length_singleton]; omega, ?_⟩
    constructor
    · intro h
      rw [h, List.length_singleton] at hlen
      omega
    · intro h
      have hone : rest.length / 4096 = 1 := by omega
      rw [overflows, hone]
      rfl

/-- **Line framing**: the events of a stream are those of its lines, one each,
exactly for the framed streams. -/
theorem line_framing_iff {o : Options} (ho : o.maxEvents = 0) (data : List UInt8) :
    (consumeInput o .empty 0 data).lines = framedEvents o data ↔ Framed o data := by
  rw [consumeInput_lines ho, framedEvents]
  obtain ⟨hle, hfits⟩ := length_flatMap_cutEvents o (streamLines data).1
  obtain ⟨hrestle, hrest⟩ := length_overflows_rest (streamLines data).2
  have hpoint : (∀ line ∈ (streamLines data).1, line.length < maxPendingBytes) →
      ((streamLines data).1.map (processLine o) = (streamLines data).1.map (lineEvent o) ↔
        ∀ line ∈ (streamLines data).1, 0 ∈ line →
          reading? o (line.takeWhile (fun c => decide (c ≠ 0))) = none) := by
    intro hshort
    rw [List.map_inj_left]
    constructor
    · intro h line hline
      have hl := h line hline
      rw [lineEvent_short o (hshort line hline)] at hl
      exact (processLine_framed_iff o line).mp hl
    · intro h line hline
      rw [lineEvent_short o (hshort line hline)]
      exact (processLine_framed_iff o line).mpr (h line hline)
  constructor
  · intro h
    -- the number of events leaves no room for a second one of any line
    have hlen := congrArg List.length h
    rw [List.length_append, List.length_append, List.length_map] at hlen
    have hshort := hfits (by omega)
    rw [flatMap_cutEvents_short o hshort] at h
    obtain ⟨hlines, htail⟩ := List.append_inj h (by simp)
    exact ⟨hshort, (hpoint hshort).mp hlines, hrest.mp htail⟩
  · intro h
    rw [flatMap_cutEvents_short o h.fits, (hpoint h.fits).mpr h.nul, hrest.mpr h.rest]

/-- One reading. -/
theorem line_framing_iff_one :
    (consumeInput oneOptions .empty 0 [0x31, 0x0a]).lines = framedEvents oneOptions [0x31, 0x0a] :=
  (line_framing_iff rfl _).mpr ⟨by decide, by decide, by decide⟩

/-- Bytes without a newline go to the line they stand in. -/
theorem linesFrom_append {xs : List UInt8} (h : ∀ b ∈ xs, b ≠ 0x0a) (line rest : List UInt8) :
    linesFrom line (xs ++ rest) = linesFrom (line ++ xs) rest := by
  induction xs generalizing line with
  | nil => simp
  | cons b xs ih =>
    rw [List.forall_mem_cons] at h
    rw [List.cons_append, linesFrom, if_neg h.1, ih h.2]
    simp

/-- 4096 bytes of a line are reported, and the digit behind them is taken for
a reading. -/
theorem oversized_line_parsed :
    let data := List.replicate 4096 0x78 ++ [0x31, 0x0a]
    framedEvents oneOptions data = [.simple .inputTooLong] ∧
    (consumeInput oneOptions .empty 0 data).lines =
      [.simple .inputTooLong, .temperature ⟨.ofInt 1, rfl⟩] := by
  have hlen : (List.replicate 4096 (0x78 : UInt8)).length = 4096 := List.length_replicate
  have hbytes : ∀ b ∈ List.replicate 4096 (0x78 : UInt8), b ≠ 0x0a := by
    intro b hb
    rw [List.eq_of_mem_replicate hb]
    decide
  generalize List.replicate 4096 (0x78 : UInt8) = xs at hlen hbytes
  intro data
  have hlines : streamLines data = ([xs ++ [0x31]], []) := by
    rw [streamLines, linesFrom_append hbytes]
    simp [linesFrom]
  have hlong : (xs ++ [0x31]).length = 4097 := by
    rw [List.length_append, hlen, List.length_singleton]
  refine ⟨?_, ?_⟩
  · rw [framedEvents, hlines, List.map_singleton, lineEvent, hlong]
    rfl
  · have hcut : cutEvents oneOptions (xs ++ [0x31]) =
        [.simple .inputTooLong, .temperature ⟨.ofInt 1, rfl⟩] := by
      rw [cutEvents, overflows, pendingPart, hlong,
        show maxPendingBytes * (4097 / maxPendingBytes) = xs.length by rw [hlen]; decide,
        List.drop_left]
      rfl
    have hrest : overflows [] = [] := by decide
    rw [consumeInput_lines rfl, hlines, List.flatMap_singleton, hcut, hrest, List.append_nil]

end VDevLab.Monitor
