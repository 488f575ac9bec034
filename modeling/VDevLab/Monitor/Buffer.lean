import Mathlib.Data.List.TakeWhile
import VDevLab.Monitor.Loop

/-!
# `consume_input` on its array

`consumeInput` keeps the pending bytes as a list. Here the same function
runs on `char data[MAX_PENDING_BYTES]` and `size_t length`, as the source has
them: every load and store is checked against the bounds of the array, and
one outside of them makes the whole call `none`. On every sequence of chunks
the checked version succeeds and does what the list version does.

A pointer into the array is the rest of the array from there on, so `*p` at
`[]` is the load behind the end.
-/

namespace VDevLab.Monitor

/-! ## The source's buffer -/

/-- `struct input_buffer`, with the bytes behind `length` that an earlier
line left. -/
structure RawBuffer where
  data : Vector UInt8 maxPendingBytes
  length : Nat

/-- `struct input_buffer input = {0}`. -/
def RawBuffer.zeroed : RawBuffer := ⟨Vector.replicate maxPendingBytes 0, 0⟩

/-- `input->data[i] = b`. -/
def RawBuffer.store (input : RawBuffer) (i : Nat) (b : UInt8) : Option RawBuffer :=
  if h : i < maxPendingBytes then some { input with data := input.data.set i b h } else none

/-- `while (*p == ' ' || *p == '\t' || *p == '\r') p++`. -/
def skipBlanks : List UInt8 → Option (List UInt8)
  | [] => none
  | b :: p => if isBlankByte b then skipBlanks p else some (b :: p)

/-- The C string that starts at `p`, which `strtod` reads. -/
def cString : List UInt8 → Option (List UInt8)
  | [] => none
  | b :: p => if b = 0 then some [] else (cString p).map (b :: ·)

/-- `*p`. -/
def load (p : List UInt8) : Option UInt8 := p.head?

/-- `process_line` on the array. -/
def processLineRaw (o : Options) (line : List UInt8) : Option LogLine := do
  let start ← skipBlanks line
  let text ← cString start
  let r := o.strtod text
  if h : r.value.isFinite = true then
    if r.errnoSet || r.consumed = 0 then return .simple .invalidInput
    else
      let rest ← skipBlanks (start.drop r.consumed)
      if (← load rest) ≠ 0 then return .simple .invalidInput
      else return .temperature ⟨r.value, h⟩
  else return .simple .invalidInput

/-- What a call leaves, as `Consumed` does. -/
structure RawConsumed where
  lines : List LogLine
  input : RawBuffer
  eventCount : UInt32
  full : Bool

/-- `consume_input` on the array. -/
def consumeInputRaw (o : Options) : RawBuffer → UInt32 → List UInt8 → Option RawConsumed
  | input, eventCount, [] => some ⟨[], input, eventCount, false⟩
  | input, eventCount, b :: data =>
      if b = 0x0a then do
        let input ← input.store input.length 0
        let line ← processLineRaw o input.data.toList
        let eventCount := countEvent line eventCount
        let input := { input with length := 0 }
        if o.maxEvents ≠ 0 ∧ o.maxEvents ≤ eventCount then return ⟨[line], input, eventCount, true⟩
        else
          let rest ← consumeInputRaw o input eventCount data
          return { rest with lines := line :: rest.lines }
      else if maxPendingBytes ≤ input.length + 1 then do
        let rest ← consumeInputRaw o { input with length := 0 } eventCount data
        return { rest with lines := .simple .inputTooLong :: rest.lines }
      else do
        let input ← input.store input.length b
        consumeInputRaw o { input with length := input.length + 1 } eventCount data

/-- One call for each chunk, on the same buffer and counter. The calls go on
after one that returned 1, which `main` would not do. -/
def consumeChunksRaw (o : Options) : RawBuffer → UInt32 → List (List UInt8) →
    Option (List RawConsumed)
  | _, _, [] => some []
  | input, eventCount, chunk :: chunks => do
      let r ← consumeInputRaw o input eventCount chunk
      let rs ← consumeChunksRaw o r.input r.eventCount chunks
      return r :: rs

/-- The same calls of the list version. -/
def consumeChunks (o : Options) : InputBuffer → UInt32 → List (List UInt8) → List Consumed
  | _, _, [] => []
  | input, eventCount, chunk :: chunks =>
      let r := consumeInput o input eventCount chunk
      r :: consumeChunks o r.input r.eventCount chunks

/-! ## A line in the array -/

/-- `strtod` stops inside the string it is given. -/
def Options.StopsInside (o : Options) : Prop := ∀ s, (o.strtod s).consumed ≤ s.length

theorem isBlankByte_zero : isBlankByte 0 = false := rfl

/-- The scan ends at the terminating NUL at the latest. -/
theorem skipBlanks_append (xs rest : List UInt8) :
    skipBlanks (xs ++ 0 :: rest) = some (xs.dropWhile isBlankByte ++ 0 :: rest) := by
  induction xs with
  | nil => simp [skipBlanks, isBlankByte_zero]
  | cons b xs ih =>
    by_cases hb : isBlankByte b = true
    · simp [skipBlanks, hb, ih]
    · simp [skipBlanks, hb]

theorem cString_append {xs : List UInt8} (hxs : ∀ b ∈ xs, b ≠ 0) (rest : List UInt8) :
    cString (xs ++ 0 :: rest) = some xs := by
  induction xs with
  | nil => simp [cString]
  | cons b xs ih =>
    have hb : b ≠ 0 := hxs b List.mem_cons_self
    have ih := ih (fun c hc => hxs c (List.mem_cons_of_mem b hc))
    simp [cString, hb, ih]

theorem mem_takeWhile_ne_zero {xs : List UInt8} {b : UInt8}
    (h : b ∈ xs.takeWhile (fun c => decide (c ≠ 0))) : b ≠ 0 := by
  have := List.mem_takeWhile_imp h
  simpa using this

/-- An embedded NUL is the first one; otherwise it is the one behind. -/
theorem exists_first_nul (xs rest : List UInt8) :
    ∃ rest', xs ++ 0 :: rest = xs.takeWhile (fun c => decide (c ≠ 0)) ++ 0 :: rest' := by
  induction xs with
  | nil => exact ⟨rest, rfl⟩
  | cons b xs ih =>
    by_cases hb : b = 0
    · subst hb
      exact ⟨xs ++ 0 :: rest, by simp⟩
    · obtain ⟨rest', hrest⟩ := ih
      refine ⟨rest', ?_⟩
      have htake : (b :: xs).takeWhile (fun c => decide (c ≠ 0))
          = b :: xs.takeWhile (fun c => decide (c ≠ 0)) := by
        rw [List.takeWhile_cons, if_pos (decide_eq_true hb)]
      rw [htake, List.cons_append, List.cons_append, hrest]

/-- `process_line` on a terminated line stays in the array. -/
theorem processLineRaw_eq {o : Options} (ho : o.StopsInside) (line rest : List UInt8) :
    processLineRaw o (line ++ 0 :: rest) = some (processLine o line) := by
  obtain ⟨rest', hrest⟩ := exists_first_nul line rest
  rw [hrest]
  simp only [processLineRaw, processLine, skipBlanks_append, Option.bind_eq_bind,
    Option.bind_some]
  generalize hstart : (line.takeWhile (fun c => decide (c ≠ 0))).dropWhile isBlankByte = start
  have hne : ∀ b ∈ start, b ≠ 0 := by
    intro b hb
    rw [← hstart] at hb
    exact mem_takeWhile_ne_zero ((List.dropWhile_suffix _).subset hb)
  rw [cString_append hne, Option.bind_some]
  generalize hr : o.strtod start = r
  have hinside : r.consumed ≤ start.length := hr ▸ ho start
  split
  · split
    · rfl
    · -- behind the number, the same scan over what is left
      rw [List.drop_append_of_le_length hinside, skipBlanks_append, Option.bind_some]
      cases htail : (start.drop r.consumed).dropWhile isBlankByte with
      | nil => simp [load]
      | cons c tail =>
        have hc : c ≠ 0 := by
          apply hne
          apply List.mem_of_mem_drop
          apply (List.dropWhile_suffix isBlankByte).subset
          rw [htail]
          exact List.mem_cons_self
        simp [load, hc]
  · rfl

/-! ## The pending bytes -/

/-- The array holds the pending bytes of the list version. -/
structure RawBuffer.Holds (r : RawBuffer) (input : InputBuffer) : Prop where
  length : r.length = input.data.length
  data : ∃ rest, r.data.toList = input.data ++ rest

theorem RawBuffer.zeroed_holds : RawBuffer.zeroed.Holds .empty :=
  ⟨rfl, RawBuffer.zeroed.data.toList, rfl⟩

/-- `input->length = 0`. -/
theorem RawBuffer.holds_empty (r : RawBuffer) : { r with length := 0 }.Holds .empty :=
  ⟨rfl, r.data.toList, rfl⟩

/-- A store at the end of the pending bytes. -/
theorem RawBuffer.Holds.store {r : RawBuffer} {input : InputBuffer} (h : r.Holds input)
    (b : UInt8) : ∃ r', r.store r.length b = some r' ∧ r'.length = r.length ∧
      ∃ rest, r'.data.toList = input.data ++ b :: rest := by
  have hlt : r.length < maxPendingBytes := by
    rw [h.length]
    exact input.bounded
  refine ⟨_, dif_pos hlt, rfl, ?_⟩
  obtain ⟨rest, hrest⟩ := h.data
  have hlen : (input.data ++ rest).length = maxPendingBytes := by
    rw [← hrest, Vector.length_toList]
  cases rest with
  | nil =>
    have := input.bounded
    simp only [List.append_nil] at hlen
    omega
  | cons c rest =>
    refine ⟨rest, ?_⟩
    simp [Vector.toList_set, hrest, h.length, List.set_append_right]

/-- One call: the checked version succeeds and agrees. -/
structure RawConsumed.Agrees (r : RawConsumed) (c : Consumed) : Prop where
  lines : r.lines = c.lines
  input : r.input.Holds c.input
  eventCount : r.eventCount = c.eventCount
  full : r.full = c.full

theorem RawConsumed.Agrees.cons {r : RawConsumed} {c : Consumed} (h : r.Agrees c) (l : LogLine) :
    { r with lines := l :: r.lines }.Agrees { c with lines := l :: c.lines } :=
  ⟨by rw [h.lines], h.input, h.eventCount, h.full⟩

theorem consumeInputRaw_agrees {o : Options} (ho : o.StopsInside) {r : RawBuffer}
    {input : InputBuffer} (h : r.Holds input) (n : UInt32) (data : List UInt8) :
    ∃ s, consumeInputRaw o r n data = some s ∧ s.Agrees (consumeInput o input n data) := by
  induction data generalizing r input n with
  | nil => exact ⟨_, rfl, rfl, h, rfl, rfl⟩
  | cons b data ih =>
    by_cases hb : b = 0x0a
    · obtain ⟨r', hstore, -, rest, hrest⟩ := h.store 0
      simp only [consumeInputRaw, consumeInput, if_pos hb, hstore, hrest, processLineRaw_eq ho,
        Option.bind_eq_bind, Option.bind_some]
      split
      · exact ⟨_, rfl, rfl, r'.holds_empty, rfl, rfl⟩
      · obtain ⟨s, hs, hagrees⟩ := ih r'.holds_empty (countEvent (processLine o input.data) n)
        rw [hs]
        exact ⟨_, rfl, hagrees.cons _⟩
    · by_cases hroom : input.data.length + 1 < maxPendingBytes
      · obtain ⟨r', hstore, hlength, rest, hrest⟩ := h.store b
        have hnot : ¬ maxPendingBytes ≤ r.length + 1 := by
          rw [h.length]
          omega
        simp only [consumeInputRaw, consumeInput, if_neg hb, if_neg hnot, dif_pos hroom, hstore,
          Option.bind_eq_bind, Option.bind_some]
        apply ih
        exact ⟨by simp [hlength, h.length], rest, by simp [hrest]⟩
      · have hfull : maxPendingBytes ≤ r.length + 1 := by
          rw [h.length]
          omega
        simp only [consumeInputRaw, consumeInput, if_neg hb, if_pos hfull, dif_neg hroom]
        obtain ⟨s, hs, hagrees⟩ := ih r.holds_empty n
        rw [hs]
        exact ⟨_, rfl, hagrees.cons _⟩

/-- No load or store leaves the array, whatever the chunks are. -/
theorem consumeChunksRaw_agrees {o : Options} (ho : o.StopsInside) (chunks : List (List UInt8))
    {r : RawBuffer} {input : InputBuffer} (h : r.Holds input) (n : UInt32) :
    ∃ rs, consumeChunksRaw o r n chunks = some rs ∧
      List.Forall₂ RawConsumed.Agrees rs (consumeChunks o input n chunks) := by
  induction chunks generalizing r input n with
  | nil => exact ⟨[], rfl, .nil⟩
  | cons chunk chunks ih =>
    obtain ⟨s, hs, hagrees⟩ := consumeInputRaw_agrees ho h n chunk
    obtain ⟨rs, hrs, hall⟩ := ih hagrees.input (consumeInput o input n chunk).eventCount
    refine ⟨s :: rs, ?_, .cons hagrees hall⟩
    rw [← hagrees.eventCount] at hrs
    simp [consumeChunksRaw, hs, hrs]

/-! ## Chunks and the whole -/

/-- A chunk more, unless the limit was reached before it. -/
theorem consumeInput_append (o : Options) (input : InputBuffer) (n : UInt32) (xs ys : List UInt8) :
    consumeInput o input n (xs ++ ys) =
      let r := consumeInput o input n xs
      if r.full then r
      else
        let s := consumeInput o r.input r.eventCount ys
        { s with lines := r.lines ++ s.lines } := by
  induction xs generalizing input n with
  | nil => simp [consumeInput]
  | cons b xs ih =>
    simp only [List.cons_append, consumeInput]
    split
    · split
      · rfl
      · rw [ih]
        simp only
        split
        · rfl
        · rfl
    · split
      · exact ih _ _
      · rw [ih]
        simp only
        split
        · rfl
        · rfl

/-- The lines of a part of the stream come first among those of the whole. -/
theorem consumeInput_lines_mono (o : Options) (input : InputBuffer) (n : UInt32)
    {xs whole : List UInt8} (h : xs <+: whole) :
    (consumeInput o input n xs).lines <+: (consumeInput o input n whole).lines := by
  obtain ⟨ys, rfl⟩ := h
  rw [consumeInput_append]
  simp only
  split
  · exact List.prefix_refl _
  · exact List.prefix_append _ _

end VDevLab.Monitor
