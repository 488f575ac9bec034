import VDevLab.Analysis.Log
import VDevLab.Lib.JsonText
import VDevLab.Monitor.Client

/-!
# The monitor's output is an application log

Every line the monitor prints is an object without blanks whose texts load,
so `parse_application_log` turns the output back into one event for each
call of a `log_` function, with the reading of the clock that was printed.
-/

namespace VDevLab.Monitor

open Analysis Check Json PyStr

/-- The event that a line logs. -/
def LogLine.event : LogLine → PyStr
  | .simple event => event.name
  | .errno event _ => event.name
  | .retry _ => py "READ_RETRY"
  | .recovery _ => py "RECOVERY_SUCCESS"
  | .temperature value => temperatureName value

/-- The double that the printed temperature loads as. -/
def printedValue : Celsius → Binary64
  | ⟨.finite neg mant exp _, _⟩ => fixedValue neg mant exp 3

/-! ## A line as an object -/

/-- A member with a non-negative integer. -/
def numberMember (key : String) (n : Nat) : Member := ⟨py key, decimal n, .int n⟩

/-- A member with a string that is printed as it is. -/
def textMember (key : String) (text : PyStr) : Member :=
  ⟨py key, ch '"' :: text ++ [ch '"'], .str text⟩

/-- The members behind `timestamp_ms` and `event`. -/
def LogLine.extra : LogLine → List Member
  | .simple _ => []
  | .errno _ error => [numberMember "errno" error.val]
  | .retry n => [numberMember "retry" n, numberMember "max_retries" maxEioRetries,
      numberMember "errno" EIO.val]
  | .recovery n => [numberMember "retries" n]
  | .temperature value => [⟨py "temperature_c", printFixed value, .float (printedValue value)⟩]

/-- The fields of the logged event. -/
def LogLine.fields (l : LogLine) : PyDict := l.extra.map fun m => (.str m.key, m.value)

theorem LogLine.print_eq (l : LogLine) (timestampMs : Nat) :
    l.print timestampMs =
      objectText (numberMember "timestamp_ms" timestampMs) (textMember "event" l.event :: l.extra) := by
  have hopen : py "\x7b\"timestamp_ms\":" =
      ch '{' :: ch '"' :: (py "timestamp_ms" ++ [ch '"', ch ':']) := by decide
  have hevent : py ",\"event\":\"" =
      ch ',' :: ch '"' :: (py "event" ++ [ch '"', ch ':', ch '"']) := by decide
  have hclose : py "\x7d" = [ch '}'] := by decide
  cases l with
  | simple event =>
    have h : py "\"\x7d" = [ch '"', ch '}'] := by decide
    simp [LogLine.print, LogLine.event, LogLine.extra, objectText, membersText, Member.print,
      numberMember, textMember, hopen, hevent, h]
  | errno event error =>
    have h : py "\",\"errno\":" =
        ch '"' :: ch ',' :: ch '"' :: (py "errno" ++ [ch '"', ch ':']) := by decide
    simp [LogLine.print, LogLine.event, LogLine.extra, objectText, membersText, Member.print,
      numberMember, textMember, hopen, hevent, hclose, h]
  | retry n =>
    have h1 : py ",\"event\":\"READ_RETRY\"," = ch ',' :: ch '"' ::
        (py "event" ++ ch '"' :: ch ':' :: ch '"' :: (py "READ_RETRY" ++ [ch '"', ch ','])) := by
      decide
    have h2 : py "\"retry\":" = ch '"' :: (py "retry" ++ [ch '"', ch ':']) := by decide
    have h3 : py ",\"max_retries\":" =
        ch ',' :: ch '"' :: (py "max_retries" ++ [ch '"', ch ':']) := by decide
    have h4 : py ",\"errno\":" = ch ',' :: ch '"' :: (py "errno" ++ [ch '"', ch ':']) := by decide
    simp [LogLine.print, LogLine.event, LogLine.extra, objectText, membersText, Member.print,
      numberMember, textMember, hopen, hclose, h1, h2, h3, h4]
  | recovery n =>
    have h1 : py ",\"event\":\"RECOVERY_SUCCESS\"," = ch ',' :: ch '"' :: (py "event" ++
        ch '"' :: ch ':' :: ch '"' :: (py "RECOVERY_SUCCESS" ++ [ch '"', ch ','])) := by
      decide
    have h2 : py "\"retries\":" = ch '"' :: (py "retries" ++ [ch '"', ch ':']) := by decide
    simp [LogLine.print, LogLine.event, LogLine.extra, objectText, membersText, Member.print,
      numberMember, textMember, hopen, hclose, h1, h2]
  | temperature value =>
    have h1 : py "\"," = [ch '"', ch ','] := by decide
    have h2 : py "\"temperature_c\":" = ch '"' :: (py "temperature_c" ++ [ch '"', ch ':']) := by
      decide
    simp [LogLine.print, LogLine.event, LogLine.extra, objectText, membersText, Member.print,
      numberMember, textMember, hopen, hevent, hclose, h1, h2]

theorem numberMember_written (lim : IntLimit) {key : String} {n : Nat} (hn : n < 10 ^ 640)
    (hkey : ((py key).all fun c => decide (Plain c)) = true) :
    (numberMember key n).Written lim :=
  ⟨plain_of_all hkey, Scans.nat lim hn⟩

theorem textMember_written (lim : IntLimit) {key : String} {text : PyStr}
    (hkey : ((py key).all fun c => decide (Plain c)) = true)
    (htext : (text.all fun c => decide (Plain c)) = true) :
    (textMember key text).Written lim :=
  ⟨plain_of_all hkey, Scans.str lim (plain_of_all htext)⟩

theorem temperatureMember_written (lim : IntLimit) (value : Celsius) :
    Member.Written lim ⟨py "temperature_c", printFixed value, .float (printedValue value)⟩ := by
  refine ⟨plain_of_all (s := py "temperature_c") (by decide), ?_⟩
  obtain ⟨x, hx⟩ := value
  cases x with
  | nan => cases hx
  | inf neg => cases hx
  | finite neg mant exp hc => exact Scans.fixed lim neg mant exp (by omega)

/-- The retry numbers that the monitor prints. -/
def LogLine.Small : LogLine → Prop
  | .retry n => n ≤ maxEioRetries
  | .recovery n => n ≤ maxEioRetries
  | _ => True

/-- Fourteen digits are within any limit on digits that can be set. -/
theorem lt_ten_pow {n k : Nat} (hk : 14 ≤ k) (h : n < 10 ^ 14) : n < 10 ^ k :=
  Nat.lt_of_lt_of_le h (Nat.pow_le_pow_right (by decide) hk)

theorem monotonicMilliseconds_lt (now : Timespec) : monotonicMilliseconds now < 10 ^ 14 := by
  have hsec := now.sec_le
  have hnsec := now.nsec_lt
  unfold monotonicMilliseconds
  omega

theorem LogLine.event_plain (l : LogLine) : (l.event.all fun c => decide (Plain c)) = true := by
  cases l with
  | simple event => cases event <;> rfl
  | errno event error => cases event <;> rfl
  | retry n => rfl
  | recovery n => rfl
  | temperature value =>
    rw [LogLine.event, temperatureName]
    split <;> decide

theorem LogLine.written (lim : IntLimit) {l : LogLine} (h : l.Small) (now : Timespec) :
    ∀ m ∈ numberMember "timestamp_ms" (monotonicMilliseconds now) ::
      textMember "event" l.event :: l.extra, m.Written lim := by
  have hextra : ∀ m ∈ l.extra, m.Written lim := by
    cases l with
    | simple event => simp [LogLine.extra]
    | errno event error =>
      have herror := error.isLt
      have hlt := lt_ten_pow (k := 640) (by decide) (n := error.val) (by omega)
      simpa [LogLine.extra] using numberMember_written lim hlt (by decide)
    | retry n =>
      have hn : n ≤ 3 := h
      have hlt := lt_ten_pow (k := 640) (by decide) (n := n) (by omega)
      have h3 := lt_ten_pow (k := 640) (by decide) (n := 3) (by omega)
      have h5 := lt_ten_pow (k := 640) (by decide) (n := 5) (by omega)
      simpa [LogLine.extra] using And.intro (numberMember_written lim hlt (by decide))
        (And.intro (numberMember_written lim h3 (by decide))
          (numberMember_written lim h5 (by decide)))
    | recovery n =>
      have hn : n ≤ 3 := h
      have hlt := lt_ten_pow (k := 640) (by decide) (n := n) (by omega)
      simpa [LogLine.extra] using numberMember_written lim hlt (by decide)
    | temperature value => simpa [LogLine.extra] using temperatureMember_written lim value
  intro m hm
  rcases List.mem_cons.mp hm with rfl | hm
  · exact numberMember_written lim (lt_ten_pow (k := 640) (by decide) (monotonicMilliseconds_lt now)) (by decide)
  · rcases List.mem_cons.mp hm with rfl | hm
    · exact textMember_written lim (by decide) l.event_plain
    · exact hextra m hm

/-- The dict that a printed line loads as. -/
theorem LogLine.loads_print (lim : IntLimit) {l : LogLine} (h : l.Small) (now : Timespec) :
    loads lim (l.print (monotonicMilliseconds now)) =
      .ok (.dict ((.str (py "timestamp_ms"), .int (monotonicMilliseconds now)) ::
        (.str (py "event"), .str l.event) :: l.fields)) := by
  rw [l.print_eq, loads_objectText (l.written lim h now)]
  cases l <;> rfl

/-! ## Lines -/

theorem all_decimal {p : CodePoint → Bool} (hp : ∀ c, isDigit c = true → p c = true) (n : Nat) :
    (decimal n).all p = true := by
  obtain ⟨-, hdigits, -⟩ := isNumeral_decimal n
  rw [List.all_eq_true] at hdigits ⊢
  intro c hc
  exact hp c (hdigits c hc)

theorem not_isLineBreak_of_isDigit {c : CodePoint} (h : isDigit c = true) :
    (!isLineBreak c) = true := by
  simp only [isDigit, Bool.and_eq_true, decide_eq_true_eq] at h
  simp only [isLineBreak, Bool.not_eq_true', Bool.or_eq_false_iff, Bool.and_eq_false_iff,
    decide_eq_false_iff_not, beq_eq_false_iff_ne]
  omega

theorem all_printFixed (value : Celsius) :
    (printFixed value).all (fun c => !isLineBreak c) = true := by
  obtain ⟨x, hx⟩ := value
  cases x with
  | nan => cases hx
  | inf neg => cases hx
  | finite neg mant exp hc =>
    have hpadded : (Binary64.padded 3 (Binary64.scaledAbs mant exp 3)).all
        (fun c => !isLineBreak c) = true := by
      rw [List.all_eq_true]
      intro c hc
      exact not_isLineBreak_of_isDigit (Binary64.padded_isDigit _ _ c hc)
    have hsign : (if neg then py "-" else []).all (fun c => !isLineBreak c) = true := by
      cases neg <;> rfl
    have hpoint : (py ".").all (fun c => !isLineBreak c) = true := by decide
    rw [printFixed, Binary64.fixed, List.all_append, List.all_append, List.all_append, hpadded,
      hsign, hpoint, all_decimal (fun _ => not_isLineBreak_of_isDigit)]
    rfl

theorem LogLine.event_all (l : LogLine) : l.event.all (fun c => !isLineBreak c) = true := by
  cases l with
  | simple event => cases event <;> rfl
  | errno event error => cases event <;> rfl
  | retry n => rfl
  | recovery n => rfl
  | temperature value =>
    rw [LogLine.event, temperatureName]
    split <;> decide

/-- A printed line has no line boundary inside. -/
theorem LogLine.print_noBreak (l : LogLine) (timestampMs : Nat) :
    ∀ c ∈ l.print timestampMs, isLineBreak c = false := by
  have hall : (l.print timestampMs).all (fun c => !isLineBreak c) = true := by
    have hdec := all_decimal (fun _ => not_isLineBreak_of_isDigit)
    have hevent := l.event_all
    cases l with
    | simple event =>
      rw [LogLine.print, List.all_append, List.all_append, List.all_append, List.all_append, hdec,
        show event.name.all (fun c => !isLineBreak c) = true from hevent]
      decide
    | errno event error =>
      rw [LogLine.print, List.all_append, List.all_append, List.all_append, List.all_append,
        List.all_append, List.all_append, hdec, hdec,
        show event.name.all (fun c => !isLineBreak c) = true from hevent]
      decide
    | retry n =>
      simp only [LogLine.print, List.all_append, hdec]
      decide
    | recovery n =>
      simp only [LogLine.print, List.all_append, hdec]
      decide
    | temperature value =>
      simp only [LogLine.print, List.all_append, hdec, all_printFixed,
        show (temperatureName value).all (fun c => !isLineBreak c) = true from hevent]
      decide
  intro c hc
  simpa using List.all_eq_true.mp hall c hc

/-! ## The log -/

/-- The event that `parse_application_log` makes of a line. -/
def entry (line : Nat) (now : Timespec) (l : LogLine) : ApplicationLogEvent where
  line := line
  timestampMs := monotonicMilliseconds now
  event := l.event
  fields := l.fields

/-- The events of the lines from the given reading of the clock on. -/
def entriesFrom (clock : Nat → Timespec) : Nat → List LogLine → List ApplicationLogEvent
  | _, [] => []
  | i, l :: ls => entry (i + 1) (clock i) l :: entriesFrom clock (i + 1) ls

theorem entriesFrom_append (clock : Nat → Timespec) (i : Nat) (ls ls' : List LogLine) :
    entriesFrom clock i (ls ++ ls') =
      entriesFrom clock i ls ++ entriesFrom clock (i + ls.length) ls' := by
  induction ls generalizing i with
  | nil => rfl
  | cons l ls ih =>
    rw [List.cons_append, entriesFrom, entriesFrom, ih, List.cons_append, List.length_cons,
      Nat.add_right_comm, Nat.add_assoc i]

/-- A clock that does not run backwards. -/
def Timespec.Le (a b : Timespec) : Prop := a.sec < b.sec ∨ (a.sec = b.sec ∧ a.nsec ≤ b.nsec)

theorem Timespec.Le.milliseconds {a b : Timespec} (h : a.Le b) :
    monotonicMilliseconds a ≤ monotonicMilliseconds b := by
  have hnsec := a.nsec_lt
  unfold monotonicMilliseconds
  rcases h with h | ⟨h, h'⟩
  · omega
  · rw [h]
    have := Nat.div_le_div_right (c := 1000000) h'
    omega

theorem LogLine.event_notBlank (l : LogLine) : isBlank l.event = false := by
  cases l with
  | simple event => cases event <;> rfl
  | errno event error => cases event <;> rfl
  | retry n => rfl
  | recovery n => rfl
  | temperature value =>
    rw [LogLine.event, temperatureName]
    split <;> decide

theorem LogLine.extraFields_eq (l : LogLine) (timestampMs : Nat) :
    extraFields ((.str (py "timestamp_ms"), .int timestampMs) ::
      (.str (py "event"), .str l.event) :: l.fields) = l.fields := by
  cases l <;> rfl

theorem parseLine_print (lim : IntLimit) {l : LogLine} (h : l.Small) (now : Timespec) (line : Nat)
    {previous : Option Int} (hprev : ∀ p ∈ previous, p ≤ monotonicMilliseconds now) :
    parseLine lim line previous (l.print (monotonicMilliseconds now)) = .ok (entry line now l) := by
  rw [parseLine, l.loads_print lim h]
  simp only [parseRecord]
  have hts : requireNonnegativeInteger (.int (monotonicMilliseconds now)) line "timestamp_ms" =
      .ok (monotonicMilliseconds now : Int) := by
    rw [requireNonnegativeInteger, if_neg (by omega)]
  have hprev' : ¬ ∃ p ∈ previous, (monotonicMilliseconds now : Int) < p := by
    intro h
    obtain ⟨p, hp, hlt⟩ := h
    have := hprev p hp
    omega
  have hname : requireEventName (.str l.event) line = .ok l.event := by
    rw [requireEventName, l.event_notBlank]
    rfl
  -- the checks of `parse_application_log`, one after the other
  show (requireNonnegativeInteger (.int (monotonicMilliseconds now)) line "timestamp_ms" >>= _) = _
  rw [hts]
  show (refuse (∃ p ∈ previous, (monotonicMilliseconds now : Int) < p) _ >>= _) = _
  rw [refuse, if_neg hprev']
  show (requireEventName (.str l.event) line >>= _) = _
  rw [hname]
  show Except.ok _ = _
  rw [l.extraFields_eq]
  rfl

theorem parseLines_printFrom (lim : IntLimit) {clock : Nat → Timespec}
    (hclock : ∀ i, (clock i).Le (clock (i + 1))) {log : List LogLine} (hsmall : ∀ l ∈ log, l.Small)
    (i : Nat) {previous : Option Int}
    (hprev : ∀ p ∈ previous, p ≤ monotonicMilliseconds (clock i)) :
    parseLines lim (i + 1) previous (splitlines (printFrom clock i log)) =
      .ok (entriesFrom clock i log) := by
  induction log generalizing i previous with
  | nil => rfl
  | cons l log ih =>
    have hblank : isBlank (l.print (monotonicMilliseconds (clock i))) = false := by
      rw [l.print_eq]
      rfl
    -- the next line is stamped no earlier than this one
    have hnext : ∀ p ∈ some (monotonicMilliseconds (clock i) : Int),
        p ≤ monotonicMilliseconds (clock (i + 1)) := by
      intro p hp
      cases Option.mem_some_iff.mp hp
      have := (hclock i).milliseconds
      omega
    rw [printFrom, splitlines_line (l.print_noBreak _), parseLines, hblank, if_neg (by decide),
      parseLine_print lim (hsmall l List.mem_cons_self) (clock i) (i + 1) hprev]
    have hrest := ih (fun l' hl' => hsmall l' (List.mem_cons_of_mem l hl')) (i + 1) hnext
    simp only [Bind.bind, Except.bind, entry]
    rw [hrest]
    rfl

/-- The output parses, to one event for each line. -/
theorem parseApplicationLog_stdout (lim : IntLimit) {clock : Nat → Timespec}
    (hclock : ∀ i, (clock i).Le (clock (i + 1))) {log : List LogLine}
    (hsmall : ∀ l ∈ log, l.Small) :
    parseApplicationLog lim (stdout clock log) = .ok (entriesFrom clock 0 log) :=
  parseLines_printFrom lim hclock hsmall 0 (by simp)

end VDevLab.Monitor
