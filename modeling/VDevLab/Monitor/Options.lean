import VDevLab.Lib.CInteger
import VDevLab.Monitor.Client

/-!
# The monitor's command line

`parse_options` and the part of `main` before `open`. The words are taken in
order, each option with the word behind it, whatever that is; a later
option replaces an earlier one. `--help` leaves with the status 0, but only
when all the words before it were in order.

`strtoul` takes a minus, so a count that is negative modulo 2^64 is one of the
texts that are accepted.
-/

namespace VDevLab.Monitor

open PyStr CInteger

/-! ## `parse_unsigned` -/

/-- `parse_unsigned`; `none` is the result -1. -/
def parseUnsigned (text : PyStr) : Option UInt32 :=
  let r := strtoul text
  if r.range = true ∨ text = [] ∨ r.rest ≠ [] ∨ 2 ^ 32 - 1 < r.value then none
  else some (UInt32.ofNat r.value)

/-- The texts of a number: blanks, a sign, and its digits, or with a minus
those of its complement. -/
inductive Unsigned (text : PyStr) (n : UInt32) : Prop
  | plain {digits : PyStr} (h : Spelled false digits text) (hn : natOfDigits digits = n.toNat)
  | minusZero {digits : PyStr} (h : Spelled true digits text) (h0 : natOfDigits digits = 0)
      (hn : n = 0)
  | minus {digits : PyStr} (h : Spelled true digits text) (hpos : n ≠ 0)
      (hn : natOfDigits digits + n.toNat = 2 ^ 64)

theorem negated_eq (n : Nat) :
    (2 ^ 64 - n) % 2 ^ 64 = if n = 0 then 0 else 2 ^ 64 - n := by
  by_cases hn : n = 0
  · rw [if_pos hn, hn, Nat.sub_zero, Nat.mod_self]
  · rw [if_neg hn, Nat.mod_eq_of_lt (by omega)]

theorem parseUnsigned_eq_some {text : PyStr} {n : UInt32} :
    parseUnsigned text = some n ↔ Unsigned text n := by
  have hlt : n.toNat < 2 ^ 32 := n.toNat_lt
  have hulong : ulongMax = 2 ^ 64 - 1 := rfl
  constructor
  · intro h
    simp only [parseUnsigned] at h
    split at h
    · cases h
    · next hno =>
      simp only [not_or, Bool.not_eq_true, not_not, not_lt] at hno
      obtain ⟨hrange, hne, hrest, hle⟩ := hno
      have hn : n.toNat = (strtoul text).value := by
        rw [← Option.some.inj h, UInt32.toNat_ofNat']
        omega
      have hwhole : strtoul text = ⟨(strtoul text).value, [], false⟩ := by
        rw [← hrest, ← hrange]
      rw [← hn] at hwhole
      obtain ⟨rfl, -⟩ | ⟨neg, digits, hs, hmax, hv⟩ := strtoul_whole.mp hwhole
      · exact absurd rfl hne
      · cases neg with
        | false => exact .plain hs (by simpa using hv.symm)
        | true =>
          rw [if_pos rfl, negated_eq] at hv
          split at hv
          · next h0 => exact .minusZero hs h0 (UInt32.toNat_inj.mp hv)
          · next h0 =>
            refine .minus hs ?_ (by omega)
            rintro rfl
            have hzero : UInt32.toNat 0 = 0 := rfl
            omega
  · intro h
    have hparsed : strtoul text = ⟨n.toNat, [], false⟩ ∧ text ≠ [] := by
      cases h with
      | @plain digits hs hn =>
        refine ⟨strtoul_whole.mpr (.inr ⟨false, digits, hs, by omega, ?_⟩), hs.ne_nil⟩
        simp [hn]
      | @minusZero digits hs h0 hn =>
        refine ⟨strtoul_whole.mpr (.inr ⟨true, digits, hs, by omega, ?_⟩), hs.ne_nil⟩
        rw [if_pos rfl, h0, hn]
        rfl
      | @minus digits hs hpos hn =>
        have hpos' : n.toNat ≠ 0 := fun h0 => hpos (UInt32.toNat_inj.mp h0)
        refine ⟨strtoul_whole.mpr (.inr ⟨true, digits, hs, by omega, ?_⟩), hs.ne_nil⟩
        rw [if_pos rfl, negated_eq, if_neg (by omega)]
        omega
    simp only [parseUnsigned, hparsed.1]
    rw [if_neg (by simp [hparsed.2]; omega), UInt32.ofNat_toNat]

/-! ## `parse_options` -/

/-- `INT_MAX`. -/
abbrev intMax : UInt32 := 0x7fffffff

/-- `struct options`. -/
structure CommandLine where
  device : PyStr
  maxEvents : UInt32
  pollTimeoutMs : { ms : UInt32 // ms ≤ intMax }

/-- The defaults that `parse_options` begins with. -/
def CommandLine.default : CommandLine := ⟨py "/dev/vdevlab0", 0, ⟨5000, by decide⟩⟩

/-- `parse_options` returns 0, leaves with the status 0, or returns -1. -/
inductive OptionsResult
  | options (o : CommandLine)
  | help
  | invalid

/-- The loop of `parse_options`. -/
def parseOptionsFrom (o : CommandLine) : List PyStr → OptionsResult
  | [] => .options o
  | [word] => if word = py "--help" then .help else .invalid
  | word :: value :: rest =>
      if word = py "--device" then parseOptionsFrom { o with device := value } rest
      else if word = py "--max-events" then
        match parseUnsigned value with
        | none => .invalid
        | some n => if n = 0 then .invalid else parseOptionsFrom { o with maxEvents := n } rest
      else if word = py "--poll-timeout-ms" then
        match parseUnsigned value with
        | none => .invalid
        | some n =>
            if h : n ≤ intMax then parseOptionsFrom { o with pollTimeoutMs := ⟨n, h⟩ } rest
            else .invalid
      else if word = py "--help" then .help
      else .invalid

def parseOptions (args : List PyStr) : OptionsResult := parseOptionsFrom .default args

/-- The words lead from one setting of the options to another. -/
inductive Sets : List PyStr → CommandLine → CommandLine → Prop
  | nil {o} : Sets [] o o
  | device {o o' value rest} (h : Sets rest { o with device := value } o') :
      Sets (py "--device" :: value :: rest) o o'
  | maxEvents {o o' value rest n} (hn : Unsigned value n) (hpos : n ≠ 0)
      (h : Sets rest { o with maxEvents := n } o') :
      Sets (py "--max-events" :: value :: rest) o o'
  | pollTimeout {o o' value rest n} (hn : Unsigned value n) (hle : n ≤ intMax)
      (h : Sets rest { o with pollTimeoutMs := ⟨n, hle⟩ } o') :
      Sets (py "--poll-timeout-ms" :: value :: rest) o o'

/-- Words that are in order do not change how the others are read. -/
theorem Sets.parse {front : List PyStr} {o o' : CommandLine} (h : Sets front o o')
    (rest : List PyStr) : parseOptionsFrom o (front ++ rest) = parseOptionsFrom o' rest := by
  induction h with
  | nil => rfl
  | device _ ih => rw [List.cons_append, List.cons_append, parseOptionsFrom, if_pos rfl, ih]
  | maxEvents hn hpos _ ih =>
    rw [List.cons_append, List.cons_append, parseOptionsFrom, if_neg (by decide), if_pos rfl,
      parseUnsigned_eq_some.mpr hn]
    simp only
    rw [if_neg hpos, ih]
  | pollTimeout hn hle _ ih =>
    rw [List.cons_append, List.cons_append, parseOptionsFrom, if_neg (by decide),
      if_neg (by decide), if_pos rfl, parseUnsigned_eq_some.mpr hn]
    simp only
    rw [dif_pos hle, ih]

theorem parseOptionsFrom_help (o : CommandLine) (rest : List PyStr) :
    parseOptionsFrom o (py "--help" :: rest) = .help := by
  cases rest with
  | nil => rw [parseOptionsFrom, if_pos rfl]
  | cons value rest =>
    rw [parseOptionsFrom, if_neg (by decide), if_neg (by decide), if_neg (by decide), if_pos rfl]

/-- What the words turned out to be. -/
inductive Reading (args : List PyStr) (o : CommandLine) : OptionsResult → Prop
  | options {o'} (h : Sets args o o') : Reading args o (.options o')
  | help {front o' rest} (h : Sets front o o') (hargs : args = front ++ py "--help" :: rest) :
      Reading args o .help
  | invalid : Reading args o .invalid

/-- A setting in front of words that were read. -/
theorem Reading.cons {word value : PyStr} {rest : List PyStr} {o o₁ : CommandLine} {p : OptionsResult}
    (h : Reading rest o₁ p)
    (hset : ∀ {front o'}, Sets front o₁ o' → Sets (word :: value :: front) o o') :
    Reading (word :: value :: rest) o p := by
  cases h with
  | options h => exact .options (hset h)
  | help h hargs => exact .help (hset h) (by rw [hargs]; rfl)
  | invalid => exact .invalid

theorem parseOptionsFrom_reading (o : CommandLine) (args : List PyStr) :
    Reading args o (parseOptionsFrom o args) := by
  fun_induction parseOptionsFrom o args with
  | case1 o => exact .options .nil
  | case2 o => exact .help .nil rfl
  | case3 => exact .invalid
  | case4 o value rest ih => exact ih.cons .device
  | case5 => exact .invalid
  | case6 => exact .invalid
  | case7 o value rest n hn hpos _ ih =>
    exact ih.cons (.maxEvents (parseUnsigned_eq_some.mp hn) hpos)
  | case8 => exact .invalid
  | case9 o value rest n hn hle _ _ ih =>
    exact ih.cons (.pollTimeout (parseUnsigned_eq_some.mp hn) hle)
  | case10 => exact .invalid
  | case11 o value rest =>
    have hargs : py "--help" :: value :: rest = [] ++ py "--help" :: (value :: rest) := rfl
    exact .help .nil hargs
  | case12 => exact .invalid

/-- `parse_options` accepts exactly the words that are a sequence of options
with their values, each of which sets its own field, and asks for help
exactly when such a sequence is followed by `--help`. -/
theorem parse_options_language (args : List PyStr) :
    (∀ o, parseOptions args = .options o ↔ Sets args .default o) ∧
      (parseOptions args = .help ↔
        ∃ front rest o, args = front ++ py "--help" :: rest ∧ Sets front .default o) := by
  have hreading := parseOptionsFrom_reading .default args
  refine ⟨?_, ?_⟩
  · intro o
    constructor
    · intro h
      rw [← parseOptions, h] at hreading
      cases hreading with
      | options h => exact h
    · intro h
      have hparse := h.parse []
      rwa [List.append_nil] at hparse
  · constructor
    · intro h
      rw [← parseOptions, h] at hreading
      cases hreading with
      | @help front o rest hsets hargs => exact ⟨front, rest, o, hargs, hsets⟩
    · rintro ⟨front, rest, o, rfl, hsets⟩
      rw [parseOptions, hsets.parse, parseOptionsFrom_help]

end VDevLab.Monitor
