import VDevLab.Lib.CInteger
import VDevLab.Kernel.Machine

/-!
# `vdevlab-ctl.c`

The control tool: one command line, at most one `ioctl`, one line of output.
Its limits are those of the module, checked once more in user space. So what
it asks for is never refused, and it can ask for every record that the module
keeps as it is.
-/

namespace VDevLab.Tools

open PyStr Kernel CInteger

/-! ## What it prints -/

/-- `fault_name`. -/
def faultName (type : UInt32) : PyStr :=
  if type = faultNone then py "none"
  else if type = faultEio then py "eio"
  else if type = faultDelay then py "delay"
  else if type = faultDisconnect then py "disconnect"
  else if type = faultPartialRead then py "partial-read"
  else py "unknown"

/-- The line of `get`, and of `set` when it succeeded. -/
def faultText (config : FaultConfig) : PyStr :=
  py "fault=" ++ faultName config.type
    ++ (if config.type = faultEio then py " remaining=" ++ decimal config.repeats.toNat else [])
    ++ (if config.type = faultDelay then py " delay_ms=" ++ decimal config.delayMs.toNat else [])
    ++ (if config.type = faultPartialRead then
          py " max_bytes=" ++ decimal config.partialReadBytes.toNat else [])
    ++ py "\n"

/-- What goes to the standard error; `perror` adds the text of the errno. -/
inductive Diagnostic
  | text (t : PyStr)
  | perror (call : PyStr) (errno : Int)
  deriving DecidableEq

/-- The lines of `usage` behind the name of the program. -/
def usageLines : List PyStr :=
  [py " get\n", py " clear\n", py " reset\n", py " reconnect\n", py " set none\n",
    py " set eio <count>\n", py " set delay <milliseconds>\n", py " set partial-read <bytes>\n",
    py " set disconnect\n"]

def usage (prog : PyStr) : Diagnostic :=
  .text (py "Usage:\n" ++ usageLines.flatMap fun line => py "  " ++ prog ++ line)

/-! ## `main` -/

structure Exit where
  status : Nat
  stdout : PyStr
  stderr : List Diagnostic
  deriving DecidableEq

def Exit.failed (d : Diagnostic) : Exit := ⟨1, [], [d]⟩

/-- `main` leaves, or it calls `ioctl` and leaves with what came of it. -/
inductive Step
  | leave (e : Exit)
  | ioctl (cmd : IoctlCmd) (done : IoctlResult → Exit)

/-- A call of `ioctl`, and what is printed when it succeeds. -/
def call (cmd : IoctlCmd) (name : String) (print : IoctlResult → PyStr) : Step :=
  .ioctl cmd fun r =>
    if r.ret < 0 then .failed (.perror (py name) (-r.ret)) else ⟨0, print r, []⟩

/-- A number from 1 on, as `strtol` reads it. -/
def rangeArgument (max : UInt32) (text : PyStr) : Option UInt32 :=
  let r := strtol text
  if r.range = true ∨ r.rest ≠ [] ∨ r.value ≤ 0 ∨ (max.toNat : Int) < r.value then none
  else some (UInt32.ofNat r.value.toNat)

/-- A kind of fault without a number. -/
def plainFault (prog : PyStr) (config : FaultConfig) (args : List PyStr) :
    Except Diagnostic FaultConfig :=
  if args = [] then .ok config else .error (usage prog)

/-- A kind of fault with a number: its limit, the message behind the limit
and before it, and the record. -/
def numberFault (prog : PyStr) (max : UInt32) (what unit : PyStr) (config : UInt32 → FaultConfig) :
    List PyStr → Except Diagnostic FaultConfig
  | [text] =>
      match rangeArgument max text with
      | none => .error (.text (what ++ py " must be between 1 and " ++ decimal max.toNat ++ unit
          ++ py "\n"))
      | some n => .ok (config n)
  | _ => .error (usage prog)

def eioFault (prog : PyStr) : List PyStr → Except Diagnostic FaultConfig :=
  numberFault prog maxFaultRepeat (py "count") [] fun n => ⟨faultEio, n, 0, 0⟩

def delayFault (prog : PyStr) : List PyStr → Except Diagnostic FaultConfig :=
  numberFault prog maxDelayMs (py "delay") (py " ms") fun n => ⟨faultDelay, 0, n, 0⟩

def partialReadFault (prog : PyStr) : List PyStr → Except Diagnostic FaultConfig :=
  numberFault prog maxPartialRead (py "partial read") (py " bytes") fun n =>
    ⟨faultPartialRead, 0, 0, n⟩

/-- The record that is asked for, from the arguments behind `set`. -/
def setArguments (prog : PyStr) : List PyStr → Except Diagnostic FaultConfig
  | [] => .error (usage prog)
  | kind :: args =>
      if kind = py "none" then plainFault prog ⟨faultNone, 0, 0, 0⟩ args
      else if kind = py "eio" then eioFault prog args
      else if kind = py "disconnect" then plainFault prog ⟨faultDisconnect, 0, 0, 0⟩ args
      else if kind = py "delay" then delayFault prog args
      else if kind = py "partial-read" then partialReadFault prog args
      else .error (usage prog)

/-- From the opened device on; `get` does not count its arguments. -/
def command (prog name : PyStr) (args : List PyStr) : Step :=
  if name = py "get" then
    call .getFault "ioctl(GET_FAULT)" fun r => faultText (r.config.getD ⟨0, 0, 0, 0⟩)
  else if name = py "clear" ∨ name = py "reconnect" then
    if args ≠ [] then .leave (.failed (usage prog))
    else call .clearFault "ioctl(CLEAR_FAULT)" fun _ =>
      if name = py "reconnect" then py "device reconnected\n" else py "fault cleared\n"
  else if name = py "reset" then
    if args ≠ [] then .leave (.failed (usage prog))
    else call .reset "ioctl(RESET)" fun _ => py "fault and FIFO reset\n"
  else if name = py "set" then
    match setArguments prog args with
    | .error d => .leave (.failed d)
    | .ok config => call (.setFault config) "ioctl(SET_FAULT)" fun _ => faultText config
  else .leave (.failed (usage prog))

/-- `main`, with the errno of `open` when it failed. -/
def main (prog : PyStr) (args : List PyStr) (opened : Option Int) : Step :=
  match args, opened with
  | [], _ => .leave (.failed (usage prog))
  | _ :: _, some errno => .leave (.failed (.perror (py "open") errno))
  | name :: args, none => command prog name args

/-! ## The command line -/

/-- Blanks, perhaps a plus, and digits of a number from 1 on. -/
structure Argument (max : UInt32) (text : PyStr) (n : UInt32) : Prop where
  pos : n ≠ 0
  le : n ≤ max
  spelled : ∃ digits, Spelled false digits text ∧ natOfDigits digits = n.toNat

theorem rangeArgument_eq_some {max n : UInt32} {text : PyStr} :
    rangeArgument max text = some n ↔ Argument max text n := by
  have hmax : max.toNat < 2 ^ 32 := max.toNat_lt
  constructor
  · intro h
    simp only [rangeArgument] at h
    split at h
    · cases h
    · next hno =>
      simp only [not_or, Bool.not_eq_true, not_not, not_le, not_lt] at hno
      obtain ⟨hrange, hrest, hpos, hle⟩ := hno
      have hwhole : strtol text = ⟨(strtol text).value, [], false⟩ := by
        rw [← hrest, ← hrange]
      obtain ⟨rfl, h0⟩ | ⟨neg, digits, hs, hv, -, -⟩ := strtol_whole.mp hwhole
      · omega
      · rw [← hv] at h hpos hle
        cases neg with
        | true =>
          simp only [signed, if_true] at hpos
          omega
        | false =>
          simp only [signed, Bool.false_eq_true, if_false] at h hpos hle
          have hn : n.toNat = natOfDigits digits := by
            rw [← Option.some.inj h, Int.toNat_natCast, UInt32.toNat_ofNat']
            omega
          refine ⟨?_, ?_, digits, hs, hn.symm⟩
          · rintro rfl
            rw [UInt32.toNat_zero] at hn
            omega
          · rw [UInt32.le_iff_toNat_le]
            omega
  · intro h
    obtain ⟨hpos, hle, digits, hs, hn⟩ := h
    rw [UInt32.le_iff_toNat_le] at hle
    have hpos' : n.toNat ≠ 0 := fun h0 => hpos (UInt32.toNat_inj.mp h0)
    have hwhole : strtol text = ⟨n.toNat, [], false⟩ := by
      refine strtol_whole.mpr (.inr ⟨false, digits, hs, ?_, ?_, ?_⟩)
      · rw [← hn]
        rfl
      · show -2 ^ 63 ≤ (n.toNat : Int)
        omega
      · show (n.toNat : Int) ≤ 2 ^ 63 - 1
        omega
    simp only [rangeArgument, hwhole]
    rw [if_neg (by simp; omega), Int.toNat_natCast, UInt32.ofNat_toNat]

/-- The command lines that are understood. -/
inductive Command : List PyStr → IoctlCmd → Prop
  | get (extra : List PyStr) : Command (py "get" :: extra) .getFault
  | clear : Command [py "clear"] .clearFault
  | reconnect : Command [py "reconnect"] .clearFault
  | reset : Command [py "reset"] .reset
  | none : Command [py "set", py "none"] (.setFault ⟨faultNone, 0, 0, 0⟩)
  | disconnect : Command [py "set", py "disconnect"] (.setFault ⟨faultDisconnect, 0, 0, 0⟩)
  | eio {text : PyStr} {n : UInt32} (h : Argument maxFaultRepeat text n) :
      Command [py "set", py "eio", text] (.setFault ⟨faultEio, n, 0, 0⟩)
  | delay {text : PyStr} {n : UInt32} (h : Argument maxDelayMs text n) :
      Command [py "set", py "delay", text] (.setFault ⟨faultDelay, 0, n, 0⟩)
  | partialRead {text : PyStr} {n : UInt32} (h : Argument maxPartialRead text n) :
      Command [py "set", py "partial-read", text] (.setFault ⟨faultPartialRead, 0, 0, n⟩)

theorem plainFault_eq_ok {prog : PyStr} {config c : FaultConfig} {args : List PyStr} :
    plainFault prog config args = .ok c ↔ args = [] ∧ c = config := by
  unfold plainFault
  by_cases hargs : args = []
  · simp [hargs, eq_comm]
  · simp [hargs]

theorem numberFault_eq_ok {prog what unit : PyStr} {max : UInt32} {config : UInt32 → FaultConfig}
    {args : List PyStr} {c : FaultConfig} :
    numberFault prog max what unit config args = .ok c ↔
      ∃ text n, args = [text] ∧ Argument max text n ∧ c = config n := by
  constructor
  · intro h
    unfold numberFault at h
    split at h
    · next text =>
      split at h
      · cases h
      · next n hn =>
        cases h
        exact ⟨text, n, rfl, rangeArgument_eq_some.mp hn, rfl⟩
    · cases h
  · rintro ⟨text, n, rfl, hn, rfl⟩
    simp only [numberFault, rangeArgument_eq_some.mpr hn]

theorem setArguments_eq_ok {prog : PyStr} {args : List PyStr} {c : FaultConfig} :
    setArguments prog args = .ok c ↔ Command (py "set" :: args) (.setFault c) := by
  constructor
  · intro h
    cases args with
    | nil => cases h
    | cons kind args =>
      simp only [setArguments] at h
      split at h
      · next hkind =>
        obtain ⟨rfl, rfl⟩ := plainFault_eq_ok.mp h
        exact hkind ▸ .none
      · split at h
        · next hkind =>
          obtain ⟨text, n, rfl, hn, rfl⟩ := numberFault_eq_ok.mp h
          exact hkind ▸ .eio hn
        · split at h
          · next hkind =>
            obtain ⟨rfl, rfl⟩ := plainFault_eq_ok.mp h
            exact hkind ▸ .disconnect
          · split at h
            · next hkind =>
              obtain ⟨text, n, rfl, hn, rfl⟩ := numberFault_eq_ok.mp h
              exact hkind ▸ .delay hn
            · split at h
              · next hkind =>
                obtain ⟨text, n, rfl, hn, rfl⟩ := numberFault_eq_ok.mp h
                exact hkind ▸ .partialRead hn
              · cases h
  · intro h
    cases h with
    | none => rw [setArguments, if_pos rfl, plainFault_eq_ok.mpr ⟨rfl, rfl⟩]
    | disconnect =>
      rw [setArguments, if_neg (by decide), if_neg (by decide), if_pos rfl,
        plainFault_eq_ok.mpr ⟨rfl, rfl⟩]
    | eio hn =>
      rw [setArguments, if_neg (by decide), if_pos rfl, eioFault,
        numberFault_eq_ok.mpr ⟨_, _, rfl, hn, rfl⟩]
    | delay hn =>
      rw [setArguments, if_neg (by decide), if_neg (by decide), if_neg (by decide), if_pos rfl,
        delayFault, numberFault_eq_ok.mpr ⟨_, _, rfl, hn, rfl⟩]
    | partialRead hn =>
      rw [setArguments, if_neg (by decide), if_neg (by decide), if_neg (by decide),
        if_neg (by decide), if_pos rfl, partialReadFault,
        numberFault_eq_ok.mpr ⟨_, _, rfl, hn, rfl⟩]

/-- What the tool does with a command line: the call that it makes, with the
line it prints, or a message and the status 1. -/
inductive Step.Does (args : List PyStr) : Step → Prop
  | leave (d : Diagnostic) (h : ∀ cmd, ¬ Command args cmd) : Does args (.leave (.failed d))
  | call {cmd : IoctlCmd} {name : String} {print : IoctlResult → PyStr} (h : Command args cmd)
      (hone : ∀ cmd', Command args cmd' → cmd' = cmd) : Does args (call cmd name print)

/-- The first word of a command line says which call it is about. -/
theorem Command.word {name : PyStr} {args : List PyStr} {cmd : IoctlCmd}
    (h : Command (name :: args) cmd) :
    name = py "get" ∧ cmd = .getFault ∨
      (name = py "clear" ∨ name = py "reconnect") ∧ args = [] ∧ cmd = .clearFault ∨
      name = py "reset" ∧ args = [] ∧ cmd = .reset ∨
      name = py "set" ∧ ∃ config, cmd = .setFault config := by
  cases h with
  | get => exact .inl ⟨rfl, rfl⟩
  | clear => exact .inr (.inl ⟨.inl rfl, rfl, rfl⟩)
  | reconnect => exact .inr (.inl ⟨.inr rfl, rfl, rfl⟩)
  | reset => exact .inr (.inr (.inl ⟨rfl, rfl, rfl⟩))
  | none => exact .inr (.inr (.inr ⟨rfl, _, rfl⟩))
  | disconnect => exact .inr (.inr (.inr ⟨rfl, _, rfl⟩))
  | eio => exact .inr (.inr (.inr ⟨rfl, _, rfl⟩))
  | delay => exact .inr (.inr (.inr ⟨rfl, _, rfl⟩))
  | partialRead => exact .inr (.inr (.inr ⟨rfl, _, rfl⟩))

theorem Command.of_get {args : List PyStr} {cmd : IoctlCmd} (h : Command (py "get" :: args) cmd) :
    cmd = .getFault := by
  rcases h.word with ⟨-, hcmd⟩ | ⟨h | h, -⟩ | ⟨h, -⟩ | ⟨h, -⟩
  · exact hcmd
  all_goals exact absurd h (by decide)

theorem Command.of_clear {name : PyStr} {args : List PyStr} {cmd : IoctlCmd}
    (hname : name = py "clear" ∨ name = py "reconnect") (h : Command (name :: args) cmd) :
    args = [] ∧ cmd = .clearFault := by
  rcases h.word with ⟨h, -⟩ | ⟨-, hargs⟩ | ⟨h, -⟩ | ⟨h, -⟩
  · rcases hname with rfl | rfl <;> exact absurd h (by decide)
  · exact hargs
  · rcases hname with rfl | rfl <;> exact absurd h (by decide)
  · rcases hname with rfl | rfl <;> exact absurd h (by decide)

theorem Command.of_reset {args : List PyStr} {cmd : IoctlCmd}
    (h : Command (py "reset" :: args) cmd) : args = [] ∧ cmd = .reset := by
  rcases h.word with ⟨h, -⟩ | ⟨h | h, -⟩ | ⟨-, hargs⟩ | ⟨h, -⟩
  · exact absurd h (by decide)
  · exact absurd h (by decide)
  · exact absurd h (by decide)
  · exact hargs
  · exact absurd h (by decide)

theorem Command.of_set {args : List PyStr} {cmd : IoctlCmd} (h : Command (py "set" :: args) cmd) :
    ∃ config, cmd = .setFault config := by
  rcases h.word with ⟨h, -⟩ | ⟨h | h, -⟩ | ⟨h, -⟩ | ⟨-, hconfig⟩
  · exact absurd h (by decide)
  · exact absurd h (by decide)
  · exact absurd h (by decide)
  · exact absurd h (by decide)
  · exact hconfig

theorem command_does (prog name : PyStr) (args : List PyStr) :
    Step.Does (name :: args) (command prog name args) := by
  unfold command
  split
  · next hname =>
    subst hname
    exact .call (.get args) fun cmd' h => h.of_get
  · next hget =>
    split
    · next hname =>
      split
      · next hargs => exact .leave _ fun cmd h => hargs (h.of_clear hname).1
      · next hargs =>
        rw [not_not] at hargs
        subst hargs
        refine .call ?_ fun cmd' h => (h.of_clear hname).2
        rcases hname with rfl | rfl
        · exact .clear
        · exact .reconnect
    · next hclear =>
      split
      · next hname =>
        subst hname
        split
        · next hargs => exact .leave _ fun cmd h => hargs h.of_reset.1
        · next hargs =>
          rw [not_not] at hargs
          subst hargs
          exact .call .reset fun cmd' h => h.of_reset.2
      · next hreset =>
        split
        · next hname =>
          subst hname
          split
          · next d hd =>
            refine .leave d ?_
            intro cmd h
            obtain ⟨c, rfl⟩ := h.of_set
            rw [setArguments_eq_ok.mpr h] at hd
            cases hd
          · next config hok =>
            refine .call (setArguments_eq_ok.mp hok) ?_
            intro cmd h
            obtain ⟨c, rfl⟩ := h.of_set
            rw [setArguments_eq_ok.mpr h] at hok
            cases hok
            rfl
        · next hset =>
          refine .leave _ ?_
          intro cmd h
          rcases h.word with ⟨hname, -⟩ | ⟨hname, -⟩ | ⟨hname, -⟩ | ⟨hname, -⟩
          · exact hget hname
          · exact hclear hname
          · exact hreset hname
          · exact hset hname

theorem main_does (prog : PyStr) (args : List PyStr) : Step.Does args (main prog args none) := by
  cases args with
  | nil =>
    refine .leave _ ?_
    intro cmd h
    cases h
  | cons name args => exact command_does prog name args

theorem main_ioctl_iff {prog : PyStr} {args : List PyStr} {cmd : IoctlCmd} :
    (∃ done, main prog args none = .ioctl cmd done) ↔ Command args cmd := by
  have hdoes := main_does prog args
  generalize main prog args none = step at hdoes ⊢
  cases hdoes with
  | leave d hno =>
    refine iff_of_false ?_ (hno cmd)
    rintro ⟨done, hdone⟩
    cases hdone
  | call hcmd hone =>
    constructor
    · rintro ⟨done, hdone⟩
      cases hdone
      exact hcmd
    · intro h
      rw [hone cmd h]
      exact ⟨_, rfl⟩

theorem argument_decimal {max n : UInt32} (hpos : n ≠ 0) (hle : n ≤ max) :
    Argument max (decimal n.toNat) n :=
  ⟨hpos, hle, decimal n.toNat, spelled_decimal n.toNat, natOfDigits_decimal n.toNat⟩

theorem Command.canonical {args : List PyStr} {config : FaultConfig}
    (h : Command args (.setFault config)) : Canonical config := by
  cases h with
  | none => exact Canonical.none
  | disconnect => exact .disconnect
  | eio h => exact .eio h.pos h.le
  | delay h => exact .delay h.pos h.le
  | partialRead h => exact .partialRead h.pos h.le

theorem Canonical.command {config : FaultConfig} (h : Canonical config) :
    ∃ args, Command args (.setFault config) := by
  cases h with
  | none => exact ⟨_, .none⟩
  | disconnect => exact ⟨_, .disconnect⟩
  | eio hpos hle => exact ⟨_, .eio (argument_decimal hpos hle)⟩
  | delay hpos hle => exact ⟨_, .delay (argument_decimal hpos hle)⟩
  | partialRead hpos hle => exact ⟨_, .partialRead (argument_decimal hpos hle)⟩

/-- The records that some command line asks for are the records that the
module accepts and stores as they are. -/
theorem ctl_sets_accepted (config : FaultConfig) :
    (∃ prog args done, main prog args none = .ioctl (.setFault config) done) ↔
      validateFault config = .ok config := by
  constructor
  · rintro ⟨prog, args, done, hdone⟩
    exact (main_ioctl_iff.mp ⟨done, hdone⟩).canonical.validateFault
  · intro h
    obtain ⟨args, hargs⟩ := Canonical.command (validateFault_canonical h).1
    have hmain : ∃ done, main [] args none = .ioctl (.setFault config) done :=
      main_ioctl_iff.mpr hargs
    obtain ⟨done, hdone⟩ := hmain
    exact ⟨[], args, done, hdone⟩

end VDevLab.Tools
