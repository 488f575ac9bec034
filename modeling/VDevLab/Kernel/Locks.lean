import VDevLab.Lib.Critical
import VDevLab.Kernel.Progress

/-!
# The sections under their mutexes

The machine takes each section under a mutex in one step. Here the mutexes
are there: a section takes them, works on the fault record one word at a time
and on the FIFO one `kfifo` call at a time, and gives them back, and any other
call moves between two of these statements. The lock-free reads see the
device as it then is, half-written record included.

The sections nevertheless behave as the steps of the machine do, in the order
in which they had their last mutex. `RESET` takes both mutexes, the fault
mutex first, and is the only section to take two.
-/

namespace VDevLab.Kernel

/-! ## The fault record, word by word -/

inductive Word
  | type
  | repeats
  | delayMs
  | partialReadBytes
  deriving DecidableEq, Repr

def FaultConfig.word (c : FaultConfig) : Word → UInt32
  | .type => c.type
  | .repeats => c.repeats
  | .delayMs => c.delayMs
  | .partialReadBytes => c.partialReadBytes

def FaultConfig.setWord (c : FaultConfig) (v : UInt32) : Word → FaultConfig
  | .type => { c with type := v }
  | .repeats => { c with repeats := v }
  | .delayMs => { c with delayMs := v }
  | .partialReadBytes => { c with partialReadBytes := v }

/-- The order in which a copy of the whole record moves its words. -/
structure WordOrder where
  words : List Word
  all : ∀ w, w ∈ words

theorem FaultConfig.word_setWord (c : FaultConfig) (v : UInt32) (w x : Word) :
    (c.setWord v w).word x = if x = w then v else c.word x := by
  cases w <;> cases x <;> rfl

theorem FaultConfig.ext_word {c c' : FaultConfig} (h : ∀ w, c.word w = c'.word w) : c = c' := by
  obtain ⟨type, repeats, delayMs, bytes⟩ := c
  obtain ⟨type', repeats', delayMs', bytes'⟩ := c'
  have h1 : type = type' := h .type
  have h2 : repeats = repeats' := h .repeats
  have h3 : delayMs = delayMs' := h .delayMs
  have h4 : bytes = bytes' := h .partialReadBytes
  rw [h1, h2, h3, h4]

/-! ## The two mutexes -/

/-- `vdevlab_fault_lock` and `vdevlab_fifo_lock`. -/
inductive Mutex
  | faultLock
  | fifoLock
  deriving DecidableEq, Repr

/-- The fault mutex comes first; it guards the record, the other the FIFO. -/
def guards : Guards Mutex Device where
  rank
    | .faultLock => 0
    | .fifoLock => 1
  same
    | .faultLock => fun d d' => d.fault = d'.fault
    | .fifoLock => fun d d' => d.fifo = d'.fifo
  equiv
    | .faultLock => ⟨fun _ => rfl, Eq.symm, Eq.trans⟩
    | .fifoLock => ⟨fun _ => rfl, Eq.symm, Eq.trans⟩

/-- A section ends with the call where it goes on. -/
abbrev Section := Critical Mutex Device Call

/-! ## Statements -/

def load (w : Word) (k : UInt32 → Section) : Section :=
  .act id fun d => k (d.fault.word w)

def store (w : Word) (v : UInt32) (k : Section) : Section :=
  .act (fun d => { d with fault := d.fault.setWord v w }) fun _ => k

/-- `config = vdevlab_fault`, on top of what `config` held. -/
def loadWords (config : FaultConfig) (k : FaultConfig → Section) : List Word → Section
  | [] => k config
  | w :: ws => load w fun v => loadWords (config.setWord v w) k ws

/-- `vdevlab_fault = config`. -/
def storeWords (config : FaultConfig) (k : Section) : List Word → Section
  | [] => k
  | w :: ws => store w (config.word w) (storeWords config k ws)

/-- The four assignments of `vdevlab_clear_fault_locked`. -/
def clearWords (k : Section) : Section :=
  storeWords clearFaultLocked k [.type, .repeats, .delayMs, .partialReadBytes]

/-! ## Sections -/

/-- What follows the `mutex_unlock` of `vdevlab_apply_read_fault`. -/
def afterSample (delayMs : UInt32) (ret : Int) (l : ReadLocals) : Ctl ReadPc ReadResult :=
  if delayMs ≠ 0 then .run (.delay delayMs ret l)
  else if ret ≠ 0 then .exit ⟨ret, []⟩
  else .run (.lock l)

/-- The locked part of `vdevlab_apply_read_fault`. -/
def sampleSection (a : ReadArgs) (l : ReadLocals) : Section :=
  let unlock (delayMs : UInt32) (ret : Int) (l : ReadLocals) : Section :=
    .unlock .faultLock (.done (.read a (afterSample delayMs ret l)))
  .lock .faultLock <| load .type fun type =>
    if type = faultNone then unlock 0 0 l
    else if type = faultEio then
      load .repeats fun repeats =>
        if repeats = 0 then clearWords (unlock 0 0 l)
        else
          -- vdevlab_fault.repeat--, and the test of what is left
          store .repeats (repeats - 1) <| load .repeats fun left =>
            if left = 0 then clearWords (unlock 0 (- EIO) l) else unlock 0 (- EIO) l
    else if type = faultDelay then
      if !l.delayApplied then
        load .delayMs fun ms => unlock ms 0 { l with delayApplied := true }
      else unlock 0 0 l
    else if type = faultPartialRead then
      load .partialReadBytes fun bytes => unlock 0 0 { l with partialReadBytes := bytes }
    else if type = faultDisconnect then unlock 0 (-ENODEV) l
    else unlock 0 (-EINVAL) l

/-- The section of `vdevlab_read` under `vdevlab_fifo_lock`. -/
def dequeueSection (a : ReadArgs) (l : ReadLocals) (reach : Nat) : Section :=
  .lock .fifoLock <| .act id fun d =>
    if kfifoIsEmpty d then
      .unlock .fifoLock (.done (.read a
        (if a.nonblock then .exit (.error EAGAIN) else .run (.enqueue l))))
    else
      -- kfifo_len, then kfifo_to_user
      .act id fun d =>
        let c := userCopy (readToCopy a d l) reach
        .act (fun d => (readDequeue d c).1) fun d =>
          .unlock .fifoLock (.done (.read a
            (if c.copied ≠ 0 then .run (.wake (readDequeue d c).2)
              else .exit (readDequeue d c).2)))

/-- The section of `vdevlab_write`. -/
def enqueueSection (a : WriteArgs) (reach : Nat) : Section :=
  .lock .fifoLock <| .act id fun d =>
    if kfifoIsFull d then
      .unlock .fifoLock (.done (.write a
        (if a.nonblock then .exit (-EAGAIN) else .run .top)))
    else
      -- kfifo_avail, then kfifo_from_user
      .act id fun d =>
        let c := userCopy (writeToCopy a d) reach
        .act (fun d => writeEnqueue a d c) fun _ =>
          .unlock .fifoLock (.done (.write a
            (if c.copied ≠ 0 then .run (.wake (copyResult c)) else .exit (copyResult c))))

/-- The section of `vdevlab_poll`. -/
def pollSection (events : PollMask) (timedOut : Bool) : Section :=
  .lock .fifoLock <| .act id fun d =>
    let mask := if kfifoIsEmpty d then 0 else EPOLLIN ||| EPOLLRDNORM
    .act id fun d =>
      let mask := mask ||| if kfifoIsFull d then 0 else EPOLLOUT ||| EPOLLWRNORM
      .unlock .fifoLock (.done (.poll events (.run (.decide timedOut mask))))

def setSection (cmd : IoctlCmd) (config : FaultConfig) (order : WordOrder) : Section :=
  .lock .faultLock <|
    storeWords config (.unlock .faultLock (.done (.ioctl cmd (.run .wakeRead)))) order.words

def getSection (order : WordOrder) : Section :=
  .lock .faultLock <|
    loadWords ⟨0, 0, 0, 0⟩
      (fun config => .unlock .faultLock (.done (.ioctl .getFault (.run (.copyOut config)))))
      order.words

def clearSection : Section :=
  .lock .faultLock <|
    clearWords (.unlock .faultLock (.done (.ioctl .clearFault (.run .wakeRead))))

def resetSection : Section :=
  .lock .faultLock <| .lock .fifoLock <| clearWords <|
    .act (fun d => { d with fifo := [] }) fun _ =>
      .unlock .fifoLock <| .unlock .faultLock <| .done (.ioctl .reset (.run .wakeRead))

def readSection (ch : Choice) (a : ReadArgs) : ReadPc → Option Section
  | .fault l => some (sampleSection a l)
  | .lock l => if ch.signal then none else some (dequeueSection a l ch.reach)
  | _ => none

def writeSection (ch : Choice) (a : WriteArgs) : WritePc → Option Section
  | .lock => if ch.signal then none else some (enqueueSection a ch.reach)
  | _ => none

def ioctlSection (order : WordOrder) (cmd : IoctlCmd) : IoctlPc → Option Section
  | .store config => some (setSection cmd config order)
  | .start =>
      match cmd with
      | .getFault => some (getSection order)
      | .clearFault => some clearSection
      | .reset => some resetSection
      | _ => none
  | _ => none

/-- The section a call is about to begin. A call that gets a signal while it
waits for `mutex_lock_interruptible` begins none. -/
def sectionOf (ch : Choice) (order : WordOrder) : Call → Option Section
  | .read a (.run pc) => readSection ch a pc
  | .write a (.run pc) => writeSection ch a pc
  | .poll events (.run (.sampleFifo t)) => some (pollSection events t)
  | .ioctl cmd (.run pc) => ioctlSection order cmd pc
  | _ => none

/-- The sections and the calls that begin them. -/
inductive Begins (ch : Choice) (order : WordOrder) : Call → Section → Prop
  | sample {a l} : Begins ch order (.read a (.run (.fault l))) (sampleSection a l)
  | dequeue {a l} : ch.signal = false →
      Begins ch order (.read a (.run (.lock l))) (dequeueSection a l ch.reach)
  | enqueue {a} : ch.signal = false →
      Begins ch order (.write a (.run .lock)) (enqueueSection a ch.reach)
  | poll {events t} : Begins ch order (.poll events (.run (.sampleFifo t))) (pollSection events t)
  | set {cmd config} :
      Begins ch order (.ioctl cmd (.run (.store config))) (setSection cmd config order)
  | get : Begins ch order (.ioctl .getFault (.run .start)) (getSection order)
  | clear : Begins ch order (.ioctl .clearFault (.run .start)) clearSection
  | reset : Begins ch order (.ioctl .reset (.run .start)) resetSection

theorem readSection_begins {ch : Choice} {a : ReadArgs} {pc : ReadPc} {p : Section}
    (h : readSection ch a pc = some p) (order : WordOrder) :
    Begins ch order (.read a (.run pc)) p := by
  cases pc with
  | fault l =>
    obtain rfl := Option.some.inj h
    exact .sample
  | lock l =>
    cases hs : ch.signal with
    | true => simp [readSection, hs] at h
    | false =>
      rw [readSection, hs, if_neg Bool.false_ne_true] at h
      obtain rfl := Option.some.inj h
      exact .dequeue hs
  | _ => simp [readSection] at h

theorem writeSection_begins {ch : Choice} {a : WriteArgs} {pc : WritePc} {p : Section}
    (h : writeSection ch a pc = some p) (order : WordOrder) :
    Begins ch order (.write a (.run pc)) p := by
  cases pc with
  | lock =>
    cases hs : ch.signal with
    | true => simp [writeSection, hs] at h
    | false =>
      rw [writeSection, hs, if_neg Bool.false_ne_true] at h
      obtain rfl := Option.some.inj h
      exact .enqueue hs
  | _ => simp [writeSection] at h

theorem ioctlSection_begins {order : WordOrder} {cmd : IoctlCmd} {pc : IoctlPc} {p : Section}
    (h : ioctlSection order cmd pc = some p) (ch : Choice) :
    Begins ch order (.ioctl cmd (.run pc)) p := by
  cases pc with
  | store config =>
    obtain rfl := Option.some.inj h
    exact .set
  | start =>
    cases cmd with
    | getFault => obtain rfl := Option.some.inj h; exact .get
    | clearFault => obtain rfl := Option.some.inj h; exact .clear
    | reset => obtain rfl := Option.some.inj h; exact .reset
    | _ => simp [ioctlSection] at h
  | _ => simp [ioctlSection] at h

theorem sectionOf_begins {ch : Choice} {order : WordOrder} {c : Call} {p : Section}
    (h : sectionOf ch order c = some p) : Begins ch order c p := by
  cases c with
  | read a ctl =>
    cases ctl with
    | run pc => exact readSection_begins h order
    | _ => simp [sectionOf] at h
  | write a ctl =>
    cases ctl with
    | run pc => exact writeSection_begins h order
    | _ => simp [sectionOf] at h
  | poll events ctl =>
    cases ctl with
    | run pc =>
      cases pc with
      | sampleFifo t =>
        obtain rfl := Option.some.inj h
        exact .poll
      | _ => simp [sectionOf] at h
    | _ => simp [sectionOf] at h
  | ioctl cmd ctl =>
    cases ctl with
    | run pc => exact ioctlSection_begins h ch
    | _ => simp [sectionOf] at h

/-! ## Sections are disciplined -/

section Body

variable {held : Mutex → Prop}

theorem body_load {w : Word} {k : UInt32 → Section} (hf : held .faultLock)
    (hk : ∀ v, guards.Body held (k v)) : guards.Body held (load w k) := by
  refine ⟨fun l _ d => guards.refl l d, fun d d' hsame => ⟨?_, hsame⟩, fun d => hk _⟩
  have hfault : d.fault = d'.fault := hsame .faultLock hf
  simp only [hfault]

theorem body_store {w : Word} {v : UInt32} {k : Section} (hf : held .faultLock)
    (hk : guards.Body held k) : guards.Body held (store w v k) := by
  refine ⟨fun l hl d => ?_, fun d d' hsame => ⟨rfl, fun l hl => ?_⟩, fun _ => hk⟩
  · cases l with
    | faultLock => exact absurd hf hl
    | fifoLock => rfl
  · cases l with
    | faultLock =>
      have hfault : d.fault = d'.fault := hsame .faultLock hf
      exact congrArg (FaultConfig.setWord · v w) hfault
    | fifoLock => exact hsame .fifoLock hl

theorem body_loadWords {k : FaultConfig → Section} (hf : held .faultLock)
    (hk : ∀ config, guards.Body held (k config)) (config : FaultConfig) (ws : List Word) :
    guards.Body held (loadWords config k ws) := by
  induction ws generalizing config with
  | nil => exact hk config
  | cons w ws ih => exact body_load hf fun v => ih _

theorem body_storeWords {config : FaultConfig} {k : Section} (hf : held .faultLock)
    (hk : guards.Body held k) (ws : List Word) :
    guards.Body held (storeWords config k ws) := by
  induction ws with
  | nil => exact hk
  | cons w ws ih => exact body_store hf ih

/-- A look at the FIFO under its mutex. -/
theorem body_look {k : Device → Section} (hf : held .fifoLock)
    (hk : ∀ d d', d.fifo = d'.fifo → k d = k d') (hbody : ∀ d, guards.Body held (k d)) :
    guards.Body held (.act id k) :=
  ⟨fun l _ d => guards.refl l d, fun d d' hsame => ⟨hk d d' (hsame .fifoLock hf), hsame⟩, hbody⟩

/-- A change of the FIFO under its mutex. -/
theorem body_move {f : List UInt8 → List UInt8} {g : Device → Device} {k : Device → Section}
    (hf : held .fifoLock) (hg : ∀ d, g d = { d with fifo := f d.fifo })
    (hk : ∀ d d', d.fifo = d'.fifo → k d = k d') (hbody : ∀ d, guards.Body held (k d)) :
    guards.Body held (.act g k) := by
  refine ⟨fun l hl d => ?_, fun d d' hsame => ⟨hk d d' (hsame .fifoLock hf), fun l hl => ?_⟩,
    hbody⟩
  · rw [hg]
    cases l with
    | faultLock => rfl
    | fifoLock => exact absurd hf hl
  · rw [hg, hg]
    cases l with
    | faultLock => exact hsame .faultLock hl
    | fifoLock =>
      have hfifo : d.fifo = d'.fifo := hsame .fifoLock hf
      exact congrArg f hfifo

/-- A section under one mutex that gives it back and ends. -/
theorem body_unlock {l : Mutex} (hl : ∀ m, held m ↔ m = l) (c : Call) :
    guards.Body held (.unlock l (.done c)) :=
  ⟨(hl l).mpr rfl, fun m hm => hm.2 ((hl m).mp hm.1)⟩

end Body

/-- The locks of a section that has taken `l` only. -/
abbrev only (l : Mutex) : Mutex → Prop := fun m => False ∨ m = l

theorem disciplined_only {l : Mutex} {k : Section} (hk : guards.Body (only l) k) :
    guards.Disciplined (fun _ => False) (.lock l k) :=
  ⟨fun _ => False.elim, hk.disciplined⟩

theorem only_iff (l : Mutex) : ∀ m, only l m ↔ m = l := fun _ => by simp [only]

theorem sampleSection_disciplined (a : ReadArgs) (l : ReadLocals) :
    guards.Disciplined (fun _ => False) (sampleSection a l) := by
  have hlock : only .faultLock .faultLock := .inr rfl
  have hunlock := fun c => body_unlock (only_iff .faultLock) c
  refine disciplined_only (body_load hlock fun type => ?_)
  split_ifs
  · exact hunlock _
  · refine body_load hlock fun repeats => ?_
    split_ifs
    · exact body_storeWords hlock (hunlock _) _
    · refine body_store hlock (body_load hlock fun left => ?_)
      split_ifs
      · exact body_storeWords hlock (hunlock _) _
      · exact hunlock _
  · exact body_load hlock fun ms => hunlock _
  · exact hunlock _
  · exact body_load hlock fun bytes => hunlock _
  · exact hunlock _
  · exact hunlock _

theorem kfifoIsEmpty_congr {d d' : Device} (h : d.fifo = d'.fifo) :
    kfifoIsEmpty d = kfifoIsEmpty d' := by
  rw [kfifoIsEmpty, kfifoIsEmpty, h]

theorem kfifoIsFull_congr {d d' : Device} (h : d.fifo = d'.fifo) :
    kfifoIsFull d = kfifoIsFull d' := by
  rw [kfifoIsFull, kfifoIsFull, h]

theorem dequeueSection_disciplined (a : ReadArgs) (l : ReadLocals) (reach : Nat) :
    guards.Disciplined (fun _ => False) (dequeueSection a l reach) := by
  have hlock : only .fifoLock .fifoLock := .inr rfl
  refine disciplined_only (body_look hlock (fun d d' h => ?_) fun d => ?_)
  · simp only [kfifoIsEmpty_congr h]
  · split
    · exact body_unlock (only_iff _) _
    · refine body_look hlock (fun d d' h => ?_) fun d => ?_
      · have hlen : readToCopy a d l = readToCopy a d' l := by simp only [readToCopy, h]
        simp only [hlen]
      · refine body_move (f := fun q => q.drop _) hlock (fun d => rfl) (fun d d' h => ?_)
          fun d => body_unlock (only_iff _) _
        simp only [readDequeue, h]

theorem enqueueSection_disciplined (a : WriteArgs) (reach : Nat) :
    guards.Disciplined (fun _ => False) (enqueueSection a reach) := by
  have hlock : only .fifoLock .fifoLock := .inr rfl
  refine disciplined_only (body_look hlock (fun d d' h => ?_) fun d => ?_)
  · simp only [kfifoIsFull_congr h]
  · split
    · exact body_unlock (only_iff _) _
    · refine body_look hlock (fun d d' h => ?_) fun d => ?_
      · have hlen : writeToCopy a d = writeToCopy a d' := by
          simp only [writeToCopy, kfifoAvail, h]
        simp only [hlen]
      · exact body_move (f := fun q => q ++ _) hlock (fun d => rfl) (fun _ _ _ => rfl)
          fun d => body_unlock (only_iff _) _

theorem pollSection_disciplined (events : PollMask) (timedOut : Bool) :
    guards.Disciplined (fun _ => False) (pollSection events timedOut) := by
  have hlock : only .fifoLock .fifoLock := .inr rfl
  refine disciplined_only (body_look hlock (fun d d' h => ?_) fun d => ?_)
  · simp only [kfifoIsEmpty_congr h]
  · refine body_look hlock (fun d d' h => ?_) fun d => body_unlock (only_iff _) _
    simp only [kfifoIsFull_congr h]

theorem resetSection_disciplined : guards.Disciplined (fun _ => False) resetSection := by
  refine ⟨fun _ => False.elim, ?_, Guards.Body.disciplined ?_⟩
  · rintro m (h | rfl)
    · exact h.elim
    · exact Nat.zero_lt_one
  · refine body_storeWords (.inl (.inr rfl)) ?_ _
    refine body_move (f := fun _ => []) (.inr rfl) (fun _ => rfl) (fun _ _ _ => rfl) fun _ => ?_
    refine And.intro (.inr rfl) (body_unlock (fun m => ?_) _)
    cases m <;> simp

theorem Begins.disciplined {ch : Choice} {order : WordOrder} {c : Call} {p : Section}
    (h : Begins ch order c p) : guards.Disciplined (fun _ => False) p := by
  have hunlock := fun c => body_unlock (only_iff .faultLock) c
  cases h with
  | sample => exact sampleSection_disciplined _ _
  | dequeue => exact dequeueSection_disciplined _ _ _
  | enqueue => exact enqueueSection_disciplined _ _
  | poll => exact pollSection_disciplined _ _
  | set => exact disciplined_only (body_storeWords (.inr rfl) (hunlock _) _)
  | get => exact disciplined_only (body_loadWords (.inr rfl) (fun _ => hunlock _) _ _)
  | clear => exact disciplined_only (body_storeWords (.inr rfl) (hunlock _) _)
  | reset => exact resetSection_disciplined

/-! ## A section with nobody else is a step of the machine -/

/-- The words that are not stored any more are there already. -/
theorem solo_storing {config : FaultConfig} {k : Section} {ws : List Word} {d : Device}
    (h : ∀ w, w ∉ ws → d.fault.word w = config.word w) :
    (storeWords config k ws).solo d = k.solo { d with fault := config } := by
  induction ws generalizing d with
  | nil =>
    have hfault : d.fault = config := FaultConfig.ext_word fun w => h w List.not_mem_nil
    rw [← hfault]
    rfl
  | cons w ws ih =>
    refine ih fun x hx => ?_
    show (d.fault.setWord (config.word w) w).word x = config.word x
    rw [FaultConfig.word_setWord]
    split
    · next hxw => rw [hxw]
    · next hxw => exact h x (by simp [hxw, hx])

theorem solo_storeWords (config : FaultConfig) (k : Section) (order : WordOrder) (d : Device) :
    (storeWords config k order.words).solo d = k.solo { d with fault := config } :=
  solo_storing fun w hw => absurd (order.all w) hw

theorem solo_clearWords (k : Section) (d : Device) :
    (clearWords k).solo d = k.solo { d with fault := clearFaultLocked } :=
  solo_storing fun w hw => absurd (by cases w <;> simp) hw

theorem solo_loading {config : FaultConfig} {k : FaultConfig → Section} {ws : List Word}
    {d : Device} (h : ∀ w, w ∉ ws → config.word w = d.fault.word w) :
    (loadWords config k ws).solo d = (k d.fault).solo d := by
  induction ws generalizing config with
  | nil =>
    have hconfig : config = d.fault := FaultConfig.ext_word fun w => h w List.not_mem_nil
    rw [hconfig]
    rfl
  | cons w ws ih =>
    refine ih fun x hx => ?_
    rw [FaultConfig.word_setWord]
    split
    · next hxw => rw [hxw]
    · next hxw => exact h x (by simp [hxw, hx])

theorem solo_loadWords (config : FaultConfig) (k : FaultConfig → Section) (order : WordOrder)
    (d : Device) : (loadWords config k order.words).solo d = (k d.fault).solo d :=
  solo_loading fun w hw => absurd (order.all w) hw

theorem solo_load (w : Word) (k : UInt32 → Section) (d : Device) :
    (load w k).solo d = (k (d.fault.word w)).solo d := rfl

theorem solo_store (w : Word) (v : UInt32) (k : Section) (d : Device) :
    (store w v k).solo d = k.solo { d with fault := d.fault.setWord v w } := rfl

/-- Where the locked part of `vdevlab_apply_read_fault` leaves the read. -/
theorem sampleSection_solo (a : ReadArgs) (l : ReadLocals) (d : Device) :
    (sampleSection a l).solo d =
      (d.sampled l, .read a (afterSample (applyReadFault d.fault l).delayMs
        (applyReadFault d.fault l).ret (applyReadFault d.fault l).locals)) := by
  rw [sampleSection, Critical.solo, solo_load, FaultConfig.word, Device.sampled, applyReadFault]
  by_cases hnone : d.fault.type = faultNone
  · simp only [if_pos hnone]
    rfl
  simp only [if_neg hnone]
  by_cases heio : d.fault.type = faultEio
  · simp only [if_pos heio, solo_load]
    show Critical.solo (if d.fault.repeats = 0 then _ else _) d = _
    by_cases hzero : d.fault.repeats = 0
    · simp only [if_pos hzero, solo_clearWords]
      rfl
    · simp only [if_neg hzero, solo_store, solo_load, takeOccurrence]
      show Critical.solo (if d.fault.repeats - 1 = 0 then _ else _) _ = _
      by_cases hlast : d.fault.repeats - 1 = 0
      · simp only [if_pos hlast, solo_clearWords]
        rfl
      · simp only [if_neg hlast]
        rfl
  simp only [if_neg heio]
  by_cases hdelay : d.fault.type = faultDelay
  · simp only [if_pos hdelay]
    split <;> rfl
  simp only [if_neg hdelay]
  by_cases hpartial : d.fault.type = faultPartialRead
  · simp only [if_pos hpartial]
    rfl
  simp only [if_neg hpartial]
  split <;> rfl

/-- A section that nobody disturbs is one step of the machine. -/
theorem Begins.solo {ch : Choice} {order : WordOrder} {c : Call} {p : Section}
    (h : Begins ch order c p) (d : Device) (woken : Bool) :
    c.step d ch woken = some ⟨(p.solo d).1, none, woken, (p.solo d).2⟩ := by
  cases h with
  | @sample a l =>
    rw [sampleSection_solo]
    simp only [Call.step, Ctl.step, readStep, goto, afterSample, Device.sampled]
    split_ifs <;> rfl
  | @dequeue a l hs =>
    simp only [Call.step, Ctl.step, readStep, goto, dequeueSection, Critical.solo, id, hs,
      Bool.false_eq_true, if_false]
    by_cases he : kfifoIsEmpty d = true
    · simp only [if_pos he]
      split <;> rfl
    · simp only [if_neg he]
      simp only [Critical.solo, id]
      split <;> rfl
  | @enqueue a hs =>
    simp only [Call.step, Ctl.step, writeStep, goto, enqueueSection, Critical.solo, id, hs,
      Bool.false_eq_true, if_false]
    by_cases hf : kfifoIsFull d = true
    · simp only [if_pos hf]
      split <;> rfl
    · simp only [if_neg hf]
      simp only [Critical.solo, id]
      split <;> rfl
  | poll => rfl
  | @set cmd config =>
    rw [setSection, Critical.solo, solo_storeWords]
    rfl
  | get =>
    rw [getSection, Critical.solo, solo_loadWords]
    rfl
  | clear =>
    rw [clearSection, Critical.solo, solo_clearWords]
    rfl
  | reset =>
    rw [resetSection, Critical.solo, Critical.solo, solo_clearWords]
    rfl

/-! ## Steps outside the sections -/

section Outside

variable {d : Device} {ch : Choice} {woken : Bool} {c : Call} {e : Effect Call} {order : WordOrder}

/-- Only sections change the device. -/
theorem CallMove.dev_outside (h : CallMove d ch woken c e) (hout : sectionOf ch order c = none) :
    e.dev = d := by
  cases h.device with
  | same he => exact he
  | sample => cases hout
  | dequeue hs => simp [sectionOf, readSection, hs] at hout
  | enqueue hs => simp [sectionOf, writeSection, hs] at hout
  | control hpc =>
    rcases hpc with ⟨rfl, -⟩ | ⟨rfl, rfl, -⟩ | ⟨rfl, rfl, -⟩
    · simp [sectionOf, ioctlSection] at hout
    · simp [sectionOf, ioctlSection] at hout
    · simp [sectionOf, ioctlSection] at hout

/-- What a call keeps does not depend on the record it does not read. -/
theorem CallMove.wf_outside (h : CallMove d ch woken c e) (hout : sectionOf ch order c = none)
    (hc : c.Wf) : e.ctl.Wf := by
  cases h with
  | read hm => exact hm.wf hc
  | write hm => exact hm.wf hc
  | poll => trivial
  | ioctl hm =>
    refine hm.wf ?_ hc
    rintro rfl rfl
    simp [sectionOf, ioctlSection] at hout
  | readReturn => exact hc
  | writeReturn => exact hc
  | pollReturn => trivial
  | ioctlReturn => exact hc

end Outside

end VDevLab.Kernel
