import RespOS.Base
import RespOS.Basis.Runs

/-!
# The console line discipline (`fs/tty.rs`)

One physical console feeds a shared line discipline. `pump_console_input` takes bytes from the
firmware and, under the termios it read when it started, edits a line, completes it as a record, or
passes the byte on at once. `read_console` waits for a record in canonical mode and for `VMIN` bytes
or `VTIME` in non-canonical mode, and takes its bytes with `drain_ready`. Termios may be changed
between any two of these steps.

Bytes of completed lines and bytes passed on raw stand in one queue, `ready`; `records` has the number
of unread bytes of each completed line. `Tiled` says how the two belong together: the queue is the
unread rests of the completed lines, in order, followed by raw bytes. `records_fit_ready` derives from
it that the records never ask for more bytes than there are, that `drain_ready` never unwraps an empty
queue, and that a canonical read stays within one line, in every run in which raw reads leave recorded
bytes alone and lines are completed only behind recorded bytes. Neither is checked by the code, and
`records_outlive_bytes` shows both parts failing without them.

The console's output is kept as the bytes echoed, signals as the ones sent to the foreground group.
-/

namespace RespOS.Fs

open RespOS.Basis Option

/-! ### Termios -/

def IGNCR : UInt32 := 0x80
def INLCR : UInt32 := 0x40
def ICRNL : UInt32 := 0x100
def ISTRIP : UInt32 := 0x20
def OPOST : UInt32 := 0x1
def ONLCR : UInt32 := 0x4
def ISIG : UInt32 := 0x1
def ICANON : UInt32 := 0x2
def ECHO : UInt32 := 0x8
def ECHOE : UInt32 := 0x10
def ECHOK : UInt32 := 0x20
def ECHONL : UInt32 := 0x40
def NOFLSH : UInt32 := 0x80
def ECHOCTL : UInt32 := 0x200
def IEXTEN : UInt32 := 0x8000

def VINTR : Fin 19 := 0
def VQUIT : Fin 19 := 1
def VERASE : Fin 19 := 2
def VKILL : Fin 19 := 3
def VEOF : Fin 19 := 4
def VTIME : Fin 19 := 5
def VMIN : Fin 19 := 6
def VSUSP : Fin 19 := 10
def VEOL : Fin 19 := 11
def VEOL2 : Fin 19 := 16

def defaultControlChars : Vector UInt8 19 :=
  #v[3, 28, 127, 21, 4, 0, 1, 0, 17, 19, 26, 0, 18, 15, 23, 22, 0, 0, 0]

/-- `KernelTermios`; `cflag` and `line` are stored for the user and read by nothing. -/
structure KernelTermios where
  iflag : UInt32
  oflag : UInt32
  cflag : UInt32
  lflag : UInt32
  line : UInt8
  cc : Vector UInt8 19

namespace KernelTermios

def consoleDefault : KernelTermios where
  iflag := 0x100
  oflag := 0x1 ||| 0x4
  cflag := 0xf ||| 0x30 ||| 0x80
  lflag := 0x1 ||| 0x2 ||| 0x8 ||| 0x10 ||| 0x20 ||| 0x200 ||| 0x8000
  line := 0
  cc := defaultControlChars

variable (t : KernelTermios)

def inputFlag (mask : UInt32) : Bool := t.iflag &&& mask != 0

def outputFlag (mask : UInt32) : Bool := t.oflag &&& mask != 0

def localFlag (mask : UInt32) : Bool := t.lflag &&& mask != 0

/-- `control_char`: a control character set to zero is disabled. -/
def controlChar (index : Fin 19) (byte : UInt8) : Bool :=
  t.cc.get index != 0 && t.cc.get index == byte

def echoControl (byte : UInt8) : List UInt8 :=
  if t.localFlag ECHO = false then []
  else if t.localFlag ECHOCTL ∧ (byte < 0x20 ∨ byte = 0x7f) then
    [0x5e, if byte = 0x7f then 0x3f else byte ^^^ 0x40]
  else []

def echoByte (byte : UInt8) : List UInt8 :=
  if t.localFlag ECHO ∨ (byte = 0x0a ∧ t.localFlag ECHONL) then
    if byte = 0x0a ∧ t.outputFlag OPOST ∧ t.outputFlag ONLCR then [0x0d, 0x0a] else [byte]
  else []

end KernelTermios

inductive TtySignal
  | SIGINT | SIGQUIT | SIGTSTP
  deriving DecidableEq, Repr

def terminalSignal (t : KernelTermios) (byte : UInt8) : Option TtySignal :=
  if t.localFlag ISIG = false then none
  else if t.controlChar VINTR byte then some .SIGINT
  else if t.controlChar VQUIT byte then some .SIGQUIT
  else if t.controlChar VSUSP byte then some .SIGTSTP
  else none

/-! ### The input queue -/

structure ConsoleInputState where
  edit : List UInt8
  ready : List UInt8
  records : List Nat
  deriving DecidableEq

namespace ConsoleInputState

def empty : ConsoleInputState := ⟨[], [], []⟩

def flush (_ : ConsoleInputState) : ConsoleInputState := empty

def commitRecord (input : ConsoleInputState) : ConsoleInputState where
  edit := []
  ready := input.ready ++ input.edit
  records := input.records ++ [input.edit.length]

end ConsoleInputState

/-- The input conversion at the head of the loop of `pump_console_input`: a stripped, translated
byte, or none for an ignored carriage return. -/
def convertInput (t : KernelTermios) (raw : Nat) : Option UInt8 :=
  let byte := if t.inputFlag ISTRIP then raw.toUInt8 &&& 0x7f else raw.toUInt8
  if byte = 0x0d then
    if t.inputFlag IGNCR then none
    else if t.inputFlag ICRNL then some 0x0a
    else some byte
  else if byte = 0x0a ∧ t.inputFlag INLCR then some 0x0d
  else some byte

def isDelimiter (t : KernelTermios) (byte : UInt8) : Bool :=
  byte == 0x0a || t.controlChar VEOL byte || (t.localFlag IEXTEN && t.controlChar VEOL2 byte)

/-- What one byte does to the queue: the queue after it, and the line it completes, if any. -/
structure Received where
  input : ConsoleInputState
  completed : Option (List UInt8)
  echo : List UInt8
  signal : Option TtySignal

/-- The canonical part of the loop body of `pump_console_input`. -/
def receiveCanonical (t : KernelTermios) (byte : UInt8) (input : ConsoleInputState) : Received :=
  if t.controlChar VERASE byte then
    { input := { input with edit := input.edit.dropLast }
      completed := none
      echo :=
        if input.edit = [] ∨ t.localFlag ECHO = false then []
        else if t.localFlag ECHOE then [0x08, 0x20, 0x08]
        else t.echoControl byte
      signal := none }
  else if t.controlChar VKILL byte then
    { input := { input with edit := [] }
      completed := none
      echo :=
        if t.localFlag ECHO = false then []
        else if t.localFlag ECHOK then t.echoByte 0x0a
        else t.echoControl byte
      signal := none }
  else if t.controlChar VEOF byte then
    { input := input.commitRecord, completed := some input.edit, echo := [], signal := none }
  else
    let edited : ConsoleInputState := { input with edit := input.edit ++ [byte] }
    if isDelimiter t byte then
      { input := edited.commitRecord
        completed := some edited.edit
        echo := t.echoByte byte
        signal := none }
    else
      { input := edited, completed := none, echo := t.echoByte byte, signal := none }

/-- The loop body of `pump_console_input` after the input conversion. -/
def receive (t : KernelTermios) (byte : UInt8) (input : ConsoleInputState) : Received :=
  match terminalSignal t byte with
  | some sig =>
    { input := if t.localFlag NOFLSH then input else input.flush
      completed := none
      echo := t.echoControl byte
      signal := some sig }
  | none =>
    if t.localFlag ICANON = false then
      { input := { input with ready := input.ready ++ [byte] }
        completed := none
        echo := t.echoByte byte
        signal := none }
    else receiveCanonical t byte input

/-- The loop `for slot in &mut buf[..limit]` of `drain_ready`: none where `pop_front().unwrap()`
panics. -/
def popReady : Nat → List UInt8 → Option (List UInt8 × List UInt8)
  | 0, ready => some ([], ready)
  | _ + 1, [] => none
  | limit + 1, byte :: ready => (popReady limit ready).map fun (bytes, rest) ↦ (byte :: bytes, rest)

/-- `drain_ready`: the bytes copied to the caller's buffer. -/
def drainReady (input : ConsoleInputState) (len : Nat) (canonical : Bool) :
    Outcome ConsoleInputState (List UInt8) :=
  if canonical then
    match input.records with
    | [] => .ok [] input
    | 0 :: records => .ok [] { input with records := records }
    | (n + 1) :: records =>
      let limit := min (n + 1) len
      match popReady limit input.ready with
      | none => .panic
      | some (bytes, rest) =>
        let remaining := n + 1 - limit
        .ok bytes { input with
          ready := rest
          records := if remaining = 0 then records else remaining :: records }
  else
    match popReady (min input.ready.length len) input.ready with
    | none => .panic
    | some (bytes, rest) => .ok bytes { input with ready := rest }

/-- The locals of `read_console` after it read the termios. -/
structure ConsoleRead where
  len : Nat
  canonical : Bool
  minimum : Nat
  timeoutUs : Nat
  deadline : Option Nat
  lastAvailable : Nat

/-- The entry of `read_console`, for a non-empty buffer and past the background check. -/
def ConsoleRead.enter (t : KernelTermios) (len now : Nat) : ConsoleRead :=
  let minimum := min (t.cc.get VMIN).toNat len
  let timeoutUs := (t.cc.get VTIME).toNat * 100000
  { len := len
    canonical := t.localFlag ICANON
    minimum := minimum
    timeoutUs := timeoutUs
    deadline := if minimum = 0 ∧ timeoutUs ≠ 0 then some (saturatingAdd now timeoutUs) else none
    lastAvailable := 0 }

/-- The deadline of a non-canonical read after a round that saw `available` bytes. -/
def ConsoleRead.rearm (r : ConsoleRead) (available now : Nat) : Option Nat :=
  if r.minimum ≠ 0 ∧ r.timeoutUs ≠ 0 ∧ available ≠ 0 ∧ available ≠ r.lastAvailable then
    some (saturatingAdd now r.timeoutUs)
  else r.deadline

/-- One round of the loops of `read_console` takes the bytes that are there. -/
def ConsoleRead.Takes (r : ConsoleRead) (input : ConsoleInputState) (now : Nat) : Bool :=
  if r.canonical then !input.records.isEmpty
  else
    let available := input.ready.length
    (r.minimum == 0 && r.timeoutUs == 0) || (r.minimum == 0 && available != 0) ||
      (r.minimum != 0 && decide (r.minimum ≤ available)) ||
      (r.rearm available now).any fun deadline ↦ deadline ≤ now

/-- The read after a round that took nothing. -/
def ConsoleRead.again (r : ConsoleRead) (input : ConsoleInputState) (now : Nat) : ConsoleRead :=
  if r.canonical then r
  else { r with
    deadline := r.rearm input.ready.length now
    lastAvailable := input.ready.length }

/-! ### The console as a transition system -/

/-- The requests of `console_ioctl` that set the termios. -/
inductive TcSet
  | TCSETS | TCSETSW | TCSETSF
  deriving DecidableEq

/-- The console with the reads in progress. `lines` and `returned` are a record of what has happened:
the lines completed in canonical mode and the results of canonical reads. -/
structure Console where
  termios : KernelTermios
  input : ConsoleInputState
  /-- The termios `pump_console_input` works with, while it holds `CONSOLE_PUMP`. -/
  pump : Option KernelTermios
  reads : Nat → Option ConsoleRead
  screen : List UInt8
  signals : List TtySignal
  panicked : Bool
  lines : List (List UInt8)
  returned : List (List UInt8)

/-- What can happen at the console. Times, interruptions by a signal and the result of the background
checks come from outside. -/
inductive ConsoleEvent
  | pumpBegin
  | getchar (raw : Nat)
  | tcset (request : TcSet) (background : Option Errno) (arg : Option KernelTermios)
  | readBegin (reader len now : Nat) (background : Option Errno)
  | readRound (reader now : Nat) (interrupted : Bool)
  | readReady
  | availableBytes

namespace Console

def boot : Console where
  termios := .consoleDefault
  input := .empty
  pump := none
  reads := fun _ ↦ none
  screen := []
  signals := []
  panicked := false
  lines := []
  returned := []

def absorb (s : Console) (r : Received) : Console :=
  { s with
    input := r.input
    screen := s.screen ++ r.echo
    signals := s.signals ++ r.signal.toList
    lines := s.lines ++ r.completed.toList }

/-- One turn of the loop of `pump_console_input`; zero and values above a byte end it. -/
def getchar (s : Console) (t : KernelTermios) (raw : Nat) : Console :=
  if raw = 0 ∨ 255 < raw then { s with pump := none }
  else
    match convertInput t raw with
    | none => s
    | some byte => s.absorb (receive t byte s.input)

/-- The `TCSETS` arm of `console_ioctl`. -/
def tcset (s : Console) (request : TcSet) (background : Option Errno)
    (arg : Option KernelTermios) : Console :=
  match background, arg with
  | none, some termios =>
    { s with
      termios := termios
      input := if request = .TCSETSF then s.input.flush else s.input }
  | _, _ => s

/-- `read_console` up to its loop: it returns at once on a background error or an empty buffer. -/
def readBegin (s : Console) (reader len now : Nat) (background : Option Errno) : Console :=
  if background.isSome ∨ len = 0 then s
  else { s with reads := Function.update s.reads reader (some (.enter s.termios len now)) }

/-- The console after `drain_ready` has returned to `reader`. -/
def finishRead (s : Console) (reader : Nat) (canonical : Bool) :
    Outcome ConsoleInputState (List UInt8) → Console
  | .ok bytes input =>
    { s with
      input := input
      reads := Function.update s.reads reader none
      returned := if canonical then s.returned ++ [bytes] else s.returned }
  | .err _ _ => s
  | .panic => { s with panicked := true }

/-- One round of a read in progress, after its pump. -/
def readRound (s : Console) (reader now : Nat) (interrupted : Bool) (r : ConsoleRead) : Console :=
  if interrupted then { s with reads := Function.update s.reads reader none }
  else if r.Takes s.input now then
    s.finishRead reader r.canonical (drainReady s.input r.len r.canonical)
  else { s with reads := Function.update s.reads reader (some (r.again s.input now)) }

/-- The console after an event; none where the event cannot happen. -/
def next (s : Console) (e : ConsoleEvent) : Option Console :=
  if s.panicked then none
  else
    match e with
    | .pumpBegin => if s.pump.isNone then some { s with pump := some s.termios } else none
    | .getchar raw => s.pump.map fun t ↦ s.getchar t raw
    | .tcset request background arg => some (s.tcset request background arg)
    | .readBegin reader len now background =>
      if (s.reads reader).isNone then some (s.readBegin reader len now background) else none
    | .readRound reader now interrupted =>
      (s.reads reader).map fun r ↦ s.readRound reader now interrupted r
    | .readReady | .availableBytes => some s

def Step (s : Console) (e : ConsoleEvent) (s' : Console) : Prop := s.next e = some s'

end Console

/-! ### What a byte and a read do to the queue -/

/-- The byte completes a line with at least one byte in it, under the termios of the pump. -/
def completesLine (t : KernelTermios) (byte : UInt8) (edit : List UInt8) : Bool :=
  (terminalSignal t byte).isNone && t.localFlag ICANON && !t.controlChar VERASE byte &&
    !t.controlChar VKILL byte &&
    if t.controlChar VEOF byte then !edit.isEmpty else isDelimiter t byte

/-- Everything a byte can do to the queue. -/
inductive Receives (t : KernelTermios) (byte : UInt8) (input : ConsoleInputState) : Received → Prop
  | flushed {r : Received} (hinput : r.input = .empty) (hnone : r.completed = none) :
    Receives t byte input r
  | passed {r : Received} (raw : List UInt8) (hready : r.input.ready = input.ready ++ raw)
    (hrecords : r.input.records = input.records) (hnone : r.completed = none) :
    Receives t byte input r
  | completed {r : Received} (line : List UInt8) (hready : r.input.ready = input.ready ++ line)
    (hrecords : r.input.records = input.records ++ [line.length]) (hline : r.completed = some line)
    (hcompletes : line ≠ [] → completesLine t byte input.edit = true) : Receives t byte input r

variable {t : KernelTermios} {s : Console}

theorem receiveCanonical_spec {byte : UInt8} {input : ConsoleInputState}
    (hsignal : terminalSignal t byte = none) (hcanon : t.localFlag ICANON = true) :
    Receives t byte input (receiveCanonical t byte input) := by
  fun_cases receiveCanonical t byte input with
  | case3 herase hkill heof =>
    refine .completed input.edit rfl rfl rfl fun hne ↦ ?_
    simp [completesLine, hsignal, hcanon, herase, hkill, heof, hne]
  | case4 herase hkill heof _ hdelimiter =>
    refine .completed (input.edit ++ [byte]) rfl rfl rfl fun _ ↦ ?_
    simp [completesLine, hsignal, hcanon, herase, hkill, heof, hdelimiter]
  | case5 _ _ _ edited => exact .passed [] (by simp [edited]) rfl rfl
  | _ => exact .passed [] (by simp) rfl rfl

theorem receive_spec (t : KernelTermios) (byte : UInt8) (input : ConsoleInputState) :
    Receives t byte input (receive t byte input) := by
  unfold receive
  match hsignal : terminalSignal t byte with
  | some sig =>
    by_cases hnoflsh : t.localFlag NOFLSH = true
    · exact .passed [] (by simp [hnoflsh]) (by simp [hnoflsh]) rfl
    · exact .flushed (by simp [hnoflsh, ConsoleInputState.flush]) rfl
  | none =>
    dsimp only
    split_ifs with hcanon
    · exact .passed [byte] rfl rfl rfl
    · exact receiveCanonical_spec hsignal (by simpa using hcanon)

theorem popReady_append (taken ready : List UInt8) :
    popReady taken.length (taken ++ ready) = some (taken, ready) := by
  induction taken with
  | nil => rfl
  | cons byte taken ih => simp [popReady, ih]

theorem drainReady_eq {input : ConsoleInputState} {rest queue : List UInt8} {records : List Nat}
    (hready : input.ready = rest ++ queue) (hrecords : input.records = rest.length :: records) (len : Nat) :
    drainReady input len true = .ok (rest.take len) { input with
      ready := rest.drop len ++ queue
      records := if rest.length ≤ len then records else (rest.length - len) :: records } := by
  have hpop := popReady_append (rest.take len) (rest.drop len ++ queue)
  rw [List.length_take, ← List.append_assoc, List.take_append_drop, ← hready, Nat.min_comm] at hpop
  cases rest with
  | nil => simp [drainReady, hrecords, hready]
  | cons byte rest =>
    have hleft : rest.length + 1 - min (rest.length + 1) len = rest.length + 1 - len := by omega
    rw [List.length_cons] at hpop
    simp [drainReady, hrecords, hpop, hleft, Nat.sub_eq_zero_iff_le]

/-! ### Records and the bytes they count -/

/-- The queue is what is unread of completed lines, one record each, followed by raw bytes. -/
def Tiled (lines : List (List UInt8)) (input : ConsoleInputState) : Prop :=
  ∃ (rests : List (List UInt8)) (raw : List UInt8),
    input.ready = rests.flatten ++ raw ∧ input.records = rests.map List.length ∧
      ∀ rest ∈ rests, ∃ line ∈ lines, rest <:+ line

namespace Tiled

variable {lines : List (List UInt8)} {input : ConsoleInputState}

theorem of_empty : Tiled lines .empty := ⟨[], [], rfl, rfl, by simp⟩

variable (h : Tiled lines input)
include h

theorem sum_le : input.records.sum ≤ input.ready.length := by
  rcases h with ⟨rests, raw, hready, hrecords, -⟩
  rw [hready, hrecords, List.length_append, List.length_flatten]
  exact Nat.le_add_right _ _

theorem mono {lines' : List (List UInt8)}
    (hsub : ∀ line ∈ lines, line ∈ lines') : Tiled lines' input := by
  rcases h with ⟨rests, raw, hready, hrecords, hlines⟩
  refine ⟨rests, raw, hready, hrecords, ?_⟩
  intro rest hrest
  rcases hlines rest hrest with ⟨line, hline, hsuffix⟩
  exact ⟨line, hsub line hline, hsuffix⟩

theorem pass {input' : ConsoleInputState} {bytes : List UInt8}
    (hready : input'.ready = input.ready ++ bytes) (hrecords : input'.records = input.records) :
    Tiled lines input' := by
  rcases h with ⟨rests, raw, hready₀, hrecords₀, hlines⟩
  refine ⟨rests, raw ++ bytes, ?_, by rw [hrecords, hrecords₀], hlines⟩
  rw [hready, hready₀, List.append_assoc]

theorem complete {input' : ConsoleInputState} {line : List UInt8}
    (hready : input'.ready = input.ready ++ line)
    (hrecords : input'.records = input.records ++ [line.length])
    (hcount : line ≠ [] → input.ready.length = input.records.sum) :
    Tiled (lines ++ [line]) input' := by
  rcases h with ⟨rests, raw, hready₀, hrecords₀, hlines⟩
  have hrests : ∀ rest ∈ rests ++ [line], ∃ l ∈ lines ++ [line], rest <:+ l := by
    intro rest hrest
    rcases List.mem_append.mp hrest with hold | hnew
    · rcases hlines rest hold with ⟨l, hl, hsuffix⟩
      exact ⟨l, List.mem_append_left _ hl, hsuffix⟩
    · rw [List.mem_singleton.mp hnew]
      exact ⟨line, by simp, List.suffix_rfl⟩
  refine ⟨rests ++ [line], raw, ?_, by simp [hrecords, hrecords₀], hrests⟩
  by_cases hempty : line = []
  · simp [hready, hready₀, hempty]
  · have hlength := hcount hempty
    rw [hready₀, hrecords₀, List.length_append, List.length_flatten] at hlength
    have hraw : raw = [] := List.eq_nil_of_length_eq_zero (by omega)
    simp [hready, hready₀, hraw]

theorem drain (len : Nat) (hrecords : input.records ≠ []) :
    ∃ bytes input', drainReady input len true = .ok bytes input' ∧ Tiled lines input' ∧
      ∃ line ∈ lines, bytes <:+: line := by
  rcases h with ⟨rests, raw, hready, hrecords₀, hlines⟩
  match rests with
  | [] => exact absurd hrecords₀ hrecords
  | rest :: rests =>
    obtain ⟨⟨line, hline, hsuffix⟩, hothers⟩ := List.forall_mem_cons.mp hlines
    rw [List.flatten_cons, List.append_assoc] at hready
    refine ⟨_, _, drainReady_eq hready hrecords₀ len, ?_, line, hline,
      (List.take_prefix len rest).isInfix.trans hsuffix.isInfix⟩
    by_cases hfits : rest.length ≤ len
    · exact ⟨rests, raw, by simp [hfits], by simp [hfits], hothers⟩
    · refine ⟨rest.drop len :: rests, raw, by simp, by simp [hfits], ?_⟩
      exact List.forall_mem_cons.mpr ⟨⟨line, hline, (List.drop_suffix _ _).trans hsuffix⟩, hothers⟩

theorem drain_raw (len : Nat) (hcount : input.records.sum = 0) :
    ∃ bytes input', drainReady input len false = .ok bytes input' ∧ Tiled lines input' := by
  rcases h with ⟨rests, raw, hready, hrecords, hlines⟩
  have hflat : rests.flatten = [] := by
    rw [hrecords, ← List.length_flatten] at hcount
    exact List.eq_nil_of_length_eq_zero hcount
  obtain ⟨k, hk⟩ : ∃ k, min input.ready.length len = k := ⟨_, rfl⟩
  have hpop := popReady_append (input.ready.take k) (input.ready.drop k)
  rw [List.take_append_drop, List.length_take_of_le (by omega)] at hpop
  refine ⟨input.ready.take k, { input with ready := input.ready.drop k }, ?_, ?_⟩
  · simp [drainReady, hk, hpop]
  · refine ⟨rests, raw.drop k, ?_, hrecords, hlines⟩
    simp [hready, hflat]

end Tiled

/-! ### Runs of the console -/

/-- The condition the line discipline relies on and never checks: a line with bytes in it is completed
only when every byte in the queue belongs to a record, and a non-canonical read takes bytes only when
no recorded byte is in the queue. -/
def ConsoleEvent.Orderly (s : Console) : ConsoleEvent → Prop
  | .getchar raw => ∀ t ∈ s.pump, ∀ byte ∈ convertInput t raw, completesLine t byte s.input.edit →
      s.input.ready.length = s.input.records.sum
  | .readRound reader now interrupted => ∀ r ∈ s.reads reader,
      r.canonical = false → interrupted = false → r.Takes s.input now → s.input.records.sum = 0
  | _ => True

instance (s : Console) (e : ConsoleEvent) : Decidable (e.Orderly s) := by
  cases e <;> unfold ConsoleEvent.Orderly <;> infer_instance

namespace Console

structure Sound (s : Console) : Prop where
  running : s.panicked = false
  tiled : Tiled s.lines s.input
  returned : ∀ bytes ∈ s.returned, ∃ line ∈ s.lines, bytes <:+: line

theorem sound_boot : boot.Sound := ⟨rfl, .of_empty, by simp [boot]⟩

section

variable (h : s.Sound)
include h

theorem Sound.absorb {byte : UInt8}
    (hcount : completesLine t byte s.input.edit → s.input.ready.length = s.input.records.sum) :
    (s.absorb (receive t byte s.input)).Sound := by
  have hmono : ∀ line ∈ s.lines, line ∈ (s.absorb (receive t byte s.input)).lines :=
    fun line hline ↦ List.mem_append_left _ hline
  refine ⟨h.running, ?_, ?_⟩
  · rcases receive_spec t byte s.input with ⟨hinput, -⟩ | ⟨raw, hready, hrecords, -⟩ |
      ⟨line, hready, hrecords, hline, hcompletes⟩
    · simp only [Console.absorb, hinput]
      exact .of_empty
    · exact (h.tiled.pass hready hrecords).mono hmono
    · have htiled := h.tiled.complete hready hrecords fun hne ↦ hcount (hcompletes hne)
      simpa [Console.absorb, hline] using htiled
  · intro bytes hbytes
    rcases h.returned bytes hbytes with ⟨line, hline, hinfix⟩
    exact ⟨line, hmono line hline, hinfix⟩

theorem Sound.getchar {raw : Nat}
    (hcount : ∀ byte ∈ convertInput t raw, completesLine t byte s.input.edit →
      s.input.ready.length = s.input.records.sum) : (s.getchar t raw).Sound := by
  unfold Console.getchar
  split
  · exact { h with }
  · match hbyte : convertInput t raw with
    | none => exact h
    | some byte => exact h.absorb (hcount byte hbyte)

theorem Sound.tcset (request : TcSet) (background : Option Errno) (arg : Option KernelTermios) :
    (s.tcset request background arg).Sound := by
  unfold Console.tcset
  split
  · refine { h with tiled := ?_ }
    split_ifs
    · exact .of_empty
    · exact h.tiled
  · exact h

theorem Sound.readBegin (reader len now : Nat) (background : Option Errno) :
    (s.readBegin reader len now background).Sound := by
  unfold Console.readBegin
  split
  · exact h
  · exact { h with }

theorem Sound.readRound {reader now : Nat} {interrupted : Bool} {r : ConsoleRead}
    (hcount : r.canonical = false → interrupted = false →
      r.Takes s.input now → s.input.records.sum = 0) : (s.readRound reader now interrupted r).Sound := by
  unfold Console.readRound
  by_cases hinterrupted : interrupted = true
  · rw [if_pos hinterrupted]
    exact { h with }
  split_ifs with htakes
  · match hcanonical : r.canonical with
    | true =>
      have hrecords : s.input.records ≠ [] := by
        simpa [ConsoleRead.Takes, hcanonical] using htakes
      rcases h.tiled.drain r.len hrecords with ⟨bytes, input', hdrain, htiled, hline⟩
      rw [hdrain]
      refine ⟨h.running, htiled, ?_⟩
      intro b hb
      rcases List.mem_append.mp hb with hold | hnew
      · exact h.returned b hold
      · rw [List.mem_singleton.mp hnew]
        exact hline
    | false =>
      have hsum := hcount hcanonical (by simpa using hinterrupted) htakes
      rcases h.tiled.drain_raw r.len hsum with ⟨bytes, input', hdrain, htiled⟩
      rw [hdrain]
      exact ⟨h.running, htiled, h.returned⟩
  · exact { h with }

theorem Sound.step {s' : Console} {e : ConsoleEvent} (hok : e.Orderly s)
    (hstep : s.Step e s') : s'.Sound := by
  unfold Step next at hstep
  rw [if_neg (by simp [h.running])] at hstep
  cases e with
  | pumpBegin =>
    obtain ⟨-, rfl⟩ := of_guard hstep
    exact { h with }
  | getchar raw =>
    rcases map_eq_some_iff.mp hstep with ⟨t, ht, rfl⟩
    exact h.getchar (hok t ht)
  | tcset request background arg =>
    rw [← some.inj hstep]
    exact h.tcset request background arg
  | readBegin reader len now background =>
    obtain ⟨-, rfl⟩ := of_guard hstep
    exact h.readBegin reader len now background
  | readRound reader now interrupted =>
    rcases map_eq_some_iff.mp hstep with ⟨r, hr, rfl⟩
    exact h.readRound (hok r hr)
  | readReady | availableBytes => rw [← some.inj hstep]; exact h

end

/-- In every run that meets the condition, the records never count more bytes than there are, the
kernel has not panicked, and every canonical read has returned bytes of one completed line. -/
theorem records_fit_ready {s : Console} (hrun : Run (· = boot) (fun s e ↦ e.Orderly s) Step s) :
    s.input.records.sum ≤ s.input.ready.length ∧ s.panicked = false ∧
      ∀ bytes ∈ s.returned, ∃ line ∈ s.lines, bytes <:+: line := by
  have hsound : s.Sound := by
    apply Run.invariant ?_ ?_ hrun
    · rintro s rfl
      exact sound_boot
    · intro s e s' h hok hstep
      exact h.step hok hstep
  exact ⟨hsound.tiled.sum_le, hsound.running, hsound.returned⟩

def rawTermios : KernelTermios := { KernelTermios.consoleDefault with lflag := 0x1 ||| 0x8 }

/-- The line `a` and its newline arrive, termios is changed to non-canonical, a one-byte read takes
the `a`, termios is changed back. -/
def lineReadRaw : List ConsoleEvent :=
  [.pumpBegin, .getchar 0x61, .getchar 0x0a, .getchar 0, .tcset .TCSETS none (some rawTermios),
    .readBegin 0 1 0 none, .readRound 0 0 false,
    .tcset .TCSETS none (some .consoleDefault)]

/-- A canonical read of that line unwraps an empty queue. And a raw `x` that is still in the queue when
the line is completed is returned in its place. -/
theorem records_outlive_bytes : (∃ s, Run (· = boot) (fun _ _ ↦ True) Step s ∧ s.panicked = true) ∧
    (∃ s, Run (· = boot) (fun _ _ ↦ True) Step s ∧ s.input.ready.length < s.input.records.sum) ∧
    ∃ s, Run (· = boot) (fun _ _ ↦ True) Step s ∧
      ∃ bytes ∈ s.returned, ∀ line ∈ s.lines, ¬ bytes <:+: line := by
  have hstart : Run (· = boot) (fun _ _ ↦ True) Step boot := .start rfl
  have hpanic : (runWhile (fun _ _ ↦ True) next
      (lineReadRaw ++ [.readBegin 0 8 0 none, .readRound 0 0 false]) boot).map Console.panicked =
      some true := by
    decide +kernel
  have hshort : (runWhile (fun _ _ ↦ True) next lineReadRaw boot).map (fun s ↦
      (s.input.ready.length, s.input.records.sum)) = some (1, 2) := by
    decide +kernel
  have hmixed : (runWhile (fun _ _ ↦ True) next [.tcset .TCSETS none (some rawTermios), .pumpBegin,
      .getchar 0x78, .getchar 0, .tcset .TCSETS none (some .consoleDefault), .pumpBegin,
      .getchar 0x61, .getchar 0x0a, .getchar 0, .readBegin 0 8 0 none, .readRound 0 0 false]
      boot).map (fun s ↦ (s.returned, s.lines)) = some ([[0x78, 0x61]], [[0x61, 0x0a]]) := by
    decide +kernel
  rcases map_eq_some_iff.mp hpanic with ⟨s₁, hrun₁, hfacts₁⟩
  rcases map_eq_some_iff.mp hshort with ⟨s₂, hrun₂, hfacts₂⟩
  rcases map_eq_some_iff.mp hmixed with ⟨s₃, hrun₃, hfacts₃⟩
  simp only [Prod.mk.injEq] at hfacts₂ hfacts₃
  refine ⟨⟨s₁, hstart.of_runWhile hrun₁, hfacts₁⟩, ⟨s₂, hstart.of_runWhile hrun₂, by omega⟩,
    s₃, hstart.of_runWhile hrun₃, [0x78, 0x61], by simp [hfacts₃.1], ?_⟩
  rw [hfacts₃.2]
  decide

/-- A raw byte and a line, each read in its own mode. -/
theorem records_fit_after_modes : ∃ s : Console, s.returned = [[0x61, 0x0a]] ∧
    s.input.records.sum ≤ s.input.ready.length ∧ s.panicked = false ∧
      ∀ bytes ∈ s.returned, ∃ line ∈ s.lines, bytes <:+: line := by
  have hfacts : (runWhile (fun s e ↦ ConsoleEvent.Orderly s e) next
      [.tcset .TCSETS none (some rawTermios), .pumpBegin, .getchar 0x78, .getchar 0,
        .readBegin 0 8 0 none, .readRound 0 0 false, .tcset .TCSETS none (some .consoleDefault),
        .pumpBegin, .getchar 0x61, .getchar 0x0a, .getchar 0, .readBegin 0 8 0 none,
        .readRound 0 0 false] boot).map Console.returned = some [[0x61, 0x0a]] := by
    decide +kernel
  rcases map_eq_some_iff.mp hfacts with ⟨s, hrun, hreturned⟩
  have hstart : Run (· = boot) (fun s e ↦ ConsoleEvent.Orderly s e) Step boot := .start rfl
  exact ⟨s, hreturned, records_fit_ready (hstart.of_runWhile hrun)⟩

end Console

end RespOS.Fs
