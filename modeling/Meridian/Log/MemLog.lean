import Meridian.Lib.Run
import Meridian.Lib.Word

/-!
# The memory log

The model of `Library/MemLogLib/MemLogLib.c`: messages are printed behind one another into one block
of pool memory, which is reallocated when the next line may not fit. Pointers are addresses, zero for
a null pointer, and memory is bytes by address. What a print leaves for a format and its arguments is
the print library's business; the log relies on its staying in the space it is given.
-/

namespace Meridian.Log

open Lib.Word

/-- `MEM_LOG_INITIAL_SIZE`. -/
def memLogInitialSize : Nat := 128 * 1024

/-- `MEM_LOG_MAX_SIZE`. -/
def memLogMaxSize : Nat := 10 * 1024 * 1024

/-- `MEM_LOG_MAX_LINE_SIZE`. -/
def memLogMaxLineSize : Nat := 1024

/-- Pool memory that was allocated: an address of 52 bits that is not null. -/
structure Block where
  start : Nat
  notNull : start ≠ 0
  word : start < 2 ^ 52

/-- The characters that printing a text into so many bytes leaves before the terminator. -/
structure Printer where
  chars : Nat → List UInt8 → List UInt8
  room : ∀ size text, 0 < size → (chars size text).length < size
  length : ∀ size text, (chars size text).length ≤ text.length

/-- The fields of `MEM_LOG` that the writes are about. -/
structure MemLog where
  buffer : Nat
  cursor : Nat
  bufferSize : Nat
  deriving DecidableEq, Repr

structure State where
  /-- `mMemLog`, once it is installed. -/
  memLog : Option MemLog := none
  skipLog : Bool := false
  byte : Nat → UInt8

/-- A call of `MemLog`, with what the firmware answers to the allocations that it may ask for. -/
structure LogWrite where
  timing : Bool
  /-- What `GetTiming` returns. -/
  stamp : List UInt8
  /-- The message, `none` for a null format. -/
  text : Option (List UInt8)
  /-- The block for a larger buffer. -/
  growth : Option Block
  /-- Whether there is memory for the log itself. -/
  pool : Bool
  /-- The block for the first buffer. -/
  first : Option Block
  installed : Bool
  /-- `InitError`, why the timer could not be calibrated: empty if it could. -/
  initError : List UInt8
  initErrorFits : initError.length < 50

/-- What a part of a write does: the new state, the ranges of bytes that it reads and writes for a
message, and the message that it shows to the callback and prints for debugging. -/
structure Effect where
  state : State
  ranges : List (Nat × Nat) := []
  message : Option Nat := none

/-! ### Memory -/

def putBytes (byte : Nat → UInt8) (start : Nat) (bytes : List UInt8) : Nat → UInt8 := fun a =>
  if start ≤ a ∧ a < start + bytes.length then bytes.getD (a - start) 0 else byte a

/-- `AllocateZeroPool`. -/
def zeroPool (byte : Nat → UInt8) (start size : Nat) : Nat → UInt8 := fun a =>
  if start ≤ a ∧ a < start + size then 0 else byte a

/-- `ReallocatePool` where it succeeds: zeros, and before them the old buffer's bytes if there is an
old buffer. -/
def reallocatePool (byte : Nat → UInt8) (oldSize newSize old new : Nat) : Nat → UInt8 := fun a =>
  if new ≤ a ∧ a < new + newSize then
    if old ≠ 0 ∧ a < new + min oldSize newSize then byte (old + (a - new)) else 0
  else byte a

/-- `PcdMaximumAsciiStringLength`. -/
def maximumAsciiStringLength : Nat := 1000000

/-- `AsciiSPrint`, with the characters printed and the range written. -/
def asciiSPrint (printer : Printer) (byte : Nat → UInt8) (start size : Nat) (text : List UInt8) :
    (Nat → UInt8) × Nat × List (Nat × Nat) :=
  if size = 0 ∨ size > maximumAsciiStringLength then (byte, 0, [])
  else
    let chars := printer.chars size text
    (putBytes byte start (chars ++ [0]), chars.length, [(start, chars.length + 1)])

/-- The bytes from the cursor to the end of the buffer. -/
def MemLog.space (log : MemLog) : Nat := sub64 log.bufferSize (sub64 log.cursor log.buffer)

/-! ### Writing -/

def newline : UInt8 := 10

/-- The next line may not fit. -/
def MemLog.full (log : MemLog) : Bool :=
  decide (u64 (sub64 log.cursor log.buffer + memLogMaxLineSize) > log.bufferSize)

/-- A larger buffer would be larger than the log may be. -/
def MemLog.atLimit (log : MemLog) : Bool := decide (log.bufferSize + memLogInitialSize > memLogMaxSize)

/-- The state with the larger buffer, or with none: the result of the allocation is stored first. -/
def grow (s : State) (log : MemLog) : Option Block → State × Option MemLog
  | none => ({ s with memLog := some { log with buffer := 0 } }, none)
  | some block =>
    let offset := sub64 log.cursor log.buffer
    let size := log.bufferSize + memLogInitialSize
    let grown : MemLog := ⟨block.start, u64 (block.start + offset), size⟩
    ({ s with
        memLog := some grown
        byte := reallocatePool s.byte log.bufferSize size log.buffer block.start }, some grown)

/-- Print at the cursor and move it behind the text. -/
def print (printer : Printer) (byte : Nat → UInt8) (log : MemLog) (text : List UInt8) :
    (Nat → UInt8) × MemLog × List (Nat × Nat) :=
  let printed := asciiSPrint printer byte log.cursor log.space text
  (printed.1, { log with cursor := u64 (log.cursor + printed.2.1) }, printed.2.2)

/-- Whether the message gets a stamp: it starts the log or a line. Only then, and only where the log
has a first character, the character before the cursor is read. -/
def startsLine (byte : Nat → UInt8) (log : MemLog) : Bool × List (Nat × Nat) :=
  if byte log.buffer = 0 then (true, [(log.buffer, 1)])
  else (byte (sub64 log.cursor 1) == newline, [(log.buffer, 1), (sub64 log.cursor 1, 1)])

/-- The stamp in front of a message, `"%a  "`. -/
def printStamp (printer : Printer) (byte : Nat → UInt8) (log : MemLog) (timing : Bool) (stamp : List UInt8) :
    (Nat → UInt8) × MemLog × List (Nat × Nat) :=
  if timing then
    let starts := startsLine byte log
    if starts.1 then
      let printed := print printer byte log (stamp ++ [32, 32])
      (printed.1, printed.2.1, starts.2 ++ printed.2.2)
    else (byte, log, starts.2)
  else (byte, log, [])

/-- The message behind the text so far. -/
def writeMessage (printer : Printer) (s : State) (log : MemLog) (timing : Bool) (stamp text : List UInt8) :
    Effect :=
  let lastMessage := log.cursor
  let stamped := printStamp printer s.byte log timing stamp
  let printed := print printer stamped.1 stamped.2.1 text
  { state := { s with memLog := some printed.2.1, byte := printed.1 }
    ranges := stamped.2.2 ++ printed.2.2
    message := some lastMessage }

/-- The part of `MemLogVA` after the initialisation. -/
def append (printer : Printer) (s : State) (log : MemLog) (timing : Bool) (stamp text : List UInt8)
    (growth : Option Block) : Effect :=
  if log.full then
    if log.atLimit then { state := s }
    else
      let grown := grow s log growth
      match grown.2 with
      | none => { state := grown.1 }
      | some log => writeMessage printer grown.1 log timing stamp text
  else writeMessage printer s log timing stamp text

def asciiText (s : String) : List UInt8 := s.toList.map fun c => UInt8.ofNat c.toNat

/-- `"** Could *NOT* Calibrate ACPI PM Timer ... %a **\n\n"`. -/
def calibrationReport (initError : List UInt8) : List UInt8 :=
  asciiText "** Could *NOT* Calibrate ACPI PM Timer ... " ++ initError ++ asciiText " **\n\n"

/-- The log with its first buffer. -/
def freshLog (block : Block) : MemLog := ⟨block.start, block.start, memLogInitialSize⟩

def firstState (s : State) (block : Block) : State :=
  { s with
    memLog := some (freshLog block)
    byte := zeroPool s.byte block.start memLogInitialSize }

/-- `MemLogInit`, with the report of the timer as a first message. -/
def memLogInit (printer : Printer) (s : State) (w : LogWrite) : Effect :=
  if s.skipLog || s.memLog.isSome then { state := s }
  else
    match w.pool, w.first with
    | true, some block =>
      if w.installed then
        if w.initError = [] then { state := firstState s block }
        else append printer (firstState s block) (freshLog block) false [] (calibrationReport w.initError) none
      else { state := { s with skipLog := true } }
    | _, _ => { state := { s with skipLog := true } }

/-- `MemLogVA`: the initialisation and the message. -/
def memLogVA (printer : Printer) (s : State) (w : LogWrite) : List Effect :=
  match w.text with
  | none => []
  | some text =>
    let init := memLogInit printer s w
    match init.state.memLog with
    | none => [init]
    | some log => [init, append printer init.state log w.timing w.stamp text w.growth]

/-- The state after a write. -/
def step (printer : Printer) (s : State) (w : LogWrite) : State :=
  (memLogVA printer s w).foldl (fun _ effect => effect.state) s

end Meridian.Log
