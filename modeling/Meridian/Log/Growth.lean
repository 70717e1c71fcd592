import Meridian.Log.MemLog

/-!
# The log across the growth of its buffer

A write keeps the log in order (`LogOk`), stays in the buffer and only adds to the text, as long as
the buffer it needs is given. When it is not, the null result is stored over the buffer's address
before it is looked at, with the cursor and the size as they were: so a run keeps the log in order
exactly if no growth fails (`memLog_kept_iff`).
-/

namespace Meridian.Log

open Lib.Word

variable {printer : Printer} {s : State} {w : LogWrite} {log : MemLog} {byte : Nat → UInt8}

/-! ### The invariant -/

/-- The cursor is in the buffer, at the terminator of the text before it. -/
structure LogOk (log : MemLog) (byte : Nat → UInt8) : Prop where
  notNull : log.buffer ≠ 0
  word : log.buffer < 2 ^ 52
  size : log.bufferSize ≤ memLogMaxSize
  low : log.buffer ≤ log.cursor
  high : log.cursor < log.buffer + log.bufferSize
  terminated : byte log.cursor = 0

def StateOk (s : State) : Prop := ∀ log, s.memLog = some log → LogOk log s.byte

/-- The text from the buffer's start to the cursor. -/
def textOf (log : MemLog) (byte : Nat → UInt8) : List UInt8 :=
  (List.range (log.cursor - log.buffer)).map fun i => byte (log.buffer + i)

def State.text (s : State) : List UInt8 := (s.memLog.map fun log => textOf log s.byte).getD []

/-- All that was read and written was in the buffer, and the message shown ends there. -/
structure Safe (effect : Effect) : Prop where
  ok : StateOk effect.state
  inside : ∀ range ∈ effect.ranges, ∃ log, effect.state.memLog = some log ∧ log.buffer ≤ range.1 ∧
    range.1 + range.2 ≤ log.buffer + log.bufferSize
  ended : ∀ message ∈ effect.message, ∃ log, effect.state.memLog = some log ∧ log.buffer ≤ message ∧
    ∃ last, message ≤ last ∧ last < log.buffer + log.bufferSize ∧ effect.state.byte last = 0

theorem LogOk.offset (h : LogOk log byte) : sub64 log.cursor log.buffer = log.cursor - log.buffer := by
  obtain ⟨_, word, size, low, high, _⟩ := h
  unfold memLogMaxSize at size
  exact sub64_of_le low (by omega)

theorem LogOk.space (h : LogOk log byte) : log.space = log.buffer + log.bufferSize - log.cursor := by
  have offset := h.offset
  obtain ⟨_, word, size, low, high, _⟩ := h
  unfold memLogMaxSize at size
  rw [MemLog.space, offset, sub64_of_le (by omega) (by omega)]
  omega

/-! ### Printing -/

/-- What a print leaves: more text in the same buffer, with what was there before as it was. -/
structure Printed (log log' : MemLog) (byte byte' : Nat → UInt8) (ranges : List (Nat × Nat)) : Prop where
  ok : LogOk log' byte'
  buffer : log'.buffer = log.buffer
  bufferSize : log'.bufferSize = log.bufferSize
  cursor : log.cursor ≤ log'.cursor
  kept : ∀ a < log.cursor, byte' a = byte a
  inside : ∀ range ∈ ranges, log.buffer ≤ range.1 ∧ range.1 + range.2 ≤ log.buffer + log.bufferSize

theorem Printed.refl (h : LogOk log byte) : Printed log log byte byte [] :=
  ⟨h, rfl, rfl, Nat.le_refl _, fun _ _ => rfl, fun range mem => by cases mem⟩

theorem Printed.trans {log' log'' : MemLog} {byte' byte'' : Nat → UInt8} {ranges ranges' : List (Nat × Nat)}
    (h : Printed log log' byte byte' ranges) (h' : Printed log' log'' byte' byte'' ranges') :
    Printed log log'' byte byte'' (ranges ++ ranges') := by
  refine ⟨h'.ok, h'.buffer.trans h.buffer, h'.bufferSize.trans h.bufferSize, h.cursor.trans h'.cursor, ?_, ?_⟩
  · intro a below
    exact (h'.kept a (below.trans_le h.cursor)).trans (h.kept a below)
  · intro range mem
    rcases List.mem_append.mp mem with first | second
    · exact h.inside range first
    · have inside := h'.inside range second
      rwa [h.buffer, h.bufferSize] at inside

theorem putBytes_below {start a : Nat} (bytes : List UInt8) (below : a < start) :
    putBytes byte start bytes a = byte a :=
  if_neg fun inside => absurd inside.1 (Nat.not_le_of_lt below)

theorem print_nothing (text : List UInt8) (nothing : log.space = 0 ∨ log.space > maximumAsciiStringLength) :
    print printer byte log text = (byte, { log with cursor := u64 (log.cursor + 0) }, []) := by
  rw [print, asciiSPrint, if_pos nothing]

theorem print_chars (text : List UInt8) (some : ¬(log.space = 0 ∨ log.space > maximumAsciiStringLength)) :
    print printer byte log text =
      (putBytes byte log.cursor (printer.chars log.space text ++ [0]),
        { log with cursor := u64 (log.cursor + (printer.chars log.space text).length) },
        [(log.cursor, (printer.chars log.space text).length + 1)]) := by
  rw [print, asciiSPrint, if_neg some]

theorem putBytes_last (start : Nat) (bytes : List UInt8) :
    putBytes byte start (bytes ++ [0]) (start + bytes.length) = 0 := by
  have inside : start ≤ start + bytes.length ∧ start + bytes.length < start + (bytes ++ [0]).length := by
    rw [List.length_append, List.length_singleton]
    omega
  rw [putBytes, if_pos inside, Nat.add_sub_cancel_left]
  simp

theorem print_spec {text : List UInt8} {printed : (Nat → UInt8) × MemLog × List (Nat × Nat)}
    (h : LogOk log byte) (eq : print printer byte log text = printed) :
    Printed log printed.2.1 byte printed.1 printed.2.2 := by
  have space := h.space
  have size := h.size
  have word := h.word
  have low := h.low
  have high := h.high
  unfold memLogMaxSize at size
  by_cases nothing : log.space = 0 ∨ log.space > maximumAsciiStringLength
  · have stays : u64 (log.cursor + 0) = log.cursor := u64_of_lt (by omega)
    rw [print_nothing text nothing, stays] at eq
    rw [← eq]
    exact Printed.refl h
  · have room := printer.room log.space text (by omega)
    rw [print_chars text nothing] at eq
    generalize printer.chars log.space text = chars at room eq
    have moves : u64 (log.cursor + chars.length) = log.cursor + chars.length := u64_of_lt (by omega)
    rw [moves] at eq
    rw [← eq]
    refine ⟨⟨h.notNull, h.word, h.size, ?_, ?_, putBytes_last _ chars⟩, rfl, rfl, Nat.le_add_right _ _,
      fun a below => putBytes_below _ below, ?_⟩
    · dsimp only
      omega
    · dsimp only
      omega
    · intro range mem
      rw [List.mem_singleton.mp mem]
      dsimp only
      omega

/-- The character before the cursor is read only when there is one. -/
theorem startsLine_inside (h : LogOk log byte) :
    ∀ range ∈ (startsLine byte log).2, log.buffer ≤ range.1 ∧
      range.1 + range.2 ≤ log.buffer + log.bufferSize := by
  have high := h.high
  have low := h.low
  have word := h.word
  have size := h.size
  unfold memLogMaxSize at size
  unfold startsLine
  split
  · intro range mem
    rw [List.mem_singleton.mp mem]
    dsimp only
    omega
  · rename_i some
    have before : log.buffer ≠ log.cursor := fun same => some (same ▸ h.terminated)
    have last : sub64 log.cursor 1 = log.cursor - 1 := sub64_of_le (by omega) (by omega)
    rw [last]
    intro range mem
    rcases List.mem_pair.mp mem with first | second
    · rw [first]
      dsimp only
      omega
    · rw [second]
      dsimp only
      omega

theorem Printed.reads {ranges reads : List (Nat × Nat)} {log' : MemLog} {byte' : Nat → UInt8}
    (h : Printed log log' byte byte' ranges)
    (inside : ∀ range ∈ reads, log.buffer ≤ range.1 ∧ range.1 + range.2 ≤ log.buffer + log.bufferSize) :
    Printed log log' byte byte' (reads ++ ranges) := by
  refine ⟨h.ok, h.buffer, h.bufferSize, h.cursor, h.kept, ?_⟩
  intro range mem
  rcases List.mem_append.mp mem with first | second
  · exact inside range first
  · exact h.inside range second

theorem printStamp_cases (timing : Bool) (stamp : List UInt8) :
    printStamp printer byte log timing stamp = (byte, log, []) ∨
      printStamp printer byte log timing stamp = (byte, log, (startsLine byte log).2) ∨
      ∃ printed, print printer byte log (stamp ++ [32, 32]) = printed ∧
        printStamp printer byte log timing stamp =
          (printed.1, printed.2.1, (startsLine byte log).2 ++ printed.2.2) := by
  unfold printStamp
  generalize startsLine byte log = starts
  generalize print printer byte log (stamp ++ [32, 32]) = printed
  cases timing with
  | false => exact Or.inl rfl
  | true =>
    obtain ⟨stamped, reads⟩ := starts
    cases stamped with
    | false => exact Or.inr (Or.inl rfl)
    | true => exact Or.inr (Or.inr ⟨printed, rfl, rfl⟩)

theorem printStamp_spec {timing : Bool} {stamp : List UInt8}
    {stamped : (Nat → UInt8) × MemLog × List (Nat × Nat)} (h : LogOk log byte)
    (eq : printStamp printer byte log timing stamp = stamped) :
    Printed log stamped.2.1 byte stamped.1 stamped.2.2 := by
  have reads := startsLine_inside h
  generalize starts : (startsLine byte log).2 = seen at reads
  rcases @printStamp_cases printer log byte timing stamp with
    plain | unstamped | ⟨printed, printEq, stampEq⟩
  · rw [← eq, plain]
    exact Printed.refl h
  · have unchanged := (Printed.refl h).reads reads
    rw [List.append_nil] at unchanged
    rw [← eq, unstamped, starts]
    exact unchanged
  · rw [← eq, stampEq, starts]
    exact (print_spec h printEq).reads reads

theorem Printed.text {ranges : List (Nat × Nat)} {log' : MemLog} {byte' : Nat → UInt8}
    (h : Printed log log' byte byte' ranges) (low : log.buffer ≤ log.cursor) :
    textOf log byte <+: textOf log' byte' := by
  have cursor := h.cursor
  refine ⟨(List.range (log'.cursor - log.cursor)).map fun i => byte' (log.cursor + i), ?_⟩
  have lengths : log'.cursor - log'.buffer = (log.cursor - log.buffer) + (log'.cursor - log.cursor) := by
    rw [h.buffer]
    omega
  unfold textOf
  rw [lengths, List.range_add, List.map_append, List.map_map]
  congr 1
  · apply List.map_congr_left
    intro i mem
    have below := List.mem_range.mp mem
    rw [h.buffer]
    exact (h.kept _ (by omega)).symm
  · apply List.map_congr_left
    intro i _
    have place : log'.buffer + (log.cursor - log.buffer + i) = log.cursor + i := by
      rw [h.buffer]
      omega
    rw [Function.comp_apply, place]

/-- A message in a log that is in order. -/
theorem writeMessage_spec (h : LogOk log s.byte) (timing : Bool) (stamp text : List UInt8) :
    Safe (writeMessage printer s log timing stamp text) ∧
      textOf log s.byte <+: (writeMessage printer s log timing stamp text).state.text := by
  unfold writeMessage
  generalize stampEq : printStamp printer s.byte log timing stamp = stamped
  have stampPrinted := printStamp_spec h stampEq
  obtain ⟨stampByte, stampLog, stampRanges⟩ := stamped
  dsimp only
  generalize printEq : print printer stampByte stampLog text = textPrint
  have printed := stampPrinted.trans (print_spec stampPrinted.ok printEq)
  obtain ⟨byte', log', ranges⟩ := textPrint
  dsimp only at printed ⊢
  refine ⟨⟨?_, ?_, ?_⟩, printed.text h.low⟩
  · intro last same
    rw [← Option.some.inj same]
    exact printed.ok
  · intro range mem
    refine ⟨log', rfl, ?_⟩
    rw [printed.buffer, printed.bufferSize]
    exact printed.inside range mem
  · intro message mem
    rw [← Option.some.inj mem]
    refine ⟨log', rfl, ?_, log'.cursor, printed.cursor, printed.ok.high, printed.ok.terminated⟩
    rw [printed.buffer]
    exact h.low

/-! ### Growing the buffer -/

/-- The log with its text in a larger block. -/
def MemLog.moved (log : MemLog) (block : Block) : MemLog :=
  ⟨block.start, u64 (block.start + sub64 log.cursor log.buffer), log.bufferSize + memLogInitialSize⟩

theorem reallocatePool_copy {oldSize newSize old new i : Nat} (notNull : old ≠ 0) (old_lt : i < oldSize)
    (fits : oldSize ≤ newSize) : reallocatePool byte oldSize newSize old new (new + i) = byte (old + i) := by
  have within : new ≤ new + i ∧ new + i < new + newSize := by omega
  have copied : old ≠ 0 ∧ new + i < new + min oldSize newSize := by
    rw [Nat.min_eq_left fits]
    exact ⟨notNull, by omega⟩
  rw [reallocatePool, if_pos within, if_pos copied, Nat.add_sub_cancel_left]

/-- The larger buffer is in order and holds the same text. -/
theorem moved_spec (h : LogOk log byte) (below : log.atLimit = false) (block : Block) :
    LogOk (log.moved block)
        (reallocatePool byte log.bufferSize (log.bufferSize + memLogInitialSize) log.buffer block.start) ∧
      textOf (log.moved block)
        (reallocatePool byte log.bufferSize (log.bufferSize + memLogInitialSize) log.buffer block.start) =
        textOf log byte := by
  have small : log.bufferSize + memLogInitialSize ≤ memLogMaxSize :=
    Nat.le_of_not_lt (of_decide_eq_false below)
  have copy : ∀ i < log.bufferSize,
      reallocatePool byte log.bufferSize (log.bufferSize + memLogInitialSize) log.buffer block.start
        (block.start + i) = byte (log.buffer + i) :=
    fun i lt => reallocatePool_copy h.notNull lt (Nat.le_add_right _ _)
  generalize reallocatePool byte log.bufferSize (log.bufferSize + memLogInitialSize) log.buffer block.start =
    byte' at copy ⊢
  have low := h.low
  have high := h.high
  have start := block.word
  have moved : log.moved block =
      ⟨block.start, block.start + (log.cursor - log.buffer), log.bufferSize + memLogInitialSize⟩ := by
    have size := h.size
    unfold memLogMaxSize at size
    rw [MemLog.moved, h.offset, u64_of_lt (by omega)]
  rw [moved]
  constructor
  · refine ⟨block.notNull, block.word, small, Nat.le_add_right _ _, ?_, ?_⟩
    · dsimp only
      omega
    · have terminator : log.buffer + (log.cursor - log.buffer) = log.cursor := by omega
      rw [copy _ (by omega), terminator]
      exact h.terminated
  · unfold textOf
    rw [Nat.add_sub_cancel_left]
    apply List.map_congr_left
    intro i mem
    exact copy i (by have := List.mem_range.mp mem; omega)

theorem append_fits (timing : Bool) (stamp text : List UInt8) (growth : Option Block)
    (fits : log.full = false) :
    append printer s log timing stamp text growth = writeMessage printer s log timing stamp text := by
  rw [append, if_neg (by rw [fits]; exact Bool.false_ne_true)]

theorem append_limit (timing : Bool) (stamp text : List UInt8) (growth : Option Block)
    (full : log.full = true) (limit : log.atLimit = true) :
    append printer s log timing stamp text growth = { state := s } := by
  rw [append, if_pos full, if_pos limit]

theorem append_failed (timing : Bool) (stamp text : List UInt8) (full : log.full = true)
    (below : log.atLimit = false) :
    append printer s log timing stamp text none =
      { state := { s with memLog := some { log with buffer := 0 } } } := by
  rw [append, if_pos full, if_neg (by rw [below]; exact Bool.false_ne_true)]
  rfl

theorem append_moved (timing : Bool) (stamp text : List UInt8) (block : Block) (full : log.full = true)
    (below : log.atLimit = false) :
    append printer s log timing stamp text (some block) =
      writeMessage printer
        { s with
          memLog := some (log.moved block)
          byte := reallocatePool s.byte log.bufferSize (log.bufferSize + memLogInitialSize) log.buffer
            block.start }
        (log.moved block) timing stamp text := by
  rw [append, if_pos full, if_neg (by rw [below]; exact Bool.false_ne_true)]
  rfl

/-- The growth of the buffer, where a write needs it, is given. -/
def Given (log : MemLog) (growth : Option Block) : Prop :=
  log.full = true → log.atLimit = false → growth.isSome = true

theorem Safe.unchanged (ok : StateOk s) : Safe { state := s } :=
  ⟨ok, fun _ mem => (List.not_mem_nil mem).elim, fun _ mem => (Option.not_mem_none _ mem).elim⟩

theorem state_text (here : s.memLog = some log) : s.text = textOf log s.byte := by
  rw [State.text, here]
  rfl

theorem append_safe (here : s.memLog = some log) (ok : LogOk log s.byte) (timing : Bool)
    (stamp text : List UInt8) {growth : Option Block} (given : Given log growth) :
    Safe (append printer s log timing stamp text growth) ∧
      s.text <+: (append printer s log timing stamp text growth).state.text := by
  have whole : StateOk s := by
    intro other same
    rw [here] at same
    rw [← Option.some.inj same]
    exact ok
  rw [state_text here]
  cases full : log.full with
  | false =>
    rw [append_fits timing stamp text growth full]
    exact writeMessage_spec ok timing stamp text
  | true =>
    cases limit : log.atLimit with
    | true =>
      rw [append_limit timing stamp text growth full limit]
      exact ⟨Safe.unchanged whole, (state_text here).symm ▸ List.prefix_rfl⟩
    | false =>
      obtain ⟨block, found⟩ := Option.isSome_iff_exists.mp (given full limit)
      obtain ⟨moved, same⟩ := moved_spec ok limit block
      rw [found, append_moved timing stamp text block full limit, ← same]
      exact writeMessage_spec moved timing stamp text

/-- A growth that fails leaves the null pointer for the buffer. -/
theorem append_unsafe {timing : Bool} {stamp text : List UInt8} {growth : Option Block}
    (safe : Safe (append printer s log timing stamp text growth)) : Given log growth := by
  intro full below
  cases growth with
  | some block => rfl
  | none =>
    have ok := safe.ok
    rw [append_failed timing stamp text full below] at ok
    exact absurd rfl (ok _ rfl).notNull

/-! ### The first buffer -/

theorem fresh_ok (block : Block) :
    LogOk (freshLog block) (zeroPool byte block.start memLogInitialSize) := by
  have positive : 0 < memLogInitialSize := by decide
  have within : memLogInitialSize ≤ memLogMaxSize := by decide
  refine ⟨block.notNull, block.word, within, Nat.le_refl _, Nat.lt_add_of_pos_right positive, ?_⟩
  exact if_pos ⟨Nat.le_refl _, Nat.lt_add_of_pos_right positive⟩

theorem asciiText_length (s : String) : (asciiText s).length = s.length := by
  rw [asciiText, List.length_map, String.length_toList]

theorem calibrationReport_length (initError : List UInt8) :
    (calibrationReport initError).length = 43 + initError.length + 5 := by
  rw [calibrationReport, List.length_append, List.length_append, asciiText_length, asciiText_length]
  rfl

theorem print_cursor {text : List UInt8} {printed : (Nat → UInt8) × MemLog × List (Nat × Nat)}
    (h : LogOk log byte) (eq : print printer byte log text = printed) :
    printed.2.1.cursor ≤ log.cursor + text.length := by
  have size := h.size
  have word := h.word
  have high := h.high
  unfold memLogMaxSize at size
  by_cases nothing : log.space = 0 ∨ log.space > maximumAsciiStringLength
  · rw [print_nothing text nothing] at eq
    rw [← eq]
    dsimp only
    rw [u64_of_lt (by omega)]
    omega
  · have room := printer.room log.space text (by omega)
    have length := printer.length log.space text
    have space := h.space
    have low := h.low
    rw [print_chars text nothing] at eq
    rw [← eq]
    dsimp only
    rw [u64_of_lt (by omega)]
    omega

/-- A log near the start of its buffer has room for the next line. -/
theorem LogOk.fits (h : LogOk log byte) (early : log.cursor ≤ log.buffer + 128)
    (large : memLogInitialSize ≤ log.bufferSize) : log.full = false := by
  have low := h.low
  unfold memLogInitialSize at large
  rw [MemLog.full, h.offset, memLogMaxLineSize, u64_of_lt (by omega)]
  exact decide_eq_false (by omega)

/-- What `MemLogInit` does to a state in order: a log that exists stays as it is, a new one has room
for a message behind the report of the timer. -/
structure Initialised (s : State) (init : Effect) : Prop where
  safe : Safe init
  text : s.text <+: init.state.text
  exists_unchanged : ∀ log, s.memLog = some log → init.state = s
  new_fits : s.memLog = none → ∀ log, init.state.memLog = some log → log.full = false

theorem Initialised.skipped (missing : s.memLog = none) : Initialised s { state := { s with skipLog := true } } := by
  have ok : StateOk { s with skipLog := true } := by
    intro log here
    rw [show s.memLog = some log from here] at missing
    cases missing
  refine ⟨Safe.unchanged ok, List.prefix_rfl, ?_, ?_⟩
  · intro log here
    rw [here] at missing
    cases missing
  · intro _ log here
    rw [show s.memLog = some log from here] at missing
    cases missing

theorem firstState_ok (block : Block) : StateOk (firstState s block) := by
  intro log here
  rw [← Option.some.inj here]
  exact fresh_ok block

theorem State.text_empty (missing : s.memLog = none) : s.text = [] := by
  rw [State.text, missing]
  rfl

theorem freshLog_fits (block : Block) : (freshLog block).full = false :=
  @LogOk.fits _ (zeroPool (fun _ => 0) block.start memLogInitialSize) (fresh_ok block)
    (Nat.le_add_right _ _) (Nat.le_refl _)

/-- The report of the timer is short. -/
theorem report_fits (block : Block) (stamp : List UInt8) {initError : List UInt8}
    (short : initError.length < 50) {log : MemLog}
    (here : (writeMessage printer (firstState s block) (freshLog block) false stamp
      (calibrationReport initError)).state.memLog = some log) : log.full = false := by
  have fresh : LogOk (freshLog block) (firstState s block).byte := fresh_ok block
  have length := calibrationReport_length initError
  unfold writeMessage at here
  have plain : printStamp printer (firstState s block).byte (freshLog block) false stamp =
      ((firstState s block).byte, freshLog block, []) := rfl
  rw [plain] at here
  dsimp only at here
  generalize eq : print printer (firstState s block).byte (freshLog block) (calibrationReport initError) =
    printed at here
  have result := print_spec fresh eq
  have cursor := print_cursor fresh eq
  have same : printed.2.1 = log := Option.some.inj here
  rw [same] at result cursor
  have starts : (freshLog block).cursor = (freshLog block).buffer := rfl
  refine result.ok.fits ?_ (Nat.le_of_eq result.bufferSize.symm)
  rw [result.buffer, ← starts]
  omega

theorem memLogInit_spec (ok : StateOk s) (w : LogWrite) : Initialised s (memLogInit printer s w) := by
  unfold memLogInit
  split
  · rename_i skip
    refine ⟨Safe.unchanged ok, List.prefix_rfl, fun _ _ => rfl, ?_⟩
    intro missing log here
    rw [show s.memLog = some log from here] at missing
    cases missing
  · rename_i start
    have missing : s.memLog = none := by
      rw [Bool.not_eq_true, Bool.or_eq_false_iff] at start
      exact Option.isSome_eq_false_iff.mp start.2 |> Option.isNone_iff_eq_none.mp
    have absent : ∀ (init : Effect) log, s.memLog = some log → init.state = s := by
      intro init log here
      rw [missing] at here
      cases here
    split
    · rename_i block _ _
      split
      · have fresh : LogOk (freshLog block) (firstState s block).byte := fresh_ok block
        have empty := State.text_empty missing
        split
        · refine ⟨Safe.unchanged (firstState_ok block), ?_, absent _, ?_⟩
          · rw [empty]
            exact List.nil_prefix
          · intro _ log here
            rw [← show freshLog block = log from Option.some.inj here]
            exact freshLog_fits block
        · have made := @append_fits printer (firstState s block) (freshLog block)
            false [] (calibrationReport w.initError) none (freshLog_fits block)
          obtain ⟨safe, _⟩ := @writeMessage_spec printer (firstState s block) _ fresh false []
            (calibrationReport w.initError)
          have report : ∀ log, (writeMessage printer (firstState s block) (freshLog block) false []
              (calibrationReport w.initError)).state.memLog = some log → log.full = false :=
            fun log here => report_fits block [] w.initErrorFits here
          rw [← made] at safe report
          refine ⟨safe, ?_, absent _, fun _ => report⟩
          rw [empty]
          exact List.nil_prefix
      · exact Initialised.skipped missing
    · exact Initialised.skipped missing

/-! ### Runs -/

/-- A write does what it should: it is safe, and the text it finds stays in front. -/
def Kept (printer : Printer) (s : State) (w : LogWrite) : Prop :=
  (∀ effect ∈ memLogVA printer s w, Safe effect) ∧ s.text <+: (step printer s w).text

/-- If the write needs a larger buffer, the firmware gives it. -/
def GrowthGiven (s : State) (w : LogWrite) : Prop :=
  ∀ log, s.memLog = some log → w.text.isSome = true → Given log w.growth

theorem memLogVA_absent (absent : w.text = none) : memLogVA printer s w = [] := by
  rw [memLogVA, absent]

theorem memLogVA_unavailable {text : List UInt8} (present : w.text = some text)
    (missing : (memLogInit printer s w).state.memLog = none) :
    memLogVA printer s w = [memLogInit printer s w] := by
  rw [memLogVA, present]
  dsimp only
  rw [missing]

theorem memLogVA_append {text : List UInt8} (present : w.text = some text)
    (here : (memLogInit printer s w).state.memLog = some log) :
    memLogVA printer s w = [memLogInit printer s w,
      append printer (memLogInit printer s w).state log w.timing w.stamp text w.growth] := by
  rw [memLogVA, present]
  dsimp only
  rw [here]

/-- A state in order asks for a growth in the write exactly if the log it leaves after the
initialisation does. -/
theorem growthGiven_iff (init : Initialised s (memLogInit printer s w)) (present : w.text.isSome = true)
    (here : (memLogInit printer s w).state.memLog = some log) : GrowthGiven s w ↔ Given log w.growth := by
  cases before : s.memLog with
  | none =>
    have fits := init.new_fits before log here
    constructor
    · intro _ full
      rw [fits] at full
      cases full
    · intro _ other found
      rw [before] at found
      cases found
  | some other =>
    rw [init.exists_unchanged other before, before] at here
    rw [← Option.some.inj here]
    constructor
    · intro given
      exact given other before present
    · intro given log' found _
      rw [before] at found
      rw [← Option.some.inj found]
      exact given

theorem kept_effects {effects : List Effect} (eq : memLogVA printer s w = effects) :
    Kept printer s w ↔ (∀ effect ∈ effects, Safe effect) ∧
      s.text <+: (effects.foldl (fun _ effect => effect.state) s).text := by
  rw [Kept, step, eq]

/-- What a write does whose initialisation is `init`. -/
theorem kept_append {init second : Effect} (initialised : Initialised s init)
    (eq : memLogVA printer s w = [init, second]) :
    Kept printer s w ↔ Safe second ∧ s.text <+: second.state.text := by
  rw [kept_effects eq]
  constructor
  · intro kept
    exact ⟨kept.1 second (List.mem_cons_of_mem _ (List.mem_singleton_self _)), kept.2⟩
  · rintro ⟨safe, more⟩
    refine ⟨?_, more⟩
    intro effect mem
    rcases List.mem_pair.mp mem with first | last
    · rw [first]
      exact initialised.safe
    · rw [last]
      exact safe

theorem append_iff {init : Effect} (initialised : Initialised s init) (here : init.state.memLog = some log)
    (timing : Bool) (stamp text : List UInt8) (growth : Option Block) :
    Safe (append printer init.state log timing stamp text growth) ∧
        s.text <+: (append printer init.state log timing stamp text growth).state.text ↔
      Given log growth := by
  constructor
  · intro kept
    exact append_unsafe kept.1
  · intro given
    obtain ⟨safe, more⟩ := @append_safe printer _ _ here (initialised.safe.ok log here) timing stamp
      text _ given
    exact ⟨safe, initialised.text.trans more⟩

theorem kept_iff (ok : StateOk s) : Kept printer s w ↔ GrowthGiven s w := by
  have init := @memLogInit_spec printer _ ok w
  cases present : w.text with
  | none =>
    rw [kept_effects (memLogVA_absent present)]
    refine iff_of_true ⟨fun _ mem => (List.not_mem_nil mem).elim, List.prefix_rfl⟩ ?_
    intro log _ some
    rw [present] at some
    cases some
  | some text =>
    have isSome : w.text.isSome = true := by rw [present]; rfl
    cases here : (memLogInit printer s w).state.memLog with
    | none =>
      rw [kept_effects (memLogVA_unavailable present here)]
      refine iff_of_true ⟨?_, init.text⟩ ?_
      · intro effect mem
        rw [List.mem_singleton.mp mem]
        exact init.safe
      · intro log found
        rw [init.exists_unchanged log found, found] at here
        cases here
    | some log =>
      rw [kept_append init (memLogVA_append present here), append_iff init here]
      exact (growthGiven_iff init isSome here).symm

theorem foldl_ok {effects : List Effect} (ok : StateOk s) (safe : ∀ effect ∈ effects, Safe effect) :
    StateOk (effects.foldl (fun _ effect => effect.state) s) := by
  induction effects generalizing s with
  | nil => exact ok
  | cons effect effects ih =>
    exact ih (safe effect List.mem_cons_self).ok fun later mem => safe later (List.mem_cons_of_mem _ mem)

theorem step_ok (ok : StateOk s) (given : GrowthGiven s w) : StateOk (step printer s w) :=
  foldl_ok ok ((kept_iff ok).mpr given).1

/-- A run from the start keeps the log in order, its text and all accesses in the buffer, exactly if
no growth that a write of it needs fails. -/
theorem memLog_kept_iff (printer : Printer) (byte : Nat → UInt8) (ws : List LogWrite) :
    Lib.Run.Along (step printer) (Kept printer) { byte := byte } ws ↔
      Lib.Run.Along (step printer) GrowthGiven { byte := byte } ws := by
  apply Lib.Run.along_congr (I := StateOk) (fun s w ok => kept_iff ok) (fun s w ok given => step_ok ok given)
  intro log here
  cases here

theorem firstWrite_log {text : List UInt8} {block : Block} (missing : s.memLog = none)
    (logs : s.skipLog = false) (present : w.text = some text) (pool : w.pool = true)
    (first : w.first = some block) (installed : w.installed = true) (calibrated : w.initError = [])
    (untimed : w.timing = false) :
    (step printer s w).memLog =
      some (print printer (firstState s block).byte (freshLog block) text).2.1 := by
  have init : memLogInit printer s w = { state := firstState s block } := by
    have needed : ¬ (s.skipLog || s.memLog.isSome) = true := by
      rw [logs, missing]
      exact Bool.false_ne_true
    rw [memLogInit, if_neg needed, pool, first]
    dsimp only
    rw [if_pos installed, if_pos calibrated]
  have effects := @memLogVA_append printer s _ (freshLog block) _ present
    (by rw [init]; rfl)
  rw [step, effects, init, append_fits _ _ _ _ (freshLog_fits block), untimed]
  rfl

/-- A printer of plain texts. -/
def plainPrinter : Printer where
  chars size text := text.take (size - 1)
  room size text positive := by
    rw [List.length_take]
    omega
  length size text := List.length_take_le' _ _

theorem poolStart_ne_zero : 0x100000 ≠ 0 := by decide

theorem poolStart_lt : 0x100000 < 2 ^ 52 := by decide

def poolBlock : Block := ⟨0x100000, poolStart_ne_zero, poolStart_lt⟩

/-- A write of so many letters, with no memory for a larger buffer. -/
def letters (n : Nat) : LogWrite where
  timing := false
  stamp := []
  text := some (List.replicate n 65)
  growth := none
  pool := true
  first := some poolBlock
  installed := true
  initError := []
  initErrorFits := by decide

theorem letters_log {byte : Nat → UInt8} {n : Nat} (fits : n < memLogInitialSize) :
    (step plainPrinter { byte := byte } (letters n)).memLog =
      some { freshLog poolBlock with cursor := poolBlock.start + n } := by
  have space : (freshLog poolBlock).space = memLogInitialSize := (@fresh_ok byte poolBlock).space
  have room : ¬ ((freshLog poolBlock).space = 0 ∨ (freshLog poolBlock).space > maximumAsciiStringLength) := by
    rw [space]
    decide
  have start : poolBlock.start = 0x100000 := rfl
  unfold memLogInitialSize at fits
  rw [firstWrite_log rfl rfl rfl rfl rfl rfl rfl rfl, print_chars _ room, space]
  have length : (plainPrinter.chars memLogInitialSize (List.replicate n 65)).length = n := by
    rw [plainPrinter, List.length_take, List.length_replicate, memLogInitialSize]
    omega
  have cursor : u64 (poolBlock.start + n) = poolBlock.start + n := u64_of_lt (by rw [start]; omega)
  dsimp only
  rw [length]
  exact congrArg (fun cursor => some { freshLog poolBlock with cursor := cursor }) cursor

/-- A long message, and another for whose buffer there is no memory. -/
theorem growth_failure :
    ¬ Lib.Run.Along (step plainPrinter) (Kept plainPrinter) { byte := fun _ => 0 }
      [letters 130049, letters 1] := by
  rintro ⟨first, second, _⟩
  have missing : StateOk { byte := fun _ => 0 } := fun log here => nomatch here
  have ok := foldl_ok missing first.1
  have given := (kept_iff ok).mp second _ (letters_log (by decide)) rfl
  have impossible := given (by decide) (by decide)
  cases impossible

end Meridian.Log
