import Mathlib.Tactic.IntervalCases
import Meridian.Fsw.HandleRuns

/-!
# The calls of an open file

The model of `fsw_efi_map_status`, `fsw_efi_file_read`, `fsw_efi_file_getpos` and `fsw_efi_file_setpos` of
`filesystems/fsw_efi.c`, as `fsw_efi_filehandle_read`, `fsw_efi_filehandle_position_get` and
`fsw_efi_filehandle_position_set` call them for a file. `LastIOStatus` of the volume is an argument of each call.
Every sequence of calls is answered as by a cursor over the bytes of the file.
-/

namespace Meridian.Fsw.FileProtocol

open Lib.Attempt

inductive EfiStatus where
  | success | invalidParameter | unsupported | bufferTooSmall | deviceError | volumeCorrupted | noMedia
  | mediaChanged | notFound
  deriving DecidableEq, Repr

/-- `fsw_efi_map_status` of a status that is no success. -/
def fswEfiMapStatus (lastIoStatus : EfiStatus) : FswStatus → EfiStatus
  | .notFound => .notFound
  | .unsupported => .unsupported
  | .ioError => lastIoStatus
  | .outOfMemory => .volumeCorrupted
  | .volumeCorrupted => .volumeCorrupted
  | .unknownError => .deviceError

inductive Call where
  | read (bufferSize : UInt64) (lastIoStatus : EfiStatus)
  | getPosition
  | setPosition (position : UInt64)

/-- What a call returns. The buffer of a read that fails is left out. -/
inductive Reply where
  | read (status : EfiStatus) (bufferSize : Nat) (buffer : Option (List UInt8))
  | position (position : Nat)
  | done
  deriving DecidableEq, Repr

/-! ### The operations -/

section
variable (env : ShandleEnv) (fuel : Nat)

def fswEfiFileRead (bufferSize : UInt64) (lastIoStatus : EfiStatus) :
    AttemptM FswShandle Fault Reply := fun shand =>
  match fswShandleRead env fuel shand bufferSize.toUInt32 with
  | (.ok (bytes, reported), shand) => (.ok (.read .success reported (some bytes)), shand)
  | (.error (.status status), shand) =>
    (.ok (.read (fswEfiMapStatus lastIoStatus status) bufferSize.toUInt32.toNat none), shand)
  | (.error fault, shand) => (.error fault, shand)

def fswEfiFileGetpos : AttemptM FswShandle Fault Reply := do
  let shand ← get
  return .position shand.pos

def fswEfiFileSetpos (position : UInt64) : AttemptM FswShandle Fault Reply := do
  modify fun shand => { shand with pos := if position ≠ 0xFFFFFFFFFFFFFFFF then position.toNat else env.size }
  return .done

def answer : Call → AttemptM FswShandle Fault Reply
  | .read bufferSize lastIoStatus => fswEfiFileRead env fuel bufferSize lastIoStatus
  | .getPosition => fswEfiFileGetpos
  | .setPosition position => fswEfiFileSetpos env position

def answers (calls : List Call) : AttemptM FswShandle Fault (List Reply) := calls.mapM (answer env fuel)

end

/-! ### A cursor over the bytes -/

/-- What a call may be answered at a position, and where the cursor is then. A buffer's size counts by its low
32 bits. -/
inductive Answer (file : TameFile) : Nat → Call → Reply → Nat → Prop
  | read {pos : Nat} {bufferSize : UInt64} {lastIoStatus : EfiStatus} {bytes : List UInt8}
      (are : bytes = file.bytes pos (bufferSize.toNat % 2 ^ 32)) :
      Answer file pos (.read bufferSize lastIoStatus) (.read .success bytes.length (some bytes)) (pos + bytes.length)
  | failed {pos : Nat} {bufferSize : UInt64} {lastIoStatus : EfiStatus} {status : FswStatus}
      (may : file.fails status) :
      Answer file pos (.read bufferSize lastIoStatus)
        (.read (fswEfiMapStatus lastIoStatus status) (bufferSize.toNat % 2 ^ 32) none) pos
  | getPosition {pos : Nat} : Answer file pos .getPosition (.position pos) pos
  | setPosition {pos : Nat} {position : UInt64} (inside : position.toNat ≠ 2 ^ 64 - 1) :
      Answer file pos (.setPosition position) .done position.toNat
  | toEnd {pos : Nat} {position : UInt64} (last : position.toNat = 2 ^ 64 - 1) :
      Answer file pos (.setPosition position) .done file.env.size

inductive Answers (file : TameFile) : Nat → List Call → List Reply → Nat → Prop
  | nil {pos : Nat} : Answers file pos [] [] pos
  | cons {pos pos' pos'' : Nat} {call : Call} {calls : List Call} {reply : Reply} {replies : List Reply}
      (first : Answer file pos call reply pos') (rest : Answers file pos' calls replies pos'') :
      Answers file pos (call :: calls) (reply :: replies) pos''

/-! ### Runs of calls -/

variable {file : TameFile} {fuel : Nat}

/-- The calls go on at the position where the cursor is. -/
def Behind (file : TameFile) (calls : List Call) (pos : Nat) (replies : List Reply) (shand : FswShandle) : Prop :=
  ∃ pos', Answers file pos calls replies pos' ∧ file.At pos' shand

theorem answer_does (enough : 2 ^ 32 ≤ fuel) (call : Call) (pos : Nat) :
    Does (file.At pos) (answer file.env fuel call)
      (fun reply shand => ∃ pos', Answer file pos call reply pos' ∧ file.At pos' shand) fun _ _ => False := by
  cases call with
  | read bufferSize lastIoStatus =>
    rintro shand at'
    have low : bufferSize.toUInt32.toNat = bufferSize.toNat % 2 ^ 32 := UInt64.toNat_toUInt32 bufferSize
    have outcome := shandleRead_does file (Nat.lt_of_lt_of_le (UInt32.toNat_lt bufferSize.toUInt32) enough)
      pos shand at'
    rw [shandleRead, low] at outcome
    rw [answer, fswEfiFileRead, low]
    generalize fswShandleRead file.env fuel shand bufferSize.toUInt32 = run at outcome ⊢
    obtain ⟨out, shand'⟩ := run
    dsimp only at outcome ⊢
    cases outcome with
    | ok right =>
      obtain ⟨rfl, at''⟩ := right
      exact .ok ⟨_, .read rfl, at''⟩
    | @error fault may =>
      cases fault with
      | status status => exact .ok ⟨pos, .failed may.1, may.2⟩
      | outOfBounds => exact absurd may.1 id
      | outOfFuel => exact absurd may.1 id
  | getPosition =>
    rintro shand ⟨rfl, kept⟩
    exact .ok ⟨shand.pos, .getPosition, rfl, kept⟩
  | setPosition position =>
    rintro shand ⟨rfl, kept⟩
    by_cases last : position = 0xFFFFFFFFFFFFFFFF
    · have here : position.toNat = 2 ^ 64 - 1 := by
        rw [last]
        rfl
      exact .ok ⟨file.env.size, .toEnd here, if_neg (not_not.mpr last), kept⟩
    · have inside : position.toNat ≠ 2 ^ 64 - 1 := fun same => last (UInt64.toNat_inj.mp same)
      exact .ok ⟨position.toNat, .setPosition inside, if_pos last, kept⟩

theorem answers_does (enough : 2 ^ 32 ≤ fuel) (calls : List Call) (pos : Nat) :
    Does (file.At pos) (answers file.env fuel calls) (Behind file calls pos) fun _ _ => False := by
  induction calls generalizing pos with
  | nil =>
    rw [answers, List.mapM_nil]
    exact does_pure fun shand at' => ⟨pos, .nil, at'⟩
  | cons call calls ih =>
    rw [answers, List.mapM_cons]
    refine (answer_does enough call pos).bind fun reply => ?_
    rintro shand ⟨pos', first, at'⟩
    refine ((ih pos').bind fun replies => does_pure ?_) shand at'
    rintro shand' ⟨pos'', rest, at''⟩
    exact ⟨pos'', .cons first rest, at''⟩

/-- A run of calls from a position on. -/
theorem answers_from (enough : 2 ^ 32 ≤ fuel) (calls : List Call) {pos : Nat} {shand : FswShandle}
    (at' : file.At pos shand) :
    ∃ replies pos', (answers file.env fuel calls shand).1 = .ok replies ∧ Answers file pos calls replies pos' ∧
      (answers file.env fuel calls shand).2.pos = pos' := by
  have outcome := answers_does enough calls pos shand at'
  generalize answers file.env fuel calls shand = run at outcome ⊢
  obtain ⟨out, left⟩ := run
  dsimp only at outcome ⊢
  cases outcome with
  | ok right =>
    obtain ⟨pos', answered, last, _⟩ := right
    exact ⟨_, pos', rfl, answered, last⟩
  | error may => exact absurd may id

/-- A handle as `fsw_shandle_open` leaves it. -/
def opened (extent : FswExtent) : FswShandle := { pos := 0, extent := { extent with type := .invalid } }

theorem at_opened (file : TameFile) (extent : FswExtent) : file.At 0 (opened extent) := ⟨rfl, .inl rfl⟩

/-- A file of three bytes in one block. -/
def sampleFile : TameFile where
  env :=
    { logBlocksize := 512
      physBlocksize := 512
      size := 3
      blockGet := fun bno => if bno = 7 then .ok ([0, 1, 2] ++ List.replicate 509 0) else .error .ioError
      getExtent := fun _ =>
        (none, { type := .physblock, logStart := 0, logCount := 1, physStart := 7, buffer := [] }) }
  content := UInt8.ofNat
  size_lt := by decide
  blocksize_pos := by decide
  physical := ⟨9, by decide⟩
  divides := by decide
  reports logBno inside := by
    have small : logBno * 512 < 3 := inside
    have count : (1 : UInt32).toNat = 1 := by decide
    refine ⟨by decide, ⟨Nat.zero_le _, ?_⟩, ?_⟩
    · dsimp only
      omega
    · intro x below _ _ block read
      have few : x < 3 := below
      obtain rfl : [0, 1, 2] ++ List.replicate 509 0 = block := by
        interval_cases x <;> exact Except.ok.inj read
      interval_cases x <;> rfl
  fails _ := False
  tame _ _ := by
    refine ⟨fun other => absurd rfl other, fun _ x below _ _ status read => ?_⟩
    have few : x < 3 := below
    interval_cases x <;> cases read

end Meridian.Fsw.FileProtocol
