import Mathlib.Data.List.Basic

/-!
# Reading lines of a file

The model of `ReadLine` and of the end of `MeridianReadFile` of `config/config_file.c`. Pointers into
the loaded buffer are offsets from its start, and a read of a byte or of a character of two bytes has a
value only inside the buffer. Allocations succeed.
-/

namespace Meridian.Config

abbrev Char16 := UInt16

inductive Encoding where
  | iso8859_1 | utf8 | utf16LE
  deriving DecidableEq, Repr

/-- `MERIDIAN_FILE`. -/
structure MeridianFile where
  bufferData : Option (List UInt8)
  encoding : Encoding
  current08 : Nat
  end08 : Nat
  current16 : Nat
  end16 : Nat

/-! ### Units of the buffer -/

def read08 (data : List UInt8) (p : Nat) : Option UInt8 := data[p]?

def read16 (data : List UInt8) (p : Nat) : Option Char16 :=
  match data[p]?, data[p + 1]? with
  | some low, some high => some (UInt16.ofNat (low.toNat + 256 * high.toNat))
  | _, _ => none

def isLineEnd08 (c : UInt8) : Bool := c == 13 || c == 10

def isLineEnd16 (c : Char16) : Bool := c == 13 || c == 10

/-- A `CHAR8` as a `CHAR16`, on a target where `char` is signed or not. -/
def widen (signed : Bool) (c : UInt8) : Char16 :=
  if signed && decide (c ≥ 128) then UInt16.ofNat (0xFF00 + c.toNat) else UInt16.ofNat c.toNat

/-! ### A line -/

variable {α : Type}

/-- `for (; p < End; p++) if (found) break;`, in steps of the unit's width. -/
def scan (unit : Nat → Option α) (width stop : Nat) (found : α → Bool) : Nat → Nat → Option Nat
  | 0, p => some p
  | fuel + 1, p =>
    if p < stop then
      match unit p with
      | none => none
      | some c => if found c then some p else scan unit width stop found fuel (p + width)
    else some p

/-- `while (p < LineEnd) *q++ = *p++;`. -/
def copyLine (unit : Nat → Option α) (width lineEnd : Nat) : Nat → Nat → Option (List α)
  | 0, _ => some []
  | fuel + 1, p =>
    if p < lineEnd then
      match unit p with
      | none => none
      | some c => (copyLine unit width lineEnd fuel (p + width)).map (c :: ·)
    else some []

/-- The line at the current position and the position behind the line ends that follow it. The result
is `none` where a read is outside the buffer. -/
def lineFrom (unit : Nat → Option α) (width stop : Nat) (isLineEnd : α → Bool) (current : Nat) :
    Option (Option (List α × Nat)) :=
  if current ≥ stop then some none
  else
    match scan unit width stop isLineEnd (stop - current) current with
    | none => none
    | some lineEnd =>
      match scan unit width stop (!isLineEnd ·) (stop - lineEnd) lineEnd with
      | none => none
      | some next => (copyLine unit width lineEnd (lineEnd - current) current).map fun line => some (line, next)

def MeridianFile.readLine (signed : Bool) (file : MeridianFile) : Option (MeridianFile × Option (List Char16)) :=
  match file.bufferData, file.encoding with
  | none, _ => some (file, none)
  | some data, .utf16LE =>
    (lineFrom (read16 data) 2 file.end16 isLineEnd16 file.current16).map fun
      | none => (file, none)
      | some (line, next) => ({ file with current16 := next }, some line)
  | some data, _ =>
    (lineFrom (read08 data) 1 file.end08 isLineEnd08 file.current08).map fun
      | none => (file, none)
      | some (line, next) => ({ file with current08 := next }, some (line.map (widen signed)))

/-- The file as it is loaded: without a mark it is read as UTF-8. -/
def meridianReadFile (data : List UInt8) : MeridianFile :=
  let file : MeridianFile := {
    bufferData := some data
    encoding := .utf8
    current08 := 0
    end08 := data.length
    current16 := 0
    end16 := data.length / 2 }
  if data[0]? = some 0xFF ∧ data[1]? = some 0xFE then
    { file with encoding := .utf16LE, current16 := 2, end16 := data.length }
  else file

/-- Lines until there is no more: `none` if a read leaves the buffer or the calls are too few. -/
def readLines (signed : Bool) : Nat → MeridianFile → Option (List (List Char16))
  | 0, _ => none
  | calls + 1, file =>
    match file.readLine signed with
    | none => none
    | some (_, none) => some []
    | some (file, some line) => (readLines signed calls file).map (line :: ·)

end Meridian.Config
