import Meridian.Fsw.Bytes

/-!
# Keys of a bcachefs B-tree

The model of the positions, the key formats and `bcachefs_unpack_key` of
`filesystems/fsw_bcachefs.c`. A pointer is a position in its buffer.
-/

namespace Meridian.Bcachefs

open Fsw

/-- `bcachefs_pos`. -/
structure Pos where
  inode : Nat
  offset : Nat
  snapshot : Nat
  deriving DecidableEq, Repr

def bcachefsPosCmp (a b : Pos) : Int :=
  if a.inode < b.inode then -1
  else if a.inode > b.inode then 1
  else if a.offset < b.offset then -1
  else if a.offset > b.offset then 1
  else if a.snapshot < b.snapshot then -1
  else if a.snapshot > b.snapshot then 1
  else 0

/-- `bcachefs_key`. -/
structure Key where
  u64s : Nat
  format : Nat
  type : Nat
  size : Nat
  p : Pos
  deriving DecidableEq, Repr

/-- `bcachefs_bkey_format`, with the six fields' widths and offsets. -/
structure BkeyFormat where
  keyU64s : Nat
  nrFields : Nat
  bitsPerField : List Nat
  fieldOffset : List Nat
  deriving DecidableEq, Repr

def keyFormatLocal : Nat := 0
def keyFormatCurrent : Nat := 1
def bkeyU64s : Nat := 5

def keyTypeDeleted : Nat := 0
def keyTypeWhiteout : Nat := 1
def keyTypeHashWhiteout : Nat := 4
def keyTypeBtreePtr : Nat := 5
def keyTypeExtent : Nat := 6
def keyTypeDirent : Nat := 10
def keyTypeReflinkP : Nat := 15
def keyTypeReflinkV : Nat := 16
def keyTypeBtreePtrV2 : Nat := 18

def bcachefsReadFormat (buf : List UInt8) (p : Nat) : FswM BkeyFormat := do
  let keyU64s ← le buf p 1
  let nrFields ← le buf (p + 1) 1
  let bitsPerField ← (List.range 6).mapM fun i => le buf (p + 2 + i) 1
  let fieldOffset ← (List.range 6).mapM fun i => le buf (p + 8 + i * 8) 8
  pure { keyU64s, nrFields, bitsPerField, fieldOffset }

def bcachefsCurrentFormat : BkeyFormat where
  keyU64s := bkeyU64s
  nrFields := 6
  bitsPerField := [64, 64, 32, 32, 32, 64]
  fieldOffset := [0, 0, 0, 0, 0, 0]

/-! ### Packed keys -/

/-- The variables of the loop over the fields. -/
structure BitState where
  word : Int
  w : Nat
  bitsLeft : Nat

def wordAt (words : List Nat) (word : Int) : Nat := if word ≥ 0 then words.getD word.toNat 0 else 0

/-- One field of a packed key, for a width of at most 64 bits. -/
def unpackField (words : List Nat) (st : BitState) (bits offset : Nat) : Nat × BitState :=
  let (v, bits, st) :=
    if bits ≥ st.bitsLeft then
      (if bits ≠ 0 then st.w >>> (64 - bits) else 0, bits - st.bitsLeft,
        { word := st.word - 1, w := wordAt words (st.word - 1), bitsLeft := 64 : BitState })
    else (0, bits, st)
  let (v, st) :=
    if bits ≠ 0 then
      (v ||| (st.w >>> 1) >>> (63 - bits),
        { st with w := u64 (st.w <<< bits), bitsLeft := st.bitsLeft - bits })
    else (v, st)
  (u64 (v + offset), st)

def unpackFields (words : List Nat) (st : BitState) : List (Nat × Nat) → FswM (List Nat)
  | [] => .ok []
  | (bits, offset) :: fields =>
    if bits > 64 then fail .volumeCorrupted
    else do
      let (value, st) := unpackField words st bits offset
      let rest ← unpackFields words st fields
      pure (value :: rest)

/-- The key at a position, and the number of bytes before its value. -/
def bcachefsUnpackKey (buf : List UInt8) (p : Nat) (format : BkeyFormat) (fin : Nat) :
    FswM (Key × Nat) :=
  let buf := buf.take fin
  if p + 8 > fin then fail .volumeCorrupted
  else do
    let u64s ← le buf p 1
    let formatByte ← le buf (p + 1) 1
    let type ← le buf (p + 2) 1
    let keyFormat := formatByte % 128
    if u64s = 0 ∨ p + u64s * 8 > fin then fail .volumeCorrupted
    else if keyFormat = keyFormatCurrent then
      if u64s < bkeyU64s then fail .volumeCorrupted
      else do
        let size ← le buf (p + 16) 4
        let snapshot ← le buf (p + 20) 4
        let offset ← le buf (p + 24) 8
        let inode ← le buf (p + 32) 8
        pure ({ u64s, format := keyFormat, type, size, p := { inode, offset, snapshot } },
          bkeyU64s * 8)
    else if keyFormat ≠ keyFormatLocal ∨ format.keyU64s = 0 ∨ format.keyU64s > 8 ∨
        format.nrFields ≠ 6 ∨ u64s < format.keyU64s then fail .volumeCorrupted
    else do
      let words ← (List.range format.keyU64s).mapM fun i => le buf (p + i * 8) 8
      let word : Int := (format.keyU64s - 1 : Nat)
      let vals ← unpackFields words { word, w := wordAt words word, bitsLeft := 64 }
        (format.bitsPerField.zip format.fieldOffset)
      pure ({
        u64s
        format := keyFormat
        type
        size := u32 (vals.getD 3 0)
        p := {
          inode := vals.getD 0 0, offset := vals.getD 1 0, snapshot := u32 (vals.getD 2 0) } },
        format.keyU64s * 8)

def bcachefsKeyIsDeleted (key : Key) : Bool :=
  key.type = keyTypeDeleted || key.type = keyTypeWhiteout || key.type = keyTypeHashWhiteout

end Meridian.Bcachefs
