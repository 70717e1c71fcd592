import Meridian.Bcachefs.Values

/-!
# The sector of an extent

The value of an extent is a stream of checksum entries and pointers. A checksum entry says how far into
the stored extent its live data starts, for the pointers behind it. The sector that is reported is that
of the first pointer, which is the data's only if the last checksum entry before it has no such offset.
-/

namespace Meridian.Bcachefs

open Fsw Lib.Codec Lib.Result

variable {blocks : Blocks} {vol : Volume}

/-! ### The entries -/

/-- `bch_extent_crc32`, `bch_extent_crc64` and `bch_extent_crc128`, the fields in the first word. -/
inductive CrcEntry where
  | crc32 (word : UInt64)
  | crc64 (word checksum : UInt64)
  | crc128 (word low high : UInt64)

def word (w : UInt64) : List UInt8 := toLe 8 w.toNat

namespace CrcEntry

def bytes : CrcEntry → List UInt8
  | crc32 w => word w
  | crc64 w checksum => word w ++ word checksum
  | crc128 w low high => word w ++ (word low ++ word high)

/-- The type is the place of the lowest bit that is set. -/
def Tagged : CrcEntry → Prop
  | crc32 w => w.toNat &&& 1 = 0 ∧ w.toNat &&& 2 ≠ 0
  | crc64 w _ => w.toNat &&& 1 = 0 ∧ w.toNat &&& 2 = 0 ∧ w.toNat &&& 4 ≠ 0
  | crc128 w _ _ => w.toNat &&& 1 = 0 ∧ w.toNat &&& 2 = 0 ∧ w.toNat &&& 4 = 0 ∧ w.toNat &&& 8 ≠ 0

def compression : CrcEntry → Nat
  | crc32 w => (w.toNat >>> 28) &&& 0xf
  | crc64 w _ => (w.toNat >>> 44) &&& 0xf
  | crc128 w _ _ => (w.toNat >>> 60) &&& 0xf

/-- Where the live data starts, in bits 16 to 22, 21 to 29 or 30 to 42. -/
def offset : CrcEntry → Nat
  | crc32 w => (w.toNat >>> 16) &&& 0x7f
  | crc64 w _ => (w.toNat >>> 21) &&& 0x1ff
  | crc128 w _ _ => (w.toNat >>> 30) &&& 0x1fff

end CrcEntry

/-- The sector of a pointer, in bits 4 to 47. -/
def ptrOffset (ptr : UInt64) : Nat := (ptr.toNat >>> 4) &&& 0x0fffffffffff

/-- The pointer is cached or unwritten, or to another device. -/
def Refused (ptr : UInt64) : Prop :=
  (ptr.toNat >>> 1) &&& 1 ≠ 0 ∨ (ptr.toNat >>> 3) &&& 1 ≠ 0 ∨ (ptr.toNat >>> 48) &&& 0xff ≠ 0

instance (ptr : UInt64) : Decidable (Refused ptr) := by
  unfold Refused
  infer_instance

/-- The offset of the last checksum entry, zero if there is none. -/
def crcOffset (crcs : List CrcEntry) : Nat := (crcs.getLast?.map CrcEntry.offset).getD 0

/-- A value without compression: the entries up to the first pointer, and whatever is behind it. -/
structure PlainExtent (value : List UInt8) (crcs : List CrcEntry) (ptr : UInt64) : Prop where
  stream : ∃ rest, value = crcs.flatMap CrcEntry.bytes ++ (word ptr ++ rest)
  tagged : ∀ crc ∈ crcs, crc.Tagged
  plain : ∀ crc ∈ crcs, crc.compression = 0
  pointer : ptr.toNat &&& 1 ≠ 0

/-! ### Parsing the stream -/

@[simp] theorem length_word (w : UInt64) : (word w).length = 8 := length_toLe 8 _

theorem le_word (front rest : List UInt8) (w : UInt64) :
    le (front ++ (word w ++ rest)) front.length 8 = .ok w.toNat := by
  have inside : front.length + 8 ≤ (front ++ (word w ++ rest)).length := by simp
  have bytes : (word w ++ rest).take 8 = word w := List.take_left' (length_word w)
  have value : ofLe (word w) = w.toNat := ofLe_toLe w.toNat_lt
  rw [le, bytesAt_ok inside, List.drop_left, bytes]
  exact congrArg Except.ok value

/-- The words of an entry are passed, and the fuel is enough for the words that are left. -/
theorem extentLoop_crc {crc : CrcEntry} (tagged : crc.Tagged) (plain : crc.compression = 0) (front rest : List UInt8)
    (fuel : Nat) (short : (front ++ (crc.bytes ++ rest)).length < 2 ^ 31) :
    extentLoop (front ++ (crc.bytes ++ rest)) (fuel + 1) front.length =
      extentLoop (front ++ (crc.bytes ++ rest)) fuel (front.length + crc.bytes.length) := by
  cases crc with
  | crc32 w =>
    rw [CrcEntry.compression] at plain
    obtain ⟨notPtr, isCrc⟩ := tagged
    simp only [CrcEntry.bytes, List.length_append, length_word] at short ⊢
    rw [extentLoop, u32_eq (by omega), if_pos (by simp), le_word, ok_bind, if_neg (not_not.mpr notPtr), if_pos isCrc,
      if_neg (not_not.mpr plain)]
  | crc64 w checksum =>
    rw [CrcEntry.compression] at plain
    obtain ⟨notPtr, notCrc, isCrc⟩ := tagged
    simp only [CrcEntry.bytes, List.length_append, length_word, List.append_assoc] at short ⊢
    rw [extentLoop, u32_eq (by omega), if_pos (by simp), le_word, ok_bind, if_neg (not_not.mpr notPtr),
      if_neg (not_not.mpr notCrc), if_pos isCrc, if_neg (not_not.mpr plain), u32_eq (by omega)]
  | crc128 w low high =>
    rw [CrcEntry.compression] at plain
    obtain ⟨notPtr, notCrc, notCrc', isCrc⟩ := tagged
    simp only [CrcEntry.bytes, List.length_append, length_word, List.append_assoc] at short ⊢
    rw [extentLoop, u32_eq (by omega), if_pos (by simp), le_word, ok_bind, if_neg (not_not.mpr notPtr),
      if_neg (not_not.mpr notCrc), if_neg (not_not.mpr notCrc'), if_pos isCrc, if_neg (not_not.mpr plain),
      u32_eq (by omega)]

theorem crc_bytes_pos (crc : CrcEntry) : 8 ≤ crc.bytes.length := by
  cases crc with
  | crc32 w => simp [CrcEntry.bytes]
  | crc64 w checksum => simp [CrcEntry.bytes]
  | crc128 w low high => simp [CrcEntry.bytes]

/-- The checksum entries are passed, whatever their offsets are. -/
theorem extentLoop_stream {crcs : List CrcEntry} (tagged : ∀ crc ∈ crcs, crc.Tagged)
    (plain : ∀ crc ∈ crcs, crc.compression = 0) {ptr : UInt64} (pointer : ptr.toNat &&& 1 ≠ 0)
    (front rest : List UInt8) (fuel : Nat)
    (short : (front ++ (crcs.flatMap CrcEntry.bytes ++ (word ptr ++ rest))).length < 2 ^ 31)
    (enough : front.length + (crcs.flatMap CrcEntry.bytes).length < front.length + 8 * fuel) :
    extentLoop (front ++ (crcs.flatMap CrcEntry.bytes ++ (word ptr ++ rest))) fuel front.length =
      if Refused ptr then fail .unsupported else .ok (ptrOffset ptr) := by
  induction crcs generalizing front fuel with
  | nil =>
    obtain ⟨fuel, rfl⟩ : ∃ k, fuel = k + 1 := Nat.exists_eq_succ_of_ne_zero (by omega)
    simp only [List.flatMap_nil, List.nil_append, List.length_append, length_word] at short ⊢
    rw [extentLoop, u32_eq (by omega), if_pos (by simp), le_word, ok_bind, if_pos pointer]
    rfl
  | cons crc crcs ih =>
    have long := crc_bytes_pos crc
    simp only [List.flatMap_cons, List.length_append] at enough
    obtain ⟨fuel, rfl⟩ : ∃ k, fuel = k + 1 := Nat.exists_eq_succ_of_ne_zero (by omega)
    rw [List.flatMap_cons, List.append_assoc] at short ⊢
    rw [extentLoop_crc (tagged crc List.mem_cons_self) (plain crc List.mem_cons_self) front _ fuel short]
    rw [← List.append_assoc, ← List.length_append]
    rw [← List.append_assoc] at short
    apply ih (fun crc mem => tagged crc (List.mem_cons_of_mem _ mem))
      (fun crc mem => plain crc (List.mem_cons_of_mem _ mem)) (front ++ crc.bytes) fuel short
    rw [List.length_append]
    omega

/-- The first pointer is the one that is taken. -/
theorem parseExtentPtr_plain {value : List UInt8} {crcs : List CrcEntry} {ptr : UInt64}
    (extent : PlainExtent value crcs ptr) (short : value.length < 2 ^ 31) :
    bcachefsParseExtentPtr value = if Refused ptr then fail .unsupported else .ok (ptrOffset ptr) := by
  obtain ⟨⟨rest, rfl⟩, tagged, plain, pointer⟩ := extent
  rw [bcachefsParseExtentPtr]
  refine extentLoop_stream tagged plain pointer [] rest _ short ?_
  simp only [List.length_append, length_word, List.length_nil]
  omega

/-! ### The sector that is reported -/

/-- The extent that holds a sector of a file: its value, and how far into the extent the sector is. Behind a
reference it is the indirect extent that the reference leads to. -/
inductive ExtentOf (blocks : Blocks) (vol : Volume) (dnodeId sector : Nat) : List UInt8 → Nat → Prop where
  | direct {lookup : LookupResult}
      (looked : bcachefsBtreeLookup blocks vol btreeExtents
        { inode := dnodeId, offset := u64 (sector + 1), snapshot := 0 } = .ok lookup)
      (mine : lookup.key.p.inode = dnodeId) (type : lookup.key.type = keyTypeExtent)
      (size : lookup.key.size ≠ 0) (start : lookup.key.start ≤ sector) (fin : sector < lookup.key.p.offset) :
      ExtentOf blocks vol dnodeId sector lookup.value (sector - lookup.key.start)
  | indirect {lookup indirect : LookupResult} {idxFlags sector' : Nat}
      (looked : bcachefsBtreeLookup blocks vol btreeExtents
        { inode := dnodeId, offset := u64 (sector + 1), snapshot := 0 } = .ok lookup)
      (mine : lookup.key.p.inode = dnodeId) (type : lookup.key.type = keyTypeReflinkP)
      (size : lookup.key.size ≠ 0) (start : lookup.key.start ≤ sector) (fin : sector < lookup.key.p.offset)
      (long : 16 ≤ lookup.value.length) (idx : le lookup.value 0 8 = .ok idxFlags)
      (whole : (idxFlags >>> 56) &&& 1 = 0)
      (reflink : sector' = u64 ((idxFlags &&& 0x00ffffffffffffff) + (sector - lookup.key.start)))
      (looked' : bcachefsBtreeLookup blocks vol btreeReflink
        { inode := 0, offset := u64 (sector' + 1), snapshot := 0 } = .ok indirect)
      (type' : indirect.key.type = keyTypeReflinkV) (long' : 8 ≤ indirect.value.length)
      (start' : indirect.key.start ≤ sector') (fin' : sector' < indirect.key.p.offset) :
      ExtentOf blocks vol dnodeId sector (indirect.value.drop 8) (sector' - indirect.key.start)

variable {dnodeId sector distance : Nat} {value : List UInt8} {crcs : List CrcEntry} {ptr : UInt64}

theorem ExtentOf.bounds (extent : ExtentOf blocks vol dnodeId sector value distance) :
    value.length < 2 ^ 31 ∧ distance < 2 ^ 32 := by
  have most : maxValueBytes = 2048 := rfl
  cases extent with
  | direct looked mine type size start fin =>
    have found := btreeLookup_found looked
    have counted := left_of_start found.key fin start
    have value := found.value
    have width := found.key.size
    omega
  | indirect looked mine type size start fin long idx whole reflink looked' type' long' start' fin' =>
    have found := btreeLookup_found looked'
    have counted := left_of_start found.key fin' start'
    have value := found.value
    have width := found.key.size
    rw [List.length_drop]
    omega

/-- The extent's value is parsed, and the distance into the extent added. -/
theorem getExtent_eq (extent : ExtentOf blocks vol dnodeId sector value distance) :
    ∃ count, fswBcachefsGetExtent blocks vol dnodeId .file sector =
      bcachefsParseExtentPtr value >>= fun ptrOffset => pure (u64 (ptrOffset + distance), count) := by
  cases extent with
  | @direct lookup looked mine type size start fin =>
    refine ⟨u32 (lookup.key.p.offset - sector), ?_⟩
    rw [fswBcachefsGetExtent, if_neg (not_not.mpr rfl), looked, ok_bind, if_neg (not_not.mpr mine), if_pos type,
      bcachefsMapExtentValue, if_neg (by omega), if_neg (by omega)]
  | @indirect lookup indirect idxFlags sector' looked mine type size start fin long idx whole reflink looked' type' long'
      start' fin' =>
    have other : lookup.key.type ≠ keyTypeExtent := by
      rw [type]
      decide
    refine ⟨min (u32 (lookup.key.p.offset - sector)) (u32 (indirect.key.p.offset - sector')), ?_⟩
    rw [fswBcachefsGetExtent, if_neg (not_not.mpr rfl), looked, ok_bind, if_neg (not_not.mpr mine), if_neg other,
      if_pos type, bcachefsMapReflink, if_neg (by omega), if_neg (by omega), idx, ok_bind, if_neg (not_not.mpr whole)]
    dsimp only
    rw [← reflink, looked', ok_bind, if_neg (not_not.mpr type'), if_neg (by omega), if_neg (by omega)]

theorem ptrOffset_lt (ptr : UInt64) : ptrOffset ptr < 2 ^ 44 :=
  Nat.lt_of_le_of_lt Nat.and_le_right (by decide)

/-- For a sector of an extent without compression, the driver reports the sector of the first pointer and the
distance into the extent, or nothing. -/
theorem getExtent_plain (extent : ExtentOf blocks vol dnodeId sector value distance)
    (plain : PlainExtent value crcs ptr) :
    if Refused ptr then fswBcachefsGetExtent blocks vol dnodeId .file sector = fail .unsupported
    else ∃ count, fswBcachefsGetExtent blocks vol dnodeId .file sector = .ok (ptrOffset ptr + distance, count) := by
  obtain ⟨short, near⟩ := extent.bounds
  obtain ⟨count, eq⟩ := getExtent_eq extent
  have low := ptrOffset_lt ptr
  rw [eq, parseExtentPtr_plain plain short]
  split
  · rfl
  · refine ⟨count, ?_⟩
    rw [ok_bind, u64, Nat.mod_eq_of_lt (by omega)]
    rfl

/-- What is reported is the sector with the file's data just when the last checksum entry has no offset, or when
the pointer is refused and nothing is reported. -/
theorem getExtent_sector_iff (extent : ExtentOf blocks vol dnodeId sector value distance)
    (plain : PlainExtent value crcs ptr) :
    (∀ phys count, fswBcachefsGetExtent blocks vol dnodeId .file sector = .ok (phys, count) →
      phys = ptrOffset ptr + crcOffset crcs + distance) ↔ crcOffset crcs = 0 ∨ Refused ptr := by
  have reported := getExtent_plain extent plain
  split at reported
  · rename_i refused
    refine iff_of_true (fun phys count run => ?_) (Or.inr refused)
    cases reported.symm.trans run
  · rename_i accepted
    obtain ⟨count, run⟩ := reported
    constructor
    · intro right
      have same := right _ count run
      exact Or.inl (by omega)
    · rintro (zero | refused)
      · intro phys count' run'
        obtain rfl := (Prod.mk.inj (Except.ok.inj (run.symm.trans run'))).1
        rw [zero, Nat.add_zero]
      · exact absurd refused accepted

/-! ### An extent behind a checksum entry -/

/-- A key of a file's extent in the current format: eight sectors that end at the given one. -/
def extentKey (inode fin : UInt8) (value : List UInt8) : List UInt8 :=
  [5 + (value.length / 8).toUInt8, 1, 6] ++ List.replicate 13 0 ++ [8, 0, 0, 0, 0, 0, 0, 0] ++
    [fin, 0, 0, 0, 0, 0, 0, 0, inode, 0, 0, 0, 0, 0, 0, 0] ++ value

/-- A checksum entry with the given offset, and a pointer to sector 100. -/
def trimmedValue (offset : UInt64) : List UInt8 := word (2 + offset * 65536) ++ word 1601

def trimmedBlocks (offset : UInt64) : Blocks := fun _ => .ok (plainNode (extentKey 9 8 (trimmedValue offset)))

def extentVolume : Volume where
  blockSizeSectors := 1
  blockBytes := 512
  btreeNodeSectors := 1
  roots := [some maskedRoot]

def trimmedEntry (offset : UInt64) : LookupResult where
  key := { u64s := 7, format := 1, type := 6, size := 8, p := ⟨9, 8, 0⟩ }
  value := trimmedValue offset

theorem trimmedValue_plain : PlainExtent (trimmedValue 0) [.crc32 2] 1601 := by
  refine ⟨⟨[], by decide⟩, ?_, ?_, by decide⟩
  · intro crc mem
    obtain rfl := List.mem_singleton.mp mem
    exact ⟨by decide, by decide⟩
  · intro crc mem
    obtain rfl := List.mem_singleton.mp mem
    decide

theorem trimmed_extentOf : ExtentOf (trimmedBlocks 0) extentVolume 9 3 (trimmedEntry 0).value 3 :=
  @ExtentOf.direct _ _ _ _ (trimmedEntry 0) (by decide +kernel) rfl rfl (by decide) (by decide) (by decide)

theorem getExtent_sector_untrimmed :
    (∀ phys count, fswBcachefsGetExtent (trimmedBlocks 0) extentVolume 9 .file 3 = .ok (phys, count) →
      phys = ptrOffset 1601 + crcOffset [.crc32 2] + 3) ↔ crcOffset [.crc32 2] = 0 ∨ Refused 1601 :=
  getExtent_sector_iff trimmed_extentOf trimmedValue_plain

/-- The live data starts four sectors into what is stored at sector 100: sector 3 of the file is at 107, not
at 103. -/
theorem getExtent_sector_trimmed : ∃ crcs, crcOffset crcs = 4 ∧ PlainExtent (trimmedValue 4) crcs 1601 ∧
    ExtentOf (trimmedBlocks 4) extentVolume 9 3 (trimmedValue 4) 3 ∧
    fswBcachefsGetExtent (trimmedBlocks 4) extentVolume 9 .file 3 = .ok (103, 5) ∧
    103 ≠ ptrOffset 1601 + crcOffset crcs + 3 := by
  refine ⟨[.crc32 262146], by decide, ⟨⟨[], by decide⟩, ?_, ?_, by decide⟩, ?_, by decide +kernel, by decide⟩
  · intro crc mem
    obtain rfl := List.mem_singleton.mp mem
    exact ⟨by decide, by decide⟩
  · intro crc mem
    obtain rfl := List.mem_singleton.mp mem
    decide
  · exact @ExtentOf.direct _ _ _ _ (trimmedEntry 4) (by decide +kernel) rfl rfl (by decide) (by decide) (by decide)

end Meridian.Bcachefs
