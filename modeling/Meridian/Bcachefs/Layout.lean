import Meridian.Bcachefs.InBounds
import Meridian.Lib.Word

/-!
# What a node holds

A node on the disk is a format and a series of bsets, each on blocks of its own, and a bset is a
series of packed keys with their values. The walk over a well-formed node takes its entries in order.
-/

namespace Meridian.Bcachefs

open Fsw Lib.Result

/-- The keys from a position of a bset on to its end. -/
inductive KeysAt (node : List UInt8) (format : BkeyFormat) (fin : Nat) :
    Nat → List LookupResult → Prop where
  | done : KeysAt node format fin fin []
  | key {p keyBytes : Nat} {key : Key} {entries : List LookupResult}
      (unpacked : bcachefsUnpackKey node p format fin = .ok (key, keyBytes))
      (long : keyBytes ≤ key.u64s * 8)
      (rest : KeysAt node format fin (p + key.u64s * 8) entries) :
      KeysAt node format fin p
        ({ key, value := (node.drop (p + keyBytes)).take (key.u64s * 8 - keyBytes) } :: entries)

/-- The first bset follows the node's header, and each other one a header of its own. -/
def bsetStart (written : Nat) : Nat := if written = 0 then 136 else written * sectorSize + 16

/-- The sectors of the blocks for a number of bytes. -/
def blockSectors (vol : Volume) (bytes : Nat) : Nat :=
  (bytes + vol.blockBytes - 1) / vol.blockBytes * vol.blockSizeSectors

/-- The bsets from a sector of a node on. The last one that belongs to the node is followed by the
node's end, or by a block of another node. -/
inductive BsetsAt (vol : Volume) (node : List UInt8) (format : BkeyFormat) (seq sectors : Nat) :
    Nat → List (List LookupResult) → Prop where
  | full {written : Nat} (full : sectors ≤ written) :
      BsetsAt vol node format seq sectors written []
  | stale {written other : Nat} (before : written < sectors) (later : written ≠ 0)
      (read : le node (bsetStart written) 8 = .ok other) (foreign : other ≠ seq) :
      BsetsAt vol node format seq sectors written []
  | bset {written u64s : Nat} {entries : List LookupResult} {bsets : List (List LookupResult)}
      (before : written < sectors) (mine : le node (bsetStart written) 8 = .ok seq)
      (sized : le node (bsetStart written + 22) 2 = .ok u64s)
      (fits : bsetStart written + 24 + u64s * 8 ≤ sectors * sectorSize)
      (keys : KeysAt node format (bsetStart written + 24 + u64s * 8) (bsetStart written + 24) entries)
      (rest : BsetsAt vol node format seq sectors
        (written + blockSectors vol (bsetStart written + 24 + u64s * 8 - written * sectorSize)) bsets) :
      BsetsAt vol node format seq sectors written (entries :: bsets)

/-- A block is a power of two of sectors. -/
structure Volume.Sound (vol : Volume) : Prop where
  bytes : vol.blockBytes = vol.blockSizeSectors * sectorSize
  power : ∃ k < 16, vol.blockSizeSectors = 2 ^ k

def nodeSectors (vol : Volume) (ptr : BtreePtr) : Nat :=
  if ptr.sectorsWritten ≠ 0 then ptr.sectorsWritten else vol.btreeNodeSectors

/-- The bsets of the node that a pointer leads to, the keys of each in order. -/
inductive NodeAt (blocks : Blocks) (vol : Volume) (ptr : BtreePtr) :
    List (List LookupResult) → Prop where
  | mk {node : List UInt8} {format : BkeyFormat} {seq : Nat} {bsets : List (List LookupResult)}
      (sound : vol.Sound) (few : nodeSectors vol ptr ≤ vol.btreeNodeSectors)
      (loaded : bcachefsReadSectors blocks ptr.offset (nodeSectors vol ptr) = .ok node)
      (packed : bcachefsReadFormat node 80 = .ok format)
      (words : format.keyU64s ≠ 0 ∧ format.keyU64s ≤ 8) (stamp : le node 136 8 = .ok seq)
      (stored : BsetsAt vol node format seq (nodeSectors vol ptr) 0 bsets)
      (sorted : ∀ entries ∈ bsets, entries.Pairwise fun e e' => bcachefsPosCmp e.key.p e'.key.p ≤ 0) :
      NodeAt blocks vol ptr bsets

/-! ### The walk takes the entries in order -/

variable {σ : Type} {blocks : Blocks} {vol : Volume} {ptr : BtreePtr} {node : List UInt8}
  {format : BkeyFormat} {fin p sectors seq written fuel : Nat} {entries : List LookupResult}
  {bsets : List (List LookupResult)}

theorem keysAt_le (keys : KeysAt node format fin p entries) : p ≤ fin := by
  cases keys with
  | done => exact Nat.le_refl _
  | key unpacked long rest =>
    have bounded := (unpackKey_ok unpacked).2.2
    omega

/-- An entry of a node is a key that was unpacked, with the bytes that its length leaves. -/
def Unpacked (entry : LookupResult) : Prop :=
  (∃ (node : List UInt8) (format : BkeyFormat) (fin p keyBytes : Nat),
    bcachefsUnpackKey node p format fin = .ok (entry.key, keyBytes)) ∧
  entry.value.length ≤ entry.key.u64s * 8

theorem keysAt_unpacked (keys : KeysAt node format fin p entries) :
    ∀ entry ∈ entries, Unpacked entry := by
  induction keys with
  | done => exact nofun
  | @key p keyBytes key entries unpacked long rest ih =>
    intro entry mem
    rcases List.mem_cons.mp mem with rfl | mem
    · refine ⟨⟨node, format, fin, p, keyBytes, unpacked⟩, ?_⟩
      rw [List.length_take]
      exact Nat.le_trans (Nat.min_le_left _ _) (Nat.sub_le _ _)
    · exact ih entry mem

theorem bsetsAt_unpacked (stored : BsetsAt vol node format seq sectors written bsets) :
    ∀ entry ∈ bsets.flatten, Unpacked entry := by
  induction stored with
  | full full => exact nofun
  | stale before later read foreign => exact nofun
  | bset before mine sized fits keys rest ih =>
    intro entry mem
    rw [List.flatten_cons] at mem
    rcases List.mem_append.mp mem with mem | mem
    · exact keysAt_unpacked keys entry mem
    · exact ih entry mem

theorem nodeAt_unpacked (held : NodeAt blocks vol ptr bsets) :
    ∀ entry ∈ bsets.flatten, Unpacked entry := by
  obtain ⟨sound, few, loaded, packed, words, stamp, stored, sorted⟩ := held
  exact bsetsAt_unpacked stored

theorem Unpacked.value {entry : LookupResult} (unpacked : Unpacked entry) :
    entry.value.length ≤ maxValueBytes := by
  obtain ⟨⟨node, format, fin, p, keyBytes, run⟩, short⟩ := unpacked
  have small := (unpackKey_ok run).2.1
  have most : maxValueBytes = 2048 := rfl
  omega

theorem keyLoop_eq (step : σ → Key → List UInt8 → FswM σ) (inside : fin ≤ node.length)
    (keys : KeysAt node format fin p entries) (enough : fin ≤ p + 8 * fuel) (s : σ) :
    keyLoop step node format fin fuel p s =
      entries.foldlM (fun s entry => step s entry.key entry.value) s := by
  induction keys generalizing fuel s with
  | done =>
    cases fuel with
    | zero => rw [keyLoop, if_neg (Nat.lt_irrefl _)]; rfl
    | succ fuel => rw [keyLoop, if_neg (Nat.lt_irrefl _)]; rfl
  | @key p keyBytes key entries unpacked long rest ih =>
    obtain ⟨positive, _, bounded⟩ := unpackKey_ok unpacked
    cases fuel with
    | zero => omega
    | succ fuel =>
      have value : bytesAt (node.take fin) (p + keyBytes) (key.u64s * 8 - keyBytes) =
          .ok ((node.drop (p + keyBytes)).take (key.u64s * 8 - keyBytes)) := by
        rw [bytesAt_ok]
        · rw [List.drop_take, List.take_take, Nat.min_eq_left (by omega)]
        · rw [List.length_take]
          omega
      rw [keyLoop, if_pos (by omega), unpacked]
      show (if key.u64s * 8 < keyBytes then fail .volumeCorrupted
        else bytesAt (node.take fin) (p + keyBytes) (key.u64s * 8 - keyBytes) >>= fun value =>
          step s key value >>= fun s => keyLoop step node format fin fuel (p + key.u64s * 8) s) = _
      rw [if_neg (by omega), value, List.foldlM_cons]
      show (step s key _ >>= fun s => keyLoop step node format fin fuel (p + key.u64s * 8) s) = _
      congr 1
      funext s'
      exact ih (by omega) s'

theorem sectorBytes (n : Nat) : n * sectorSize = 512 * n := Nat.mul_comm n 512

theorem roundUp_eq (sound : vol.Sound) {bytes : Nat} (small : bytes < 2 ^ 31) :
    bcachefsRoundUp bytes vol.blockBytes / sectorSize = blockSectors vol bytes := by
  obtain ⟨k, low, power⟩ := sound.power
  have blockBytes : vol.blockBytes = 2 ^ (k + 9) := by
    rw [sound.bytes, power, Nat.pow_add]
    rfl
  have most : 2 ^ (k + 9) ≤ 2 ^ 24 := Nat.pow_le_pow_right (by decide) (by omega)
  have least : 2 ^ 9 ≤ 2 ^ (k + 9) := Nat.pow_le_pow_right (by decide) (by omega)
  have mask : 2 ^ 32 - 1 - u32 (2 ^ (k + 9) + (2 ^ 32 - 1)) = 2 ^ 32 - 2 ^ (k + 9) := by
    rw [u32]
    omega
  have sum : u32 (bytes + 2 ^ (k + 9) + (2 ^ 32 - 1)) = bytes + 2 ^ (k + 9) - 1 := by
    rw [u32]
    omega
  have cleared : bcachefsRoundUp bytes (2 ^ (k + 9)) =
      (bytes + 2 ^ (k + 9) - 1) / 2 ^ (k + 9) * 2 ^ (k + 9) := by
    rw [bcachefsRoundUp, mask, sum]
    exact Lib.Word.clearLow_eq (by omega) (by omega)
  rw [blockBytes, cleared, blockSectors, blockBytes, power, Nat.pow_add, sectorSize,
    ← Nat.mul_assoc]
  exact Nat.mul_div_cancel _ (by decide)

theorem blockSectors_pos (sound : vol.Sound) {bytes : Nat} (positive : 0 < bytes) :
    0 < blockSectors vol bytes := by
  obtain ⟨k, low, power⟩ := sound.power
  have size : 0 < vol.blockSizeSectors := by
    rw [power]
    exact Nat.two_pow_pos k
  have blockBytes : 0 < vol.blockBytes := by
    rw [sound.bytes, sectorSize]
    omega
  exact Nat.mul_pos (Nat.div_pos (by omega) blockBytes) size

theorem blockSectors_lt (sound : vol.Sound) {bytes : Nat} (small : bytes < 2 ^ 22) :
    blockSectors vol bytes < 2 ^ 31 := by
  obtain ⟨k, low, power⟩ := sound.power
  have most : 2 ^ k ≤ 2 ^ 15 := Nat.pow_le_pow_right (by decide) (by omega)
  have units := Nat.div_mul_le_self (bytes + vol.blockBytes - 1) vol.blockBytes
  have fewer : blockSectors vol bytes ≤ bytes + vol.blockBytes - 1 := by
    apply Nat.le_trans (Nat.mul_le_mul_left _ _) units
    rw [sound.bytes, sectorSize]
    omega
  rw [sound.bytes, sectorSize, power] at fewer
  omega

theorem bsetHeader_later (few : sectors ≤ maxNodeSectors) (before : written < sectors)
    (later : written ≠ 0) {other : Nat} (read : le node (bsetStart written) 8 = .ok other) :
    bsetHeader node (sectors * sectorSize) seq written =
      .ok (if other ≠ seq then none else some (bsetStart written, bsetStart written + 24)) := by
  have most : maxNodeSectors = 2048 := rfl
  have whole := sectorBytes sectors
  have place := sectorBytes written
  have start : bsetStart written = written * sectorSize + 16 := if_neg later
  have sector : u32 (written * sectorSize) = written * sectorSize := u32_eq (by omega)
  have header : u32 (written * sectorSize + 16) = bsetStart written := by
    rw [u32_eq (by omega), start]
  have keys : u32 (written * sectorSize + 40) = bsetStart written + 24 := by
    rw [u32_eq (by omega), start]
  rw [bsetHeader, sector, if_neg later, keys, header, read, if_neg (by omega)]
  rfl

theorem bsetHeader_first (first : written = 0) (bytes : Nat) :
    bsetHeader node bytes seq written = .ok (some (bsetStart written, bsetStart written + 24)) := by
  rw [first]
  rfl

theorem bsetAt_stale (few : sectors ≤ maxNodeSectors) (before : written < sectors)
    (later : written ≠ 0) {other : Nat} (read : le node (bsetStart written) 8 = .ok other)
    (foreign : other ≠ seq) : bsetAt node (sectors * sectorSize) seq written = .ok none := by
  rw [bsetAt, bsetHeader_later few before later read, if_pos foreign]
  rfl

theorem bsetAt_mine (few : sectors ≤ maxNodeSectors) (before : written < sectors)
    (read : le node (bsetStart written) 8 = .ok seq)
    (fits : bsetStart written + 24 ≤ sectors * sectorSize) :
    bsetAt node (sectors * sectorSize) seq written =
      .ok (some (bsetStart written, bsetStart written + 24)) := by
  have most : maxNodeSectors = 2048 := rfl
  have whole := sectorBytes sectors
  have header : bsetHeader node (sectors * sectorSize) seq written =
      .ok (some (bsetStart written, bsetStart written + 24)) := by
    by_cases first : written = 0
    · exact bsetHeader_first first _
    · rw [bsetHeader_later few before first read, if_neg fun impossible => impossible rfl]
  rw [bsetAt, header]
  show Except.ok (if u32 (bsetStart written + 24) > sectors * sectorSize then none else _) = _
  rw [u32_eq (by omega), if_neg (by omega)]

theorem bsetLoop_eq (step : σ → Key → List UInt8 → FswM σ) (sound : vol.Sound)
    (loaded : node.length = sectors * sectorSize) (few : sectors ≤ maxNodeSectors)
    (stored : BsetsAt vol node format seq sectors written bsets)
    (enough : sectors ≤ written + fuel) (s : σ) :
    bsetLoop step node format vol.blockBytes sectors (sectors * sectorSize) seq fuel written s =
      bsets.flatten.foldlM (fun s entry => step s entry.key entry.value) s := by
  have most : maxNodeSectors = 2048 := rfl
  have whole := sectorBytes sectors
  induction stored generalizing fuel s with
  | full full =>
    cases fuel with
    | zero => rw [bsetLoop, if_neg (by omega)]; rfl
    | succ fuel => rw [bsetLoop, if_neg (by omega)]; rfl
  | stale before later read foreign =>
    cases fuel with
    | zero => omega
    | succ fuel =>
      rw [bsetLoop, if_pos before, bsetAt_stale few before later read foreign]
      rfl
  | @bset written u64s entries bsets before mine sized fits keys rest ih =>
    cases fuel with
    | zero => omega
    | succ fuel =>
      have place := sectorBytes written
      have hbase : u32 (written * sectorSize) = written * sectorSize := u32_eq (by omega)
      have behind : written * sectorSize < bsetStart written + 24 := by
        rw [bsetStart]
        split
        · omega
        · omega
      have count : u32 (bsetStart written + 22) = bsetStart written + 22 := u32_eq (by omega)
      have limit : u32 (bsetStart written + 24 + u64s * 8) = bsetStart written + 24 + u64s * 8 :=
        u32_eq (by omega)
      have length : u32 (u32 (bsetStart written + 24 + (2 ^ 32 - written * sectorSize)) + u64s * 8) =
          bsetStart written + 24 + u64s * 8 - written * sectorSize := by
        rw [u32, u32]
        omega
      have next := blockSectors_pos sound
        (show 0 < bsetStart written + 24 + u64s * 8 - written * sectorSize by omega)
      have small := blockSectors_lt sound
        (show bsetStart written + 24 + u64s * 8 - written * sectorSize < 2 ^ 22 by omega)
      have walked := keyLoop_eq step (by omega) keys
        (show bsetStart written + 24 + u64s * 8 ≤ bsetStart written + 24 + 8 * u64s by omega)
      rw [bsetLoop, if_pos before, bsetAt_mine few before mine (by omega)]
      show (le node (u32 (bsetStart written + 22)) 2 >>= fun u64s => _) = _
      rw [count, sized]
      show (if u32 (bsetStart written + 24 + u64s * 8) > sectors * sectorSize
        then fail .volumeCorrupted else _) = _
      rw [limit, if_neg (by omega), walked, List.flatten_cons, List.foldlM_append, hbase]
      congr 1
      funext s'
      dsimp only
      rw [length, roundUp_eq sound (by omega), if_neg (by omega), u32_eq (by omega)]
      exact ih (by omega) s'

/-- The walk over a node takes its entries in order, from the oldest bset to the newest. -/
theorem walkNode_eq (step : σ → Key → List UInt8 → FswM σ) (held : NodeAt blocks vol ptr bsets)
    (s : σ) :
    walkNode step blocks vol ptr s =
      bsets.flatten.foldlM (fun s entry => step s entry.key entry.value) s := by
  obtain ⟨sound, few, loaded, packed, words, stamp, stored, sorted⟩ := held
  rename_i node format seq
  obtain ⟨positive, most, size⟩ := readSectors_ok loaded
  have limit : maxNodeSectors = 2048 := rfl
  have whole := sectorBytes (nodeSectors vol ptr)
  have bytes : u32 (nodeSectors vol ptr * sectorSize) = nodeSectors vol ptr * sectorSize :=
    u32_eq (by omega)
  have walked := bsetLoop_eq step sound size most stored
    (show nodeSectors vol ptr ≤ 0 + nodeSectors vol ptr by omega) s
  rw [walkNode, ← nodeSectors, if_neg (by omega), loaded]
  show (if u32 (nodeSectors vol ptr * sectorSize) < 160 then fail .volumeCorrupted else _) = _
  rw [bytes, if_neg (by omega), packed]
  show (if format.keyU64s = 0 ∨ format.keyU64s > 8 then fail .volumeCorrupted else _) = _
  rw [if_neg (by omega), stamp]
  exact walked

end Meridian.Bcachefs
