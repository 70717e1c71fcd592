import Meridian.Bcachefs.Mount
import Meridian.Lib.Result

/-!
# Reads stay inside the buffers

Whatever a volume holds, mounting it and searching its nodes reads only the buffers that were loaded,
and every walk comes to its end.
-/

namespace Meridian.Bcachefs

open Fsw Lib.Result

/-! ### Loops over lists -/

theorem safe_mapM {A B : Type} {f : A → FswM B} {as : List A} (each : ∀ a ∈ as, Safe (f a)) :
    Safe (as.mapM f) := by
  induction as with
  | nil => exact Safe.pure []
  | cons a as ih =>
    obtain ⟨first, rest⟩ := List.forall_mem_cons.mp each
    rw [List.mapM_cons]
    apply Safe.bind first
    intro b _
    apply Safe.bind (ih rest)
    intro bs _
    exact Safe.pure (b :: bs)

theorem safe_foldlM {A B : Type} {f : B → A → FswM B} (each : ∀ b a, Safe (f b a)) (as : List A)
    (b : B) : Safe (as.foldlM f b) := by
  induction as generalizing b with
  | nil => exact Safe.pure b
  | cons a as ih =>
    rw [List.foldlM_cons]
    exact Safe.bind (each b a) fun b' _ => ih b'

/-- Reads of one size at the places of an array. -/
theorem safe_reads {buf : List UInt8} {place : Nat → Nat} {count size : Nat}
    (inside : ∀ i < count, place i + size ≤ buf.length) :
    Safe ((List.range count).mapM fun i => le buf (place i) size) :=
  safe_mapM fun i mem => safe_le (inside i (List.mem_range.mp mem))

/-! ### Sectors -/

variable {blocks : Blocks} {sector sectors : Nat} {buf : List UInt8}

theorem readSectors_safe (blocks : Blocks) (sector sectors : Nat) :
    Safe (bcachefsReadSectors blocks sector sectors) := by
  rw [bcachefsReadSectors]
  apply Safe.guard
  intro _
  apply safe_foldlM
  intro buffer i
  split
  · exact Safe.ok _
  · exact Safe.fail _

theorem foldlM_length {read : List UInt8 → Nat → FswM (List UInt8)} {size : Nat}
    (each : ∀ buffer i next, read buffer i = .ok next → next.length = buffer.length + size)
    {is : List Nat} {acc : List UInt8} (run : is.foldlM read acc = .ok buf) :
    buf.length = acc.length + is.length * size := by
  induction is generalizing acc with
  | nil =>
    obtain rfl := Except.ok.inj run
    rw [List.length_nil, Nat.zero_mul, Nat.add_zero]
  | cons i is ih =>
    rw [List.foldlM_cons] at run
    obtain ⟨next, first, rest⟩ := bind_eq_ok.mp run
    rw [ih rest, each _ _ _ first, List.length_cons, Nat.succ_mul]
    omega

/-- The buffer has all the sectors. -/
theorem readSectors_ok (run : bcachefsReadSectors blocks sector sectors = .ok buf) :
    0 < sectors ∧ sectors ≤ maxNodeSectors ∧ buf.length = sectors * sectorSize := by
  rw [bcachefsReadSectors] at run
  split at run
  · cases run
  · rename_i given
    have length := @foldlM_length _ _ sectorSize ?_ _ _ run
    · rw [List.length_nil, List.length_range, Nat.zero_add] at length
      exact ⟨by omega, by omega, length⟩
    · intro buffer i next first
      split at first
      · rename_i block _
        obtain rfl := Except.ok.inj first
        rw [List.length_append, block.size]
      · cases first

/-! ### Keys -/

variable {p fin : Nat} {format : BkeyFormat} {key : Key} {keyBytes : Nat}

theorem unpackFields_safe (words : List Nat) (st : BitState) (fields : List (Nat × Nat)) :
    Safe (unpackFields words st fields) := by
  induction fields generalizing st with
  | nil => exact Safe.ok []
  | cons field fields ih =>
    obtain ⟨bits, offset⟩ := field
    rw [unpackFields]
    apply Safe.guard
    intro _
    exact Safe.bind (ih _) fun rest _ => Safe.pure _

theorem readFormat_safe (inside : p + 56 ≤ buf.length) : Safe (bcachefsReadFormat buf p) := by
  rw [bcachefsReadFormat]
  apply Safe.bind (safe_le (by omega))
  intro keyU64s _
  apply Safe.bind (safe_le (by omega))
  intro nrFields _
  apply Safe.bind (safe_reads fun i bound => by omega)
  intro bits _
  apply Safe.bind (safe_reads fun i bound => by omega)
  intro offsets _
  exact Safe.pure _

/-- A key is read from the bytes up to its limit alone. -/
theorem unpackKey_safe (format : BkeyFormat) (p : Nat) (inside : fin ≤ buf.length) :
    Safe (bcachefsUnpackKey buf p format fin) := by
  have size : (buf.take fin).length = fin := by
    rw [List.length_take, Nat.min_eq_left inside]
  rw [bcachefsUnpackKey]
  apply Safe.guard
  intro header
  apply Safe.bind (safe_le (by omega))
  intro u64s _
  apply Safe.bind (safe_le (by omega))
  intro formatByte _
  apply Safe.bind (safe_le (by omega))
  intro type _
  apply Safe.guard
  intro fits
  apply Safe.ite
  · intro _
    apply Safe.guard
    intro current
    have words : bkeyU64s = 5 := rfl
    apply Safe.bind (safe_le (by omega))
    intro size _
    apply Safe.bind (safe_le (by omega))
    intro snapshot _
    apply Safe.bind (safe_le (by omega))
    intro offset _
    apply Safe.bind (safe_le (by omega))
    intro inode _
    exact Safe.pure _
  · intro _
    apply Safe.guard
    intro packed
    apply Safe.bind (safe_reads fun i bound => by omega)
    intro words _
    exact Safe.bind (unpackFields_safe _ _ _) fun vals _ => Safe.pure _

/-- A key has one unit at least, and ends before the limit. -/
theorem unpackFields_lt {words : List Nat} {st : BitState} {fields : List (Nat × Nat)}
    {vals : List Nat} (run : unpackFields words st fields = .ok vals) : ∀ v ∈ vals, v < 2 ^ 64 := by
  induction fields generalizing st vals with
  | nil =>
    obtain rfl := Except.ok.inj run
    exact nofun
  | cons field fields ih =>
    obtain ⟨bits, offset⟩ := field
    rw [unpackFields] at run
    split at run
    · cases run
    · obtain ⟨rest, next, run⟩ := bind_eq_ok.mp run
      obtain rfl := Except.ok.inj run
      intro v mem
      rcases List.mem_cons.mp mem with rfl | mem
      · exact Nat.mod_lt _ (by decide)
      · exact ih next v mem

/-- What an unpacked key is bounded by. -/
structure KeyBounds (p fin : Nat) (key : Key) : Prop where
  words : 0 < key.u64s ∧ key.u64s < 256 ∧ p + key.u64s * 8 ≤ fin
  size : key.size < 2 ^ 32
  offset : key.p.offset < 2 ^ 64

theorem unpackKey_bounds (run : bcachefsUnpackKey buf p format fin = .ok (key, keyBytes)) :
    KeyBounds p fin key := by
  rw [bcachefsUnpackKey] at run
  split at run
  · cases run
  obtain ⟨u64s, read, run⟩ := bind_eq_ok.mp run
  have small := le_lt read
  obtain ⟨formatByte, _, run⟩ := bind_eq_ok.mp run
  obtain ⟨type, _, run⟩ := bind_eq_ok.mp run
  split at run
  · cases run
  rename_i fits
  dsimp only at run
  split at run
  · split at run
    · cases run
    obtain ⟨size, readSize, run⟩ := bind_eq_ok.mp run
    obtain ⟨snapshot, _, run⟩ := bind_eq_ok.mp run
    obtain ⟨offset, readOffset, run⟩ := bind_eq_ok.mp run
    obtain ⟨inode, _, run⟩ := bind_eq_ok.mp run
    cases run
    exact ⟨by dsimp only; omega, le_lt readSize, le_lt readOffset⟩
  · split at run
    · cases run
    obtain ⟨words, _, run⟩ := bind_eq_ok.mp run
    obtain ⟨vals, unpacked, run⟩ := bind_eq_ok.mp run
    cases run
    refine ⟨by dsimp only; omega, Nat.mod_lt _ (by decide), ?_⟩
    show vals.getD 1 0 < 2 ^ 64
    rw [List.getD_eq_getElem?_getD]
    cases value : vals[1]? with
    | none => decide
    | some v => exact unpackFields_lt unpacked v (List.mem_of_getElem? value)

theorem unpackKey_ok (run : bcachefsUnpackKey buf p format fin = .ok (key, keyBytes)) :
    0 < key.u64s ∧ key.u64s < 256 ∧ p + key.u64s * 8 ≤ fin :=
  (unpackKey_bounds run).words

/-! ### Nodes -/

variable {σ : Type} {step : σ → Key → List UInt8 → FswM σ} {node : List UInt8}

/-- The key walk goes forward by a unit at least, and stays before the bset's end. -/
theorem keyLoop_safe (steps : ∀ s key value, Safe (step s key value)) (format : BkeyFormat)
    (inside : fin ≤ node.length) (fuel p : Nat) (enough : fin ≤ p + 8 * fuel) (s : σ) :
    Safe (keyLoop step node format fin fuel p s) := by
  induction fuel generalizing p s with
  | zero =>
    rw [keyLoop, if_neg (by omega)]
    exact Safe.ok s
  | succ fuel ih =>
    rw [keyLoop]
    apply Safe.ite
    · intro _
      apply Safe.bind (unpackKey_safe format p inside)
      rintro ⟨key, keyBytes⟩ unpacked
      obtain ⟨positive, _, bounded⟩ := unpackKey_ok unpacked
      apply Safe.guard
      intro long
      have size : (node.take fin).length = fin := by
        rw [List.length_take, Nat.min_eq_left inside]
      apply Safe.bind (safe_bytesAt (by omega))
      intro value _
      apply Safe.bind (steps s key value)
      intro s' _
      exact ih _ (by omega) s'
    · intro _
      exact Safe.ok s

theorem u32_eq {n : Nat} (small : n < 2 ^ 32) : u32 n = n := Nat.mod_eq_of_lt small

/-- A bset that the walk finds lies in the node with its header. -/
theorem bsetAt_safe {bytes seq written : Nat} (loaded : node.length = bytes) (size : 160 ≤ bytes)
    (small : bytes < 2 ^ 30) (before : written * sectorSize < bytes) :
    Safe (bsetAt node bytes seq written) := by
  have sector : u32 (written * sectorSize) = written * sectorSize := u32_eq (by omega)
  rw [bsetAt]
  apply Safe.bind
  · rw [bsetHeader, sector]
    apply Safe.ite
    · intro _
      exact Safe.pure _
    intro _
    apply Safe.ite
    · intro _
      exact Safe.pure _
    intro header
    rw [u32_eq (by omega)] at header
    rw [u32_eq (by omega)]
    apply Safe.bind (safe_le (by omega))
    intro other _
    exact Safe.pure _
  · intro found _
    split
    · exact Safe.pure _
    · exact Safe.pure _

theorem bsetAt_ok {bytes seq written bset data : Nat} (size : 160 ≤ bytes) (small : bytes < 2 ^ 30)
    (before : written * sectorSize < bytes)
    (run : bsetAt node bytes seq written = .ok (some (bset, data))) :
    bset + 24 ≤ bytes ∧ data = bset + 24 ∧ written * sectorSize ≤ data ∧ bset < 2 ^ 31 := by
  have sector : u32 (written * sectorSize) = written * sectorSize := u32_eq (by omega)
  rw [bsetAt] at run
  obtain ⟨found, first, run⟩ := bind_eq_ok.mp run
  rw [bsetHeader, sector] at first
  have place : ∀ header keys, found = some (header, keys) →
      keys = header + 24 ∧ written * sectorSize ≤ keys ∧ header < 2 ^ 31 := by
    rintro header keys rfl
    split at first
    · rename_i zero
      cases first
      rw [zero]
      decide
    split at first
    · cases first
    · obtain ⟨other, _, first⟩ := bind_eq_ok.mp first
      rw [u32_eq (by omega), u32_eq (by omega)] at first
      obtain chosen := Except.ok.inj first
      split at chosen
      · cases chosen
      · cases chosen
        omega
  split at run
  · rename_i header keys
    obtain ⟨behind, after, low⟩ := place header keys rfl
    have chosen := Except.ok.inj run
    split at chosen
    · cases chosen
    · rename_i fits
      cases chosen
      rw [u32_eq (by omega)] at fits
      omega
  · cases run

theorem roundUp_lt (v block : Nat) : bcachefsRoundUp v block < 2 ^ 32 := by
  rw [bcachefsRoundUp]
  exact Nat.lt_of_le_of_lt Nat.and_le_left (Nat.mod_lt _ (Nat.two_pow_pos 32))

/-- The bset walk goes forward by a sector at least, and stays inside the node. -/
theorem bsetLoop_safe (steps : ∀ s key value, Safe (step s key value)) (format : BkeyFormat)
    (blockBytes seq : Nat) {bytes : Nat} (whole : bytes = sectors * sectorSize)
    (loaded : node.length = bytes) (positive : 0 < sectors) (few : sectors ≤ maxNodeSectors)
    (fuel written : Nat) (enough : sectors ≤ written + fuel) (s : σ) :
    Safe (bsetLoop step node format blockBytes sectors bytes seq fuel written s) := by
  have most : maxNodeSectors = 2048 := rfl
  rw [sectorSize] at whole
  induction fuel generalizing written s with
  | zero =>
    rw [bsetLoop, if_neg (by omega)]
    exact Safe.ok s
  | succ fuel ih =>
    rw [bsetLoop]
    apply Safe.ite
    · intro inside
      have before : written * sectorSize < bytes := by
        rw [whole, sectorSize]
        omega
      apply Safe.bind (bsetAt_safe loaded (by omega) (by omega) before)
      intro found run
      split
      · exact Safe.ok s
      rename_i bset data
      obtain ⟨header, rfl, _, low⟩ := bsetAt_ok (by omega) (by omega) before run
      rw [u32_eq (by omega)]
      apply Safe.bind (safe_le (by omega))
      intro u64s read
      have short := le_lt read
      rw [u32_eq (by omega)]
      apply Safe.guard
      intro fits
      apply Safe.bind (keyLoop_safe steps format (by omega) u64s _ (by omega) s)
      intro s' _
      apply Safe.ite
      · intro _
        exact Safe.ok s'
      intro forward
      have bound := roundUp_lt (u32 (u32 (bset + 24 + (2 ^ 32 - u32 (written * sectorSize))) + u64s * 8))
        blockBytes
      rw [sectorSize] at forward bound ⊢
      apply ih
      rw [u32_eq (by omega)]
      omega
    · intro _
      exact Safe.ok s

theorem walkNode_safe (steps : ∀ s key value, Safe (step s key value)) (blocks : Blocks)
    (vol : Volume) (ptr : BtreePtr) (s : σ) : Safe (walkNode step blocks vol ptr s) := by
  rw [walkNode]
  apply Safe.guard
  intro _
  apply Safe.bind (readSectors_safe _ _ _)
  intro node read
  obtain ⟨positive, few, loaded⟩ := readSectors_ok read
  have most : maxNodeSectors = 2048 := rfl
  rw [sectorSize] at loaded
  rw [u32_eq (by rw [sectorSize]; omega), sectorSize]
  apply Safe.guard
  intro size
  apply Safe.bind (readFormat_safe (by omega))
  intro format _
  apply Safe.guard
  intro _
  apply Safe.bind (safe_le (by omega))
  intro seq _
  exact bsetLoop_safe steps format vol.blockBytes seq rfl loaded positive few _ 0 (by omega) s

theorem lowerBoundStep_safe (search : Pos) (best : Option Best) (key : Key) (value : List UInt8) :
    Safe (lowerBoundStep search best key value) := by
  unfold lowerBoundStep
  apply Safe.ite
  · intro _
    apply Safe.ite
    · intro _
      apply Safe.ite
      · intro _
        apply Safe.bind
        · rw [bcachefsCopyLookup]
          exact Safe.ite (fun _ => Safe.fail _) fun _ => Safe.ok _
        · exact fun result _ => Safe.pure _
      · exact fun _ => Safe.pure _
    · exact fun _ => Safe.pure _
  · exact fun _ => Safe.pure _

theorem nodeLowerBound_safe (blocks : Blocks) (vol : Volume) (ptr : BtreePtr) (search : Pos) :
    Safe (bcachefsNodeLowerBound blocks vol ptr search) := by
  rw [bcachefsNodeLowerBound]
  apply Safe.bind (walkNode_safe (lowerBoundStep_safe search) blocks vol ptr none)
  intro best _
  split
  · exact Safe.pure _
  · exact Safe.fail _

theorem parseBtreePtr_safe (result : LookupResult) : Safe (bcachefsParseBtreePtr result) := by
  rw [bcachefsParseBtreePtr]
  apply Safe.bind
  · rw [btreePtrWords]
    apply Safe.ite
    · intro _
      apply Safe.guard
      intro long
      apply Safe.bind (safe_le (by omega))
      intro sectorsWritten _
      apply Safe.bind (safe_le (by omega))
      exact fun raw _ => Safe.pure _
    · intro _
      apply Safe.ite
      · intro _
        apply Safe.guard
        intro long
        apply Safe.bind (safe_le (by omega))
        exact fun raw _ => Safe.pure _
      · exact fun _ => Safe.fail _
  · rintro ⟨sectorsWritten, raw⟩ _
    exact Safe.ite (fun _ => Safe.fail _) fun _ => Safe.pure _

theorem descend_safe (blocks : Blocks) (vol : Volume) (search : Pos) (level : Nat) (ptr : BtreePtr) :
    Safe (descend blocks vol search level ptr) := by
  induction level generalizing ptr with
  | zero => exact nodeLowerBound_safe blocks vol ptr search
  | succ level ih =>
    rw [descend]
    apply Safe.bind (nodeLowerBound_safe blocks vol ptr search)
    intro out _
    apply Safe.bind (parseBtreePtr_safe out)
    exact fun child _ => ih child

theorem btreeLookup_safe (blocks : Blocks) (vol : Volume) (btreeId : Nat) (search : Pos) :
    Safe (bcachefsBtreeLookup blocks vol btreeId search) := by
  rw [bcachefsBtreeLookup]
  split
  · exact Safe.fail _
  · exact descend_safe blocks vol search _ _

/-! ### Mounting -/

variable {sb : List UInt8}

theorem readEntry_safe {epos next : Nat} (inside : next ≤ sb.length) (low : epos + 8 < 2 ^ 32)
    (entryU64s btreeId level type : Nat) (roots : Roots) :
    Safe (readEntry sb epos next entryU64s btreeId level type roots) := by
  rw [readEntry]
  apply Safe.ite
  · intro _
    rw [readRoot, u32_eq low]
    apply Safe.bind (unpackKey_safe _ _ inside)
    rintro ⟨key, keyBytes⟩ unpacked
    obtain ⟨_, _, bounded⟩ := unpackKey_ok unpacked
    apply Safe.guard
    intro fits
    have size : (sb.take next).length = next := by
      rw [List.length_take, Nat.min_eq_left inside]
    apply Safe.bind (safe_bytesAt (by omega))
    intro value _
    apply Safe.bind (parseBtreePtr_safe _)
    exact fun ptr _ => Safe.pure _
  · exact fun _ => Safe.ok roots

/-- The entry walk goes forward by a unit at least, and stays inside the section. -/
theorem cleanLoop_safe {fieldEnd : Nat} (inside : fieldEnd ≤ sb.length) (small : fieldEnd < 2 ^ 31)
    (fuel epos : Nat) (low : epos < 2 ^ 31) (enough : fieldEnd < epos + 8 * fuel + 8)
    (roots : Roots) : Safe (cleanLoop sb fieldEnd fuel epos roots) := by
  have size : (sb.take fieldEnd).length = fieldEnd := by
    rw [List.length_take, Nat.min_eq_left inside]
  induction fuel generalizing epos roots with
  | zero =>
    rw [cleanLoop, u32_eq (by omega), if_neg (by omega)]
    exact Safe.ok roots
  | succ fuel ih =>
    rw [cleanLoop, u32_eq (by omega)]
    apply Safe.ite
    · intro header
      apply Safe.bind (safe_le (by omega))
      intro entryU64s read
      have short := le_lt read
      rw [u32_eq (by omega)]
      apply Safe.bind (safe_le (by omega))
      intro btreeId _
      rw [u32_eq (by omega)]
      apply Safe.bind (safe_le (by omega))
      intro level _
      rw [u32_eq (by omega)]
      apply Safe.bind (safe_le (by omega))
      intro type _
      rw [u32_eq (by omega)]
      apply Safe.ite
      · exact fun _ => Safe.ok roots
      intro forward
      apply Safe.guard
      intro bounded
      apply Safe.bind (readEntry_safe (by omega) (by omega) _ _ _ _ _)
      intro roots' _
      exact ih _ (by omega) (by omega) roots'
    · exact fun _ => Safe.ok roots

/-- The section walk goes forward by a unit at least, and stays inside the superblock. -/
theorem fieldLoop_safe {sbBytes : Nat} (inside : sbBytes ≤ sb.length) (small : sbBytes < 2 ^ 30)
    (fuel pos : Nat) (low : pos < 2 ^ 30) (aligned : pos % 8 = 0)
    (enough : sbBytes < pos + 8 * fuel + 8) (roots : Roots) :
    Safe (fieldLoop sb sbBytes fuel pos roots) := by
  have size : (sb.take sbBytes).length = sbBytes := by
    rw [List.length_take, Nat.min_eq_left inside]
  induction fuel generalizing pos roots with
  | zero =>
    rw [fieldLoop, u32_eq (by omega), if_neg (by omega)]
    exact Safe.ok roots
  | succ fuel ih =>
    rw [fieldLoop, u32_eq (by omega)]
    apply Safe.ite
    · intro header
      apply Safe.bind (safe_le (by omega))
      intro fieldU64s _
      rw [u32_eq (by omega)]
      apply Safe.bind (safe_le (by omega))
      intro fieldType _
      apply Safe.ite
      · exact fun _ => Safe.ok roots
      intro _
      apply Safe.guard
      intro forward
      -- The length may wrap, but it stays a multiple of the unit.
      have units : u32 (pos + u32 (fieldU64s * 8)) % 8 = 0 := by
        rw [u32, u32]
        omega
      have next : pos + 8 ≤ u32 (pos + u32 (fieldU64s * 8)) := by omega
      apply Safe.bind
      · rw [readField]
        apply Safe.ite
        · intro _
          rw [u32_eq (n := pos + 24) (by omega)]
          exact cleanLoop_safe (by omega) (by omega) _ _ (by omega) (by omega) roots
        · exact fun _ => Safe.ok roots
      · intro roots' _
        exact ih _ (by omega) units (by omega) roots'
    · exact fun _ => Safe.ok roots

theorem volumeMount_safe (blocks : Blocks) : Safe (fswBcachefsVolumeMount blocks) := by
  rw [fswBcachefsVolumeMount]
  apply Safe.bind (readSectors_safe _ _ _)
  intro sb read
  have loaded : sb.length = 65536 := (readSectors_ok read).2.2
  apply Safe.bind (safe_bytesAt (by omega))
  intro magic _
  apply Safe.guard
  intro _
  apply Safe.bind (safe_le (by omega))
  intro sbU64s _
  apply Safe.guard
  intro size
  rw [sbFieldOffset, superReadSectors, sectorSize] at size
  apply Safe.bind (safe_le (by omega))
  intro flags0 _
  apply Safe.bind (safe_le (by omega))
  intro flags1 _
  apply Safe.bind (safe_le (by omega))
  intro flags3 _
  apply Safe.bind (safe_le (by omega))
  intro nrDevices _
  apply Safe.guard
  intro _
  apply Safe.guard
  intro _
  apply Safe.bind (safe_le (by omega))
  intro blockSizeSectors _
  apply Safe.guard
  intro _
  have start : sbFieldOffset = 752 := rfl
  apply Safe.bind (fieldLoop_safe (by omega) (by omega) _ _ (by omega) (by omega) (by omega) _)
  intro roots _
  apply Safe.bind (safe_bytesAt (by omega))
  intro label _
  exact Safe.ite (fun _ => Safe.fail _) fun _ => Safe.pure _

/-- Whatever the blocks hold, mounting the volume, searching any of its nodes, and looking up any
position in any of its trees ends without a read outside a buffer. -/
theorem bcachefs_inBounds (blocks : Blocks) :
    Safe (fswBcachefsVolumeMount blocks) ∧ ∀ vol : Volume,
      (∀ ptr search, Safe (bcachefsNodeLowerBound blocks vol ptr search)) ∧
      ∀ btreeId search, Safe (bcachefsBtreeLookup blocks vol btreeId search) :=
  ⟨volumeMount_safe blocks, fun vol =>
    ⟨nodeLowerBound_safe blocks vol, btreeLookup_safe blocks vol⟩⟩

end Meridian.Bcachefs
