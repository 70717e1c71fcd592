import Meridian.Bcachefs.Extents
import Meridian.Bcachefs.InBounds
import Meridian.Bcachefs.Listing

/-!
# Reading values

What a lookup returns is short and has a size of 32 bits, whatever the blocks hold. The inodes, the
extents and the entries that a directory read returns are decoded inside their values; the lookup of a
name decodes a dirent's name without a check, and does it inside the value if the dirent has nine bytes.
-/

namespace Meridian.Bcachefs

open Fsw Lib.Result

variable {blocks : Blocks} {vol : Volume}

/-! ### What a lookup returns -/

/-- The key's fields have their widths. -/
structure Keyed (key : Key) : Prop where
  size : key.size < 2 ^ 32
  offset : key.p.offset < 2 ^ 64

theorem unpackKey_keyed {buf : List UInt8} {p fin keyBytes : Nat} {format : BkeyFormat} {key : Key}
    (run : bcachefsUnpackKey buf p format fin = .ok (key, keyBytes)) : Keyed key :=
  ⟨(unpackKey_bounds run).size, (unpackKey_bounds run).offset⟩

section

variable {σ : Type} {step : σ → Key → List UInt8 → FswM σ} {P : σ → Prop} {node : List UInt8}
  {format : BkeyFormat} {s s' : σ}

/-- What every key keeps, the walk over a bset keeps. -/
theorem keyLoop_keeps
    (keeps : ∀ {s s' key value}, Keyed key → P s → step s key value = .ok s' → P s') {fin fuel p : Nat}
    (start : P s) (run : keyLoop step node format fin fuel p s = .ok s') : P s' := by
  induction fuel generalizing p s with
  | zero =>
    rw [keyLoop] at run
    split at run
    · cases run
    · cases run
      exact start
  | succ fuel ih =>
    rw [keyLoop] at run
    split at run
    · obtain ⟨⟨key, keyBytes⟩, unpacked, run⟩ := bind_eq_ok.mp run
      dsimp only at run
      split at run
      · cases run
      obtain ⟨value, _, run⟩ := bind_eq_ok.mp run
      obtain ⟨s₁, stepped, run⟩ := bind_eq_ok.mp run
      exact ih (keeps (unpackKey_keyed unpacked) start stepped) run
    · cases run
      exact start

theorem bsetLoop_keeps
    (keeps : ∀ {s s' key value}, Keyed key → P s → step s key value = .ok s' → P s')
    {blockBytes sectors bytes seq fuel written : Nat} (start : P s)
    (run : bsetLoop step node format blockBytes sectors bytes seq fuel written s = .ok s') : P s' := by
  induction fuel generalizing written s with
  | zero =>
    rw [bsetLoop] at run
    split at run
    · cases run
    · cases run
      exact start
  | succ fuel ih =>
    rw [bsetLoop] at run
    split at run
    · obtain ⟨found, _, run⟩ := bind_eq_ok.mp run
      split at run
      · cases run
        exact start
      obtain ⟨u64s, _, run⟩ := bind_eq_ok.mp run
      split at run
      · cases run
      obtain ⟨s₁, keys, run⟩ := bind_eq_ok.mp run
      have next := keyLoop_keeps keeps start keys
      dsimp only at run
      split at run
      · cases run
        exact next
      · exact ih next run
    · cases run
      exact start

theorem walkNode_keeps
    (keeps : ∀ {s s' key value}, Keyed key → P s → step s key value = .ok s' → P s')
    {ptr : BtreePtr} (start : P s) (run : walkNode step blocks vol ptr s = .ok s') : P s' := by
  unfold walkNode at run
  dsimp only at run
  generalize (if ptr.sectorsWritten ≠ 0 then ptr.sectorsWritten else vol.btreeNodeSectors) = sectors at run
  split at run
  · cases run
  obtain ⟨node, _, run⟩ := bind_eq_ok.mp run
  split at run
  · cases run
  obtain ⟨format, _, run⟩ := bind_eq_ok.mp run
  split at run
  · cases run
  obtain ⟨seq, _, run⟩ := bind_eq_ok.mp run
  exact bsetLoop_keeps keeps start run

end

/-- What a lookup returns. -/
structure Found (entry : LookupResult) : Prop where
  key : Keyed entry.key
  value : entry.value.length ≤ maxValueBytes

theorem lowerBoundStep_keeps {search : Pos} {best best' : Option Best} {key : Key} {value : List UInt8}
    (keyed : Keyed key) (found : ∀ b ∈ best, Found b.result)
    (run : lowerBoundStep search best key value = .ok best') : ∀ b ∈ best', Found b.result := by
  unfold lowerBoundStep at run
  split at run
  · extract_lets replace at run
    split at run
    · split at run
      · obtain ⟨result, copied, run⟩ := bind_eq_ok.mp run
        cases run
        rw [bcachefsCopyLookup] at copied
        split at copied
        · cases copied
        · rename_i short
          cases copied
          intro b mem
          cases mem
          exact ⟨keyed, Nat.le_of_not_lt short⟩
      · cases run
        intro b mem
        cases mem
        exact ⟨keyed, Nat.zero_le _⟩
    · cases run
      exact found
  · cases run
    exact found

theorem nodeLowerBound_found {ptr : BtreePtr} {search : Pos} {entry : LookupResult}
    (run : bcachefsNodeLowerBound blocks vol ptr search = .ok entry) : Found entry := by
  rw [bcachefsNodeLowerBound] at run
  obtain ⟨best, walk, run⟩ := bind_eq_ok.mp run
  have nothing : ∀ b ∈ (none : Option Best), Found b.result := by
    intro b mem
    cases mem
  have found : ∀ b ∈ best, Found b.result := walkNode_keeps lowerBoundStep_keeps nothing walk
  split at run
  · cases run
    exact found _ rfl
  · cases run

theorem btreeLookup_found {btreeId : Nat} {search : Pos} {entry : LookupResult}
    (run : bcachefsBtreeLookup blocks vol btreeId search = .ok entry) : Found entry := by
  rw [bcachefsBtreeLookup] at run
  split at run
  · cases run
  · rename_i root _
    revert run
    generalize root.level = level
    generalize root.ptr = ptr
    intro run
    induction level generalizing ptr with
    | zero => exact nodeLowerBound_found run
    | succ level ih =>
      rw [descend] at run
      obtain ⟨out, _, run⟩ := bind_eq_ok.mp run
      obtain ⟨child, _, run⟩ := bind_eq_ok.mp run
      exact ih child run

/-! ### Inodes -/

theorem inodeFields_safe (lookup : LookupResult) : Safe (inodeFields lookup) := by
  unfold inodeFields
  apply Safe.ite
  · intro _
    apply Safe.guard
    intro long
    apply Safe.bind (safe_le (by omega))
    intro flags _
    apply Safe.bind (safe_le (by omega))
    intro sectors _
    apply Safe.bind (safe_le (by omega))
    exact fun size _ => Safe.pure _
  intro _
  apply Safe.ite
  · intro _
    apply Safe.guard
    intro long
    apply Safe.bind (safe_le (by omega))
    intro flags _
    apply Safe.bind (safe_le (by omega))
    exact fun mode _ => Safe.pure _
  intro _
  apply Safe.ite
  · intro _
    apply Safe.guard
    intro long
    apply Safe.bind (safe_le (by omega))
    exact fun mode _ => Safe.pure _
  · exact fun _ => Safe.fail _

theorem dnodeFill_safe (blocks : Blocks) (vol : Volume) (dnodeId : Nat) (type : DnodeType) (size : Nat) :
    Safe (fswBcachefsDnodeFill blocks vol dnodeId type size) := by
  unfold fswBcachefsDnodeFill
  apply Safe.ite
  · exact fun _ => Safe.pure _
  intro _
  apply Safe.bind (btreeLookup_safe blocks vol _ _)
  intro lookup _
  apply Safe.guard
  intro _
  apply Safe.bind (inodeFields_safe lookup)
  exact fun fields _ => Safe.pure _

/-! ### Extents -/

/-- The entries go forward by eight bytes at least, and are read where eight bytes are left. -/
theorem extentLoop_safe {value : List UInt8} (short : value.length < 2 ^ 31) (fuel pos : Nat)
    (inside : pos ≤ value.length + 24) (enough : value.length < pos + 8 * (fuel + 1)) :
    Safe (extentLoop value fuel pos) := by
  induction fuel generalizing pos with
  | zero =>
    rw [extentLoop, u32_eq (by omega), if_neg (by omega)]
    exact Safe.fail _
  | succ fuel ih =>
    rw [extentLoop, u32_eq (by omega)]
    apply Safe.ite
    swap
    · exact fun _ => Safe.fail _
    intro left
    apply Safe.bind (safe_le left)
    intro raw _
    apply Safe.ite
    · exact fun _ => Safe.ite (fun _ => Safe.fail _) fun _ => Safe.pure _
    intro _
    rw [u32_eq (by omega), u32_eq (by omega)]
    apply Safe.ite
    · exact fun _ => Safe.ite (fun _ => Safe.fail _) fun _ => ih _ (by omega) (by omega)
    intro _
    apply Safe.ite
    · exact fun _ => Safe.ite (fun _ => Safe.fail _) fun _ => ih _ (by omega) (by omega)
    intro _
    apply Safe.ite
    · exact fun _ => Safe.ite (fun _ => Safe.fail _) fun _ => ih _ (by omega) (by omega)
    · exact fun _ => Safe.fail _

theorem parseExtentPtr_safe {value : List UInt8} (short : value.length < 2 ^ 31) :
    Safe (bcachefsParseExtentPtr value) :=
  extentLoop_safe short _ 0 (Nat.zero_le _) (by omega)

theorem mapExtentValue_safe {lookup : LookupResult} (found : Found lookup) (logicalSector : Nat) :
    Safe (bcachefsMapExtentValue lookup logicalSector) := by
  have short : lookup.value.length < 2 ^ 31 := Nat.lt_of_le_of_lt found.value (by decide)
  unfold bcachefsMapExtentValue
  apply Safe.guard
  intro _
  apply Safe.guard
  intro _
  apply Safe.bind (parseExtentPtr_safe short)
  exact fun ptrOffset _ => Safe.pure _

theorem mapReflink_safe (lookup : LookupResult) (logicalSector : Nat) :
    Safe (bcachefsMapReflink blocks vol lookup logicalSector) := by
  unfold bcachefsMapReflink
  apply Safe.guard
  intro guarded
  apply Safe.guard
  intro _
  apply Safe.bind (safe_le (by omega))
  intro idxFlags _
  apply Safe.guard
  intro _
  apply Safe.bind (btreeLookup_safe blocks vol _ _)
  intro indirect run
  have found := btreeLookup_found run
  have short : (indirect.value.drop 8).length < 2 ^ 31 := by
    have most : maxValueBytes = 2048 := rfl
    have value := found.value
    rw [List.length_drop]
    omega
  apply Safe.guard
  intro _
  apply Safe.guard
  intro _
  apply Safe.guard
  intro _
  apply Safe.bind (parseExtentPtr_safe short)
  exact fun ptrOffset _ => Safe.pure _

theorem getExtent_safe (blocks : Blocks) (vol : Volume) (dnodeId : Nat) (type : DnodeType) (logStart : Nat) :
    Safe (fswBcachefsGetExtent blocks vol dnodeId type logStart) := by
  unfold fswBcachefsGetExtent
  apply Safe.guard
  intro _
  apply Safe.bind (btreeLookup_safe blocks vol _ _)
  intro lookup run
  apply Safe.guard
  intro _
  apply Safe.ite
  · exact fun _ => mapExtentValue_safe (btreeLookup_found run) logStart
  intro _
  apply Safe.ite
  · exact fun _ => mapReflink_safe lookup logStart
  · exact fun _ => Safe.fail _

/-- A sector at or behind the start of a key, and before its end, leaves less than 32 bits of sectors. -/
theorem left_of_start {key : Key} {sector : Nat} (keyed : Keyed key) (before : sector < key.p.offset)
    (behind : key.start ≤ sector) : key.start = key.p.offset - key.size ∧ key.size ≤ key.p.offset ∧
      u32 (key.p.offset - sector) = key.p.offset - sector := by
  obtain ⟨size, offset⟩ := keyed
  have start : key.start = key.p.offset - key.size ∧ key.size ≤ key.p.offset := by
    rw [Key.start, u64] at behind ⊢
    omega
  refine ⟨start.1, start.2, u32_eq ?_⟩
  rw [start.1] at behind
  omega

/-- The sectors that are reported end with the extent. -/
theorem mapExtentValue_count {lookup : LookupResult} {logicalSector phys count : Nat} (found : Found lookup)
    (run : bcachefsMapExtentValue lookup logicalSector = .ok (phys, count)) :
    0 < count ∧ logicalSector + count = lookup.key.p.offset := by
  unfold bcachefsMapExtentValue at run
  split at run
  · cases run
  split at run
  · cases run
  rename_i inside behind
  obtain ⟨ptrOffset, _, run⟩ := bind_eq_ok.mp run
  have before : logicalSector < lookup.key.p.offset := by omega
  have counted := left_of_start found.key before (Nat.le_of_not_lt behind)
  cases run
  omega

/-- The sectors that are reported for a reference end with it or before. -/
theorem mapReflink_count {lookup : LookupResult} {logicalSector phys count : Nat} (found : Found lookup)
    (run : bcachefsMapReflink blocks vol lookup logicalSector = .ok (phys, count)) :
    0 < count ∧ logicalSector + count ≤ lookup.key.p.offset := by
  unfold bcachefsMapReflink at run
  split at run
  · cases run
  split at run
  · cases run
  rename_i inside behind
  obtain ⟨idxFlags, _, run⟩ := bind_eq_ok.mp run
  split at run
  · cases run
  obtain ⟨indirect, looked, run⟩ := bind_eq_ok.mp run
  split at run
  · cases run
  split at run
  · cases run
  split at run
  · cases run
  rename_i within
  obtain ⟨ptrOffset, _, run⟩ := bind_eq_ok.mp run
  have before : logicalSector < lookup.key.p.offset := by omega
  have counted := left_of_start found.key before (Nat.le_of_not_lt behind)
  have counted' := left_of_start (btreeLookup_found looked).key
    (Nat.lt_of_not_le fun h => within (Or.inr h)) (Nat.le_of_not_lt fun h => within (Or.inl h))
  have both := Prod.mk.inj (Except.ok.inj run)
  rw [counted.2.2, counted'.2.2] at both
  omega

/-! ### Dirents -/

/-- The name's length is what the header leaves of the value, and its bytes are read inside. -/
def NameInValue (entry : LookupResult) : Prop :=
  u32 (entry.value.length + (2 ^ 32 - 9)) + 9 = entry.value.length ∧ Safe (direntName entry)

theorem nameLength_safe {value : List UInt8} (short : value.length < 2 ^ 32) {n : Nat}
    (inside : 9 + n ≤ value.length) : Safe (nameLength value n) := by
  induction n with
  | zero => exact Safe.ok 0
  | succ n ih =>
    rw [nameLength, u32_eq (by omega)]
    apply Safe.bind (safe_le (by omega))
    intro last _
    exact Safe.ite (fun _ => ih (by omega)) fun _ => Safe.ok _

/-- The subtraction of the header is right exactly for the values that hold one. -/
theorem nameInValue_iff {entry : LookupResult} (found : Found entry) :
    NameInValue entry ↔ 9 ≤ entry.value.length := by
  have most : maxValueBytes = 2048 := rfl
  have short := found.value
  constructor
  · rintro ⟨length, _⟩
    omega
  · intro long
    have length : u32 (entry.value.length + (2 ^ 32 - 9)) = entry.value.length - 9 := by
      rw [u32]
      omega
    refine ⟨by omega, ?_⟩
    rw [direntName, length]
    apply Safe.bind (nameLength_safe (by omega) (by omega))
    intro n run
    have bound : n ≤ entry.value.length - 9 := by
      obtain ⟨m, small, run', _⟩ := @nameLength_spec entry.value (entry.value.length - 9) (by omega) (by omega)
      obtain rfl := Except.ok.inj (run.symm.trans run')
      exact small
    exact safe_bytesAt (by omega)

theorem direntToDnode_safe {entry : LookupResult} (found : Found entry) (dnodes : List Dnode) :
    Safe (bcachefsDirentToDnode dnodes entry) := by
  unfold bcachefsDirentToDnode
  apply Safe.guard
  intro long
  apply Safe.bind (safe_le (by omega))
  intro ino _
  apply Safe.bind ((nameInValue_iff found).mpr (by omega)).2
  intro name _
  apply Safe.guard
  intro _
  apply Safe.bind (safe_le (by omega))
  exact fun dtype _ => Safe.pure _

theorem nextDirent_found {dirIno start : Nat} {entry : LookupResult}
    (run : bcachefsNextDirent blocks vol dirIno start = .ok entry) : Found entry := by
  rw [bcachefsNextDirent] at run
  obtain ⟨lookup, looked, run⟩ := bind_eq_ok.mp run
  split at run
  · cases run
  · cases run
    exact btreeLookup_found looked

theorem nextDirent_safe (blocks : Blocks) (vol : Volume) (dirIno start : Nat) :
    Safe (bcachefsNextDirent blocks vol dirIno start) := by
  rw [bcachefsNextDirent]
  apply Safe.bind (btreeLookup_safe blocks vol _ _)
  exact fun lookup _ => Safe.ite (fun _ => Safe.fail _) fun _ => Safe.pure _

theorem dirRead_safe (blocks : Blocks) (vol : Volume) (dnodes : List Dnode) (dirIno pos : Nat) :
    Safe (fswBcachefsDirRead blocks vol dnodes dirIno pos).1 := by
  have next := nextDirent_safe blocks vol dirIno pos
  unfold fswBcachefsDirRead
  split
  · rename_i failed
    rw [failed] at next
    constructor
    · intro run
      cases run
      exact next.1 rfl
    · intro run
      cases run
      exact next.2 rfl
  · rename_i lookup run
    split
    · exact Safe.fail _
    · exact direntToDnode_safe (nextDirent_found run) dnodes

/-- The dirents whose names the lookup decodes, from an offset on. -/
inductive Decoded (blocks : Blocks) (vol : Volume) (dirIno : Nat) (streq : List UInt8 → Bool) :
    Nat → LookupResult → Prop where
  | here {offset : Nat} {entry : LookupResult} (next : bcachefsNextDirent blocks vol dirIno offset = .ok entry) :
      Decoded blocks vol dirIno streq offset entry
  | later {offset : Nat} {passed entry : LookupResult} {name : List UInt8}
      (next : bcachefsNextDirent blocks vol dirIno offset = .ok passed) (named : direntName passed = .ok name)
      (other : streq name = false) (more : passed.key.p.offset ≠ maxOffset)
      (behind : Decoded blocks vol dirIno streq (passed.key.p.offset + 1) entry) :
      Decoded blocks vol dirIno streq offset entry

variable {dirIno : Nat} {streq : List UInt8 → Bool}

theorem Decoded.found {offset : Nat} {entry : LookupResult} (decoded : Decoded blocks vol dirIno streq offset entry) :
    Found entry := by
  induction decoded with
  | here next => exact nextDirent_found next
  | later _ _ _ _ _ ih => exact ih

theorem dirLookupLoop_inBounds (dnodes : List Dnode) (fuel offset : Nat)
    (names : ∀ entry, Decoded blocks vol dirIno streq offset entry → NameInValue entry) :
    dirLookupLoop blocks vol dnodes dirIno streq fuel offset ≠ .error .outOfBounds := by
  induction fuel generalizing offset with
  | zero => rintro ⟨⟩
  | succ fuel ih =>
    rw [dirLookupLoop]
    cases next : bcachefsNextDirent blocks vol dirIno offset with
    | error fault =>
      intro run
      cases run
      exact (nextDirent_safe blocks vol dirIno offset).1 next
    | ok entry =>
      rw [ok_bind]
      cases named : direntName entry with
      | error fault =>
        intro run
        cases run
        exact (names entry (.here next)).2.1 named
      | ok name =>
        rw [ok_bind]
        cases same : streq name with
        | true => exact (direntToDnode_safe (nextDirent_found next) dnodes).1
        | false =>
          rw [if_neg Bool.false_ne_true]
          split
          · rintro ⟨⟩
          · rename_i more
            exact ih _ fun entry' behind => names entry' (.later next named same more behind)

/-! ### All that is decoded -/

/-- No length that is computed from a value's is wrapped, and no byte is read outside a value. -/
structure ValuesInside (blocks : Blocks) (vol : Volume) (dnodes : List Dnode) (dirIno : Nat)
    (streq : List UInt8 → Bool) : Prop where
  lookup : ∀ entry, Decoded blocks vol dirIno streq 0 entry → NameInValue entry
  lookupReads : fswBcachefsDirLookup blocks vol dnodes dirIno streq ≠ .error .outOfBounds
  read : ∀ pos entry, bcachefsNextDirent blocks vol dirIno pos = .ok entry →
    entry.value.length < 10 ∧ bcachefsDirentToDnode dnodes entry = fail .volumeCorrupted ∨ NameInValue entry
  readReads : ∀ pos, (fswBcachefsDirRead blocks vol dnodes dirIno pos).1 ≠ .error .outOfBounds
  inodeReads : ∀ dnodeId type size, fswBcachefsDnodeFill blocks vol dnodeId type size ≠ .error .outOfBounds
  extent : ∀ {dnodeId logStart phys count}, fswBcachefsGetExtent blocks vol dnodeId .file logStart = .ok (phys, count) →
    ∃ entry, bcachefsBtreeLookup blocks vol btreeExtents
        { inode := dnodeId, offset := u64 (logStart + 1), snapshot := 0 } = .ok entry ∧
      0 < count ∧ logStart + count ≤ entry.key.p.offset
  extentReads : ∀ dnodeId type logStart, fswBcachefsGetExtent blocks vol dnodeId type logStart ≠ .error .outOfBounds

theorem getExtent_count {dnodeId logStart phys count : Nat}
    (run : fswBcachefsGetExtent blocks vol dnodeId .file logStart = .ok (phys, count)) :
    ∃ entry, bcachefsBtreeLookup blocks vol btreeExtents
        { inode := dnodeId, offset := u64 (logStart + 1), snapshot := 0 } = .ok entry ∧
      0 < count ∧ logStart + count ≤ entry.key.p.offset := by
  rw [fswBcachefsGetExtent, if_neg (not_not.mpr rfl)] at run
  obtain ⟨entry, looked, run⟩ := bind_eq_ok.mp run
  have found := btreeLookup_found looked
  refine ⟨entry, looked, ?_⟩
  split at run
  · cases run
  split at run
  · obtain ⟨positive, last⟩ := mapExtentValue_count found run
    exact ⟨positive, Nat.le_of_eq last⟩
  split at run
  · exact mapReflink_count found run
  · cases run

/-- The values of a volume are decoded inside their bytes exactly if every dirent that the lookup of a
name decodes has the nine bytes before its name. -/
theorem valuesInside_iff (blocks : Blocks) (vol : Volume) (dnodes : List Dnode) (dirIno : Nat)
    (streq : List UInt8 → Bool) :
    ValuesInside blocks vol dnodes dirIno streq ↔
      ∀ entry, Decoded blocks vol dirIno streq 0 entry → 9 ≤ entry.value.length := by
  constructor
  · intro inside entry decoded
    exact (nameInValue_iff decoded.found).mp (inside.lookup entry decoded)
  · intro long
    have names : ∀ entry, Decoded blocks vol dirIno streq 0 entry → NameInValue entry :=
      fun entry decoded => (nameInValue_iff decoded.found).mpr (long entry decoded)
    refine ⟨names, dirLookupLoop_inBounds dnodes _ 0 names, fun pos entry next => ?_,
      fun pos => (dirRead_safe blocks vol dnodes dirIno pos).1,
      fun dnodeId type size => (dnodeFill_safe blocks vol dnodeId type size).1, getExtent_count,
      fun dnodeId type logStart => (getExtent_safe blocks vol dnodeId type logStart).1⟩
    by_cases short : entry.value.length < 10
    · exact Or.inl ⟨short, if_pos (Or.inr short)⟩
    · exact Or.inr ((nameInValue_iff (nextDirent_found next)).mpr (by omega))

/-! ### A dirent without a value -/

def shortBlocks : Blocks := fun _ => .ok (plainNode (currentKey 10 1 5 []))

def shortDirent : LookupResult where
  key := { u64s := 5, format := 1, type := 10, size := 0, p := ⟨1, 5, 0⟩ }
  value := []

/-- The length of the name is 4294967287, and the first byte that is read is far behind the value. -/
theorem valuesInside_short : ¬ValuesInside shortBlocks maskedVolume [] 1 fun _ => false := by
  intro inside
  have next : bcachefsNextDirent shortBlocks maskedVolume 1 0 = .ok shortDirent := by decide +kernel
  have wrapped := (inside.lookup shortDirent (.here next)).1
  revert wrapped
  decide

end Meridian.Bcachefs
