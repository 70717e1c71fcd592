import Meridian.Ext.Inodes
import Meridian.Fsw.BlockFiles
import Meridian.Lib.Indirect
import Meridian.Lib.Result

/-!
# Block addresses

The addresses in an inode are those of twelve blocks and of three trees of blocks with addresses. The loop over a
path ends at the address of the block, or at a hole on the way, and the blocks that are counted from there are those
behind it.
-/

namespace Meridian.Ext

open Lib.Attempt Lib.Codec Lib.Indirect Lib.Result
open Meridian.Fsw

/-! ### Addresses on the disk -/

/-- The number in four bytes of a buffer. -/
def wordAt (buffer : List UInt8) (i : Nat) : Nat := ofLe ((buffer.drop (4 * i)).take 4)

theorem address_eq {buffer : List UInt8} {i : Nat} (inside : 4 * i + 4 ≤ buffer.length) :
    address buffer i = .ok (wordAt buffer i) := by
  rw [address, le, bytesAt_ok inside, wordAt]

/-- The disk of a volume, in blocks with so many addresses. -/
structure Disk where
  blocksize : UInt32
  block : Nat → List UInt8
  whole : ∀ bno, (block bno).length = blocksize.toNat
  width : Nat
  sized : 0 < width
  addresses : 4 * width = blocksize.toNat

theorem Disk.blocksize_pos (disk : Disk) : 0 < disk.blocksize.toNat := by
  rw [← disk.addresses]
  exact Nat.mul_pos (by decide) disk.sized

variable (disk : Disk)

def Disk.slot (bno i : Nat) : Nat := wordAt (disk.block bno) i

def Disk.below (n ptr k : Nat) : Nat := follow disk.slot disk.width n ptr k

def Disk.geometry : Geometry where
  blocksize := disk.blocksize
  indBcnt := disk.width
  dindBcnt := disk.width * disk.width

/-- The address of a block of a file, which is zero for a hole. -/
def Dnode.blockAt (dno : Dnode) (k : Nat) : Nat :=
  let w := disk.width
  if k < ndirBlocks then wordAt dno.block k
  else if k - ndirBlocks < w then disk.below 1 (wordAt dno.block indBlock) (k - ndirBlocks)
  else if k - ndirBlocks - w < w * w then disk.below 2 (wordAt dno.block dindBlock) (k - ndirBlocks - w)
  else disk.below 3 (wordAt dno.block tindBlock) (k - ndirBlocks - w - w * w)

/-! ### The loop over a path -/

variable {disk}
variable {blockGet : Nat → Except FswStatus (List UInt8)} {fails : FswStatus → Prop}

/-- A block is delivered as it is on the disk, or it fails as it may. -/
def Gets (disk : Disk) (fails : FswStatus → Prop) (blockGet : Nat → Except FswStatus (List UInt8)) (bno : Nat) :
    Prop :=
  Outcome fails (· = disk.block bno) (blockGet bno)

/-- The last step of a path. -/
def stepInto (geometry : Geometry) (blockGet : Nat → Except FswStatus (List UInt8)) (next : Nat) :
    Except FswStatus Place → FswM (Except FswStatus Place)
  | .error status => .ok (.error status)
  | .ok place =>
    if place.bno = 0 then .ok (.ok place)
    else
      match blockGet place.bno with
      | .error status => .ok (.error status)
      | .ok buffer => walkPath geometry blockGet buffer geometry.indBcnt next []

theorem walkPath_concat (geometry : Geometry) (buffer : List UInt8) (bufBcnt index : Nat) (path : List Nat)
    (next : Nat) :
    walkPath geometry blockGet buffer bufBcnt index (path ++ [next]) =
      walkPath geometry blockGet buffer bufBcnt index path >>= stepInto geometry blockGet next := by
  induction path generalizing buffer bufBcnt index with
  | nil =>
    rw [List.nil_append, walkPath, walkPath]
    cases address buffer index with
    | error fault => rfl
    | ok bno =>
      change (if bno = 0 then _ else _) = stepInto geometry blockGet next (.ok ⟨buffer, bufBcnt, index, bno⟩)
      rw [stepInto]
      rfl
  | cons first path ih =>
    rw [List.cons_append, walkPath, walkPath]
    cases address buffer index with
    | error fault => rfl
    | ok bno =>
      change (if bno = 0 then _ else _) = (if bno = 0 then _ else _) >>= stepInto geometry blockGet next
      split
      · rename_i zero
        exact (if_pos zero).symm
      · cases blockGet bno with
        | error status => rfl
        | ok buffer => exact ih buffer geometry.indBcnt first

/-- Where the walk to the `k`-th block below a pointer ends: so many levels above the block if that is a hole. -/
structure Ends (disk : Disk) (top : Place) (n k m j : Nat) (place : Place) : Prop where
  levels : m + j = n
  bno : place.bno = disk.below m top.bno (k / disk.width ^ j)
  last : place.bno ≠ 0 → j = 0
  start : m = 0 → place = top
  table : 0 < m → place.bufBcnt = disk.width ∧ place.index = k / disk.width ^ j % disk.width ∧
    ∀ d, place.index + d < disk.width →
      address place.buffer (place.index + d) = .ok (disk.below m top.bno (k / disk.width ^ j + d))

/-- The blocks with addresses on the way can be got. -/
def Readable (disk : Disk) (fails : FswStatus → Prop) (blockGet : Nat → Except FswStatus (List UInt8)) (n ptr : Nat) :
    Prop := ∀ m < n, ∀ k, disk.below m ptr k ≠ 0 → Gets disk fails blockGet (disk.below m ptr k)

/-- The walk along the digits of a block's number. -/
theorem walkPath_ends {buffer : List UInt8} {bufBcnt index bno : Nat} {n k : Nat}
    (here : address buffer index = .ok bno) (readable : Readable disk fails blockGet n bno) :
    ∃ r, walkPath disk.geometry blockGet buffer bufBcnt index (digits disk.width n k) = .ok r ∧
      Outcome fails (fun place => ∃ m j, Ends disk ⟨buffer, bufBcnt, index, bno⟩ n k m j place) r := by
  induction n generalizing k with
  | zero =>
    refine ⟨.ok ⟨buffer, bufBcnt, index, bno⟩, ?_, .ok ⟨0, 0, rfl, rfl, fun _ => rfl, fun _ => rfl, ?_⟩⟩
    · rw [digits, walkPath, here]
      rfl
    · exact fun impossible => absurd impossible (Nat.lt_irrefl 0)
  | succ n ih =>
    obtain ⟨r, walked, outcome⟩ := @ih (k / disk.width) fun m lt => readable m (Nat.lt_succ_of_lt lt)
    rw [digits, walkPath_concat, walked]
    change ∃ r', stepInto disk.geometry blockGet (k % disk.width) r = .ok r' ∧ _
    cases outcome with
    | error may => exact ⟨_, rfl, .error may⟩
    | @ok place ends =>
      obtain ⟨m, j, ends⟩ := ends
      rw [stepInto]
      by_cases zero : place.bno = 0
      · rw [if_pos zero]
        refine ⟨_, rfl, .ok ⟨m, j + 1, ?_, ?_, fun not => absurd zero not, ends.start, ?_⟩⟩
        · rw [← ends.levels, Nat.add_assoc]
        · rw [ends.bno, Nat.div_div_eq_div_mul, ← Nat.pow_succ']
        · rw [Nat.pow_succ', ← Nat.div_div_eq_div_mul]
          exact ends.table
      · rw [if_neg zero]
        obtain rfl := ends.last zero
        obtain rfl : m = n := ends.levels
        have up : place.bno = disk.below m bno (k / disk.width / disk.width ^ 0) := ends.bno
        rw [Nat.pow_zero, Nat.div_one] at up
        have more : disk.below m bno (k / disk.width) ≠ 0 := up ▸ zero
        have gets := readable m (Nat.lt_succ_self m) (k / disk.width) more
        rw [← up] at gets
        rw [Gets] at gets
        generalize blockGet place.bno = got at gets
        cases gets with
        | error may => exact ⟨_, rfl, .error may⟩
        | ok same =>
          subst same
          have small : k % disk.width < disk.width := Nat.mod_lt k disk.sized
          have reads (d : Nat) (inside : k % disk.width + d < disk.width) :
              address (disk.block place.bno) (k % disk.width + d) = .ok (disk.below (m + 1) bno (k + d)) := by
            have whole := disk.whole place.bno
            have width := disk.addresses
            rw [address_eq (by omega), Disk.below, follow_beside more inside, ← Disk.below, ← up, Disk.slot]
          have first := reads 0 small
          rw [Nat.add_zero] at first
          refine ⟨.ok ⟨disk.block place.bno, disk.width, k % disk.width, disk.below (m + 1) bno k⟩, ?_,
            .ok ⟨m + 1, 0, rfl, ?_, fun _ => rfl, fun none => absurd none (Nat.succ_ne_zero m), fun _ => ?_⟩⟩
          · change walkPath disk.geometry blockGet (disk.block place.bno) disk.width (k % disk.width) [] = _
            rw [walkPath, first]
            rfl
          · rw [Nat.pow_zero, Nat.div_one]
          · rw [Nat.pow_zero, Nat.div_one]
            exact ⟨rfl, rfl, reads⟩

/-! ### The blocks of an extent -/

/-- The addresses from a place on, and what they say of the blocks of a file from the `k`-th on. -/
structure Leads (disk : Disk) (dno : Dnode) (hole : Nat → Prop) (k : Nat) (place : Place) (pointer : Nat → Nat) :
    Prop where
  first : pointer 0 = place.bno
  few : place.bufBcnt ≤ max ndirBlocks disk.width
  reads : ∀ d, d = 0 ∨ place.index + d < place.bufBcnt →
    address place.buffer (place.index + d) = .ok (pointer d)
  alike : ∀ d, place.index + d < place.bufBcnt → hole (pointer d)
  blocks : place.bno ≠ 0 → ∀ d, d = 0 ∨ place.index + d < place.bufBcnt → dno.blockAt disk (k + d) = pointer d
  holes : place.bno = 0 → ∀ d, d = 0 ∨ place.index + d < place.bufBcnt → (∀ d' ≤ d, pointer d' = 0) →
    dno.blockAt disk (k + d) = 0

/-- The loop counts addresses as long as each one goes on from the one before it. -/
theorem countRun_counts {buffer : List UInt8} {index logStart fileBcnt left logCount : Nat}
    {goesOn : Nat → Nat → Bool} {pointer : Nat → Nat} (some' : 0 < logCount)
    (reads : ∀ d < logCount + left, address buffer (index + d) = .ok (pointer d)) :
    ∃ c, countRun buffer index logStart fileBcnt goesOn left logCount = .ok c ∧ logCount ≤ c ∧
      c ≤ logCount + left ∧ ∀ d, logCount ≤ d → d < c → goesOn (pointer (d - 1)) (pointer d) = true := by
  induction left generalizing logCount with
  | zero => exact ⟨logCount, rfl, Nat.le_refl _, Nat.le_refl _, fun d from' below => by omega⟩
  | succ left ih =>
    have next := reads logCount (by omega)
    have last := reads (logCount - 1) (by omega)
    rw [← Nat.add_sub_assoc some'] at last
    rw [countRun, next, last]
    have stops : ∃ c, (.ok logCount : FswM Nat) = .ok c ∧ logCount ≤ c ∧ c ≤ logCount + (left + 1) ∧
        ∀ d, logCount ≤ d → d < c → goesOn (pointer (d - 1)) (pointer d) = true :=
      ⟨logCount, rfl, Nat.le_refl _, Nat.le_add_right _ _, fun d from' below => by omega⟩
    split
    · rw [ok_bind, ok_bind]
      split
      · rename_i on
        obtain ⟨c, counted, from', upTo, each⟩ := @ih (logCount + 1) (Nat.succ_pos _) fun d below => reads d (by omega)
        refine ⟨c, counted, by omega, by omega, fun d after below => ?_⟩
        rcases Nat.eq_or_lt_of_le after with rfl | later
        · exact on
        · exact each d later below
      · exact stops
    · exact stops

/-- Where the blocks of a file are. -/
def Dnode.blocks (dno : Dnode) (disk : Disk) (k : Nat) : Option Nat :=
  if dno.blockAt disk k = 0 then none else some (dno.blockAt disk k)

/-- The extents go on over blocks that follow each other, and over holes. -/
structure GoesOn (goesOn : Bool → Nat → Nat → Bool) (hole : Nat → Prop) : Prop where
  block : ∀ last next, goesOn false last next = true → next = u32 (last + 1)
  hole : ∀ next, hole next → goesOn true 0 next = true → next = 0

section
variable {dno : Dnode} {extent : FswExtent} {goesOn : Bool → Nat → Nat → Bool} {k : Nat} {place : Place}
  {pointer : Nat → Nat} {hole : Nat → Prop}

/-- What is counted from a place are blocks that follow each other, or holes. -/
theorem Leads.run (leads : Leads disk dno hole k place pointer) (on : GoesOn goesOn hole)
    (small : ∀ k, dno.blockAt disk k < 2 ^ 32 - 1) {c : Nat}
    (count : c ≤ 1 + (place.bufBcnt - (place.index + 1)))
    (each : ∀ d, 1 ≤ d → d < c → goesOn (place.bno = 0) (pointer (d - 1)) (pointer d) = true) (d : Nat) (below : d < c) :
    dno.blocks disk (k + d) = if place.bno = 0 then none else some (place.bno + d) := by
  have inTable : d = 0 ∨ place.index + d < place.bufBcnt := by omega
  by_cases zero : place.bno = 0
  · have none : ∀ d' ≤ d, pointer d' = 0 := by
      intro d' le
      induction d' with
      | zero => rw [leads.first, zero]
      | succ d' ih =>
        have step := each (d' + 1) (by omega) (by omega)
        rw [decide_eq_true zero, Nat.add_sub_cancel, ih (by omega)] at step
        exact on.hole _ (leads.alike _ (by omega)) step
    rw [if_pos zero, Dnode.blocks, leads.holes zero d inTable none, if_pos rfl]
  · have run : ∀ d' ≤ d, pointer d' = place.bno + d' := by
      intro d' le
      induction d' with
      | zero => rw [leads.first, Nat.add_zero]
      | succ d' ih =>
        have step := each (d' + 1) (by omega) (by omega)
        rw [decide_eq_false zero, Nat.add_sub_cancel] at step
        have before : pointer d' < 2 ^ 32 - 1 := by
          rw [← leads.blocks zero d' (by omega)]
          exact small (k + d')
        rw [on.block _ _ step, u32, Nat.mod_eq_of_lt (by omega), ih (by omega), Nat.add_assoc]
    have here : dno.blockAt disk (k + d) = place.bno + d := by rw [leads.blocks zero d inTable, run d (Nat.le_refl d)]
    have some' : place.bno + d ≠ 0 := by omega
    rw [if_neg zero, Dnode.blocks, here, if_neg some']

/-- The walk to a block of a tree leads to the blocks behind it. -/
theorem Ends.leads {top : Place} {n k m j base : Nat} (ends : Ends disk top n k m j place) (levels : 0 < n)
    (lt : k < disk.width ^ n) (first : address top.buffer top.index = .ok top.bno) (last : top.bufBcnt ≤ top.index)
    (few : top.bufBcnt ≤ ndirBlocks) (region : ∀ x < disk.width ^ n, dno.blockAt disk (base + x) =
      disk.below n top.bno x) (alike : ∀ m k, hole (disk.below m top.bno k)) :
    ∃ pointer, Leads disk dno hole (base + k) place pointer := by
  obtain rfl | some' := Nat.eq_zero_or_pos m
  · obtain rfl := ends.start rfl
    have all : j = n := (Nat.zero_add j).symm.trans ends.levels
    have only {d : Nat} (inside : d = 0 ∨ place.index + d < place.bufBcnt) : d = 0 := by omega
    refine ⟨fun _ => place.bno, rfl, Nat.le_trans few (Nat.le_max_left _ _), fun d inside => ?_,
      fun d inside => absurd inside (by omega), fun not => absurd (ends.last not) (by omega), fun zero d inside _ => ?_⟩
    · rw [only inside]
      exact first
    · rw [only inside, Nat.add_zero, region k lt]
      have none : follow disk.slot disk.width 0 place.bno (k / disk.width ^ n) = 0 := zero
      have below := follow_zero none
      rwa [Nat.zero_add] at below
  · obtain ⟨bcnt, index, reads⟩ := ends.table some'
    have same := ends.levels
    obtain ⟨m, rfl⟩ := Nat.exists_eq_succ_of_ne_zero some'.ne'
    have high : k / disk.width ^ j < disk.width ^ (m + 1) := by
      rw [← same, Nat.pow_add] at lt
      exact (Nat.div_lt_iff_lt_mul (Nat.pow_pos disk.sized)).mpr lt
    have inTable {d : Nat} (inside : d = 0 ∨ place.index + d < place.bufBcnt) : place.index + d < disk.width := by
      have small := Nat.mod_lt (k / disk.width ^ j) disk.sized
      omega
    have inTree {d : Nat} (inside : d = 0 ∨ place.index + d < place.bufBcnt) : k + d < disk.width ^ n := by
      have here := inTable inside
      rw [index] at here
      rw [← same]
      exact above_lt disk.sized high here
    refine ⟨fun d => disk.below (m + 1) top.bno (k / disk.width ^ j + d), ends.bno.symm,
      bcnt.trans_le (Nat.le_max_right _ _), fun d inside => reads d (inTable inside), fun d _ => alike _ _,
      fun not d inside => ?_, fun zero d inside none => ?_⟩
    · obtain rfl := ends.last not
      rw [Nat.add_assoc, region _ (inTree inside), Nat.pow_zero, Nat.div_one, ← same, Nat.add_zero]
    · rw [Nat.add_assoc, region _ (inTree inside), ← same]
      exact follow_hole disk.sized none

end

/-! ### Answers -/

section
variable {extent : FswExtent} {k blocksize count physStart : Nat} {logCount : UInt32} {blocks : Nat → Option Nat}

theorem located_hole (start : extent.logStart = k) (some' : 0 < logCount.toNat)
    (short : logCount.toNat * blocksize < 2 ^ 32) (none : ∀ d < logCount.toNat, k + d < count → blocks (k + d) = none) :
    Located blocksize fails blocks count k (hole extent logCount) := by
  unfold Located hole
  dsimp only
  rw [if_pos ⟨rfl, rfl⟩]
  refine ⟨⟨start.le, ?_⟩, short, fun k' below inside => ?_⟩
  · change k < extent.logStart + logCount.toNat
    omega
  · obtain ⟨first, last⟩ : extent.logStart ≤ k' ∧ k' < extent.logStart + logCount.toNat := inside
    have here := none (k' - k) (by omega)
    rw [Nat.add_sub_cancel' (by omega)] at here
    exact here below

theorem located_found (start : extent.logStart = k) (some' : 0 < logCount.toNat)
    (run : ∀ d < logCount.toNat, k + d < count → blocks (k + d) = some (physStart + d)) :
    Located blocksize fails blocks count k (found extent physStart logCount) := by
  refine ⟨rfl, ⟨start.le, ?_⟩, fun k' below inside => ?_⟩
  · change k < extent.logStart + logCount.toNat
    omega
  · obtain ⟨first, last⟩ : extent.logStart ≤ k' ∧ k' < extent.logStart + logCount.toNat := inside
    have here := run (k' - k) (by omega)
    rw [Nat.add_sub_cancel' (by omega)] at here
    change blocks k' = some (physStart + (k' - extent.logStart))
    rw [start]
    exact here below

end

/-! ### The blocks of an inode -/

/-- A file whose blocks are found by addresses. -/
structure Dnode.Mapped (dno : Dnode) (disk : Disk) (fails : FswStatus → Prop)
    (blockGet : Nat → Except FswStatus (List UInt8)) : Prop where
  whole : 60 ≤ dno.block.length
  single : Readable disk fails blockGet 1 (wordAt dno.block indBlock)
  double : Readable disk fails blockGet 2 (wordAt dno.block dindBlock)
  triple : Readable disk fails blockGet 3 (wordAt dno.block tindBlock)

/-- An address of a file, or of a block with addresses. -/
def Dnode.Address (dno : Dnode) (disk : Disk) (bno : Nat) : Prop :=
  ∃ i < 15, ∃ m k, bno = disk.below m (wordAt dno.block i) k

/-- The blocks that an inode has addresses for. -/
def Disk.reach (disk : Disk) : Nat := ndirBlocks + disk.width + disk.width ^ 2 + disk.width ^ 3

section
variable {dno : Dnode} {hole : Nat → Prop} {k : Nat}

theorem blockAt_address (dno : Dnode) (disk : Disk) (k : Nat) : dno.Address disk (dno.blockAt disk k) := by
  unfold Dnode.blockAt
  dsimp only
  split
  · rename_i lt
    exact ⟨k, Nat.lt_trans lt (by decide), 0, 0, rfl⟩
  · split
    · exact ⟨indBlock, by decide, 1, _, rfl⟩
    · split
      · exact ⟨dindBlock, by decide, 2, _, rfl⟩
      · exact ⟨tindBlock, by decide, 3, _, rfl⟩

/-- A tree of addresses, of which the blocks of the file from one on are. -/
theorem walkPath_tree {n base i : Nat} (levels : 0 < n) (slot : ndirBlocks ≤ i) (inside : i < 15)
    (whole : 60 ≤ dno.block.length) (readable : Readable disk fails blockGet n (wordAt dno.block i))
    (lt : k < disk.width ^ n)
    (region : ∀ x < disk.width ^ n, dno.blockAt disk (base + x) = disk.below n (wordAt dno.block i) x)
    (alike : ∀ bno, dno.Address disk bno → hole bno) :
    ∃ r, walkPath disk.geometry blockGet dno.block ndirBlocks i (digits disk.width n k) = .ok r ∧
      Outcome fails (fun place => ∃ pointer, Leads disk dno hole (base + k) place pointer) r := by
  have here : address dno.block i = .ok (wordAt dno.block i) := address_eq (by omega)
  obtain ⟨r, walked, outcome⟩ := @walkPath_ends disk blockGet fails dno.block ndirBlocks i _ n k here readable
  refine ⟨r, walked, ?_⟩
  cases outcome with
  | error may => exact .error may
  | ok ends =>
    obtain ⟨m, j, ends⟩ := ends
    exact .ok (ends.leads levels lt here slot (Nat.le_refl _) region fun m k => alike _ ⟨i, inside, m, k, rfl⟩)

/-! ### The three trees -/

theorem blockAt_single (dno : Dnode) {x : Nat} (lt : x < disk.width) :
    dno.blockAt disk (ndirBlocks + x) = disk.below 1 (wordAt dno.block indBlock) x := by
  rw [Dnode.blockAt, if_neg (Nat.not_lt.mpr (Nat.le_add_right _ _)), Nat.add_sub_cancel_left, if_pos lt]

theorem blockAt_double (dno : Dnode) {x : Nat} (lt : x < disk.width * disk.width) :
    dno.blockAt disk (ndirBlocks + disk.width + x) = disk.below 2 (wordAt dno.block dindBlock) x := by
  rw [Dnode.blockAt, if_neg (by omega), Nat.add_assoc ndirBlocks, Nat.add_sub_cancel_left, if_neg (by omega),
    Nat.add_sub_cancel_left, if_pos lt]

theorem blockAt_triple (dno : Dnode) (x : Nat) :
    dno.blockAt disk (ndirBlocks + disk.width + disk.width * disk.width + x) =
      disk.below 3 (wordAt dno.block tindBlock) x := by
  rw [Dnode.blockAt, if_neg (by omega), Nat.add_assoc (ndirBlocks + disk.width), Nat.add_assoc ndirBlocks,
    Nat.add_sub_cancel_left, if_neg (by omega), Nat.add_sub_cancel_left, if_neg (by omega), Nat.add_sub_cancel_left]

theorem pathTo_direct (lt : k < ndirBlocks) : pathTo disk.geometry k = (k, []) := if_pos lt

theorem pathTo_single {x : Nat} (lt : x < disk.width) :
    pathTo disk.geometry (ndirBlocks + x) = (indBlock, digits disk.width 1 x) := by
  have ind : disk.geometry.indBcnt = disk.width := rfl
  unfold pathTo
  dsimp only
  rw [ind, if_neg (Nat.not_lt.mpr (Nat.le_add_right _ _)), Nat.add_sub_cancel_left, if_pos lt, digits, digits,
    Nat.mod_eq_of_lt lt, List.nil_append]

theorem pathTo_double {x : Nat} (lt : x < disk.width * disk.width) :
    pathTo disk.geometry (ndirBlocks + disk.width + x) = (dindBlock, digits disk.width 2 x) := by
  have ind : disk.geometry.indBcnt = disk.width := rfl
  have dind : disk.geometry.dindBcnt = disk.width * disk.width := rfl
  have high : x / disk.width < disk.width := (Nat.div_lt_iff_lt_mul disk.sized).mpr lt
  unfold pathTo
  dsimp only
  rw [ind, dind, if_neg (by omega), Nat.add_assoc ndirBlocks, Nat.add_sub_cancel_left, if_neg (by omega),
    Nat.add_sub_cancel_left, if_pos lt, digits, digits, digits, Nat.mod_eq_of_lt high]
  rfl

theorem pathTo_triple {x : Nat} (lt : x < disk.width ^ 3) :
    pathTo disk.geometry (ndirBlocks + disk.width + disk.width * disk.width + x) =
      (tindBlock, digits disk.width 3 x) := by
  have ind : disk.geometry.indBcnt = disk.width := rfl
  have dind : disk.geometry.dindBcnt = disk.width * disk.width := rfl
  have high : x / disk.width / disk.width < disk.width := by
    rw [Nat.div_div_eq_div_mul]
    refine (Nat.div_lt_iff_lt_mul (Nat.mul_pos disk.sized disk.sized)).mpr ?_
    rwa [← Nat.pow_two, Nat.mul_comm, ← Nat.pow_succ]
  unfold pathTo
  dsimp only
  rw [ind, dind, if_neg (by omega), Nat.add_assoc (ndirBlocks + disk.width), Nat.add_assoc ndirBlocks,
    Nat.add_sub_cancel_left, if_neg (by omega), Nat.add_sub_cancel_left, if_neg (by omega), Nat.add_sub_cancel_left,
    digits, digits, digits, digits, Nat.mod_eq_of_lt high, Nat.div_div_eq_div_mul]
  rfl

/-- A direct block leads to the direct blocks behind it. -/
theorem direct_leads (whole : 60 ≤ dno.block.length) (direct : k < ndirBlocks)
    (alike : ∀ bno, dno.Address disk bno → hole bno) :
    address dno.block k = .ok (wordAt dno.block k) ∧
      Leads disk dno hole k ⟨dno.block, ndirBlocks, k, wordAt dno.block k⟩ fun d => wordAt dno.block (k + d) := by
  have twelve : ndirBlocks = 12 := rfl
  have reads (d : Nat) (inside : d = 0 ∨ k + d < ndirBlocks) :
      address dno.block (k + d) = .ok (wordAt dno.block (k + d)) := address_eq (by omega)
  have same (d : Nat) (inside : d = 0 ∨ k + d < ndirBlocks) :
      dno.blockAt disk (k + d) = wordAt dno.block (k + d) := if_pos (by omega)
  refine ⟨reads 0 (.inl rfl), rfl, Nat.le_max_left _ _, reads, fun d inside => alike _ ⟨k + d, ?_, 0, 0, rfl⟩,
    fun _ => same, fun _ d inside none => ?_⟩
  · dsimp only at inside
    omega
  · rw [same d inside]
    exact none d (Nat.le_refl d)

/-- The walk to a block leads to the blocks behind it. -/
theorem Dnode.Mapped.leads (mapped : dno.Mapped disk fails blockGet) (lt : k < disk.reach)
    (alike : ∀ bno, dno.Address disk bno → hole bno) :
    ∃ r, walkPath disk.geometry blockGet dno.block ndirBlocks (pathTo disk.geometry k).1
        (pathTo disk.geometry k).2 = .ok r ∧
      Outcome fails (fun place => ∃ pointer, Leads disk dno hole k place pointer) r := by
  have whole := mapped.whole
  have square : disk.width ^ 2 = disk.width * disk.width := Nat.pow_two _
  unfold Disk.reach at lt
  by_cases direct : k < ndirBlocks
  · obtain ⟨reads, leads⟩ := direct_leads whole direct alike
    rw [pathTo_direct direct]
    refine ⟨.ok ⟨dno.block, ndirBlocks, k, wordAt dno.block k⟩, ?_, .ok ⟨_, leads⟩⟩
    rw [walkPath, reads]
    rfl
  obtain ⟨x, rfl⟩ := Nat.exists_eq_add_of_le (Nat.not_lt.mp direct)
  by_cases one : x < disk.width
  · rw [pathTo_single one]
    dsimp only
    exact walkPath_tree Nat.one_pos (Nat.le_refl _) (by decide) whole mapped.single (by rwa [Nat.pow_one])
      (fun y below => blockAt_single dno (by rwa [Nat.pow_one] at below)) alike
  obtain ⟨y, rfl⟩ := Nat.exists_eq_add_of_le (Nat.not_lt.mp one)
  rw [← Nat.add_assoc] at lt ⊢
  by_cases two : y < disk.width * disk.width
  · rw [pathTo_double two]
    dsimp only
    exact walkPath_tree Nat.two_pos (by decide) (by decide) whole mapped.double (by rwa [square])
      (fun z below => blockAt_double dno (by rwa [square] at below)) alike
  obtain ⟨z, rfl⟩ := Nat.exists_eq_add_of_le (Nat.not_lt.mp two)
  rw [← Nat.add_assoc] at lt ⊢
  have three : z < disk.width ^ 3 := by omega
  rw [pathTo_triple three]
  dsimp only
  exact walkPath_tree (by decide) (by decide) (by decide) whole mapped.triple three
    (fun t _ => blockAt_triple dno t) alike

/-- What is got for a block by its path. -/
theorem getByPath_located {extent : FswExtent} {goesOn : Bool → Nat → Nat → Bool} (on : GoesOn goesOn hole)
    (mapped : dno.Mapped disk fails blockGet) (lt : k < disk.reach) (word : k < 2 ^ 32)
    (start : extent.logStart = k) (size : disk.blocksize.toNat ≤ 65536)
    (small : ∀ bno, dno.Address disk bno → bno < 2 ^ 32 - 1 ∧ hole bno)
    (plain : ∀ status, fails status → ¬ (status = .ioError ∧ extent.type = .invalid)) (count : Nat) :
    ∃ answer, getByPath disk.geometry blockGet dno extent goesOn = .ok answer ∧
      Located disk.blocksize.toNat fails (dno.blocks disk) count k answer := by
  have twelve : ndirBlocks = 12 := rfl
  obtain ⟨r, walked, outcome⟩ := mapped.leads lt fun bno address => (small bno address).2
  have same : u32 extent.logStart = k := by rw [start, u32, Nat.mod_eq_of_lt word]
  rw [getByPath, same]
  dsimp only
  rw [walked, ok_bind]
  cases outcome with
  | error may => exact ⟨_, rfl, (if_neg (plain _ may)).mpr may⟩
  | @ok place leads =>
    obtain ⟨pointer, leads⟩ := leads
    dsimp only
    obtain ⟨c, counted, more, upTo, each⟩ := @countRun_counts place.buffer place.index extent.logStart
      (dno.fileBcnt disk.geometry) (place.bufBcnt - (place.index + 1)) 1 (goesOn (place.bno = 0)) pointer
      Nat.one_pos fun d below => leads.reads d (by omega)
    rw [counted, ok_bind]
    have run := leads.run on (fun k => (small _ (blockAt_address dno disk k)).1) upTo each
    have width := disk.addresses
    have few := leads.few
    have cap : max ndirBlocks disk.width ≤ 16384 := Nat.max_le.mpr ⟨by decide, by omega⟩
    have short : c ≤ 16384 := by
      have := leads.few
      omega
    have counts : (UInt32.ofNat c).toNat = c := UInt32.toNat_ofNat_of_lt' (Nat.lt_of_le_of_lt short (by decide))
    have product := Nat.mul_le_mul short size
    by_cases zero : place.bno = 0
    · rw [if_pos zero]
      refine ⟨_, rfl, located_hole start (by omega) (by rw [counts]; omega) fun d below _ => ?_⟩
      rw [run d (by omega), if_pos zero]
    · rw [if_neg zero]
      refine ⟨_, rfl, located_found start (by omega) fun d below _ => ?_⟩
      rw [run d (by omega), if_neg zero]

end

/-! ### Both file systems -/

section
variable {dno : Dnode} {extent : FswExtent} {k : Nat}

theorem goesOn_ext2 : GoesOn (fun _ last next => next = u32 (last + 1)) (· ≠ 1) where
  block _ _ on := of_decide_eq_true on
  hole _ not on := absurd (of_decide_eq_true on) not

theorem goesOn_ext4 : GoesOn (fun sparse last next => if sparse then next = 0 else next = u32 (last + 1))
    fun _ => True where
  block _ _ on := of_decide_eq_true on
  hole _ _ on := of_decide_eq_true on

/-- `fsw_ext2_get_extent` finds where a block is, or a block on the way is not read. The first block of the disk is
not one of a file, else a hole in front of it would go on over it. -/
theorem fswExt2GetExtent_located (mapped : dno.Mapped disk fails blockGet) (lt : k < disk.reach) (word : k < 2 ^ 32)
    (start : extent.logStart = k) (size : disk.blocksize.toNat ≤ 65536)
    (small : ∀ bno, dno.Address disk bno → bno < 2 ^ 32 - 1 ∧ bno ≠ 1) (count : Nat) :
    ∃ answer, fswExt2GetExtent disk.geometry blockGet dno extent = .ok answer ∧
      Located disk.blocksize.toNat fails (dno.blocks disk) count k answer := by
  have same : ({ extent with type := .physblock, logCount := 1 } : FswExtent).logStart = k := start
  refine getByPath_located goesOn_ext2 mapped lt word same size small (fun status _ impossible => ?_) count
  cases impossible.2

/-- So does `fsw_ext4_get_by_blkaddr`, if no read fails as a hole is told. -/
theorem fswExt4GetByBlkaddr_located (mapped : dno.Mapped disk fails blockGet) (lt : k < disk.reach)
    (word : k < 2 ^ 32) (start : extent.logStart = k) (size : disk.blocksize.toNat ≤ 65536)
    (small : ∀ bno, dno.Address disk bno → bno < 2 ^ 32 - 1) (plain : ¬ fails .ioError) (count : Nat) :
    ∃ answer, fswExt4GetByBlkaddr disk.geometry blockGet dno extent = .ok answer ∧
      Located disk.blocksize.toNat fails (dno.blocks disk) count k answer := by
  have same : ({ extent with logCount := 1 } : FswExtent).logStart = k := start
  refine getByPath_located goesOn_ext4 mapped lt word same size (fun bno address => ⟨small bno address, trivial⟩)
    (fun status may impossible => ?_) count
  obtain ⟨rfl, -⟩ := impossible
  exact plain may

end

end Meridian.Ext
