import Meridian.Btrfs.Redundancy
import Meridian.Btrfs.TreeSearch
import Meridian.Btrfs.Volume

/-!
# What is read of a volume

A volume that describes itself has its chunks in the bootstrap mapping and in the chunk tree. Whatever is read of
it, also to find the chunks, are its bytes; and where the tree is in chunks of the mapping, and what is missing of
the devices is made up for, all of its chunks are read.
-/

namespace Meridian.Btrfs

open Lib.Attempt Lib.SearchTree
open Lib.SearchTree.Tree (items)
open Lib.Word (u64 u64_of_lt u64_lt)

variable {shift : Nat} {must : Prop} {disks : Disks shift} {fine gone : Nat → Prop} {content : Nat → UInt8}
  {info : VolumeInfo}

/-- A chunk that holds its bytes. If reads must succeed, what is missing of it is made up for. -/
def Chunk.Good (chunk : Chunk) (must : Prop) (disks : Disks shift) (fine gone : Nat → Prop)
    (content : Nat → UInt8) : Prop :=
  ∃ p, chunk.Holds disks content p ∧ (must → p.Tolerates shift chunk fine gone)

/-- An address that the bootstrap mapping has a chunk for. -/
def VolumeInfo.Booted (info : VolumeInfo) (addr : Nat) : Prop :=
  ∃ chunk, bootstrapChunk addr info.bootstrapMapping = .ok (some chunk)

/-- The chunk of an item of the chunk tree. -/
def Item.chunk (item : Item) (content : Nat → UInt8) : BtrfsM Chunk :=
  Chunk.ofBytes item.key.offset (bytesAt content item.addr item.size)

/-- An address that the chunk tree has a chunk for. -/
def Listed (content : Nat → UInt8) {n : Nat} (t : DiskTree n) (addr : Nat) : Prop :=
  ∃ item ∈ items n t, ∃ chunk, item.key = ⟨objectIdChunk, itemTypeChunk, chunk.rawOff⟩ ∧
    item.chunk content = .ok chunk ∧ chunk.rawOff ≤ addr ∧ addr - chunk.rawOff < chunk.size

/-- A part of the bytes that is in chunks of the mapping, if reads must succeed. -/
def VolumeInfo.bootSpace (info : VolumeInfo) (must : Prop) (content : Nat → UInt8) : Space where
  byte := content
  readable addr n := must → ∀ i < n, info.Booted (u64 (addr + i))

/-- A volume that describes itself. -/
structure VolumeInfo.Describes (info : VolumeInfo) (must : Prop) (disks : Disks shift) (fine gone : Nat → Prop)
    (content : Nat → UInt8) {n : Nat} (t : DiskTree n) : Prop where
  boot : ∀ addr chunk, bootstrapChunk addr info.bootstrapMapping = .ok (some chunk) →
    chunk.Good must disks fine gone content
  walked : must → ∀ addr, ∃ found, bootstrapChunk addr info.bootstrapMapping = .ok found
  word : info.chunkTree < 2 ^ 64
  tree : Holds (info.bootSpace must content) n info.chunkTree t
  chunks : ∀ item ∈ items n t, item.key.type = itemTypeChunk →
    (info.bootSpace must content).readable item.addr item.size ∧
      ∀ chunk, item.chunk content = .ok chunk → chunk.Good must disks fine gone content
  apart : must → ∀ item ∈ items n t, ∀ item' ∈ items n t,
    item.key.objectId = item'.key.objectId → item.key.type = item'.key.type → item.key.offset < item'.key.offset →
      ∀ chunk, item.chunk content = .ok chunk → chunk.rawOff + chunk.size ≤ item'.key.offset

/-- What may be read with so many reads inside of reads, at a depth. -/
def VolumeInfo.space (info : VolumeInfo) (must : Prop) (content : Nat → UInt8) {n : Nat} (t : DiskTree n)
    (fuel rdepth : Nat) : Space where
  byte := content
  readable addr size := must → 0 < fuel ∧
    ∀ i < size, info.Booted (u64 (addr + i)) ∨ 1 < fuel ∧ rdepth ≤ 10 ∧ Listed content t (u64 (addr + i))

/-! ### Chunks -/

theorem ofBytes_rawOff {rawOff : Nat} {bytes : List UInt8} {chunk : Chunk}
    (same : Chunk.ofBytes rawOff bytes = .ok chunk) : chunk.rawOff = rawOff := by
  rw [Chunk.ofBytes] at same
  split at same
  · cases same
  · rw [← Except.ok.inj same]

/-- The chunk that the mapping has for an address has the address. -/
theorem bootstrapChunk_has {addr : Nat} {mapping : List UInt8} {chunk : Chunk}
    (found : bootstrapChunk addr mapping = .ok (some chunk)) :
    chunk.rawOff ≤ addr ∧ addr < u64 (chunk.rawOff + chunk.size) := by
  induction length : mapping.length using Nat.strong_induction_on generalizing mapping with
  | _ n ih =>
    rw [bootstrapChunk] at found
    split at found
    · cases found
    rename_i more
    split at found
    · cases found
    split at found
    · cases found
    · rename_i here loaded
      split at found
      · rename_i inside
        rw [← Option.some.inj (Except.ok.inj found)]
        exact inside
      · refine ih _ ?_ found rfl
        rw [List.length_drop, ← length]
        refine Nat.sub_lt (lt_of_le_of_lt (Nat.zero_le _) (Nat.lt_of_not_le more)) ?_
        rw [keySize, chunkItemSize]
        omega

/-- The last item of the chunk tree up to an address that is listed. -/
theorem listed_last {n addr : Nat} {t : DiskTree n} {space : Space} (holds : Holds space n addr t)
    (apart : ∀ item ∈ items n t, ∀ item' ∈ items n t, item.key.objectId = item'.key.objectId →
      item.key.type = item'.key.type → item.key.offset < item'.key.offset →
        ∀ chunk, item.chunk content = .ok chunk → chunk.rawOff + chunk.size ≤ item'.key.offset)
    {a : Nat} (listed : Listed content t a) :
    ∃ item, (upTo Item.key ⟨objectIdChunk, itemTypeChunk, a⟩ (items n t)).getLast? = some item ∧
      item.key.type = itemTypeChunk ∧ item.key.offset ≤ a ∧
        ∃ chunk, item.chunk content = .ok chunk ∧ a - chunk.rawOff < chunk.size := by
  obtain ⟨item, mem, chunk, key, loaded, le, lt⟩ := listed
  have offset : item.key.offset = chunk.rawOff := by rw [key]
  refine ⟨item, (getLast?_upTo holds.ordered.pairwise).mpr ⟨mem, ?_, fun other mem' le' => ?_⟩, ?_,
    le_of_eq_of_le offset le, chunk, loaded, lt⟩
  · rw [key, ← not_lt, Key.lt_iff]
    dsimp only
    omega
  · rw [← not_lt, Key.lt_iff] at le'
    refine not_lt.mp fun above => ?_
    rw [Key.lt_iff, key] at above
    dsimp only at le' above
    have behind := apart item mem other mem' (by rw [key]; dsimp only; omega) (by rw [key]; dsimp only; omega)
      (by omega) chunk loaded
    omega
  · rw [key]

/-- What a search finds that is not nothing is an item of the tree. -/
theorem searched_mem {n : Nat} {t : DiskTree n} {key : Key} {b : Bound}
    (found : b.item = (upTo Item.key key (items n t)).getLast?.getD Item.none)
    (type : b.keyOut.type = itemTypeChunk) : b.item ∈ items n t := by
  cases last : (upTo Item.key key (items n t)).getLast? with
  | none =>
    rw [last, Option.getD_none] at found
    have zero : b.keyOut = Key.zero := congrArg Item.key found
    rw [zero] at type
    exact absurd type (by decide)
  | some item =>
    rw [last, Option.getD_some] at found
    rw [found]
    exact (List.takeWhile_sublist _).mem (List.mem_of_getLast? last)

section
variable {n height fuel rdepth addr : Nat} {t : DiskTree n}
  (describes : info.Describes must disks fine gone content t) (enough : n < height)
include describes enough

/-- The chunk that is found for an address holds the bytes of the volume. -/
theorem findChunk_meets
    (reads : ∀ rdepth, ReadsContent (BtrfsVolume.Sound disks (Serves fine gone)) (fun _ => ¬ must)
      (info.space must content t fuel rdepth) (@readVolume shift info height fuel rdepth))
    (here : must → info.Booted addr ∨ 0 < fuel ∧ rdepth ≤ 10 ∧ Listed content t addr) :
    Meets (BtrfsVolume.Sound disks (Serves fine gone)) (fun _ => ¬ must)
      (findChunk info height (@readVolume shift info height fuel) rdepth addr) fun chunk =>
        chunk.rawOff ≤ addr ∧ chunk.Good must disks fine gone content ∧
          (must → addr - chunk.rawOff < chunk.size) := by
  have boot : Outcome (fun _ => ¬ must) (fun found => bootstrapChunk addr info.bootstrapMapping = .ok found)
      (bootstrapChunk addr info.bootstrapMapping) := by
    cases same : bootstrapChunk addr info.bootstrapMapping with
    | error stop =>
      refine .error fun holds => ?_
      obtain ⟨found, walked⟩ := describes.walked holds addr
      exact absurd (same.symm.trans walked) (by rintro ⟨⟩)
    | ok found => exact .ok rfl
  refine (meets_liftExcept boot).bind fun found same => ?_
  cases found with
  | some chunk =>
    obtain ⟨le, lt⟩ := bootstrapChunk_has same
    exact meets_pure ⟨le, describes.boot addr chunk same, fun _ => by
      have := Nat.mod_le (chunk.rawOff + chunk.size) (2 ^ 64)
      rw [u64] at lt
      omega⟩
  | none =>
    have listed (holds : must) : 0 < fuel ∧ rdepth ≤ 10 ∧ Listed content t addr := by
      rcases here holds with ⟨chunk, booted⟩ | listed
      · exact absurd (same.symm.trans booted) (by rintro ⟨⟩)
      · exact listed
    have tree : ReadsContent (BtrfsVolume.Sound disks (Serves fine gone)) (fun _ => ¬ must)
        (info.bootSpace must content) (@readVolume shift info height fuel (rdepth + 1)) :=
      fun a word size may => reads (rdepth + 1) a word size fun holds =>
        ⟨(listed holds).1, fun i lt => Or.inl (may holds i lt)⟩
    by_cases shallow : rdepth ≤ 10
    · refine (lowerBound_meets tree describes.word describes.tree enough shallow).bind fun b => ?_
      rintro ⟨found, _⟩
      have last (holds : must) : b.item.key.type = itemTypeChunk ∧ b.item.key.offset ≤ addr ∧
          ∃ chunk, b.item.chunk content = .ok chunk ∧ addr - chunk.rawOff < chunk.size := by
        obtain ⟨item, last, rest⟩ := listed_last describes.tree (describes.apart holds) (listed holds).2.2
        rw [last, Option.getD_some] at found
        rwa [found]
      refine meets_ite (fun out => meets_throw fun holds => ?_) fun inside => ?_
      · exact out.elim (Nat.not_lt.mpr (last holds).2.1) fun other => other (last holds).1
      obtain ⟨le, type⟩ := not_or.mp inside
      have mem := searched_mem found (not_not.mp type)
      obtain ⟨may, good⟩ := describes.chunks b.item mem (not_not.mp type)
      refine (reads rdepth b.addr (describes.tree.item_lt mem) b.size fun holds =>
        ⟨(listed holds).1, fun i lt => Or.inl (may holds i lt)⟩).bind ?_
      rintro _ rfl
      refine meets_liftExcept ?_
      cases loaded : b.item.chunk content with
      | error stop =>
        have stopped : Chunk.ofBytes b.keyOut.offset (bytesAt content b.addr b.size) = .error stop := loaded
        refine stopped ▸ .error fun holds => ?_
        obtain ⟨_, _, chunk, same, _⟩ := last holds
        exact absurd (loaded.symm.trans same) (by rintro ⟨⟩)
      | ok chunk =>
        have given : Chunk.ofBytes b.keyOut.offset (bytesAt content b.addr b.size) = .ok chunk := loaded
        have before := le_of_eq_of_le (ofBytes_rawOff given) (not_lt.mp le)
        refine given ▸ .ok ⟨before, good chunk loaded, fun holds => ?_⟩
        obtain ⟨_, _, chunk', same, lt⟩ := last holds
        obtain rfl := Except.ok.inj (loaded.symm.trans same)
        exact lt
    · have deep : Meets (BtrfsVolume.Sound disks (Serves fine gone)) (fun _ => ¬ must)
          (lowerBound (@readVolume shift info height fuel (rdepth + 1)) height
            ⟨objectIdChunk, itemTypeChunk, addr⟩ info.chunkTree rdepth) fun _ => False := by
        rw [lowerBound, if_pos (Nat.not_le.mp shallow)]
        exact meets_throw fun holds => shallow (listed holds).2.1
      exact deep.bind fun _ => False.elim

/-- All reads give the bytes of the volume, and those that must succeed do. -/
theorem readVolume_reads (fuel rdepth : Nat) :
    ReadsContent (BtrfsVolume.Sound disks (Serves fine gone)) (fun _ => ¬ must)
      (info.space must content t fuel rdepth) (@readVolume shift info height fuel rdepth) := by
  induction fuel generalizing rdepth with
  | zero => exact fun addr _ size may => meets_throw fun holds => absurd (may holds).1 (Nat.lt_irrefl 0)
  | succ fuel ih =>
    intro addr word size may vol sound
    have chunk_meets := fun a => @findChunk_meets _ _ _ _ _ _ _ _ _ fuel rdepth a _ describes enough ih
    have inside (i : Nat) (lt : i < size) (holds : must) : info.Booted (u64 (addr + i)) ∨
        0 < fuel ∧ rdepth ≤ 10 ∧ Listed content t (u64 (addr + i)) := by
      rcases (may holds).2 i lt with booted | ⟨more, listed⟩
      · exact Or.inl booted
      · exact Or.inr ⟨Nat.lt_of_succ_lt_succ more, listed⟩
    have finds : FindsChunks
        (fun vol a => findChunk info height (@readVolume shift info height fuel) rdepth a vol) disks
        (Serves fine gone) content
        (fun a => must → info.Booted a ∨ 0 < fuel ∧ rdepth ≤ 10 ∧ Listed content t a) := by
      refine ⟨fun vol sound a _ here => (chunk_meets a here vol sound).1, fun vol sound a _ here chunk same => ?_⟩
      obtain ⟨le, ⟨p, holds, _⟩, _⟩ := (chunk_meets a here).result sound same
      exact ⟨le, p, holds⟩
    obtain ⟨kept, result⟩ := readLogical_ok finds sound word inside
    refine ⟨kept, ?_⟩
    cases same : (@readVolume shift info height (fuel + 1) rdepth addr size vol).1 with
    | ok bytes => exact .ok (result bytes same)
    | error stop =>
      refine .error fun holds => ?_
      have all : FindsAll
          (fun vol a => findChunk info height (@readVolume shift info height fuel) rdepth a vol) disks fine gone
          content (fun a => must → info.Booted a ∨ 0 < fuel ∧ rdepth ≤ 10 ∧ Listed content t a) := by
        intro vol sound a _ here
        obtain ⟨_, outcome⟩ := chunk_meets a here vol sound
        cases found : (findChunk info height (@readVolume shift info height fuel) rdepth a vol).1 with
        | error stop =>
          rw [found] at outcome
          cases outcome with
          | error may => exact absurd holds may
        | ok chunk =>
          obtain ⟨le, ⟨p, holds', tolerates⟩, lt⟩ := (chunk_meets a here).result sound found
          exact ⟨chunk, rfl, le, lt holds, p, holds', tolerates holds⟩
      obtain ⟨bytes, read⟩ := readLogical_succeeds finds all sound word inside
      exact absurd (read.symm.trans same) (by rintro ⟨⟩)

end

theorem BtrfsVolume.Sound.imp {P P' : Devices shift → Prop} {vol : BtrfsVolume shift} (sound : vol.Sound disks P)
    (imp : ∀ devices, P devices → P' devices) : vol.Sound disks P' where
  devices := ⟨⟨sound.devices.now.1, imp _ sound.devices.now.2⟩, fun found devices scan =>
    ⟨(sound.devices.later found devices scan).1, imp _ (sound.devices.later found devices scan).2⟩⟩
  rcache := sound.rcache

/-! ### A volume on two devices -/

/-- A chunk of 64 KiB with two copies, on the devices 1 and 2. -/
def pairChunk : Chunk where
  rawOff := 0
  size := 0x10000
  stripeLength := 0x10000
  type := 0x10
  nstripes := 2
  nsubstripes := 0
  stripes := [⟨1, 0⟩, ⟨2, 0⟩]

def pairMapping : List UInt8 :=
  -- the key, the item, and its stripes
  List.replicate 8 0 ++ [0xe4] ++ List.replicate 8 0 ++
  ([0, 0, 1, 0, 0, 0, 0, 0] ++ List.replicate 8 0 ++ [0, 0, 1, 0, 0, 0, 0, 0] ++ [0x10, 0, 0, 0, 0, 0, 0, 0] ++
    List.replicate 12 0 ++ [2, 0, 0, 0]) ++
  ([1] ++ List.replicate 31 0) ++ ([2] ++ List.replicate 31 0) ++
  List.replicate 18 0

def pairInfo : VolumeInfo := ⟨pairMapping, 0, 0⟩

/-- A volume of zeros of which only the second device is attached. -/
def pairVolume : BtrfsVolume 9 where
  devices := { attached := fun id => id = 2, blockGet := fun _ _ => .ok fun _ => 0 }
  rescan := none
  rcache := fun _ => {}

theorem pairBoot (addr : Nat) : bootstrapChunk addr pairMapping =
    .ok (if addr < 0x10000 then some pairChunk else none) := by
  have long : ¬ pairMapping.length ≤ keySize := by decide +kernel
  have type : (Key.ofBytes pairMapping).type = itemTypeChunk := by decide +kernel
  have loaded : Chunk.ofBytes (Key.ofBytes pairMapping).offset (pairMapping.drop keySize) = .ok pairChunk := by
    decide +kernel
  have rest : bootstrapChunk addr (pairMapping.drop (keySize + chunkItemSize + chunkStripeSize * 2)) =
      .ok none := by
    rw [bootstrapChunk, if_neg (by decide +kernel), if_pos (by decide +kernel)]
  have size : u64 (pairChunk.rawOff + pairChunk.size) = 0x10000 := by decide +kernel
  rw [bootstrapChunk, if_neg long, if_neg (not_not.mpr type), loaded]
  dsimp only
  rw [size]
  by_cases lt : addr < 0x10000
  · rw [if_pos ⟨Nat.zero_le _, lt⟩, if_pos lt]
  · rw [if_neg fun inside => lt inside.2, if_neg lt]
    exact rest

/-- Sectors of zeros. -/
def zeroDisks : Disks 9 := fun _ _ _ => 0

theorem pairChunk_holds : pairChunk.Holds zeroDisks (fun _ => 0) (.mirror 2) where
  wellFormed := by
    refine ⟨rfl, trivial, by decide, rfl, by decide, Nat.dvd_refl _, ?_, ?_, by decide, by decide⟩
    · exact fun k _ => Nat.le_refl 2
    · exact fun k _ => (by decide : 0x10000 * (0 + 1) ≤ 2 ^ 32)
  copies := by
    intros
    rfl
  rows := trivial

/-- The first copy is gone, and the second one is there. -/
theorem pairChunk_tolerates (there : fine 2) (away : gone 1) :
    (Profile.mirror 2).Tolerates 9 pairChunk fine gone := by
  refine fun off _ => ⟨1, by decide, ⟨⟨2, 0⟩, rfl, there⟩, fun c' lt => ⟨⟨1, 0⟩, ?_, away⟩⟩
  obtain rfl : c' = 0 := by omega
  rfl

theorem pairInfo_booted {addr : Nat} (lt : addr < 0x10000) : pairInfo.Booted addr :=
  ⟨pairChunk, by rw [pairInfo, pairBoot, if_pos lt]⟩

/-- Zeros are a leaf without items. -/
theorem zeroLeaf_holds {readable : Nat → Nat → Prop} (may : readable 0 headerSize) :
    Holds ⟨fun _ => 0, readable⟩ 0 0 [] := by
  have head : Header.ofBytes (bytesAt (fun _ => 0) 0 headerSize) = ⟨0, 0⟩ := by decide +kernel
  exact ⟨⟨⟨may, fun _ none => absurd none (Nat.not_lt_zero _)⟩, congrArg Header.level head,
    congrArg Header.nitems head, rfl⟩, List.Pairwise.nil⟩

theorem pairInfo_describes (made : must → fine 2 ∧ gone 1) :
    pairInfo.Describes must zeroDisks fine gone (fun _ => 0) (n := 0) [] where
  boot := by
    intro addr chunk found
    have same := (pairBoot addr).symm.trans found
    split at same
    · rw [← Option.some.inj (Except.ok.inj same)]
      exact ⟨_, pairChunk_holds, fun holds => pairChunk_tolerates (made holds).1 (made holds).2⟩
    · cases same
  walked := fun _ addr => ⟨_, pairBoot addr⟩
  word := by decide
  tree := by
    refine zeroLeaf_holds fun _ i lt => pairInfo_booted ?_
    have short : i < 101 := lt
    rw [u64_of_lt (by omega)]
    omega
  chunks := fun _ none => absurd none List.not_mem_nil
  apart := fun _ _ none => absurd none List.not_mem_nil

/-- The devices that are there, and those that are not. -/
def SecondFine (id : Nat) : Prop := id = 2
def FirstGone (id : Nat) : Prop := id = 1

theorem pairVolume_sound : pairVolume.Sound zeroDisks (Serves SecondFine FirstGone) where
  devices := by
    have serves : Serves SecondFine FirstGone pairVolume.devices := by
      refine ⟨fun id there => ⟨decide_eq_true there, fun _ => ⟨_, rfl⟩⟩, fun id away attached => ?_⟩
      have first : id = 1 := away
      have second : id = 2 := of_decide_eq_true attached
      omega
    exact ⟨⟨fun _ _ _ same => (Except.ok.inj same).symm, serves⟩,
      fun _ _ none => absurd none (Option.some_ne_none _).symm⟩
  rcache := fun _ valid => absurd valid Bool.false_ne_true

/-! ### Reads -/

section
variable {n height : Nat} {t : DiskTree n} {vol : BtrfsVolume shift} {addr : Nat}

end

end Meridian.Btrfs
