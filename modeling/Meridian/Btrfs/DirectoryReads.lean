import Meridian.Btrfs.Directories
import Meridian.Btrfs.TreeSearch

/-!
# What a directory holds

A directory is the items of a tree with its number, in the order of the hashes of their names; an item holds the
entries whose names have the hash. A name is looked up in the item of its hash. A directory that is read gives one
child for each item, and none for the item with the hash 0.
-/

namespace Meridian.Btrfs

open Lib.Attempt Lib.SearchTree
open Lib.SearchTree.Tree (items)
open Fsw (FswStatus)

/-! ### Entries -/

/-- The entries of an item, if all of them are inside its bytes. -/
def entries (rest : List UInt8) : Option (List DirItem) :=
  if rest = [] then some []
  else
    let entry := DirItem.ofBytes rest
    if entry.n = 0 ∨ entry.size > rest.length then none
    else (entries (rest.drop entry.size)).map (entry :: ·)
termination_by rest.length
decreasing_by exact drop_dirItem_lt ‹_› _

/-- The first entry and those behind it. -/
theorem entries_cons {rest : List UInt8} (some : rest ≠ []) {es : List DirItem}
    (parsed : entries rest = .some es) :
    (DirItem.ofBytes rest).n ≠ 0 ∧ (DirItem.ofBytes rest).size ≤ rest.length ∧
      ∃ es', entries (rest.drop (DirItem.ofBytes rest).size) = .some es' ∧ es = DirItem.ofBytes rest :: es' := by
  rw [entries, if_neg some] at parsed
  dsimp only at parsed
  split at parsed
  · cases parsed
  · rename_i fits
    obtain ⟨more, inside⟩ := not_or.mp fits
    obtain ⟨es', later, rfl⟩ := Option.map_eq_some_iff.mp parsed
    exact ⟨more, Nat.not_lt.mp inside, es', later, rfl⟩

theorem name_length {rest : List UInt8} (inside : (DirItem.ofBytes rest).size ≤ rest.length) :
    (DirItem.ofBytes rest).name.length = (DirItem.ofBytes rest).n := by
  rw [DirItem.size] at inside
  rw [DirItem.ofBytes] at inside ⊢
  dsimp only at inside ⊢
  rw [List.length_take, List.length_drop]
  omega

/-- The loop over the entries finds the first one with the name. -/
theorem findName_eq (name : List UInt8) {rest : List UInt8} {es : List DirItem}
    (parsed : entries rest = some es) : findName name rest = es.find? fun entry => entry.name = name := by
  induction length : rest.length using Nat.strong_induction_on generalizing rest es with
  | _ n ih =>
    rw [findName]
    split
    · rename_i empty
      rw [entries, if_pos empty] at parsed
      rw [← Option.some.inj parsed]
      rfl
    · rename_i some
      obtain ⟨more, inside, es', later, rfl⟩ := entries_cons some parsed
      have fits : ¬ ((DirItem.ofBytes rest).n = 0 ∨ (DirItem.ofBytes rest).size > rest.length) :=
        not_or.mpr ⟨more, Nat.not_lt.mpr inside⟩
      have same : ((DirItem.ofBytes rest).n = name.length ∧ (DirItem.ofBytes rest).name = name) ↔
          (DirItem.ofBytes rest).name = name := by
        refine ⟨And.right, fun equal => ⟨?_, equal⟩⟩
        rw [← name_length inside, equal]
      dsimp only
      rw [if_neg fits, List.find?_cons]
      by_cases here : (DirItem.ofBytes rest).name = name
      · rw [if_pos (same.mpr here), decide_eq_true here]
      · rw [if_neg (fun both => here (same.mp both)), decide_eq_false here]
        exact ih _ (length ▸ drop_dirItem_lt some _) later rfl

/-! ### Items of a directory -/

variable {σ : Type} {inv : σ → Prop} {space : Space} {read : Nat → Nat → Nat → VolumeM σ (List UInt8)}
  {vol : Mounted} {dno : DirNode} {m n : Nat} {u : DiskTree m} {t : DiskTree n}

/-- The tree that a key of the root tree stands for. -/
def rootTreeOf (space : Space) (u : DiskTree m) (key : Key) : Option Nat :=
  (upTo Item.key key (items m u)).getLast?.bind fun item =>
    if key.type = item.key.type ∧ key.objectId = item.key.objectId then
      some (number (bytesAt space.byte item.addr rootItemSize) 176 8)
    else none

/-- The dnode that is made of an entry. -/
def childOf (space : Space) (u : DiskTree m) (treeId : Nat) (entry : DirItem) (name : List UInt8) : Option Child :=
  if entry.key.type = itemTypeRootItem then
    (rootTreeOf space u entry.key).map fun tree => ⟨tree, 0x100, .dir, name⟩
  else if entry.key.type = itemTypeInodeItem then
    some ⟨treeId, entry.key.objectId, DnodeType.ofDirItemType entry.type, name⟩
  else none

/-- The first entry that a dnode is made of, but for those whose place is at a position. -/
def firstOf (space : Space) (u : DiskTree m) (treeId pos : Nat) (es : List DirItem) : Option Child :=
  (es.filter fun entry => ¬ (pos ≠ 0 ∧ pos = entry.key.offset)).findSome? fun entry =>
    childOf space u treeId entry entry.name

/-- The root tree of a volume, whose items may be read. -/
structure Rooted (space : Space) (vol : Mounted) (u : DiskTree m) : Prop where
  word : vol.rootTree < 2 ^ 64
  deep : m < vol.height
  tree : Holds space m vol.rootTree u
  readable : ∀ item ∈ items m u, item.key.type = itemTypeRootItem → space.readable item.addr rootItemSize

section
variable (reads : ∀ rdepth, ReadsContent inv (fun _ => False) space (read rdepth)) (rooted : Rooted space vol u)
include reads rooted

theorem getRootTree_meets {key : Key} (type : key.type = itemTypeRootItem) :
    Meets inv (fun stop => stop = .status .notFound ∧ rootTreeOf space u key = none) (getRootTree read vol key)
      fun tree => rootTreeOf space u key = some tree := by
  refine ((lowerBound_meets (reads 1) rooted.word rooted.tree rooted.deep (Nat.zero_le 10)).mono
    fun _ => False.elim).bind fun b => ?_
  rintro ⟨found, _⟩
  refine meets_ite (fun other => meets_throw ⟨rfl, ?_⟩) fun same => ?_
  · rw [rootTreeOf]
    cases last : (upTo Item.key key (items m u)).getLast? with
    | none => rfl
    | some item =>
      rw [last, Option.getD_some] at found
      rw [← found, Option.bind_some, if_neg fun both => other.elim (absurd both.1) (absurd both.2)]
  · obtain ⟨sameType, sameId⟩ := not_or.mp same
    rw [not_not] at sameType sameId
    cases last : (upTo Item.key key (items m u)).getLast? with
    | none =>
      rw [last, Option.getD_none] at found
      have zero : b.keyOut = Key.zero := congrArg Item.key found
      rw [type, zero] at sameType
      exact absurd sameType (by decide)
    | some item =>
      rw [last, Option.getD_some] at found
      obtain rfl := found
      have mem := (List.takeWhile_sublist _).mem (List.mem_of_getLast? last)
      refine ((reads 0 b.addr (rooted.tree.item_lt mem) rootItemSize
        (rooted.readable b.item mem (sameType.symm.trans type))).mono fun _ => False.elim).bind ?_
      rintro _ rfl
      refine meets_pure ?_
      rw [rootTreeOf, last, Option.bind_some]
      exact if_pos ⟨sameType, sameId⟩

theorem getSubDnode_meets (treeId : Nat) (entry : DirItem) (name : List UInt8) :
    Meets inv (fun stop => stop.isStatus ∧ childOf space u treeId entry name = none)
      (getSubDnode read vol treeId entry name) fun child => childOf space u treeId entry name = some child := by
  rw [childOf]
  refine meets_ite (fun root => ?_) fun other => meets_ite (fun inode => ?_) fun unknown => ?_
  · rw [if_pos root]
    refine ((getRootTree_meets reads rooted root).mono fun stop => ?_).bind fun tree found => ?_
    · rintro ⟨rfl, none⟩
      rw [none]
      exact ⟨rfl, rfl⟩
    · rw [found]
      exact meets_pure rfl
  · rw [if_neg other, if_pos inode]
    exact meets_pure rfl
  · rw [if_neg other, if_neg unknown]
    exact meets_throw ⟨rfl, rfl⟩

/-- The loop over the entries finds the first one that a dnode is made of. -/
theorem firstChild_meets (pos : Nat) {rest : List UInt8} {es : List DirItem} (parsed : entries rest = some es)
    {fails : Stop → Prop} :
    Meets inv fails (firstChild read vol dno pos rest) (· = firstOf space u dno.treeId pos es) := by
  induction length : rest.length using Nat.strong_induction_on generalizing rest es with
  | _ n ih =>
    rw [firstChild]
    split
    · rename_i empty
      rw [entries, if_pos empty] at parsed
      rw [← Option.some.inj parsed]
      exact meets_pure rfl
    · rename_i some
      obtain ⟨more, inside, es', later, rfl⟩ := entries_cons some parsed
      have next := ih _ (length ▸ drop_dirItem_lt some (DirItem.ofBytes rest)) later rfl
      have size := inside
      rw [DirItem.size] at size
      dsimp only
      rw [if_neg (by omega : ¬ rest.length < dirItemSize), firstOf, List.filter_cons]
      split
      · rename_i skipped
        rw [if_neg (by rw [decide_eq_true_iff, not_not]; exact skipped)]
        exact next
      · rename_i kept
        rw [if_neg (by omega : ¬ rest.length < dirItemSize + (DirItem.ofBytes rest).n),
          if_pos (decide_eq_true kept), List.findSome?_cons]
        generalize DirItem.ofBytes rest = entry at *
        have tried : Meets inv fails (catching Stop.isStatus (getSubDnode read vol dno.treeId entry entry.name))
            (· = childOf space u dno.treeId entry entry.name) := by
          refine (getSubDnode_meets reads rooted dno.treeId entry entry.name).catching (fun _ => Eq.symm) ?_
          rintro stop ⟨status, none⟩
          rw [if_pos status, none]
        refine tried.bind ?_
        rintro _ rfl
        cases childOf space u dno.treeId entry entry.name with
        | some child => exact meets_pure rfl
        | none => exact next

end

/-- The entries of an item. -/
def itemEntries (space : Space) (item : Item) : List DirItem :=
  (entries (bytesAt space.byte item.addr item.size)).getD []

/-- The items of a directory. -/
def dirItems (dno : DirNode) (t : DiskTree n) : List Item := (items n t).filter fun item => dno.has item.key

/-- A directory in its tree: it has an inode, its items have data, and those for its names have entries. -/
structure DirNode.Holds (dno : DirNode) (space : Space) (vol : Mounted) (t : DiskTree n) : Prop where
  word : dno.treeId < 2 ^ 64
  deep : n < vol.height
  tree : Btrfs.Holds space n dno.treeId t
  inode : ∃ item ∈ items n t, item.key = ⟨dno.dnodeId, itemTypeInodeItem, 0⟩
  sized : ∀ item ∈ items n t, item.key.objectId = dno.dnodeId → item.size ≠ 0
  parsed : ∀ item ∈ dirItems dno t, space.readable item.addr item.size ∧
    entries (bytesAt space.byte item.addr item.size) = some (itemEntries space item)

/-! ### Looking up a name -/

/-- The entry for a name: the first one with the name in the item of its hash. -/
def entryOf (space : Space) (dno : DirNode) (t : DiskTree n) (name : List UInt8) : Option DirItem :=
  ((items n t).find? fun item => item.key = ⟨dno.dnodeId, itemTypeDirItem, nameHash name⟩).bind fun item =>
    (itemEntries space item).find? fun entry => entry.name = name

section
variable (reads : ∀ rdepth, ReadsContent inv (fun _ => False) space (read rdepth))
  (holds : dno.Holds space vol t)
include reads holds

/-- A name is found exactly if the item of its hash has an entry for it. -/
theorem lookupDirItem_meets (name : List UInt8) :
    Meets inv (fun stop => stop = .status .notFound ∧ entryOf space dno t name = none)
      (lookupDirItem read vol dno.treeId dno.dnodeId name) fun entry => entryOf space dno t name = some entry := by
  refine ((lowerBound_meets (reads 1) holds.word holds.tree holds.deep (Nat.zero_le 10)).mono
    fun _ => False.elim).bind fun b => ?_
  rintro ⟨found, _⟩
  rw [entryOf, find?_eq_last holds.tree.ordered.pairwise fun item => decide_eq_true_iff]
  have mem {item : Item} (last : (upTo Item.key ⟨dno.dnodeId, itemTypeDirItem, nameHash name⟩
      (items n t)).getLast? = some item) : item ∈ items n t :=
    (List.takeWhile_sublist _).mem (List.mem_of_getLast? last)
  refine meets_ite (fun empty => meets_throw ⟨rfl, ?_⟩) fun sized => meets_ite (fun other => meets_throw ⟨rfl, ?_⟩)
    fun same => ?_
  · cases last : (upTo Item.key ⟨dno.dnodeId, itemTypeDirItem, nameHash name⟩ (items n t)).getLast? with
    | none => rfl
    | some item =>
      rw [last, Option.getD_some] at found
      obtain rfl := found
      rw [Option.filter_some, if_neg]
      · rfl
      · intro same
        refine holds.sized b.item (mem last) ?_ empty
        rw [of_decide_eq_true same]
  · cases last : (upTo Item.key ⟨dno.dnodeId, itemTypeDirItem, nameHash name⟩ (items n t)).getLast? with
    | none => rfl
    | some item =>
      rw [last, Option.getD_some] at found
      obtain rfl := found
      rw [Option.filter_some, if_neg]
      · rfl
      · exact fun same => other (keyCmp_eq.mpr (of_decide_eq_true same).symm)
  · rw [not_not] at same
    have key := keyCmp_eq.mp same
    cases last : (upTo Item.key ⟨dno.dnodeId, itemTypeDirItem, nameHash name⟩ (items n t)).getLast? with
    | none =>
      rw [last, Option.getD_none] at found
      have zero : b.keyOut = Key.zero := congrArg Item.key found
      rw [zero] at key
      exact absurd (congrArg Key.type key) (by decide : itemTypeDirItem ≠ Key.zero.type)
    | some item =>
      rw [last, Option.getD_some] at found
      obtain rfl := found
      have key' : b.item.key = ⟨dno.dnodeId, itemTypeDirItem, nameHash name⟩ := key.symm
      have here : dno.has b.item.key = true :=
        decide_eq_true ⟨congrArg Key.objectId key', congrArg Key.type key'⟩
      obtain ⟨may, parsed⟩ := holds.parsed b.item (List.mem_filter.mpr ⟨mem last, here⟩)
      refine ((reads 0 b.addr (holds.tree.item_lt (mem last)) b.size may).mono fun _ => False.elim).bind ?_
      rintro _ rfl
      have entry : findName name (bytesAt space.byte b.addr b.size) = _ := findName_eq name parsed
      rw [Option.filter_some, if_pos (decide_eq_true key'), Option.bind_some, ← entry]
      cases findName name (bytesAt space.byte b.addr b.size) with
      | none => exact meets_throw ⟨rfl, rfl⟩
      | some entry => exact meets_pure rfl

end

/-! ### A directory with one name -/

/-- A leaf with an inode and an item for the name `a`. -/
def sampleBytes : List UInt8 :=
  -- the header
  List.replicate 96 0 ++ [2, 0, 0, 0] ++ [0] ++
  -- the entries of the leaf
  ([0, 1, 0, 0, 0, 0, 0, 0] ++ [0x01] ++ List.replicate 8 0 ++ [0, 1, 0, 0] ++ [160, 0, 0, 0]) ++
  ([0, 1, 0, 0, 0, 0, 0, 0] ++ [0x54] ++ [0xcc, 0x3f, 0x44, 0xcc, 0, 0, 0, 0] ++ [50, 0, 0, 0] ++ [31, 0, 0, 0]) ++
  -- the entry for the name
  ([1, 1, 0, 0, 0, 0, 0, 0] ++ [0x01] ++ List.replicate 16 0 ++ [0, 0] ++ [1, 0] ++ [1] ++ [0x61])

def sampleSpace : Space where
  byte addr := sampleBytes.getD addr 0
  readable _ _ := True

def sampleRead : Nat → Nat → Nat → VolumeM Unit (List UInt8) := fun _ addr size =>
  pure (bytesAt sampleSpace.byte addr size)

def sampleVol : Mounted where
  isMaster := true
  rootTree := 0x1000
  topTree := 0
  height := 1

def sampleDno : DirNode where
  treeId := 0
  dnodeId := 256
  isRoot := true

def sampleItems : DiskTree 0 := [⟨⟨256, 1, 0⟩, 357, 160⟩, ⟨⟨256, 0x54, 3427024844⟩, 151, 31⟩]

def sampleEntry : DirItem := ⟨⟨257, 1, 0⟩, 0, 1, 1, [0x61]⟩

theorem sampleRead_reads (rdepth : Nat) :
    ReadsContent (fun _ => True) (fun _ => False) sampleSpace (sampleRead rdepth) :=
  fun _ _ _ _ => meets_pure rfl

theorem sampleVol_rooted : Rooted sampleSpace sampleVol (m := 0) [] where
  word := by decide
  deep := Nat.zero_lt_one
  tree := by
    have head : headerAt sampleSpace sampleVol.rootTree = ⟨0, 0⟩ := by decide +kernel
    exact ⟨⟨⟨trivial, fun _ none => absurd none (Nat.not_lt_zero _)⟩, congrArg Header.level head,
      congrArg Header.nitems head, rfl⟩, List.Pairwise.nil⟩
  readable := fun _ none => absurd none List.not_mem_nil

theorem sampleEntries : entries (bytesAt sampleSpace.byte 151 31) = some [sampleEntry] := by
  have first : DirItem.ofBytes (bytesAt sampleSpace.byte 151 31) = sampleEntry := by decide +kernel
  have rest : (bytesAt sampleSpace.byte 151 31).drop sampleEntry.size = [] := by decide +kernel
  have fits : ¬ (sampleEntry.n = 0 ∨ sampleEntry.size > (bytesAt sampleSpace.byte 151 31).length) := by
    decide +kernel
  have none : entries [] = some [] := by rw [entries, if_pos rfl]
  rw [entries, first]
  dsimp only
  rw [if_neg fits, rest, none, if_neg (by decide +kernel)]
  rfl

theorem sampleDno_items : dirItems sampleDno (n := 0) sampleItems = [⟨⟨256, 0x54, 3427024844⟩, 151, 31⟩] := by
  decide +kernel

theorem sampleDno_holds : sampleDno.Holds sampleSpace sampleVol (n := 0) sampleItems where
  word := by decide
  deep := Nat.zero_lt_one
  tree := by
    have head : headerAt sampleSpace 0 = ⟨2, 0⟩ := by decide +kernel
    refine ⟨⟨⟨trivial, fun _ _ => trivial⟩, congrArg Header.level head, congrArg Header.nitems head, ?_⟩, ?_⟩
    · decide +kernel
    · show List.Pairwise (fun e e' => Item.key e < Item.key e') sampleItems
      refine List.pairwise_pair.mpr (Key.lt_iff.mpr ?_)
      decide
  inode := ⟨_, List.mem_cons_self, rfl⟩
  sized := by decide
  parsed := by
    rw [sampleDno_items]
    refine List.forall_mem_singleton.mpr ⟨trivial, ?_⟩
    rw [itemEntries, sampleEntries]
    rfl

/-! ### Reading a directory -/

/-- The items of a directory behind a position. -/
def itemsBehind (dno : DirNode) (t : DiskTree n) (pos : Nat) : List Item :=
  (dirItems dno t).filter fun item => pos < item.key.offset

/-- The first child of some items, and the position behind it. -/
def nextChild (space : Space) (u : DiskTree m) (dno : DirNode) (pos : Nat) (l : List Item) :
    Option (Child × Nat) :=
  l.findSome? fun item =>
    (firstOf space u dno.treeId pos (itemEntries space item)).map fun child => (child, item.key.offset)

theorem DirNode.has_iff {dno : DirNode} {key : Key} :
    dno.has key ↔ key.objectId = dno.dnodeId ∧ key.type = itemTypeDirItem := decide_eq_true_iff

/-- The items behind a position are those in front of the ones above its key. -/
theorem takeWhile_above (dno : DirNode) {t : DiskTree n}
    (ordered : (items n t).Pairwise fun e e' => e.key < e'.key) (pos : Nat) :
    (above Item.key ⟨dno.dnodeId, itemTypeDirItem, pos⟩ (items n t)).takeWhile (fun item => dno.has item.key) =
      itemsBehind dno t pos := by
  have later := ordered.sublist
    (List.dropWhile_sublist fun e : Item => decide (e.key ≤ ⟨dno.dnodeId, itemTypeDirItem, pos⟩))
  change (above Item.key ⟨dno.dnodeId, itemTypeDirItem, pos⟩ (items n t)).Pairwise _ at later
  rw [takeWhile_eq_filter, filter_above ordered, itemsBehind, dirItems, List.filter_filter]
  · refine List.filter_congr fun item _ => ?_
    by_cases here : dno.has item.key
    · obtain ⟨objectId, type⟩ := DirNode.has_iff.mp here
      have behind : (⟨dno.dnodeId, itemTypeDirItem, pos⟩ : Key) < item.key ↔ pos < item.key.offset := by
        rw [Key.lt_iff, objectId, type]
        dsimp only
        omega
      rw [here, Bool.true_and, Bool.and_true]
      exact decide_eq_decide.mpr behind
    · rw [Bool.eq_false_iff.mpr here, Bool.false_and, Bool.and_false]
  · refine List.Pairwise.imp_of_mem (fun {e e'} mem _ lt holds => ?_) later
    have above := lt_of_mem_above ordered mem
    rw [DirNode.has_iff] at holds ⊢
    rw [Key.lt_iff] at above lt
    dsimp only at above
    omega

section
variable (reads : ∀ rdepth, ReadsContent inv (fun _ => False) space (read rdepth)) (rooted : Rooted space vol u)
  (holds : dno.Holds space vol t)
include reads rooted holds

/-- The loop over the items comes to the first child. -/
theorem dirLoop_meets (pos : Nat) {fuel : Nat} {b : Bound} {l : List Item} (ahead : Ahead space n b.desc l)
    (inside : ∀ item ∈ b.item :: l, item ∈ items n t) (few : l.length < fuel) :
    Meets inv
      (fun stop => stop = .status .notFound ∧
        nextChild space u dno pos ((b.item :: l).takeWhile fun item => dno.has item.key) = none)
      (dirLoop read vol dno pos fuel b)
      fun r => nextChild space u dno pos ((b.item :: l).takeWhile fun item => dno.has item.key) = some r := by
  induction fuel generalizing b l with
  | zero => exact absurd few (Nat.not_lt_zero _)
  | succ fuel ih =>
    refine meets_ite (fun other => meets_throw ⟨rfl, ?_⟩) fun here => ?_
    · rw [List.takeWhile_cons_of_neg (p := fun item : Item => dno.has item.key) (a := b.item) other]
      rfl
    rw [not_not] at here
    rw [List.takeWhile_cons_of_pos (p := fun item : Item => dno.has item.key) (a := b.item) here, nextChild,
      List.findSome?_cons]
    have mem := inside b.item List.mem_cons_self
    obtain ⟨may, parsed⟩ := holds.parsed b.item (List.mem_filter.mpr ⟨mem, here⟩)
    refine ((reads 0 b.addr (holds.tree.item_lt mem) b.size may).mono fun _ => False.elim).bind ?_
    rintro _ rfl
    refine (firstChild_meets reads rooted pos parsed).bind ?_
    rintro _ rfl
    cases firstOf space u dno.treeId pos (itemEntries space b.item) with
    | some child => exact meets_pure rfl
    | none =>
      refine ((nextLeaf_meets (reads 0) holds.deep ahead).mono fun _ => False.elim).bind fun next => ?_
      rintro ⟨item, later⟩
      cases l with
      | nil =>
        obtain rfl := Option.map_eq_none_iff.mp item
        exact meets_throw ⟨rfl, rfl⟩
      | cons x l =>
        obtain ⟨b', rfl, rfl⟩ := Option.map_eq_some_iff.mp item
        exact ih (later b' rfl) (fun item mem => inside item (List.mem_cons_of_mem _ mem))
          (Nat.lt_of_succ_lt_succ few)

omit rooted in
theorem nextItem_meets {b : Bound} {l : List Item} (ahead : Ahead space n b.desc l) :
    Meets inv (fun stop => stop = .status .notFound ∧ l = []) (nextItem read vol b) fun b' =>
      ∃ l', l = b'.item :: l' ∧ Ahead space n b'.desc l' := by
  refine ((nextLeaf_meets (reads 0) holds.deep ahead).mono fun _ => False.elim).bind fun next => ?_
  rintro ⟨item, later⟩
  cases l with
  | nil =>
    obtain rfl := Option.map_eq_none_iff.mp item
    exact meets_throw ⟨rfl, rfl⟩
  | cons x l =>
    obtain ⟨b', rfl, rfl⟩ := Option.map_eq_some_iff.mp item
    exact meets_pure ⟨l, rfl, later b' rfl⟩

omit reads rooted in
/-- The last item up to a position is one of the directory's own, and it has data. -/
theorem last_sized {pos : Nat} {b : Bound}
    (found : b.item = (upTo Item.key ⟨dno.dnodeId, itemTypeDirItem, pos⟩ (items n t)).getLast?.getD Item.none) :
    b.size ≠ 0 ∧ b.item.key ≤ ⟨dno.dnodeId, itemTypeDirItem, pos⟩ := by
  obtain ⟨inode, mem, key⟩ := holds.inode
  have before : inode.key ≤ ⟨dno.dnodeId, itemTypeDirItem, pos⟩ := by
    rw [key, ← not_lt, Key.lt_iff]
    dsimp only [itemTypeInodeItem, itemTypeDirItem]
    omega
  cases last : (upTo Item.key ⟨dno.dnodeId, itemTypeDirItem, pos⟩ (items n t)).getLast? with
  | none =>
    have whole := @upTo_append_above _ _ _ Item.key ⟨dno.dnodeId, itemTypeDirItem, pos⟩ (items n t)
    rw [List.getLast?_eq_none_iff.mp last, List.nil_append] at whole
    have mem' : inode ∈ above Item.key ⟨dno.dnodeId, itemTypeDirItem, pos⟩ (items n t) := by
      rw [whole]
      exact mem
    exact absurd (lt_of_mem_above holds.tree.ordered.pairwise mem') (not_lt.mpr before)
  | some item =>
    rw [last, Option.getD_some] at found
    obtain rfl := found
    obtain ⟨mem', le, greatest⟩ := (getLast?_upTo holds.tree.ordered.pairwise).mp last
    refine ⟨holds.sized b.item mem' ?_, le⟩
    have between := greatest inode mem before
    rw [key, ← not_lt, Key.lt_iff] at between
    rw [← not_lt, Key.lt_iff] at le
    dsimp only [itemTypeInodeItem, itemTypeDirItem] at between le
    omega

/-- `fsw_btrfs_dir_read` gives the first child behind the position. -/
theorem dirRead_meets (master : vol.isMaster) {fuel : Nat} (few : (items n t).length ≤ fuel) {pos : Nat} :
    Meets inv
      (fun stop => stop = .status .notFound ∧ nextChild space u dno pos (itemsBehind dno t pos) = none)
      (dirRead read vol fuel dno pos) fun r => nextChild space u dno pos (itemsBehind dno t pos) = some r := by
  have ordered := holds.tree.ordered.pairwise
  refine meets_ite (fun other => absurd master other) fun _ => ?_
  refine meets_ite (fun top => meets_throw ⟨rfl, ?_⟩) fun _ => ?_
  · have none : itemsBehind dno t pos = [] := by
      refine List.filter_eq_nil_iff.mpr fun item mem => ?_
      have below := holds.tree.offset_lt (List.mem_of_mem_filter mem)
      rw [decide_eq_true_iff]
      omega
    rw [none]
    rfl
  refine ((lowerBound_meets (reads 1) holds.word holds.tree holds.deep (Nat.zero_le 10)).mono
    fun _ => False.elim).bind fun b => ?_
  rintro ⟨found, ahead⟩
  obtain ⟨sized, le⟩ := last_sized holds found
  refine meets_ite (fun empty => absurd empty sized) fun _ => ?_
  have front := takeWhile_above dno ordered pos
  have sub : List.Sublist (above Item.key ⟨dno.dnodeId, itemTypeDirItem, pos⟩ (items n t)) (items n t) :=
    List.dropWhile_sublist _
  have gt := fun item mem => @lt_of_mem_above _ _ _ Item.key ⟨dno.dnodeId, itemTypeDirItem, pos⟩ _ ordered item mem
  generalize above Item.key ⟨dno.dnodeId, itemTypeDirItem, pos⟩ (items n t) = l at *
  have ended (stop : Stop) : stop = .status .notFound ∧ l = [] →
      stop = .status .notFound ∧ nextChild space u dno pos (itemsBehind dno t pos) = none := by
    rintro ⟨status, rfl⟩
    rw [← front]
    exact ⟨status, rfl⟩
  have loop {b' : Bound} {l' : List Item} (same : l = b'.item :: l') (ahead' : Ahead space n b'.desc l') :
      Meets inv
        (fun stop => stop = .status .notFound ∧ nextChild space u dno pos (itemsBehind dno t pos) = none)
        (dirLoop read vol dno pos fuel b')
        fun r => nextChild space u dno pos (itemsBehind dno t pos) = some r := by
    have length := sub.length_le
    rw [same] at front sub length
    rw [← front]
    exact dirLoop_meets reads rooted holds pos ahead' (fun item mem => sub.mem mem) (by
      rw [List.length_cons] at length
      omega)
  by_cases own : dno.has b.keyOut
  · obtain ⟨objectId, type⟩ := DirNode.has_iff.mp own
    have before : b.keyOut.offset ≤ pos := by
      rw [← not_lt, Key.lt_iff] at le
      have sameId : b.item.key.objectId = dno.dnodeId := objectId
      have sameType : b.item.key.type = itemTypeDirItem := type
      have same : b.item.key.offset = b.keyOut.offset := rfl
      dsimp only at le
      omega
    rw [if_pos own, pure_bind, if_pos ⟨own, before⟩]
    refine ((nextItem_meets reads holds ahead).mono ended).bind fun b' => ?_
    rintro ⟨l', same, ahead'⟩
    exact loop same ahead'
  · rw [if_neg own]
    refine ((nextItem_meets reads holds ahead).mono ended).bind fun b' => ?_
    rintro ⟨l', same, ahead'⟩
    have behind : ¬ (dno.has b'.keyOut ∧ b'.keyOut.offset ≤ pos) := by
      rintro ⟨own', before⟩
      obtain ⟨objectId, type⟩ := DirNode.has_iff.mp own'
      have above := gt b'.item (same ▸ List.mem_cons_self)
      have sameId : b'.item.key.objectId = dno.dnodeId := objectId
      have sameType : b'.item.key.type = itemTypeDirItem := type
      have sameOffset : b'.item.key.offset = b'.keyOut.offset := rfl
      rw [Key.lt_iff] at above
      dsimp only at above
      omega
    rw [if_neg behind, pure_bind]
    exact loop same ahead'

end

/-! ### The whole directory -/

/-- The children of some items, from a position on. -/
def listing (space : Space) (u : DiskTree m) (dno : DirNode) : Nat → List Item → List Child
  | _, [] => []
  | pos, item :: rest =>
    match firstOf space u dno.treeId pos (itemEntries space item) with
    | some child => child :: listing space u dno item.key.offset rest
    | none => listing space u dno pos rest

theorem listing_none {pos : Nat} {l : List Item} (none : nextChild space u dno pos l = none) :
    listing space u dno pos l = [] := by
  induction l with
  | nil => rfl
  | cons item rest ih =>
    rw [nextChild, List.findSome?_cons] at none
    rw [listing]
    cases first : firstOf space u dno.treeId pos (itemEntries space item) with
    | some child =>
      rw [first] at none
      cases none
    | none =>
      rw [first] at none
      exact ih none

/-- The next child is the first one of the rest. -/
theorem listing_some {pos pos' : Nat} {child : Child} {l : List Item}
    (next : nextChild space u dno pos l = some (child, pos')) :
    ∃ front item rest, l = front ++ item :: rest ∧ item.key.offset = pos' ∧
      listing space u dno pos l = child :: listing space u dno pos' rest := by
  induction l with
  | nil => cases next
  | cons item rest ih =>
    rw [nextChild, List.findSome?_cons] at next
    rw [listing]
    cases first : firstOf space u dno.treeId pos (itemEntries space item) with
    | some child' =>
      rw [first] at next
      cases next
      exact ⟨[], item, rest, rfl, rfl, rfl⟩
    | none =>
      rw [first] at next
      obtain ⟨front, item', rest', rfl, offset, same⟩ := ih next
      exact ⟨item :: front, item', rest', rfl, offset, same⟩

/-- The items of a directory are in the order of their hashes. -/
theorem dirItems_ordered {t : DiskTree n} (ordered : (items n t).Pairwise fun e e' => e.key < e'.key) :
    (dirItems dno t).Pairwise fun e e' => e.key.offset < e'.key.offset := by
  refine List.Pairwise.imp_of_mem (fun {e e'} mem mem' lt => ?_) (ordered.sublist List.filter_sublist)
  obtain ⟨objectId, type⟩ := DirNode.has_iff.mp (List.mem_filter.mp mem).2
  obtain ⟨objectId', type'⟩ := DirNode.has_iff.mp (List.mem_filter.mp mem').2
  rw [Key.lt_iff] at lt
  omega

/-- The items behind one of those behind a position. -/
theorem itemsBehind_append {t : DiskTree n} (ordered : (items n t).Pairwise fun e e' => e.key < e'.key) {pos : Nat}
    {front rest : List Item} {item : Item} (split : itemsBehind dno t pos = front ++ item :: rest) :
    itemsBehind dno t item.key.offset = rest := by
  have mem : item ∈ itemsBehind dno t pos := by
    rw [split]
    exact List.mem_append_right _ List.mem_cons_self
  have later := of_decide_eq_true (List.mem_filter.mp mem).2
  have inside : itemsBehind dno t item.key.offset =
      (itemsBehind dno t pos).filter fun e => item.key.offset < e.key.offset := by
    rw [itemsBehind, itemsBehind, List.filter_filter]
    refine List.filter_congr fun e _ => ?_
    rw [← Bool.decide_and]
    exact decide_eq_decide.mpr ⟨fun lt => ⟨lt, lt_trans later lt⟩, And.left⟩
  have apart := (@dirItems_ordered dno n t ordered).sublist
    (List.filter_sublist (p := fun e : Item => decide (pos < e.key.offset)))
  change (itemsBehind dno t pos).Pairwise _ at apart
  rw [split] at apart
  obtain ⟨_, behind, across⟩ := List.pairwise_append.mp apart
  rw [inside, split, List.filter_append, List.filter_cons_of_neg, List.filter_eq_nil_iff.mpr, List.nil_append,
    List.filter_eq_self.mpr]
  · exact fun e mem => decide_eq_true ((List.pairwise_cons.mp behind).1 e mem)
  · intro e mem lt
    have before := across e mem item List.mem_cons_self
    have after := of_decide_eq_true lt
    omega
  · rw [decide_eq_true_iff]
    exact lt_irrefl _

section
variable (reads : ∀ rdepth, ReadsContent inv (fun _ => False) space (read rdepth)) (rooted : Rooted space vol u)
  (holds : dno.Holds space vol t)
include reads rooted holds

theorem listDir_meets (master : vol.isMaster) {fuel : Nat} (few : (items n t).length ≤ fuel) {fails : Stop → Prop}
    {k pos : Nat} (enough : (itemsBehind dno t pos).length < k) :
    Meets inv fails (listDir read vol fuel dno k pos)
      (· = listing space u dno pos (itemsBehind dno t pos)) := by
  induction k generalizing pos with
  | zero => exact absurd enough (Nat.not_lt_zero _)
  | succ k ih =>
    have tried : Meets inv fails (catching (fun stop => stop = .status .notFound) (dirRead read vol fuel dno pos))
        (· = nextChild space u dno pos (itemsBehind dno t pos)) := by
      refine (dirRead_meets reads rooted holds master few).catching (fun _ => Eq.symm) ?_
      rintro stop ⟨rfl, none⟩
      rw [if_pos (decide_eq_true rfl), none]
    refine tried.bind ?_
    rintro _ rfl
    cases next : nextChild space u dno pos (itemsBehind dno t pos) with
    | none => exact meets_pure (listing_none next).symm
    | some found =>
      obtain ⟨child, pos'⟩ := found
      obtain ⟨front, item, rest, split, rfl, same⟩ := listing_some next
      have behind := itemsBehind_append holds.tree.ordered.pairwise split
      rw [split, List.length_append, List.length_cons] at enough
      have later := @ih item.key.offset (by rw [behind]; omega)
      refine later.bind ?_
      rintro _ rfl
      rw [same, behind]
      exact meets_pure rfl

end

/-- The first entry of an item that a dnode is made of. -/
def firstEntry (space : Space) (u : DiskTree m) (dno : DirNode) (item : Item) : Option Child :=
  (itemEntries space item).findSome? fun entry => childOf space u dno.treeId entry entry.name

/-- Where no place of an entry has the offset of a hash, each item gives its first child. -/
theorem listing_eq {pos : Nat} {l : List Item} (ordered : l.Pairwise fun e e' => e.key.offset < e'.key.offset)
    (below : ∀ item ∈ l, item.key.offset < 2 ^ 64) (start : ∀ item ∈ l, pos < item.key.offset)
    (places : ∀ item ∈ l, ∀ entry ∈ itemEntries space item, entry.key.offset = 0 ∨ entry.key.offset = 2 ^ 64 - 1) :
    listing space u dno pos l = l.filterMap (firstEntry space u dno) := by
  induction l generalizing pos with
  | nil => rfl
  | cons item rest ih =>
    obtain ⟨first, later⟩ := List.pairwise_cons.mp ordered
    obtain ⟨small, below⟩ := List.forall_mem_cons.mp below
    obtain ⟨here, start⟩ := List.forall_mem_cons.mp start
    obtain ⟨place, places⟩ := List.forall_mem_cons.mp places
    have all : firstOf space u dno.treeId pos (itemEntries space item) = firstEntry space u dno item := by
      rw [firstOf, firstEntry, List.filter_eq_self.mpr]
      intro entry mem
      rw [decide_eq_true_iff]
      rintro ⟨some, same⟩
      rcases place entry mem with zero | top <;> omega
    rw [listing, List.filterMap_cons, all]
    cases firstEntry space u dno item with
    | some child => exact congrArg _ (ih later below first places)
    | none => exact ih later below start places

section
variable (reads : ∀ rdepth, ReadsContent inv (fun _ => False) space (read rdepth)) (rooted : Rooted space vol u)
  (holds : dno.Holds space vol t)
include reads rooted holds

end

end Meridian.Btrfs
