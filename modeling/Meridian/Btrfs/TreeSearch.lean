import Mathlib.Data.Prod.Lex
import Meridian.Btrfs.LogicalReads
import Meridian.Btrfs.Trees
import Meridian.Lib.SearchTree

/-!
# Searching a tree that is in order

A tree on the disk holds a list of items in the order of their keys. `fsw_btrfs_lower_bound` finds the last item
up to a key, and leaves a descriptor that stands in front of the items behind it; `fsw_btrfs_next_leaf` takes them
off one after the other.
-/

namespace Meridian.Btrfs

open Lib.Attempt Lib.Codec Lib.SearchTree
open Lib.SearchTree.Tree (items below)
open Lib.Word (u32 u64)

/-! ### The order of keys -/

def Key.lex (k : Key) : Nat ×ₗ Nat ×ₗ Nat := toLex (k.objectId, toLex (k.type, k.offset))

theorem Key.lex_injective : Function.Injective Key.lex := by
  rintro ⟨objectId, type, offset⟩ ⟨objectId', type', offset'⟩ same
  simpa [Key.lex] using same

instance : LinearOrder Key := LinearOrder.lift' Key.lex Key.lex_injective

theorem Key.lt_iff {a b : Key} : a < b ↔ a.objectId < b.objectId ∨ a.objectId = b.objectId ∧
    (a.type < b.type ∨ a.type = b.type ∧ a.offset < b.offset) := by
  show a.lex < b.lex ↔ _
  rw [Key.lex, Key.lex, Prod.Lex.toLex_lt_toLex, Prod.Lex.toLex_lt_toLex]

/-- `fsw_btrfs_key_cmp` is the order of the keys. -/
theorem keyCmp_pos {a b : Key} : keyCmp a b > 0 ↔ b < a := by
  rw [Key.lt_iff, keyCmp]
  grind

theorem keyCmp_eq {a b : Key} : keyCmp a b = 0 ↔ a = b := by
  have fields : a = b ↔ a.objectId = b.objectId ∧ a.type = b.type ∧ a.offset = b.offset := by
    cases a
    cases b
    exact Key.mk.injEq _ _ _ _ _ _ ▸ Iff.rfl
  rw [fields, keyCmp]
  grind

/-! ### Trees on the disk -/

/-- An item of a tree: its key, and where its data are. -/
structure Item where
  key : Key
  addr : Nat
  size : Nat
  deriving DecidableEq, Repr

/-- The trees of a volume. -/
abbrev DiskTree := Tree InternalNode Item

/-- The bytes of a volume, and which of them may be read. -/
structure Space where
  byte : Nat → UInt8
  readable : Nat → Nat → Prop

def headerAt (space : Space) (addr : Nat) : Header := Header.ofBytes (bytesAt space.byte addr headerSize)

def internalAt (space : Space) (entries i : Nat) : InternalNode :=
  InternalNode.ofBytes (bytesAt space.byte (u64 (entries + i * internalNodeSize)) internalNodeSize)

def leafAt (space : Space) (entries i : Nat) : LeafNode :=
  LeafNode.ofBytes (bytesAt space.byte (u64 (entries + i * leafNodeSize)) leafNodeSize)

/-- The header of a node and its entries may be read. -/
def Space.Node (space : Space) (entrySize addr count : Nat) : Prop :=
  space.readable addr headerSize ∧
    ∀ i < count, space.readable (u64 (u64 (addr + headerSize) + i * entrySize)) entrySize

/-- Where the data of an item are is counted from the header of its node. -/
def LeafNode.item (leaf : LeafNode) (entries : Nat) : Item := ⟨leaf.key, u64 (entries + leaf.offset), leaf.size⟩

/-- A tree is stored at an address. -/
def Stored (space : Space) : (n : Nat) → Nat → DiskTree n → Prop
  | 0, addr, elements => space.Node leafNodeSize addr (List.length elements) ∧ (headerAt space addr).level = 0 ∧
      (headerAt space addr).nitems = List.length elements ∧
      (List.range (List.length elements)).map (fun i =>
        (leafAt space (u64 (addr + headerSize)) i).item (u64 (addr + headerSize))) = elements
  | n + 1, addr, children => space.Node internalNodeSize addr (List.length children) ∧
      (headerAt space addr).level ≠ 0 ∧
      (headerAt space addr).nitems = List.length children ∧
      (List.range (List.length children)).map (internalAt space (u64 (addr + headerSize))) =
        List.map Prod.fst children ∧
      ∀ child ∈ children, Stored space n child.1.addr child.2

/-- A stored tree, in the order of its keys. -/
structure Holds (space : Space) (n addr : Nat) (t : DiskTree n) : Prop where
  stored : Stored space n addr t
  ordered : Tree.Ordered InternalNode.key Item.key n t

/-! ### Reads -/

variable {σ : Type} {inv : σ → Prop} {fails : Stop → Prop} {space : Space}
  {read : Nat → Nat → VolumeM σ (List UInt8)}

/-- Whatever is read are the bytes of the volume. -/
def ReadsContent (inv : σ → Prop) (fails : Stop → Prop) (space : Space)
    (read : Nat → Nat → VolumeM σ (List UInt8)) : Prop :=
  ∀ addr < 2 ^ 64, ∀ n, space.readable addr n → Meets inv fails (read addr n) (· = bytesAt space.byte addr n)

section
variable (reads : ReadsContent inv fails space read)
include reads

theorem readHeader_meets {addr : Nat} (word : addr < 2 ^ 64) (may : space.readable addr headerSize) :
    Meets inv fails (readHeader read addr) (· = headerAt space addr) :=
  (reads addr word headerSize may).bind fun bytes same => meets_pure (by rw [same, headerAt])

theorem readInternal_meets {entries i : Nat}
    (may : space.readable (u64 (entries + i * internalNodeSize)) internalNodeSize) :
    Meets inv fails (readInternal read entries i) (· = internalAt space entries i) :=
  (reads _ (Lib.Word.u64_lt _) internalNodeSize may).bind fun bytes same => meets_pure (by rw [same, internalAt])

theorem readLeaf_meets {entries i : Nat}
    (may : space.readable (u64 (entries + i * leafNodeSize)) leafNodeSize) :
    Meets inv fails (readLeaf read entries i) (· = leafAt space entries i) :=
  (reads _ (Lib.Word.u64_lt _) leafNodeSize may).bind fun bytes same => meets_pure (by rw [same, leafAt])

end

/-! ### One node -/

section
variable {α : Type} {readAt : Nat → VolumeM σ α} {keyOf : α → Key} {key : Key}

/-- What the loop over the entries finds in those from `i` on. -/
def lastOf (keyOf : α → Key) (key : Key) (i : Nat) (last : Option (Nat × α)) (l : List α) : Option (Nat × α) :=
  match (upTo keyOf key l).getLast? with
  | some entry => some (i + (upTo keyOf key l).length - 1, entry)
  | none => last

theorem lastOf_cons {i : Nat} {last : Option (Nat × α)} {x : α} (le : keyOf x ≤ key) (l : List α) :
    lastOf keyOf key i last (x :: l) = lastOf keyOf key (i + 1) (some (i, x)) l := by
  rw [lastOf, lastOf, upTo_cons le]
  rcases List.eq_nil_or_concat (upTo keyOf key l) with empty | ⟨init, y, same⟩
  · rw [empty]
    rfl
  · rw [same, List.concat_eq_append, ← List.cons_append, List.getLast?_concat, List.getLast?_concat]
    refine congrArg (fun n => some (n, y)) ?_
    rw [List.cons_append, List.length_cons]
    omega

theorem scan_meets {l : List α} (ordered : l.Pairwise fun e e' => keyOf e < keyOf e') {i : Nat}
    (reads : ∀ k, ∀ entry, l[k]? = some entry → Meets inv fails (readAt (i + k)) (· = entry))
    (last : Option (Nat × α)) :
    Meets inv fails (scan readAt keyOf key i last l.length) (· = lastOf keyOf key i last l) := by
  induction l generalizing i last with
  | nil => exact meets_pure rfl
  | cons x l ih =>
    obtain ⟨first, rest⟩ := List.pairwise_cons.mp ordered
    refine (reads 0 x rfl).bind ?_
    rintro x rfl
    by_cases same : keyCmp (keyOf x) key = 0
    · rw [if_pos same]
      have eq := keyCmp_eq.mp same
      have empty : upTo keyOf key l = [] := by
        cases l with
        | nil => rfl
        | cons y l => exact upTo_cons_of_lt (lt_of_eq_of_lt eq.symm (first y List.mem_cons_self)) l
      refine meets_pure ?_
      rw [lastOf_cons (le_of_eq eq), lastOf, empty]
      rfl
    · rw [if_neg same]
      by_cases behind : keyCmp (keyOf x) key > 0
      · rw [if_pos behind]
        refine meets_pure ?_
        rw [lastOf, upTo_cons_of_lt (keyCmp_pos.mp behind)]
        rfl
      · rw [if_neg behind, lastOf_cons (not_lt.mp fun lt => behind (keyCmp_pos.mpr lt))]
        refine ih rest (fun k entry found => ?_) _
        have here := reads (k + 1) entry found
        rwa [← Nat.add_assoc, Nat.add_right_comm] at here

end

/-! ### The descriptor -/

/-- What a reference of the descriptor has ahead of it: the items of its node behind the place it stands at. -/
inductive Ahead (space : Space) (height : Nat) : List Ref → List Item → Prop
  | nil : Ahead space height [] []
  | leaf (iter : Nat) {addr : Nat} {elements : DiskTree 0} {desc : List Ref} {l : List Item} :
      addr < 2 ^ 64 → Holds space 0 addr elements → Ahead space height desc l →
      Ahead space height (⟨addr, iter, List.length elements, true⟩ :: desc)
        (List.drop (u32 (iter + 1)) elements ++ l)
  | inner (iter : Nat) {n addr : Nat} {children : DiskTree (n + 1)} {desc : List Ref} {l : List Item} :
      addr < 2 ^ 64 → n < height → Holds space (n + 1) addr children → Ahead space height desc l →
      Ahead space height (⟨addr, iter, List.length children, false⟩ :: desc)
        (below (List.drop (u32 (iter + 1)) children) ++ l)

def Bound.item (b : Bound) : Item := ⟨b.keyOut, b.addr, b.size⟩

/-- What a search leaves if there is no item. -/
def Item.none : Item := ⟨Key.zero, 0, 0⟩

theorem nitems_lt (addr : Nat) : (headerAt space addr).nitems < 2 ^ 32 := by
  refine lt_of_lt_of_le (ofLe_lt _) ?_
  refine le_trans (Nat.pow_le_pow_right (by decide) (List.length_take_le 4 _)) (by decide)

theorem internal_lt (entries i : Nat) : (internalAt space entries i).addr < 2 ^ 64 := by
  refine lt_of_lt_of_le (ofLe_lt _) ?_
  refine le_trans (Nat.pow_le_pow_right (by decide) (List.length_take_le 8 _)) (by decide)

/-- The loop over a whole node finds the last entry up to the key, and the place it stands at. -/
theorem node_meets {α : Type} {readAt : Nat → VolumeM σ α} {valueAt : Nat → α}
    {keyOf : α → Key} (key : Key) {l : List α} (reads : ∀ i < l.length, Meets inv fails (readAt i) (· = valueAt i))
    (values : (List.range l.length).map valueAt = l) (ordered : l.Pairwise fun e e' => keyOf e < keyOf e')
    (few : l.length < 2 ^ 32) :
    Meets inv fails (scan readAt keyOf key 0 none l.length) fun found =>
      found.map Prod.snd = (upTo keyOf key l).getLast? ∧
        u32 (found.elim unsignedMax Prod.fst + 1) = (upTo keyOf key l).length := by
  have each (k : Nat) (entry : α) (here : l[k]? = some entry) : Meets inv fails (readAt (0 + k)) (· = entry) := by
    obtain ⟨lt, same⟩ := List.getElem?_eq_some_iff.mp here
    have value : l[k]? = some (valueAt k) := by
      rw [← values, List.getElem?_map, List.getElem?_range lt, Option.map_some]
    rw [Nat.zero_add, ← Option.some.inj (value.symm.trans here)]
    exact reads k lt
  refine (scan_meets ordered each none).imp ?_
  rintro _ rfl
  have length : (upTo keyOf key l).length ≤ l.length := (List.takeWhile_sublist _).length_le
  rw [lastOf]
  cases last : (upTo keyOf key l).getLast? with
  | none =>
    rw [List.getLast?_eq_none_iff.mp last]
    have start : u32 (unsignedMax + 1) = 0 := rfl
    exact ⟨rfl, start⟩
  | some entry =>
    have pos : 0 < (upTo keyOf key l).length := by
      refine List.length_pos_iff.mpr fun empty => ?_
      rw [empty] at last
      cases last
    refine ⟨rfl, ?_⟩
    dsimp only [Option.elim_some]
    rw [Nat.zero_add, Nat.sub_add_cancel pos, Lib.Word.u32_of_lt (lt_of_le_of_lt length few)]

/-- Where elements are made of entries with the same keys, those up to a key are made of the entries up to it. -/
theorem upTo_map {α β : Type} {keyOf : α → Key} {keyOf' : β → Key} {f : α → β} (same : ∀ a, keyOf' (f a) = keyOf a)
    (key : Key) (l : List α) : upTo keyOf' key (l.map f) = (upTo keyOf key l).map f := by
  have keys : (fun b => decide (keyOf' b ≤ key)) ∘ f = fun a => decide (keyOf a ≤ key) :=
    funext fun a => by rw [Function.comp_apply, same]
  rw [upTo, List.takeWhile_map, keys]
  rfl

/-- A child of a node that holds its tree holds its own. -/
theorem Holds.child {n addr : Nat} {children : DiskTree (n + 1)} (holds : Holds space (n + 1) addr children)
    {child : InternalNode × DiskTree n} (mem : child ∈ children) :
    child.1.addr < 2 ^ 64 ∧ Holds space n child.1.addr child.2 := by
  obtain ⟨_, _, _, values, each⟩ := holds.stored
  refine ⟨?_, each child mem, (holds.ordered.2 child mem).1⟩
  have stored := List.mem_map_of_mem (f := Prod.fst) mem
  rw [← values] at stored
  obtain ⟨i, _, same⟩ := List.mem_map.mp stored
  rw [← same]
  exact internal_lt _ i

/-- The items of a tree that is stored are entries of leaves. -/
theorem Holds.fromLeaf {n addr : Nat} {t : DiskTree n} (holds : Holds space n addr t) :
    ∀ item ∈ items n t, ∃ entries i, item = (leafAt space entries i).item entries := by
  induction n generalizing addr with
  | zero =>
    obtain ⟨_, _, _, values⟩ := holds.stored
    intro item mem
    rw [items, ← values] at mem
    obtain ⟨i, _, rfl⟩ := List.mem_map.mp mem
    exact ⟨_, i, rfl⟩
  | succ n ih =>
    intro item mem
    obtain ⟨child, here, below⟩ := List.mem_flatMap.mp mem
    exact ih (holds.child here).2 item below

theorem Holds.item_lt {n addr : Nat} {t : DiskTree n} (holds : Holds space n addr t) {item : Item}
    (mem : item ∈ items n t) : item.addr < 2 ^ 64 := by
  obtain ⟨entries, i, rfl⟩ := holds.fromLeaf item mem
  exact Lib.Word.u64_lt _

theorem Holds.offset_lt {n addr : Nat} {t : DiskTree n} (holds : Holds space n addr t) {item : Item}
    (mem : item ∈ items n t) : item.key.offset < 2 ^ 64 := by
  obtain ⟨entries, i, rfl⟩ := holds.fromLeaf item mem
  refine lt_of_lt_of_le (ofLe_lt _) ?_
  exact le_trans (Nat.pow_le_pow_right (by decide) (List.length_take_le 8 _)) (by decide)

/-- The header of a node may be read. -/
theorem Holds.readable {n addr : Nat} {t : DiskTree n} (holds : Holds space n addr t) :
    space.readable addr headerSize := by
  cases n with
  | zero => exact holds.stored.1.1
  | succ n => exact holds.stored.1.1

theorem drop_upTo {α : Type} (keyOf : α → Key) (key : Key) (l : List α) :
    l.drop (upTo keyOf key l).length = above keyOf key l := by
  have whole := @upTo_append_above _ _ _ keyOf key l
  exact (congrArg (List.drop _) whole.symm).trans (List.drop_left' rfl)

section
variable (reads : ReadsContent inv fails space read)
include reads

/-- The search in a leaf. -/
theorem leaf_meets (key : Key) {addr : Nat} {elements : DiskTree 0} (holds : Holds space 0 addr elements) :
    Meets inv fails (scan (readLeaf read (u64 (addr + headerSize))) LeafNode.key key 0 none
      (headerAt space addr).nitems) fun found =>
        found.map (fun entry => entry.2.item (u64 (addr + headerSize))) = (upTo Item.key key elements).getLast? ∧
          u32 (found.elim unsignedMax Prod.fst + 1) = List.length (upTo Item.key key elements) := by
  obtain ⟨⟨_, may⟩, _, nitems, stored⟩ := holds.stored
  have ordered : List.Pairwise (fun e e' => Item.key e < Item.key e') elements := holds.ordered
  have few := @nitems_lt space addr
  rw [nitems] at few ⊢
  generalize u64 (addr + headerSize) = entries at *
  generalize leaves_eq : (List.range (List.length elements)).map (leafAt space entries) = leaves
  have length : List.length elements = leaves.length := by rw [← leaves_eq, List.length_map, List.length_range]
  have elements_eq : elements = leaves.map fun leaf => leaf.item entries := by
    rw [← leaves_eq, List.map_map]
    exact stored.symm
  rw [length] at few may leaves_eq ⊢
  have up := @upTo_map _ _ LeafNode.key Item.key (fun leaf => leaf.item entries) (fun _ => rfl) key leaves
  rw [elements_eq] at ordered
  rw [elements_eq, up, List.length_map]
  have inOrder : leaves.Pairwise fun e e' => e.key < e'.key :=
    (List.pairwise_map (f := fun leaf : LeafNode => leaf.item entries)).mp ordered
  refine (node_meets key (fun i lt => readLeaf_meets reads (may i lt)) leaves_eq inOrder few).imp ?_
  rintro found ⟨last, place⟩
  rw [List.getLast?_map, ← last, Option.map_map]
  exact ⟨rfl, place⟩

/-- The search in an inner node. -/
theorem inner_meets (key : Key) {n addr : Nat} {children : DiskTree (n + 1)}
    (holds : Holds space (n + 1) addr children) :
    Meets inv fails (scan (readInternal read (u64 (addr + headerSize))) InternalNode.key key 0 none
      (headerAt space addr).nitems) fun found =>
        found.map Prod.snd = ((upTo (fun child => child.1.key) key children).getLast?).map Prod.fst ∧
          u32 (found.elim unsignedMax Prod.fst + 1) =
            List.length (upTo (fun child => child.1.key) key children) := by
  obtain ⟨⟨_, may⟩, _, nitems, stored, _⟩ := holds.stored
  have ordered : List.Pairwise (fun c d : InternalNode × DiskTree n => c.1.key < d.1.key) children :=
    holds.ordered.1.imp fun apart => apart.1
  have few := @nitems_lt space addr
  have length : List.length children = (List.map Prod.fst children).length := (List.length_map _).symm
  rw [nitems, length] at few ⊢
  rw [length] at stored may
  have inOrder : (List.map Prod.fst children).Pairwise fun e e' : InternalNode => e.key < e'.key :=
    List.pairwise_map.mpr ordered
  have up := @upTo_map _ _ (fun child : InternalNode × DiskTree n => child.1.key) InternalNode.key Prod.fst
    (fun _ => rfl) key children
  refine (node_meets key (fun i lt => readInternal_meets reads (may i lt)) stored inOrder few).imp ?_
  rintro found ⟨last, place⟩
  rw [up, List.getLast?_map] at last
  rw [up, List.length_map] at place
  exact ⟨last, place⟩

/-- The search from a node on, which stands in front of the items of `l`. -/
theorem lowerBoundFrom_meets {key : Key} {n height addr fuel : Nat} {t : DiskTree n} (word : addr < 2 ^ 64)
    (holds : Holds space n addr t) (enough : n < fuel) (le : n ≤ height) {desc : List Ref} {l : List Item}
    (ahead : Ahead space height desc l) :
    Meets inv fails (lowerBoundFrom read key fuel addr desc) fun b =>
      b.item = (Tree.search InternalNode.key Item.key key n t).1.getD Item.none ∧
        Ahead space height b.desc ((Tree.search InternalNode.key Item.key key n t).2 ++ l) := by
  induction n generalizing addr fuel desc l with
  | zero =>
    obtain ⟨fuel, rfl⟩ : ∃ more, fuel = more + 1 := ⟨fuel - 1, by omega⟩
    obtain ⟨⟨may, _⟩, level, nitems, _⟩ := holds.stored
    refine (readHeader_meets reads word may).bind ?_
    rintro _ rfl
    rw [if_neg (not_not.mpr level)]
    refine (leaf_meets reads key holds).bind fun found => ?_
    rintro ⟨last, place⟩
    have leaf := Ahead.leaf (found.elim unsignedMax Prod.fst) word holds ahead
    rw [place, drop_upTo, ← nitems] at leaf
    have split : Tree.search InternalNode.key Item.key key 0 t =
        ((upTo Item.key key t).getLast?, above Item.key key t) := rfl
    rw [split, ← last]
    cases found with
    | none => exact meets_pure ⟨rfl, leaf⟩
    | some entry => exact meets_pure ⟨rfl, leaf⟩
  | succ n ih =>
    obtain ⟨fuel, rfl⟩ : ∃ more, fuel = more + 1 := ⟨fuel - 1, by omega⟩
    obtain ⟨⟨may, _⟩, level, nitems, values, each⟩ := holds.stored
    refine (readHeader_meets reads word may).bind ?_
    rintro _ rfl
    rw [if_pos level]
    refine (inner_meets reads key holds).bind fun found => ?_
    rintro ⟨last, place⟩
    have inner := Ahead.inner (found.elim unsignedMax Prod.fst) word (by omega) holds ahead
    rw [place, drop_upTo, ← nitems] at inner
    rw [Tree.search]
    cases chosen : (upTo (fun child : InternalNode × DiskTree n => child.1.key) key t).getLast? with
    | none =>
      rw [chosen] at last
      obtain rfl := Option.map_eq_none_iff.mp last
      have whole := @upTo_append_above _ _ _ (fun child : InternalNode × DiskTree n => child.1.key) key t
      rw [List.getLast?_eq_none_iff.mp chosen, List.nil_append] at whole
      rw [whole] at inner
      exact meets_pure ⟨rfl, inner⟩
    | some child =>
      rw [chosen] at last
      obtain ⟨⟨i, node⟩, rfl, rfl⟩ := Option.map_eq_some_iff.mp last
      have mem : child ∈ t := (List.takeWhile_sublist _).mem (List.mem_of_getLast? chosen)
      obtain ⟨word', holds'⟩ := holds.child mem
      refine (ih word' holds' (by omega) (by omega) inner).imp fun b => ?_
      rintro ⟨item, rest⟩
      rw [← List.append_assoc] at rest
      exact ⟨item, rest⟩

/-- `fsw_btrfs_lower_bound` finds the last item up to the key, and stands in front of the items behind it. -/
theorem lowerBound_meets {key : Key} {n addr fuel rdepth : Nat} {t : DiskTree n} (word : addr < 2 ^ 64)
    (holds : Holds space n addr t) (enough : n < fuel) (shallow : rdepth ≤ 10) :
    Meets inv fails (lowerBound read fuel key addr rdepth) fun b =>
      b.item = (upTo Item.key key (items n t)).getLast?.getD Item.none ∧
        Ahead space n b.desc (above Item.key key (items n t)) := by
  rw [lowerBound, if_neg (Nat.not_lt.mpr shallow)]
  refine (lowerBoundFrom_meets reads word holds enough (Nat.le_refl n) Ahead.nil).imp fun b => ?_
  rw [Tree.search_eq holds.ordered, List.append_nil]
  exact id

end

/-! ### The next item -/

/-- A reference that stands at an entry of its node, with the items from there on ahead. -/
inductive At (space : Space) (height : Nat) : Nat → Ref → List Ref → List Item → Prop
  | leaf {addr i : Nat} {elements : DiskTree 0} {desc : List Ref} {l : List Item} :
      addr < 2 ^ 64 → Holds space 0 addr elements → i < List.length elements → Ahead space height desc l →
      At space height 0 ⟨addr, i, List.length elements, true⟩ desc (List.drop i elements ++ l)
  | inner {n addr i : Nat} {children : DiskTree (n + 1)} {desc : List Ref} {l : List Item} :
      addr < 2 ^ 64 → n < height → Holds space (n + 1) addr children → i < List.length children →
      Ahead space height desc l →
      At space height (n + 1) ⟨addr, i, List.length children, false⟩ desc (below (List.drop i children) ++ l)

theorem At.le {height n : Nat} {ref : Ref} {desc : List Ref} {l : List Item}
    (at_ : At space height n ref desc l) : n ≤ height := by
  cases at_ with
  | leaf => exact Nat.zero_le _
  | inner _ lt => exact lt

/-- The loop up the descriptor comes to the next entry, if there is one. -/
theorem advance_at {height : Nat} {desc : List Ref} {l : List Item} (ahead : Ahead space height desc l) :
    (advance desc = [] ∧ l = []) ∨
      ∃ n ref desc', advance desc = ref :: desc' ∧ At space height n ref desc' l := by
  induction ahead with
  | nil => exact Or.inl ⟨rfl, rfl⟩
  | @leaf iter addr elements desc l word holds ahead ih =>
    rw [advance]
    dsimp only
    split
    · rename_i inside
      exact Or.inr ⟨0, _, _, rfl, At.leaf word holds inside ahead⟩
    · rename_i outside
      rw [List.drop_eq_nil_of_le (Nat.not_lt.mp outside), List.nil_append]
      exact ih
  | @inner iter n addr children desc l word lt holds ahead ih =>
    rw [advance]
    dsimp only
    split
    · rename_i inside
      exact Or.inr ⟨n + 1, _, _, rfl, At.inner word lt holds inside ahead⟩
    · rename_i outside
      rw [List.drop_eq_nil_of_le (Nat.not_lt.mp outside)]
      exact ih

/-- The first entry of a node that is not empty. -/
theorem first_at {height n addr : Nat} {t : DiskTree n} (word : addr < 2 ^ 64) (le : n ≤ height)
    (holds : Holds space n addr t) (some : items n t ≠ []) {desc : List Ref} {l : List Item}
    (ahead : Ahead space height desc l) :
    At space height n ⟨addr, 0, (headerAt space addr).nitems, (headerAt space addr).level = 0⟩ desc
      (items n t ++ l) := by
  cases n with
  | zero =>
    obtain ⟨_, level, nitems, _⟩ := holds.stored
    rw [nitems, decide_eq_true level]
    exact At.leaf word holds (List.length_pos_iff.mpr some) ahead
  | succ n =>
    obtain ⟨_, level, nitems, _, _⟩ := holds.stored
    rw [nitems, decide_eq_false level]
    refine At.inner word le holds (List.length_pos_iff.mpr ?_) ahead
    rintro rfl
    exact some rfl

/-- An item of a leaf, by its number. -/
theorem Holds.item {addr i : Nat} {elements : DiskTree 0} (holds : Holds space 0 addr elements)
    (inside : i < List.length elements) :
    (leafAt space (u64 (addr + headerSize)) i).item (u64 (addr + headerSize)) =
      List.get elements ⟨i, inside⟩ := by
  obtain ⟨_, _, _, values⟩ := holds.stored
  have value := congrArg (·[i]?) values
  rw [List.getElem?_map, List.getElem?_range inside, List.getElem?_eq_getElem inside] at value
  exact Option.some.inj value

/-- The entry of an inner node, by its number. -/
theorem Holds.entry {n addr i : Nat} {children : DiskTree (n + 1)} (holds : Holds space (n + 1) addr children)
    (inside : i < List.length children) :
    internalAt space (u64 (addr + headerSize)) i = (List.get children ⟨i, inside⟩).1 := by
  obtain ⟨_, _, _, values, _⟩ := holds.stored
  have value := congrArg (·[i]?) values
  rw [List.getElem?_map, List.getElem?_map, List.getElem?_range inside, List.getElem?_eq_getElem inside] at value
  exact Option.some.inj value

section
variable (reads : ReadsContent inv fails space read)
include reads

/-- The loop down comes to the first leaf below an entry. -/
theorem descend_meets {height n fuel : Nat} {ref : Ref} {desc : List Ref} {l : List Item}
    (at_ : At space height n ref desc l) (enough : n < fuel) :
    Meets inv fails (descend read fuel ref desc) fun r => At space height 0 r.1 r.2 l := by
  induction n generalizing fuel ref desc l with
  | zero =>
    obtain ⟨fuel, rfl⟩ : ∃ more, fuel = more + 1 := ⟨fuel - 1, by omega⟩
    cases at_ with
    | leaf word holds inside ahead =>
      rw [descend, if_pos rfl]
      exact meets_pure (At.leaf word holds inside ahead)
  | succ n ih =>
    obtain ⟨fuel, rfl⟩ : ∃ more, fuel = more + 1 := ⟨fuel - 1, by omega⟩
    cases at_ with
    | @inner _ addr i children desc l word lt holds inside ahead =>
      have mem : List.get children ⟨i, inside⟩ ∈ children := List.get_mem _ _
      have rest := List.drop_eq_getElem_cons inside
      obtain ⟨word', holds'⟩ := holds.child mem
      have head := (holds.ordered.2 _ mem).2
      have few := @nitems_lt space addr
      rw [holds.stored.2.2.1] at few
      have behind := Ahead.inner i word lt holds ahead
      rw [Lib.Word.u32_of_lt (by omega)] at behind
      rw [descend, if_neg Bool.false_ne_true]
      refine (readInternal_meets reads (holds.stored.1.2 i inside)).bind ?_
      rintro _ rfl
      rw [holds.entry inside]
      refine (readHeader_meets reads word' holds'.readable).bind ?_
      rintro _ rfl
      have some : items n (List.get children ⟨i, inside⟩).2 ≠ [] := by
        intro empty
        rw [empty] at head
        cases head
      have next := first_at word' (Nat.le_of_lt lt) holds' some behind
      rw [rest, Tree.below_cons, List.append_assoc]
      exact ih next (by omega)

/-- `fsw_btrfs_next_leaf` takes the next item off, and finds none at the end. -/
theorem nextLeaf_meets {height fuel : Nat} (enough : height < fuel) {desc : List Ref} {l : List Item}
    (ahead : Ahead space height desc l) :
    Meets inv fails (nextLeaf read fuel desc) fun next =>
      next.map Bound.item = l.head? ∧ ∀ b, next = some b → Ahead space height b.desc l.tail := by
  rcases advance_at ahead with ⟨ended, rfl⟩ | ⟨n, ref, desc', next, at_⟩
  · rw [nextLeaf, ended]
    exact meets_pure ⟨rfl, fun _ none => absurd none (Option.some_ne_none _).symm⟩
  · rw [nextLeaf, next]
    refine (descend_meets reads at_ (lt_of_le_of_lt at_.le enough)).bind ?_
    rintro ⟨ref, desc⟩ atLeaf
    cases atLeaf with
    | @leaf addr i elements _ l word holds inside later =>
      have few := @nitems_lt space addr
      rw [holds.stored.2.2.1] at few
      have behind := Ahead.leaf i word holds later
      rw [Lib.Word.u32_of_lt (by omega)] at behind
      refine (readLeaf_meets reads (holds.stored.1.2 i inside)).bind ?_
      rintro _ rfl
      have place : u64 (addr + headerSize + (leafAt space (u64 (addr + headerSize)) i).offset) =
          u64 (u64 (addr + headerSize) + (leafAt space (u64 (addr + headerSize)) i).offset) := by
        rw [u64, u64, u64, Nat.mod_add_mod]
      rw [List.drop_eq_getElem_cons inside, place]
      refine meets_pure ⟨congrArg some (holds.item inside), ?_⟩
      rintro _ ⟨⟩
      exact behind

/-- What stands at a place behind what was found, after so many steps to the next item. -/
theorem nextLeaves_meets {height fuel : Nat} (enough : height < fuel) (k : Nat) {b : Bound} {l : List Item}
    (ahead : Ahead space height b.desc l) :
    Meets inv fails (nextLeaves read fuel k b) fun found => found.map Bound.item = (b.item :: l)[k]? := by
  induction k generalizing b l with
  | zero => exact meets_pure rfl
  | succ k ih =>
    refine (nextLeaf_meets reads enough ahead).bind fun next => ?_
    rintro ⟨item, later⟩
    cases l with
    | nil =>
      obtain rfl := Option.map_eq_none_iff.mp item
      exact meets_pure rfl
    | cons x l =>
      obtain ⟨b', rfl, rfl⟩ := Option.map_eq_some_iff.mp item
      exact ih (later b' rfl)

/-- The items that a search and the steps behind it come to: the last one up to the key, or nothing, and those
above. -/
def itemsFrom (key : Key) {n : Nat} (t : DiskTree n) : List Item :=
  (upTo Item.key key (items n t)).getLast?.getD Item.none :: above Item.key key (items n t)

end

theorem cursor_meets {read : Nat → Nat → Nat → VolumeM σ (List UInt8)}
    (reads : ∀ rdepth, ReadsContent inv fails space (read rdepth)) {n root fuel : Nat} {t : DiskTree n}
    (word : root < 2 ^ 64) (holds : Holds space n root t) (enough : n < fuel) (key : Key) (k : Nat) :
    Meets inv fails (cursor read fuel key root k) fun found => found.map Bound.item = (itemsFrom key t)[k]? := by
  refine (lowerBound_meets (reads 1) word holds enough (Nat.zero_le 10)).bind fun b => ?_
  rintro ⟨item, ahead⟩
  rw [itemsFrom, ← item]
  exact nextLeaves_meets (reads 0) enough k ahead

end Meridian.Btrfs
