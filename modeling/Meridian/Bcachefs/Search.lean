import Mathlib.Data.Prod.Lex
import Meridian.Bcachefs.Layout
import Meridian.Lib.Overlay

/-!
# Searching a well-formed tree

The nodes of a volume as an ordered tree of overwritten entries, and what `bcachefs_btree_lookup`
finds in it.
-/

namespace Meridian.Bcachefs

open Fsw Lib.Result Lib.Overlay

/-! ### The order of positions -/

def Pos.key (p : Pos) : ℕ ×ₗ ℕ ×ₗ ℕ := toLex (p.inode, toLex (p.offset, p.snapshot))

theorem Pos.key_injective : Function.Injective Pos.key := by
  rintro ⟨inode, offset, snapshot⟩ ⟨inode', offset', snapshot'⟩ same
  simpa [Pos.key] using same

instance : LinearOrder Pos := LinearOrder.lift' Pos.key Pos.key_injective

theorem Pos.lt_iff {a b : Pos} : a < b ↔ a.inode < b.inode ∨ a.inode = b.inode ∧
    (a.offset < b.offset ∨ a.offset = b.offset ∧ a.snapshot < b.snapshot) := by
  show a.key < b.key ↔ _
  rw [Pos.key, Pos.key, Prod.Lex.toLex_lt_toLex, Prod.Lex.toLex_lt_toLex]

theorem Pos.ext_iff' {a b : Pos} :
    a = b ↔ a.inode = b.inode ∧ a.offset = b.offset ∧ a.snapshot = b.snapshot := by
  cases a
  cases b
  simp

/-- `bcachefs_pos_cmp` is the order of the positions. -/
theorem posCmp_lt {a b : Pos} : bcachefsPosCmp a b < 0 ↔ a < b := by
  rw [Pos.lt_iff, bcachefsPosCmp]
  grind

theorem posCmp_le {a b : Pos} : bcachefsPosCmp a b ≤ 0 ↔ a ≤ b := by
  rw [← @not_lt Pos, Pos.lt_iff, bcachefsPosCmp]
  grind

theorem posCmp_ge {a b : Pos} : bcachefsPosCmp a b ≥ 0 ↔ b ≤ a := by
  rw [← @not_lt Pos, Pos.lt_iff, bcachefsPosCmp]
  grind

/-! ### One node -/

variable {blocks : Blocks} {vol : Volume} {ptr : BtreePtr} {bsets : List (List LookupResult)}
  {search : Pos}

abbrev LookupResult.pos (entry : LookupResult) : Pos := entry.key.p

abbrev LookupResult.Dead (entry : LookupResult) : Prop := bcachefsKeyIsDeleted entry.key = true

/-- What the loop keeps of an entry. -/
def LookupResult.kept (entry : LookupResult) : Best :=
  if entry.Dead then { result := { key := entry.key, value := [] }, valid := false }
  else { result := entry, valid := true }

theorem LookupResult.kept_key (entry : LookupResult) : entry.kept.result.key = entry.key := by
  rw [kept]
  split
  · rfl
  · rfl

/-- The search in a node replaces its best entry as the entries' order says. -/
theorem lowerBoundStep_kept (best : Option LookupResult) {entry : LookupResult}
    (short : entry.value.length ≤ maxValueBytes) :
    lowerBoundStep search (best.map LookupResult.kept) entry.key entry.value =
      .ok ((lower LookupResult.pos search best entry).map LookupResult.kept) := by
  have stored : (if !bcachefsKeyIsDeleted entry.key then do
        let result ← bcachefsCopyLookup entry.key entry.value
        pure (some { result, valid := true })
      else pure (some { result := { key := entry.key, value := [] }, valid := false }) :
        FswM (Option Best)) = .ok (some entry.kept) := by
    rw [LookupResult.kept]
    by_cases dead : entry.Dead
    · rw [if_pos dead, dead]
      rfl
    · have live : bcachefsKeyIsDeleted entry.key = false := Bool.eq_false_iff.mpr dead
      rw [if_neg dead, live, Bool.not_false, if_pos rfl, bcachefsCopyLookup, if_neg (by omega)]
      rfl
  unfold lowerBoundStep lower
  by_cases above : search ≤ entry.pos
  · rw [if_pos (posCmp_ge.mpr above), if_pos above]
    cases best with
    | none => exact stored
    | some best =>
      have replace : (bcachefsPosCmp entry.key.p best.kept.result.key.p < 0 ||
          bcachefsPosCmp entry.key.p best.kept.result.key.p = 0 : Bool) =
          decide (entry.pos ≤ best.pos) := by
        rw [best.kept_key, ← Bool.decide_or, decide_eq_decide, ← le_iff_lt_or_eq, posCmp_le]
      simp only [Option.map_some, replace, decide_eq_true_eq]
      by_cases smaller : entry.pos ≤ best.pos
      · rw [if_pos smaller, if_pos smaller]
        exact stored
      · rw [if_neg smaller, if_neg smaller]
        rfl
  · rw [if_neg fun found => above (posCmp_ge.mp found), if_neg above]
    rfl

theorem foldlM_lowerBoundStep (entries : List LookupResult)
    (short : ∀ entry ∈ entries, entry.value.length ≤ maxValueBytes) (best : Option LookupResult) :
    entries.foldlM (fun best entry => lowerBoundStep search best entry.key entry.value)
        (best.map LookupResult.kept) =
      .ok ((entries.foldl (lower LookupResult.pos search) best).map LookupResult.kept) := by
  induction entries generalizing best with
  | nil => rfl
  | cons entry entries ih =>
    obtain ⟨first, rest⟩ := List.forall_mem_cons.mp short
    rw [List.foldlM_cons, lowerBoundStep_kept best first, List.foldl_cons]
    exact ih rest _

/-- What a search answers when the walk keeps this entry. -/
def liveEntry : Option LookupResult → FswM LookupResult
  | some entry => if entry.Dead then fail .notFound else .ok entry
  | none => fail .notFound

theorem nodeLowerBound_eq (held : NodeAt blocks vol ptr bsets) :
    bcachefsNodeLowerBound blocks vol ptr search =
      liveEntry (bsets.flatten.foldl (lower LookupResult.pos search) none) := by
  have walked := walkNode_eq (lowerBoundStep search) held none
  have folded := @foldlM_lowerBoundStep search bsets.flatten
    (fun entry mem => (nodeAt_unpacked held entry mem).value) none
  rw [bcachefsNodeLowerBound, walked]
  rw [Option.map_none] at folded
  rw [folded]
  cases bsets.flatten.foldl (lower LookupResult.pos search) none with
  | none => rfl
  | some entry =>
    rw [ok_bind, Option.map_some, LookupResult.kept, liveEntry]
    by_cases dead : entry.Dead
    · rw [if_pos dead, if_pos dead]
    · rw [if_neg dead, if_neg dead]
      rfl

/-! ### The tree -/

def childOf (entry : LookupResult) : Option BtreePtr :=
  match bcachefsParseBtreePtr entry with
  | .ok ptr => some ptr
  | .error _ => none

theorem childOf_eq_some {entry : LookupResult} (child : childOf entry = some ptr) :
    bcachefsParseBtreePtr entry = .ok ptr := by
  rw [childOf] at child
  split at child
  · rename_i ptr' parsed
    rw [parsed, Option.some.inj child]
  · cases child

def keepEntry (before : List LookupResult) (key : Key) (value : List UInt8) :
    FswM (List LookupResult) := .ok (before ++ [⟨key, value⟩])

theorem nodeAt_unique {bsets' : List (List LookupResult)} (held : NodeAt blocks vol ptr bsets)
    (held' : NodeAt blocks vol ptr bsets') : bsets.flatten = bsets'.flatten := by
  have collected : ∀ entries before : List LookupResult,
      entries.foldlM (fun before entry => keepEntry before entry.key entry.value) before =
        .ok (before ++ entries) := by
    intro entries
    induction entries with
    | nil =>
      intro before
      rw [List.append_nil]
      rfl
    | cons entry entries ih =>
      intro before
      rw [List.foldlM_cons]
      show entries.foldlM (fun before entry => keepEntry before entry.key entry.value)
        (before ++ [entry]) = _
      rw [ih, List.append_assoc, List.singleton_append]
  have walk := walkNode_eq keepEntry held []
  have walk' := walkNode_eq keepEntry held' []
  rw [collected] at walk walk'
  exact Except.ok.inj (walk.symm.trans walk')

/-- The nodes on the volume, with the entries of each from the oldest bset to the newest. -/
def treeNodes (blocks : Blocks) (vol : Volume) : Nodes BtreePtr LookupResult Pos where
  holds ptr entries := ∃ bsets, NodeAt blocks vol ptr bsets ∧ bsets.flatten = entries
  holds_unique := by
    rintro ptr entries entries' ⟨bsets, held, rfl⟩ ⟨bsets', held', rfl⟩
    exact nodeAt_unique held held'
  key := LookupResult.pos
  dead := LookupResult.Dead
  child := childOf

variable {level : Nat} {entry : LookupResult} {entries : List LookupResult}

theorem nodeLowerBound_first (held : (treeNodes blocks vol).holds ptr entries)
    (first : First LookupResult.pos search entries entry) (live : ¬ entry.Dead) :
    bcachefsNodeLowerBound blocks vol ptr search = .ok entry := by
  obtain ⟨bsets, stored, rfl⟩ := held
  rw [nodeLowerBound_eq stored, foldl_lower_eq_some.mpr first]
  exact if_neg live

theorem nodeLowerBound_masked (held : (treeNodes blocks vol).holds ptr entries)
    (masked : ∀ entry, First LookupResult.pos search entries entry → entry.Dead) :
    bcachefsNodeLowerBound blocks vol ptr search = fail .notFound := by
  obtain ⟨bsets, stored, rfl⟩ := held
  rw [nodeLowerBound_eq stored]
  cases found : bsets.flatten.foldl (lower LookupResult.pos search) none with
  | none => rfl
  | some entry => exact if_pos (masked entry (foldl_lower_eq_some.mp found))

theorem descend_finds (found : (treeNodes blocks vol).Finds search level ptr entry) :
    descend blocks vol search level ptr = .ok entry := by
  induction level generalizing ptr with
  | zero =>
    obtain ⟨entries, held, first, live⟩ := found
    exact nodeLowerBound_first held first live
  | succ level ih =>
    obtain ⟨entries, held, inner, first, live, child, parsed, rest⟩ := found
    rw [descend, nodeLowerBound_first held first live]
    show (bcachefsParseBtreePtr inner >>= fun child => descend blocks vol search level child) = _
    rw [childOf_eq_some parsed]
    exact ih rest

/-- A search that comes to a dead entry, or past a leaf's last one, reports that nothing is there. -/
theorem descend_closed (ordered : (treeNodes blocks vol).Ordered level ptr)
    (closed : ¬ (treeNodes blocks vol).Open search level ptr) :
    descend blocks vol search level ptr = fail .notFound := by
  induction level generalizing ptr with
  | zero =>
    obtain ⟨entries, held⟩ := ordered
    apply nodeLowerBound_masked held
    intro entry first
    by_contra live
    exact closed ⟨entries, held, entry, first, live⟩
  | succ level ih =>
    obtain ⟨entries, held, children⟩ := ordered
    rw [descend]
    by_cases masked : ∀ entry, First LookupResult.pos search entries entry → entry.Dead
    · rw [nodeLowerBound_masked held masked]
      rfl
    · obtain ⟨inner, missed⟩ := not_forall.mp masked
      obtain ⟨first, live⟩ := Classical.not_imp.mp missed
      obtain ⟨child, parsed, below, _⟩ := children inner ⟨first.newest, live⟩
      rw [nodeLowerBound_first held first live]
      show (bcachefsParseBtreePtr inner >>= fun child => descend blocks vol search level child) = _
      rw [childOf_eq_some parsed]
      apply ih below
      intro reached
      exact closed ⟨entries, held, inner, first, live, child, parsed, reached⟩

/-- What a lookup is to return: the least live entry from the position on, with its value, or that
nothing is there when no live entry is. -/
def Answers (blocks : Blocks) (vol : Volume) (root : BtreeRoot) (search : Pos)
    (run : FswM LookupResult) : Prop :=
  (∃ entry, run = .ok entry ∧ (treeNodes blocks vol).Least search root.level root.ptr entry) ∨
    run = fail .notFound ∧
      ∀ entry, (treeNodes blocks vol).Below root.level root.ptr entry → ¬ search ≤ entry.pos

/-- A lookup in a well-formed tree is right exactly when the least key from the position on is a live
one in each node on its way, or when the tree has no live key from there on. A deleted key that comes
first hides the live ones after it, and so does a leaf whose keys end before the position. -/
theorem btreeLookup_answers_iff (blocks : Blocks) (vol : Volume) (btreeId : Nat) (root : BtreeRoot)
    (search : Pos) (alive : vol.roots[btreeId]?.join = some root)
    (ordered : (treeNodes blocks vol).Ordered root.level root.ptr) :
    Answers blocks vol root search (bcachefsBtreeLookup blocks vol btreeId search) ↔
      (treeNodes blocks vol).Open search root.level root.ptr ∨
        ∀ entry, (treeNodes blocks vol).Below root.level root.ptr entry → ¬ search ≤ entry.pos := by
  have run : bcachefsBtreeLookup blocks vol btreeId search =
      descend blocks vol search root.level root.ptr := by
    rw [bcachefsBtreeLookup, alive]
  rw [run, Answers]
  constructor
  · rintro (⟨entry, found, _⟩ | ⟨_, nothing⟩)
    · apply Or.inl
      by_contra closed
      rw [descend_closed ordered closed] at found
      cases found
    · exact Or.inr nothing
  · intro either
    by_cases opened : (treeNodes blocks vol).Open search root.level root.ptr
    · obtain ⟨entry, found⟩ := Nodes.open_iff.mp opened
      exact Or.inl ⟨entry, descend_finds found, found.least ordered⟩
    · exact Or.inr ⟨descend_closed ordered opened, either.resolve_left opened⟩

/-! ### A deleted key before a live one -/

/-- A key in the current format. -/
def currentKey (type inode offset : UInt8) (value : List UInt8) : List UInt8 :=
  [5 + (value.length / 8).toUInt8, 1, type] ++ List.replicate 21 0 ++
    [offset, 0, 0, 0, 0, 0, 0, 0, inode, 0, 0, 0, 0, 0, 0, 0] ++ value

/-- A node of one sector, with one bset. -/
def plainNode (keys : List UInt8) : Block where
  bytes := (List.replicate 80 0 ++ [5, 6, 64, 64, 32, 32, 32, 64] ++ List.replicate 70 0 ++
    [(keys.length / 8).toUInt8, 0] ++ keys ++ List.replicate 512 0).take sectorSize
  size := by
    rw [List.length_take, List.length_append, List.length_replicate]
    exact Nat.min_eq_left (Nat.le_add_left _ _)

/-- The entry of a file with inode number 9 and the name `a`. -/
def plainDirent : List UInt8 := [9, 0, 0, 0, 0, 0, 0, 0, 8, 97, 0, 0, 0, 0, 0, 0]

/-- A directory with inode number 1, whose entry at offset 3 was deleted. -/
def maskedKeys : List UInt8 := currentKey 0 1 3 [] ++ currentKey 10 1 5 plainDirent

def maskedBlocks : Blocks := fun _ => .ok (plainNode maskedKeys)

def maskedRoot : BtreeRoot where
  level := 0
  ptr := { offset := 0, sectorsWritten := 1 }

def maskedVolume : Volume where
  blockSizeSectors := 1
  blockBytes := 512
  btreeNodeSectors := 1
  roots := [none, none, some maskedRoot]

def maskedDead : LookupResult where
  key := { u64s := 5, format := 1, type := 0, size := 0, p := ⟨1, 3, 0⟩ }
  value := []

def maskedLive : LookupResult where
  key := { u64s := 7, format := 1, type := 10, size := 0, p := ⟨1, 5, 0⟩ }
  value := plainDirent

def plainFormat : BkeyFormat where
  keyU64s := 5
  nrFields := 6
  bitsPerField := [64, 64, 32, 32, 32, 64]
  fieldOffset := [0, 0, 0, 0, 0, 0]

theorem maskedNode_keys :
    KeysAt (plainNode maskedKeys).bytes plainFormat 256 160 [maskedDead, maskedLive] := by
  have last : KeysAt (plainNode maskedKeys).bytes plainFormat 256 200 [maskedLive] := by
    refine @KeysAt.key _ _ _ 200 40 maskedLive.key [] ?_ ?_ KeysAt.done
    · decide +kernel
    · decide
  refine @KeysAt.key _ _ _ 160 40 maskedDead.key [maskedLive] ?_ ?_ last
  · decide +kernel
  · decide

theorem maskedVolume_node :
    NodeAt maskedBlocks maskedVolume maskedRoot.ptr [[maskedDead, maskedLive]] := by
  have stored : BsetsAt maskedVolume (plainNode maskedKeys).bytes plainFormat 0 1 0
      [[maskedDead, maskedLive]] := by
    refine @BsetsAt.bset _ _ _ _ _ 0 12 _ [] ?_ ?_ ?_ ?_ maskedNode_keys (BsetsAt.full ?_)
    · decide
    · decide +kernel
    · decide +kernel
    · decide
    · decide
  refine @NodeAt.mk _ _ _ (plainNode maskedKeys).bytes plainFormat 0 _ ⟨rfl, 0, ?_, rfl⟩ ?_ rfl
    ?_ ?_ ?_ stored ?_
  · decide
  · decide
  · decide +kernel
  · decide
  · decide +kernel
  · decide

theorem maskedVolume_ordered :
    (treeNodes maskedBlocks maskedVolume).Ordered maskedRoot.level maskedRoot.ptr :=
  ⟨_, _, maskedVolume_node, rfl⟩

theorem maskedVolume_below :
    (treeNodes maskedBlocks maskedVolume).Below maskedRoot.level maskedRoot.ptr maskedLive := by
  refine ⟨_, ⟨_, maskedVolume_node, rfl⟩, ⟨[maskedDead], [], rfl, nofun⟩, ?_⟩
  show ¬ bcachefsKeyIsDeleted maskedLive.key = true
  decide

/-- The key after a deleted one is not found. -/
theorem btreeLookup_masked :
    (treeNodes maskedBlocks maskedVolume).Ordered maskedRoot.level maskedRoot.ptr ∧
      ¬ Answers maskedBlocks maskedVolume maskedRoot ⟨1, 0, 0⟩
        (bcachefsBtreeLookup maskedBlocks maskedVolume 2 ⟨1, 0, 0⟩) := by
  have run : bcachefsBtreeLookup maskedBlocks maskedVolume 2 ⟨1, 0, 0⟩ = fail .notFound := by
    decide +kernel
  refine ⟨maskedVolume_ordered, ?_⟩
  rw [run]
  rintro (⟨entry, found, _⟩ | ⟨_, nothing⟩)
  · cases found
  · apply nothing maskedLive maskedVolume_below
    exact le_of_lt (Pos.lt_iff.mpr (Or.inr ⟨rfl, Or.inl (by decide)⟩))

theorem btreeLookup_answers_from_four :
    Answers maskedBlocks maskedVolume maskedRoot ⟨1, 4, 0⟩
        (bcachefsBtreeLookup maskedBlocks maskedVolume 2 ⟨1, 4, 0⟩) ↔
      (treeNodes maskedBlocks maskedVolume).Open ⟨1, 4, 0⟩ maskedRoot.level maskedRoot.ptr ∨
        ∀ entry, (treeNodes maskedBlocks maskedVolume).Below maskedRoot.level maskedRoot.ptr entry →
          ¬ (⟨1, 4, 0⟩ : Pos) ≤ entry.pos :=
  btreeLookup_answers_iff maskedBlocks maskedVolume 2 maskedRoot ⟨1, 4, 0⟩ rfl maskedVolume_ordered

end Meridian.Bcachefs
