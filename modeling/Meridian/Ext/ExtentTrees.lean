import Meridian.Ext.BlockMaps
import Meridian.Lib.Runs
import Meridian.Lib.SearchTree

/-!
# Trees of extents

The extents of a file are in a tree of nodes. `fsw_ext4_get_by_extent` finds the extent of a block, or the hole up
to the next extent of the same leaf. Behind the last extent of a leaf it takes the rest of the file for a hole, which
it is unless a later leaf has an extent.
-/

namespace Meridian.Ext

open Lib.Attempt Lib.Result Lib.Runs Lib.SearchTree
open Lib.SearchTree.Tree (items below)
open Meridian.Fsw

abbrev ExtentTree := Tree ExtentIdx Extent

/-! ### Trees on the disk -/

section
variable (disk : Disk) (fails : FswStatus → Prop) (blockGet : Nat → Except FswStatus (List UInt8))

/-- A tree is stored, its root in a buffer. The nodes below have addresses of 32 bits. -/
def Stored : (n : Nat) → List UInt8 → ExtentTree n → Prop
  | 0, buffer, extents => ExtentHeader.read buffer = .ok ⟨extentMagic, List.length extents, 0⟩ ∧
      ∀ i (lt : i < List.length extents), Extent.read buffer i = .ok (List.get extents ⟨i, lt⟩)
  | n + 1, buffer, children => children ≠ [] ∧
      (∃ depth, depth ≠ 0 ∧ ExtentHeader.read buffer = .ok ⟨extentMagic, List.length children, depth⟩) ∧
      (∀ i (lt : i < List.length children), ExtentIdx.read buffer i = .ok (List.get children ⟨i, lt⟩).1) ∧
      ∀ child ∈ children, child.1.leaf < 2 ^ 32 ∧ Gets disk fails blockGet child.1.leaf ∧
        Stored n (disk.block child.1.leaf) child.2

end

/-- The tree of a file with so many blocks: its extents are apart and begin in the file, and none is longer than
the longest one whose blocks are written. -/
structure Holds (disk : Disk) (fails : FswStatus → Prop) (blockGet : Nat → Except FswStatus (List UInt8))
    (count n : Nat) (buffer : List UInt8) (t : ExtentTree n) : Prop where
  stored : Stored disk fails blockGet n buffer t
  ordered : Tree.Ordered ExtentIdx.block Extent.block n t
  apart : Apart Extent.block Extent.len (items n t)
  sized : ∀ e ∈ items n t, 0 < e.len ∧ e.len ≤ 32768 ∧ e.block < count ∧ e.start + e.len < 2 ^ 64

/-- Where the blocks of extents are. -/
def extentBlocks (extents : List Extent) (k : Nat) : Option Nat :=
  (runAt Extent.block Extent.len extents k).map fun e => e.start + (k - e.block)

/-! ### The search in memory -/

section
variable (fileBcnt bno : Nat) (extent : FswExtent)

/-- The answer of a leaf. -/
def leafAnswer : List Extent → Answer
  | [] => hole extent (.ofNat fileBcnt - .ofNat bno)
  | ext :: rest =>
    if bno ≥ ext.block ∧ bno < u32 (ext.block + ext.len) then
      found extent (u64 (ext.start + (bno - ext.block))) (.ofNat ext.len - .ofNat (bno - ext.block))
    else if ext.block > bno then hole extent (.ofNat (ext.block - bno))
    else leafAnswer rest

def indexFor {n : Nat} (children : List (ExtentIdx × ExtentTree n)) : Option (ExtentIdx × ExtentTree n) :=
  (upTo (fun child => child.1.block) bno children).getLast?

def treeAnswer : (n : Nat) → ExtentTree n → Answer
  | 0, extents => leafAnswer fileBcnt bno extent extents
  | n + 1, children =>
    match indexFor bno children with
    | some child => treeAnswer n child.2
    | none =>
      match List.head? children with
      | some child => hole extent (.ofNat child.1.block - .ofNat bno)
      | none => hole extent 0

end

variable {disk : Disk} {fails : FswStatus → Prop} {blockGet : Nat → Except FswStatus (List UInt8)}
  {fileBcnt bno : Nat} {extent : FswExtent}

theorem leafLoop_eq {buffer : List UInt8} {i left : Nat} {extents : List Extent} (length : extents.length = left)
    (reads : ∀ j e, extents[j]? = some e → Extent.read buffer (i + j) = .ok e) :
    leafLoop fileBcnt bno extent buffer i left = .ok (leafAnswer fileBcnt bno extent extents) := by
  induction extents generalizing i left with
  | nil =>
    subst length
    rfl
  | cons e extents ih =>
    subst length
    have later := @ih (i + 1) extents.length rfl fun j e' at' => by
      have here := reads (j + 1) e' at'
      rwa [← Nat.add_assoc, Nat.add_right_comm] at here
    have first : Extent.read buffer i = .ok e := reads 0 e rfl
    rw [List.length_cons, leafLoop, first, ok_bind, leafAnswer, later]
    split
    · rfl
    · split <;> rfl

theorem indexLoop_eq {n : Nat} {buffer : List UInt8} {i left : Nat} {best : Option ExtentIdx}
    {children : List (ExtentIdx × ExtentTree n)} (length : children.length = left)
    (reads : ∀ j child, children[j]? = some child → ExtentIdx.read buffer (i + j) = .ok child.1) :
    indexLoop bno buffer i best left = .ok (((indexFor bno children).map Prod.fst).or best) := by
  induction children generalizing i left best with
  | nil =>
    subst length
    rfl
  | cons child children ih =>
    subst length
    have later := @ih (i + 1) children.length (some child.1) rfl fun j child' at' => by
      have here := reads (j + 1) child' at'
      rwa [← Nat.add_assoc, Nat.add_right_comm] at here
    have first : ExtentIdx.read buffer i = .ok child.1 := reads 0 child rfl
    rw [List.length_cons, indexLoop, first, ok_bind, later]
    by_cases behind : bno < child.1.block
    · have none : indexFor bno (child :: children) = none := by
        rw [indexFor, @upTo_cons_of_lt Nat _ _ (fun child : ExtentIdx × ExtentTree n => child.1.block) bno child behind]
        rfl
      rw [if_pos behind, none]
      rfl
    · have last : indexFor bno (child :: children) = (indexFor bno children).or (some child) := by
        rw [indexFor, @upTo_cons Nat _ _ (fun child : ExtentIdx × ExtentTree n => child.1.block) bno child
          (Nat.not_lt.mp behind), List.getLast?_cons, indexFor]
        cases (upTo (fun child : ExtentIdx × ExtentTree n => child.1.block) bno children).getLast? <;> rfl
      rw [if_neg behind, last]
      cases indexFor bno children <;> rfl

/-- The loop answers as the search in memory, or a node is not got. -/
theorem getByExtentLoop_eq {n fuel : Nat} {buffer : List UInt8} {t : ExtentTree n} (enough : n < fuel)
    (stored : Stored disk fails blockGet n buffer t) :
    ∃ answer, getByExtentLoop blockGet fileBcnt bno extent fuel buffer = .ok answer ∧
      (answer = treeAnswer fileBcnt bno extent n t ∨ ∃ status, fails status ∧ answer = (some status, extent)) := by
  induction n generalizing fuel buffer with
  | zero =>
    obtain ⟨fuel, rfl⟩ := Nat.exists_eq_succ_of_ne_zero enough.ne'
    obtain ⟨header, reads⟩ := stored
    refine ⟨_, ?_, .inl rfl⟩
    rw [getByExtentLoop, header, ok_bind]
    dsimp only
    rw [if_neg (not_not.mpr rfl), if_pos rfl]
    refine leafLoop_eq rfl fun j e at' => ?_
    obtain ⟨lt, rfl⟩ := List.getElem?_eq_some_iff.mp at'
    rw [Nat.zero_add]
    exact reads j lt
  | succ n ih =>
    obtain ⟨fuel, rfl⟩ := Nat.exists_eq_succ_of_ne_zero (show fuel ≠ 0 by omega)
    obtain ⟨some', ⟨depth, inner, header⟩, reads, nodes⟩ := stored
    have scanned := @indexLoop_eq bno n buffer 0 (List.length t) none t rfl fun j child at' => by
      obtain ⟨lt, rfl⟩ := List.getElem?_eq_some_iff.mp at'
      rw [Nat.zero_add]
      exact reads j lt
    rw [getByExtentLoop, header, ok_bind]
    dsimp only
    rw [if_neg (not_not.mpr rfl), if_neg inner, scanned, ok_bind, treeAnswer]
    cases index : indexFor bno t with
    | some child =>
      have mem : child ∈ t := by
        have last := List.mem_of_getLast? index
        exact (List.takeWhile_sublist _).subset last
      obtain ⟨small, gets, stored⟩ := nodes child mem
      have word : u32 child.1.leaf = child.1.leaf := Nat.mod_eq_of_lt small
      rw [Option.map_some, Option.or_none]
      dsimp only
      rw [word]
      rw [Gets] at gets
      generalize blockGet child.1.leaf = got at gets
      cases gets with
      | error may => exact ⟨_, rfl, .inr ⟨_, may, rfl⟩⟩
      | ok same =>
        subst same
        exact ih (by omega) stored
    | none =>
      cases t with
      | nil => exact absurd rfl some'
      | cons child children =>
        have first : ExtentIdx.read buffer 0 = .ok child.1 := reads 0 (Nat.succ_pos _)
        refine ⟨_, ?_, .inl rfl⟩
        change (ExtentIdx.read buffer 0 >>= fun first => _) = _
        rw [first]
        rfl


/-! ### What the search finds -/

/-- The leaf that the search ends in, if it does not end above the leaves. -/
def leafFor (bno : Nat) : (n : Nat) → ExtentTree n → Option (List Extent)
  | 0, extents => some extents
  | n + 1, children => (indexFor bno children).bind fun child => leafFor bno n child.2

/-- What an answer is for extents in order: an extent of the block, or a hole up to the next one, or a hole behind
those of the leaf. -/
inductive Tells (fileBcnt bno : Nat) (extent : FswExtent) (l : List Extent) : Option (List Extent) → Answer → Prop
  | covered {leaf : List Extent} {e : Extent} (here : e ∈ leaf) (mem : e ∈ l)
      (covers : Covers Extent.block Extent.len e bno) :
      Tells fileBcnt bno extent l (some leaf)
        (found extent (e.start + (bno - e.block)) (.ofNat (e.len - (bno - e.block))))
  | before {leaf : Option (List Extent)} {x : Extent} (here : ∀ xs, leaf = some xs → x ∈ xs) (mem : x ∈ l)
      (lt : bno < x.block) (apart : ∀ e ∈ l, e.block + e.len ≤ bno ∨ x.block ≤ e.block) :
      Tells fileBcnt bno extent l leaf (hole extent (.ofNat (x.block - bno)))
  | behind {leaf : List Extent} (last : ∀ e ∈ leaf, e.block + e.len ≤ bno)
      (apart : ∀ e ∈ l, e.block + e.len ≤ bno ∨ bno < e.block) :
      Tells fileBcnt bno extent l (some leaf) (hole extent (.ofNat fileBcnt - .ofNat bno))

section
variable {l pre post leaf leaf' : List Extent} {answer : Answer}

/-- Extents around those that were searched. -/
theorem Tells.around {leaf : Option (List Extent)} (tells : Tells fileBcnt bno extent l leaf answer)
    (front : ∀ e ∈ pre, e.block + e.len ≤ bno)
    (back : ∀ e ∈ post, bno < e.block ∧ ∀ x ∈ l, x.block ≤ e.block) :
    Tells fileBcnt bno extent (pre ++ (l ++ post)) leaf answer := by
  have mem {e : Extent} (inside : e ∈ l) : e ∈ pre ++ (l ++ post) :=
    List.mem_append_right _ (List.mem_append_left _ inside)
  cases tells with
  | covered here inside covers => exact .covered here (mem inside) covers
  | before here inside lt apart =>
    refine .before here (mem inside) lt fun e within => ?_
    rcases List.mem_append.mp within with first | rest
    · exact .inl (front e first)
    · rcases List.mem_append.mp rest with among | last
      · exact apart e among
      · exact .inr ((back e last).2 _ inside)
  | behind last apart =>
    refine .behind last fun e within => ?_
    rcases List.mem_append.mp within with first | rest
    · exact .inl (front e first)
    · rcases List.mem_append.mp rest with among | later
      · exact apart e among
      · exact .inr (back e later).1

/-- Extents in front of the block that the leaf has as well. -/
theorem Tells.grown (tells : Tells fileBcnt bno extent l (some leaf) answer) (kept : ∀ e ∈ leaf, e ∈ leaf')
    (more : ∀ e ∈ leaf', e ∈ leaf ∨ e.block + e.len ≤ bno) : Tells fileBcnt bno extent l (some leaf') answer := by
  cases tells with
  | covered here mem covers => exact .covered (kept _ here) mem covers
  | before here mem lt apart =>
    refine .before (fun xs same => ?_) mem lt apart
    obtain rfl := Option.some.inj same
    exact kept _ (here leaf rfl)
  | behind last apart => exact .behind (fun e mem => (more e mem).elim (last e) id) apart

theorem leafAnswer_tells (apart : Apart Extent.block Extent.len l)
    (sized : ∀ e ∈ l, e.block + e.len < 2 ^ 32 ∧ e.start + e.len < 2 ^ 64) :
    Tells fileBcnt bno extent l (some l) (leafAnswer fileBcnt bno extent l) := by
  induction l with
  | nil => exact .behind (fun e mem => absurd mem List.not_mem_nil) fun e mem => absurd mem List.not_mem_nil
  | cons e l ih =>
    obtain ⟨behind, rest⟩ := List.pairwise_cons.mp apart
    obtain ⟨small, far⟩ := sized e List.mem_cons_self
    have word : u32 (e.block + e.len) = e.block + e.len := Nat.mod_eq_of_lt small
    rw [leafAnswer, word]
    split
    · rename_i covers
      have phys : u64 (e.start + (bno - e.block)) = e.start + (bno - e.block) := Nat.mod_eq_of_lt (by omega)
      rw [phys, ← UInt32.ofNat_sub (by omega)]
      exact .covered List.mem_cons_self List.mem_cons_self covers
    · rename_i not
      split
      · rename_i lt
        refine .before (fun xs same => Option.some.inj same ▸ List.mem_cons_self) List.mem_cons_self lt
          fun e' mem => ?_
        rcases List.mem_cons.mp mem with rfl | later
        · exact .inr (Nat.le_refl _)
        · exact .inr (Nat.le_trans (Nat.le_add_right _ _) (behind e' later))
      · rename_i le
        have ended : e.block + e.len ≤ bno := by omega
        have later := ih rest fun e' mem => sized e' (List.mem_cons_of_mem e mem)
        have whole := @Tells.around fileBcnt bno extent l [e] [] _ _ later
          (fun e' mem => by rwa [List.mem_singleton.mp mem]) fun e' mem => absurd mem List.not_mem_nil
        rw [List.append_nil, List.singleton_append] at whole
        refine whole.grown (fun e' mem => List.mem_cons_of_mem e mem) fun e' mem => ?_
        rcases List.mem_cons.mp mem with rfl | among
        · exact .inr ended
        · exact .inl among

end

section
variable {n : Nat} {t : ExtentTree (n + 1)} {child : ExtentIdx × ExtentTree n}

theorem indexFor_le (index : indexFor bno t = some child) : child.1.block ≤ bno :=
  @le_of_mem_upTo Nat _ _ (fun child : ExtentIdx × ExtentTree n => child.1.block) bno t child
    (List.mem_of_getLast? index)

/-- The children around the one that the search goes to. -/
theorem indexFor_some (ordered : Tree.Ordered ExtentIdx.block Extent.block (n + 1) t)
    (index : indexFor bno t = some child) :
    ∃ init post, t = init ++ (child :: post) ∧ ∀ c ∈ post, bno < c.1.block := by
  have pointers : List.Pairwise (fun c d : ExtentIdx × ExtentTree n => c.1.block < d.1.block) t :=
    ordered.1.imp fun apart => apart.1
  obtain ⟨init, front⟩ := List.getLast?_eq_some_iff.mp index
  have whole := @upTo_append_above Nat _ _ (fun child : ExtentIdx × ExtentTree n => child.1.block) bno t
  rw [front, List.append_assoc] at whole
  exact ⟨init, _, whole.symm, fun c => lt_of_mem_above pointers⟩

theorem indexFor_none (ordered : Tree.Ordered ExtentIdx.block Extent.block (n + 1) t)
    (index : indexFor bno t = none) (mem : child ∈ t) : bno < child.1.block := by
  have pointers : List.Pairwise (fun c d : ExtentIdx × ExtentTree n => c.1.block < d.1.block) t :=
    ordered.1.imp fun apart => apart.1
  have whole := @upTo_append_above Nat _ _ (fun child : ExtentIdx × ExtentTree n => child.1.block) bno t
  rw [List.getLast?_eq_none_iff.mp index, List.nil_append] at whole
  rw [← whole] at mem
  exact lt_of_mem_above pointers mem

/-- In front of the first child there is a hole. -/
theorem Tells.front (ordered : Tree.Ordered ExtentIdx.block Extent.block (n + 1) t) (mem : t.head? = some child)
    (lt : bno < child.1.block) :
    Tells fileBcnt bno extent (items (n + 1) t) none (hole extent (.ofNat child.1.block - .ofNat bno)) := by
  have inOrder := ordered.pairwise
  obtain ⟨children, rfl⟩ := List.head?_eq_some_iff.mp mem
  obtain ⟨x, rest, found, least⟩ := ordered.first List.mem_cons_self
  have split : items (n + 1) (child :: children) = x :: (rest ++ below children) := by
    refine (Tree.below_cons child children).trans ?_
    rw [found]
    rfl
  rw [split] at inOrder ⊢
  have first := (List.pairwise_cons.mp inOrder).1
  rw [← UInt32.ofNat_sub lt.le, ← least]
  refine .before (fun xs impossible => absurd impossible (Option.some_ne_none xs).symm) List.mem_cons_self
    (least ▸ lt) fun e among => .inr ?_
  rcases List.mem_cons.mp among with rfl | later
  · exact Nat.le_refl _
  · exact (first e later).le

end

/-- The search in memory finds what there is, except behind the extents of a leaf. -/
theorem treeAnswer_tells {n : Nat} {t : ExtentTree n} (ordered : Tree.Ordered ExtentIdx.block Extent.block n t)
    (apart : Apart Extent.block Extent.len (items n t))
    (sized : ∀ e ∈ items n t, e.block + e.len < 2 ^ 32 ∧ e.start + e.len < 2 ^ 64)
    (full : n = 0 ∨ items n t ≠ []) :
    Tells fileBcnt bno extent (items n t) (leafFor bno n t) (treeAnswer fileBcnt bno extent n t) := by
  induction n with
  | zero => exact leafAnswer_tells apart sized
  | succ n ih =>
    rw [leafFor, treeAnswer]
    cases index : indexFor bno t with
    | some child =>
      obtain ⟨init, post, rfl, above⟩ := indexFor_some ordered index
      have mem : child ∈ init ++ (child :: post) := List.mem_append_right _ List.mem_cons_self
      have split : items (n + 1) (init ++ (child :: post)) = below init ++ (items n child.2 ++ below post) :=
        (Tree.below_append _ _).trans (congrArg _ (Tree.below_cons child post))
      obtain ⟨x, rest, found, least⟩ := ordered.first mem
      rw [split] at apart sized ⊢
      obtain ⟨-, behind, frontApart⟩ := List.pairwise_append.mp apart
      obtain ⟨childApart, -, backApart⟩ := List.pairwise_append.mp behind
      have tells := ih (ordered.2 child mem).1 childApart
        (fun e among => sized e (List.mem_append_right _ (List.mem_append_left _ among)))
        (.inr (found ▸ List.cons_ne_nil x rest))
      refine tells.around (fun e among => ?_) fun e among => ⟨?_, fun x inside => ?_⟩
      · have le : child.1.block ≤ bno := indexFor_le index
        rw [found] at frontApart
        have here := frontApart e among x (List.mem_append_left _ List.mem_cons_self)
        omega
      · obtain ⟨c, inPost, inside⟩ := List.mem_flatMap.mp among
        have inTree : c ∈ init ++ (child :: post) := List.mem_append_right _ (List.mem_cons_of_mem _ inPost)
        exact Nat.lt_of_lt_of_le (above c inPost) (ordered.ptr_le inTree inside)
      · exact Nat.le_trans (Nat.le_add_right _ _) (backApart x inside e among)
    | none =>
      cases t with
      | nil => exact absurd rfl (full.resolve_left (Nat.succ_ne_zero n))
      | cons child children => exact Tells.front ordered rfl (indexFor_none ordered index List.mem_cons_self)

/-! ### Where it is right -/

/-- The block is in a hole behind the extents of the leaf, and there are extents behind it. -/
def GapIn (bno : Nat) (leaf : Option (List Extent)) (l : List Extent) : Prop :=
  ∃ xs, leaf = some xs ∧ (∀ e ∈ xs, e.block + e.len ≤ bno) ∧ ∃ e ∈ l, bno < e.block

def Gap (bno : Nat) {n : Nat} (t : ExtentTree n) : Prop := GapIn bno (leafFor bno n t) (items n t)

section
variable {l : List Extent} {leaf : Option (List Extent)} {e : Extent} {k count blocksize : Nat} {answer : Answer}

theorem extentBlocks_covered (apart : Apart Extent.block Extent.len l) (mem : e ∈ l)
    (covers : Covers Extent.block Extent.len e k) : extentBlocks l k = some (e.start + (k - e.block)) := by
  rw [extentBlocks, apart.runAt mem covers]
  rfl

theorem extentBlocks_none (free : ∀ e ∈ l, ¬ Covers Extent.block Extent.len e k) : extentBlocks l k = none := by
  rw [extentBlocks, runAt_eq_none.mpr free]
  rfl

/-- What is told is where the blocks are, unless it is a gap. -/
theorem Tells.located_iff (tells : Tells count bno extent l leaf answer) (apart : Apart Extent.block Extent.len l)
    (sized : ∀ e ∈ l, 0 < e.len ∧ e.len ≤ 32768 ∧ e.block < count) (inside : bno < count)
    (start : extent.logStart = bno) (positive : 0 < blocksize) (short : count * blocksize < 2 ^ 32) :
    Located blocksize fails (extentBlocks l) count bno answer ↔ ¬ GapIn bno leaf l := by
  have word : count < 2 ^ 32 := Nat.lt_of_le_of_lt (Nat.le_mul_of_pos_right count positive) short
  cases tells with
  | @covered leaf e here mem covers =>
    obtain ⟨-, len, -⟩ := sized e mem
    obtain ⟨after, before⟩ := covers
    have counts : (UInt32.ofNat (e.len - (bno - e.block))).toNat = e.len - (bno - e.block) :=
      UInt32.toNat_ofNat_of_lt' (Nat.lt_of_le_of_lt (Nat.sub_le _ _) (Nat.lt_of_le_of_lt len (by decide)))
    refine iff_of_true (located_found start (by omega) fun d below _ => ?_) ?_
    · have within : Covers Extent.block Extent.len e (bno + d) := ⟨by omega, by omega⟩
      rw [extentBlocks_covered apart mem within]
      exact congrArg some (by omega)
    · rintro ⟨xs, same, ended, -⟩
      obtain rfl := Option.some.inj same
      have := ended e here
      omega
  | @before leaf x here mem lt ahead =>
    obtain ⟨-, -, within⟩ := sized x mem
    have counts : (UInt32.ofNat (x.block - bno)).toNat = x.block - bno :=
      UInt32.toNat_ofNat_of_lt' (show x.block - bno < 2 ^ 32 by omega)
    refine iff_of_true (located_hole start (by omega) ?_ fun d below _ => ?_) ?_
    · rw [counts]
      exact Nat.lt_of_le_of_lt (Nat.mul_le_mul_right _ (by omega)) short
    · refine extentBlocks_none fun e among covers => ?_
      obtain ⟨after, before⟩ := covers
      rcases ahead e among with ended | later <;> omega
    · rintro ⟨xs, same, ended, -⟩
      have := ended x (here xs same)
      omega
  | @behind leaf last ahead =>
    have counts : (UInt32.ofNat (count - bno)).toNat = count - bno :=
      UInt32.toNat_ofNat_of_lt' (show count - bno < 2 ^ 32 by omega)
    rw [← UInt32.ofNat_sub inside.le]
    constructor
    · rintro located ⟨-, -, -, e, mem, later⟩
      obtain ⟨some', -, within⟩ := sized e mem
      unfold Located hole at located
      dsimp only at located
      rw [if_pos ⟨rfl, rfl⟩] at located
      have none := located.2.2 e.block within ⟨by dsimp only; omega, by dsimp only; omega⟩
      rw [extentBlocks_covered apart mem ⟨Nat.le_refl _, Nat.lt_add_of_pos_right some'⟩] at none
      cases none
    · intro not
      refine located_hole start (by omega) ?_ fun d _ _ => extentBlocks_none fun e among covers => ?_
      · rw [counts]
        exact Nat.lt_of_le_of_lt (Nat.mul_le_mul_right _ (Nat.sub_le _ _)) short
      · obtain ⟨after, before⟩ := covers
        rcases ahead e among with ended | later
        · omega
        · exact not ⟨leaf, rfl, last, e, among, later⟩

end

section
variable {dno : Dnode} {n fuel count : Nat} {t : ExtentTree n}

theorem Holds.full {buffer : List UInt8} (holds : Holds disk fails blockGet count n buffer t) :
    n = 0 ∨ items n t ≠ [] := by
  obtain ⟨stored, ordered, -, -⟩ := holds
  cases n with
  | zero => exact .inl rfl
  | succ n =>
    obtain ⟨child, children, rfl⟩ := List.exists_cons_of_ne_nil stored.1
    obtain ⟨x, rest, found, -⟩ := ordered.first List.mem_cons_self
    refine .inr fun none => ?_
    have front := (List.append_eq_nil_iff.mp ((Tree.below_cons child children).symm.trans none)).1
    exact List.cons_ne_nil x rest (found.symm.trans front)

theorem Holds.extent_sized {buffer : List UInt8} (holds : Holds disk fails blockGet count n buffer t) {e : Extent}
    (mem : e ∈ items n t) : 0 < e.len ∧ e.len ≤ 32768 ∧ e.block < count := by
  obtain ⟨some', len, inside, -⟩ := holds.sized e mem
  exact ⟨some', len, inside⟩

/-- A tree of one leaf has no gap. -/
theorem not_gap_leaf {extents : List Extent} : ¬ Gap bno (show ExtentTree 0 from extents) := by
  rintro ⟨xs, same, ended, e, mem, later⟩
  obtain rfl := Option.some.inj same
  have := ended e mem
  omega

/-- What the search finds, or a node is not got. -/
theorem getByExtent_tells
    (holds : Holds disk fails blockGet (blockCount dno.size disk.blocksize.toNat) n dno.block t)
    (outside : dno.flags &&& inlineDataFl = 0) (enough : n < fuel)
    (short : blockCount dno.size disk.blocksize.toNat * disk.blocksize.toNat < 2 ^ 32)
    (inside : bno < blockCount dno.size disk.blocksize.toNat) (start : extent.logStart = bno) :
    ∃ answer, fswExt4GetByExtent disk.geometry blockGet dno fuel extent = .ok answer ∧
      ((∃ status, fails status ∧ answer = (some status, extent)) ∨
        Tells (blockCount dno.size disk.blocksize.toNat) bno extent (items n t) (leafFor bno n t) answer) := by
  have positive : 4 ≤ disk.blocksize.toNat := by
    have := disk.sized
    have := disk.addresses
    omega
  have few : blockCount dno.size disk.blocksize.toNat * 4 < 2 ^ 32 :=
    Nat.lt_of_le_of_lt (Nat.mul_le_mul_left _ positive) short
  have count : dno.fileBcnt disk.geometry = blockCount dno.size disk.blocksize.toNat :=
    Nat.mod_eq_of_lt (show blockCount dno.size disk.blocksize.toNat < 2 ^ 32 by omega)
  have word : u32 extent.logStart = bno := by rw [start, u32, Nat.mod_eq_of_lt (by omega)]
  rw [fswExt4GetByExtent, if_neg (not_not.mpr outside), count, word]
  obtain ⟨answer, ran, is⟩ := @getByExtentLoop_eq disk fails blockGet
    (blockCount dno.size disk.blocksize.toNat) bno extent n fuel dno.block t enough holds.stored
  refine ⟨answer, ran, ?_⟩
  rcases is with rfl | ⟨status, may, rfl⟩
  · refine .inr (treeAnswer_tells holds.ordered holds.apart (fun e mem => ?_) holds.full)
    obtain ⟨-, len, within, far⟩ := holds.sized e mem
    exact ⟨by omega, far⟩
  · exact .inl ⟨status, may, rfl⟩

end

/-- A node in so many bytes. -/
def sampleNode (bytes : Nat) (entries depth : UInt8) (cells : List UInt8) : List UInt8 :=
  [0x0a, 0xf3, entries, 0, 4, 0, depth, 0, 0, 0, 0, 0] ++ cells ++
    List.replicate (bytes - headerSize - cells.length) 0

/-- A disk of blocks of 64 bytes. -/
def smallDisk (block : Nat → List UInt8) (whole : ∀ bno, (block bno).length = 64) : Disk where
  blocksize := 64
  block := block
  whole := whole
  width := 16
  sized := by decide
  addresses := by decide

theorem smallDisk_power (block : Nat → List UInt8) (whole : ∀ bno, (block bno).length = 64) :
    ∃ k, (smallDisk block whole).blocksize.toNat = 2 ^ k := ⟨6, rfl⟩

/-- Two leaves of one extent. -/
def sampleBlock (bno : Nat) : List UInt8 :=
  if bno = 5 then sampleNode 64 1 0 [0, 0, 0, 0, 1, 0, 0, 0, 100, 0, 0, 0]
  else if bno = 6 then sampleNode 64 1 0 [3, 0, 0, 0, 1, 0, 0, 0, 101, 0, 0, 0]
  else List.replicate 64 0

theorem sampleBlock_length (bno : Nat) : (sampleBlock bno).length = 64 := by
  unfold sampleBlock
  split
  · rfl
  · split <;> rfl

def sampleDisk : Disk := smallDisk sampleBlock sampleBlock_length

def sampleDnode : Dnode where
  size := 256
  flags := 1 <<< inodeExtents
  block := sampleNode 60 2 1 [0, 0, 0, 0, 5, 0, 0, 0, 0, 0, 0, 0, 3, 0, 0, 0, 6, 0, 0, 0, 0, 0, 0, 0]

def sampleGet (bno : Nat) : Except FswStatus (List UInt8) := .ok (sampleDisk.block bno)

def sampleTree : ExtentTree 1 := [(⟨0, 5⟩, [⟨0, 1, 100⟩]), (⟨3, 6⟩, [⟨3, 1, 101⟩])]

theorem sampleTree_stored : Stored sampleDisk (fun _ => False) sampleGet 1 sampleDnode.block sampleTree := by
  refine ⟨by decide, ⟨1, by decide, rfl⟩, fun i lt => ?_, fun child mem => ?_⟩
  · have few : i < 2 := lt
    obtain rfl | rfl : i = 0 ∨ i = 1 := by omega
    · rfl
    · rfl
  · have leaf {bno : Nat} {e : Extent} (header : ExtentHeader.read (sampleDisk.block bno) = .ok ⟨extentMagic, 1, 0⟩)
        (reads : Extent.read (sampleDisk.block bno) 0 = .ok e) :
        Stored sampleDisk (fun _ => False) sampleGet 0 (sampleDisk.block bno) [e] := by
      refine ⟨header, fun i lt => ?_⟩
      obtain rfl : i = 0 := Nat.lt_one_iff.mp lt
      exact reads
    rcases List.mem_pair.mp mem with rfl | rfl
    · exact ⟨by decide, .ok rfl, leaf rfl rfl⟩
    · exact ⟨by decide, .ok rfl, leaf rfl rfl⟩

theorem sampleTree_holds : Holds sampleDisk (fun _ => False) sampleGet
    (blockCount sampleDnode.size sampleDisk.blocksize.toNat) 1 sampleDnode.block sampleTree where
  stored := sampleTree_stored
  ordered := by
    refine ⟨by decide, fun child mem => ?_⟩
    rcases List.mem_pair.mp mem with rfl | rfl
    · exact ⟨List.pairwise_singleton _ _, rfl⟩
    · exact ⟨List.pairwise_singleton _ _, rfl⟩
  apart := by
    unfold Apart
    decide
  sized := by decide

end Meridian.Ext
