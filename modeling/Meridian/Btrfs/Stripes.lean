import Meridian.Btrfs.Galois
import Meridian.Fsw.Bytes

/-!
# Recovering a block of a stripe

The part of `fsw_btrfs_read_logical` of `filesystems/fsw_btrfs.c` that recovers a block which its device does not
deliver, with `fsw_btrfs_stripe_xor`. The stripes of a row are numbered from the first data stripe on, with the
parities at the end. Allocations succeed.
-/

namespace Meridian.Btrfs

open Fsw (FswStatus)
open Lib.TwoErasures
open Finset (range)

/-- What stops a read: a status, a read behind a table, a division by zero, or a bound on the steps. -/
inductive Stop where
  | status (status : FswStatus)
  | outOfBounds
  | divideByZero
  | outOfFuel
  deriving DecidableEq, Repr

abbrev BtrfsM := Except Stop

def inBounds {α : Type} : Option α → BtrfsM α
  | some a => .ok a
  | none => .error .outOfBounds

variable {size : Nat}

/-! ### The other stripes -/

/-- What the loop over the other stripes leaves: `i`, `bad2`, `err`, and the blocks of the stripes it came to. -/
structure Gathered (size : Nat) where
  i : Nat
  bad2 : Option Nat
  err : Option FswStatus
  ptrs : List (Option (Sector size))

def Gathered.behind (g : Gathered size) (ptr : Option (Sector size)) : Gathered size :=
  { g with ptrs := ptr :: g.ptrs }

/-- The loop from `i` on, with so many stripes left. -/
def gather (get : Nat → Except FswStatus (Sector size)) (posN dstripes : Nat) (isRaid5 : Bool) (i : Nat)
    (bad2 : Option Nat) : Nat → Gathered size
  | 0 => { i := i, bad2 := bad2, err := none, ptrs := [] }
  | left + 1 =>
    if i = posN then (gather get posN dstripes isRaid5 (i + 1) bad2 left).behind none
    else
      match get i with
      | .ok block =>
        if bad2 = none ∧ dstripes = i then { i := i, bad2 := bad2, err := none, ptrs := [some block] }
        else (gather get posN dstripes isRaid5 (i + 1) bad2 left).behind (some block)
      | .error status =>
        if bad2 ≠ none ∨ isRaid5 then { i := i, bad2 := bad2, err := some status, ptrs := [none] }
        else (gather get posN dstripes isRaid5 (i + 1) (some i) left).behind none

/-- A loop over the first stripes that have a block, from a block of zeros on. -/
def overStripes (step : Nat → Sector size → Sector size → Option (Sector size))
    (ptrs : List (Option (Sector size))) : Nat → Option (Sector size)
  | 0 => some fun _ => 0
  | i + 1 =>
    (overStripes step ptrs i).bind fun buffer =>
      match ptrs[i]? with
      | some (some ptr) => step i buffer ptr
      | some none => some buffer
      | none => none

/-- `fsw_btrfs_stripe_xor`. The last stripe is the one with the number `dataStripes`. -/
def stripeXor (ptrs : List (Option (Sector size))) (dataStripes : Nat) : Option (Sector size) :=
  overStripes (fun _ c ptr => some (blockXor c ptr)) ptrs (dataStripes + 1)

/-- The factor for a block that is lost with the one of stripe `bad2`. -/
def lostFactor (posN bad2 : Nat) : Option Nat :=
  (powx (bad2 + (posN ^^^ 255))).bind fun apart =>
    (powxInv (apart ^^^ 1)).map fun log => ((255 ^^^ posN) + (255 ^^^ log)) % 255

/-- The block, from both parities if stripe `bad2` is one of the data. -/
def recoverSecond (nstripes posN dstripes bad2 : Nat) (ptrs : List (Option (Sector size))) :
    Option (Sector size) := do
  let buffer ← overStripes (fun i buffer ptr => blockMulxXor buffer i ptr) ptrs (nstripes - 2)
  let parity ← ptrs[nstripes - 1]?
  let buffer := blockXor buffer (← parity)
  if bad2 = nstripes - 2 then blockMulx (255 - posN) buffer
  else
    let c ← lostFactor posN bad2
    let buffer ← blockMulx c buffer
    let pbuf ← stripeXor ptrs dstripes
    blockMulxXor buffer ((bad2 + c) % 255) pbuf

/-- The block of the stripe `posN`, from those of the others. -/
def recoverBlock (get : Nat → Except FswStatus (Sector size)) (nstripes posN dstripes : Nat) (isRaid5 : Bool) :
    BtrfsM (Sector size) :=
  let g := gather get posN dstripes isRaid5 0 none nstripes
  match g.err, g.bad2 with
  | some status, _ => .error (.status status)
  | none, none => inBounds (stripeXor g.ptrs g.i)
  | none, some bad2 => inBounds (recoverSecond nstripes posN dstripes bad2 g.ptrs)

/-! ### What the loop leaves -/

section
variable {get : Nat → Except FswStatus (Sector size)} {posN dstripes : Nat} {isRaid5 : Bool}

/-- The block that is loaded of a stripe. -/
def loaded (get : Nat → Except FswStatus (Sector size)) (posN k : Nat) : Option (Sector size) :=
  if k = posN then none else (get k).toOption

/-- A stripe other than `posN` cannot be read. -/
def Lost (get : Nat → Except FswStatus (Sector size)) (posN k : Nat) : Prop :=
  k ≠ posN ∧ ∃ status, get k = .error status

theorem gather_ptrs (i left : Nat) (bad2 : Option Nat) :
    (gather get posN dstripes isRaid5 i bad2 left).ptrs =
      (List.range' i (gather get posN dstripes isRaid5 i bad2 left).ptrs.length).map (loaded get posN) := by
  have next {g : Gathered size} {i : Nat}
      (ih : g.ptrs = (List.range' (i + 1) g.ptrs.length).map (loaded get posN)) {ptr : Option (Sector size)}
      (here : ptr = loaded get posN i) :
      (g.behind ptr).ptrs = (List.range' i (g.behind ptr).ptrs.length).map (loaded get posN) := by
    rw [Gathered.behind, List.length_cons, List.range'_succ, List.map_cons, ← here, ← ih]
  induction left generalizing i bad2 with
  | zero => rfl
  | succ left ih =>
    rw [gather]
    split
    · rename_i target
      exact next (ih _ _) (if_pos target).symm
    · rename_i other
      split
      · rename_i block read
        have here : some block = loaded get posN i := by
          rw [loaded, if_neg other, read]
          rfl
        split
        · rw [List.length_singleton, List.range'_one, List.map_singleton, here]
        · exact next (ih _ _) here
      · rename_i status failed
        have here : none = loaded get posN i := by
          rw [loaded, if_neg other, failed]
          rfl
        split
        · rw [List.length_singleton, List.range'_one, List.map_singleton, here]
        · exact next (ih _ _) here

/-- No stripe of these is lost. -/
def NoneLost (get : Nat → Except FswStatus (Sector size)) (posN i left : Nat) : Prop :=
  ∀ k, i ≤ k → k < i + left → ¬ Lost get posN k

theorem noneLost_succ {i left : Nat} :
    NoneLost get posN i (left + 1) ↔ ¬ Lost get posN i ∧ NoneLost get posN (i + 1) left := by
  constructor
  · intro all
    exact ⟨all i (Nat.le_refl i) (by omega), fun k le lt => all k (by omega) (by omega)⟩
  · rintro ⟨here, later⟩ k le lt
    rcases Nat.eq_or_lt_of_le le with rfl | before
    · exact here
    · exact later k before (by omega)

theorem not_lost_of_ok {i : Nat} {block : Sector size} (read : get i = .ok block) : ¬ Lost get posN i := by
  rintro ⟨_, status, failed⟩
  rw [read] at failed
  cases failed

/-- With one stripe given up, the loop goes to its end unless another one is lost. -/
theorem gather_some (i left b : Nat) :
    ((gather get posN dstripes isRaid5 i (some b) left).err = none ↔ NoneLost get posN i left) ∧
      (gather get posN dstripes isRaid5 i (some b) left).bad2 = some b ∧
      ((gather get posN dstripes isRaid5 i (some b) left).err = none →
        (gather get posN dstripes isRaid5 i (some b) left).ptrs.length = left) := by
  induction left generalizing i with
  | zero => exact ⟨iff_of_true rfl fun k le lt => absurd lt (by omega), rfl, fun _ => rfl⟩
  | succ left ih =>
    obtain ⟨err, bad, length⟩ := ih (i + 1)
    rw [noneLost_succ, gather]
    split
    · rename_i target
      exact ⟨err.trans (iff_and_self.mpr fun _ lost => lost.1 target), bad,
        fun none => congrArg (· + 1) (length none)⟩
    · rename_i other
      split
      · rename_i block read
        rw [if_neg fun both => Option.some_ne_none b both.1]
        exact ⟨err.trans (iff_and_self.mpr fun _ => not_lost_of_ok read), bad,
          fun none => congrArg (· + 1) (length none)⟩
      · rename_i status failed
        rw [if_pos (Or.inl (Option.some_ne_none b))]
        exact ⟨iff_of_false (Option.some_ne_none status) fun all => all.1 ⟨other, status, failed⟩, rfl,
          fun none => absurd none (Option.some_ne_none status)⟩

/-- The loop stops behind the sum of the data: no stripe up to it is lost. -/
def StopsAt (get : Nat → Except FswStatus (Sector size)) (posN dstripes i : Nat) (g : Gathered size) : Prop :=
  NoneLost get posN i (dstripes + 1 - i) ∧
    g = { i := dstripes
          bad2 := none
          err := none
          ptrs := (List.range' i (dstripes + 1 - i)).map (loaded get posN) }

/-- The loop gives up the stripe `b`, and goes to its end unless another one is lost. -/
structure GivesUp (get : Nat → Except FswStatus (Sector size)) (posN dstripes i left b : Nat) (g : Gathered size) :
    Prop where
  from_le : i ≤ b
  le_sum : b ≤ dstripes
  lost : Lost get posN b
  first : NoneLost get posN i (b - i)
  err : g.err = none ↔ NoneLost get posN (b + 1) (i + left - (b + 1))
  bad2 : g.bad2 = some b
  length : g.err = none → g.ptrs.length = left

/-- One more stripe in front, which is not lost. -/
theorem next_stripe {i left : Nat} (before : i < dstripes) (found : ¬ Lost get posN i) {g : Gathered size}
    (ih : StopsAt get posN dstripes (i + 1) g ∨ ∃ b, GivesUp get posN dstripes (i + 1) left b g) :
    StopsAt get posN dstripes i (g.behind (loaded get posN i)) ∨
      ∃ b, GivesUp get posN dstripes i (left + 1) b (g.behind (loaded get posN i)) := by
  rcases ih with ⟨none, rfl⟩ | ⟨b, gives⟩
  · have count : dstripes + 1 - i = dstripes + 1 - (i + 1) + 1 := by omega
    refine Or.inl ⟨?_, ?_⟩
    · rw [count]
      exact noneLost_succ.mpr ⟨found, none⟩
    · rw [count, List.range'_succ, List.map_cons]
      rfl
  · obtain ⟨le, leSum, lost, first, err, bad, length⟩ := gives
    have count : b - i = b - (i + 1) + 1 := by omega
    have rest : i + (left + 1) - (b + 1) = i + 1 + left - (b + 1) := by omega
    refine Or.inr ⟨b, by omega, leSum, lost, ?_, ?_, bad, fun none => congrArg (· + 1) (length none)⟩
    · rw [count]
      exact noneLost_succ.mpr ⟨found, first⟩
    · rw [rest]
      exact err

/-- With two parities, the loop stops behind the sum of the data if no stripe up to it is lost, and goes to its end
if only one is. -/
theorem gather_raid6 {i left : Nat} (before : i ≤ dstripes) (inside : dstripes < i + left)
    (data : posN < dstripes) :
    StopsAt get posN dstripes i (gather get posN dstripes false i none left) ∨
      ∃ b, GivesUp get posN dstripes i left b (gather get posN dstripes false i none left) := by
  induction left generalizing i with
  | zero => omega
  | succ left ih =>
    rw [gather]
    split
    · rename_i target
      have here : none = loaded get posN i := (if_pos target).symm
      rw [here]
      exact next_stripe (by omega) (fun lost => lost.1 target) (ih (by omega) (by omega))
    · rename_i other
      split
      · rename_i block read
        have here : some block = loaded get posN i := by
          rw [loaded, if_neg other, read]
          rfl
        rw [here]
        split
        · rename_i stops
          obtain rfl := stops.2
          have count : dstripes + 1 - dstripes = 1 := by omega
          refine Or.inl ⟨?_, ?_⟩
          · rw [count]
            exact noneLost_succ.mpr ⟨not_lost_of_ok read, fun k le lt => absurd lt (by omega)⟩
          · rw [count]
            rfl
        · rename_i goesOn
          have apart : dstripes ≠ i := fun same => goesOn ⟨rfl, same⟩
          exact next_stripe (by omega) (not_lost_of_ok read) (ih (by omega) (by omega))
      · rename_i status failed
        have count : i + (left + 1) - (i + 1) = left := by omega
        obtain ⟨err, bad, length⟩ := @gather_some size get posN dstripes false (i + 1) left i
        rw [if_neg (by decide)]
        refine Or.inr ⟨i, Nat.le_refl i, before, ⟨other, status, failed⟩, fun k le lt => absurd lt (by omega), ?_,
          bad, fun none => congrArg (· + 1) (length none)⟩
        rw [count]
        exact err

/-- With one parity, the loop needs every stripe. It stops at the last one, unless that is the one to recover. -/
theorem gather_raid5 {i left : Nat} (last : dstripes + 1 = i + left) :
    (NoneLost get posN i left ∧
      gather get posN dstripes true i none left =
        { i := if posN = dstripes ∨ left = 0 then i + left else dstripes
          bad2 := none
          err := none
          ptrs := (List.range' i left).map (loaded get posN) }) ∨
    (¬ NoneLost get posN i left ∧ ∃ status, (gather get posN dstripes true i none left).err = some status) := by
  induction left generalizing i with
  | zero =>
    refine Or.inl ⟨fun k le lt => absurd lt (by omega), ?_⟩
    rw [if_pos (Or.inr rfl)]
    rfl
  | succ left ih =>
    have again (found : ¬ Lost get posN i) (more : posN = dstripes ∨ left ≠ 0) :
        (NoneLost get posN i (left + 1) ∧
          (gather get posN dstripes true (i + 1) none left).behind (loaded get posN i) =
            { i := if posN = dstripes ∨ left + 1 = 0 then i + (left + 1) else dstripes
              bad2 := none
              err := none
              ptrs := (List.range' i (left + 1)).map (loaded get posN) }) ∨
        (¬ NoneLost get posN i (left + 1) ∧ ∃ status,
          ((gather get posN dstripes true (i + 1) none left).behind (loaded get posN i)).err = some status) := by
      rcases @ih (i + 1) (by omega) with ⟨none, same⟩ | ⟨some, failed⟩
      · refine Or.inl ⟨noneLost_succ.mpr ⟨found, none⟩, ?_⟩
        have stop : (if posN = dstripes ∨ left = 0 then i + 1 + left else dstripes) =
            if posN = dstripes ∨ left + 1 = 0 then i + (left + 1) else dstripes := by
          split <;> split <;> omega
        rw [same, List.range'_succ, List.map_cons, ← stop]
        rfl
      · exact Or.inr ⟨fun all => some (noneLost_succ.mp all).2, failed⟩
    rw [gather]
    split
    · rename_i target
      have here : none = loaded get posN i := (if_pos target).symm
      rw [here]
      exact again (fun lost => lost.1 target) (by omega)
    · rename_i other
      split
      · rename_i block read
        have here : some block = loaded get posN i := by
          rw [loaded, if_neg other, read]
          rfl
        rw [here]
        split
        · rename_i stops
          obtain rfl := stops.2
          obtain rfl : left = 0 := by omega
          refine Or.inl ⟨noneLost_succ.mpr ⟨not_lost_of_ok read, fun k le lt => absurd lt (by omega)⟩, ?_⟩
          rw [if_neg (by omega)]
          rfl
        · rename_i goesOn
          have apart : dstripes ≠ i := fun same => goesOn ⟨rfl, same⟩
          exact again (not_lost_of_ok read) (by omega)
      · rename_i status failed
        rw [if_pos (Or.inr rfl)]
        exact Or.inr ⟨fun all => (noneLost_succ.mp all).1 ⟨other, status, failed⟩, status, rfl⟩

/-! ### The sums over the stripes -/

/-- A byte of the block that is loaded of a stripe. -/
def foundByte (get : Nat → Except FswStatus (Sector size)) (posN : Nat) (j : Fin size) (k : Nat) : Gf :=
  ⟨(loaded get posN k).elim 0 (· j)⟩

theorem overStripes_eq {step : Nat → Sector size → Sector size → Option (Sector size)} {f : Nat → AddMonoid.End Gf}
    {rounds len : Nat} (le : rounds ≤ len)
    (each : ∀ i < rounds, ∀ buffer ptr, step i buffer ptr = some fun j => buffer j ^^^ (f i ⟨ptr j⟩).byte) :
    overStripes step ((List.range' 0 len).map (loaded get posN)) rounds =
      some fun j => (∑ i ∈ range rounds, f i (foundByte get posN j i)).byte := by
  induction rounds with
  | zero => rfl
  | succ i ih =>
    have here : ((List.range' 0 len).map (loaded get posN))[i]? = some (loaded get posN i) := by
      rw [List.getElem?_map, List.getElem?_range' (by omega), Nat.zero_add]
      rw [Nat.one_mul]
      rfl
    rw [overStripes, ih (by omega) fun k lt => each k (by omega), Option.bind_some, here]
    cases load : loaded get posN i with
    | none =>
      refine congrArg some (funext fun j => ?_)
      have zero : foundByte get posN j i = 0 := by rw [foundByte, load]; rfl
      rw [Finset.sum_range_succ, zero, map_zero, add_zero]
    | some ptr =>
      refine (each i (Nat.lt_succ_self i) _ ptr).trans (congrArg some (funext fun j => ?_))
      have byte : foundByte get posN j i = ⟨ptr j⟩ := by rw [foundByte, load]; rfl
      rw [Finset.sum_range_succ, byte, Gf.byte_add]

theorem stripeXor_eq {dataStripes len : Nat} (lt : dataStripes < len) :
    stripeXor ((List.range' 0 len).map (loaded get posN)) dataStripes =
      some fun j => (∑ i ∈ range (dataStripes + 1), foundByte get posN j i).byte :=
  overStripes_eq (f := fun _ => 1) lt fun _ _ _ _ => rfl

theorem weighted_eq {rounds len : Nat} (le : rounds ≤ len) (few : rounds ≤ 256) :
    overStripes (fun i buffer ptr => blockMulxXor buffer i ptr) ((List.range' 0 len).map (loaded get posN))
        rounds =
      some fun j => (weighted galois rounds (foundByte get posN j)).byte :=
  overStripes_eq (f := fun i => galois.x ^ i) le fun i lt buffer ptr => blockMulxXor_eq (by omega) buffer ptr

/-! ### What is recovered -/

/-- The blocks that are read are those of the row. -/
def ReadsRow (get : Nat → Except FswStatus (Sector size)) (row : Nat → Sector size) (nstripes posN : Nat) : Prop :=
  ∀ k < nstripes, k ≠ posN → ∀ block, get k = .ok block → block = row k

def rowByte (row : Nat → Sector size) (j : Fin size) (k : Nat) : Gf := ⟨row k j⟩

variable {row : Nat → Sector size} {nstripes : Nat}

theorem foundByte_target (j : Fin size) : foundByte get posN j posN = 0 := by
  rw [foundByte, loaded, if_pos rfl]
  rfl

theorem foundByte_lost {k : Nat} (lost : Lost get posN k) (j : Fin size) : foundByte get posN j k = 0 := by
  obtain ⟨other, status, failed⟩ := lost
  rw [foundByte, loaded, if_neg other, failed]
  rfl

theorem foundByte_read (reads : ReadsRow get row nstripes posN) {k : Nat} (lt : k < nstripes) (other : k ≠ posN)
    (found : ¬ Lost get posN k) (j : Fin size) : foundByte get posN j k = rowByte row j k := by
  rw [foundByte, loaded, if_neg other]
  cases read : get k with
  | error status => exact absurd ⟨other, status, read⟩ found
  | ok block =>
    rw [reads k lt other block read]
    rfl

/-- The sum of the other stripes is the block, where all of them add up to nothing. -/
theorem sum_others (reads : ReadsRow get row nstripes posN) {m : Nat} (le : m ≤ nstripes) (target : posN < m)
    (all : NoneLost get posN 0 m) (j : Fin size) (zero : ∑ k ∈ range m, rowByte row j k = 0) :
    ∑ k ∈ range m, foundByte get posN j k = rowByte row j posN := by
  have sum := @sum_lost_one Gf _ galois _ (rowByte row j) (foundByte get posN j) posN target (foundByte_target j)
    fun k lt other => foundByte_read reads (by omega) other (all k (Nat.zero_le k) (by omega)) j
  rwa [zero, add_zero] at sum

/-- With one parity, a block is recovered exactly if all the other stripes are read and it is not the last one, for
which the loop runs on behind the stripes. -/
theorem recoverBlock_raid5 (reads : ReadsRow get row nstripes posN) (target : posN < nstripes)
    (parity : ∀ j, ∑ k ∈ range nstripes, rowByte row j k = 0) :
    (NoneLost get posN 0 nstripes ∧
      recoverBlock get nstripes posN (nstripes - 1) true =
        if posN + 1 = nstripes then .error .outOfBounds else .ok (row posN)) ∨
    (¬ NoneLost get posN 0 nstripes ∧
      ∃ status, recoverBlock get nstripes posN (nstripes - 1) true = .error (.status status)) := by
  rcases @gather_raid5 size get posN (nstripes - 1) 0 nstripes (by omega) with ⟨all, same⟩ | ⟨some, status, failed⟩
  · refine Or.inl ⟨all, ?_⟩
    rw [recoverBlock, same]
    dsimp only
    by_cases last : posN + 1 = nstripes
    · have behind : ((List.range' 0 nstripes).map (loaded get posN))[nstripes]? = none := by
        rw [List.getElem?_eq_none]
        rw [List.length_map, List.length_range']
      rw [if_pos (by omega), if_pos last, Nat.zero_add, stripeXor, overStripes, behind]
      rw [Option.bind_eq_none_iff.mpr fun _ _ => rfl]
      rfl
    · rw [if_neg (by omega), if_neg last, stripeXor_eq (by omega), Nat.sub_add_cancel (by omega)]
      refine congrArg Except.ok (funext fun j => ?_)
      rw [sum_others reads (Nat.le_refl _) target all j (parity j)]
      rfl
  · refine Or.inr ⟨some, status, ?_⟩
    rw [recoverBlock, failed]

/-- The parities of a row with two: the sum of the data, and their weighted sum. -/
structure Raid6Row (row : Nat → Sector size) (nstripes : Nat) : Prop where
  sum : ∀ j, rowByte row j (nstripes - 2) = ∑ k ∈ range (nstripes - 2), rowByte row j k
  weighted : ∀ j, rowByte row j (nstripes - 1) = weighted galois (nstripes - 2) (rowByte row j)

/-- At most one stripe up to the sum of the data is lost, and if one is, nothing else. -/
def Recoverable (get : Nat → Except FswStatus (Sector size)) (nstripes posN : Nat) : Prop :=
  NoneLost get posN 0 (nstripes - 1) ∨
    ∃ b < nstripes - 1, Lost get posN b ∧ ∀ k < nstripes, k ≠ b → ¬ Lost get posN k

theorem xor_255 : ∀ n : Fin 256, 255 ^^^ n.val = 255 - n.val := by decide +kernel

theorem galois_log (v : Gf) : galois.log v = logOf v.byte := by rw [galois]

theorem lostFactor_eq {b : Nat} (small : posN < 254) (small' : b < 254) (apart : posN ≠ b) :
    ∃ c < 255, lostFactor posN b = some c ∧ (galois.x ^ (b + (255 - posN))) galois.one ≠ galois.one ∧
      (c + posN + galois.log ((galois.x ^ (b + (255 - posN))) galois.one + galois.one)) % galois.order = 0 := by
  have folded := xor_255 ⟨posN, by omega⟩
  dsimp only at folded
  have other : (galois.x ^ (b + (255 - posN))) galois.one ≠ galois.one := by
    rw [← galois.pow_mod]
    refine galois.pow_ne_one _ ?_ (Nat.mod_lt _ (by decide))
    have order : galois.order = 255 := rfl
    rw [order]
    omega
  have value : (galois.x ^ (b + (255 - posN))) galois.one = ⟨power (b + (255 - posN))⟩ := doubling_pow_one _
  rw [value] at other ⊢
  have sum : (⟨power (b + (255 - posN))⟩ + galois.one : Gf).byte = power (b + (255 - posN)) ^^^ 1 := rfl
  have some : power (b + (255 - posN)) ^^^ 1 ≠ 0 := by
    intro zero
    exact other (Scale.eq_of_add_eq_zero galois (Gf.ext (sum.trans zero)))
  have log := galois_log (⟨power (b + (255 - posN))⟩ + galois.one)
  rw [sum] at log
  have lt := (power_logOf some).2
  have folded' := xor_255 ⟨logOf (power (b + (255 - posN)) ^^^ 1), by omega⟩
  dsimp only at folded'
  refine ⟨(255 - posN + (255 ^^^ logOf (power (b + (255 - posN)) ^^^ 1))) % 255, Nat.mod_lt _ (by decide), ?_,
    other, ?_⟩
  · rw [lostFactor, Nat.xor_comm, folded, powx_eq (by omega), Option.bind_some, powxInv_eq some]
    rfl
  · have order : galois.order = 255 := rfl
    rw [log, folded', order]
    omega

section
variable (parities : Raid6Row row nstripes) (target : posN < nstripes - 2) (few : nstripes ≤ 255)
include parities target few

/-- Where the parity is read in place of one stripe of the data, or of the sum. -/
theorem recoverSecond_eq (reads : ReadsRow get row nstripes posN) {b : Nat} (lt : b < nstripes - 1)
    (lost : Lost get posN b) (others : ∀ k < nstripes, k ≠ b → ¬ Lost get posN k) :
    recoverSecond nstripes posN (nstripes - 2) b ((List.range' 0 nstripes).map (loaded get posN)) =
      some (row posN) := by
  have read (k : Nat) (inside : k < nstripes) (apart : k ≠ posN) (apart' : k ≠ b) (j : Fin size) :
      foundByte get posN j k = rowByte row j k := foundByte_read reads inside apart (others k inside apart') j
  have last : ∃ parity, ((List.range' 0 nstripes).map (loaded get posN))[nstripes - 1]? = some (some parity) ∧
      parity = row (nstripes - 1) := by
    cases parity : get (nstripes - 1) with
    | error status => exact absurd ⟨by omega, status, parity⟩ (others (nstripes - 1) (by omega) (by omega))
    | ok block =>
      refine ⟨block, ?_, reads _ (by omega) (by omega) block parity⟩
      rw [List.getElem?_map, List.getElem?_range' (by omega), Nat.zero_add, Nat.one_mul, Option.map_some, loaded,
        if_neg (by omega), parity]
      rfl
  obtain ⟨_, last, rfl⟩ := last
  have buffer (j : Fin size) : (⟨(weighted galois (nstripes - 2) (foundByte get posN j)).byte ^^^
      row (nstripes - 1) j⟩ : Gf) =
        weighted galois (nstripes - 2) (foundByte get posN j) +
          weighted galois (nstripes - 2) (rowByte row j) := by
    rw [← parities.weighted]
    rfl
  rw [recoverSecond, weighted_eq (by omega) (by omega), last]
  dsimp only [Option.bind_eq_bind, Option.bind_some]
  by_cases sum : b = nstripes - 2
  · rw [if_pos sum, blockMulx_eq (Nat.sub_le _ _)]
    refine congrArg some (funext fun j => ?_)
    have order : galois.order = 255 := by rw [galois]
    have found := @recover_weighted Gf _ galois _ (rowByte row j) (foundByte get posN j) posN (255 - posN) target
      (foundByte_target j)
      (fun k inside other => read k (by omega) other (by omega) j) (by rw [order]; omega)
    rw [← buffer] at found
    exact congrArg Gf.byte found
  · rw [if_neg sum]
    obtain ⟨c, small, factor, other, makesUp⟩ :=
      @lostFactor_eq posN b (by omega) (by omega) (fun same => lost.1 same.symm)
    rw [factor, Option.bind_some, blockMulx_eq (by omega), Option.bind_some, stripeXor_eq (by omega),
      Option.bind_some, blockMulxXor_eq (by omega)]
    refine congrArg some (funext fun j => ?_)
    have order : galois.order = 255 := by rw [galois]
    have sums : ∑ k ∈ range (nstripes - 2 + 1), foundByte get posN j k =
        ∑ k ∈ range (nstripes - 2), foundByte get posN j k + ∑ k ∈ range (nstripes - 2), rowByte row j k := by
      rw [Finset.sum_range_succ, read (nstripes - 2) (by omega) (by omega) (fun same => sum same.symm),
        parities.sum]
    have found := @recover_two Gf _ galois _ (rowByte row j) (foundByte get posN j) posN b c _ target (by omega)
      (fun same => lost.1 same.symm) (foundByte_target j) (foundByte_lost lost j)
      (fun k inside apart apart' => read k (by omega) apart apart' j) (by rw [order]; omega) other makesUp
    rw [← buffer, ← sums, ← galois.pow_mod (b + c), order] at found
    exact congrArg Gf.byte found

/-- With two parities, a block of the data is recovered exactly if the parities make up for what is lost. -/
theorem recoverBlock_raid6 (reads : ReadsRow get row nstripes posN) :
    (Recoverable get nstripes posN ∧ recoverBlock get nstripes posN (nstripes - 2) false = .ok (row posN)) ∨
    (¬ Recoverable get nstripes posN ∧
      ∃ status, recoverBlock get nstripes posN (nstripes - 2) false = .error (.status status)) := by
  have count : nstripes - 2 + 1 = nstripes - 1 := by omega
  rcases @gather_raid6 size get posN (nstripes - 2) 0 nstripes (Nat.zero_le (nstripes - 2)) (by omega) target with
    ⟨none, same⟩ | ⟨b, gives⟩
  · rw [Nat.sub_zero, count] at none same
    refine Or.inl ⟨Or.inl none, ?_⟩
    rw [recoverBlock, same]
    dsimp only
    rw [stripeXor_eq (by omega), count]
    refine congrArg Except.ok (funext fun j => ?_)
    have zero : ∑ k ∈ range (nstripes - 1), rowByte row j k = 0 := by
      rw [← count, Finset.sum_range_succ, parities.sum]
      exact galois.add_self _
    rw [sum_others reads (by omega) (by omega) none j zero]
    rfl
  · obtain ⟨_, leSum, lost, first, err, bad, length⟩ := gives
    have others : (gather get posN (nstripes - 2) false 0 Option.none nstripes).err = Option.none ↔
        ∀ k < nstripes, k ≠ b → ¬ Lost get posN k := by
      rw [err]
      constructor
      · intro later k inside apart
        rcases Nat.lt_or_gt_of_ne apart with before | behind
        · exact first k (Nat.zero_le k) (by omega)
        · exact later k behind (by omega)
      · exact fun all k behind inside => all k (by omega) (by omega)
    cases outcome : (gather get posN (nstripes - 2) false 0 Option.none nstripes).err with
    | none =>
      have all := others.mp outcome
      refine Or.inl ⟨Or.inr ⟨b, by omega, lost, all⟩, ?_⟩
      have ptrs := @gather_ptrs size get posN (nstripes - 2) false 0 nstripes Option.none
      rw [length outcome] at ptrs
      rw [recoverBlock, outcome, bad]
      dsimp only
      rw [ptrs, recoverSecond_eq parities target few reads (by omega) lost all]
      rfl
    | some status =>
      refine Or.inr ⟨?_, status, ?_⟩
      · rintro (none | ⟨b', inside, lost', all⟩)
        · exact none b (Nat.zero_le b) (by omega) lost
        · obtain rfl : b = b' := by_contra fun apart => all b (by omega) apart lost
          rw [others.mpr all] at outcome
          cases outcome
      · rw [recoverBlock, outcome]

end

end

/-! ### What is recovered -/

/-- A row of bytes: two of data, their sum, and their weighted sum. -/
def sampleRow (k : Nat) : Sector 1 := fun _ => [1, 2, 3, 5].getD k 0

theorem sampleRow_parities : Raid6Row sampleRow 4 where
  sum := by decide +kernel
  weighted := by
    have double : galois.x = doubling := rfl
    intro j
    rw [weighted, Finset.sum_range_succ, Finset.sum_range_one, pow_zero, pow_one, double]
    refine Gf.ext ?_
    revert j
    decide +kernel

/-- The row with both stripes of the data lost. -/
def sampleGet (k : Nat) : Except FswStatus (Sector 1) := if k < 2 then .error .ioError else .ok (sampleRow k)

theorem sampleGet_reads : ReadsRow sampleGet sampleRow 4 0 := by
  intro k lt other block read
  rw [sampleGet] at read
  split at read
  · cases read
  · exact (Except.ok.inj read).symm

section
variable {get : Nat → Except FswStatus (Sector size)} {row : Nat → Sector size} {nstripes posN : Nat}

/-- With one parity, nothing but the block is recovered, and it is recovered exactly if all the other stripes are
read and it is not the last one. -/
theorem raid5_recovers (reads : ReadsRow get row nstripes posN) (target : posN < nstripes)
    (parity : ∀ j, ∑ k ∈ range nstripes, rowByte row j k = 0) :
    (∀ block, recoverBlock get nstripes posN (nstripes - 1) true = .ok block → block = row posN) ∧
      ((∃ block, recoverBlock get nstripes posN (nstripes - 1) true = .ok block) ↔
        NoneLost get posN 0 nstripes ∧ posN + 1 ≠ nstripes) := by
  rcases recoverBlock_raid5 reads target parity with ⟨all, same⟩ | ⟨some, status, failed⟩
  · by_cases last : posN + 1 = nstripes
    · rw [if_pos last] at same
      rw [same]
      refine ⟨fun _ error => absurd error (by rintro ⟨⟩), iff_of_false ?_ fun both => both.2 last⟩
      rintro ⟨_, error⟩
      cases error
    · rw [if_neg last] at same
      rw [same]
      exact ⟨fun block here => (Except.ok.inj here).symm, iff_of_true ⟨_, rfl⟩ ⟨all, last⟩⟩
  · rw [failed]
    refine ⟨fun _ error => absurd error (by rintro ⟨⟩), iff_of_false ?_ fun both => some both.1⟩
    rintro ⟨_, error⟩
    cases error

/-- The sum makes up for the first of the data. -/
theorem sampleRow_raid5 :
    (∀ block, recoverBlock (fun k => .ok (sampleRow k)) 3 0 2 true = .ok block → block = sampleRow 0) ∧
      ((∃ block, recoverBlock (fun k => .ok (sampleRow k)) 3 0 2 true = .ok block) ↔
        NoneLost (fun k => .ok (sampleRow k)) 0 0 3 ∧ 0 + 1 ≠ 3) :=
  raid5_recovers (fun _ _ _ _ same => (Except.ok.inj same).symm) (by decide) (by decide +kernel)

/-- With two parities, nothing but the block is recovered, and it is recovered exactly if nothing else is lost up
to the sum of the data, or one stripe of these and nothing else. -/
theorem raid6_recovers (reads : ReadsRow get row nstripes posN) (parities : Raid6Row row nstripes)
    (target : posN < nstripes - 2) (few : nstripes ≤ 255) :
    (∀ block, recoverBlock get nstripes posN (nstripes - 2) false = .ok block → block = row posN) ∧
      ((∃ block, recoverBlock get nstripes posN (nstripes - 2) false = .ok block) ↔
        Recoverable get nstripes posN) := by
  rcases recoverBlock_raid6 parities target few reads with ⟨can, same⟩ | ⟨cannot, status, failed⟩
  · rw [same]
    exact ⟨fun block here => (Except.ok.inj here).symm, iff_of_true ⟨_, rfl⟩ can⟩
  · rw [failed]
    refine ⟨fun _ error => absurd error (by rintro ⟨⟩), iff_of_false ?_ cannot⟩
    rintro ⟨_, error⟩
    cases error

/-- Both parities make up for both of the data. -/
theorem sampleRow_raid6 :
    (∀ block, recoverBlock sampleGet 4 0 2 false = .ok block → block = sampleRow 0) ∧
      ((∃ block, recoverBlock sampleGet 4 0 2 false = .ok block) ↔ Recoverable sampleGet 4 0) :=
  raid6_recovers sampleGet_reads sampleRow_parities (by decide) (by decide)

end

end Meridian.Btrfs
