import Meridian.Lib.Word
import Mathlib.Data.List.Basic

/-!
# Searching a buffer

The model of `FindMem` of `storage/file_io.c`. `CompareMem` is taken to read no byte behind the first
difference; a read outside the buffer has no result.
-/

namespace Meridian.Storage

open Lib.Word

/-- Bytes whose number fits a `UINTN`. -/
structure MemBuffer where
  bytes : List UInt8
  fits : bytes.length < 2 ^ 64

inductive MemFault where
  | outsideBuffer
  deriving DecidableEq, Repr

/-- Whether `CompareMem` finds no difference between the search string and the buffer at the offset. -/
def compareMem (buffer : List UInt8) (offset : Nat) : List UInt8 → Except MemFault Bool
  | [] => .ok true
  | b :: searchString =>
    match buffer[offset]? with
    | none => .error .outsideBuffer
    | some a => if a = b then compareMem buffer (offset + 1) searchString else .ok false

/-- The cast to `INTN`. -/
def toIntn (offset : Nat) : Int := if offset < 2 ^ 63 then offset else (offset : Int) - 2 ^ 64

/-- The loop, with the number of rounds that its limit leaves. -/
def findMemLoop (buffer searchString : List UInt8) (offset : Nat) : Nat → Except MemFault Int
  | 0 => .ok (-1)
  | rounds + 1 =>
    match compareMem buffer offset searchString with
    | .error fault => .error fault
    | .ok true => .ok (toIntn offset)
    | .ok false => findMemLoop buffer searchString (offset + 1) rounds

def findMem (buffer searchString : MemBuffer) : Except MemFault Int :=
  findMemLoop buffer.bytes searchString.bytes 0 (sub64 buffer.bytes.length searchString.bytes.length)

/-! ### Where the string occurs -/

def OccursAt (buffer searchString : List UInt8) (offset : Nat) : Prop := searchString <+: buffer.drop offset

instance (buffer searchString : List UInt8) (offset : Nat) : Decidable (OccursAt buffer searchString offset) :=
  inferInstanceAs (Decidable (_ <+: _))

/-- The string occurs at the offset, and nowhere before it. -/
structure FirstOccurrence (buffer searchString : List UInt8) (offset : Nat) : Prop where
  occurs : OccursAt buffer searchString offset
  first : ∀ j < offset, ¬ OccursAt buffer searchString j

variable {buffer searchString : List UInt8} {offset : Nat}

theorem OccursAt.within (h : OccursAt buffer searchString offset) (nonempty : searchString ≠ []) :
    offset + searchString.length ≤ buffer.length := by
  have short := List.IsPrefix.length_le h
  have some := List.length_pos_iff.mpr nonempty
  rw [List.length_drop] at short
  omega

theorem FirstOccurrence.unique {offset' : Nat} (h : FirstOccurrence buffer searchString offset)
    (h' : FirstOccurrence buffer searchString offset') : offset = offset' := by
  obtain before | same | behind := Nat.lt_trichotomy offset offset'
  · exact absurd h.occurs (h'.first offset before)
  · exact same
  · exact absurd h'.occurs (h.first offset' behind)

theorem occursAt_cons {b : UInt8} (inside : offset < buffer.length) :
    OccursAt buffer (b :: searchString) offset ↔
      buffer[offset] = b ∧ OccursAt buffer searchString (offset + 1) := by
  rw [OccursAt, List.drop_eq_getElem_cons inside, List.cons_prefix_cons, eq_comm]
  rfl

theorem exists_firstOccurrence (h : OccursAt buffer searchString offset) :
    ∃ k, FirstOccurrence buffer searchString k := by
  have some : ∃ k, OccursAt buffer searchString k := ⟨offset, h⟩
  exact ⟨Nat.find some, Nat.find_spec some, fun _ before => Nat.find_min some before⟩

theorem compareMem_eq (within : offset + searchString.length ≤ buffer.length) :
    compareMem buffer offset searchString = .ok (decide (OccursAt buffer searchString offset)) := by
  induction searchString generalizing offset with
  | nil =>
    have here : OccursAt buffer [] offset := List.nil_prefix
    rw [compareMem, decide_eq_true here]
  | cons b searchString ih =>
    rw [List.length_cons] at within
    have inside : offset < buffer.length := by omega
    rw [compareMem, List.getElem?_eq_getElem inside]
    dsimp only
    split
    · rename_i same
      rw [ih (by omega)]
      simp only [occursAt_cons inside, same, true_and]
    · rename_i other
      simp only [occursAt_cons inside, other, false_and, decide_false]

/-- A string that does not fit behind the offset does not compare equal. -/
theorem compareMem_long (inside : offset ≤ buffer.length) (long : buffer.length < offset + searchString.length) :
    compareMem buffer offset searchString ≠ .ok true := by
  induction searchString generalizing offset with
  | nil => exact absurd inside (Nat.not_le_of_lt long)
  | cons b searchString ih =>
    rw [List.length_cons] at long
    rw [compareMem]
    split
    · exact fun impossible => nomatch impossible
    · rename_i a here
      obtain ⟨before, -⟩ := List.getElem?_eq_some_iff.mp here
      split
      · exact ih before (by omega)
      · exact fun impossible => nomatch impossible

/-- The rounds whose comparisons stay in the buffer find the first occurrence among their offsets. -/
theorem findMemLoop_within {rounds : Nat} (within : offset + rounds + searchString.length ≤ buffer.length) :
    (∃ k < offset + rounds, offset ≤ k ∧ OccursAt buffer searchString k ∧
        (∀ j < k, offset ≤ j → ¬ OccursAt buffer searchString j) ∧
        findMemLoop buffer searchString offset rounds = .ok (toIntn k)) ∨
      ((∀ j < offset + rounds, offset ≤ j → ¬ OccursAt buffer searchString j) ∧
        findMemLoop buffer searchString offset rounds = .ok (-1)) := by
  induction rounds generalizing offset with
  | zero => exact .inr ⟨fun j before behind => absurd before (Nat.not_lt_of_le behind), rfl⟩
  | succ rounds ih =>
    rw [findMemLoop, compareMem_eq (by omega)]
    by_cases here : OccursAt buffer searchString offset
    · rw [decide_eq_true here]
      exact .inl ⟨offset, by omega, Nat.le_refl _, here, fun j before behind => absurd before (by omega), rfl⟩
    · rw [decide_eq_false here]
      have step {j : Nat} (behind : offset ≤ j) (occurs : OccursAt buffer searchString j) : offset + 1 ≤ j :=
        Nat.lt_of_le_of_ne behind fun same => here (same ▸ occurs)
      obtain ⟨k, below, behind, occurs, first, found⟩ | ⟨none, missed⟩ := @ih (offset + 1) (by omega)
      · refine .inl ⟨k, by omega, by omega, occurs, fun j before behind' occurs' => ?_, found⟩
        exact first j before (step behind' occurs') occurs'
      · refine .inr ⟨fun j before behind' occurs' => ?_, missed⟩
        exact none j (by omega) (step behind' occurs') occurs'

/-- With a string longer than the buffer, the loop reads outside the buffer. -/
theorem findMemLoop_outside {rounds : Nat} (inside : offset ≤ buffer.length)
    (enough : buffer.length < offset + rounds) (long : buffer.length < searchString.length) :
    findMemLoop buffer searchString offset rounds = .error .outsideBuffer := by
  induction rounds generalizing offset with
  | zero => exact absurd inside (Nat.not_le_of_lt enough)
  | succ rounds ih =>
    rw [findMemLoop]
    cases compared : compareMem buffer offset searchString with
    | error fault => cases fault; rfl
    | ok equal =>
      cases equal with
      | true => exact absurd compared (compareMem_long inside (by omega))
      | false =>
        refine ih (Nat.lt_of_le_of_ne inside fun last => ?_) (by omega)
        cases searchString with
        | nil => exact absurd long (Nat.not_lt_zero _)
        | cons b searchString =>
          rw [compareMem, List.getElem?_eq_none_iff.mpr (Nat.le_of_eq last.symm)] at compared
          cases compared

/-- What is to be returned: the least offset where the string occurs, and -1 without an occurrence. For
a string longer than the buffer, -1, and nothing outside the buffer is read. -/
structure FindsLeast (buffer searchString : MemBuffer) : Prop where
  fitting : 0 < searchString.bytes.length → searchString.bytes.length ≤ buffer.bytes.length →
    (∃ k : Nat, FirstOccurrence buffer.bytes searchString.bytes k ∧ findMem buffer searchString = .ok (k : Int)) ∨
      ((∀ k, ¬ OccursAt buffer.bytes searchString.bytes k) ∧ findMem buffer searchString = .ok (-1))
  longer : buffer.bytes.length < searchString.bytes.length → findMem buffer searchString = .ok (-1)

theorem findMem_longer {buffer searchString : MemBuffer} (long : buffer.bytes.length < searchString.bytes.length) :
    findMem buffer searchString = .error .outsideBuffer := by
  have fits := searchString.fits
  refine findMemLoop_outside (Nat.zero_le _) ?_ long
  rw [sub64]
  omega

theorem toIntn_eq_iff {k : Nat} : toIntn k = (k : Int) ↔ k < 2 ^ 63 := by
  rw [toIntn]
  split
  · rename_i low
    exact iff_of_true rfl low
  · rename_i high
    exact iff_of_false (by omega) high

/-- What a string that is no longer than the buffer is answered: the offset that ends with the buffer is
not looked at. -/
theorem findMem_fitting {buffer searchString : MemBuffer}
    (short : searchString.bytes.length ≤ buffer.bytes.length) :
    (∃ k, FirstOccurrence buffer.bytes searchString.bytes k ∧
        k + searchString.bytes.length < buffer.bytes.length ∧ findMem buffer searchString = .ok (toIntn k)) ∨
      ((∀ k, k + searchString.bytes.length < buffer.bytes.length →
          ¬ OccursAt buffer.bytes searchString.bytes k) ∧ findMem buffer searchString = .ok (-1)) := by
  rw [findMem, sub64_of_le short buffer.fits]
  obtain ⟨k, below, -, occurs, first, found⟩ | ⟨none, missed⟩ :=
    @findMemLoop_within buffer.bytes searchString.bytes 0 (buffer.bytes.length - searchString.bytes.length)
      (by omega)
  · exact .inl ⟨k, ⟨occurs, fun j before => first j before (Nat.zero_le _)⟩, by omega, found⟩
  · exact .inr ⟨fun k inside => none k (by omega) (Nat.zero_le _), missed⟩

/-- The first occurrence is found where it does not end with the buffer. -/
theorem findMem_iff (buffer searchString : MemBuffer) :
    FindsLeast buffer searchString ↔
      searchString.bytes = [] ∨ (searchString.bytes.length ≤ buffer.bytes.length ∧
        ∀ k, FirstOccurrence buffer.bytes searchString.bytes k →
          k + searchString.bytes.length < buffer.bytes.length ∧ k < 2 ^ 63) := by
  constructor
  · intro finds
    by_cases empty : searchString.bytes = []
    · exact .inl empty
    have short : searchString.bytes.length ≤ buffer.bytes.length := by
      by_contra long
      have outside := findMem_longer (Nat.lt_of_not_le long)
      rw [finds.longer (Nat.lt_of_not_le long)] at outside
      cases outside
    refine .inr ⟨short, fun k here => ?_⟩
    obtain ⟨k', here', right⟩ | ⟨none, -⟩ := finds.fitting (List.length_pos_iff.mpr empty) short
    · obtain rfl := here.unique here'
      obtain ⟨k', here', inside, found⟩ | ⟨-, missed⟩ := findMem_fitting short
      · obtain rfl := here.unique here'
        rw [right] at found
        exact ⟨inside, toIntn_eq_iff.mp (Except.ok.inj found).symm⟩
      · rw [right] at missed
        have impossible := Except.ok.inj missed
        omega
    · exact absurd here.occurs (none k)
  · rintro (empty | ⟨short, inside⟩)
    · refine ⟨fun some => ?_, fun some => ?_⟩
      · rw [empty] at some
        exact absurd some (Nat.lt_irrefl 0)
      · rw [empty] at some
        exact absurd some (Nat.not_lt_zero _)
    · refine ⟨fun some _ => ?_, fun long => absurd short (Nat.not_le_of_lt long)⟩
      obtain ⟨k, here, -, found⟩ | ⟨none, missed⟩ := findMem_fitting short
      · rw [toIntn_eq_iff.mpr (inside k here).2] at found
        exact .inl ⟨k, here, found⟩
      · refine .inr ⟨fun k occurs => ?_, missed⟩
        obtain ⟨least, here⟩ := exists_firstOccurrence occurs
        exact none least (inside least here).1 here.occurs

/-- A string that is the whole buffer. -/
def wholeBuffer : MemBuffer := ⟨"EXFAT".toList.map fun c => UInt8.ofNat c.toNat, by decide⟩

theorem findMem_whole : ¬ FindsLeast wholeBuffer wholeBuffer := by
  intro finds
  have missed : findMem wholeBuffer wholeBuffer = .ok (-1) := by decide
  obtain ⟨k, -, found⟩ | ⟨none, -⟩ := finds.fitting (by decide) (by decide)
  · have impossible := Except.ok.inj (missed.symm.trans found)
    omega
  · exact none 0 (by decide)

end Meridian.Storage
