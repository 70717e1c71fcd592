import Meridian.Text
import Mathlib.Data.List.Basic

/-!
# The scans that are asked for

The loops of `ScanForBootloaders` of `discovery/scan.c` over the letters of `GlobalConfig.ScanFor`, and where
`ReadConfig` of `config/config.c` takes them from. The first loop counts the letters that it knows; the second one
takes the count for a position. What lies behind the array is a parameter.
-/

namespace Meridian.Discovery

open Text

/-! ### Letters -/

def numScanOptions : Nat := 10

/-- `GlobalConfig.ScanFor`. -/
abbrev ScanForArray := Vector UInt8 numScanOptions

inductive DiskKind where
  | internal
  | external
  | optical
  deriving DecidableEq, Repr

inductive Scan where
  | scanUserConfigured
  | scanVolumesByKind (kind : DiskKind)
  | scanNetboot
  | scanFirmwareDefined
  deriving DecidableEq, Repr

/-- The labels of the loop that counts. -/
def isScanOption (letter : UInt8) : Bool :=
  match Char.ofUInt8 letter with
  | 'm' | 'M' | 'i' | 'I' | 'e' | 'E' | 'o' | 'O' | 'n' | 'N' | 'f' | 'F' => true
  | _ => false

/-- The branches of the loop that scans. -/
def scanOf (letter : UInt8) : Option Scan :=
  match Char.ofUInt8 letter with
  | 'm' | 'M' => some .scanUserConfigured
  | 'i' | 'I' => some (.scanVolumesByKind .internal)
  | 'e' | 'E' => some (.scanVolumesByKind .external)
  | 'o' | 'O' => some (.scanVolumesByKind .optical)
  | 'n' | 'N' => some .scanNetboot
  | 'f' | 'F' => some .scanFirmwareDefined
  | _ => none

theorem isSome_scanOf (letter : UInt8) : (scanOf letter).isSome = isScanOption letter := by
  unfold scanOf isScanOption
  generalize Char.ofUInt8 letter = c
  split <;> rfl

/-! ### The loops -/

/-- The first loop. -/
def countOptions (scanFor : ScanForArray) : Nat :=
  scanFor.toList.foldl (fun setOptions letter => if isScanOption letter then setOptions + 1 else setOptions) 0

/-- What is read at an index: an element, or what lies behind the array. -/
def letterAt (scanFor : ScanForArray) (behind : Nat → UInt8) (i : Nat) : UInt8 :=
  if h : i < numScanOptions then scanFor[i] else behind i

/-- What the second loop does: the indices that it reads, and the scans that it runs. -/
structure ScanRun where
  reads : List Nat
  scans : List Scan
  deriving DecidableEq, Repr

def scanLoop (scanFor : ScanForArray) (behind : Nat → UInt8) (setOptions i : Nat) : ScanRun :=
  if i ≤ setOptions then
    let later := scanLoop scanFor behind setOptions (i + 1)
    { reads := i :: later.reads, scans := (scanOf (letterAt scanFor behind i)).toList ++ later.scans }
  else { reads := [], scans := [] }
termination_by setOptions + 1 - i

def scanForBootloaders (scanFor : ScanForArray) (behind : Nat → UInt8) : ScanRun :=
  scanLoop scanFor behind (countOptions scanFor) 0

theorem countOptions_eq (scanFor : ScanForArray) : countOptions scanFor = scanFor.toList.countP isScanOption := by
  have counted (letters : List UInt8) (n : Nat) :
      letters.foldl (fun setOptions letter => if isScanOption letter then setOptions + 1 else setOptions) n =
        n + letters.countP isScanOption := by
    induction letters generalizing n with
    | nil => rfl
    | cons letter letters ih =>
      rw [List.foldl_cons, ih, List.countP_cons]
      split <;> omega
  rw [countOptions, counted, Nat.zero_add]

theorem scanLoop_eq (scanFor : ScanForArray) (behind : Nat → UInt8) (setOptions i : Nat) :
    scanLoop scanFor behind setOptions i =
      { reads := List.range' i (setOptions + 1 - i)
        scans := (List.range' i (setOptions + 1 - i)).filterMap fun i => scanOf (letterAt scanFor behind i) } := by
  fun_induction scanLoop scanFor behind setOptions i with
  | case1 i more later ih =>
    have size : setOptions + 1 - i = setOptions + 1 - (i + 1) + 1 := by omega
    rw [size, List.range'_succ, List.filterMap_cons]
    dsimp only [later]
    rw [ih]
    cases scanOf (letterAt scanFor behind i) <;> rfl
  | case2 i done =>
    have size : setOptions + 1 - i = 0 := by omega
    rw [size]
    rfl

/-- As long as the indices are in the array, the letters up to the count are scanned for. -/
theorem scanForBootloaders_scans {scanFor : ScanForArray} (behind : Nat → UInt8)
    (inside : countOptions scanFor < numScanOptions) :
    (scanForBootloaders scanFor behind).scans =
      (scanFor.toList.take (countOptions scanFor + 1)).filterMap scanOf := by
  have letters : (List.range (countOptions scanFor + 1)).map (letterAt scanFor behind) =
      scanFor.toList.take (countOptions scanFor + 1) := by
    apply List.ext_getElem
    · rw [List.length_map, List.length_range, List.length_take, Vector.length_toList]
      omega
    · intro i h _
      rw [List.length_map, List.length_range] at h
      rw [List.getElem_map, List.getElem_range, List.getElem_take, Vector.getElem_toList, letterAt,
        dif_pos (by omega)]
  rw [scanForBootloaders, scanLoop_eq, ← letters, List.filterMap_map, List.range_eq_range']
  rfl

/-! ### Letters and positions -/

theorem length_eq_countP {α : Type} (p : α → Bool) (l : List α) :
    l.length = l.countP p + l.countP fun x => !p x := by
  rw [List.length_eq_countP_add_countP p]
  congr 2
  funext x
  cases p x <;> rfl

/-- A count as a position reaches all that was counted if nothing that was counted has two others before it. -/
theorem countP_reaches_iff {α : Type} (p : α → Bool) (l : List α) :
    (∀ x ∈ l.drop (l.countP p + 1), p x = false) ↔
      ∀ front x back, l = front ++ x :: back → p x = true → front.countP (fun y => !p y) ≤ 1 := by
  have total : (l.take (l.countP p + 1) ++ l.drop (l.countP p + 1)).countP p =
      (l.take (l.countP p + 1)).countP p + (l.drop (l.countP p + 1)).countP p := List.countP_append
  rw [List.take_append_drop] at total
  have split := length_eq_countP p (l.take (l.countP p + 1))
  constructor
  · intro none front x back shape known
    have noneLater : (l.drop (l.countP p + 1)).countP p = 0 :=
      List.countP_eq_zero.mpr fun y mem => by rw [none y mem]; exact Bool.false_ne_true
    have short : front.length ≤ l.countP p := by
      by_contra long
      have later : x ∈ l.drop (l.countP p + 1) := by
        rw [shape, List.drop_append_of_le_length (by rw [← shape]; omega)]
        exact List.mem_append_right _ List.mem_cons_self
      rw [none x later] at known
      exact Bool.false_ne_true known
    have part : front <+: l.take (l.countP p + 1) :=
      List.prefix_take_iff.mpr ⟨⟨x :: back, shape.symm⟩, by omega⟩
    have fewer := part.sublist.countP_le (p := fun y => !p y)
    rw [List.length_take] at split
    omega
  · intro few x mem
    by_contra known
    rw [Bool.not_eq_false] at known
    obtain ⟨middle, back, shape⟩ := List.append_of_mem mem
    have whole : l = (l.take (l.countP p + 1) ++ middle) ++ x :: back := by
      rw [List.append_assoc, ← shape, List.take_append_drop]
    have bound := few _ x back whole known
    rw [List.countP_append] at bound
    rw [shape, List.countP_append, List.countP_cons, if_pos known] at total
    have long := congrArg List.length shape
    rw [List.length_drop, List.length_append, List.length_cons] at long
    rw [List.length_take] at split
    omega

/-- No letter that is asked for has two others before it. -/
def NoneSkipped (letters : List UInt8) : Prop :=
  ∀ front letter back, letters = front ++ letter :: back → isScanOption letter = true →
    front.countP (fun other => !isScanOption other) ≤ 1

theorem filterMap_take_iff (letters : List UInt8) (n : Nat) :
    (letters.take n).filterMap scanOf = letters.filterMap scanOf ↔
      ∀ letter ∈ letters.drop n, isScanOption letter = false := by
  have whole : letters.filterMap scanOf =
      (letters.take n).filterMap scanOf ++ (letters.drop n).filterMap scanOf := by
    rw [← List.filterMap_append, List.take_append_drop]
  rw [whole, List.self_eq_append_right, List.filterMap_eq_nil_iff]
  refine forall₂_congr fun letter _ => ?_
  rw [← isSome_scanOf, Option.isSome_eq_false_iff, Option.isNone_iff_eq_none]

theorem reads_inside_iff (scanFor : ScanForArray) (behind : Nat → UInt8) :
    (∀ i ∈ (scanForBootloaders scanFor behind).reads, i < numScanOptions) ↔
      countOptions scanFor < numScanOptions := by
  rw [scanForBootloaders, scanLoop_eq]
  constructor
  · intro all
    exact all _ (List.mem_range'_1.mpr (by omega))
  · intro inside i mem
    have bound := (List.mem_range'_1.mp mem).2
    omega

theorem countOptions_lt_iff (scanFor : ScanForArray) :
    countOptions scanFor < numScanOptions ↔ ∃ letter ∈ scanFor.toList, isScanOption letter = false := by
  have atMost := List.countP_le_length (p := isScanOption) (l := scanFor.toList)
  have all := List.countP_eq_length (p := isScanOption) (l := scanFor.toList)
  rw [Vector.length_toList] at atMost all
  rw [countOptions_eq, Nat.lt_iff_le_and_ne, and_iff_right atMost, ne_eq, all]
  simp only [not_forall, Bool.not_eq_true, exists_prop]

/-- Inside the array, the scans that are asked for are run exactly if none of them is skipped. -/
theorem scans_eq_iff {scanFor : ScanForArray} (behind : Nat → UInt8)
    (inside : countOptions scanFor < numScanOptions) :
    (scanForBootloaders scanFor behind).scans = scanFor.toList.filterMap scanOf ↔ NoneSkipped scanFor.toList := by
  rw [scanForBootloaders_scans behind inside, filterMap_take_iff, countOptions_eq]
  exact countP_reaches_iff isScanOption scanFor.toList

/-- The scans that are asked for are run, in their order and no others, and the array is not left, exactly if some
letter is none of them and none of them is skipped. -/
theorem scanForBootloaders_right_iff (scanFor : ScanForArray) (behind : Nat → UInt8) :
    ((scanForBootloaders scanFor behind).scans = scanFor.toList.filterMap scanOf ∧
        ∀ i ∈ (scanForBootloaders scanFor behind).reads, i < numScanOptions) ↔
      (∃ letter ∈ scanFor.toList, isScanOption letter = false) ∧ NoneSkipped scanFor.toList := by
  rw [reads_inside_iff, ← countOptions_lt_iff, and_comm]
  exact and_congr_right (scans_eq_iff behind)

/-- The letters of `scanfor x,internal`: the internal disks are not scanned. -/
theorem scanForBootloaders_skips :
    ¬∀ (scanFor : ScanForArray) (behind : Nat → UInt8),
      (scanForBootloaders scanFor behind).scans = scanFor.toList.filterMap scanOf ∧
        ∀ i ∈ (scanForBootloaders scanFor behind).reads, i < numScanOptions := by
  intro all
  obtain ⟨scans, -⟩ := all #v[115, 120, 105, 32, 32, 32, 32, 32, 32, 32] fun _ => 0
  exact absurd scans (by decide +kernel)

/-! ### The line of the configuration -/

def firstLetter (token : Str) : UInt8 := (token.headD '\x00').toUInt8

/-- `ScanFor[i] = (i < TokenCount) ? TokenList[i][0] : ' '`. The first token is the name of the setting. -/
def readScanFor (tokenList : List Str) : ScanForArray :=
  Vector.ofFn fun i => if h : i.val < tokenList.length then firstLetter tokenList[i.val] else ' '.toUInt8

theorem getElem_readScanFor (tokenList : List Str) {i : Nat} (inside : i < numScanOptions) :
    (readScanFor tokenList)[i] = if h : i < tokenList.length then firstLetter tokenList[i] else ' '.toUInt8 :=
  Vector.getElem_ofFn inside

theorem toList_readScanFor (name : Str) (tokens : List Str) :
    (readScanFor (name :: tokens)).toList =
      firstLetter name :: ((tokens.take 9).map firstLetter ++ List.replicate (9 - tokens.length) ' '.toUInt8) := by
  apply List.ext_getElem
  · rw [Vector.length_toList, List.length_cons, List.length_append, List.length_map, List.length_take,
      List.length_replicate, numScanOptions]
    omega
  · intro i h _
    rw [Vector.length_toList, numScanOptions] at h
    rw [Vector.getElem_toList, getElem_readScanFor]
    cases i with
    | zero => rfl
    | succ i =>
      rw [List.getElem_cons_succ]
      by_cases given : i < tokens.length
      · have here : i < ((tokens.take 9).map firstLetter).length := by
          rw [List.length_map, List.length_take]
          omega
        have listed : i + 1 < (name :: tokens).length := Nat.succ_lt_succ given
        rw [dif_pos listed, List.getElem_append_left here, List.getElem_map, List.getElem_take]
        rfl
      · have behind : ((tokens.take 9).map firstLetter).length ≤ i := by
          rw [List.length_map, List.length_take]
          omega
        have missing : ¬i + 1 < (name :: tokens).length := fun less => given (Nat.lt_of_succ_lt_succ less)
        rw [dif_neg missing, List.getElem_append_right behind, List.getElem_replicate]

/-- A line whose tokens all ask for a scan is read as it is meant, as the setting's own name stands in front. -/
theorem readScanFor_right {name : Str} {tokens : List Str} (setting : isScanOption (firstLetter name) = false)
    (asked : ∀ token ∈ tokens, isScanOption (firstLetter token) = true) (behind : Nat → UInt8) :
    (scanForBootloaders (readScanFor (name :: tokens)) behind).scans =
        (tokens.take 9).filterMap (scanOf ∘ firstLetter) ∧
      ∀ i ∈ (scanForBootloaders (readScanFor (name :: tokens)) behind).reads, i < numScanOptions := by
  have letters := toList_readScanFor name tokens
  have blank : isScanOption ' '.toUInt8 = false := by decide +kernel
  have count : (readScanFor (name :: tokens)).toList.countP isScanOption = (tokens.take 9).length := by
    have known : ((tokens.take 9).map firstLetter).countP isScanOption = (tokens.take 9).length := by
      rw [← List.length_map firstLetter, List.countP_eq_length, List.forall_mem_map]
      exact fun token mem => asked token (List.mem_of_mem_take mem)
    have others : (List.replicate (9 - tokens.length) ' '.toUInt8).countP isScanOption = 0 := by
      rw [List.countP_replicate, if_neg (by rw [blank]; exact Bool.false_ne_true)]
    rw [letters, List.countP_cons, if_neg (by rw [setting]; exact Bool.false_ne_true), List.countP_append, known,
      others]
    rfl
  have none : NoneSkipped (readScanFor (name :: tokens)).toList := by
    refine (countP_reaches_iff isScanOption _).mp fun letter mem => ?_
    rw [count, letters, List.drop_succ_cons, ← List.length_map firstLetter, List.drop_left] at mem
    rw [List.eq_of_mem_replicate mem]
    exact blank
  have inside : countOptions (readScanFor (name :: tokens)) < numScanOptions :=
    (countOptions_lt_iff _).mpr ⟨firstLetter name, letters ▸ List.mem_cons_self, setting⟩
  have unknown {letter : UInt8} (other : isScanOption letter = false) : scanOf letter = Option.none := by
    rwa [← isSome_scanOf, Option.isSome_eq_false_iff, Option.isNone_iff_eq_none] at other
  refine ⟨?_, (reads_inside_iff _ behind).mpr inside⟩
  rw [(scans_eq_iff behind inside).mpr none, letters, List.filterMap_cons_none (unknown setting),
    List.filterMap_append, List.filterMap_map, List.filterMap_replicate_of_none (unknown blank), List.append_nil]

end Meridian.Discovery
