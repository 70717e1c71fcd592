import Meridian.Text

/-!
# Lists of excluded files

The model of `FilenameIn` and `VolumeMatchesDescription` of `lib/lib.c`, of the exclusion loop of
`IsValidTool` of `tools/tools.c` and of the functions that split an item of such a list. Allocations
succeed.
-/

namespace Meridian.Discovery

open Text

/-! ### GUIDs -/

def hexDigit (a : Char) : Option Nat :=
  if '0' ≤ a ∧ a ≤ '9' then some (a.toNat - '0'.toNat)
  else if 'a' ≤ a ∧ a ≤ 'f' then some (a.toNat - 'a'.toNat + 10)
  else if 'A' ≤ a ∧ a ≤ 'F' then some (a.toNat - 'A'.toNat + 10)
  else none

/-- The loop of `StrToHex`: other characters are passed over. -/
def hexLoop : Nat → Nat → Str → Nat
  | 0, value, _ => value
  | _ + 1, value, [] => value
  | left + 1, value, a :: input =>
    match hexDigit a with
    | some digit => hexLoop left (value * 16 + digit) input
    | none => hexLoop (left + 1) value input

def strToHex (string : Str) (pos numChars : Nat) : Nat :=
  let input := getSubStrAfter "0x".toList string
  if numChars = 0 ∨ 16 < numChars then 0 else hexLoop numChars 0 (input.drop pos)

structure EfiGuid where
  data1 : UInt32
  data2 : UInt16
  data3 : UInt16
  data4 : List UInt8
  deriving DecidableEq, Repr

def isGuid (string : Str) : Bool :=
  string.length = 36 && [8, 13, 18, 23].all fun i => string[i]? = some '-'

def stringAsGuid (string : Str) : EfiGuid :=
  if !isGuid string then ⟨0, 0, 0, List.replicate 8 0⟩
  else
    { data1 := .ofNat (strToHex string 0 8)
      data2 := .ofNat (strToHex string 9 4)
      data3 := .ofNat (strToHex string 14 4)
      data4 := [19, 21, 23, 26, 28, 30, 32, 34].map fun pos => .ofNat (strToHex string pos 2) }

/-! ### Items -/

/-- What `VolumeMatchesDescription` reads of a volume. -/
structure NamedVolume where
  volName : Option Str
  fsName : Option Str
  partName : Option Str
  partGuid : EfiGuid
  deriving DecidableEq, Repr

def volumeMatchesDescription (volume : Option NamedVolume) (description : Option Str) : Bool :=
  match volume, description with
  | some volume, some description =>
    let filtered := getSubStrAfter defaultStringDelim description
    if !isGuid filtered then
      mrdStrEqualsCI (some filtered) volume.volName || mrdStrEqualsCI (some filtered) volume.fsName ||
        mrdStrEqualsCI (some filtered) volume.partName
    else stringAsGuid filtered = volume.partGuid
  | _, _ => false

/-- The volume and what is left of the path. -/
def splitVolumeAndFilename (path : Str) : Option Str × Str :=
  match path.dropWhile (· ≠ ':') with
  | [] => (none, path)
  | _ :: filename => (some (path.takeWhile (· ≠ ':')), filename)

structure PathParts where
  volName : Option Str
  path : Option Str
  filename : Option Str
  deriving DecidableEq, Repr

def splitPathName (inPath : Str) : PathParts :=
  let split := splitVolumeAndFilename inPath
  let temp := cleanUpPathNameSlashes split.2
  let path := findPath temp
  let filename := cleanUpPathNameSlashes (temp.drop path.length)
  { volName := split.1
    path := if path.length = 0 then none else some path
    filename := if filename.length = 0 then none else some filename }

/-- The items of a list that may be null. -/
def listItems (list : Option Str) : List Str := commaItems (list.getD [])

/-- The parts of an item, without what the configuration may have put before it. -/
def itemParts (item : Str) : PathParts := splitPathName (getSubStrAfter defaultStringDelim item)

/-- The loop of `FilenameIn`: an item without parts is passed over. -/
def filenameIn (volume : Option NamedVolume) (directory filename list : Option Str) : Bool :=
  if filename.isNone ∨ list.isNone then false
  else (listItems list).any fun item =>
    let target := itemParts item
    if target.path.isNone ∧ target.volName.isNone ∧ target.filename.isNone then false
    else mrdStrEqualsCI target.path directory && mrdStrEqualsCI target.filename filename &&
      volumeMatchesDescription volume target.volName

/-- The loop of `IsValidTool`: some item excludes the tool. -/
def dontScanTool (baseVolume : Option NamedVolume) (pathName : Str) (dontScanTools : Option Str) :
    Bool :=
  let test := splitPathName pathName
  (listItems dontScanTools).any fun item =>
    let dont := splitPathName item
    mrdStrEqualsCI test.filename dont.filename &&
      (dont.path.isNone || mrdStrEqualsCI test.path dont.path) &&
      (dont.volName.isNone || volumeMatchesDescription baseVolume dont.volName)

/-! ### What an item stands for -/

/-- The item names the file; in the place of a volume or a path that it does not give stands any. -/
structure PathParts.Names (item : PathParts) (volume : Option NamedVolume)
    (directory filename : Option Str) : Prop where
  filename : mrdStrEqualsCI item.filename filename = true
  path : ∀ path, item.path = some path → mrdStrEqualsCI (some path) directory = true
  volume : ∀ name, item.volName = some name → volumeMatchesDescription volume (some name) = true

def ListNames (volume : Option NamedVolume) (directory filename list : Option Str) : Prop :=
  ∃ item ∈ listItems list, (itemParts item).Names volume directory filename

/-- The item gives all three parts. -/
structure PathParts.Complete (item : PathParts) : Prop where
  path : item.path.isSome = true
  volName : item.volName.isSome = true

theorem mrdStrEqualsCI_isSome {s₁ s₂ : Option Str} (h : mrdStrEqualsCI s₁ s₂ = true) :
    s₁.isSome = true ∧ s₂.isSome = true := by
  cases s₁ with
  | none => cases h
  | some s₁ =>
    cases s₂ with
    | none => cases h
    | some s₂ => exact ⟨rfl, rfl⟩

theorem mrdStrEqualsCI_comm (s₁ s₂ : Option Str) : mrdStrEqualsCI s₁ s₂ = mrdStrEqualsCI s₂ s₁ := by
  cases s₁ with
  | none => cases s₂ <;> rfl
  | some s₁ =>
    cases s₂ with
    | none => rfl
    | some s₂ =>
      rw [Bool.eq_iff_iff]
      exact (equalsCI_iff s₁ s₂).trans (eq_comm.trans (equalsCI_iff s₂ s₁).symm)

/-- The loop takes an item when it names the file and gives every part. -/
theorem itemTaken_iff {item : PathParts} {volume : Option NamedVolume}
    {directory filename : Option Str} :
    (mrdStrEqualsCI item.path directory && mrdStrEqualsCI item.filename filename &&
        volumeMatchesDescription volume item.volName) = true ↔
      item.Names volume directory filename ∧ item.Complete := by
  rw [Bool.and_eq_true, Bool.and_eq_true]
  constructor
  · intro ⟨⟨path, file⟩, name⟩
    refine ⟨⟨file, ?_, ?_⟩, (mrdStrEqualsCI_isSome path).1, ?_⟩
    · intro given same
      rw [same] at path
      exact path
    · intro given same
      rw [same] at name
      exact name
    · cases given : item.volName with
      | none =>
        rw [given] at name
        cases volume <;> cases name
      | some given => rfl
  · intro ⟨names, complete⟩
    obtain ⟨path, isPath⟩ := Option.isSome_iff_exists.mp complete.path
    obtain ⟨name, isName⟩ := Option.isSome_iff_exists.mp complete.volName
    rw [isPath, isName]
    exact ⟨⟨names.path path isPath, names.filename⟩, names.volume name isName⟩

theorem filenameIn_iff_complete {volume : Option NamedVolume} {directory filename list : Option Str} :
    filenameIn volume directory filename list = true ↔
      ∃ item ∈ listItems list, (itemParts item).Names volume directory filename ∧
        (itemParts item).Complete := by
  rw [filenameIn]
  split
  · rename_i null
    constructor
    · intro impossible
      cases impossible
    · intro ⟨item, mem, names, _⟩
      obtain noName | noList := null
      · have given := (mrdStrEqualsCI_isSome names.filename).2
        rw [Option.isNone_iff_eq_none.mp noName] at given
        cases given
      · rw [Option.isNone_iff_eq_none.mp noList] at mem
        cases mem
  · rw [List.any_eq_true]
    refine exists_congr fun item => and_congr_right fun _ => ?_
    rw [← itemTaken_iff]
    dsimp only
    split
    · rename_i empty
      rw [Option.isNone_iff_eq_none.mp empty.1]
      cases directory <;> exact iff_of_false Bool.false_ne_true Bool.false_ne_true
    · exact Iff.rfl

/-- `FilenameIn` says which files the list names exactly when a file that some item names is named by
one that gives both a volume and a path. -/
theorem filenameIn_names_iff (volume : Option NamedVolume) (directory filename list : Option Str) :
    (filenameIn volume directory filename list = true ↔ ListNames volume directory filename list) ↔
      ∀ item ∈ listItems list, (itemParts item).Names volume directory filename →
        ∃ full ∈ listItems list, (itemParts full).Names volume directory filename ∧
          (itemParts full).Complete := by
  rw [filenameIn_iff_complete]
  constructor
  · intro same item mem names
    exact same.mpr ⟨item, mem, names⟩
  · intro full
    constructor
    · intro ⟨item, mem, names, _⟩
      exact ⟨item, mem, names⟩
    · intro ⟨item, mem, names⟩
      exact full item mem names

/-! ### A plain file name, and the tools -/

/-- An item that gives no volume and no path names no file for `FilenameIn`. -/
theorem filenameIn_plainName :
    ¬ (filenameIn (some ⟨some "BOOT".toList, none, none, ⟨0, 0, 0, []⟩⟩) (some "EFI\\fedora".toList)
        (some "shim.efi".toList) (some "shim.efi".toList) = true ↔
      ListNames (some ⟨some "BOOT".toList, none, none, ⟨0, 0, 0, []⟩⟩) (some "EFI\\fedora".toList)
        (some "shim.efi".toList) (some "shim.efi".toList)) := by
  intro same
  have parts : itemParts "shim.efi".toList = ⟨none, none, some "shim.efi".toList⟩ := by decide +kernel
  have named : filenameIn (some ⟨some "BOOT".toList, none, none, ⟨0, 0, 0, []⟩⟩)
      (some "EFI\\fedora".toList) (some "shim.efi".toList) (some "shim.efi".toList) = true := by
    refine same.mpr ⟨"shim.efi".toList, by decide +kernel, ?_⟩
    rw [parts]
    exact ⟨by decide +kernel, fun _ none => (nomatch none), fun _ none => (nomatch none)⟩
  have missed : filenameIn (some ⟨some "BOOT".toList, none, none, ⟨0, 0, 0, []⟩⟩)
      (some "EFI\\fedora".toList) (some "shim.efi".toList) (some "shim.efi".toList) = false := by
    decide +kernel
  cases missed.symm.trans named

/-- The same list of excluded tools leaves out parts in the way that `FilenameIn` does not. -/
theorem dontScanTool_iff (baseVolume : Option NamedVolume) (pathName : Str)
    (dontScanTools : Option Str) :
    dontScanTool baseVolume pathName dontScanTools = true ↔
      ∃ item ∈ listItems dontScanTools, (splitPathName item).Names baseVolume
        (splitPathName pathName).path (splitPathName pathName).filename := by
  rw [dontScanTool, List.any_eq_true]
  refine exists_congr fun item => and_congr_right fun _ => ?_
  rw [Bool.and_eq_true, Bool.and_eq_true, mrdStrEqualsCI_comm _ (splitPathName item).filename]
  constructor
  · intro ⟨⟨file, path⟩, name⟩
    refine ⟨file, ?_, ?_⟩
    · intro given same
      rw [same, mrdStrEqualsCI_comm] at path
      exact path
    · intro given same
      rw [same] at name
      exact name
  · intro names
    refine ⟨⟨names.filename, ?_⟩, ?_⟩
    · cases given : (splitPathName item).path with
      | none => rfl
      | some path =>
        rw [mrdStrEqualsCI_comm]
        exact names.path path given
    · cases given : (splitPathName item).volName with
      | none => rfl
      | some name => exact names.volume name given

end Meridian.Discovery
