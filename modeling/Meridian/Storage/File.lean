import Mathlib.Data.List.Basic
import Mathlib.Logic.Function.Basic

/-!
# Loading and saving files

The model of `MrdLoadFile`, `MrdFindESP` and `MrdSaveFile` of `storage/file_io.c`. The firmware's
file protocol is a parameter: what it refuses, and that a write changes the file in place.
-/

namespace Meridian.Storage

inductive EfiError where
  | invalidParameter | notFound | outOfResources | incompatibleVersion | crcError
  | firmware (code : Nat)
  deriving DecidableEq, Repr

inductive EfiStatus where
  | success | warnDeleteFailure
  | error (reason : EfiError)
  deriving DecidableEq, Repr

/-- The firmware's answers: `none` where a call succeeds, or the error that it returns. A write that
fails may have stored a part of the data. -/
structure Firmware (Handle Root Name : Type) where
  espHandles : Except EfiError (List Handle)
  openRoot : Handle → Option Root
  openReadFails : Root → Name → Option EfiError
  openWriteFails : Root → Name → Option EfiError
  infoAllocates : Root → Name → Bool
  alloc : Nat → Bool
  readFails : Root → Name → Option EfiError
  writeFails : Root → Name → List UInt8 → Option (EfiError × Nat)
  deleteFails : Root → Name → Bool

/-- The contents of the files that exist. -/
abbrev Disk (Root Name : Type) := Root × Name → Option (List UInt8)

def maxMeridianFileSize : Nat := 1024 * 1024 * 1024

/-- A write at the start of a file leaves what lies after the data in place. -/
def overwrite (old data : List UInt8) : List UInt8 := data ++ old.drop data.length

variable {Handle Root Name : Type}

/-! ### Loading -/

def mrdLoadFile (fw : Firmware Handle Root Name) (disk : Disk Root Name) (baseDir : Option Root)
    (fileName : Option Name) : Except EfiError (List UInt8) :=
  match baseDir, fileName with
  | some root, some name =>
    match disk (root, name), fw.openReadFails root name with
    | none, _ => .error .notFound
    | some _, some reason => .error reason
    | some content, none =>
      if !fw.infoAllocates root name then .error .notFound
      else
        let readSize := if content.length > maxMeridianFileSize then maxMeridianFileSize
          else content.length
        if !fw.alloc readSize then .error .outOfResources
        else
          match fw.readFails root name with
          | some reason => .error reason
          | none => .ok (content.take readSize)
  | _, _ => .error .invalidParameter

/-- A file that is there can be read. -/
structure Firmware.Reads (fw : Firmware Handle Root Name) (root : Root) (name : Name) : Prop where
  opens : fw.openReadFails root name = none
  info : fw.infoAllocates root name = true
  room : ∀ size, fw.alloc size = true
  reads : fw.readFails root name = none

section

variable {fw : Firmware Handle Root Name} {disk : Disk Root Name} {root : Root} {name : Name}

theorem mrdLoadFile_absent (h : disk (root, name) = none) :
    mrdLoadFile fw disk (some root) (some name) = .error .notFound := by
  rw [mrdLoadFile]
  simp only [h]

theorem mrdLoadFile_present (reads : fw.Reads root name) {old : List UInt8}
    (h : disk (root, name) = some old) :
    mrdLoadFile fw disk (some root) (some name) = .ok (old.take maxMeridianFileSize) := by
  have whole : old.take (if old.length > maxMeridianFileSize then maxMeridianFileSize
      else old.length) = old.take maxMeridianFileSize := by
    split
    · rfl
    · rw [List.take_length, List.take_of_length_le (by omega)]
  simp only [mrdLoadFile, h, reads.opens, reads.info, reads.room, reads.reads, Bool.not_true,
    Bool.false_eq_true, if_false, whole]

end

/-! ### Saving -/

variable [DecidableEq Root] [DecidableEq Name]

def mrdFindEsp (fw : Firmware Handle Root Name) : Except EfiError Root :=
  match fw.espHandles with
  | .error reason => .error reason
  | .ok handles =>
    match handles.findSome? fw.openRoot with
    | some root => .ok root
    | none => .error .notFound

/-- The write or delete of `MrdSaveFile`, in the directory it settled on. -/
def saveIn (fw : Firmware Handle Root Name) (disk : Disk Root Name) (root : Root) (fileName : Name)
    (fileData : List UInt8) : EfiStatus × Disk Root Name :=
  match fw.openWriteFails root fileName with
  | some reason => (.error reason, disk)
  | none =>
    let old := (disk (root, fileName)).getD []
    if fileData.length = 0 then
      if fw.deleteFails root fileName then
        (.warnDeleteFailure, Function.update disk (root, fileName) (some old))
      else (.success, Function.update disk (root, fileName) none)
    else
      match fw.writeFails root fileName fileData with
      | some (reason, written) =>
        let kept := overwrite old (fileData.take written)
        (.error reason, Function.update disk (root, fileName) (some kept))
      | none => (.success, Function.update disk (root, fileName) (some (overwrite old fileData)))

def mrdSaveFile (fw : Firmware Handle Root Name) (disk : Disk Root Name) (baseDir : Option Root)
    (fileName : Name) (fileData : List UInt8) : EfiStatus × Disk Root Name :=
  match baseDir with
  | some root => saveIn fw disk root fileName fileData
  | none =>
    match mrdFindEsp fw with
    | .error reason => (.error reason, disk)
    | .ok root => saveIn fw disk root fileName fileData

/-- The directory in which `MrdSaveFile` keeps the file. -/
def Resolves (fw : Firmware Handle Root Name) (baseDir : Option Root) (root : Root) : Prop :=
  baseDir = some root ∨ baseDir = none ∧ mrdFindEsp fw = .ok root

section

variable {fw fw' : Firmware Handle Root Name} {disk disk' : Disk Root Name} {baseDir : Option Root}
  {root : Root} {name : Name} {data old : List UInt8}

/-- What a save that reports success did to the file. -/
theorem mrdSaveFile_success (resolves : Resolves fw baseDir root)
    (saved : mrdSaveFile fw disk baseDir name data = (.success, disk')) :
    disk' (root, name) =
      if data = [] then none else some (overwrite ((disk (root, name)).getD []) data) := by
  have inRoot : saveIn fw disk root name data = (.success, disk') := by
    obtain rfl | ⟨rfl, esp⟩ := resolves
    · exact saved
    · rw [mrdSaveFile] at saved
      simp only [esp] at saved
      exact saved
  rw [saveIn] at inRoot
  split at inRoot
  · cases inRoot
  · dsimp only at inRoot
    split at inRoot
    · rename_i empty
      obtain rfl := List.length_eq_zero_iff.mp empty
      split at inRoot
      · cases inRoot
      · cases inRoot
        rw [Function.update_self, if_pos rfl]
    · rename_i nonempty
      split at inRoot
      · cases inRoot
      · cases inRoot
        rw [Function.update_self, if_neg]
        rintro rfl
        exact nonempty rfl

/-- When the bytes that are loaded are those that were saved. -/
def SavesExactly (old data : List UInt8) : Prop :=
  data ≠ [] ∧ data.length ≤ maxMeridianFileSize ∧
    (old.length ≤ data.length ∨ data.length = maxMeridianFileSize)

theorem take_overwrite_iff (nonempty : data ≠ []) :
    (overwrite old data).take maxMeridianFileSize = data ↔ SavesExactly old data := by
  rw [overwrite, List.take_append]
  constructor
  · intro same
    have lengths := congrArg List.length same
    rw [List.length_append, List.length_take, List.length_take, List.length_drop] at lengths
    refine ⟨nonempty, ?_, ?_⟩ <;> omega
  · rintro ⟨_, bounded, short⟩
    rw [List.take_of_length_le bounded]
    have rest : (old.drop data.length).take (maxMeridianFileSize - data.length) = [] := by
      obtain short | full := short
      · rw [List.drop_of_length_le short, List.take_nil]
      · rw [full, Nat.sub_self, List.take_zero]
    rw [rest, List.append_nil]

/-- A load after a successful save returns the data that was saved exactly when the data is neither
empty nor too long, and the file was no longer before. -/
theorem mrdLoadFile_mrdSaveFile (reads : fw'.Reads root name) (resolves : Resolves fw baseDir root)
    (saved : mrdSaveFile fw disk baseDir name data = (.success, disk')) :
    mrdLoadFile fw' disk' (some root) (some name) = .ok data ↔
      SavesExactly ((disk (root, name)).getD []) data := by
  have content := mrdSaveFile_success resolves saved
  by_cases empty : data = []
  · rw [if_pos empty] at content
    rw [mrdLoadFile_absent content]
    constructor
    · intro impossible
      cases impossible
    · intro holds
      exact absurd empty holds.1
  · rw [if_neg empty] at content
    rw [mrdLoadFile_present reads content, ← take_overwrite_iff empty]
    constructor
    · exact fun same => Except.ok.inj same
    · exact fun same => congrArg Except.ok same

end

end Meridian.Storage
