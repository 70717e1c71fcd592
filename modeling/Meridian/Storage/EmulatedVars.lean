import Meridian.Storage.File

/-!
# The emulated variables

The model of `EfivarGetRaw` and `EfivarSetRaw` of `lib/lib.c` for a variable that is kept as a file in the
directory of `FindVarsDir`. Each file operation has the firmware's answers of its own: the read of the old
value, the delete of the old file, and the save.
-/

namespace Meridian.Storage

variable {Handle Root Name : Type}

def EfiStatus.isError : EfiStatus → Bool
  | .error _ => true
  | .success | .warnDeleteFailure => false

/-- `EFI_ALREADY_STARTED`. -/
def alreadyStarted : EfiError := .firmware 20

/-- The firmware's answers in one call of `EfivarSetRaw`. -/
structure SetAnswers (Handle Root Name : Type) where
  load : Firmware Handle Root Name
  delete : Firmware Handle Root Name
  save : Firmware Handle Root Name

def efivarGetRaw (fw : Firmware Handle Root Name) (varsDir : Except EfiError Root) (disk : Disk Root Name)
    (variableName : Name) : Except EfiError (List UInt8) :=
  match varsDir with
  | .error reason => .error reason
  | .ok dir => mrdLoadFile fw disk (some dir) (some variableName)

def efivarSetRaw [DecidableEq Root] [DecidableEq Name] (fw : SetAnswers Handle Root Name)
    (varsDir : Except EfiError Root) (disk : Disk Root Name) (variableName : Name)
    (variableData : List UInt8) : EfiStatus × Disk Root Name :=
  if variableData.length > 0 ∧ efivarGetRaw fw.load varsDir disk variableName = .ok variableData then
    (.error alreadyStarted, disk)
  else
    match varsDir with
    | .error reason => (.error reason, disk)
    | .ok dir =>
      -- the status of the delete is not looked at
      let (_, disk) := mrdSaveFile fw.delete disk (some dir) variableName []
      mrdSaveFile fw.save disk (some dir) variableName variableData

/-! ### The files -/

variable {fw : SetAnswers Handle Root Name} {disk : Disk Root Name} {dir : Root} {name : Name}
  {data : List UInt8}

/-- What a file that can be read is loaded as. -/
def loaded : Option (List UInt8) → Except EfiError (List UInt8)
  | none => .error .notFound
  | some content => .ok (content.take maxMeridianFileSize)

theorem efivarGetRaw_reads {fw : Firmware Handle Root Name} (reads : fw.Reads dir name) (disk : Disk Root Name) :
    efivarGetRaw fw (.ok dir) disk name = loaded (disk (dir, name)) := by
  rw [efivarGetRaw]
  cases content : disk (dir, name) with
  | none => exact mrdLoadFile_absent content
  | some old => exact mrdLoadFile_present reads content

/-- The delete went through. -/
def Removes (fw : Firmware Handle Root Name) (dir : Root) (name : Name) : Prop :=
  fw.openWriteFails dir name = none ∧ fw.deleteFails dir name = false

instance (fw : Firmware Handle Root Name) (dir : Root) (name : Name) : Decidable (Removes fw dir name) :=
  inferInstanceAs (Decidable (_ ∧ _))

/-- What the delete leaves: opening the file makes it, and a delete that fails leaves it there. -/
def leftover (fw : Firmware Handle Root Name) (disk : Disk Root Name) (dir : Root) (name : Name) :
    Option (List UInt8) :=
  if fw.openWriteFails dir name = none then
    if fw.deleteFails dir name then some ((disk (dir, name)).getD []) else none
  else disk (dir, name)

/-- A firmware that refuses nothing. -/
def grantsEverything : Firmware Handle Root Name where
  espHandles := .error .notFound
  openRoot _ := none
  openReadFails _ _ := none
  openWriteFails _ _ := none
  infoAllocates _ _ := true
  alloc _ := true
  readFails _ _ := none
  writeFails _ _ _ := none
  deleteFails _ _ := false

theorem grantsEverything_reads (dir : Root) (name : Name) :
    (grantsEverything : Firmware Handle Root Name).Reads dir name :=
  ⟨rfl, rfl, fun _ => rfl, rfl⟩

/-- What the delete leaves is loaded as before where it did nothing, or there was nothing. -/
theorem loaded_leftover_iff (fw : Firmware Handle Root Name) (disk : Disk Root Name) :
    loaded (leftover fw disk dir name) = loaded (disk (dir, name)) ↔
      (fw.openWriteFails dir name = none →
        (fw.deleteFails dir name = true ↔ (disk (dir, name)).isSome = true)) := by
  rw [leftover]
  split
  · rename_i opens
    rw [imp_iff_right opens]
    split
    · rename_i fails
      rw [fails, iff_true_left rfl]
      cases disk (dir, name) with
      | none => exact iff_of_false (by rintro ⟨⟩) Bool.false_ne_true
      | some old => exact iff_of_true rfl rfl
    · rename_i removed
      rw [iff_false_left removed]
      cases disk (dir, name) with
      | none => exact iff_of_true rfl Bool.false_ne_true
      | some old => exact iff_of_false (by rintro ⟨⟩) (not_not_intro rfl)
  · rename_i refused
    exact iff_of_true rfl fun opens => absurd opens refused

/-- What the save writes over. -/
def overwritten (fw : Firmware Handle Root Name) (dir : Root) (name : Name) (old : Option (List UInt8)) :
    List UInt8 :=
  if Removes fw dir name then [] else old.getD []

theorem leftover_getD (fw : Firmware Handle Root Name) (disk : Disk Root Name) :
    (leftover fw disk dir name).getD [] = overwritten fw dir name (disk (dir, name)) := by
  rw [leftover, overwritten]
  by_cases removes : Removes fw dir name
  · rw [if_pos removes, if_pos removes.1, removes.2]
    rfl
  · rw [if_neg removes]
    split
    · rename_i opens
      rw [if_pos (Bool.of_not_eq_false fun succeeds => removes ⟨opens, succeeds⟩), Option.getD_some]
    · rfl

variable [DecidableEq Root] [DecidableEq Name]

theorem mrdSaveFile_delete (fw : Firmware Handle Root Name) (disk : Disk Root Name) (dir : Root) (name : Name) :
    (mrdSaveFile fw disk (some dir) name []).2 (dir, name) = leftover fw disk dir name := by
  have empty : ([] : List UInt8).length = 0 := rfl
  rw [mrdSaveFile, leftover, saveIn]
  cases opens : fw.openWriteFails dir name with
  | some reason => exact (if_neg (Option.some_ne_none reason)).symm
  | none =>
    dsimp only
    rw [if_pos rfl, if_pos empty]
    split
    · exact Function.update_self _ _ _
    · exact Function.update_self _ _ _

/-- What the save makes of the file that the delete left, where the file can be opened. -/
theorem mrdSaveFile_opened {fw : Firmware Handle Root Name} (opens : fw.openWriteFails dir name = none)
    (disk : Disk Root Name) (data : List UInt8) :
    let old := (disk (dir, name)).getD []
    let (status, disk') := mrdSaveFile fw disk (some dir) name data
    if data = [] then
      if fw.deleteFails dir name then status.isError = false ∧ disk' (dir, name) = some old
      else status.isError = false ∧ disk' (dir, name) = none
    else
      match fw.writeFails dir name data with
      | some (_, written) =>
        status.isError = true ∧ disk' (dir, name) = some (overwrite old (data.take written))
      | none => status.isError = false ∧ disk' (dir, name) = some (overwrite old data) := by
  rw [mrdSaveFile, saveIn, opens]
  dsimp only
  by_cases empty : data = []
  · subst empty
    have zero : ([] : List UInt8).length = 0 := rfl
    rw [if_pos rfl, if_pos zero]
    split
    · exact ⟨rfl, Function.update_self _ _ _⟩
    · exact ⟨rfl, Function.update_self _ _ _⟩
  · rw [if_neg empty, if_neg (mt List.length_eq_zero_iff.mp empty)]
    cases fw.writeFails dir name data with
    | some failed => exact ⟨rfl, Function.update_self _ _ _⟩
    | none => exact ⟨rfl, Function.update_self _ _ _⟩

/-! ### Reading back -/

/-- What a read finds behind a call: the old value where an error was reported, and the new one, or none
behind a delete, where not. -/
structure ReadsBack (fw : SetAnswers Handle Root Name) (varsDir : Except EfiError Root) (disk : Disk Root Name)
    (name : Name) (data : List UInt8) : Prop where
  failed : (efivarSetRaw fw varsDir disk name data).1.isError = true →
    ∀ fw' : Firmware Handle Root Name, (∀ dir, fw'.Reads dir name) →
      efivarGetRaw fw' varsDir (efivarSetRaw fw varsDir disk name data).2 name =
        efivarGetRaw fw' varsDir disk name
  done : (efivarSetRaw fw varsDir disk name data).1.isError = false →
    ∀ fw' : Firmware Handle Root Name, (∀ dir, fw'.Reads dir name) →
      efivarGetRaw fw' varsDir (efivarSetRaw fw varsDir disk name data).2 name =
        if data = [] then .error .notFound else .ok data

/-- The operations that make it so, for a file that is not already what it is to be: where it cannot be opened
again, it was not deleted before; where the save fails, what it wrote makes the old contents with what it was
written over; where the save succeeds, it leaves nothing of a longer file. -/
def SavesWhole (fw : SetAnswers Handle Root Name) (dir : Root) (old : Option (List UInt8)) (name : Name)
    (data : List UInt8) : Prop :=
  match fw.save.openWriteFails dir name with
  | some _ =>
    fw.delete.openWriteFails dir name = none → (fw.delete.deleteFails dir name = true ↔ old.isSome = true)
  | none =>
    if data = [] then fw.save.deleteFails dir name = false
    else
      match fw.save.writeFails dir name data with
      | some (_, written) =>
        ∃ content, old = some content ∧
          (overwrite (overwritten fw.delete dir name old) (data.take written)).take maxMeridianFileSize =
            content.take maxMeridianFileSize
      | none => SavesExactly (overwritten fw.delete dir name old) data

/-- A call that gets as far as the files, by their contents. -/
theorem readsBack_files (other : ¬ (data.length > 0 ∧ efivarGetRaw fw.load (.ok dir) disk name = .ok data)) :
    ReadsBack fw (.ok dir) disk name data ↔
      let (_, left) := mrdSaveFile fw.delete disk (some dir) name []
      let (status, disk') := mrdSaveFile fw.save left (some dir) name data
      (status.isError = true → loaded (disk' (dir, name)) = loaded (disk (dir, name))) ∧
        (status.isError = false →
          loaded (disk' (dir, name)) = if data = [] then .error .notFound else .ok data) := by
  have set : efivarSetRaw fw (.ok dir) disk name data =
      mrdSaveFile fw.save (mrdSaveFile fw.delete disk (some dir) name []).2 (some dir) name data := by
    rw [efivarSetRaw, if_neg other]
  constructor
  · intro back
    have reads (dir : Root) : (grantsEverything : Firmware Handle Root Name).Reads dir name :=
      grantsEverything_reads dir name
    refine ⟨fun failed => ?_, fun done => ?_⟩
    · have same := back.failed (by rw [set]; exact failed) grantsEverything reads
      rwa [efivarGetRaw_reads (reads dir), efivarGetRaw_reads (reads dir), set] at same
    · have same := back.done (by rw [set]; exact done) grantsEverything reads
      rwa [efivarGetRaw_reads (reads dir), set] at same
  · rintro ⟨failed, done⟩
    refine ⟨fun error fw' reads => ?_, fun error fw' reads => ?_⟩
    · rw [efivarGetRaw_reads (reads dir), efivarGetRaw_reads (reads dir), set]
      exact failed (by rw [set] at error; exact error)
    · rw [efivarGetRaw_reads (reads dir), set]
      exact done (by rw [set] at error; exact error)

/-- An error that leaves the files alone. -/
theorem readsBack_of_error {varsDir : Except EfiError Root} (reason : EfiError)
    (set : efivarSetRaw fw varsDir disk name data = (.error reason, disk)) :
    ReadsBack fw varsDir disk name data := by
  refine ⟨fun _ fw' _ => by rw [set], fun done => ?_⟩
  rw [set] at done
  cases done

/-- A read behind the call finds what it is to find exactly where the call stops before the files, or its
operations save the whole value. -/
theorem efivarSetRaw_iff (fw : SetAnswers Handle Root Name) (varsDir : Except EfiError Root)
    (disk : Disk Root Name) (name : Name) (data : List UInt8) :
    ReadsBack fw varsDir disk name data ↔
      (data.length > 0 ∧ efivarGetRaw fw.load varsDir disk name = .ok data) ∨
        ∀ dir, varsDir = .ok dir → SavesWhole fw dir (disk (dir, name)) name data := by
  by_cases stops : data.length > 0 ∧ efivarGetRaw fw.load varsDir disk name = .ok data
  · refine iff_of_true (readsBack_of_error alreadyStarted ?_) (Or.inl stops)
    unfold efivarSetRaw
    rw [if_pos stops]
  rw [or_iff_right stops]
  cases varsDir with
  | error reason =>
    refine iff_of_true (readsBack_of_error reason ?_) ?_
    · unfold efivarSetRaw
      rw [if_neg stops]
    · rintro dir ⟨⟩
  | ok dir =>
    have one : (∀ dir', Except.ok dir = (.ok dir' : Except EfiError Root) →
        SavesWhole fw dir' (disk (dir', name)) name data) ↔ SavesWhole fw dir (disk (dir, name)) name data :=
      ⟨fun all => all dir rfl, fun here dir' same => Except.ok.inj same ▸ here⟩
    rw [readsBack_files stops, one, SavesWhole]
    dsimp only
    cases opens : fw.save.openWriteFails dir name with
    | some reason =>
      have failed (left : Disk Root Name) :
          mrdSaveFile fw.save left (some dir) name data = (.error reason, left) := by
        rw [mrdSaveFile, saveIn, opens]
      rw [failed, ← loaded_leftover_iff, ← mrdSaveFile_delete]
      refine ⟨fun both => both.1 rfl, fun same => ⟨fun _ => same, ?_⟩⟩
      rintro ⟨⟩
    | none =>
      have saved := mrdSaveFile_opened opens (mrdSaveFile fw.delete disk (some dir) name []).2 data
      dsimp only at saved ⊢
      rw [mrdSaveFile_delete, leftover_getD] at saved
      generalize mrdSaveFile fw.save (mrdSaveFile fw.delete disk (some dir) name []).2 (some dir) name data =
        outcome at saved ⊢
      obtain ⟨status, disk'⟩ := outcome
      dsimp only at saved ⊢
      by_cases empty : data = []
      · rw [if_pos empty] at saved ⊢
        rw [if_pos empty]
        cases fails : fw.save.deleteFails dir name with
        | true =>
          rw [fails, if_pos rfl] at saved
          refine iff_of_false (fun both => ?_) (fun impossible => Bool.false_ne_true impossible.symm)
          have same := both.2 saved.1
          rw [saved.2] at same
          cases same
        | false =>
          rw [fails, if_neg Bool.false_ne_true] at saved
          refine iff_of_true ⟨fun error => ?_, fun _ => by rw [saved.2]; rfl⟩ rfl
          rw [saved.1] at error
          cases error
      · rw [if_neg empty] at saved ⊢
        rw [if_neg empty]
        cases writes : fw.save.writeFails dir name data with
        | some failed =>
          obtain ⟨reason, written⟩ := failed
          rw [writes] at saved
          obtain ⟨error, content⟩ := saved
          rw [error, content, imp_iff_right rfl, and_iff_left (by rintro ⟨⟩)]
          cases old : disk (dir, name) with
          | none =>
            refine iff_of_false ?_ ?_
            · rintro ⟨⟩
            · rintro ⟨_, ⟨⟩, _⟩
          | some old' =>
            constructor
            · exact fun same => ⟨old', rfl, Except.ok.inj same⟩
            · rintro ⟨content, same, reads⟩
              obtain rfl := Option.some.inj same
              exact congrArg Except.ok reads
        | none =>
          rw [writes] at saved
          obtain ⟨error, content⟩ := saved
          rw [error, content, imp_iff_right rfl, and_iff_right (by rintro ⟨⟩)]
          exact Iff.trans ⟨fun same => Except.ok.inj same, fun same => congrArg Except.ok same⟩
            (take_overwrite_iff empty)

/-- The delete of the old file fails, which the firmware reports as a warning. -/
def deleteRefused : SetAnswers Unit Unit Unit where
  load := grantsEverything
  delete := { grantsEverything with deleteFails := fun _ _ => true }
  save := grantsEverything

/-- The save writes over the first byte of the old file and reports success. -/
theorem efivarSetRaw_tail : ¬ ReadsBack deleteRefused (.ok ()) (fun _ => some [1, 2]) () [3] := by
  intro back
  have reads (dir : Unit) : (grantsEverything : Firmware Unit Unit Unit).Reads dir () :=
    grantsEverything_reads dir ()
  have same := back.done rfl grantsEverything reads
  rw [efivarGetRaw_reads (reads ()), if_neg (by decide)] at same
  have content :
      (efivarSetRaw deleteRefused (.ok ()) (fun _ => some [1, 2]) () [3]).2 ((), ()) = some [3, 2] := rfl
  rw [content] at same
  cases Except.ok.inj same

end Meridian.Storage
