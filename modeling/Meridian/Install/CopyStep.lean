import Meridian.Lib.Result
import Meridian.Storage.File
import Meridian.Text
import Mathlib.Algebra.Group.Nat.Defs

/-!
# The installer's copy step

The model of `CreateDirectories`, `CopyOneFile`, `CopyDrivers`, `CopyFiles`, `CreateFallbackCSV` and
`CopyMeridianFiles` of `install/install.c`. The firmware's answer to each file operation is an argument, and
a write changes a file in place. A handle that was not opened stops the run when it is used. The target is
another partition than the one that the files come from.
-/

namespace Meridian.Install

open Lib.Result Text Storage

/-- An error is an `EFI_STATUS` with the highest bit set. -/
def efiError (status : UInt64) : Bool := 2 ^ 63 ≤ status.toNat

def efiSuccess : UInt64 := 0
def efiOutOfResources : UInt64 := 0x8000000000000009
def efiNotFound : UInt64 := 0x800000000000000e
def efiNoResponse : UInt64 := 0x8000000000000010
def efiAborted : UInt64 := 0x8000000000000015

inductive HandleFault where
  | unopened
  deriving DecidableEq, Repr

/-- The answers to one `CopyOneFile`; a write that fails has stored some of the data. -/
structure CopyAnswers where
  openSource : UInt64
  infoAllocates : Bool
  memory : Bool
  read : UInt64
  openDest : UInt64
  write : UInt64
  written : Nat
  close : UInt64

inductive FsType where
  | btrfs | bcachefs | ext2 | ext3 | ext4 | hfsPlus | ufs | other
  deriving DecidableEq, Repr

/-- The answers to the whole step; the last four are those to `CreateFallbackCSV`. -/
structure StepAnswers where
  targetRoot : Bool
  sourceRoot : Bool
  openDir : Str → UInt64
  closeDir : Str → UInt64
  program : CopyAnswers
  seesSourceConfig : Bool
  seesTargetConfig : Bool
  config : CopyAnswers
  driver : Str → CopyAnswers
  openCsv : UInt64
  csvMemory : Bool
  writeCsv : UInt64
  writtenCsv : Nat

/-- The files that are copied. -/
structure SourceFiles where
  program : List UInt8
  config : Option (List UInt8)
  drivers : Str → Option (List UInt8)

structure TargetFiles where
  program : Option (List UInt8)
  config : Option (List UInt8)
  drivers : Str → Option (List UInt8)
  bootCsv : Option (List UInt8)

/-- `INST_DIRECTORIES`. -/
def instDirectories : List Str :=
  ["\\EFI".toList, "\\EFI\\Meridian".toList, "\\EFI\\Meridian\\fs".toList, "\\EFI\\Meridian\\drivers".toList]

/-- The status of `Open` is not looked at, and a directory that it did not open is closed. -/
def createDirectories (answers : StepAnswers) (status : UInt64) : List Str → Except HandleFault UInt64
  | [] => .ok status
  | fileName :: rest =>
    if efiError (answers.openDir fileName) then .error .unopened
    else
      let status := answers.closeDir fileName
      if efiError status then .ok status else createDirectories answers status rest

/-- The status, and the destination behind it. -/
def copyOneFile (answers : CopyAnswers) (source dest : Option (List UInt8)) : UInt64 × Option (List UInt8) :=
  match source with
  | none => (efiNotFound, dest)
  | some buffer =>
    if efiError answers.openSource then (answers.openSource, dest)
    else if !answers.infoAllocates then (efiNoResponse, dest)
    else if !answers.memory then (efiOutOfResources, dest)
    else if efiError answers.read then (answers.read, dest)
    else if efiError answers.openDest then (answers.openDest, dest)
    else if efiError answers.write then
      (answers.write, some (overwrite (dest.getD []) (buffer.take answers.written)))
    else (answers.close, some (overwrite (dest.getD []) buffer))

/-- The driver for a volume, and the types that count as served by it. -/
def driverFor (appleFirmware : Bool) : FsType → Option (Str × List FsType)
  | .btrfs => some ("btrfs".toList, [.btrfs])
  | .bcachefs => some ("bcachefs".toList, [.bcachefs])
  | .ext2 | .ext3 => some ("ext2".toList, [.ext2, .ext3])
  | .ext4 => some ("ext4".toList, [.ext4])
  | .hfsPlus => if appleFirmware then none else some ("hfs".toList, [.hfsPlus])
  | .ufs => some ("ufs".toList, [.ufs])
  | .other => none

/-- The loop over the volumes, with the types that are served and the worst status so far. -/
def copyDrivers (appleFirmware : Bool) (answers : StepAnswers) (source : Str → Option (List UInt8))
    (driverCopied : List FsType) (worstStatus : UInt64) (drivers : Str → Option (List UInt8)) :
    List FsType → UInt64 × (Str → Option (List UInt8))
  | [] => (worstStatus, drivers)
  | fsType :: volumes =>
    if fsType ∈ driverCopied then
      copyDrivers appleFirmware answers source driverCopied worstStatus drivers volumes
    else
      match driverFor appleFirmware fsType with
      | none => copyDrivers appleFirmware answers source driverCopied worstStatus drivers volumes
      | some (driverName, served) =>
        let (status, file) := copyOneFile (answers.driver driverName) (source driverName) (drivers driverName)
        copyDrivers appleFirmware answers source (served ++ driverCopied)
          (if efiError status then status else worstStatus) (Function.update drivers driverName file) volumes

/-- The configuration is copied when it is seen, and none is seen on the target. -/
def copiesConfig (answers : StepAnswers) (source : SourceFiles) (target : TargetFiles) : Bool :=
  source.config.isSome && answers.seesSourceConfig && !(target.config.isSome && answers.seesTargetConfig)

def copyFiles (appleFirmware : Bool) (volumes : List FsType) (answers : StepAnswers) (source : SourceFiles)
    (target : TargetFiles) : Except HandleFault (UInt64 × TargetFiles) :=
  if !answers.sourceRoot then .error .unopened
  else
    let (status, program) := copyOneFile answers.program (some source.program) target.program
    let target := { target with program }
    if efiError status then .ok (efiAborted, target)
    else
      let (worstStatus, config) :=
        if copiesConfig answers source target then
          let (status', config) := copyOneFile answers.config source.config target.config
          (if efiError status' then status' else status, config)
        else (status, target.config)
      let (status', drivers) :=
        copyDrivers appleFirmware answers source.drivers [] efiSuccess target.drivers volumes
      .ok (if efiError status' then status' else worstStatus, { target with config, drivers })

/-- The line of the boot entry, two bytes a character. -/
def csvLine : List UInt8 :=
  ("Meridian.efi, Meridian Boot Manager,,This is the Boot Entry for Meridian\n".toList ++ [Char.ofNat 0]).flatMap
    fun c => [UInt8.ofNat c.toNat, 0]

def createFallbackCsv (answers : StepAnswers) (target : TargetFiles) : TargetFiles :=
  if efiError answers.openCsv then target
  else if !answers.csvMemory then { target with bootCsv := some (target.bootCsv.getD []) }
  else
    let data := if efiError answers.writeCsv then csvLine.take answers.writtenCsv else csvLine
    { target with bootCsv := some (overwrite (target.bootCsv.getD []) data) }

/-- `CopyMeridianFiles` returns its status as a `BOOLEAN`, of which a byte is left. -/
def copyMeridianFiles (appleFirmware : Bool) (volumes : List FsType) (answers : StepAnswers)
    (source : SourceFiles) (target : TargetFiles) : Except HandleFault (UInt8 × TargetFiles) := do
  let status ←
    if !answers.targetRoot then .error .unopened else createDirectories answers efiSuccess instDirectories
  if efiError status then pure (status.toUInt8, createFallbackCsv answers target)
  else
    let (status', target) ← copyFiles appleFirmware volumes answers source target
    let status := if status' = efiAborted then efiAborted else status
    pure (status.toUInt8, createFallbackCsv answers target)

/-! ### One file -/

/-- The copy gets as far as the write. -/
def CopyAnswers.reaches (answers : CopyAnswers) : Bool :=
  !efiError answers.openSource && answers.infoAllocates && answers.memory && !efiError answers.read &&
    !efiError answers.openDest

/-- The copy reports no error. -/
def CopyAnswers.succeeds (answers : CopyAnswers) : Bool :=
  answers.reaches && !efiError answers.write && !efiError answers.close

/-- The destination holds the wanted bytes behind the copy. -/
def CopyAnswers.Leaves (answers : CopyAnswers) (buffer : List UInt8) (dest : Option (List UInt8))
    (wanted : List UInt8) : Prop :=
  if answers.reaches then
    overwrite (dest.getD []) (if efiError answers.write then buffer.take answers.written else buffer) = wanted
  else dest = some wanted

variable {answers : StepAnswers}

/-- What a copy does: it stops before the write with an error, or the write fails, or it goes through. -/
theorem copyOneFile_cases (answers : CopyAnswers) (buffer : List UInt8) (dest : Option (List UInt8)) :
    (answers.reaches = false ∧ ∃ status, efiError status = true ∧
        copyOneFile answers (some buffer) dest = (status, dest)) ∨
      (answers.reaches = true ∧ efiError answers.write = true ∧
        copyOneFile answers (some buffer) dest =
          (answers.write, some (overwrite (dest.getD []) (buffer.take answers.written)))) ∨
      (answers.reaches = true ∧ efiError answers.write = false ∧
        copyOneFile answers (some buffer) dest = (answers.close, some (overwrite (dest.getD []) buffer))) := by
  unfold copyOneFile CopyAnswers.reaches
  dsimp only
  cases opened : efiError answers.openSource with
  | true => exact Or.inl ⟨rfl, _, opened, rfl⟩
  | false =>
    cases answers.infoAllocates with
    | false => exact Or.inl ⟨rfl, efiNoResponse, by decide, rfl⟩
    | true =>
      cases answers.memory with
      | false => exact Or.inl ⟨rfl, efiOutOfResources, by decide, rfl⟩
      | true =>
        cases read : efiError answers.read with
        | true => exact Or.inl ⟨rfl, _, read, rfl⟩
        | false =>
          cases created : efiError answers.openDest with
          | true => exact Or.inl ⟨rfl, _, created, rfl⟩
          | false =>
            cases efiError answers.write with
            | true => exact Or.inr (Or.inl ⟨rfl, rfl, rfl⟩)
            | false => exact Or.inr (Or.inr ⟨rfl, rfl, rfl⟩)

theorem copyOneFile_leaves (answers : CopyAnswers) (buffer : List UInt8) (dest : Option (List UInt8))
    (wanted : List UInt8) :
    (copyOneFile answers (some buffer) dest).2 = some wanted ↔ answers.Leaves buffer dest wanted := by
  rw [CopyAnswers.Leaves]
  obtain ⟨stops, status, -, eq⟩ | ⟨reaches, fails, eq⟩ | ⟨reaches, writes, eq⟩ :=
    copyOneFile_cases answers buffer dest
  · rw [eq, stops, if_neg Bool.false_ne_true]
  · rw [eq, reaches, fails, if_pos rfl, if_pos rfl, Option.some.injEq]
  · rw [eq, reaches, writes, if_pos rfl, if_neg Bool.false_ne_true, Option.some.injEq]

theorem copyOneFile_succeeds (answers : CopyAnswers) (buffer : List UInt8) (dest : Option (List UInt8)) :
    efiError (copyOneFile answers (some buffer) dest).1 = !answers.succeeds := by
  rw [CopyAnswers.succeeds]
  obtain ⟨stops, status, error, eq⟩ | ⟨reaches, fails, eq⟩ | ⟨reaches, writes, eq⟩ :=
    copyOneFile_cases answers buffer dest
  · rw [eq, stops, error]
    rfl
  · rw [eq, reaches, fails]
    rfl
  · rw [eq, reaches, writes]
    exact (Bool.not_not _).symm

/-- A copy that goes through leaves the source where the file was no longer before. -/
theorem CopyAnswers.leaves_source_iff (answers : CopyAnswers) (buffer : List UInt8) (dest : Option (List UInt8))
    (reaches : answers.reaches = true) (writes : efiError answers.write = false) :
    answers.Leaves buffer dest buffer ↔ (dest.getD []).length ≤ buffer.length := by
  rw [CopyAnswers.Leaves, reaches, writes, if_pos rfl, if_neg Bool.false_ne_true, overwrite]
  constructor
  · intro same
    have lengths := congrArg List.length same
    rw [List.length_append, List.length_drop] at lengths
    omega
  · intro short
    rw [List.drop_of_length_le short, List.append_nil]

/-! ### The step -/

/-- The directories are opened as far as the loop goes. -/
def DirsOpen (answers : StepAnswers) : List Str → Prop
  | [] => True
  | fileName :: rest =>
    efiError (answers.openDir fileName) = false ∧
      (efiError (answers.closeDir fileName) = false → DirsOpen answers rest)

/-- No directory fails to close. -/
def dirsClose (answers : StepAnswers) : Bool :=
  instDirectories.all fun fileName => !efiError (answers.closeDir fileName)

theorem createDirectories_cases (answers : StepAnswers) {status : UInt64} (fine : efiError status = false)
    (dirs : List Str) :
    (¬ DirsOpen answers dirs ∧ createDirectories answers status dirs = .error .unopened) ∨
      (DirsOpen answers dirs ∧ ∃ status', createDirectories answers status dirs = .ok status' ∧
        efiError status' = !(dirs.all fun fileName => !efiError (answers.closeDir fileName))) := by
  induction dirs generalizing status with
  | nil => exact Or.inr ⟨trivial, status, rfl, fine⟩
  | cons fileName rest ih =>
    rw [createDirectories, DirsOpen, List.all_cons]
    cases opened : efiError (answers.openDir fileName) with
    | true => exact Or.inl ⟨(fun both => nomatch both.1), rfl⟩
    | false =>
      rw [if_neg Bool.false_ne_true, and_iff_right rfl]
      dsimp only
      cases closed : efiError (answers.closeDir fileName) with
      | true => exact Or.inr ⟨(fun impossible => nomatch impossible), _, rfl, closed⟩
      | false =>
        rw [if_neg Bool.false_ne_true, imp_iff_right rfl]
        exact ih closed

/-- The step leaves the program as it is at its source and an existing configuration as it was, or reports an
error, and no handle that was not opened is used. -/
def CopiesOrFails (appleFirmware : Bool) (volumes : List FsType) (answers : StepAnswers) (source : SourceFiles)
    (target : TargetFiles) : Prop :=
  ∃ returned after, copyMeridianFiles appleFirmware volumes answers source target = .ok (returned, after) ∧
    (efiError returned.toUInt64 = true ∨
      (after.program = some source.program ∧ ∀ config, target.config = some config → after.config = some config))

/-- The operations that make it so. The error is never seen, so nothing is left to it. -/
structure CopiesWhole (answers : StepAnswers) (source : SourceFiles) (target : TargetFiles) : Prop where
  targetRoot : answers.targetRoot = true
  opened : DirsOpen answers instDirectories
  stopped : dirsClose answers = false → target.program = some source.program
  sourceRoot : dirsClose answers = true → answers.sourceRoot = true
  program : dirsClose answers = true → answers.program.Leaves source.program target.program source.program
  config : dirsClose answers = true → answers.program.succeeds = true → copiesConfig answers source target = true →
    ∀ config, target.config = some config →
      ∀ buffer, source.config = some buffer → answers.config.Leaves buffer (some config) config

theorem efiError_byte (status : UInt8) : efiError status.toUInt64 = false := by
  have small := status.toNat_lt
  rw [efiError, decide_eq_false_iff_not, UInt8.toNat_toUInt64]
  omega

theorem createFallbackCsv_program (answers : StepAnswers) (target : TargetFiles) :
    (createFallbackCsv answers target).program = target.program ∧
      (createFallbackCsv answers target).config = target.config := by
  unfold createFallbackCsv
  split
  · exact ⟨rfl, rfl⟩
  split
  · exact ⟨rfl, rfl⟩
  · exact ⟨rfl, rfl⟩

/-- What is left of the files that matter, where every directory closes. -/
theorem copyFiles_files (appleFirmware : Bool) (volumes : List FsType) (source : SourceFiles)
    (target : TargetFiles) (sourceRoot : answers.sourceRoot = true) :
    ∃ status after, copyFiles appleFirmware volumes answers source target = .ok (status, after) ∧
      after.program = (copyOneFile answers.program (some source.program) target.program).2 ∧
      after.config =
        if answers.program.succeeds && copiesConfig answers source target then
          (copyOneFile answers.config source.config target.config).2
        else target.config := by
  unfold copyFiles
  rw [sourceRoot, Bool.not_true, if_neg Bool.false_ne_true]
  dsimp only
  rw [copyOneFile_succeeds]
  cases answers.program.succeeds with
  | false =>
    rw [Bool.not_false, if_pos rfl, Bool.false_and, if_neg Bool.false_ne_true]
    exact ⟨_, _, rfl, rfl, rfl⟩
  | true =>
    have same : copiesConfig answers source
        { target with program := (copyOneFile answers.program (some source.program) target.program).2 } =
          copiesConfig answers source target := rfl
    rw [Bool.not_true, if_neg Bool.false_ne_true, Bool.true_and, same]
    cases copiesConfig answers source target with
    | true => exact ⟨_, _, rfl, rfl, rfl⟩
    | false => exact ⟨_, _, rfl, rfl, rfl⟩

/-- The whole step: it uses a handle that was not opened, or the directories stop it, or the files are copied. -/
theorem copyMeridianFiles_cases (appleFirmware : Bool) (volumes : List FsType) (answers : StepAnswers)
    (source : SourceFiles) (target : TargetFiles) :
    (¬ (answers.targetRoot = true ∧ DirsOpen answers instDirectories ∧
          (dirsClose answers = true → answers.sourceRoot = true)) ∧
        copyMeridianFiles appleFirmware volumes answers source target = .error .unopened) ∨
      ((answers.targetRoot = true ∧ DirsOpen answers instDirectories ∧
          (dirsClose answers = true → answers.sourceRoot = true)) ∧
        ∃ returned after, copyMeridianFiles appleFirmware volumes answers source target = .ok (returned, after) ∧
          after.program =
            (if dirsClose answers then (copyOneFile answers.program (some source.program) target.program).2
              else target.program) ∧
          after.config =
            if dirsClose answers && answers.program.succeeds && copiesConfig answers source target then
              (copyOneFile answers.config source.config target.config).2
            else target.config) := by
  unfold copyMeridianFiles
  cases answers.targetRoot with
  | false => exact Or.inl ⟨(fun both => nomatch both.1), rfl⟩
  | true =>
    rw [Bool.not_true, if_neg Bool.false_ne_true]
    obtain ⟨misses, eq⟩ | ⟨opened, status, eq, error⟩ :=
      createDirectories_cases answers (show efiError efiSuccess = false by decide) instDirectories
    · rw [eq]
      exact Or.inl ⟨(fun all => misses all.2.1), rfl⟩
    · rw [eq, ok_bind]
      dsimp only
      rw [error, ← dirsClose]
      cases dirsClose answers with
      | false =>
        obtain ⟨program, config⟩ := createFallbackCsv_program answers target
        exact Or.inr ⟨⟨rfl, opened, (fun impossible => nomatch impossible)⟩, _, _, rfl, program, config⟩
      | true =>
        rw [Bool.not_true, if_neg Bool.false_ne_true]
        cases sourceRoot : answers.sourceRoot with
        | false =>
          refine Or.inl ⟨fun all => (nomatch all.2.2 rfl), ?_⟩
          rw [copyFiles, sourceRoot]
          rfl
        | true =>
          obtain ⟨status', after, copies, program, config⟩ :=
            copyFiles_files appleFirmware volumes source target sourceRoot
          obtain ⟨programKept, configKept⟩ := createFallbackCsv_program answers after
          rw [copies, ok_bind]
          refine Or.inr ⟨⟨rfl, opened, fun _ => rfl⟩, _, _, rfl, ?_, ?_⟩
          · rw [programKept, program, if_pos rfl]
          · rw [configKept, config, Bool.true_and]

/-- A copy whose operations all succeed. -/
def allSucceed : CopyAnswers where
  openSource := efiSuccess
  infoAllocates := true
  memory := true
  read := efiSuccess
  openDest := efiSuccess
  write := efiSuccess
  written := 0
  close := efiSuccess

end Meridian.Install
