import Meridian.Lib.Codec
import Meridian.Lib.Probe

/-!
# Whether a file is a loader

The model of `IsValidLoader` of `loaders/launch_efi.c`. The header is a fresh buffer of `EFI_HEADER_SIZE` bytes:
where the file is shorter, what is behind it is what the memory held before.
-/

namespace Meridian.Loaders

open Lib Lib.Codec

def efiHeaderSize : Nat := 4096

def basicPeOffset : Nat := 0x3c

def linuxPeOffset : Nat := 0x38

def linuxPeMagic : Nat := 0x818223cd

def appleFatBinary : Nat := 0x0ef1fab9

/-- The architectures that `EFIX64` and `EFIAARCH64` are set for, and the other ones. -/
inductive Arch where
  | x64 | aarch64 | other
  deriving DecidableEq, Repr

/-- The six bytes of `EFI_STUB_ARCH` that are compared. -/
def stubArch : Arch → List UInt8
  | .x64 => [0x50, 0x45, 0x00, 0x00, 0x64, 0x86]
  | .aarch64 => [0x50, 0x45, 0x00, 0x00, 0x64, 0xaa]
  | .other => [0x50, 0x45, 0x00, 0x00, 0x00, 0x00]

structure LoaderConfig where
  arch : Arch
  appleFirmware : Bool
  gzippedLoaders : Bool
  scanLimine : Bool
  deriving DecidableEq, Repr

/-- Whether both arguments are given, there is memory for the header, and the file exists, opens and reads. -/
structure Access where
  named : Bool
  memory : Bool
  fileExists : Bool
  opens : Bool
  reads : Bool
  deriving DecidableEq, Repr

abbrev HeaderProbe := Probe UInt8

def headerByte (offset : Nat) : HeaderProbe UInt8 := Probe.cell offset

def headerUint32 (offset : Nat) : HeaderProbe Nat := do
  let b₀ ← headerByte offset
  let b₁ ← headerByte (offset + 1)
  let b₂ ← headerByte (offset + 2)
  let b₃ ← headerByte (offset + 3)
  pure (ofLe [b₀, b₁, b₂, b₃])

/-- Bytes compared one after another, up to the first that differs. -/
def headerHolds (offset : Nat) : List UInt8 → HeaderProbe Bool
  | [] => pure true
  | b :: bytes => do
    let header ← headerByte offset
    if header = b then headerHolds (offset + 1) bytes else pure false

/-- The magic number of a compressed loader. -/
def gzipMagic : List UInt8 := [0x1F, 0x8B]

/-- `"MZ"`. -/
def dosMagic : List UInt8 := [0x4D, 0x5A]

def isPe (arch : Arch) (loadedSize : Nat) : HeaderProbe Bool := do
  let dos ← headerHolds 0 dosMagic
  if dos ∧ loadedSize = efiHeaderSize then do
    let baseMagicPe ← headerUint32 basicPeOffset
    if baseMagicPe < efiHeaderSize - 8 then headerHolds baseMagicPe (stubArch arch) else pure false
  else pure false

/-- The header of a 64-bit little-endian ELF file, and its machine. -/
def isLimine : HeaderProbe Bool := do
  let elf ← headerHolds 0 [0x7f, 0x45, 0x4C, 0x46, 2, 1]
  if elf then headerHolds 18 [62] else pure false

/-- The tests of the header in their order. -/
def checkFormats (config : LoaderConfig) (loadedSize : Nat) : HeaderProbe Bool := do
  let pe ← isPe config.arch loadedSize
  if pe then pure true
  else do
    let linuxMagicPe ← headerUint32 linuxPeOffset
    if linuxMagicPe = linuxPeMagic then pure true
    else do
      let fat ← headerUint32 0
      if fat = appleFatBinary then pure true
      else if config.scanLimine then do
        let limine ← isLimine
        if limine then pure true else pure config.appleFirmware
      else pure config.appleFirmware

def checkHeader (config : LoaderConfig) (loadedSize : Nat) : HeaderProbe Bool :=
  if config.gzippedLoaders then do
    let gzipped ← headerHolds 0 gzipMagic
    if gzipped then pure false else checkFormats config loadedSize
  else checkFormats config loadedSize

/-- `LoadedSize`: a read ends with the file. -/
def loadedSize (file : List UInt8) : Nat := min file.length efiHeaderSize

/-- `IsValidLoader`, as a computation over the header. -/
def isValidLoader (config : LoaderConfig) (access : Access) (file : List UInt8) : HeaderProbe Bool :=
  if config.appleFirmware ∧ !access.named then pure true
  else if config.arch = .other then pure true
  else if !access.memory then pure false
  else if !access.fileExists then pure false
  else if !access.opens then pure false
  else if !access.reads then pure false
  else checkHeader config (loadedSize file)

/-- The header after the read, over what the memory held earlier. -/
def headerOf (file : List UInt8) (earlier : Nat → UInt8) (i : Nat) : UInt8 :=
  if i < loadedSize file then file.getD i 0 else earlier i

/-- The answer does not depend on what the memory held earlier, and every byte used was read from the file. -/
structure DependsOnFile (config : LoaderConfig) (access : Access) (file : List UInt8) : Prop where
  answer : ∀ earlier earlier', (isValidLoader config access file).run (headerOf file earlier) =
    (isValidLoader config access file).run (headerOf file earlier')
  inside : ∀ earlier, ∀ i ∈ (isValidLoader config access file).used (headerOf file earlier), i < loadedSize file

/-- The header comes to be tested. -/
def Tested (config : LoaderConfig) (access : Access) : Prop :=
  ¬ (config.appleFirmware = true ∧ access.named = false) ∧ config.arch ≠ .other ∧ access.memory = true ∧
    access.fileExists = true ∧ access.opens = true ∧ access.reads = true

/-! ### What the tests ask for -/

section Bounds

variable {bound : Nat}

theorem headerHolds_below (offset : Nat) (bytes : List UInt8) (inside : offset + bytes.length ≤ bound) :
    (headerHolds offset bytes).Below bound := by
  induction bytes generalizing offset with
  | nil => exact Probe.below_pure _ _
  | cons b bytes ih =>
    rw [List.length_cons] at inside
    refine (Probe.below_cell (by omega)).bind fun header => ?_
    exact .ite (fun _ => ih (offset + 1) (by omega)) fun _ => Probe.below_pure _ _

theorem headerUint32_below (offset : Nat) (inside : offset + 4 ≤ bound) : (headerUint32 offset).Below bound := by
  refine (Probe.below_cell (by omega)).bind fun b₀ => (Probe.below_cell (by omega)).bind fun b₁ => ?_
  exact (Probe.below_cell (by omega)).bind fun b₂ => (Probe.below_cell (by omega)).bind fun b₃ =>
    Probe.below_pure _ _

theorem stubArch_length (arch : Arch) : (stubArch arch).length = 6 := by
  cases arch <;> rfl

/-- Only a full header is asked for at the place that it names itself. -/
theorem isPe_below (arch : Arch) (loadedSize : Nat) (dos : 2 ≤ bound)
    (full : loadedSize = efiHeaderSize → efiHeaderSize ≤ bound) : (isPe arch loadedSize).Below bound := by
  refine (headerHolds_below 0 dosMagic dos).bind fun isDos => .ite (fun both => ?_) fun _ => Probe.below_pure _ _
  have room := full both.2
  unfold efiHeaderSize at room
  refine (headerUint32_below basicPeOffset ?_).bind fun baseMagicPe => ?_
  · unfold basicPeOffset
    omega
  refine .ite (fun small => headerHolds_below baseMagicPe (stubArch arch) ?_) fun _ => Probe.below_pure _ _
  unfold efiHeaderSize at small
  rw [stubArch_length]
  omega

theorem checkFormats_below (config : LoaderConfig) (loadedSize : Nat) (linux : 60 ≤ bound)
    (full : loadedSize = efiHeaderSize → efiHeaderSize ≤ bound) :
    (checkFormats config loadedSize).Below bound := by
  refine (isPe_below config.arch loadedSize (by omega) full).bind fun pe => ?_
  refine .ite (fun _ => Probe.below_pure _ _) fun _ => ?_
  refine (headerUint32_below linuxPeOffset linux).bind fun linuxMagicPe => ?_
  refine .ite (fun _ => Probe.below_pure _ _) fun _ => ?_
  refine (headerUint32_below 0 (by omega)).bind fun fat => .ite (fun _ => Probe.below_pure _ _) fun _ => ?_
  refine .ite (fun _ => ?_) fun _ => Probe.below_pure _ _
  have elf : Probe.Below bound isLimine :=
    (headerHolds_below 0 _ (Nat.le_trans (by decide) linux)).bind fun elf =>
      .ite (fun _ => headerHolds_below 18 [62] (Nat.le_trans (by decide) linux)) fun _ => Probe.below_pure _ _
  exact elf.bind fun limine => .ite (fun _ => Probe.below_pure _ _) fun _ => Probe.below_pure _ _

theorem checkHeader_below (config : LoaderConfig) (loadedSize : Nat) (linux : 60 ≤ bound)
    (full : loadedSize = efiHeaderSize → efiHeaderSize ≤ bound) : (checkHeader config loadedSize).Below bound := by
  have formats := checkFormats_below config loadedSize linux full
  refine .ite (fun _ => ?_) fun _ => formats
  exact (headerHolds_below 0 gzipMagic (Nat.le_trans (by decide) linux)).bind fun gzipped =>
    .ite (fun _ => Probe.below_pure _ _) fun _ => formats

end Bounds

theorem used_headerUint32 (memory : Nat → UInt8) (offset : Nat) :
    (headerUint32 offset).used memory = [offset, offset + 1, offset + 2, offset + 3] := rfl

/-- A header that is not full is always asked for the last byte of the Linux magic number. -/
theorem checkFormats_asks (config : LoaderConfig) {loadedSize : Nat} (short : loadedSize ≠ efiHeaderSize)
    (memory : Nat → UInt8) : 59 ∈ (checkFormats config loadedSize).used memory := by
  have noPe : (isPe config.arch loadedSize).run memory = false := by
    rw [isPe, Probe.run_bind, if_neg fun both => short both.2]
    rfl
  rw [checkFormats, Probe.used_bind, noPe, if_neg Bool.false_ne_true, Probe.used_bind]
  refine List.mem_append_right _ (List.mem_append_left _ ?_)
  rw [used_headerUint32]
  decide

theorem run_headerHolds_iff (memory : Nat → UInt8) (offset : Nat) (bytes : List UInt8) :
    (headerHolds offset bytes).run memory = true ↔ ∀ k b, bytes[k]? = some b → memory (offset + k) = b := by
  induction bytes generalizing offset with
  | nil => exact iff_of_true rfl fun k b impossible => nomatch impossible
  | cons b bytes ih =>
    rw [headerHolds, Probe.run_bind, headerByte, Probe.run_cell]
    by_cases here : memory offset = b
    · rw [if_pos here, ih]
      constructor
      · intro later k b' listed
        cases k with
        | zero => exact here.trans (Option.some.inj listed)
        | succ k =>
          rw [← Nat.add_assoc, Nat.add_right_comm]
          exact later k b' listed
      · intro all k b' listed
        rw [Nat.add_assoc, Nat.add_comm 1]
        exact all (k + 1) b' listed
    · rw [if_neg here]
      exact iff_of_false Bool.false_ne_true fun all => here (all 0 b rfl)

/-- Where all the bytes are the same, all of them are asked for. -/
theorem used_headerHolds (memory : Nat → UInt8) (offset : Nat) (bytes : List UInt8)
    (holds : (headerHolds offset bytes).run memory = true) :
    (headerHolds offset bytes).used memory = List.range' offset bytes.length := by
  induction bytes generalizing offset with
  | nil => rfl
  | cons b bytes ih =>
    rw [headerHolds, Probe.run_bind, headerByte, Probe.run_cell] at holds
    rw [headerHolds, Probe.used_bind, headerByte, Probe.run_cell, Probe.used_cell]
    by_cases here : memory offset = b
    · rw [if_pos here] at holds ⊢
      rw [ih (offset + 1) holds]
      rfl
    · rw [if_neg here] at holds
      cases holds

/-! ### The answer -/

variable {config : LoaderConfig} {access : Access} {file : List UInt8}

theorem isValidLoader_tested (tested : Tested config access) (file : List UInt8) :
    isValidLoader config access file = checkHeader config (loadedSize file) := by
  obtain ⟨named, arch, memory, fileExists, opens, reads⟩ := tested
  rw [isValidLoader, if_neg, if_neg arch, memory, fileExists, opens, reads]
  · rfl
  · rw [Bool.not_eq_true']
    exact named

theorem isValidLoader_untested (untested : ¬ Tested config access) (file : List UInt8) :
    ∃ answer, isValidLoader config access file = pure answer := by
  unfold isValidLoader
  split
  · exact ⟨_, rfl⟩
  rename_i named
  split
  · exact ⟨_, rfl⟩
  rename_i arch
  split
  · exact ⟨_, rfl⟩
  rename_i memory
  split
  · exact ⟨_, rfl⟩
  rename_i fileExists
  split
  · exact ⟨_, rfl⟩
  rename_i opens
  split
  · exact ⟨_, rfl⟩
  rename_i reads
  rw [Bool.not_eq_true'] at named
  rw [Bool.not_eq_true', Bool.not_eq_false] at memory fileExists opens reads
  exact absurd ⟨named, arch, memory, fileExists, opens, reads⟩ untested

theorem headerOf_of_lt {earlier : Nat → UInt8} {i : Nat} (inside : i < loadedSize file) :
    headerOf file earlier i = file.getD i 0 := if_pos inside

/-- Bytes that were read from the file give one answer. -/
theorem dependsOnFile_of_inside (inside : ∀ earlier, ∀ i ∈ (isValidLoader config access file).used
    (headerOf file earlier), i < loadedSize file) : DependsOnFile config access file := by
  refine ⟨fun earlier earlier' => Probe.run_congr fun i asked => ?_, inside⟩
  rw [headerOf_of_lt (inside earlier i asked), headerOf_of_lt (inside earlier i asked)]

/-- A compressed loader of two bytes or more is known by them. -/
theorem checkHeader_gzipped (gzip : config.gzippedLoaders = true) (memory : Nat → UInt8) (loadedSize : Nat)
    (holds : (headerHolds 0 gzipMagic).run memory = true) :
    (checkHeader config loadedSize).used memory = [0, 1] := by
  rw [checkHeader, if_pos gzip, Probe.used_bind, holds, if_pos rfl, used_headerHolds memory 0 gzipMagic holds]
  rfl

theorem loadedSize_short (short : file.length < 60) : loadedSize file = file.length :=
  Nat.min_eq_left (Nat.le_trans (Nat.le_of_lt short) (by decide))

/-- A short header whose bytes are all read from the file is that of a compressed loader. -/
theorem gzipped_of_inside (short : file.length < 60)
    (inside : ∀ i ∈ (checkHeader config (loadedSize file)).used (headerOf file fun _ => 0), i < loadedSize file) :
    config.gzippedLoaders = true ∧ gzipMagic <+: file := by
  have size := loadedSize_short short
  have last : 59 ∉ (checkHeader config (loadedSize file)).used (headerOf file fun _ => 0) := by
    intro asked
    have := inside 59 asked
    omega
  have formats : 59 ∈ (checkFormats config (loadedSize file)).used (headerOf file fun _ => 0) :=
    checkFormats_asks config (by unfold efiHeaderSize; omega) _
  cases gzip : config.gzippedLoaders with
  | false =>
    rw [checkHeader, gzip, if_neg Bool.false_ne_true] at last
    exact absurd formats last
  | true =>
    cases holds : (headerHolds 0 gzipMagic).run (headerOf file fun _ => 0) with
    | false =>
      rw [checkHeader, if_pos gzip, Probe.used_bind, holds, if_neg Bool.false_ne_true] at last
      exact absurd (List.mem_append_right _ formats) last
    | true =>
      rw [checkHeader_gzipped gzip _ _ holds] at inside
      have long : 1 < loadedSize file := inside 1 (by decide)
      have bytes := (run_headerHolds_iff _ _ _).mp holds
      have first : headerOf file (fun _ => 0) 0 = 0x1F := bytes 0 0x1F rfl
      have second : headerOf file (fun _ => 0) 1 = 0x8B := bytes 1 0x8B rfl
      rw [headerOf_of_lt (by omega)] at first second
      rw [size] at long
      match file, long with
      | a :: b :: rest, _ =>
        obtain rfl : a = 0x1F := first
        obtain rfl : b = 0x8B := second
        exact ⟨rfl, rest, rfl⟩

/-- The answer depends on the file alone exactly where a header that is tested has sixty bytes, or those of a
compressed loader. -/
theorem isValidLoader_iff (config : LoaderConfig) (access : Access) (file : List UInt8) :
    DependsOnFile config access file ↔
      (Tested config access → 60 ≤ file.length ∨ config.gzippedLoaders = true ∧ gzipMagic <+: file) := by
  constructor
  · intro depends tested
    refine Nat.lt_or_ge file.length 60 |>.symm.imp_right fun short => ?_
    have inside := depends.inside fun _ => 0
    rw [isValidLoader_tested tested] at inside
    exact gzipped_of_inside short inside
  · intro condition
    by_cases tested : Tested config access
    · refine dependsOnFile_of_inside ?_
      rw [isValidLoader_tested tested]
      intro earlier
      obtain long | ⟨gzip, rest, rfl⟩ := condition tested
      · have size : 60 ≤ loadedSize file := Nat.le_min.mpr ⟨long, by decide⟩
        exact checkHeader_below config (loadedSize file) size (fun full => Nat.le_of_eq full.symm) _
      · have size : 2 ≤ loadedSize (gzipMagic ++ rest) := by
          refine Nat.le_min.mpr ⟨?_, by decide⟩
          rw [List.length_append]
          exact Nat.le_add_right _ _
        have holds : (headerHolds 0 gzipMagic).run (headerOf (gzipMagic ++ rest) earlier) = true := by
          refine (run_headerHolds_iff _ _ _).mpr fun k b listed => ?_
          obtain ⟨inside, same⟩ := List.getElem?_eq_some_iff.mp listed
          have inside : k < 2 := inside
          rw [Nat.zero_add, headerOf_of_lt (by omega), List.getD_eq_getElem?_getD,
            List.getElem?_append_left inside, listed, Option.getD_some]
        rw [checkHeader_gzipped gzip _ _ holds]
        intro i asked
        have small : i < 2 := by
          obtain rfl | rest := List.mem_cons.mp asked
          · exact Nat.two_pos
          · obtain rfl := List.mem_singleton.mp rest
            exact Nat.one_lt_two
        omega
    · obtain ⟨answer, eq⟩ := isValidLoader_untested tested file
      refine dependsOnFile_of_inside fun earlier i asked => ?_
      rw [eq, Probe.used_pure] at asked
      cases asked

/-- An empty file is a loader where the memory held the magic number of a fat binary. -/
theorem isValidLoader_empty :
    ¬ DependsOnFile { arch := .x64, appleFirmware := false, gzippedLoaders := false, scanLimine := false }
      { named := true, memory := true, fileExists := true, opens := true, reads := true } [] := by
  intro depends
  have same := depends.answer (fun _ => 0) fun i => [0xb9, 0xfa, 0xf1, 0x0e].getD i 0
  revert same
  decide

end Meridian.Loaders
