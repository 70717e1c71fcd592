import Meridian.Limine.Paging
import Meridian.Lib.Memory

/-!
# Loading the kernel's ELF file

The model of `loaders/limine/elf.c` over a flat memory. The loader's copies, its zero fill and the
program headers that it reads are recorded with their addresses, in order.
-/

namespace Meridian.Limine

open Lib.Word Lib.Memory

inductive Access where
  | header (addr : Nat)
  | copySource (addr size : Nat)
  | copyTarget (addr size : Nat)
  | zeroFill (addr size : Nat)
  deriving DecidableEq, Repr

structure ElfState where
  ctx : LimineCtx
  mem : Bytes
  accesses : List Access

/-- `unfinished` is a run that was cut off. -/
inductive Ending where
  | success
  | failed (status : EfiStatus)
  | unfinished
  deriving DecidableEq, Repr

/-- `sizeof(ELF64_EHDR)`. -/
def elf64EhdrSize : Nat := 64

/-- `sizeof(ELF64_PHDR)`. -/
def elf64PhdrSize : Nat := 56

/-- The most headers that a 16-bit count has. -/
def maxPhnum : Nat := 2 ^ 16 - 1

def etDyn : Nat := 3
def ptLoad : Nat := 1
def ptDynamic : Nat := 2
def dtNull : Nat := 0
def dtRela : Nat := 7
def dtRelasz : Nat := 8
def dtRelaent : Nat := 9
def rX8664Relative : Nat := 8

/-- The fields of `ELF64_PHDR` that the loader reads. -/
structure Elf64Phdr where
  pType : Nat
  pOffset : Nat
  pVaddr : Nat
  pFilesz : Nat
  pMemsz : Nat
  deriving DecidableEq, Repr

def readPhdr (mem : Bytes) (addr : Nat) : Elf64Phdr where
  pType := readLe mem addr 4
  pOffset := readLe mem (addr + 8) 8
  pVaddr := readLe mem (addr + 16) 8
  pFilesz := readLe mem (addr + 32) 8
  pMemsz := readLe mem (addr + 40) 8

/-- A segment that is loaded. -/
def Elf64Phdr.loaded (ph : Elf64Phdr) : Bool := decide (ph.pType = ptLoad) && decide (ph.pMemsz ≠ 0)

def roundUpPage (value : Nat) : Nat := u64 (value + liminePageSize - 1) &&& (2 ^ 64 - liminePageSize)

def roundDownPage (value : Nat) : Nat := value &&& (2 ^ 64 - liminePageSize)

namespace ElfState

def eType (st : ElfState) : Nat := readLe st.mem (st.ctx.fileData + 16) 2
def eEntry (st : ElfState) : Nat := readLe st.mem (st.ctx.fileData + 24) 8
def ePhoff (st : ElfState) : Nat := readLe st.mem (st.ctx.fileData + 32) 8
def ePhentsize (st : ElfState) : Nat := readLe st.mem (st.ctx.fileData + 54) 2
def ePhnum (st : ElfState) : Nat := readLe st.mem (st.ctx.fileData + 56) 2

def record (st : ElfState) (accesses : List Access) : ElfState :=
  { st with accesses := st.accesses ++ accesses }

def zeroMem (st : ElfState) (dst size : Nat) : ElfState :=
  { st with mem := fill st.mem dst size }.record [.zeroFill dst size]

def copyMem (st : ElfState) (dst src size : Nat) : ElfState :=
  { st with mem := copy st.mem dst src size }.record [.copySource src size, .copyTarget dst size]

def setImage (st : ElfState) (virt size slide : Nat) : ElfState :=
  { st with ctx := { st.ctx with imageVirt := virt, imageSize := size, slide := slide } }

def setImagePhys (st : ElfState) (phys : Nat) : ElfState :=
  { st with ctx := { st.ctx with imagePhys := phys } }

/-- The entry point and the range that the requests are searched in. -/
def finish (st : ElfState) : ElfState :=
  { st with ctx := { st.ctx with
      entryPoint := u64 (st.eEntry + st.ctx.slide)
      reqSearchStart := st.ctx.imagePhys
      reqSearchEnd := u64 (st.ctx.imagePhys + st.ctx.imageSize) } }

end ElfState

/-- `&Phdrs[i]`. -/
def phdrAddr (phdrs i : Nat) : Nat := u64 (phdrs + elf64PhdrSize * i)

/-! ### The first pass -/

/-- The lowest and the greatest virtual address seen. -/
structure ElfSpan where
  minVaddr : Nat
  maxVaddr : Nat
  sawLoad : Bool
  deriving DecidableEq, Repr

def ElfSpan.add (span : ElfSpan) (ph : Elf64Phdr) : ElfSpan where
  minVaddr := if ph.pVaddr < span.minVaddr then ph.pVaddr else span.minVaddr
  maxVaddr := if u64 (ph.pVaddr + ph.pMemsz) > span.maxVaddr then u64 (ph.pVaddr + ph.pMemsz)
    else span.maxVaddr
  sawLoad := true

/-- The loop that checks the segments and measures their span, `none` for a load error. It ends at
the count of headers, before `left` does. -/
def scanHeaders (phdrs : Nat) : Nat → Nat → ElfSpan → ElfState → ElfState × Option ElfSpan
  | 0, _, span, st => (st, some span)
  | left + 1, i, span, st =>
    if i < st.ePhnum then
      let ph := readPhdr st.mem (phdrAddr phdrs i)
      let st := st.record [.header (phdrAddr phdrs i)]
      if !ph.loaded then scanHeaders phdrs left (i + 1) span st
      else if ph.pFilesz > ph.pMemsz ∨ u64 (ph.pOffset + ph.pFilesz) > st.ctx.fileSize then (st, none)
      else scanHeaders phdrs left (i + 1) (span.add ph) st
    else (st, some span)

/-! ### The second pass -/

/-- The loop that copies the segments to the image. -/
def copySegments (phdrs minVaddr : Nat) : Nat → Nat → ElfState → ElfState
  | 0, _, st => st
  | left + 1, i, st =>
    if i < st.ePhnum then
      let ph := readPhdr st.mem (phdrAddr phdrs i)
      let st := st.record [.header (phdrAddr phdrs i)]
      if !ph.loaded then copySegments phdrs minVaddr left (i + 1) st
      else
        copySegments phdrs minVaddr left (i + 1)
          (st.copyMem (u64 (st.ctx.imagePhys + sub64 ph.pVaddr minVaddr))
            (u64 (st.ctx.fileData + ph.pOffset)) ph.pFilesz)
    else st

/-! ### Relocations -/

/-- The relocation table that the dynamic section describes. -/
structure RelaTable where
  virt : Nat := 0
  size : Nat := 0
  ent : Nat := 24
  deriving DecidableEq, Repr

/-- The address in the image of a virtual address of the file. -/
def ElfState.imageAddr (st : ElfState) (virt : Nat) : Nat :=
  u64 (st.ctx.imagePhys + sub64 virt (sub64 st.ctx.imageVirt st.ctx.slide))

/-- The loop over a dynamic section of at most `left` further entries. -/
def scanDynamic (mem : Bytes) (dyn : Nat) : Nat → Nat → RelaTable → RelaTable
  | 0, _, table => table
  | left + 1, j, table =>
    let tag := readLe mem (dyn + 16 * j) 8
    let val := readLe mem (dyn + 16 * j + 8) 8
    if tag = dtNull then table
    else
      scanDynamic mem dyn left (j + 1)
        (if tag = dtRela then { table with virt := val }
        else if tag = dtRelasz then { table with size := val }
        else if tag = dtRelaent then { table with ent := val }
        else table)

/-- The loop over the headers for dynamic sections. -/
def findRela (phdrs : Nat) : Nat → Nat → RelaTable → ElfState → ElfState × RelaTable
  | 0, _, table, st => (st, table)
  | left + 1, i, table, st =>
    if i < st.ePhnum then
      let ph := readPhdr st.mem (phdrAddr phdrs i)
      let st := st.record [.header (phdrAddr phdrs i)]
      if ph.pType ≠ ptDynamic then findRela phdrs left (i + 1) table st
      else
        findRela phdrs left (i + 1)
          (scanDynamic st.mem (st.imageAddr ph.pVaddr) (ph.pMemsz / 16) 0 table) st
    else (st, table)

/-- The loop over the relocation table, cut off after so many steps. -/
def relocate (table : RelaTable) : Nat → Nat → ElfState → ElfState × Ending
  | 0, _, st => (st, .unfinished)
  | fuel + 1, j, st =>
    if u64 (j + table.ent) ≤ table.size then
      let rela := u64 (st.imageAddr table.virt + j)
      let rOffset := readLe st.mem rela 8
      let rInfo := readLe st.mem (rela + 8) 8
      let rAddend := readLe st.mem (rela + 16) 8
      if rInfo &&& 0xffffffff ≠ rX8664Relative then (st, .failed .unsupported)
      else
        relocate table fuel (u64 (j + table.ent))
          { st with mem := writeLe st.mem (st.imageAddr rOffset) 8 (u64 (rAddend + st.ctx.slide)) }
    else (st, .success)

def applyRelocations (fuel phdrs : Nat) (st : ElfState) : ElfState × Ending :=
  let (st, table) := findRela phdrs maxPhnum 0 {} st
  if table.virt = 0 ∨ table.size = 0 ∨ table.ent = 0 then (st, .success)
  else relocate table fuel 0 st

/-! ### The loader -/

/-- The image with zeros and the segments. -/
def placeImage (phdrs minVaddr image : Nat) (st : ElfState) : ElfState :=
  copySegments phdrs minVaddr maxPhnum 0 ((st.setImagePhys image).zeroMem image st.ctx.imageSize)

/-- What is left to do after the relocations. -/
def endLoad : ElfState × Ending → ElfState × Ending
  | (st, .success) => (st.finish, .success)
  | (st, .failed status) => (st.setImagePhys 0, .failed status)
  | (st, .unfinished) => (st, .unfinished)

/-- Allocate the image, fill it and relocate it. -/
def loadImage (fuel : Nat) (allocatePages : Nat → Except EfiStatus Nat) (phdrs minVaddr : Nat)
    (st : ElfState) : ElfState × Ending :=
  match allocatePages (st.ctx.imageSize / liminePageSize) with
  | .error status => (st, .failed status)
  | .ok image =>
    let st := placeImage phdrs minVaddr image st
    endLoad (if st.ctx.slide ≠ 0 then applyRelocations fuel phdrs st else (st, .success))

def limineLoadElf (fuel : Nat) (allocatePages : Nat → Except EfiStatus Nat) (ctx : LimineCtx)
    (mem : Bytes) : ElfState × Ending :=
  let st : ElfState := ⟨ctx, mem, []⟩
  if ctx.fileData = 0 ∨ ctx.fileSize < elf64EhdrSize then (st, .failed .invalidParameter)
  else if st.ePhoff = 0 ∨ st.ePhnum = 0 ∨ st.ePhentsize < elf64PhdrSize ∨
      u64 (st.ePhoff + st.ePhnum * st.ePhentsize) > ctx.fileSize then
    (st, .failed .loadError)
  else
    let phdrs := u64 (ctx.fileData + st.ePhoff)
    match scanHeaders phdrs maxPhnum 0 ⟨2 ^ 64 - 1, 0, false⟩ st with
    | (st, none) => (st, .failed .loadError)
    | (st, some span) =>
      if !span.sawLoad then (st, .failed .loadError)
      else
        let minVaddr := roundDownPage span.minVaddr
        let maxVaddr := roundUpPage span.maxVaddr
        if minVaddr < limineHigherHalfBase ∧ st.eType ≠ etDyn then (st, .failed .unsupported)
        else
          let slide := if minVaddr < limineHigherHalfBase then limineHigherHalfBase - minVaddr else 0
          loadImage fuel allocatePages phdrs minVaddr
            (st.setImage (u64 (minVaddr + slide)) (sub64 maxVaddr minVaddr) slide)

end Meridian.Limine
