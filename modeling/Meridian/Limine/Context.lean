import Meridian.Lib.Word

/-!
# The loader's context

`LIMINE_CTX` of `loaders/limine/limine_boot.h`: what the loader of Limine kernels hands from one
step of the boot to the next. Pointers are addresses, zero for a null pointer.
-/

namespace Meridian.Limine

open Lib.Word

/-- `LIMINE_PAGE_SIZE`. -/
def liminePageSize : Nat := 0x1000

/-- `LIMINE_HHDM_BASE`. -/
def limineHhdmBase : Nat := 0xffff800000000000

/-- `LIMINE_HIGHER_HALF_BASE`. -/
def limineHigherHalfBase : Nat := 0xffffffff80000000

/-- A freshly zeroed context is the default value. -/
structure LimineCtx where
  fileData : Nat := 0
  fileSize : Nat := 0
  imagePhys : Nat := 0
  imageVirt : Nat := 0
  imageSize : Nat := 0
  slide : Nat := 0
  entryPoint : Nat := 0
  baseRevision : Nat := 0
  baseRevisionTag : Nat := 0
  hhdmOffset : Nat := 0
  pml4Phys : Nat := 0
  tablePoolPhys : Nat := 0
  tablePoolPages : Nat := 0
  tablePoolUsed : Nat := 0
  stackPhys : Nat := 0
  stackSize : Nat := 0
  arena : Nat := 0
  arenaSize : Nat := 0
  arenaUsed : Nat := 0
  reqSearchStart : Nat := 0
  reqSearchEnd : Nat := 0
  memmapResponse : Nat := 0
  memmapEntries : Nat := 0
  memmapPointers : Nat := 0
  memmapMaxEntries : Nat := 0
  efiMemmapResponse : Nat := 0
  efiMemmapBuffer : Nat := 0
  fbPhys : Nat := 0
  fbSize : Nat := 0
  execFilePhys : Nat := 0
  execFilePages : Nat := 0
  deriving Repr

/-- `TO_VIRT`: the address of a physical object in the higher half. -/
def toVirt (ctx : LimineCtx) (ptr : Nat) : Nat := u64 (ptr + ctx.hhdmOffset)

end Meridian.Limine
