import Meridian.Limine.Memmap

/-!
# The kernel's page tables

The model of `loaders/limine/paging.c`: the tables are built in a pool of pages with one call of
`limineMapPage` for each page, and the walk that the processor makes through them.
-/

namespace Meridian.Limine

open Lib.Word

inductive EfiStatus where
  | invalidParameter | outOfResources | deviceError | unsupported | loadError
  deriving DecidableEq, Repr

/-- The context and the memory that the tables are in, as 64-bit words by address. -/
structure PagingState where
  ctx : LimineCtx
  word : Nat → Nat

/-- `LIMINE_LARGE_PAGE_SIZE`. -/
def limineLargePageSize : Nat := 0x200000

def ptePresent : Nat := 0x001
def pteWrite : Nat := 0x002
def ptePwt : Nat := 0x008
def pteLarge : Nat := 0x080
def ptePatLarge : Nat := 0x1000

/-- `PTE_WC_LARGE`: write-combining, in the page attribute table the loader installs. -/
def pteWcLarge : Nat := ptePatLarge ||| ptePwt

def pteAddrMask : Nat := 0x000ffffffffff000

def pml4Index (virt : Nat) : Nat := virt >>> 39 &&& 0x1ff
def pdptIndex (virt : Nat) : Nat := virt >>> 30 &&& 0x1ff
def pdIndex (virt : Nat) : Nat := virt >>> 21 &&& 0x1ff
def ptIndex (virt : Nat) : Nat := virt >>> 12 &&& 0x1ff

/-- `LIMINE_MAX_DIRECT_MAP`. -/
def limineMaxDirectMap : Nat := 512 * 1024 * 1024 * 1024

/-- `LIMINE_TABLE_POOL_SLACK`. -/
def limineTablePoolSlack : Nat := 32

namespace PagingState

def setWord (st : PagingState) (addr value : Nat) : PagingState :=
  { st with word := Function.update st.word addr value }

/-- `ZeroMem` of one page. -/
def zeroPage (st : PagingState) (page : Nat) : PagingState :=
  { st with word := fun addr => if page ≤ addr ∧ addr < page + liminePageSize then 0 else st.word addr }

def setUsed (st : PagingState) (used : Nat) : PagingState :=
  { st with ctx := { st.ctx with tablePoolUsed := used } }

def setPool (st : PagingState) (phys pages : Nat) : PagingState :=
  { st with ctx := { st.ctx with tablePoolPhys := phys, tablePoolPages := pages, tablePoolUsed := 0 } }

def setPml4 (st : PagingState) (phys : Nat) : PagingState :=
  { st with ctx := { st.ctx with pml4Phys := phys } }

def setHhdm (st : PagingState) (offset : Nat) : PagingState :=
  { st with ctx := { st.ctx with hhdmOffset := offset } }

end PagingState

/-- A zeroed page from the pool, null when the pool is used up. -/
def allocTable (st : PagingState) : PagingState × Nat :=
  if st.ctx.tablePoolUsed ≥ st.ctx.tablePoolPages then (st, 0)
  else
    let page := u64 (st.ctx.tablePoolPhys + st.ctx.tablePoolUsed * liminePageSize)
    ((st.setUsed (st.ctx.tablePoolUsed + 1)).zeroPage page, page)

/-- The table that an entry leads to, a new one when the entry is not present. -/
def nextLevel (st : PagingState) (tablePhys index : Nat) : PagingState × Nat :=
  let entry := st.word (tablePhys + 8 * index)
  if entry &&& ptePresent ≠ 0 then (st, entry &&& pteAddrMask)
  else
    let (st, next) := allocTable st
    if next = 0 then (st, 0)
    else (st.setWord (tablePhys + 8 * index) (next ||| ptePresent ||| pteWrite), next)

def limineMapPage (st : PagingState) (virt phys flags : Nat) (large : Bool) :
    Except EfiStatus PagingState :=
  if st.ctx.pml4Phys = 0 then .error .invalidParameter
  else
    let (st, pdpt) := nextLevel st st.ctx.pml4Phys (pml4Index virt)
    if pdpt = 0 then .error .outOfResources
    else
      let (st, pd) := nextLevel st pdpt (pdptIndex virt)
      if pd = 0 then .error .outOfResources
      else if large then
        .ok (st.setWord (pd + 8 * pdIndex virt)
          (phys &&& (2 ^ 64 - limineLargePageSize) ||| flags ||| pteLarge))
      else
        let (st, pt) := nextLevel st pd (pdIndex virt)
        if pt = 0 then .error .outOfResources
        else .ok (st.setWord (pt + 8 * ptIndex virt) (phys &&& pteAddrMask ||| flags))

/-- The memory types that the direct map has to reach. -/
def isMapped (efiType : Nat) : Bool :=
  efiType ∈ [1, 2, 3, 4, 5, 6, 7, 9, 10, 14]

/-- `HighestPhysicalAddress` over the firmware's memory map, `none` when it cannot be had. -/
def highestPhysicalAddress : Option (List EfiMemoryDescriptor) → Nat
  | none => 0
  | some descs =>
    let highest := descs.foldl (fun highest desc =>
      if isMapped desc.type then
        let limit := u64 (desc.physicalStart + u64 (desc.numberOfPages * liminePageSize))
        if limit > highest then limit else highest
      else highest) 0
    u64 (highest + limineLargePageSize - 1) &&& (2 ^ 64 - limineLargePageSize)

/-- The values of a loop counter from `start` below `stop` by `step`. -/
def offsets (start stop step : Nat) : List Nat :=
  (List.range ((stop - start + step - 1) / step)).map fun k => start + step * k

/-- The large page of the direct map at an offset. -/
def mapDirect (flags : Nat) (st : PagingState) (offset : Nat) : Except EfiStatus PagingState :=
  limineMapPage st (u64 (limineHhdmBase + offset)) offset flags true

/-- The page of the kernel's image at an offset. -/
def mapImage (imageVirt imagePhys : Nat) (st : PagingState) (offset : Nat) :
    Except EfiStatus PagingState :=
  limineMapPage st (u64 (imageVirt + offset)) (u64 (imagePhys + offset)) (ptePresent ||| pteWrite) false

/-- The framebuffer's large pages, mapped again as write-combining. -/
def mapFramebuffer (st : PagingState) : Except EfiStatus PagingState :=
  if st.ctx.fbPhys ≠ 0 ∧ st.ctx.fbSize ≠ 0 then
    let fbStart := st.ctx.fbPhys &&& (2 ^ 64 - limineLargePageSize)
    let fbEnd := u64 (st.ctx.fbPhys + st.ctx.fbSize + limineLargePageSize - 1) &&&
      (2 ^ 64 - limineLargePageSize)
    if fbEnd ≤ limineMaxDirectMap then
      (offsets fbStart fbEnd limineLargePageSize).foldlM
        (mapDirect (ptePresent ||| pteWrite ||| pteWcLarge)) st
    else .ok st
  else .ok st

/-- The low half's entry for the direct map. -/
def aliasLow (st : PagingState) : PagingState :=
  st.setWord st.ctx.pml4Phys (st.word (st.ctx.pml4Phys + 8 * pml4Index limineHhdmBase))

/-- The tables in a pool with room for them, the root included. -/
def fillTables (st : PagingState) (highest : Nat) : Except EfiStatus PagingState := do
  let st ← (offsets 0 highest limineLargePageSize).foldlM (mapDirect (ptePresent ||| pteWrite)) st
  let st ← mapFramebuffer st
  let st := aliasLow st
  (offsets 0 st.ctx.imageSize liminePageSize).foldlM (mapImage st.ctx.imageVirt st.ctx.imagePhys) st

/-- `LimineBuildPageTables`, with the firmware's memory map and its allocation of the pool. -/
def limineBuildPageTables (map : Option (List EfiMemoryDescriptor))
    (allocatePages : Nat → Except EfiStatus Nat) (st : PagingState) : Except EfiStatus PagingState := do
  if st.ctx.imagePhys = 0 then throw .invalidParameter
  let st := st.setHhdm limineHhdmBase
  let highest := highestPhysicalAddress map
  if highest = 0 then throw .deviceError
  if highest > limineMaxDirectMap then throw .unsupported
  let poolPages := highest / (1024 * 1024 * 1024) + limineTablePoolSlack +
    st.ctx.imageSize / limineLargePageSize
  let pool ← allocatePages poolPages
  let (st, pml4) := allocTable (st.setPool pool poolPages)
  let st := st.setPml4 pml4
  if pml4 = 0 then throw .outOfResources
  fillTables st highest

/-! ### The processor's walk -/

/-- The page frame of an entry: bits 51 down to `shift`. -/
def frame (shift entry : Nat) : Nat := entry % 2 ^ 52 / 2 ^ shift * 2 ^ shift

def present (entry : Nat) : Bool := entry.testBit 0

/-- The page-size bit. -/
def pageSize (entry : Nat) : Bool := entry.testBit 7

/-- An address with bits 63 down to 47 alike. -/
def canonical (virt : Nat) : Bool := decide (virt < 2 ^ 47) || decide (2 ^ 64 - 2 ^ 47 ≤ virt)

/-- The entry with index `index` of a table, when it is present. -/
def entryOf (word : Nat → Nat) (table index : Nat) : Option Nat :=
  let entry := word (table + 8 * index)
  if present entry then some entry else none

/-- The 4-level translation from the root table: the physical address and the entry of the page. -/
def translate (word : Nat → Nat) (cr3 virt : Nat) : Option (Nat × Nat) := do
  if !canonical virt then none
  let e4 ← entryOf word cr3 (virt / 2 ^ 39 % 512)
  let e3 ← entryOf word (frame 12 e4) (virt / 2 ^ 30 % 512)
  if pageSize e3 then return (frame 30 e3 + virt % 2 ^ 30, e3)
  let e2 ← entryOf word (frame 12 e3) (virt / 2 ^ 21 % 512)
  if pageSize e2 then return (frame 21 e2 + virt % 2 ^ 21, e2)
  let e1 ← entryOf word (frame 12 e2) (virt / 2 ^ 12 % 512)
  return (frame 12 e1 + virt % 2 ^ 12, e1)

/-- The table that the entries along the path lead to. -/
def tableAt (word : Nat → Nat) (cr3 : Nat) (path : List Nat) : Option Nat :=
  path.foldlM (fun table index => do
    let entry ← entryOf word table index
    if pageSize entry then none else some (frame 12 entry)) cr3

end Meridian.Limine
