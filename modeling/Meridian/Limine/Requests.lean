import Meridian.Limine.Memmap

/-!
# Answering the kernel's requests

The model of `loaders/limine/requests.c`: the requests found in the kernel's image are answered
one after another with responses from a bump-allocated arena, and the memory map responses are
completed by `LimineFillMemmap` at the hand-off. Memory is modelled by what is stored in it: the
image as 64-bit words by address, the arena as objects by address. The firmware's answers are the
environment; an answer may differ from one request to the next, so it is keyed by the request.
-/

namespace Meridian.Limine

open Lib.Word

inductive LimineRequestKind where
  | bootloaderInfo | executableCmdline | firmwareType | stackSize | hhdm | framebuffer | pagingMode
  | mp | memmap | entryPoint | executableFile | module | rsdp | smbios | efiSystemTable | efiMemmap
  | dateAtBoot | executableAddress
  deriving DecidableEq, Repr

structure EfiGuid where
  data1 : Nat
  data2 : Nat
  data3 : Nat
  data4 : List Nat
  deriving DecidableEq, Repr

inductive EfiPixelFormat where
  | redGreenBlueReserved8BitPerColor | blueGreenRedReserved8BitPerColor | bitMask | bltOnly
  deriving DecidableEq, Repr

/-- The mode of the graphics output protocol. -/
structure GraphicsMode where
  pixelFormat : EfiPixelFormat
  horizontalResolution : Nat
  verticalResolution : Nat
  pixelsPerScanLine : Nat
  frameBufferBase : Nat
  frameBufferSize : Nat

structure EfiTime where
  year : Nat
  month : Nat
  day : Nat
  hour : Nat
  minute : Nat
  second : Nat

structure VolumeIds where
  volUuid : EfiGuid
  partGuid : EfiGuid

/-- What the loader reads from the firmware and from the boot entry. -/
structure Env where
  cmdline : Option (List Nat)
  loaderPath : Option (List Nat)
  volume : Option VolumeIds
  versionString : List Nat
  systemTable : Nat
  configurationTable : List (EfiGuid × Nat)
  graphics : Option GraphicsMode
  /-- The clock, when a request reads it. -/
  getTime : Nat → Option EfiTime
  /-- Pages for a request, by their number. -/
  allocatePages : Nat → Nat → Option Nat
  /-- Map and descriptor size, when a request asks and the firmware refuses the empty buffer. -/
  memoryMapSize : Nat → Option (Nat × Nat)
  /-- The pages for the kernel's stack. -/
  stackPages : Nat → Option Nat
  gdtPage : Option Nat
  /-- The pages for the descriptor table register and the final memory map. -/
  scratchPages : Option Nat
  /-- The memory map with which the boot services were left. -/
  exitBootServices : Option EfiMemoryMap

structure LimineFramebuffer where
  address : Nat
  width : Nat
  height : Nat
  pitch : Nat
  bpp : Nat
  memoryModel : Nat
  redMaskSize : Nat
  redMaskShift : Nat
  greenMaskSize : Nat
  greenMaskShift : Nat
  blueMaskSize : Nat
  blueMaskShift : Nat
  modeCount : Nat
  modes : Nat

structure LimineFile where
  address : Nat
  size : Nat
  path : Nat
  string : Nat
  mediaType : Nat
  gptDiskUuid : Option EfiGuid
  gptPartUuid : Option EfiGuid
  partUuid : Option EfiGuid

/-- The responses, each of revision zero. -/
inductive LimineResponse where
  | bootloaderInfo (name version : Nat)
  | executableCmdline (cmdline : Nat)
  | firmwareType (firmwareType : Nat)
  | stackSize
  | hhdm (offset : Nat)
  | framebuffer (framebufferCount framebuffers : Nat)
  | pagingMode (mode : Nat)
  | memmap (response : LimineMemmapResponse)
  | entryPoint
  | executableFile (executableFile : Nat)
  | module (moduleCount modules : Nat)
  | rsdp (address : Nat)
  | smbios (entry32 entry64 : Nat)
  | efiSystemTable (address : Nat)
  | efiMemmap (response : LimineEfiMemmapResponse)
  | dateAtBoot (timestamp : Int)
  | executableAddress (physicalBase virtualBase : Nat)

def LimineResponse.kind : LimineResponse → LimineRequestKind
  | .bootloaderInfo _ _ => .bootloaderInfo
  | .executableCmdline _ => .executableCmdline
  | .firmwareType _ => .firmwareType
  | .stackSize => .stackSize
  | .hhdm _ => .hhdm
  | .framebuffer _ _ => .framebuffer
  | .pagingMode _ => .pagingMode
  | .memmap _ => .memmap
  | .entryPoint => .entryPoint
  | .executableFile _ => .executableFile
  | .module _ _ => .module
  | .rsdp _ => .rsdp
  | .smbios _ _ => .smbios
  | .efiSystemTable _ => .efiSystemTable
  | .efiMemmap _ => .efiMemmap
  | .dateAtBoot _ => .dateAtBoot
  | .executableAddress _ _ => .executableAddress

/-- The size of the structure in the arena. -/
def LimineRequestKind.responseSize : LimineRequestKind → Nat
  | .bootloaderInfo | .framebuffer | .memmap | .module | .smbios | .executableAddress => 24
  | .executableCmdline | .firmwareType | .hhdm | .pagingMode | .executableFile | .rsdp
  | .efiSystemTable | .dateAtBoot => 16
  | .stackSize | .entryPoint => 8
  | .efiMemmap => 40
  | .mp => 0  -- never answered

inductive LimineObject where
  | response (response : LimineResponse)
  | file (file : LimineFile)
  | framebuffer (framebuffer : LimineFramebuffer)
  | string (chars : List Nat)
  | entries (entries : List LimineMemmapEntry)
  | pointers (pointers : List Nat)

/-- A request whose `Response` was set, and the address of its response. -/
structure Answer where
  request : Nat
  kind : LimineRequestKind
  response : Nat

structure LimineState where
  ctx : LimineCtx
  /-- The words of the kernel's image, by address. -/
  word : Nat → Nat
  /-- The objects in the arena, by address. -/
  object : Nat → Option LimineObject := fun _ => none
  /-- The requests answered so far. -/
  answered : List Answer := []

namespace LimineState

def put (st : LimineState) (ptr : Nat) (obj : LimineObject) : LimineState :=
  { st with object := Function.update st.object ptr (some obj) }

def setWord (st : LimineState) (addr value : Nat) : LimineState :=
  { st with word := Function.update st.word addr value }

/-- `Req->Response = TO_VIRT(Ctx, Rsp)`. -/
def respond (st : LimineState) (req : Nat) (rsp : Nat) (response : LimineResponse) : LimineState :=
  let st := (st.put rsp (.response response)).setWord (req + 40) (toVirt st.ctx rsp)
  { st with answered := st.answered ++ [⟨req, response.kind, rsp⟩] }

def setStackSize (st : LimineState) (size : Nat) : LimineState :=
  { st with ctx := { st.ctx with stackSize := size } }

def setEntryPoint (st : LimineState) (entry : Nat) : LimineState :=
  { st with ctx := { st.ctx with entryPoint := entry } }

def setFb (st : LimineState) (phys size : Nat) : LimineState :=
  { st with ctx := { st.ctx with fbPhys := phys, fbSize := size } }

def setExecFile (st : LimineState) (phys pages : Nat) : LimineState :=
  { st with ctx := { st.ctx with execFilePhys := phys, execFilePages := pages } }

def setMemmap (st : LimineState) (response entries pointers maxEntries : Nat) : LimineState :=
  { st with ctx := { st.ctx with
    memmapResponse := response
    memmapEntries := entries
    memmapPointers := pointers
    memmapMaxEntries := maxEntries } }

/-- The page tables built between the answers and the hand-off. -/
def setTables (st : LimineState) (pml4Phys poolPhys poolPages poolUsed : Nat) : LimineState :=
  { st with ctx := { st.ctx with
    pml4Phys := pml4Phys
    tablePoolPhys := poolPhys
    tablePoolPages := poolPages
    tablePoolUsed := poolUsed } }

def setEfiMemmapBuffer (st : LimineState) (buffer : Nat) : LimineState :=
  { st with ctx := { st.ctx with efiMemmapBuffer := buffer } }

def setEfiMemmapResponse (st : LimineState) (response : Nat) : LimineState :=
  { st with ctx := { st.ctx with efiMemmapResponse := response } }

end LimineState

/-! ### The arena -/

def limineArenaAlloc (ctx : LimineCtx) (size align : Nat) : LimineCtx × Nat :=
  if ctx.arena = 0 ∨ align = 0 then (ctx, 0)
  else
    let offset := u64 (ctx.arenaUsed + align - 1) &&& (2 ^ 64 - align)
    if u64 (offset + size) > ctx.arenaSize then (ctx, 0)
    else ({ ctx with arenaUsed := u64 (offset + size) }, u64 (ctx.arena + offset))

def LimineState.alloc (st : LimineState) (size align : Nat) : LimineState × Nat :=
  let (ctx, ptr) := limineArenaAlloc st.ctx size align
  ({ st with ctx := ctx }, ptr)

/-- A string copied to the arena with its terminator; null when there is no room. -/
def arenaString (st : LimineState) (chars : List Nat) : LimineState × Nat :=
  let (st, dst) := st.alloc (chars.length + 1) 1
  if dst = 0 then (st, 0) else (st.put dst (.string (chars ++ [0])), toVirt st.ctx dst)

def arenaAscii (st : LimineState) (src : List Nat) : LimineState × Nat := arenaString st src

def arenaAsciiFromUcs2 (st : LimineState) : Option (List Nat) → LimineState × Nat
  | none => (st, 0)
  | some src => arenaString st (src.map fun c => if c < 0x80 then c else 0x3F)

/-- A response allocated and filled, when there is room for it. -/
def answer (st : LimineState) (req : Nat) (kind : LimineRequestKind)
    (body : LimineState → LimineState × LimineResponse) : LimineState :=
  let (st, rsp) := st.alloc kind.responseSize 8
  if rsp = 0 then st
  else
    let (st, response) := body st
    st.respond req rsp response

/-! ### The answers -/

variable (env : Env)

/-- `"Meridian"`. -/
def bootloaderName : List Nat := [77, 101, 114, 105, 100, 105, 97, 110]

def answerBootloaderInfo (st : LimineState) (req : Nat) : LimineState :=
  answer st req .bootloaderInfo fun st =>
    let (st, name) := arenaAscii st bootloaderName
    let (st, version) := arenaAscii st env.versionString
    (st, .bootloaderInfo name version)

/-- The command line as a string, empty when there is none. -/
def cmdlineString (st : LimineState) : LimineState × Nat :=
  match env.cmdline with
  | some cmdline => arenaAsciiFromUcs2 st (some cmdline)
  | none => arenaAscii st []

def answerCmdline (st : LimineState) (req : Nat) : LimineState :=
  answer st req .executableCmdline fun st =>
    let (st, cmdline) := cmdlineString env st
    (st, .executableCmdline cmdline)

/-- `LIMINE_FIRMWARE_TYPE_EFI64` is 2. -/
def answerFirmwareType (st : LimineState) (req : Nat) : LimineState :=
  answer st req .firmwareType fun st => (st, .firmwareType 2)

def answerHhdm (st : LimineState) (req : Nat) : LimineState :=
  answer st req .hhdm fun st => (st, .hhdm st.ctx.hhdmOffset)

def answerExecutableAddress (st : LimineState) (req : Nat) : LimineState :=
  answer st req .executableAddress fun st => (st, .executableAddress st.ctx.imagePhys st.ctx.imageVirt)

def answerStackSize (st : LimineState) (req : Nat) : LimineState :=
  let wanted := st.word (req + 48)
  let st := if wanted > st.ctx.stackSize then st.setStackSize wanted else st
  answer st req .stackSize fun st => (st, .stackSize)

def answerEntryPoint (st : LimineState) (req : Nat) : LimineState :=
  let entry := st.word (req + 48)
  let st := if entry ≠ 0 then st.setEntryPoint entry else st
  answer st req .entryPoint fun st => (st, .entryPoint)

/-- `LIMINE_PAGING_MODE_X86_64_4LVL` is 0. -/
def answerPagingMode (st : LimineState) (req : Nat) : LimineState :=
  answer st req .pagingMode fun st => (st, .pagingMode 0)

def framebufferOf (ctx : LimineCtx) (mode : GraphicsMode) : LimineFramebuffer :=
  let rgb := mode.pixelFormat = .redGreenBlueReserved8BitPerColor
  { address := u64 (mode.frameBufferBase + ctx.hhdmOffset)
    width := mode.horizontalResolution
    height := mode.verticalResolution
    pitch := mode.pixelsPerScanLine * (32 / 8)
    bpp := 32
    memoryModel := 1
    redMaskSize := 8
    redMaskShift := if rgb then 0 else 16
    greenMaskSize := 8
    greenMaskShift := 8
    blueMaskSize := 8
    blueMaskShift := if rgb then 16 else 0
    modeCount := 0
    modes := 0 }

def answerFramebuffer (st : LimineState) (req : Nat) : LimineState :=
  match env.graphics with
  | none => st
  | some mode =>
    if mode.pixelFormat ≠ .redGreenBlueReserved8BitPerColor ∧
        mode.pixelFormat ≠ .blueGreenRedReserved8BitPerColor then st
    else
      let (st, rsp) := st.alloc (LimineRequestKind.responseSize .framebuffer) 8
      let (st, fb) := st.alloc 80 8
      let (st, array) := st.alloc 8 8
      if rsp = 0 ∨ fb = 0 ∨ array = 0 then st
      else
        let st := st.put fb (.framebuffer (framebufferOf st.ctx mode))
        let st := st.put array (.pointers [toVirt st.ctx fb])
        let st := st.respond req rsp (.framebuffer 1 (toVirt st.ctx array))
        st.setFb mode.frameBufferBase mode.frameBufferSize

def limineAcpi20Guid : EfiGuid :=
  ⟨0x8868e871, 0xe4f1, 0x11d3, [0xbc, 0x22, 0x00, 0x80, 0xc7, 0x3c, 0x88, 0x81]⟩

def limineAcpi10Guid : EfiGuid :=
  ⟨0xeb9d2d30, 0x2d88, 0x11d3, [0x9a, 0x16, 0x00, 0x90, 0x27, 0x3f, 0xc1, 0x4d]⟩

def limineSmbiosGuid : EfiGuid :=
  ⟨0xeb9d2d31, 0x2d88, 0x11d3, [0x9a, 0x16, 0x00, 0x90, 0x27, 0x3f, 0xc1, 0x4d]⟩

def limineSmbios3Guid : EfiGuid :=
  ⟨0xf2fd1544, 0x9794, 0x4a2c, [0x99, 0x2e, 0xe5, 0xbb, 0xcf, 0x20, 0xe3, 0x94]⟩

/-- The table under the identifier, null when the firmware has none. -/
def findConfigTable (guid : EfiGuid) : Nat :=
  ((env.configurationTable.find? fun table => table.1 = guid).map Prod.snd).getD 0

def answerRsdp (st : LimineState) (req : Nat) : LimineState :=
  let rsdp := findConfigTable env limineAcpi20Guid
  let rsdp := if rsdp = 0 then findConfigTable env limineAcpi10Guid else rsdp
  if rsdp = 0 then st else answer st req .rsdp fun st => (st, .rsdp rsdp)

def answerSmbios (st : LimineState) (req : Nat) : LimineState :=
  let entry32 := findConfigTable env limineSmbiosGuid
  let entry64 := findConfigTable env limineSmbios3Guid
  if entry32 = 0 ∧ entry64 = 0 then st
  else answer st req .smbios fun st => (st, .smbios entry32 entry64)

def answerEfiSystemTable (st : LimineState) (req : Nat) : LimineState :=
  answer st req .efiSystemTable fun st => (st, .efiSystemTable env.systemTable)

/-- The response is left for `limineFillMemmap` to complete. -/
def answerEfiMemmap (st : LimineState) (req : Nat) : LimineState :=
  let (st, rsp) := st.alloc (LimineRequestKind.responseSize .efiMemmap) 8
  if rsp = 0 then st
  else (st.setEfiMemmapResponse rsp).respond req rsp (.efiMemmap {})

/-- Seconds since 1970 of a calendar date, with the divisions of C. -/
def unixTimeFromEfi (time : EfiTime) : Int :=
  let month : Int := time.month
  let day : Int := time.day
  let year : Int := (time.year : Int) - if month ≤ 2 then 1 else 0
  let era := (if year ≥ 0 then year else year - 399).tdiv 400
  let yoe := year - era * 400
  let doy := (153 * (month + if month > 2 then -3 else 9) + 2).tdiv 5 + day - 1
  let doe := yoe * 365 + yoe.tdiv 4 - yoe.tdiv 100 + doy
  let days := era * 146097 + doe - 719468
  days * 86400 + (time.hour : Int) * 3600 + (time.minute : Int) * 60 + (time.second : Int)

def answerDateAtBoot (st : LimineState) (req : Nat) : LimineState :=
  match env.getTime req with
  | none => st
  | some time => answer st req .dateAtBoot fun st => (st, .dateAtBoot (unixTimeFromEfi time))

def fillLimineFile (st : LimineState) (address size : Nat) : LimineState × LimineFile :=
  let (st, path) := arenaAsciiFromUcs2 st env.loaderPath
  let (st, string) := cmdlineString env st
  (st,
    { address := address
      size := size
      path := path
      string := string
      mediaType := 0
      gptDiskUuid := env.volume.map VolumeIds.volUuid
      gptPartUuid := env.volume.map VolumeIds.partGuid
      partUuid := env.volume.map VolumeIds.partGuid })

def answerExecutableFile (st : LimineState) (req : Nat) : LimineState :=
  if st.ctx.fileData = 0 ∨ st.ctx.fileSize = 0 then st
  else
    let pages := u64 (st.ctx.fileSize + liminePageSize - 1) / liminePageSize
    match env.allocatePages req pages with
    | none => st
    | some copy =>
      let st := st.setExecFile copy pages
      let (st, rsp) := st.alloc (LimineRequestKind.responseSize .executableFile) 8
      let (st, file) := st.alloc 112 8
      if rsp = 0 ∨ file = 0 then st
      else
        let (st, contents) := fillLimineFile env st (u64 (copy + st.ctx.hhdmOffset)) st.ctx.fileSize
        let st := st.put file (.file contents)
        st.respond req rsp (.executableFile (toVirt st.ctx file))

def answerModules (st : LimineState) (req : Nat) : LimineState :=
  answer st req .module fun st => (st, .module 0 0)

/-- `LIMINE_MEMMAP_SLACK`. -/
def limineMemmapSlack : Nat := 64

/-- The number of entries reserved for a map of this size. -/
def reservedEntries (mapSize descSize : Nat) : Nat := u64 (mapSize / descSize + limineMemmapSlack)

def reserveMemmap (st : LimineState) (req : Nat) : LimineState :=
  match env.memoryMapSize req with
  | none => st
  | some (mapSize, descSize) =>
    if descSize = 0 then st
    else
      let count := reservedEntries mapSize descSize
      let (st, rsp) := st.alloc (LimineRequestKind.responseSize .memmap) 8
      let (st, entries) := st.alloc (u64 (count * limineMemmapEntrySize)) 8
      let (st, pointers) := st.alloc (u64 (count * 8)) 8
      if rsp = 0 ∨ entries = 0 ∨ pointers = 0 then st
      else (st.setMemmap rsp entries pointers count).respond req rsp (.memmap {})

/-! ### Finding and dispatching the requests -/

/-- The request with these two words of its identifier. -/
def requestKind (id2 id3 : Nat) : Option LimineRequestKind :=
  match id2, id3 with
  | 0xf55038d8e2a1202f, 0x279426fcf5f59740 => some .bootloaderInfo
  | 0x4b161536e598651e, 0xb390ad4a2f1f303a => some .executableCmdline
  | 0x8c2f75d90bef28a8, 0x7045a4688eac00c3 => some .firmwareType
  | 0x224ef0460a8e8926, 0xe1cb0fc25f46ea3d => some .stackSize
  | 0x48dcf1cb8ad2b852, 0x63984e959a98244b => some .hhdm
  | 0x9d5827dcd881dd75, 0xa3148604f6fab11b => some .framebuffer
  | 0x95c1a0edab0944cb, 0xa4e5cb3842f7488a => some .pagingMode
  | 0x67cf3d9d378a806f, 0xe304acdfc50c3c62 => some .memmap
  | 0x13d86c035a1cd3e1, 0x2b0caa89d8f3026a => some .entryPoint
  | 0xad97e90e83f1ed67, 0x31eb5d1c5ff23b69 => some .executableFile
  | 0x3e7e279702be32af, 0xca1c4f3bd1280cee => some .module
  | 0xc5e77b6b397e7b43, 0x27637845accdcf3c => some .rsdp
  | 0x9e9046f11e095391, 0xaa4a520fefbde5ee => some .smbios
  | 0x5ceba5163eaaf6d6, 0x0a6981610cf65fcc => some .efiSystemTable
  | 0x7df62a431d6872d5, 0xa4fcdfb3e57306c8 => some .efiMemmap
  | 0x71ba76863cc55f63, 0xb2644a48c516a487 => some .executableAddress
  | 0x502746e184c088aa, 0xfbc5ec83e6327893 => some .dateAtBoot
  | 0x95a67b819a1b857e, 0xa0b61b723b6a73e0 => some .mp
  | _, _ => none

def dispatchRequest (st : LimineState) (req : Nat) : LimineState :=
  match requestKind (st.word (req + 16)) (st.word (req + 24)) with
  | some .bootloaderInfo => answerBootloaderInfo env st req
  | some .executableCmdline => answerCmdline env st req
  | some .firmwareType => answerFirmwareType st req
  | some .stackSize => answerStackSize st req
  | some .hhdm => answerHhdm st req
  | some .framebuffer => answerFramebuffer env st req
  | some .pagingMode => answerPagingMode st req
  | some .memmap => reserveMemmap env st req
  | some .entryPoint => answerEntryPoint st req
  | some .executableFile => answerExecutableFile env st req
  | some .module => answerModules st req
  | some .rsdp => answerRsdp env st req
  | some .smbios => answerSmbios env st req
  | some .efiSystemTable => answerEfiSystemTable env st req
  | some .efiMemmap => answerEfiMemmap st req
  | some .executableAddress => answerExecutableAddress st req
  | some .dateAtBoot => answerDateAtBoot env st req
  | some .mp => st
  | none => st

/-- The addresses of the words at which a structure of `span + 1` words still fits. -/
def candidates (start words span : Nat) : List Nat :=
  (List.range (words - span)).map fun i => start + 8 * i

/-- `LIMINE_MAX_BASE_REVISION`. -/
def limineMaxBaseRevision : Nat := 4

def handleBaseRevision (st : LimineState) (tag : Nat) : LimineState :=
  let wanted := st.word (tag + 16)
  let st := { st with ctx := { st.ctx with baseRevisionTag := tag } }
  if wanted ≤ limineMaxBaseRevision then
    { st.setWord (tag + 16) 0 with ctx := { st.ctx with baseRevision := wanted } }
  else
    { st.setWord (tag + 8) limineMaxBaseRevision with
      ctx := { st.ctx with baseRevision := limineMaxBaseRevision } }

def isBaseRevision (st : LimineState) (addr : Nat) : Bool :=
  st.word addr == 0xf9562b2d5c95a6c8 && st.word (addr + 8) == 0x6a7b384944536bdc

def isRequestsStart (st : LimineState) (addr : Nat) : Bool :=
  st.word addr == 0xf6b8f4b39de7d1ae && st.word (addr + 8) == 0xfab91a6940fcb9cf &&
    st.word (addr + 16) == 0x785c6ed015d3e316 && st.word (addr + 24) == 0x181e920a7852b9d9

def isRequestsEnd (st : LimineState) (addr : Nat) : Bool :=
  st.word addr == 0xadc0e0531bb10d03 && st.word (addr + 8) == 0x9572709f31764c62

def narrowSearchArea (st : LimineState) : LimineState :=
  let area := (candidates st.ctx.imagePhys (st.ctx.imageSize / 8) 3).foldl
    (fun (area : Nat × Nat) addr =>
      if isRequestsStart st addr then (addr + 32, area.2)
      else if isRequestsEnd st addr then (area.1, addr)
      else area) (0, 0)
  if area.1 ≠ 0 ∧ area.2 ≠ 0 ∧ area.2 > area.1 then
    { st with ctx := { st.ctx with reqSearchStart := area.1, reqSearchEnd := area.2 } }
  else st

/-- One iteration of the search: a request is dispatched where the common magic is found. -/
def searchStep (st : LimineState) (addr : Nat) : LimineState :=
  if st.word addr ≠ 0xc7b1dd30df4c8b88 ∨ st.word (addr + 8) ≠ 0x0a82e883a194f07b then st
  else dispatchRequest env st addr

/-- The words of the search area at which a request may start. -/
def searched (st : LimineState) : List Nat :=
  candidates st.ctx.reqSearchStart (sub64 st.ctx.reqSearchEnd st.ctx.reqSearchStart / 8) 5

/-- `LIMINE_DEFAULT_STACK_SIZE`. -/
def limineDefaultStackSize : Nat := 64 * 1024

/-- The part of `LimineAnswerRequests` before the requests are searched. -/
def prepareSearch (st : LimineState) : LimineState :=
  let st := { st with ctx := { st.ctx with baseRevision := 0, stackSize := limineDefaultStackSize } }
  let st :=
    match (candidates st.ctx.imagePhys (st.ctx.imageSize / 8) 2).find? (isBaseRevision st) with
    | some tag => handleBaseRevision st tag
    | none => st
  narrowSearchArea st

/-- The part of `LimineAnswerRequests` after the requests were answered. -/
def allocateStack (st : LimineState) : Option LimineState :=
  let stackSize := u64 (st.ctx.stackSize + liminePageSize - 1) &&& (2 ^ 64 - liminePageSize)
  (env.stackPages (stackSize / liminePageSize)).map fun stack =>
    { st with ctx := { st.ctx with stackSize := stackSize, stackPhys := stack } }

def limineAnswerRequests (st : LimineState) : Option LimineState :=
  if st.ctx.imagePhys = 0 ∨ st.ctx.arena = 0 then none
  else
    let st := prepareSearch st
    allocateStack env ((searched st).foldl (searchStep env) st)

/-! ### The hand-off -/

/-- The objects that a fill is written to. -/
def LimineState.write (st : LimineState) (fill : MemmapFill) : LimineState :=
  let ctx := st.ctx
  let st := st.put ctx.memmapEntries (.entries fill.entries)
  let st := st.put ctx.memmapPointers (.pointers fill.pointers)
  let st := st.put ctx.memmapResponse (.response (.memmap fill.response))
  match fill.efi with
  | some efi => st.put ctx.efiMemmapResponse (.response (.efiMemmap efi))
  | none => st

def LimineState.fill (st : LimineState) (map : EfiMemoryMap) : LimineState :=
  match limineFillMemmap st.ctx map with
  | some fill => st.write fill
  | none => st

/-- The part of `LimineHandoff` that still runs in the loader, up to the memory map. -/
def limineHandoff (st : LimineState) : Option LimineState :=
  if st.ctx.pml4Phys = 0 ∨ st.ctx.stackPhys = 0 ∨ st.ctx.entryPoint = 0 then none
  else
    match env.gdtPage, env.scratchPages, env.exitBootServices with
    | some _, some scratch, some map =>
      some ((st.setEfiMemmapBuffer (u64 (scratch + liminePageSize))).fill map)
    | _, _, _ => none

end Meridian.Limine
