import Meridian.Lib.Codec
import Meridian.Lib.Reader

/-!
# The menu cache's file format

The model of the records, `SerializeRecords` and `ParseBuffer` of `kernel/cache.c`. The checksum is
the firmware library's and stays a parameter; `alloc` says which allocations succeed.
-/

namespace Meridian.Cache

open Lib.Codec Lib.Reader

/-- `EFI_GUID`. -/
structure Guid where
  bytes : List UInt8
  size : bytes.length = 16
  deriving DecidableEq

def zeroGuid : Guid := ⟨List.replicate 16 0, rfl⟩

/-- `CACHE_RECORD`, with the characters of each string, `none` for a null pointer. -/
structure CacheRecord where
  osType : UInt8
  tag : UInt32
  row : UInt32
  partGuid : Guid
  volUuid : Guid
  title : Option (List UInt16)
  loaderPath : Option (List UInt16)
  loadOptions : Option (List UInt16)
  initrdPath : Option (List UInt16)
  loaderSize : UInt64
  loaderMtime : UInt64
  initrdSize : UInt64
  initrdMtime : UInt64
  deriving DecidableEq

inductive CacheStatus where
  | success | notFound | incompatibleVersion | crcError | outOfResources
  deriving DecidableEq, Repr

def cacheMagic : Nat := 0x4E454D4E4452454D
def cacheVersion : Nat := 5

/-- `sizeof(CACHE_FILE_HEADER)`. -/
def cacheHeaderSize : Nat := 36

/-- `CACHE_HEADER_CRC_LEN`. -/
def cacheHeaderCrcLen : Nat := 28

/-- `sizeof(CACHE_RECORD)`. -/
def cacheRecordSize : Nat := 112

structure CacheFileHeader where
  magic : Nat
  formatVersion : Nat
  fingerprint : Nat
  buildId : Nat
  entryCount : Nat
  flags : Nat
  headerCrc32 : Nat
  bodyCrc32 : Nat
  deriving DecidableEq, Repr

def CacheFileHeader.bytes (header : CacheFileHeader) : List UInt8 :=
  toLe 8 header.magic ++ (toLe 4 header.formatVersion ++ (toLe 4 header.fingerprint ++
    (toLe 4 header.buildId ++ (toLe 4 header.entryCount ++ (toLe 4 header.flags ++
      (toLe 4 header.headerCrc32 ++ toLe 4 header.bodyCrc32))))))

def CacheFileHeader.ofBytes (bytes : List UInt8) : CacheFileHeader where
  magic := ofLe (bytes.take 8)
  formatVersion := ofLe ((bytes.drop 8).take 4)
  fingerprint := ofLe ((bytes.drop 12).take 4)
  buildId := ofLe ((bytes.drop 16).take 4)
  entryCount := ofLe ((bytes.drop 20).take 4)
  flags := ofLe ((bytes.drop 24).take 4)
  headerCrc32 := ofLe ((bytes.drop 28).take 4)
  bodyCrc32 := ofLe ((bytes.drop 32).take 4)

/-! ### Writing -/

def appendBytes (buf data : List UInt8) : List UInt8 := buf ++ data

def appendU32 (buf : List UInt8) (value : Nat) : List UInt8 := appendBytes buf (toLe 4 value)

def appendU64 (buf : List UInt8) (value : Nat) : List UInt8 := appendBytes buf (toLe 8 value)

/-- `StrLen`: the characters before the first null. -/
def strLen (str : List UInt16) : Nat := (str.takeWhile (· ≠ 0)).length

/-- The characters in memory. -/
def charBytes (str : List UInt16) : List UInt8 := str.flatMap fun ch => toLe 2 ch.toNat

def appendStr (buf : List UInt8) (str : Option (List UInt16)) : List UInt8 :=
  let byteLen := match str with
    | some str => strLen str * 2 % 2 ^ 32
    | none => 0
  let buf := appendU32 buf byteLen
  if byteLen > 0 then appendBytes buf ((charBytes (str.getD [])).take byteLen) else buf

/-- The loop body of `SerializeRecords`. -/
def appendRecord (body : List UInt8) (record : CacheRecord) : List UInt8 :=
  let body := appendBytes body [record.osType]
  let body := appendU32 body record.tag.toNat
  let body := appendU32 body record.row.toNat
  let body := appendBytes body record.partGuid.bytes
  let body := appendBytes body record.volUuid.bytes
  let body := appendStr body record.title
  let body := appendStr body record.loaderPath
  let body := appendStr body record.loadOptions
  let body := appendStr body record.initrdPath
  let body := appendU64 body record.loaderSize.toNat
  let body := appendU64 body record.loaderMtime.toNat
  let body := appendU64 body record.initrdSize.toNat
  appendU64 body record.initrdMtime.toNat

/-- `(BodyLen > 0) ? CalculateCrc32(Body, BodyLen) : 0`. -/
def bodyCrcOf (crc : List UInt8 → UInt32) (body : List UInt8) : Nat :=
  if body.length > 0 then (crc body).toNat else 0

def serializeRecords (crc : List UInt8 → UInt32) (alloc : Nat → Bool) (records : List CacheRecord)
    (fingerprint buildId : UInt32) : Except CacheStatus (List UInt8) :=
  let body := records.foldl appendRecord []
  let header : CacheFileHeader := {
    magic := cacheMagic
    formatVersion := cacheVersion
    fingerprint := fingerprint.toNat
    buildId := buildId.toNat
    entryCount := records.length % 2 ^ 32
    flags := 0
    headerCrc32 := 0
    bodyCrc32 := 0 }
  let header := { header with
    headerCrc32 := (crc (header.bytes.take cacheHeaderCrcLen)).toNat
    bodyCrc32 := bodyCrcOf crc body }
  if alloc (cacheHeaderSize + body.length) then .ok (header.bytes ++ body) else .error .outOfResources

/-! ### Reading -/

/-- `CACHE_CURSOR`. -/
abbrev CacheCursor := Cursor

/-- Copy bytes out of the buffer and step over them. -/
def copyOut (buf : List UInt8) (count : Nat) : Read (List UInt8) := fun c =>
  match slice buf c.cur count with
  | .ok bytes => .ok (bytes, ⟨c.cur + count, c.remaining - count⟩)
  | .error stop => .error stop

def readRaw (buf : List UInt8) (count : Nat) : Read (List UInt8) := fun c =>
  if c.remaining < count then .error .refused else copyOut buf count c

/-- Bytes as characters. -/
def toChars : List UInt8 → List UInt16
  | low :: high :: bytes => UInt16.ofNat (low.toNat + 256 * high.toNat) :: toChars bytes
  | _ => []

/-- The part of `readStr` after the length was read. -/
def readChars (buf : List UInt8) (alloc : Nat → Bool) (byteLen : Nat) : Read (Option (List UInt16)) :=
  fun c =>
    if byteLen = 0 then .ok (none, c)
    else if byteLen % 2 ≠ 0 ∨ byteLen > c.remaining then .error .refused
    else if !alloc (byteLen + 2) then .error .refused
    else
      match copyOut buf byteLen c with
      | .ok (bytes, c) => .ok (some (toChars bytes), c)
      | .error stop => .error stop

def readStr (buf : List UInt8) (alloc : Nat → Bool) : Read (Option (List UInt16)) := do
  let byteLen ← readRaw buf 4
  readChars buf alloc (ofLe byteLen)

def readU8 (buf : List UInt8) : Read UInt8 := do
  let bytes ← readRaw buf 1
  pure (UInt8.ofNat (ofLe bytes))

def readU32 (buf : List UInt8) : Read UInt32 := do
  let bytes ← readRaw buf 4
  pure (UInt32.ofNat (ofLe bytes))

def readU64 (buf : List UInt8) : Read UInt64 := do
  let bytes ← readRaw buf 8
  pure (UInt64.ofNat (ofLe bytes))

def readGuid (buf : List UInt8) : Read Guid := do
  let bytes ← readRaw buf 16
  if size : bytes.length = 16 then pure ⟨bytes, size⟩ else refuse

/-- The reads of one record, in the order of the loop body of `ParseBuffer`. -/
def readRecord (buf : List UInt8) (alloc : Nat → Bool) : Read CacheRecord := do
  let osType ← readU8 buf
  let tag ← readU32 buf
  let row ← readU32 buf
  let partGuid ← readGuid buf
  let volUuid ← readGuid buf
  let title ← readStr buf alloc
  let loaderPath ← readStr buf alloc
  let loadOptions ← readStr buf alloc
  let initrdPath ← readStr buf alloc
  let loaderSize ← readU64 buf
  let loaderMtime ← readU64 buf
  let initrdSize ← readU64 buf
  let initrdMtime ← readU64 buf
  pure {
    osType, tag, row, partGuid, volUuid, title, loaderPath, loadOptions, initrdPath,
    loaderSize, loaderMtime, initrdSize, initrdMtime }

/-- What `ParseBuffer` returns and leaves in its out-parameters. -/
structure Parsed where
  status : CacheStatus
  records : List CacheRecord := []
  count : Nat := 0
  failReason : Option String := none
  deriving DecidableEq

def Parsed.fail (reason : String) (status : CacheStatus) : Parsed :=
  { status := status, failReason := some reason }

/-- The checks and the record loop, for a buffer that a header fits. -/
def parseFile (crc : List UInt8 → UInt32) (alloc : Nat → Bool) (buf : List UInt8)
    (expectedFingerprint expectedBuildId : UInt32) : Except Stop Parsed := do
  let headerBytes ← slice buf 0 cacheHeaderSize
  let header := CacheFileHeader.ofBytes headerBytes
  if header.magic ≠ cacheMagic then return .fail "bad magic" .notFound
  if header.formatVersion ≠ cacheVersion then return .fail "version mismatch" .incompatibleVersion
  if header.headerCrc32 ≠ (crc (headerBytes.take cacheHeaderCrcLen)).toNat then
    return .fail "header crc" .crcError
  if header.buildId ≠ expectedBuildId.toNat then return .fail "build changed" .incompatibleVersion
  let body ← slice buf cacheHeaderSize (buf.length - cacheHeaderSize)
  if header.bodyCrc32 ≠ bodyCrcOf crc body then return .fail "body crc" .crcError
  if header.fingerprint ≠ expectedFingerprint.toNat then return .fail "fp mismatch" .notFound
  if header.entryCount = 0 then return .fail "empty" .notFound
  if !alloc (header.entryCount * cacheRecordSize) then return .fail "no memory" .outOfResources
  match readMany (readRecord buf alloc) header.entryCount
      ⟨cacheHeaderSize, buf.length - cacheHeaderSize⟩ with
  | .ok (records, _) => return { status := .success, records, count := header.entryCount }
  | .error .refused => return .fail "corrupt record" .crcError
  | .error .outOfBounds => .error .outOfBounds

def parseBuffer (crc : List UInt8 → UInt32) (alloc : Nat → Bool) (buf : Option (List UInt8))
    (expectedFingerprint expectedBuildId : UInt32) : Except Stop Parsed :=
  match buf with
  | none => .ok (.fail "truncated/empty" .notFound)
  | some buf =>
    if buf.length < cacheHeaderSize then .ok (.fail "truncated/empty" .notFound)
    else parseFile crc alloc buf expectedFingerprint expectedBuildId

end Meridian.Cache
