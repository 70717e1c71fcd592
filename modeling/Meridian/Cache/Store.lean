import Meridian.Cache.RoundTrip
import Meridian.Storage.File

/-!
# Storing the menu

The model of `CacheStoreMenu` and of the reading part of `CacheLoadMenu` in `kernel/cache.c`, and
when the stored records come back from the file.
-/

namespace Meridian.Cache

open Lib.Reader Storage

/-- A string of the program, without its terminating null. -/
structure CString where
  chars : List UInt16
  nonnull : ∀ ch ∈ chars, ch ≠ 0
  deriving DecidableEq

/-- What the cache keeps of `MERIDIAN_VOLUME`. -/
structure MenuVolume (Root : Type) where
  partGuid : Guid
  volUuid : Guid
  rootDir : Option Root

/-- What the cache keeps of `LOADER_ENTRY`. -/
structure CachedLoader (Root : Type) where
  meTitle : Option CString
  row : UInt64
  title : Option CString
  loaderPath : Option CString
  volume : Option (MenuVolume Root)
  loadOptions : Option CString
  initrdPath : Option CString
  osType : UInt8

/-- A menu entry is a loader entry when its tag is `TAG_LOADER`. -/
inductive MenuItem (Root : Type) where
  | loader (entry : CachedLoader Root)
  | other

def tagLoader : UInt32 := 22

/-- The stamp of a file, as `StatPath` finds it. -/
abbrev Stat (Root : Type) := Root → CString → Option (UInt64 × UInt64)

variable {Handle Root Name : Type}

/-- One of the two halves of `StampRecord`. -/
def stampOf (stat : Stat Root) (volume : Option (MenuVolume Root)) (path : Option CString) :
    UInt64 × UInt64 :=
  match volume.bind (·.rootDir), path with
  | some root, some path => (stat root path).getD (0, 0)
  | _, _ => (0, 0)

/-- The record that the loop of `CacheStoreMenu` fills in. -/
def cacheRecordOf (stat : Stat Root) (entry : CachedLoader Root) : CacheRecord where
  osType := entry.osType
  tag := tagLoader
  row := entry.row.toUInt32
  partGuid := (entry.volume.map (·.partGuid)).getD zeroGuid
  volUuid := (entry.volume.map (·.volUuid)).getD zeroGuid
  title := (if entry.title.isSome then entry.title else entry.meTitle).map (·.chars)
  loaderPath := entry.loaderPath.map (·.chars)
  loadOptions := entry.loadOptions.map (·.chars)
  initrdPath := entry.initrdPath.map (·.chars)
  loaderSize := (stampOf stat entry.volume entry.loaderPath).1
  loaderMtime := (stampOf stat entry.volume entry.loaderPath).2
  initrdSize := (stampOf stat entry.volume entry.initrdPath).1
  initrdMtime := (stampOf stat entry.volume entry.initrdPath).2

/-- The loop of `CacheStoreMenu`: null entries and other tags are passed over. -/
def cacheRecords (stat : Stat Root) : List (Option (MenuItem Root)) → List CacheRecord
  | [] => []
  | some (.loader entry) :: entries => cacheRecordOf stat entry :: cacheRecords stat entries
  | _ :: entries => cacheRecords stat entries

def CacheStatus.toEfi : CacheStatus → EfiStatus
  | .success => .success
  | .notFound => .error .notFound
  | .incompatibleVersion => .error .incompatibleVersion
  | .crcError => .error .crcError
  | .outOfResources => .error .outOfResources

/-- What storing and loading use besides the menu. -/
structure CacheEnv (Handle Root Name : Type) where
  fw : Firmware Handle Root Name
  stat : Stat Root
  crc : List UInt8 → UInt32
  buildId : UInt32
  selfDir : Option Root
  cacheFileName : Name

variable [DecidableEq Root] [DecidableEq Name]

def cacheStoreMenu (env : CacheEnv Handle Root Name) (disk : Disk Root Name)
    (menu : Option (List (Option (MenuItem Root)))) (fingerprint : UInt32) :
    EfiStatus × Disk Root Name :=
  match menu with
  | none => (.error .invalidParameter, disk)
  | some entries =>
    if entries.length = 0 then (.error .invalidParameter, disk)
    else if !env.fw.alloc (entries.length * cacheRecordSize) then (.error .outOfResources, disk)
    else
      let records := cacheRecords env.stat entries
      if records.length = 0 then (.error .notFound, disk)
      else
        match serializeRecords env.crc env.fw.alloc records fingerprint env.buildId with
        | .error status => (status.toEfi, disk)
        | .ok fileBuf => mrdSaveFile env.fw disk env.selfDir env.cacheFileName fileBuf

/-- The load and the parse of `CacheLoadMenu`, in a given directory. -/
def cacheReadRecords (env : CacheEnv Handle Root Name) (fw : Firmware Handle Root Name)
    (disk : Disk Root Name) (baseDir : Option Root) (fingerprint : UInt32) : Except Stop Parsed :=
  match mrdLoadFile fw disk baseDir (some env.cacheFileName) with
  | .error _ => .ok (.fail "no file" .notFound)
  | .ok fileBuf => parseBuffer env.crc fw.alloc (some fileBuf) fingerprint env.buildId

/-! ### Reading the stored records back -/

omit [DecidableEq Root] [DecidableEq Name]

theorem optionMap_nonnull (str : Option CString) : StrNonnull (str.map (·.chars)) := by
  intro s h
  obtain ⟨str', _, rfl⟩ := Option.map_eq_some_iff.mp h
  exact str'.nonnull

theorem cacheRecords_nonnull (stat : Stat Root) (entries : List (Option (MenuItem Root))) :
    ∀ r ∈ cacheRecords stat entries, r.Nonnull := by
  induction entries with
  | nil => exact fun r mem => absurd mem List.not_mem_nil
  | cons entry entries ih =>
    match entry with
    | none => exact ih
    | some .other => exact ih
    | some (.loader entry) =>
      rw [cacheRecords, List.forall_mem_cons]
      refine ⟨⟨?_, ?_, ?_, ?_⟩, ih⟩
      · exact optionMap_nonnull _
      · exact optionMap_nonnull _
      · exact optionMap_nonnull _
      · exact optionMap_nonnull _

theorem length_le_flatMap_encodeRecord (records : List CacheRecord) :
    records.length ≤ (records.flatMap encodeRecord).length := by
  induction records with
  | nil => exact Nat.le_refl 0
  | cons r records ih =>
    have first : (encodeRecord r).length ≥ 1 := by
      rw [encodeRecord, List.length_append, Lib.Codec.length_toLe]
      omega
    rw [List.flatMap_cons, List.length_append, List.length_cons]
    omega

/-- What a record becomes in the file when its strings are short. -/
def encodedBody (records : List CacheRecord) : List UInt8 :=
  (records.map CacheRecord.asRead).flatMap encodeRecord

theorem storedBody_eq {records : List CacheRecord} (short : ∀ r ∈ records, r.Short) :
    storedBody records = encodedBody records := by
  rw [storedBody, (map_stored_eq_iff records).mpr short, encodedBody]

theorem short_of_asRead_fits {record : CacheRecord} (fits : record.asRead.Fits) : record.Short := by
  have part : ∀ str : Option (List UInt16), StrFits (strAsRead str) → StrShort str := by
    intro str fits s h
    subst h
    cases s with
    | nil => exact Nat.two_pow_pos 32
    | cons ch s => exact fits.2
  exact ⟨part _ fits.title, part _ fits.loaderPath, part _ fits.loadOptions, part _ fits.initrdPath⟩

/-- What the old file leaves behind the new one. -/
def leftover (old : List UInt8) (size : Nat) : List UInt8 :=
  (old.drop size).take (maxMeridianFileSize - size)

theorem take_overwrite {old file : List UInt8} (bounded : file.length ≤ maxMeridianFileSize) :
    (overwrite old file).take maxMeridianFileSize = file ++ leftover old file.length := by
  rw [overwrite, List.take_append, List.take_of_length_le bounded, leftover]

/-- When the stored records come back: the strings and the file are not too long, and what is left of
the old file does not change the body's checksum. -/
structure CacheKept (crc : List UInt8 → UInt32) (old : List UInt8) (records : List CacheRecord) :
    Prop where
  short : ∀ r ∈ records, r.Short
  bounded : cacheHeaderSize + (encodedBody records).length ≤ maxMeridianFileSize
  checksum : bodyCrcOf crc (encodedBody records ++
    leftover old (cacheHeaderSize + (encodedBody records).length)) =
      bodyCrcOf crc (encodedBody records)

section

variable {crc : List UInt8 → UInt32} {fingerprint buildId : UInt32} {header : CacheFileHeader}
  {records : List CacheRecord} {old : List UInt8} {alloc : Nat → Bool}

theorem parse_overwritten
    (written : header.WrittenFor crc (storedBody records) records.length fingerprint buildId)
    (nonempty : records ≠ []) (room : ∀ n, alloc n = true) (kept : CacheKept crc old records) :
    parseBuffer crc alloc
      (some ((overwrite old (header.bytes ++ storedBody records)).take maxMeridianFileSize))
      fingerprint buildId = .ok {
        status := .success, records := records.map CacheRecord.asRead, count := records.length } := by
  have body := storedBody_eq kept.short
  have size : (header.bytes ++ storedBody records).length =
      cacheHeaderSize + (encodedBody records).length := by
    rw [List.length_append, header.length_bytes, body]
  have bounded := kept.bounded
  have length : (records.map CacheRecord.asRead).length = records.length := List.length_map _
  have few : records.length < 2 ^ 32 := by
    have each := length_le_flatMap_encodeRecord (records.map CacheRecord.asRead)
    have limit : maxMeridianFileSize = 1073741824 := rfl
    have whole : (encodedBody records).length =
      ((records.map CacheRecord.asRead).flatMap encodeRecord).length := rfl
    omega
  have positive := List.length_pos_iff.mpr nonempty
  have counted : records.length % 2 ^ 32 ≠ 0 := by
    rw [Nat.mod_eq_of_lt few]
    omega
  rw [take_overwrite (by rw [size]; exact bounded), size, List.append_assoc, body]
  rw [body] at written
  have accepted := (accepted_iff written _).mpr ⟨rfl, rfl, counted, kept.checksum⟩
  rw [← length] at written few ⊢
  have fits : ∀ r ∈ records.map CacheRecord.asRead, r.Fits := by
    rw [← (map_stored_eq_iff records).mpr kept.short]
    intro r mem
    obtain ⟨source, _, rfl⟩ := List.mem_map.mp mem
    exact source.stored_fits
  exact parseBuffer_reads fits written accepted few room

theorem kept_of_parsed
    (written : header.WrittenFor crc (storedBody records) records.length fingerprint buildId)
    (parsed : parseBuffer crc alloc
      (some ((overwrite old (header.bytes ++ storedBody records)).take maxMeridianFileSize))
      fingerprint buildId = .ok {
        status := .success, records := records.map CacheRecord.asRead, count := records.length }) :
    CacheKept crc old records := by
  obtain ⟨result, run, outcome⟩ := parseBuffer_total crc alloc
    (some ((overwrite old (header.bytes ++ storedBody records)).take maxMeridianFileSize))
    fingerprint buildId
  obtain rfl := Except.ok.inj (run.symm.trans parsed)
  obtain ⟨failed, _⟩ | ⟨bytes, same, complete⟩ := outcome
  · exact absurd rfl failed
  obtain rfl := Option.some.inj same
  have short : ∀ r ∈ records, r.Short := fun r mem =>
    short_of_asRead_fits (complete.fits r.asRead (List.mem_map.mpr ⟨r, mem, rfl⟩))
  have body := storedBody_eq short
  rw [body] at complete written parsed
  have limit : maxMeridianFileSize = 1073741824 := rfl
  have head : cacheHeaderSize = 36 := rfl
  have size : (header.bytes ++ encodedBody records).length =
      cacheHeaderSize + (encodedBody records).length := by
    rw [List.length_append, header.length_bytes]
  have bounded : cacheHeaderSize + (encodedBody records).length ≤ maxMeridianFileSize := by
    obtain ⟨rest, decoded⟩ := complete.decoded
    have lengths := congrArg List.length decoded
    have whole : ((records.map CacheRecord.asRead).flatMap encodeRecord).length =
      (encodedBody records).length := rfl
    rw [List.length_drop, List.length_take, List.length_append, whole] at lengths
    omega
  refine ⟨short, bounded, ?_⟩
  rw [take_overwrite (by rw [size]; exact bounded), size, List.append_assoc] at parsed
  by_contra differs
  have rejected : ¬ Accepted crc (header.bytes ++ (encodedBody records ++
      leftover old (cacheHeaderSize + (encodedBody records).length))) fingerprint buildId :=
    fun accepted => differs ((accepted_iff written _).mp accepted).2.2.2
  obtain ⟨result, run, failed, _⟩ := parseBuffer_rejects rejected alloc
  obtain rfl := Except.ok.inj (run.symm.trans parsed)
  exact failed rfl

end

/-! ### Saving, then reading back -/

section

variable [DecidableEq Root] [DecidableEq Name]
variable {fw' : Firmware Handle Root Name} {env : CacheEnv Handle Root Name}
  {disk disk' : Disk Root Name} {root : Root} {entries : List (Option (MenuItem Root))}
  {fingerprint : UInt32}

/-- What a store that reports success wrote. -/
theorem cacheStoreMenu_success
    (stored : cacheStoreMenu env disk (some entries) fingerprint = (.success, disk')) :
    cacheRecords env.stat entries ≠ [] ∧ ∃ header : CacheFileHeader,
      header.WrittenFor env.crc (storedBody (cacheRecords env.stat entries))
        (cacheRecords env.stat entries).length fingerprint env.buildId ∧
      mrdSaveFile env.fw disk env.selfDir env.cacheFileName
        (header.bytes ++ storedBody (cacheRecords env.stat entries)) = (.success, disk') := by
  rw [cacheStoreMenu] at stored
  dsimp only at stored
  split at stored
  · cases stored
  split at stored
  · cases stored
  split at stored
  · cases stored
  · rename_i nonempty
    obtain ⟨header, written, run⟩ := serializeRecords_ok (cacheRecords_nonnull env.stat entries)
      env.crc env.fw.alloc fingerprint env.buildId
    rw [run] at stored
    constructor
    · intro empty
      rw [empty] at nonempty
      exact nonempty rfl
    · split at stored
      · rename_i status failed
        split at failed
        · cases failed
        · cases failed
          cases stored
      · rename_i fileBuf ok
        split at ok
        · cases ok
          exact ⟨header, written, stored⟩
        · cases ok

/-- The file behind a successful store. -/
theorem cacheStoreMenu_content (resolves : Resolves env.fw env.selfDir root)
    (stored : cacheStoreMenu env disk (some entries) fingerprint = (.success, disk')) :
    cacheRecords env.stat entries ≠ [] ∧ ∃ header : CacheFileHeader,
      header.WrittenFor env.crc (storedBody (cacheRecords env.stat entries))
        (cacheRecords env.stat entries).length fingerprint env.buildId ∧
      disk' (root, env.cacheFileName) = some (overwrite ((disk (root, env.cacheFileName)).getD [])
        (header.bytes ++ storedBody (cacheRecords env.stat entries))) := by
  obtain ⟨nonempty, header, written, saved⟩ := cacheStoreMenu_success stored
  have content := mrdSaveFile_success resolves saved
  have file : header.bytes ++ storedBody (cacheRecords env.stat entries) ≠ [] := by
    intro empty
    have length := congrArg List.length empty
    rw [List.length_append, header.length_bytes, cacheHeaderSize, List.length_nil] at length
    omega
  rw [if_neg file] at content
  exact ⟨nonempty, header, written, content⟩

theorem cacheReadRecords_iff (reads : fw'.Reads root env.cacheFileName)
    (resolves : Resolves env.fw env.selfDir root)
    (stored : cacheStoreMenu env disk (some entries) fingerprint = (.success, disk')) :
    cacheReadRecords env fw' disk' (some root) fingerprint = .ok {
        status := .success
        records := (cacheRecords env.stat entries).map CacheRecord.asRead
        count := (cacheRecords env.stat entries).length } ↔
      CacheKept env.crc ((disk (root, env.cacheFileName)).getD []) (cacheRecords env.stat entries) := by
  obtain ⟨nonempty, header, written, content⟩ := cacheStoreMenu_content resolves stored
  rw [cacheReadRecords, mrdLoadFile_present reads content]
  constructor
  · exact fun parsed => kept_of_parsed written parsed
  · exact fun kept => parse_overwritten written nonempty reads.room kept

end

/-- A file loads as it was saved exactly when the data is neither empty nor longer than the loader
reads, and the file was no longer before; the stored records come back exactly when they fit, and the
rest of an older, longer file does not change the checksum of the body. -/
theorem savedFile_readBack_iff {Handle Root Name : Type} [DecidableEq Root] [DecidableEq Name]
    (fw fw' : Firmware Handle Root Name) (disk disk' : Disk Root Name) (root : Root) :
    (∀ (baseDir : Option Root) (name : Name) (data : List UInt8), fw'.Reads root name →
      Resolves fw baseDir root → mrdSaveFile fw disk baseDir name data = (.success, disk') →
      (mrdLoadFile fw' disk' (some root) (some name) = .ok data ↔
        SavesExactly ((disk (root, name)).getD []) data)) ∧
    ∀ (env : CacheEnv Handle Root Name) (entries : List (Option (MenuItem Root)))
      (fingerprint : UInt32), env.fw = fw → fw'.Reads root env.cacheFileName →
      Resolves fw env.selfDir root →
      cacheStoreMenu env disk (some entries) fingerprint = (.success, disk') →
      (cacheReadRecords env fw' disk' (some root) fingerprint = .ok {
          status := .success
          records := (cacheRecords env.stat entries).map CacheRecord.asRead
          count := (cacheRecords env.stat entries).length } ↔
        CacheKept env.crc ((disk (root, env.cacheFileName)).getD [])
          (cacheRecords env.stat entries)) := by
  constructor
  · intro baseDir name data reads resolves saved
    exact mrdLoadFile_mrdSaveFile reads resolves saved
  · rintro env entries fingerprint rfl reads resolves stored
    exact cacheReadRecords_iff reads resolves stored

/-- A firmware that refuses nothing, with one directory. -/
def openFirmware : Firmware Unit Unit Unit where
  espHandles := .ok []
  openRoot := fun _ => none
  openReadFails := fun _ _ => none
  openWriteFails := fun _ _ => none
  infoAllocates := fun _ _ => true
  alloc := fun _ => true
  readFails := fun _ _ => none
  writeFails := fun _ _ _ => none
  deleteFails := fun _ _ => false

theorem openFirmware_reads : openFirmware.Reads () () := ⟨rfl, rfl, fun _ => rfl, rfl⟩

theorem savedFile_readBack_small :
    mrdLoadFile openFirmware
      (mrdSaveFile openFirmware (fun _ => some [9]) (some ()) () [1, 2]).2 (some ()) (some ()) =
        .ok [1, 2] := by
  have saved : mrdSaveFile openFirmware (fun _ => some [9]) (some ()) () [1, 2] =
      (.success, (mrdSaveFile openFirmware (fun _ => some [9]) (some ()) () [1, 2]).2) := rfl
  have both := (savedFile_readBack_iff openFirmware openFirmware (fun _ => some [9]) _ ()).1
    (some ()) () [1, 2] openFirmware_reads (.inl rfl) saved
  exact both.mpr ⟨List.cons_ne_nil _ _, by decide, .inl (by decide)⟩

/-- A shorter file over a longer one keeps the old one's end. -/
theorem savedFile_keepsOldEnd :
    (mrdSaveFile openFirmware (fun _ => some [7, 8, 9]) (some ()) () [1, 2]).1 = .success ∧
      mrdLoadFile openFirmware
        (mrdSaveFile openFirmware (fun _ => some [7, 8, 9]) (some ()) () [1, 2]).2 (some ())
          (some ()) ≠ .ok [1, 2] := by
  refine ⟨rfl, ?_⟩
  have loaded : mrdLoadFile openFirmware
      (mrdSaveFile openFirmware (fun _ => some [7, 8, 9]) (some ()) () [1, 2]).2 (some ()) (some ()) =
        .ok [1, 2, 9] := rfl
  rw [loaded]
  decide

end Meridian.Cache
