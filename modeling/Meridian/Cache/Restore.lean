import Meridian.Cache.Rebuild
import Meridian.Discovery.Fold

/-!
# Which menus come back from the cache

When the menu that the next boot rebuilds from the cache is the one that was stored.
-/

namespace Meridian.Cache

open Text Menu Discovery Storage Lib.Reader

/-! ### Strings through the file -/

theorem CString.upToNull_chars (str : CString) : CString.upToNull str.chars = str := by
  have whole : str.chars.takeWhile (· ≠ 0) = str.chars := by
    rw [List.takeWhile_eq_self_iff]
    exact fun ch mem => decide_eq_true (str.nonnull ch mem)
  cases str
  rw [CString.upToNull]
  congr

theorem CString.ofText_chars {text : Str} (wide : IsWide text) :
    (CString.ofText text).chars = text.map fun c => UInt16.ofNat c.toNat := by
  show List.takeWhile _ _ = _
  rw [List.takeWhile_eq_self_iff]
  intro ch mem
  obtain ⟨c, inText, rfl⟩ := List.mem_map.mp mem
  obtain ⟨positive, bounded⟩ := wide.1 c inText
  apply decide_eq_true
  intro null
  have value := congrArg UInt16.toNat null
  rw [UInt16.toNat_ofNat_of_lt' bounded] at value
  exact absurd value (Nat.ne_of_gt positive)

theorem CString.text_ofText {text : Str} (wide : IsWide text) : (CString.ofText text).text = text := by
  rw [CString.text, CString.ofText_chars wide, List.map_map]
  refine (List.map_congr_left fun c mem => ?_).trans (List.map_id text)
  show Char.ofNat (UInt16.ofNat c.toNat).toNat = c
  rw [UInt16.toNat_ofNat_of_lt' (wide.1 c mem).2, Char.ofNat_toNat]

theorem CString.ofText_nil_iff {text : Str} (wide : IsWide text) :
    (CString.ofText text).chars = [] ↔ text = [] := by
  rw [CString.ofText_chars wide, List.map_eq_nil_iff]

/-- A string that is there and not empty. -/
def present (text : Option Str) : Option Str := text.filter (· ≠ [])

theorem present_getD (text : Option Str) : (present text).getD [] = text.getD [] := by
  match text with
  | none => rfl
  | some [] => rfl
  | some (c :: rest) => rfl

/-- An optional string that the cache can hold. -/
def WideText (text : Option Str) : Prop := ∀ chars ∈ text, IsWide chars

/-- What is read of a stored string. -/
theorem textOf_asRead {text : Option Str} (wide : WideText text) :
    textOf (strAsRead ((text.map CString.ofText).map (·.chars))) = present text := by
  match text with
  | none => rfl
  | some [] => rfl
  | some (c :: rest) =>
    have wide : IsWide (c :: rest) := wide _ rfl
    have nonempty : (CString.ofText (c :: rest)).chars ≠ [] := by
      rw [ne_eq, CString.ofText_nil_iff wide]
      exact List.cons_ne_nil c rest
    have kept : strAsRead (some (CString.ofText (c :: rest)).chars) =
        some (CString.ofText (c :: rest)).chars := by
      rw [strAsRead]
      intro empty
      exact nonempty (Option.some.inj empty)
    show textOf (strAsRead (some (CString.ofText (c :: rest)).chars)) = some (c :: rest)
    rw [kept]
    show some (CString.upToNull _).text = _
    rw [CString.upToNull_chars, CString.text_ofText wide]

theorem strShort_ofText {text : Option Str} (wide : WideText text) :
    StrShort ((text.map CString.ofText).map (·.chars)) := by
  intro s h
  obtain ⟨str, inText, rfl⟩ := Option.map_eq_some_iff.mp h
  obtain ⟨chars, same, rfl⟩ := Option.map_eq_some_iff.mp inText
  have wide := wide chars same
  rw [CString.ofText_chars wide, List.length_map]
  have short := wide.2
  omega

/-! ### The records of a menu -/

variable {Handle Root Name V : Type}

/-- The entries that the store looks at. -/
def scannedLoaders : List (MainEntry V) → List (LoaderEntry V)
  | [] => []
  | .loader entry :: menu => entry :: scannedLoaders menu
  | .firmware _ :: menu => scannedLoaders menu
  | .other _ :: menu => scannedLoaders menu

/-- The entry's strings are ones of the program. -/
structure WideEntry (entry : LoaderEntry V) : Prop where
  title : IsWide entry.title
  loaderPath : WideText entry.target.loaderPath
  loadOptions : WideText entry.target.loadOptions
  initrdPath : WideText entry.target.initrdPath

def entryRecord (env : MenuEnv Handle Root Name V) (entry : LoaderEntry V) : CacheRecord :=
  cacheRecordOf env.stat (cachedLoader env entry)

/-- The record as the file gives it back. -/
def keptRecord (env : MenuEnv Handle Root Name V) (entry : LoaderEntry V) : CacheRecord :=
  (entryRecord env entry).asRead

theorem cacheRecords_menu (env : MenuEnv Handle Root Name V) (menu : List (MainEntry V)) :
    cacheRecords env.stat (menu.map (menuItem env)) = (scannedLoaders menu).map (entryRecord env) := by
  induction menu with
  | nil => rfl
  | cons entry menu ih =>
    cases entry with
    | loader entry => exact congrArg (entryRecord env entry :: ·) ih
    | firmware entry => exact ih
    | other tag => exact ih

theorem entryRecord_short {env : MenuEnv Handle Root Name V} {entry : LoaderEntry V}
    (wide : WideEntry entry) : (entryRecord env entry).Short where
  title := @strShort_ofText (some entry.title) fun _ same => Option.some.inj same ▸ wide.title
  loaderPath := strShort_ofText wide.loaderPath
  loadOptions := strShort_ofText wide.loadOptions
  initrdPath := strShort_ofText wide.initrdPath

theorem scannedLoaders_length (menu : List (MainEntry V)) :
    (scannedLoaders menu).length ≤ (loaderEntries menu).length ∧
      (loaderEntries menu).length ≤ menu.length := by
  induction menu with
  | nil => exact ⟨Nat.le_refl 0, Nat.le_refl 0⟩
  | cons entry menu ih =>
    cases entry with
    | loader entry => exact ⟨Nat.succ_le_succ ih.1, Nat.succ_le_succ ih.2⟩
    | firmware entry => exact ⟨Nat.le_succ_of_le ih.1, Nat.succ_le_succ ih.2⟩
    | other tag => exact ⟨ih.1, Nat.le_succ_of_le ih.2⟩

theorem scannedLoaders_eq {menu : List (MainEntry V)} (none : ∀ entry, .firmware entry ∉ menu) :
    scannedLoaders menu = loaderEntries menu := by
  induction menu with
  | nil => rfl
  | cons entry menu ih =>
    have ih := ih fun entry mem => none entry (List.mem_cons_of_mem _ mem)
    cases entry with
    | loader entry => exact congrArg (entry :: ·) ih
    | firmware entry => exact absurd List.mem_cons_self (none entry)
    | other tag => exact ih

theorem no_firmware_of_length {menu : List (MainEntry V)}
    (same : (scannedLoaders menu).length = (loaderEntries menu).length) (entry : LoaderEntry V) :
    .firmware entry ∉ menu := by
  induction menu with
  | nil => exact List.not_mem_nil
  | cons first menu ih =>
    have fewer := (scannedLoaders_length menu).1
    cases first with
    | loader first =>
      intro mem
      obtain impossible | mem := List.mem_cons.mp mem
      · cases impossible
      · exact ih (Nat.succ.inj same) mem
    | firmware first =>
      rw [scannedLoaders, loaderEntries, List.length_cons] at same
      omega
    | other tag =>
      intro mem
      obtain impossible | mem := List.mem_cons.mp mem
      · cases impossible
      · exact ih same mem

/-! ### What the next boot reads -/

section

variable [DecidableEq Root] [DecidableEq Name]
variable {env : MenuEnv Handle Root Name V} {fw' : Firmware Handle Root Name}
  {disk disk' : Disk Root Name} {root : Root} {menu : List (MainEntry V)} {fingerprint : UInt32}

theorem encodedBody_unique {read records : List CacheRecord} {rest tail : List UInt8}
    (length : read.length = records.length) (fits : ∀ r ∈ read, r.Fits)
    (fits' : ∀ r ∈ records, r.Fits)
    (bytes : read.flatMap encodeRecord ++ rest = records.flatMap encodeRecord ++ tail) :
    read = records := by
  have many := readMany_exact (readRecord_exact (read.flatMap encodeRecord ++ rest) fun _ => true)
    records.length
  have within : Cursor.Within ⟨0, (read.flatMap encodeRecord ++ rest).length⟩
      (read.flatMap encodeRecord ++ rest) := Nat.zero_add _
  exact many.unique (fun _ => rfl) within length fits rfl fits' rfl bytes

/-- A stored file that parses holds the stored records, and fits the loader. -/
theorem kept_of_complete {crc : List UInt8 → UInt32} {records : List CacheRecord}
    {header : CacheFileHeader} {fingerprint buildId : UInt32} {old : List UInt8} {parsed : Parsed}
    {alloc : Nat → Bool} (short : ∀ r ∈ records, r.Short) (few : records.length < 2 ^ 32)
    (written : header.WrittenFor crc (storedBody records) records.length fingerprint buildId)
    (run : parseBuffer crc alloc
      (some ((overwrite old (header.bytes ++ storedBody records)).take maxMeridianFileSize))
      fingerprint buildId = .ok parsed)
    (complete : parsed.Complete
      ((overwrite old (header.bytes ++ storedBody records)).take maxMeridianFileSize)) :
    CacheKept crc old records := by
  have body := storedBody_eq short
  rw [body] at complete written run
  have limit : maxMeridianFileSize = 1073741824 := rfl
  have head : cacheHeaderSize = 36 := rfl
  have file : overwrite old (header.bytes ++ encodedBody records) =
      header.bytes ++ (encodedBody records ++ old.drop (header.bytes ++ encodedBody records).length) :=
    List.append_assoc ..
  have taken : (overwrite old (header.bytes ++ encodedBody records)).take maxMeridianFileSize =
      header.bytes ++ (encodedBody records ++
        old.drop (header.bytes ++ encodedBody records).length).take
          (maxMeridianFileSize - cacheHeaderSize) := by
    rw [file, List.take_append, header.length_bytes,
      List.take_of_length_le (by rw [header.length_bytes]; omega)]
  have count := complete.count
  rw [taken, take_header, CacheFileHeader.ofBytes_bytes written.fits, written.entryCount,
    Nat.mod_eq_of_lt few] at count
  obtain ⟨rest, decoded⟩ := complete.decoded
  rw [taken, drop_header] at decoded
  have fits : ∀ r ∈ records.map CacheRecord.asRead, r.Fits := by
    rw [← (map_stored_eq_iff records).mpr short]
    intro r mem
    obtain ⟨source, _, rfl⟩ := List.mem_map.mp mem
    exact source.stored_fits
  have split := List.take_append_drop (maxMeridianFileSize - cacheHeaderSize)
    (encodedBody records ++ old.drop (header.bytes ++ encodedBody records).length)
  rw [decoded, List.append_assoc] at split
  have same : parsed.records = records.map CacheRecord.asRead :=
    encodedBody_unique (complete.length.trans (count.trans (List.length_map _).symm)) complete.fits
      fits split
  have bounded : cacheHeaderSize + (encodedBody records).length ≤ maxMeridianFileSize := by
    have lengths := congrArg List.length decoded
    have whole : (parsed.records.flatMap encodeRecord).length = (encodedBody records).length := by
      rw [same, encodedBody]
    rw [List.length_take, List.length_append, List.length_append, List.length_append, whole] at lengths
    omega
  refine ⟨short, bounded, ?_⟩
  have size : (header.bytes ++ encodedBody records).length =
      cacheHeaderSize + (encodedBody records).length := by
    rw [List.length_append, header.length_bytes]
  rw [take_overwrite (by rw [size]; exact bounded), size, List.append_assoc] at run
  by_contra differs
  have rejected : ¬ Accepted crc (header.bytes ++ (encodedBody records ++
      leftover old (cacheHeaderSize + (encodedBody records).length))) fingerprint buildId :=
    fun accepted => differs ((accepted_iff written _).mp accepted).2.2.2
  obtain ⟨result, run', failed, _⟩ := parseBuffer_rejects rejected alloc
  obtain rfl := Except.ok.inj (run'.symm.trans run)
  exact failed complete.status

/-- A load of the stored file reports success when the records were kept, and has read them then. -/
theorem cacheReadRecords_success (wide : ∀ entry ∈ scannedLoaders menu, WideEntry entry)
    (few : menu.length < 2 ^ 32) (reads : fw'.Reads root env.cacheFileName)
    (resolves : Resolves env.fw env.selfDir root)
    (stored : cacheStoreMenu env.toCacheEnv disk (some (menu.map (menuItem env))) fingerprint =
      (.success, disk')) :
    ∃ parsed, cacheReadRecords env.toCacheEnv fw' disk' (some root) fingerprint = .ok parsed ∧
      (parsed.status = .success ↔ CacheKept env.crc ((disk (root, env.cacheFileName)).getD [])
        ((scannedLoaders menu).map (entryRecord env))) ∧
      (parsed.status = .success → parsed.records = (scannedLoaders menu).map (keptRecord env)) := by
  have whole := cacheReadRecords_iff reads resolves stored
  obtain ⟨nonempty, header, written, content⟩ := cacheStoreMenu_content resolves stored
  rw [cacheRecords_menu] at whole nonempty content written
  have short : ∀ r ∈ (scannedLoaders menu).map (entryRecord env), r.Short := by
    intro r mem
    obtain ⟨entry, inMenu, rfl⟩ := List.mem_map.mp mem
    exact entryRecord_short (wide entry inMenu)
  have fewRecords : ((scannedLoaders menu).map (entryRecord env)).length < 2 ^ 32 := by
    have lengths := scannedLoaders_length menu
    rw [List.length_map]
    omega
  rw [cacheReadRecords, mrdLoadFile_present reads content] at whole ⊢
  obtain ⟨parsed, run, outcome⟩ := parseBuffer_total env.crc fw'.alloc
    (some ((overwrite ((disk (root, env.cacheFileName)).getD []) (header.bytes ++
      storedBody ((scannedLoaders menu).map (entryRecord env)))).take maxMeridianFileSize))
    fingerprint env.buildId
  refine ⟨parsed, run, ?_⟩
  dsimp only at whole
  rw [run] at whole
  constructor
  · constructor
    · intro success
      obtain ⟨failed, _⟩ | ⟨bytes, same, complete⟩ := outcome
      · exact absurd success failed
      · obtain rfl := Option.some.inj same
        exact kept_of_complete short fewRecords written run complete
    · intro kept
      exact congrArg Parsed.status (Except.ok.inj (whole.mpr kept))
  · intro success
    obtain ⟨failed, _⟩ | ⟨bytes, same, complete⟩ := outcome
    · exact absurd success failed
    · obtain rfl := Option.some.inj same
      have kept := kept_of_complete short fewRecords written run complete
      have records := congrArg Parsed.records (Except.ok.inj (whole.mpr kept))
      exact records.trans (List.map_map ..)

end

/-! ### One entry -/

/-- The entry that `AddLoaderEntry` makes of what the cache keeps of an entry. -/
def regenerated (env : ScanEnv V) (entry : LoaderEntry V) (volume : V) : LoaderEntry V :=
  generateSubScreen env.toSubScreenEnv (filledEntry env (present entry.target.loaderPath)
    (present (some entry.title)) (present entry.target.loadOptions) volume) volume true

def entryPathText (entry : LoaderEntry V) : Str := entry.target.loaderPath.getD []

/-- What `SetLoaderDefaults` gives the rebuilt entry. -/
def defaultsOf (env : ScanEnv V) (entry : LoaderEntry V) (volume : V) : Char × Option Str × Bool :=
  let path := cleanUpPathNameSlashes (entryPathText entry)
  env.setLoaderDefaults (if entry.title = [] then (env.nameLoader path false).2 else '\x00')
    entry.meTitle path volume

/-- An entry that `AddLoaderEntry` makes anew from what the cache keeps of it. -/
structure EntryRestored (env : ScanEnv V) (entry : LoaderEntry V) (volume : V) : Prop where
  onVolume : entry.target.volume = some volume
  allowed : loaderAllowed env volume (entryPathText entry) = true
  path : entryPathText entry = [] ∨ entryPath (entryPathText entry) = entryPathText entry
  untitled : entry.title = [] →
    (env.nameLoader (cleanUpPathNameSlashes (entryPathText entry)) false).1 = []
  notFallback : entry.title ≠ [] → equalsCI entry.title env.fallbackBasename = true →
    entry.title = "UEFI Fallback File".toList
  menuLine : menuTitle env entry.title (cleanUpPathNameSlashes (entryPathText entry))
    (present (some entry.title)) volume = entry.meTitle
  xom : (defaultsOf env entry volume).1 = 'X' →
    entry.target.loadOptions.getD [] = "-s -h".toList
  noOptions : (defaultsOf env entry volume).1 ≠ 'X' → entry.target.loadOptions.getD [] = [] →
    (defaultsOf env entry volume).2.1.getD [] = []

theorem generateSubScreen_view (env : SubScreenEnv V) (entry : LoaderEntry V) (volume : V)
    (generateReturn : Bool) :
    entryView (generateSubScreen env entry volume generateReturn) =
      { entryView entry with
        loadOptions := if entry.osType = 'X' then "-s -h".toList
          else entry.target.loadOptions.getD [] } := by
  show entryView (setXomOptions entry) = _
  rw [setXomOptions]
  split
  · rfl
  · rfl

/-- The title of a rebuilt entry. -/
def regeneratedTitle (env : ScanEnv V) (entry : LoaderEntry V) : Str :=
  if entry.title = [] then
    (env.nameLoader (cleanUpPathNameSlashes (entryPathText entry)) false).1
  else if equalsCI entry.title env.fallbackBasename then "UEFI Fallback File".toList
  else entry.title

def regeneratedLine (env : ScanEnv V) (entry : LoaderEntry V) (volume : V) : Str :=
  menuTitle env (regeneratedTitle env entry) (cleanUpPathNameSlashes (entryPathText entry))
    (present (some entry.title)) volume

def regeneratedDefaults (env : ScanEnv V) (entry : LoaderEntry V) (volume : V) :
    Char × Option Str × Bool :=
  let path := cleanUpPathNameSlashes (entryPathText entry)
  env.setLoaderDefaults (if entry.title = [] then (env.nameLoader path false).2 else '\x00')
    (regeneratedLine env entry volume) path volume

theorem regenerated_view (env : ScanEnv V) (entry : LoaderEntry V) (volume : V) :
    entryView (regenerated env entry volume) = {
      title := regeneratedTitle env entry
      meTitle := regeneratedLine env entry volume
      volume := some volume
      loaderPath := if entryPathText entry = [] then [] else entryPath (entryPathText entry)
      loadOptions := if (regeneratedDefaults env entry volume).1 = 'X' then "-s -h".toList
        else if entry.target.loadOptions.getD [] = [] then
          (regeneratedDefaults env entry volume).2.1.getD []
        else entry.target.loadOptions.getD [] } := by
  obtain ⟨meTitle, title, ⟨path, onVolume, options, initrd, graphics⟩, osType, discovery, screen⟩ := entry
  rw [regenerated, generateSubScreen_view]
  -- Each string is absent, empty, or one that the cache keeps.
  rcases title with _ | _ <;> rcases path with _ | _ | _ <;> rcases options with _ | _ | _ <;> rfl

theorem regeneratedTitle_iff (env : ScanEnv V) (entry : LoaderEntry V) :
    regeneratedTitle env entry = entry.title ↔
      (entry.title = [] →
        (env.nameLoader (cleanUpPathNameSlashes (entryPathText entry)) false).1 = []) ∧
      (entry.title ≠ [] → equalsCI entry.title env.fallbackBasename = true →
        entry.title = "UEFI Fallback File".toList) := by
  rw [regeneratedTitle]
  by_cases empty : entry.title = []
  · rw [if_pos empty, empty]
    exact ⟨fun named => ⟨fun _ => named, fun other => absurd rfl other⟩, fun both => both.1 rfl⟩
  · rw [if_neg empty]
    split
    · rename_i fallback
      exact ⟨fun same => ⟨fun other => absurd other empty, fun _ _ => same.symm⟩,
        fun both => (both.2 empty fallback).symm⟩
    · rename_i other
      exact ⟨fun _ => ⟨fun other => absurd other empty, fun _ fallback => absurd fallback other⟩,
        fun _ => rfl⟩

/-- When `AddLoaderEntry` makes the same entry of what the cache keeps. -/
theorem entryRestored_iff (env : ScanEnv V) (entry : LoaderEntry V) (volume : V) :
    EntryRestored env entry volume ↔ loaderAllowed env volume (entryPathText entry) = true ∧
      entryView (regenerated env entry volume) = entryView entry := by
  rw [regenerated_view, entryView, EntryView.mk.injEq, regeneratedTitle_iff]
  constructor
  · intro restored
    have title := (regeneratedTitle_iff env entry).mpr ⟨restored.untitled, restored.notFallback⟩
    have line : regeneratedLine env entry volume = entry.meTitle := by
      rw [regeneratedLine, title]
      exact restored.menuLine
    have defaults : regeneratedDefaults env entry volume = defaultsOf env entry volume := by
      rw [regeneratedDefaults, defaultsOf, line]
    refine ⟨restored.allowed, ⟨restored.untitled, restored.notFallback⟩, line,
      restored.onVolume.symm, ?_, ?_⟩
    · split
      · rename_i empty
        exact empty.symm
      · rename_i given
        exact restored.path.resolve_left given
    · rw [defaults]
      split
      · rename_i xom
        exact (restored.xom xom).symm
      · rename_i other
        split
        · rename_i empty
          exact (restored.noOptions other empty).trans empty.symm
        · rfl
  · rintro ⟨allowed, titles, line, onVolume, path, options⟩
    have title := (regeneratedTitle_iff env entry).mpr titles
    have defaults : regeneratedDefaults env entry volume = defaultsOf env entry volume := by
      rw [regeneratedDefaults, defaultsOf, line]
    rw [defaults] at options
    refine ⟨onVolume.symm, allowed, ?_, titles.1, titles.2, ?_, ?_, ?_⟩
    · by_cases empty : entryPathText entry = []
      · exact .inl empty
      · rw [if_neg empty] at path
        exact .inr path
    · rw [← line, regeneratedLine, title]
    · intro xom
      rw [if_pos xom] at options
      exact options.symm
    · intro other empty
      rw [if_neg other, if_pos empty] at options
      exact options.trans empty

/-! ### The whole menu -/

/-- Rebuilding gives each entry's view back exactly when it gives back each of them. -/
theorem map_filterMap_eq_iff {A B C : Type} {rebuild : A → Option B} {view : B → C} {view' : A → C}
    (entries : List A) : (entries.filterMap rebuild).map view = entries.map view' ↔
      ∀ a ∈ entries, ∃ b, rebuild a = some b ∧ view b = view' a := by
  induction entries with
  | nil => exact ⟨fun _ a mem => absurd mem List.not_mem_nil, fun _ => rfl⟩
  | cons a entries ih =>
    rw [List.forall_mem_cons, ← ih, List.map_cons]
    cases first : rebuild a with
    | none =>
      rw [List.filterMap_cons_none first]
      constructor
      · intro same
        have fewer := List.length_filterMap_le rebuild entries
        have lengths := congrArg List.length same
        rw [List.length_map, List.length_cons, List.length_map] at lengths
        omega
      · rintro ⟨⟨b, impossible, _⟩, _⟩
        cases impossible
    | some b =>
      rw [List.filterMap_cons_some first, List.map_cons, List.cons.injEq]
      constructor
      · rintro ⟨same, rest⟩
        exact ⟨⟨b, rfl, same⟩, rest⟩
      · rintro ⟨⟨b', found, same⟩, rest⟩
        obtain rfl := Option.some.inj found
        exact ⟨same, rest⟩

/-- The choices of the entry that takes an entry's place, with the submenu that `GenerateSubScreen`
makes for it. -/
def regeneratedChoices (env : ScanEnv V) (entry : LoaderEntry V) : List (Choice V) :=
  match entry.target.volume with
  | some volume => entryChoices (regenerated env entry volume)
  | none => []

/-- A menu that the rebuild gives back. -/
structure MenuRestored (env : MenuEnv Handle Root Name V) (menu : List (MainEntry V)) : Prop where
  noFirmware : ∀ entry, .firmware entry ∉ menu
  entries : ∀ entry ∈ scannedLoaders menu, ∃ volume,
    resolveVolume env (keptRecord env entry) = some volume ∧
      EntryRestored env.toScanEnv entry volume
  choices : ∀ choice, choice ∈ (scannedLoaders menu).flatMap (regeneratedChoices env.toScanEnv) ↔
    choice ∈ (scannedLoaders menu).flatMap entryChoices

/-- The load uses the cache: the file is whole, each record passes the checks, and `AddLoaderEntry`
takes one of them at least. -/
structure CacheHit [DecidableEq Root] (env : MenuEnv Handle Root Name V) (old : List UInt8)
    (menu : List (MainEntry V)) (fingerprint : UInt32) : Prop where
  fingerprint : fingerprint ≠ 0
  selfDir : env.selfDir.isSome = true
  kept : CacheKept env.crc old ((scannedLoaders menu).map (entryRecord env))
  current : ∀ entry ∈ scannedLoaders menu, recordCurrent env (keptRecord env entry) = true
  added : ∃ entry ∈ scannedLoaders menu, ∃ volume,
    resolveVolume env (keptRecord env entry) = some volume ∧
      loaderAllowed env.toScanEnv volume (entryPathText entry) = true

theorem addRecordEntry_kept {env : MenuEnv Handle Root Name V} {entry : LoaderEntry V}
    (wide : WideEntry entry) (volume : V) :
    addRecordEntry env (keptRecord env entry) volume =
      if !loaderAllowed env.toScanEnv volume (entryPathText entry) then none
      else some (regenerated env.toScanEnv entry volume) := by
  have title : textOf (keptRecord env entry).title = present (some entry.title) :=
    @textOf_asRead (some entry.title) fun _ same => Option.some.inj same ▸ wide.title
  have path : textOf (keptRecord env entry).loaderPath = present entry.target.loaderPath :=
    textOf_asRead wide.loaderPath
  have options : textOf (keptRecord env entry).loadOptions = present entry.target.loadOptions :=
    textOf_asRead wide.loadOptions
  rw [addRecordEntry, title, path, options, addFilledEntry, present_getD]
  rfl

/-- Each entry that comes back is one made anew. -/
theorem rebuilt_choices {env : MenuEnv Handle Root Name V} {entries : List (LoaderEntry V)}
    (wide : ∀ entry ∈ entries, WideEntry entry)
    (restored : ∀ entry ∈ entries, ∃ volume,
      resolveVolume env (keptRecord env entry) = some volume ∧
        EntryRestored env.toScanEnv entry volume) :
    (entries.filterMap (rebuildRecord env ∘ keptRecord env)).flatMap entryChoices =
      entries.flatMap (regeneratedChoices env.toScanEnv) := by
  induction entries with
  | nil => rfl
  | cons entry entries ih =>
    obtain ⟨wideEntry, wide⟩ := List.forall_mem_cons.mp wide
    obtain ⟨⟨volume, resolved, same⟩, restored⟩ := List.forall_mem_cons.mp restored
    have first : (rebuildRecord env ∘ keptRecord env) entry =
        some (regenerated env.toScanEnv entry volume) := by
      rw [Function.comp_apply, rebuildRecord, resolved, Option.bind_some, addRecordEntry_kept wideEntry, same.allowed]
      rfl
    have choices : regeneratedChoices env.toScanEnv entry =
        entryChoices (regenerated env.toScanEnv entry volume) := by
      rw [regeneratedChoices, same.onVolume]
    rw [List.filterMap_cons_some first, List.flatMap_cons, List.flatMap_cons, ih wide restored,
      choices]

theorem rebuilt_view_iff {env : MenuEnv Handle Root Name V} {entry : LoaderEntry V}
    (wide : WideEntry entry) :
    (∃ rebuilt, rebuildRecord env (keptRecord env entry) = some rebuilt ∧
        entryView rebuilt = entryView entry) ↔
      ∃ volume, resolveVolume env (keptRecord env entry) = some volume ∧
        EntryRestored env.toScanEnv entry volume := by
  simp only [rebuildRecord, Option.bind_eq_some_iff, addRecordEntry_kept wide, entryRestored_iff]
  constructor
  · rintro ⟨rebuilt, ⟨volume, resolved, added⟩, same⟩
    split at added
    · cases added
    · rename_i allowed
      obtain rfl := Option.some.inj added
      rw [Bool.not_eq_true, Bool.not_eq_false'] at allowed
      exact ⟨volume, resolved, allowed, same⟩
  · rintro ⟨volume, resolved, allowed, same⟩
    refine ⟨regenerated env.toScanEnv entry volume, ⟨volume, resolved, ?_⟩, same⟩
    rw [allowed]
    rfl

theorem rebuilt_isEmpty_iff {env : MenuEnv Handle Root Name V} {menu : List (MainEntry V)}
    (wide : ∀ entry ∈ scannedLoaders menu, WideEntry entry) :
    (((scannedLoaders menu).map (keptRecord env)).filterMap (rebuildRecord env)).isEmpty = false ↔
      ∃ entry ∈ scannedLoaders menu, ∃ volume,
        resolveVolume env (keptRecord env entry) = some volume ∧
          loaderAllowed env.toScanEnv volume (entryPathText entry) = true := by
  have one : ∀ entry ∈ scannedLoaders menu,
      ((∃ rebuilt, rebuildRecord env (keptRecord env entry) = some rebuilt) ↔ ∃ volume,
        resolveVolume env (keptRecord env entry) = some volume ∧
          loaderAllowed env.toScanEnv volume (entryPathText entry) = true) := by
    intro entry mem
    simp only [rebuildRecord, Option.bind_eq_some_iff, addRecordEntry_kept (wide entry mem)]
    constructor
    · rintro ⟨rebuilt, volume, resolved, added⟩
      split at added
      · cases added
      · rename_i allowed
        rw [Bool.not_eq_true, Bool.not_eq_false'] at allowed
        exact ⟨volume, resolved, allowed⟩
    · rintro ⟨volume, resolved, allowed⟩
      refine ⟨regenerated env.toScanEnv entry volume, volume, resolved, ?_⟩
      rw [allowed]
      rfl
  rw [List.filterMap_map, List.isEmpty_eq_false_iff_exists_mem]
  constructor
  · rintro ⟨rebuilt, mem⟩
    obtain ⟨entry, inMenu, same⟩ := List.mem_filterMap.mp mem
    exact ⟨entry, inMenu, (one entry inMenu).mp ⟨rebuilt, same⟩⟩
  · rintro ⟨entry, inMenu, taken⟩
    obtain ⟨rebuilt, same⟩ := (one entry inMenu).mpr taken
    exact ⟨rebuilt, List.mem_filterMap.mpr ⟨entry, inMenu, same⟩⟩

/-- What is rebuilt of a menu is the same menu exactly when each entry is one that the rebuild makes
anew, no choice is lost with a submenu or comes with a new one, and no entry is the firmware's. -/
theorem sameMenu_iff {env : MenuEnv Handle Root Name V} {menu : List (MainEntry V)}
    (wide : ∀ entry ∈ scannedLoaders menu, WideEntry entry) :
    SameMenu (((scannedLoaders menu).map (keptRecord env)).filterMap (rebuildRecord env))
      (loaderEntries menu) ↔ MenuRestored env menu := by
  rw [SameMenu, List.filterMap_map]
  constructor
  · rintro ⟨views, choices⟩
    have lengths := congrArg List.length views
    rw [List.length_map, List.length_map] at lengths
    have fewer := List.length_filterMap_le (rebuildRecord env ∘ keptRecord env) (scannedLoaders menu)
    have counts := (scannedLoaders_length menu).1
    have same : (scannedLoaders menu).length = (loaderEntries menu).length := by omega
    have noFirmware := no_firmware_of_length same
    rw [← scannedLoaders_eq noFirmware] at views choices
    have restored := (map_filterMap_eq_iff (scannedLoaders menu)).mp views
    have entries := fun entry mem => (rebuilt_view_iff (wide entry mem)).mp (restored entry mem)
    refine ⟨noFirmware, entries, fun choice => ?_⟩
    rw [← rebuilt_choices wide entries]
    exact choices choice
  · rintro ⟨noFirmware, entries, choices⟩
    rw [← scannedLoaders_eq noFirmware]
    constructor
    · apply (map_filterMap_eq_iff (scannedLoaders menu)).mpr
      exact fun entry mem => (rebuilt_view_iff (wide entry mem)).mpr (entries entry mem)
    · intro choice
      rw [← choices choice, ← rebuilt_choices wide entries]

/-! ### Loading the stored menu -/

section

variable [DecidableEq Root] [DecidableEq Name]
variable {env : MenuEnv Handle Root Name V} {fw' : Firmware Handle Root Name}
  {disk disk' : Disk Root Name} {root : Root} {menu : List (MainEntry V)} {fingerprint : UInt32}

/-- The load either uses the cache and adds what it rebuilds, or fails and adds nothing. -/
theorem cacheLoadMenu_cases (wide : ∀ entry ∈ scannedLoaders menu, WideEntry entry)
    (few : menu.length < 2 ^ 32) (reads : fw'.Reads root env.cacheFileName)
    (resolves : Resolves env.fw env.selfDir root)
    (stored : cacheStoreMenu env.toCacheEnv disk (some (menu.map (menuItem env))) fingerprint =
      (.success, disk')) :
    ∃ status files rebuilt, cacheLoadMenu env fw' disk' fingerprint = .ok (status, files, rebuilt) ∧
      (status ≠ .success → rebuilt = []) ∧
      (status = .success ↔
        CacheHit env ((disk (root, env.cacheFileName)).getD []) menu fingerprint) ∧
      (status = .success →
        rebuilt = ((scannedLoaders menu).map (keptRecord env)).filterMap (rebuildRecord env)) := by
  have refused {files : Disk Root Name} {P : Prop} (missing : ¬ P) :
      ∃ status files' rebuilt, (Except.ok (EfiStatus.error EfiError.notFound, files, []) :
          Except Stop (EfiStatus × Disk Root Name × List (LoaderEntry V))) =
            .ok (status, files', rebuilt) ∧
        (status ≠ .success → rebuilt = []) ∧ (status = .success ↔ P) ∧
        (status = .success →
          rebuilt = ((scannedLoaders menu).map (keptRecord env)).filterMap (rebuildRecord env)) := by
    refine ⟨_, _, _, rfl, fun _ => rfl, ?_, fun impossible => (by cases impossible)⟩
    exact ⟨fun impossible => (by cases impossible), fun holds => absurd holds missing⟩
  rw [cacheLoadMenu]
  split
  · rename_i zero
    exact refused fun hit => hit.fingerprint zero
  rename_i nonzero
  cases self : env.selfDir with
  | none =>
    have unread : cacheReadRecords env.toCacheEnv fw' disk' none fingerprint =
        .ok (.fail "no file" .notFound) := rfl
    rw [unread]
    apply refused
    intro hit
    have impossible := hit.selfDir
    rw [self] at impossible
    cases impossible
  | some dir =>
    obtain rfl : dir = root := by
      obtain given | ⟨missing, _⟩ := resolves
      · exact Option.some.inj (self.symm.trans given)
      · cases self.symm.trans missing
    obtain ⟨parsed, read, kept, records⟩ := cacheReadRecords_success wide few reads resolves stored
    rw [read]
    dsimp only
    split
    · rename_i failed
      exact refused fun hit => failed (kept.mpr hit.kept)
    rename_i success
    rw [not_not] at success
    rw [records success]
    split
    · rename_i stale
      apply refused
      intro hit
      have current : ((scannedLoaders menu).map (keptRecord env)).all (recordCurrent env) = true := by
        rw [List.all_map, List.all_eq_true]
        exact hit.current
      rw [current] at stale
      cases stale
    rename_i current
    rw [Bool.not_eq_true, Bool.not_eq_false', List.all_map, List.all_eq_true] at current
    refine ⟨_, _, _, rfl, ?_, ?_, fun _ => rfl⟩
    · split
      · rename_i empty
        exact fun _ => List.isEmpty_iff.mp empty
      · exact fun impossible => absurd rfl impossible
    · have added := @rebuilt_isEmpty_iff Handle Root Name V env menu wide
      split
      · rename_i empty
        constructor
        · intro impossible
          cases impossible
        · intro hit
          cases empty.symm.trans (added.mpr hit.added)
      · rename_i some
        rw [Bool.not_eq_true] at some
        constructor
        · intro _
          exact ⟨nonzero, by rw [self]; rfl, kept.mp success, current, added.mp some⟩
        · exact fun _ => rfl

end

/-- One volume with both GUIDs, on which every file exists. -/
def plainMenuEnv (fold : Bool) (options : Option (List (List Str))) : MenuEnv Unit Unit Unit Unit where
  fw := openFirmware
  stat := fun _ _ => none
  crc := fun _ => 7
  buildId := 2
  selfDir := some ()
  cacheFileName := ()
  toScanEnv := plainEnv fold options
  menuVolume := fun _ => ⟨⟨List.replicate 16 1, rfl⟩, ⟨List.replicate 16 2, rfl⟩, some ()⟩
  volumes := [some ()]
  fileExists := fun _ _ => true

/-- The menu of a scan that folds the older of two kernels into the newer one's submenu. -/
def foldedMenu : List (MainEntry Unit) :=
  (scanLoaderDir (plainEnv true (some [["d".toList, "x".toList]])) () ['b'] twoKernels).map .loader

def foldedStore : EfiStatus × Disk Unit Unit :=
  cacheStoreMenu (plainMenuEnv true (some [["d".toList, "x".toList]])).toCacheEnv (fun _ => none)
    (some (foldedMenu.map (menuItem (plainMenuEnv true (some [["d".toList, "x".toList]]))))) 1

/-- What `AddLoaderEntry` makes of a scanned file that is no kernel. -/
def singleEntry : LoaderEntry Unit :=
  generateSubScreen (plainEnv false none).toSubScreenEnv
    (newLoaderEntry (plainEnv false none) ['b', '\\', 'a'] none () true none) () true

def singleStore : EfiStatus × Disk Unit Unit :=
  cacheStoreMenu (plainMenuEnv false none).toCacheEnv (fun _ => none)
    (some ([.loader singleEntry].map (menuItem (plainMenuEnv false none)))) 1

theorem singleEntry_wide : WideEntry singleEntry where
  title := by decide
  loaderPath := by
    rintro path ⟨⟩
    decide
  loadOptions := by rintro options ⟨⟩
  initrdPath := by rintro path ⟨⟩

theorem singleEntry_restored : EntryRestored (plainEnv false none) singleEntry () where
  onVolume := rfl
  allowed := rfl
  path := .inr (by decide)
  untitled := by decide
  notFallback := by decide
  menuLine := by decide
  xom := by decide
  noOptions := by decide

end Meridian.Cache
