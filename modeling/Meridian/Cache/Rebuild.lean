import Meridian.Cache.Store
import Meridian.Discovery.Scan

/-!
# Rebuilding the menu

The model of `CacheLoadMenu` of `kernel/cache.c`, of the volume that a record stands for and of the
checks that a record must pass. Allocations of the rebuilt entries succeed.
-/

namespace Meridian.Cache

open Text Menu Discovery Storage Lib.Reader

/-! ### Strings -/

/-- The characters up to the terminating null. -/
def CString.upToNull (chars : List UInt16) : CString where
  chars := chars.takeWhile (· ≠ 0)
  nonnull ch mem := by
    have holds := List.mem_takeWhile_imp mem
    exact of_decide_eq_true holds

def CString.ofText (text : Str) : CString := .upToNull (text.map fun c => UInt16.ofNat c.toNat)

def CString.text (str : CString) : Str := str.chars.map fun ch => Char.ofNat ch.toNat

/-- The string that a record's pointer leads to. -/
def textOf (str : Option (List UInt16)) : Option Str := str.map fun chars => (CString.upToNull chars).text

/-- Each character is a `CHAR16`, and the byte length fits 32 bits. -/
def IsWide (text : Str) : Prop := (∀ c ∈ text, 0 < c.toNat ∧ c.toNat < 2 ^ 16) ∧ text.length < 2 ^ 31

instance (text : Str) : Decidable (IsWide text) :=
  @instDecidableAnd _ _ (List.decidableBAll (fun c => 0 < c.toNat ∧ c.toNat < 2 ^ 16) text) inferInstance

/-! ### The menu -/

/-- An entry of the main menu: of a loader, of the firmware's own boot list, or another one. -/
inductive MainEntry (V : Type) where
  | loader (entry : LoaderEntry V)
  | firmware (entry : LoaderEntry V)
  | other (tag : Nat)

/-- What storing and loading the menu use of the program. -/
structure MenuEnv (Handle Root Name V : Type) extends CacheEnv Handle Root Name, ScanEnv V where
  menuVolume : V → MenuVolume Root
  volumes : List (Option V)
  fileExists : Root → CString → Bool

variable {Handle Root Name V : Type}

/-- `Row` is 0 for every loader entry. -/
def cachedLoader (env : MenuEnv Handle Root Name V) (entry : LoaderEntry V) : CachedLoader Root where
  meTitle := some (.ofText entry.meTitle)
  row := 0
  title := some (.ofText entry.title)
  loaderPath := entry.target.loaderPath.map .ofText
  volume := entry.target.volume.map env.menuVolume
  loadOptions := entry.target.loadOptions.map .ofText
  initrdPath := entry.target.initrdPath.map .ofText
  osType := UInt8.ofNat entry.osType.toNat

/-- Only the tag of the loaders is one that the store looks for. -/
def menuItem (env : MenuEnv Handle Root Name V) : MainEntry V → Option (MenuItem Root)
  | .loader entry => some (.loader (cachedLoader env entry))
  | .firmware _ => some .other
  | .other _ => some .other

/-! ### Records -/

def resolveVolume (env : MenuEnv Handle Root Name V) (record : CacheRecord) : Option V :=
  let havePart := record.partGuid ≠ zeroGuid
  let haveVol := record.volUuid ≠ zeroGuid
  let find (matching : MenuVolume Root → Bool) :=
    env.volumes.reduceOption.find? fun volume => matching (env.menuVolume volume)
  (if havePart ∧ haveVol then
    find fun volume => volume.partGuid = record.partGuid && volume.volUuid = record.volUuid
  else none).orElse fun _ =>
    (if havePart then find fun volume => volume.partGuid = record.partGuid else none).orElse fun _ =>
      if haveVol then find fun volume => volume.volUuid = record.volUuid else none

/-- One of the two halves of `RecordContentUnchanged`. -/
def stampUnchanged (stat : Stat Root) (root : Root) (path : Option (List UInt16))
    (size mtime : UInt64) : Bool :=
  match path with
  | none => true
  | some path =>
    if size ≠ 0 ∨ mtime ≠ 0 then stat root (.upToNull path) = some (size, mtime) else true

def recordContentUnchanged (env : MenuEnv Handle Root Name V) (volume : V) (record : CacheRecord) :
    Bool :=
  match (env.menuVolume volume).rootDir with
  | none => true
  | some root =>
    stampUnchanged env.stat root record.loaderPath record.loaderSize record.loaderMtime &&
      stampUnchanged env.stat root record.initrdPath record.initrdSize record.initrdMtime

def loaderExists (env : MenuEnv Handle Root Name V) (volume : V) (path : Option (List UInt16)) :
    Bool :=
  match path, (env.menuVolume volume).rootDir with
  | none, _ => true
  | some _, none => false
  | some path, some root => env.fileExists root (.upToNull path)

/-- The checks of the first loop of `CacheLoadMenu`. -/
def recordCurrent (env : MenuEnv Handle Root Name V) (record : CacheRecord) : Bool :=
  match resolveVolume env record with
  | none => false
  | some volume => loaderExists env volume record.loaderPath && recordContentUnchanged env volume record

/-- The entry that the second loop has `AddLoaderEntry` fill in; a null path stays null. -/
def filledEntry (env : ScanEnv V) (path title options : Option Str) (volume : V) : LoaderEntry V :=
  let entry := newLoaderEntry env (path.getD []) title volume false options
  if path.isSome then entry else { entry with target := { entry.target with loaderPath := none } }

def addFilledEntry (env : ScanEnv V) (path title options : Option Str) (volume : V) :
    Option (LoaderEntry V) :=
  if !loaderAllowed env volume (path.getD []) then none
  else some (generateSubScreen env.toSubScreenEnv (filledEntry env path title options volume) volume
    true)

/-- With a path, this is the program's call. -/
theorem addFilledEntry_path (env : ScanEnv V) (path : Str) (title options : Option Str) (volume : V) :
    addFilledEntry env (some path) title options volume =
      addLoaderEntry env path title volume true false options := rfl

def addRecordEntry (env : MenuEnv Handle Root Name V) (record : CacheRecord) (volume : V) :
    Option (LoaderEntry V) :=
  addFilledEntry env.toScanEnv (textOf record.loaderPath) (textOf record.title)
    (textOf record.loadOptions) volume

def rebuildRecord (env : MenuEnv Handle Root Name V) (record : CacheRecord) :
    Option (LoaderEntry V) :=
  (resolveVolume env record).bind (addRecordEntry env record)

/-! ### Loading -/

variable [DecidableEq Root] [DecidableEq Name]

/-- The status, the files, and the entries added to the main menu. -/
def cacheLoadMenu (env : MenuEnv Handle Root Name V) (fw : Firmware Handle Root Name)
    (disk : Disk Root Name) (expectedFingerprint : UInt32) :
    Except Stop (EfiStatus × Disk Root Name × List (LoaderEntry V)) :=
  if expectedFingerprint = 0 then .ok (.error .notFound, disk, [])
  else
    match cacheReadRecords env.toCacheEnv fw disk env.selfDir expectedFingerprint with
    | .error stop => .error stop
    | .ok parsed =>
      if parsed.status ≠ .success then
        let disk := if parsed.status = .incompatibleVersion then
            (mrdSaveFile fw disk env.selfDir env.cacheFileName []).2
          else disk
        .ok (.error .notFound, disk, [])
      else if !parsed.records.all (recordCurrent env) then .ok (.error .notFound, disk, [])
      else
        let rebuilt := parsed.records.filterMap (rebuildRecord env)
        .ok (if rebuilt.isEmpty then .error .notFound else .success, disk, rebuilt)

/-! ### What is to come back -/

/-- What an entry shows and starts; an absent string counts as an empty one. -/
structure EntryView (V : Type) where
  title : Str
  meTitle : Str
  volume : Option V
  loaderPath : Str
  loadOptions : Str
  deriving DecidableEq

def entryView (entry : LoaderEntry V) : EntryView V where
  title := entry.title
  meTitle := entry.meTitle
  volume := entry.target.volume
  loaderPath := entry.target.loaderPath.getD []
  loadOptions := entry.target.loadOptions.getD []

/-- A volume, path and options that can be started. -/
abbrev Choice (V : Type) := Option V × Str × Str

def targetChoice (target : Target V) : Choice V :=
  (target.volume, target.loaderPath.getD [], target.loadOptions.getD [])

def itemChoice : SubItem V → Option (Choice V)
  | .loader target => some (targetChoice target)
  | .spacer => none
  | .ret => none

def entryChoices (entry : LoaderEntry V) : List (Choice V) :=
  targetChoice entry.target :: entry.subScreen.filterMap itemChoice

/-- The loader entries of a menu, the firmware's included. -/
def loaderEntries : List (MainEntry V) → List (LoaderEntry V)
  | [] => []
  | .loader entry :: menu => entry :: loaderEntries menu
  | .firmware entry :: menu => entry :: loaderEntries menu
  | .other _ :: menu => loaderEntries menu

/-- The same entries in the same order, and the same choices, with those of the submenus. -/
def SameMenu (rebuilt entries : List (LoaderEntry V)) : Prop :=
  rebuilt.map entryView = entries.map entryView ∧
    ∀ choice, choice ∈ rebuilt.flatMap entryChoices ↔ choice ∈ entries.flatMap entryChoices

end Meridian.Cache
