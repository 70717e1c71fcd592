import Meridian.Menu.SubScreen
import Mathlib.Data.List.Induction

/-!
# Scanning a directory for loaders

The model of `ScanLoaderDir` and `AddLoaderListEntry` of `discovery/discovery.c`, of
`AddKernelToSubmenu` of `loaders/linux.c` and of `AddLoaderEntry` of `discovery/entry_build.c`.
Allocations succeed. How a loader is named and classified stays a parameter.
-/

namespace Meridian.Discovery

open Text Menu

structure EfiTime where
  year : Nat
  month : Nat
  day : Nat
  hour : Nat
  minute : Nat
  second : Nat
  deriving DecidableEq, Repr

/-- What the scan reads of `EFI_FILE_INFO`. -/
structure DirFile where
  fileName : Str
  fileSize : Nat
  modificationTime : EfiTime
  deriving DecidableEq, Repr

/-- `LOADER_LIST`. -/
structure LoaderFile where
  fileName : Str
  timeStamp : EfiTime
  deriving DecidableEq, Repr

/-- The configuration and the checks that the scan makes. -/
structure ScanEnv (V : Type) extends SubScreenEnv V where
  foldLinuxKernels : Bool
  linuxPrefixes : List Str
  fallbackBasename : Str
  shouldScan : V → Str → Bool
  allowSymlinks : V → Bool
  isSymbolicLink : V → Str → DirFile → Bool
  isValidLoader : V → Str → Bool
  hasMemtest : Str → Bool
  isToolLocation : Str → Bool
  isBlsClaimedLinuxPath : V → Str → Bool
  isMemtestFile : Str → Bool
  isDontScanFile : Str → Bool
  filenameInDontScan : V → Str → Str → Bool
  isBsdAuxLoader : V → Str → Bool
  isSkipName : Str → Bool
  isSelfLoader : Str → Bool
  hasSignedCounterpart : V → Str → Bool
  volumeScanAllowed : V → Bool
  /-- The title and the OS type of a loader that is given no title. -/
  nameLoader : Str → Bool → Str × Char
  /-- The volume's group name is wanted, and is missing or not to be scanned. -/
  volumeGroupRefused : Str → V → Bool
  /-- The volume group's name, which takes the place of the volume's. -/
  displayName : Str → V → Option Str
  volName : V → Option Str
  /-- `BuildLoaderTitle`, of a title and a name. -/
  buildLoaderTitle : Str → Str → V → Str
  /-- `SetLoaderDefaults`, from the OS type and the menu line so far: the OS type, the options and
  the graphics mode. -/
  setLoaderDefaults : Char → Str → Str → V → Char × Option Str × Bool

variable {V : Type}

/-! ### The list of loaders -/

/-- `TimeComp` of the first time with the second is not negative. -/
def newerOrEqual (t₁ t₂ : EfiTime) : Bool :=
  if t₁.year ≠ t₂.year then t₁.year > t₂.year
  else if t₁.month ≠ t₂.month then t₁.month > t₂.month
  else if t₁.day ≠ t₂.day then t₁.day > t₂.day
  else if t₁.hour ≠ t₂.hour then t₁.hour > t₂.hour
  else if t₁.minute ≠ t₂.minute then t₁.minute > t₂.minute
  else if t₁.second ≠ t₂.second then t₁.second > t₂.second
  else true

def isRescue (file : LoaderFile) : Bool :=
  mrdStrIncludesCI file.fileName "vmlinuz-0-rescue".toList

/-- The loop of `AddLoaderListEntry`. -/
def insertLoader (file : LoaderFile) : List LoaderFile → List LoaderFile
  | [] => [file]
  | current :: rest =>
    if isRescue current then current :: insertLoader file rest
    else if newerOrEqual file.timeStamp current.timeStamp then file :: current :: rest
    else current :: insertLoader file rest

def addLoaderListEntry (list : List LoaderFile) (file : LoaderFile) : List LoaderFile :=
  if isRescue file then list ++ [file] else insertLoader file list

def fullNameOf (path fileName : Str) : Str :=
  cleanUpPathNameSlashes (mergeStrings (some path) fileName (some '\\'))

/-- The filters of `ScanLoaderDir`. -/
def acceptsLoader (env : ScanEnv V) (volume : V) (path : Str) (file : DirFile) : Bool :=
  let fullName := fullNameOf path file.fileName
  let isFallback := equalsCI file.fileName env.fallbackBasename
  !(!env.allowSymlinks volume && env.isSymbolicLink volume fullName file) &&
  env.isValidLoader volume fullName && file.fileName.head? ≠ some '.' && !env.hasMemtest path &&
  !env.isToolLocation path && !env.isBlsClaimedLinuxPath volume fullName &&
  !(isFallback && equalsCI path "EFI\\BOOT".toList) &&
  !(!isFallback && env.isMemtestFile file.fileName) && !env.isDontScanFile file.fileName &&
  !env.filenameInDontScan volume path file.fileName && !env.isBsdAuxLoader volume file.fileName &&
  !env.isSkipName file.fileName && !env.isSelfLoader file.fileName &&
  !env.hasSignedCounterpart volume fullName

/-- The loop over the directory. -/
def loaderList (env : ScanEnv V) (volume : V) (path : Str) (files : List DirFile) :
    List LoaderFile :=
  files.foldl (fun list file =>
    if acceptsLoader env volume path file then
      addLoaderListEntry list ⟨fullNameOf path file.fileName, file.modificationTime⟩
    else list) []

/-! ### Entries -/

/-- A path with a leading backslash, as a loader entry keeps it. -/
def entryPath (loaderPath : Str) : Str :=
  let path := cleanUpPathNameSlashes loaderPath
  mergeStrings (if path.head? ≠ some '\\' then some ['\\'] else none) path none

/-- The checks after which `AddLoaderEntry` makes an entry. -/
def loaderAllowed (env : ScanEnv V) (volume : V) (loaderPath : Str) : Bool :=
  env.volumeScanAllowed volume && !env.volumeGroupRefused (cleanUpPathNameSlashes loaderPath) volume

/-- The entry's line in the menu. -/
def menuTitle (env : ScanEnv V) (title path : Str) (loaderTitle : Option Str) (volume : V) : Str :=
  match (env.displayName path volume).orElse fun _ => env.volName volume with
  | some name => env.buildLoaderTitle title name volume
  | none => "Load ".toList ++ loaderTitle.getD path

/-- The entry that `AddLoaderEntry` fills in, before its submenu. -/
def newLoaderEntry (env : ScanEnv V) (loaderPath : Str) (loaderTitle : Option Str) (volume : V)
    (checkLinux : Bool) (overrideOptions : Option Str) : LoaderEntry V :=
  let path := cleanUpPathNameSlashes loaderPath
  let named := match loaderTitle with
    | some title =>
      (if equalsCI title env.fallbackBasename then "UEFI Fallback File".toList else title, '\x00')
    | none => env.nameLoader path checkLinux
  let meTitle := menuTitle env named.1 path loaderTitle volume
  let defaults := env.setLoaderDefaults named.2 meTitle path volume
  { meTitle := meTitle
    title := named.1
    target := {
      loaderPath := some (entryPath loaderPath)
      volume := some volume
      loadOptions := overrideOptions.orElse fun _ => defaults.2.1
      useGraphicsMode := defaults.2.2 }
    osType := defaults.1
    discoveryType := .auto }

def addLoaderEntry (env : ScanEnv V) (loaderPath : Str) (loaderTitle : Option Str) (volume : V)
    (subScreenReturn checkLinux : Bool) (overrideOptions : Option Str) : Option (LoaderEntry V) :=
  if !loaderAllowed env volume loaderPath then none
  else some (generateSubScreen env.toSubScreenEnv
    (newLoaderEntry env loaderPath loaderTitle volume checkLinux overrideOptions) volume
    subScreenReturn)

/-- The entries that `AddKernelToSubmenu` makes of the options file's lines. -/
def kernelSubEntries (env : ScanEnv V) (target : Target V) (fileName : Str) (volume : V)
    (lines : List (List Str)) : List (SubItem V) :=
  let initrd := env.findInitrd (some fileName) volume
  let version := env.findNumbers (some fileName)
  (lines.takeWhile fun tokens => 2 ≤ tokens.length).map fun tokens =>
    .loader { target with
      loadOptions := env.addInitrdToOptions (some (env.replaceVersion (tokens.getD 1 []) version)) initrd
      volume := some volume
      loaderPath := some (cleanUpPathNameSlashes fileName)
      useGraphicsMode := env.graphicsForLinux }

def addKernelToSubmenu (env : ScanEnv V) (fileName : Str) (volume : V) (target : LoaderEntry V) :
    LoaderEntry V :=
  match env.readLinuxOptionsFile target.target.loaderPath volume with
  | none => target
  | some lines => { target with
      subScreen := target.subScreen ++ [.spacer] ++
        kernelSubEntries env target.target fileName volume lines }

/-! ### The loop over the loaders -/

/-- The entries added so far, which of them is `FirstKernel`, and the last value of `IsLinux`. -/
structure ScanState (V : Type) where
  entries : List (LoaderEntry V)
  firstKernel : Option Nat
  isLinux : Bool

def isLinuxFile (env : ScanEnv V) (file : LoaderFile) : Bool :=
  isListItemSubstringIn file.fileName env.linuxPrefixes

def scanStep (env : ScanEnv V) (volume : V) (st : ScanState V) (file : LoaderFile) : ScanState V :=
  let isLinux := isLinuxFile env file
  match (if isLinux && env.foldLinuxKernels then st.firstKernel else none) with
  | some first =>
    { st with
      entries := st.entries.modify first (addKernelToSubmenu env file.fileName volume)
      isLinux }
  | none =>
    match addLoaderEntry env file.fileName none volume (!(isLinux && env.foldLinuxKernels)) true none
      with
    | none => { st with isLinux }
    | some entry =>
      { entries := st.entries ++ [entry]
        firstKernel := if isLinux && st.firstKernel.isNone then some st.entries.length
          else st.firstKernel
        isLinux }

def scanRun (env : ScanEnv V) (volume : V) (list : List LoaderFile) : ScanState V :=
  list.foldl (scanStep env volume) ⟨[], none, false⟩

/-- The entries that `ScanLoaderDir` adds to the main menu, for the files that the directory's
iteration yields. -/
def scanLoaderDir (env : ScanEnv V) (volume : V) (path : Str) (files : List DirFile) :
    List (LoaderEntry V) :=
  if !env.shouldScan volume path then []
  else
    let st := scanRun env volume (loaderList env volume path files)
    match (if st.isLinux && env.foldLinuxKernels then st.firstKernel else none) with
    | some first =>
      st.entries.modify first fun entry =>
        { entry with subScreen := getMenuEntryReturn entry.subScreen }
    | none => st.entries

end Meridian.Discovery
