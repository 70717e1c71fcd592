import Meridian.Lib.Supersede
import Meridian.Menu.SubScreen

/-!
# Boot Loader Specification entries

The model of `discovery/bls.c`: the parse of an entry file, the menu entry that it becomes, and the
removal of the auto-scanned entry that it takes the place of. Allocations succeed.
-/

namespace Meridian.Discovery

open Text Menu Lib.Supersede

/-- The configuration, and the files of a volume. -/
structure BlsEnv (V : Type) extends SubScreenEnv V where
  efiAarch64 : Bool
  shouldScan : V → Str → Bool
  /-- The lines that `ReadLine` gives of a file that can be read. -/
  readLines : V → Str → Option (List Str)
  fileExists : V → Str → Bool
  isValidLoader : V → Str → Bool
  /-- `BuildLoaderTitle`, and the title on a volume without a name. -/
  menuTitle : Str → V → Str

variable {V : Type}

/-! ### Values -/

def blsIsWhitespace (c : Char) : Bool := c = ' ' || c = '\t'

def blsTrimLeft (text : Str) : Str := text.dropWhile blsIsWhitespace

def blsTrimRight (text : Str) : Str := (text.reverse.dropWhile blsIsWhitespace).reverse

def blsDuplicateValue (value : Str) : Option Str :=
  let value := blsTrimRight (blsTrimLeft value)
  if value = [] then none else some value

def blsNormalizePath (path : Str) (addLeadingSlash : Bool) : Option Str :=
  match blsDuplicateValue path with
  | none => none
  | some path =>
    let normal := cleanUpPathNameSlashes path
    some (if addLeadingSlash ∧ normal.head? ≠ some '\\' then '\\' :: normal else normal)

def blsIsSupportedArchitecture (env : BlsEnv V) (architecture : Option Str) : Bool :=
  match architecture with
  | none => true
  | some [] => true
  | some architecture =>
    if env.efiX64 then
      equalsCI architecture "x64".toList || equalsCI architecture "x86_64".toList
    else if env.efiAarch64 then
      equalsCI architecture "aa64".toList || equalsCI architecture "aarch64".toList ||
        equalsCI architecture "arm64".toList
    else true

def blsBuildLoadOptions (options : Option Str) (initrds : List Str) : Option Str :=
  initrds.foldl (fun loadOptions initrd =>
    if initrd = [] then loadOptions
    else
      let named := mergeStrings loadOptions "initrd=".toList (some ' ')
      some (mergeStrings (some named) initrd none)) options

def blsTitleFromFields (title version : Option Str) (entryFileName : Str) : Str :=
  match title, version with
  | some (c :: title), _ => c :: title
  | _, some (c :: version) => c :: version
  | _, _ => stripSetExtension ".conf".toList (basename entryFileName)

/-! ### The entry file -/

/-- The variables of `ParseBlsEntryFile`. -/
structure BlsFields where
  title : Option Str := none
  version : Option Str := none
  machineId : Option Str := none
  linuxPath : Option Str := none
  efiPath : Option Str := none
  options : Option Str := none
  initrds : List Str := []
  wrongArch : Bool := false
  deriving DecidableEq, Repr

/-- One turn of the loop over the lines. -/
def parseBlsLine (env : BlsEnv V) (fields : BlsFields) (line : Str) : BlsFields :=
  let text := blsTrimLeft line
  if text = [] ∨ text.head? = some '#' then fields
  else
    let key := text.takeWhile (!blsIsWhitespace ·)
    let value := blsTrimRight (blsTrimLeft ((text.dropWhile (!blsIsWhitespace ·)).drop 1))
    if equalsCI key "title".toList then { fields with title := blsDuplicateValue value }
    else if equalsCI key "version".toList then { fields with version := blsDuplicateValue value }
    else if equalsCI key "machine-id".toList then { fields with machineId := blsDuplicateValue value }
    else if equalsCI key "architecture".toList then
      if !blsIsSupportedArchitecture env (blsDuplicateValue value) then
        { fields with wrongArch := true }
      else fields
    else if equalsCI key "linux".toList then { fields with linuxPath := blsNormalizePath value true }
    else if equalsCI key "efi".toList then { fields with efiPath := blsNormalizePath value true }
    else if equalsCI key "initrd".toList then
      { fields with initrds := fields.initrds ++ (blsNormalizePath value true).toList }
    else if equalsCI key "options".toList then
      match blsDuplicateValue value with
      | some options => { fields with options := some (mergeStrings fields.options options (some ' ')) }
      | none => fields
    else fields

def parseBlsLines (env : BlsEnv V) (lines : List Str) : BlsFields :=
  lines.foldl (parseBlsLine env) {}

/-- The entry that `AddBlsLoaderEntry` builds. -/
def blsLoaderEntry (env : BlsEnv V) (volume : V) (loaderPath entryTitle : Str)
    (loadOptions : Option Str) : LoaderEntry V :=
  generateSubScreen env.toSubScreenEnv
    { meTitle := env.menuTitle entryTitle volume
      title := entryTitle
      target := {
        loaderPath := some loaderPath
        volume := some volume
        loadOptions := loadOptions
        useGraphicsMode := env.graphicsForLinux }
      osType := 'L'
      discoveryType := .auto } volume true

/-- The linux path of an entry file that is accepted, and its menu entry. -/
def acceptedBlsEntry (env : BlsEnv V) (volume : V) (entryPath : Str) :
    Option (Str × LoaderEntry V) :=
  match env.readLines volume entryPath with
  | none => none
  | some lines =>
    let fields := parseBlsLines env lines
    match fields.linuxPath with
    | none => none
    | some linuxPath =>
      if !fields.wrongArch && env.fileExists volume linuxPath && env.isValidLoader volume linuxPath then
        let title := blsTitleFromFields fields.title fields.version (basename entryPath)
        let options := blsBuildLoadOptions fields.options fields.initrds
        some (linuxPath, blsLoaderEntry env volume linuxPath title options)
      else none

/-- An accepted file's entry starts its linux path on the volume, under the title and with the
options of the file. -/
theorem acceptedBlsEntry_eq_some {env : BlsEnv V} {volume : V} {entryPath linuxPath : Str}
    {entry : LoaderEntry V} (h : acceptedBlsEntry env volume entryPath = some (linuxPath, entry)) :
    ∃ lines, env.readLines volume entryPath = some lines ∧
      (parseBlsLines env lines).linuxPath = some linuxPath ∧
      entry = blsLoaderEntry env volume linuxPath
        (blsTitleFromFields (parseBlsLines env lines).title (parseBlsLines env lines).version
          (basename entryPath))
        (blsBuildLoadOptions (parseBlsLines env lines).options (parseBlsLines env lines).initrds) := by
  rw [acceptedBlsEntry] at h
  split at h
  · cases h
  · rename_i lines read
    dsimp only at h
    split at h
    · cases h
    · rename_i path linux
      split at h
      · cases h
        exact ⟨lines, read, linux, rfl⟩
      · cases h

/-! ### The main menu -/

/-- The main menu's array of entry pointers. -/
abbrev MenuList (V : Type) := List (Option (MenuEntry V))

/-- `BlsLoaderPathsMatch`. -/
def blsLoaderPathsMatch (pathA : Option Str) (pathB : Str) : Bool :=
  match pathA with
  | some pathA => equalsCI (cleanUpPathNameSlashes pathA) (cleanUpPathNameSlashes pathB)
  | none => false

/-- The loop that finds `KeepEntry`, from one index on. -/
def keepEntry (blind : Option (MenuEntry V) → Bool) (i : Nat) (keep : Option Nat) :
    MenuList V → Option Nat
  | [] => keep
  | item :: rest => keepEntry blind (i + 1) (if blind item then some i else keep) rest

/-- The loop that removes the first match other than `KeepEntry`. -/
def removeOther (blind : Option (MenuEntry V) → Bool) (keep : Nat) (i : Nat) :
    MenuList V → MenuList V
  | [] => []
  | item :: rest =>
    if i = keep ∨ !blind item then item :: removeOther blind keep (i + 1) rest else rest

theorem keepEntry_concat (blind : Option (MenuEntry V) → Bool) (i : Nat) (keep : Option Nat)
    (menu : MenuList V) (item : Option (MenuEntry V)) :
    keepEntry blind i keep (menu ++ [item]) =
      if blind item then some (i + menu.length) else keepEntry blind i keep menu := by
  induction menu generalizing i keep with
  | nil => rfl
  | cons first menu ih =>
    rw [List.cons_append, keepEntry, keepEntry, ih, List.length_cons]
    split
    · rw [Nat.add_assoc, Nat.add_comm 1]
    · rfl

/-- When the kept entry stands behind the list, the first match of the list goes. -/
theorem removeOther_concat (blind : Option (MenuEntry V) → Bool) (i : Nat) (menu : MenuList V)
    (item : Option (MenuEntry V)) :
    removeOther blind (i + menu.length) i (menu ++ [item]) = menu.eraseP blind ++ [item] := by
  induction menu generalizing i with
  | nil =>
    show removeOther blind i i [item] = [item]
    rw [removeOther, if_pos (.inl rfl)]
    rfl
  | cons first menu ih =>
    rw [List.cons_append, removeOther, List.length_cons]
    cases matches' : blind first with
    | false =>
      have next : i + (menu.length + 1) = i + 1 + menu.length := by omega
      rw [if_pos (.inr rfl), next, ih, List.eraseP_cons_of_neg (by rw [matches']; exact Bool.false_ne_true)]
      rfl
    | true =>
      rw [if_neg, List.eraseP_cons_of_pos matches']
      rintro (here | impossible)
      · omega
      · cases impossible

variable [DecidableEq V]

def isBlindLinuxLoaderForBls (volume : V) (loaderPath : Str) : Option (MenuEntry V) → Bool
  | some (.loader entry) =>
    entry.target.volume = some volume && entry.osType = 'L' && entry.discoveryType = .auto &&
      blsLoaderPathsMatch entry.target.loaderPath loaderPath
  | _ => false

def removeBlindLinuxLoaderForBls (volume : V) (loaderPath : Str) (menu : MenuList V) :
    MenuList V :=
  let blind := isBlindLinuxLoaderForBls volume loaderPath
  match keepEntry blind 0 none menu with
  | none => menu
  | some keep => removeOther blind keep 0 menu

/-- The main menu, and `BlsClaimedLoaders`. -/
structure BlsState (V : Type) where
  menu : MenuList V
  claimed : List (V × Str)

def addBlsClaimedLinuxPath (volume : V) (loaderPath : Str) (claimed : List (V × Str)) :
    List (V × Str) :=
  let path := cleanUpPathNameSlashes loaderPath
  if claimed.any fun claim => claim.1 = volume && equalsCI claim.2 path then claimed
  else (volume, path) :: claimed

def parseBlsEntryFile (env : BlsEnv V) (volume : V) (st : BlsState V) (entryPath : Str) :
    BlsState V :=
  match acceptedBlsEntry env volume entryPath with
  | none => st
  | some (linuxPath, entry) =>
    { menu := removeBlindLinuxLoaderForBls volume linuxPath (st.menu ++ [some (.loader entry)])
      claimed := addBlsClaimedLinuxPath volume linuxPath st.claimed }

def blsEntriesDir : Str := "loader\\entries".toList

/-- The paths of the entry files, for the names that the directory's iteration yields. -/
def blsEntryPaths (names : List Str) : List Str :=
  names.map fun name => blsEntriesDir ++ '\\' :: name

def scanBLSEntries (env : BlsEnv V) (volume : V) (names : List Str) (st : BlsState V) :
    BlsState V :=
  if !env.shouldScan volume blsEntriesDir then st
  else (blsEntryPaths names).foldl (parseBlsEntryFile env volume) st

/-! ### Entries by their linux path -/

/-- The path of an auto-scanned loader entry of the volume, as paths are compared. -/
def autoKey (volume : V) : Option (MenuEntry V) → Option Str
  | some (.loader entry) =>
    if entry.target.volume = some volume ∧ entry.discoveryType = .auto then
      entry.target.loaderPath.map pathKey
    else none
  | _ => none

/-- The same, for an entry that is marked as Linux. -/
def blindKey (volume : V) : Option (MenuEntry V) → Option Str
  | some (.loader entry) =>
    if entry.osType = 'L' then autoKey volume (some (.loader entry)) else none
  | _ => none

theorem autoKey_of_blindKey {volume : V} (item : Option (MenuEntry V)) (k : Str)
    (h : blindKey volume item = some k) : autoKey volume item = some k := by
  obtain _ | entry | _ := item
  · cases h
  · rw [blindKey] at h
    split at h
    · exact h
    · cases h
  · cases h

theorem blsLoaderPathsMatch_iff (pathA : Option Str) (pathB : Str) :
    blsLoaderPathsMatch pathA pathB = true ↔ pathA.map pathKey = some (pathKey pathB) := by
  cases pathA with
  | none =>
    constructor
    · intro impossible
      cases impossible
    · intro impossible
      cases impossible
  | some pathA =>
    rw [blsLoaderPathsMatch, equalsCI_iff, Option.map_some, Option.some.injEq]
    exact Iff.rfl

theorem isBlindLinuxLoaderForBls_iff (volume : V) (loaderPath : Str)
    (item : Option (MenuEntry V)) :
    isBlindLinuxLoaderForBls volume loaderPath item = true ↔
      blindKey volume item = some (pathKey loaderPath) := by
  obtain _ | entry | _ := item
  · exact ⟨fun impossible => (nomatch impossible), fun impossible => (nomatch impossible)⟩
  · rw [isBlindLinuxLoaderForBls, Bool.and_eq_true, Bool.and_eq_true, Bool.and_eq_true,
      blsLoaderPathsMatch_iff, decide_eq_true_iff, decide_eq_true_iff, decide_eq_true_iff, blindKey,
      autoKey]
    constructor
    · rintro ⟨⟨⟨onVolume, linux⟩, auto⟩, same⟩
      rw [if_pos linux, if_pos ⟨onVolume, auto⟩]
      exact same
    · intro same
      split at same
      · rename_i linux
        split at same
        · rename_i both
          exact ⟨⟨⟨both.1, linux⟩, both.2⟩, same⟩
        · cases same
      · cases same
  · exact ⟨fun impossible => (nomatch impossible), fun impossible => (nomatch impossible)⟩

/-! ### One entry file -/

/-- An added entry that is blind itself takes the place of the first other one. -/
theorem removeBlindLinuxLoaderForBls_concat {volume : V} {loaderPath : Str}
    {item : Option (MenuEntry V)} (h : blindKey volume item = some (pathKey loaderPath))
    (menu : MenuList V) :
    removeBlindLinuxLoaderForBls volume loaderPath (menu ++ [item]) =
      supersede (blindKey volume) menu item := by
  have blind := (isBlindLinuxLoaderForBls_iff volume loaderPath item).mpr h
  have same : (fun x => decide (blindKey volume x = blindKey volume item)) =
      isBlindLinuxLoaderForBls volume loaderPath := by
    funext x
    rw [h, Bool.eq_iff_iff, decide_eq_true_iff]
    exact (isBlindLinuxLoaderForBls_iff volume loaderPath x).symm
  rw [removeBlindLinuxLoaderForBls, supersede, same, keepEntry_concat, if_pos blind]
  exact removeOther_concat _ 0 menu item

theorem blsLoaderEntry_blindKey (env : BlsEnv V) (volume : V) (loaderPath title : Str)
    (options : Option Str) :
    blindKey volume (some (.loader (blsLoaderEntry env volume loaderPath title options))) =
      some (pathKey loaderPath) := by
  show (if 'L' = 'L' then if some volume = some volume ∧ DiscoveryType.auto = DiscoveryType.auto then
    some (pathKey loaderPath) else none else none) = _
  rw [if_pos rfl, if_pos ⟨rfl, rfl⟩]

/-- The entries of the accepted files. -/
def acceptedItems (env : BlsEnv V) (volume : V) (paths : List Str) : MenuList V :=
  paths.filterMap fun path =>
    (acceptedBlsEntry env volume path).map fun accepted => some (.loader accepted.2)

theorem acceptedItems_keyed (env : BlsEnv V) (volume : V) (paths : List Str) :
    ∀ item ∈ acceptedItems env volume paths, (blindKey volume item).isSome := by
  intro item mem
  obtain ⟨path, _, accepted⟩ := List.mem_filterMap.mp mem
  obtain ⟨⟨linuxPath, entry⟩, source, rfl⟩ := Option.map_eq_some_iff.mp accepted
  obtain ⟨_, _, _, rfl⟩ := acceptedBlsEntry_eq_some source
  rw [blsLoaderEntry_blindKey]
  rfl

theorem parseBlsEntryFile_menu (env : BlsEnv V) (volume : V) (st : BlsState V) (path : Str) :
    (parseBlsEntryFile env volume st path).menu =
      (acceptedItems env volume [path]).foldl (supersede (blindKey volume)) st.menu := by
  rw [parseBlsEntryFile, acceptedItems]
  cases accepted : acceptedBlsEntry env volume path with
  | none =>
    rw [List.filterMap_cons_none (by rw [accepted]; rfl)]
    rfl
  | some found =>
    obtain ⟨linuxPath, entry⟩ := found
    obtain ⟨_, _, _, rfl⟩ := acceptedBlsEntry_eq_some accepted
    rw [List.filterMap_cons_some (by rw [accepted]; rfl)]
    exact removeBlindLinuxLoaderForBls_concat (blsLoaderEntry_blindKey ..) st.menu

theorem parseBlsEntryFiles_menu (env : BlsEnv V) (volume : V) (st : BlsState V)
    (paths : List Str) :
    (paths.foldl (parseBlsEntryFile env volume) st).menu =
      (acceptedItems env volume paths).foldl (supersede (blindKey volume)) st.menu := by
  induction paths generalizing st with
  | nil => rfl
  | cons path paths ih =>
    have split : acceptedItems env volume (path :: paths) =
        acceptedItems env volume [path] ++ acceptedItems env volume paths := by
      rw [acceptedItems, ← List.singleton_append, List.filterMap_append]
      rfl
    rw [List.foldl_cons, ih, parseBlsEntryFile_menu, split, List.foldl_append]

/-! ### The whole scan -/

/-- What the scan accepts. -/
def scannedItems (env : BlsEnv V) (volume : V) (names : List Str) : MenuList V :=
  if env.shouldScan volume blsEntriesDir then acceptedItems env volume (blsEntryPaths names) else []

/-- Every file can be read and names one kernel. -/
def oneKernelEnv : BlsEnv Unit where
  toSubScreenEnv := plainSubScreenEnv none
  efiAarch64 := false
  shouldScan := fun _ _ => true
  readLines := fun _ path => some ["linux /v".toList, "options ".toList ++ path]
  fileExists := fun _ _ => true
  isValidLoader := fun _ _ => true
  menuTitle := fun title _ => title

end Meridian.Discovery
