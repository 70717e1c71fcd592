import Meridian.Text

/-!
# The previous boot as the default

The model of what a launch remembers (`StoreLoaderName`, `BuildEntryIdentity`, `StoreLoaderIdentity` and
`EntryMatchesIdentity` of `boot/main.c`, `StartLoader` and `RebootIntoLoader` of `loaders/launch_efi.c`,
`RunTrustSync` of `policy/nvram_helpers.c`), of `AdjustDefaultSelection` of `boot/main.c`, which reads it
again, and of the two searches for the default entry in `ui/conn_bridge.c`. A variable that was written is
read back as it was.
-/

namespace Meridian.Boot

open Text

inductive Tag where
  | loader | firmwareLoader | tool
  deriving DecidableEq, Repr

inductive BootProtocol where
  | efi | limine
  deriving DecidableEq, Repr

/-- `meTitle` is the title in the menu. The volume is known by its partition's GUID, as text. -/
structure LoaderEntry where
  tag : Tag
  meTitle : Option Str
  title : Option Str
  loaderPath : Option Str
  partGuid : Option Str
  bootProtocol : BootProtocol
  deriving DecidableEq, Repr

structure MenuEntry where
  entry : LoaderEntry
  subScreen : List LoaderEntry
  deriving DecidableEq, Repr

structure Vars where
  previousBoot : Option Str
  previousBootId : Option Str
  deriving DecidableEq, Repr

/-! ### Remembering a launch -/

def storeLoaderName (transientBoot : Bool) (name : Option Str) (vars : Vars) : Vars :=
  if transientBoot then { vars with previousBoot := none }
  else
    match name with
    | none => vars
    | some name => { vars with previousBoot := some name }

def buildEntryIdentity (entry : LoaderEntry) : Option Str :=
  match entry.partGuid with
  | none => none
  | some guid => some (guid ++ '|' :: entry.loaderPath.getD [])

def storeLoaderIdentity (transientBoot : Bool) (entry : LoaderEntry) (vars : Vars) : Vars :=
  if transientBoot then { vars with previousBootId := none }
  else { vars with previousBootId := buildEntryIdentity entry }

def entryMatchesIdentity (entry : LoaderEntry) (identity : Str) : Bool :=
  if entry.tag ≠ .loader then false else mrdStrEqualsCI (buildEntryIdentity entry) (some identity)

/-- A kernel of the Limine protocol is launched before `StartEFIImage`, which stores what was selected. -/
def startLoader (transientBoot : Bool) (selectionName : Option Str) (entry : LoaderEntry) (vars : Vars) : Vars :=
  let bootSelection := if entry.title ≠ none then entry.title else selectionName
  if entry.bootProtocol = .limine then vars
  else if bootSelection ≠ none then
    storeLoaderIdentity transientBoot entry (storeLoaderName transientBoot bootSelection vars)
  else vars

def rebootIntoLoader (transientBoot : Bool) (entry : LoaderEntry) (vars : Vars) : Vars :=
  storeLoaderIdentity transientBoot entry
    (storeLoaderName transientBoot (if entry.title ≠ none then entry.title else entry.meTitle) vars)

/-- The reset into the native boot chain. -/
def runTrustSync (transientBoot : Bool) (entry : LoaderEntry) (vars : Vars) : Vars :=
  storeLoaderIdentity transientBoot entry
    (storeLoaderName transientBoot (if entry.title ≠ none then entry.title else entry.meTitle) vars)

/-- A chosen entry is booted; `nativeChain` when the trust chain has to be kept. -/
def launch (transientBoot nativeChain : Bool) (selectionName : Option Str) (entry : LoaderEntry) (vars : Vars) :
    Vars :=
  match entry.tag with
  | .loader =>
    if nativeChain then runTrustSync transientBoot entry vars
    else startLoader transientBoot selectionName entry vars
  | .firmwareLoader => rebootIntoLoader transientBoot entry vars
  | .tool => vars

/-! ### The selection of the next boot -/

/-- What an element of the list selects, and whether that is the previous boot. -/
def adjustElement (transientBoot : Bool) (defaultSelection : Str) (vars : Vars) (element : Str) :
    Option (Str × Bool) :=
  if equalsCI element ['+'] then
    if transientBoot ∧ defaultSelection.length > 1 then none
    else
      match vars.previousBoot with
      | none => none
      | some previousBoot => if previousBoot.length > 0 then some (previousBoot, true) else none
  else if element.length > 0 then some (element, false)
  else none

/-- The new `DefaultSelection`, and `DefaultIsPreviousBoot`. -/
def adjustDefaultSelection (transientBoot : Bool) (defaultSelection : Option Str) (vars : Vars) :
    Option Str × Bool :=
  match defaultSelection with
  | none => (none, false)
  | some selection =>
    match (commaItems selection).findSome? (adjustElement transientBoot selection vars) with
    | none => (none, false)
    | some (element, previous) => (some (mergeStrings none element (some ',')), previous)

def connPreviousBootIdentity (defaultIsPreviousBoot : Bool) (vars : Vars) : Option Str :=
  if defaultIsPreviousBoot then vars.previousBootId else none

/-! ### The default entry -/

def includesName (name : Str) (me : MenuEntry) : Bool :=
  match me.entry.meTitle with
  | none => false
  | some title => mrdStrIncludesCI title name

def includesBoth (name identity : Str) (me : MenuEntry) : Bool :=
  includesName name me && entryMatchesIdentity me.entry identity

def isLoader (me : MenuEntry) : Bool := me.entry.tag = .loader

/-- The entry that is booted without a menu. -/
def connDefaultEntry (menu : List MenuEntry) (selectionName identity : Option Str) : Option ℕ :=
  if menu = [] then none
  else
    let fallback := match menu.findIdx? isLoader with
      | some i => some i
      | none => some 0
    match selectionName with
    | none => fallback
    | some name =>
      match identity.bind fun identity => menu.findIdx? (includesBoth name identity) with
      | some i => some i
      | none =>
        match menu.findIdx? (includesName name) with
        | some i => some i
        | none => fallback

def connMaxEntries : ℕ := 24

/-- The entries of the menu that is shown. -/
def buildConnMenuList (menu : List MenuEntry) : List MenuEntry := menu.take connMaxEntries

/-- The default of the menu that is shown, in `ConnRunMainMenu`. -/
def connMenuDefault (map : List MenuEntry) (selectionName identity : Option Str) : ℕ :=
  let firstLoader := (map.findIdx? isLoader).getD map.length
  let default := if firstLoader < map.length then firstLoader else 0
  match selectionName with
  | none => default
  | some name =>
    match identity.bind fun identity => map.findIdx? (includesBoth name identity) with
    | some i => i
    | none => (map.findIdx? (includesName name)).getD default

end Meridian.Boot
