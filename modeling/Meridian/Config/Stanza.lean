import Meridian.Config.Lines
import Meridian.Menu.PointerList
import Meridian.Menu.SubScreen

/-!
# Manual stanzas

The model of `AddSubmenu` of `config/config_submenu.c`, of `InitializeStanza` and the entries of
`ScanUserConfigured` of `config/config_stanza.c`, and of `CopyMenuScreen` of
`discovery/entry_build.c`. Allocations succeed. A token that a line lacks is read as a null pointer.
-/

namespace Meridian.Config

open Text Menu

inductive Tag where
  | loader | spacer | ret
  deriving DecidableEq, Repr

/-- What an element of a submenu points to: a loader entry with its title, where the submenu's
builder gives one, or the part that all menu entries share. -/
inductive SubElement (V : Type) where
  | loader (title : Option Str) (target : Target V)
  | header (tag : Tag) (title : Option Str)
  deriving DecidableEq

abbrev Screen (V : Type) := PointerList (SubElement V)

/-- The configuration, and the functions of the program that a stanza is built with. -/
structure StanzaEnv (V : Type) extends SubScreenEnv V, VolumeEnv V where
  archStr : Str
  fwTypeStr : Str
  /-- `SetLoaderDefaults`, from the OS type, the options and the graphics mode so far. -/
  setLoaderDefaults : Char → Option Str → Bool → Str → V → Char × Option Str × Bool
  /-- The volume has a name. -/
  named : V → Bool
  /-- `BuildLoaderTitle`. -/
  loaderTitle : Str → V → Str
  /-- `StrToHex`, for the first sixteen digits. -/
  strToHex : Option Str → Nat

structure StanzaEntry (V : Type) where
  meTitle : Str := []
  title : Str
  target : Target V
  osType : Char := '\x00'
  enabled : Bool := true
  /-- The tag is `TAG_FIRMWARE_LOADER`. -/
  firmware : Bool := false
  efiBootNum : Nat := 0
  subScreen : Option (Screen V) := none
  deriving DecidableEq

variable {V : Type}

def StanzaEntry.toLoaderEntry (entry : StanzaEntry V) : LoaderEntry V where
  meTitle := entry.meTitle
  title := entry.title
  target := entry.target
  osType := entry.osType
  discoveryType := .manual

/-! ### Copies of a submenu -/

def copyMenuEntry : SubElement V → SubElement V
  | .loader title _ => .header .loader title
  | .header tag title => .header tag title

def addMenuEntryCopy (screen : Screen V) : Option (SubElement V) → Screen V
  | none => screen
  | some element => addListElement screen (copyMenuEntry element)

/-- The copy starts with the count of the original and an array of that size. -/
def copyMenuScreen (screen : Screen V) : Screen V :=
  let fresh : Screen V := {
    slots := if screen.count = 0 then none else some (List.replicate screen.count none)
    count := screen.count
    inside := screen.inside }
  screen.elements.foldl addMenuEntryCopy fresh

def elementOf : SubItem V → SubElement V
  | .loader target => .loader none target
  | .spacer => .header .spacer none
  | .ret => .header .ret none

/-- A submenu that is built entry by entry. -/
def screenOf (items : List (SubItem V)) : Screen V := (items.map elementOf).foldl addListElement {}

def initializeSubScreen (env : StanzaEnv V) (entry : StanzaEntry V) : Screen V :=
  match entry.subScreen with
  | some screen => copyMenuScreen screen
  | none => screenOf (Menu.initializeSubScreen env.toSubScreenEnv entry.toLoaderEntry)

/-! ### Submenu blocks -/

/-- The submenu entry in the making. -/
structure SubmenuState (V : Type) where
  target : Target V
  graphicsTag : Option Str := none

def submenuLine (volume : V) (st : SubmenuState V) (line : Line) : SubmenuState V :=
  if isToken line "loader" then
    { st with target := { st.target with loaderPath := (line)[1]?, volume := some volume } }
  else if isToken line "initrd" then { st with target := { st.target with initrdPath := (line)[1]? } }
  else if isToken line "options" then { st with target := { st.target with loadOptions := (line)[1]? } }
  else if isToken line "add_options" then
    { st with target := { st.target with
        loadOptions := some (mergeStrings st.target.loadOptions (line.getD 1 []) (some ' ')) } }
  else if st.graphicsTag.isNone && isToken line "graphics" then
    { st with graphicsTag := some (line.getD 1 "on".toList) }
  else st

def submenuLoop (volume : V) (st : SubmenuState V) : Lines → SubmenuState V × Lines
  | [] => (st, [])
  | line :: rest =>
    if isToken line "\x7d" then (st, rest) else submenuLoop volume (submenuLine volume st line) rest

def graphicsOn (tag : Option Str) : Bool :=
  match tag with
  | some tag => !equalsCI tag "false".toList && !equalsCI tag "off".toList && !equalsCI tag "0".toList
  | none => false

/-- What is done with the submenu entry behind its last line. -/
def submenuTarget (st : SubmenuState V) : Target V :=
  let target := match st.target.initrdPath with
    | some initrd =>
      let named := mergeStrings st.target.loadOptions "initrd=".toList (some ' ')
      { st.target with loadOptions := some (mergeStrings (some named) initrd none), initrdPath := none }
    | none => st.target
  { target with useGraphicsMode := target.useGraphicsMode || graphicsOn st.graphicsTag }

/-- The parent entry, whether an entry was added, and the position behind the block. -/
def addSubmenu (env : StanzaEnv V) (entry : StanzaEntry V) (lines : Lines) (volume : V)
    (title : Option Str) : StanzaEntry V × Bool × Lines :=
  match getStanzaVolume env.toVolumeEnv lines volume with
  | (none, rest) => (entry, false, rest)
  | (some targetVolume, _) =>
    let screen := initializeSubScreen env entry
    let sub := submenuLoop volume { target := { entry.target with volume := some targetVolume } } lines
    let subTitle := env.loaderTitle (title.getD "Instance: Unknown".toList) volume
    ({ entry with
        subScreen := some (addListElement screen (.loader (some subTitle) (submenuTarget sub.1))) },
      true, sub.2)

theorem submenuLoop_length (volume : V) (st : SubmenuState V) (lines : Lines) :
    (submenuLoop volume st lines).2.length ≤ lines.length := by
  induction lines generalizing st with
  | nil => exact Nat.le_refl 0
  | cons line rest ih =>
    rw [submenuLoop, List.length_cons]
    split
    · exact Nat.le_succ _
    · exact Nat.le_succ_of_le (ih _)

theorem addSubmenu_length (env : StanzaEnv V) (entry : StanzaEntry V) (lines : Lines) (volume : V)
    (title : Option Str) : (addSubmenu env entry lines volume title).2.2.length ≤ lines.length := by
  rw [addSubmenu]
  split
  · rename_i rest found
    have length := getStanzaVolume_length env.toVolumeEnv lines volume
    rw [found] at length
    exact length
  · exact submenuLoop_length ..

/-! ### Stanzas -/

/-- The variables of `InitializeStanza`. -/
structure StanzaState (V : Type) where
  entry : StanzaEntry V
  loadOptions : Option Str := none
  graphicsTag : Option Str := none
  bootNumber : Option Str := none
  addedSubmenu : Bool := false
  defaultsSet : Bool := false
  gotFirmwareTag : Bool := false
  stanzaSkip : Bool := false

def setDefaults (env : StanzaEnv V) (entry : StanzaEntry V) (path : Str) (volume : V) :
    StanzaEntry V :=
  let defaults := env.setLoaderDefaults entry.osType entry.target.loadOptions
    entry.target.useGraphicsMode path volume
  { entry with
    osType := defaults.1
    target := { entry.target with loadOptions := defaults.2.1, useGraphicsMode := defaults.2.2 } }

def setTarget (entry : StanzaEntry V) (f : Target V → Target V) : StanzaEntry V :=
  { entry with target := f entry.target }

/-- One line of a stanza other than a submenu's header and the closing brace. -/
def stanzaLine (env : StanzaEnv V) (volume : V) (st : StanzaState V) (line : Line) :
    StanzaState V :=
  if st.graphicsTag.isNone && isToken line "graphics" then
    { st with graphicsTag := some (line.getD 1 "on".toList) }
  else if isToken line "ostype" then
    { st with entry := { st.entry with osType := (line.getD 1 []).headD '\x00' } }
  else if isToken line "if_arch" || isToken line "if_fw_type" then
    let want := if isToken line "if_arch" then env.archStr else env.fwTypeStr
    { st with stanzaSkip := st.stanzaSkip || !(line.drop 1).any (equalsCI · want) }
  else if isToken line "loader" then
    match line.getD 1 [] with
    | [] => st
    | c :: path =>
      if st.gotFirmwareTag then
        { st with
          entry := setTarget st.entry fun target => { target with loaderPath := none }
          defaultsSet := true }
      else
        let entry := setTarget st.entry fun target => { target with loaderPath := some (c :: path) }
        { st with entry := setDefaults env entry (c :: path) volume, defaultsSet := true }
  else if isToken line "initrd" then
    let initrd := if st.gotFirmwareTag then none else (line)[1]?
    { st with entry := setTarget st.entry fun target => { target with initrdPath := initrd } }
  else if isToken line "options" then { st with loadOptions := (line)[1]? }
  else if isToken line "firmware_bootnum" then
    { st with
      entry := { st.entry with firmware := true }
      defaultsSet := true
      gotFirmwareTag := true
      bootNumber := (line)[1]? }
  else st

/-- The loop over the stanza's lines. -/
def stanzaLoop (env : StanzaEnv V) (volume : V) (st : StanzaState V) :
    Lines → StanzaState V × Lines
  | [] => (st, [])
  | line :: rest =>
    if isToken line "\x7d" then (st, rest)
    else if isToken line "submenuentry" then
      let sub := addSubmenu env st.entry rest volume (line)[1]?
      stanzaLoop env volume
        { st with entry := sub.1, addedSubmenu := st.addedSubmenu || sub.2.1 } sub.2.2
    else stanzaLoop env volume (stanzaLine env volume st line) rest
termination_by lines => lines.length
decreasing_by
  · exact Nat.lt_succ_of_le (addSubmenu_length env st.entry rest volume (line)[1]?)
  · exact Nat.lt_succ_self _

def nonempty (text : Option Str) : Option Str := text.filter (· ≠ [])

/-- What is done with the entry behind the stanza's last line. -/
def finishStanza (env : StanzaEnv V) (selfVolume volume : V) (st : StanzaState V) :
    StanzaEntry V :=
  let entry := if st.gotFirmwareTag then
      { setTarget st.entry fun target => { target with loaderPath := none, initrdPath := none } with
        meTitle := "Load ".toList ++ st.entry.title ++ " ... [Firmware Boot Number]".toList
        efiBootNum := env.strToHex st.bootNumber }
    else if env.named volume then { st.entry with meTitle := env.loaderTitle st.entry.title selfVolume }
    else { st.entry with meTitle := "Load ".toList ++ st.entry.title }
  let options := nonempty st.loadOptions
  let entry := if st.addedSubmenu then
      { entry with subScreen := entry.subScreen.map fun screen =>
          addListElement screen (.header .ret none) }
    else entry
  let options := match nonempty entry.target.initrdPath, options with
    | some initrd, some options =>
      some (mergeStrings (some (mergeStrings (some options) "initrd=".toList (some ' '))) initrd none)
    | some initrd, none => some ("initrd=".toList ++ initrd)
    | none, options => options
  let initrdPath := if (nonempty entry.target.initrdPath).isSome then none else entry.target.initrdPath
  let entry := setTarget entry fun target =>
    { target with loadOptions := options, initrdPath := initrdPath }
  let entry := if st.defaultsSet then entry
    else setDefaults env entry "\\EFI\\BOOT\\bogusnemo.efi".toList volume
  setTarget entry fun target =>
    { target with useGraphicsMode := target.useGraphicsMode || graphicsOn st.graphicsTag }

/-- The entry before its first line. -/
def startStanza (volume : V) (title : Str) : StanzaState V :=
  { entry := {
      title := "Manual Stanza: ".toList ++ title
      target := {
        loaderPath := none, volume := some volume, loadOptions := none, useGraphicsMode := false } } }

/-- The entry of an active stanza, and the position at which the file is read on. -/
def initializeStanza (env : StanzaEnv V) (lines : Lines) (selfVolume : V) (title : Str) :
    Option (StanzaEntry V) × Lines :=
  match getStanzaVolume env.toVolumeEnv lines selfVolume with
  | (none, rest) => (none, rest)
  | (some volume, lines) =>
    let run := stanzaLoop env volume (startStanza volume title) lines
    (if run.1.stanzaSkip then none else some (finishStanza env selfVolume volume run.1), run.2)

/-- A stanza without an active submenu is given the default one. -/
def completeSubScreen (env : StanzaEnv V) (selfVolume : V) (entry : StanzaEntry V) :
    StanzaEntry V :=
  match entry.subScreen with
  | some _ => entry
  | none =>
    let whole := generateSubScreen env.toSubScreenEnv entry.toLoaderEntry selfVolume true
    { entry with target := whole.target, subScreen := some (screenOf whole.subScreen) }

/-- The entry that `ScanUserConfigured` makes of the lines behind a `menuentry` header. -/
def stanzaEntry (env : StanzaEnv V) (lines : Lines) (selfVolume : V) (title : Str) :
    Option (StanzaEntry V) :=
  (initializeStanza env lines selfVolume title).1.map (completeSubScreen env selfVolume)

/-- A single volume, and loaders of no known type. -/
def plainStanzaEnv : StanzaEnv Unit where
  toSubScreenEnv := plainSubScreenEnv none
  findVolume := fun _ => some ()
  usable := fun _ => true
  archStr := "x64".toList
  fwTypeStr := "uefi".toList
  setLoaderDefaults := fun osType options graphics _ _ => (osType, options, graphics)
  named := fun _ => true
  loaderTitle := fun title _ => title
  strToHex := fun _ => 0

def wordLine (words : List String) : Line := words.map String.toList

end Meridian.Config
