import Meridian.Text

/-!
# Loader entries and their submenus

The model of `LOADER_ENTRY` and of `GenerateSubScreen` of `discovery/entry_build.c`, for the entries
that the scanners build. Allocations succeed. Titles of submenu entries are left out.
-/

namespace Meridian.Menu

open Text

inductive DiscoveryType where
  | none | auto | manual
  deriving DecidableEq, Repr

/-- What `CopyLoaderEntry` keeps of a loader entry, and a submenu entry starts. -/
structure Target (V : Type) where
  loaderPath : Option Str
  volume : Option V
  loadOptions : Option Str
  initrdPath : Option Str := none
  useGraphicsMode : Bool
  deriving DecidableEq

inductive SubItem (V : Type) where
  | loader (target : Target V)
  | spacer
  | ret
  deriving DecidableEq

structure LoaderEntry (V : Type) where
  meTitle : Str
  title : Str
  target : Target V
  osType : Char
  discoveryType : DiscoveryType
  subScreen : List (SubItem V) := []
  deriving DecidableEq

/-- An entry of the main menu, by its tag. -/
inductive MenuEntry (V : Type) where
  | loader (entry : LoaderEntry V)
  | other (tag : Nat)
  deriving DecidableEq

/-- The configuration, and the functions of the program that `GenerateSubScreen` builds on. -/
structure SubScreenEnv (V : Type) where
  efiX64 : Bool
  graphicsForOsx : Bool
  graphicsForLinux : Bool
  graphicsForElilo : Bool
  graphicsForWindows : Bool
  hideSafeMode : Bool
  hideSingleUser : Bool
  hideHwTest : Bool
  scanBtrfsSnapshots : Bool
  /-- The volume that the hardware test is started from, when it is there. -/
  diagnosticsVolume : V → Option V
  /-- `ReadLinuxOptionsFile`: the token lines of the file. -/
  readLinuxOptionsFile : Option Str → V → Option (List (List Str))
  findInitrd : Option Str → V → Option Str
  findNumbers : Option Str → Option Str
  /-- `ReplaceSubstring` of the kernel version's placeholder. -/
  replaceVersion : Str → Option Str → Str
  addInitrdToOptions : Option Str → Option Str → Option Str
  /-- The options of the snapshots' entries. -/
  snapshotOptions : Option Str → List Str

def macosxDiagnostics : Str := "System\\Library\\CoreServices\\.diagnostics\\diags.efi".toList

variable {V : Type}

/-- The menu of `InitializeSubScreen` for an entry without a submenu: the default entry. -/
def initializeSubScreen (env : SubScreenEnv V) (entry : LoaderEntry V) : List (SubItem V) :=
  let sub := entry.target
  let sub := match sub.initrdPath with
    | some initrd => { sub with loadOptions := env.addInitrdToOptions sub.loadOptions (some initrd) }
    | none => sub
  [.loader sub]

/-- `AddMacSubEntry`. -/
def subEntryWith (entry : LoaderEntry V) (options : String) (useGfx : Bool) : SubItem V :=
  .loader { entry.target with loadOptions := some options.toList, useGraphicsMode := useGfx }

def macSubEntries (env : SubScreenEnv V) (entry : LoaderEntry V) (volume : V) : List (SubItem V) :=
  (if env.efiX64 then [subEntryWith entry "arch=x86_64" env.graphicsForOsx,
    subEntryWith entry "arch=i386" env.graphicsForOsx] else []) ++
  [subEntryWith entry "-v" false] ++
  (if env.efiX64 then [subEntryWith entry "-v arch=x86_64" false,
    subEntryWith entry "-v arch=i386" false] else []) ++
  (if env.hideSafeMode then [] else [subEntryWith entry "-x" false, subEntryWith entry "-v -x" false]) ++
  (if env.hideSingleUser then []
    else [subEntryWith entry "-s" false, subEntryWith entry "-v -s" false]) ++
  (if env.hideHwTest then []
    else match env.diagnosticsVolume volume with
      | some diagVolume => [.loader { entry.target with
          volume := some diagVolume, loaderPath := some macosxDiagnostics,
          useGraphicsMode := env.graphicsForOsx }]
      | none => [])

/-- The lines after the first of the options file; a line without an option is read as an empty
one. -/
def linuxSubEntries (env : SubScreenEnv V) (entry : LoaderEntry V) (volume : V)
    (lines : List (List Str)) : List (SubItem V) :=
  let version := env.findNumbers entry.target.loaderPath
  let initrd := env.findInitrd entry.target.loaderPath volume
  (lines.drop 1).map fun tokens =>
    let options := env.replaceVersion (tokens.getD 1 []) version
    .loader { entry.target with
      loadOptions := env.addInitrdToOptions (some options) initrd
      useGraphicsMode := env.graphicsForLinux }

def snapshotSubEntries (env : SubScreenEnv V) (entry : LoaderEntry V)
    (screen : List (SubItem V)) : List (SubItem V) :=
  if env.scanBtrfsSnapshots then
    let baseOptions := match screen.head? with
      | some (.loader target) => target.loadOptions
      | _ => none
    (env.snapshotOptions baseOptions).map fun options =>
      .loader { entry.target with
        loadOptions := some options, useGraphicsMode := env.graphicsForLinux }
  else []

/-- What `GenerateSubScreen` adds to the default entry, by the entry's OS type. -/
def osSubEntries (env : SubScreenEnv V) (entry : LoaderEntry V) (volume : V)
    (screen : List (SubItem V)) : List (SubItem V) :=
  match entry.osType with
  | 'M' => macSubEntries env entry volume
  | 'L' =>
    (match env.readLinuxOptionsFile entry.target.loaderPath volume with
      | some lines => linuxSubEntries env entry volume lines
      | none => []) ++ snapshotSubEntries env entry screen
  | 'E' => [subEntryWith entry "-p" env.graphicsForElilo,
      subEntryWith entry "-d 0 i17" env.graphicsForElilo,
      subEntryWith entry "-d 0 i20" env.graphicsForElilo,
      subEntryWith entry "-d 0 mini" env.graphicsForElilo]
  | 'X' => [subEntryWith entry "-s -h" env.graphicsForWindows,
      subEntryWith entry "-s -c" env.graphicsForWindows, subEntryWith entry "-v" env.graphicsForWindows]
  | _ => []

/-- `GetMenuEntryReturn`. -/
def getMenuEntryReturn (screen : List (SubItem V)) : List (SubItem V) := screen ++ [.ret]

/-- The branch for `X` also sets the entry's own options. -/
def setXomOptions (entry : LoaderEntry V) : LoaderEntry V :=
  if entry.osType = 'X' then
    { entry with target := { entry.target with loadOptions := some "-s -h".toList } }
  else entry

def generateSubScreen (env : SubScreenEnv V) (entry : LoaderEntry V) (volume : V)
    (generateReturn : Bool) : LoaderEntry V :=
  let screen := initializeSubScreen env entry
  let entry := setXomOptions entry
  let screen := screen ++ osSubEntries env entry volume screen
  { entry with subScreen := if generateReturn then getMenuEntryReturn screen else screen }

/-- No hardware test, no snapshots, and the given options file. -/
def plainSubScreenEnv (options : Option (List (List Str))) : SubScreenEnv Unit where
  efiX64 := true
  graphicsForOsx := false
  graphicsForLinux := false
  graphicsForElilo := false
  graphicsForWindows := false
  hideSafeMode := false
  hideSingleUser := false
  hideHwTest := false
  scanBtrfsSnapshots := false
  diagnosticsVolume := fun _ => none
  readLinuxOptionsFile := fun _ _ => options
  findInitrd := fun _ _ => none
  findNumbers := fun _ => none
  replaceVersion := fun text _ => text
  addInitrdToOptions := fun options _ => options
  snapshotOptions := fun _ => []

/-! ### What the submenu consists of -/

/-- Every item is a loader entry, of some kind. -/
def LoadersOf (P : Target V → Prop) (screen : List (SubItem V)) : Prop :=
  ∀ item ∈ screen, ∃ target, item = .loader target ∧ P target

section

variable {P : Target V → Prop} {s₁ s₂ screen : List (SubItem V)}

theorem LoadersOf.append (h₁ : LoadersOf P s₁) (h₂ : LoadersOf P s₂) : LoadersOf P (s₁ ++ s₂) := by
  intro item mem
  obtain left | right := List.mem_append.mp mem
  · exact h₁ item left
  · exact h₂ item right

theorem LoadersOf.nil : LoadersOf P [] := fun _ mem => absurd mem List.not_mem_nil

theorem LoadersOf.cons {target : Target V} (first : P target) (h : LoadersOf P screen) :
    LoadersOf P (.loader target :: screen) := by
  intro item mem
  obtain rfl | later := List.mem_cons.mp mem
  · exact ⟨target, rfl, first⟩
  · exact h item later

theorem LoadersOf.map {α : Type} {f : α → Target V} {as : List α} (each : ∀ a, P (f a)) :
    LoadersOf P (as.map fun a => .loader (f a)) := by
  intro item mem
  obtain ⟨a, _, rfl⟩ := List.mem_map.mp mem
  exact ⟨f a, rfl, each a⟩

theorem LoadersOf.ite {c : Prop} [Decidable c] (h₁ : LoadersOf P s₁) (h₂ : LoadersOf P s₂) :
    LoadersOf P (if c then s₁ else s₂) := by
  split
  · exact h₁
  · exact h₂

theorem LoadersOf.no_return (h : LoadersOf P screen) : .ret ∉ screen := by
  intro mem
  obtain ⟨target, impossible, _⟩ := h _ mem
  cases impossible

end

/-- A submenu entry of the entry itself, or of the hardware test. -/
def OwnTarget (entry : LoaderEntry V) (target : Target V) : Prop :=
  target.loaderPath = entry.target.loaderPath ∨ target.loaderPath = some macosxDiagnostics

theorem subEntryWith_own (entry : LoaderEntry V) (options : String) (useGfx : Bool) :
    OwnTarget entry
      { entry.target with loadOptions := some options.toList, useGraphicsMode := useGfx } := .inl rfl

theorem macSubEntries_own (env : SubScreenEnv V) (entry : LoaderEntry V) (volume : V) :
    LoadersOf (OwnTarget entry) (macSubEntries env entry volume) := by
  have one (options : String) (useGfx : Bool) :
      LoadersOf (OwnTarget entry) [subEntryWith entry options useGfx] :=
    .cons (subEntryWith_own entry options useGfx) .nil
  have two (options options' : String) (useGfx : Bool) : LoadersOf (OwnTarget entry)
      [subEntryWith entry options useGfx, subEntryWith entry options' useGfx] :=
    .cons (subEntryWith_own entry options useGfx) (one options' useGfx)
  rw [macSubEntries]
  refine .append (.append (.append (.append (.append ?_ ?_) ?_) ?_) ?_) ?_
  · exact .ite (two _ _ _) .nil
  · exact one _ _
  · exact .ite (two _ _ _) .nil
  · exact .ite .nil (two _ _ _)
  · exact .ite .nil (two _ _ _)
  · apply LoadersOf.ite .nil
    split
    · exact .cons (.inr rfl) .nil
    · exact .nil

theorem osSubEntries_own (env : SubScreenEnv V) (entry : LoaderEntry V) (volume : V)
    (screen : List (SubItem V)) : LoadersOf (OwnTarget entry) (osSubEntries env entry volume screen) := by
  have own := subEntryWith_own entry
  rw [osSubEntries]
  split
  · exact macSubEntries_own env entry volume
  · apply LoadersOf.append
    · split
      · exact .map fun _ => .inl rfl
      · exact .nil
    · rw [snapshotSubEntries]
      exact .ite (.map fun _ => .inl rfl) .nil
  · exact .cons (own _ _) (.cons (own _ _) (.cons (own _ _) (.cons (own _ _) .nil)))
  · exact .cons (own _ _) (.cons (own _ _) (.cons (own _ _) .nil))
  · exact .nil

theorem initializeSubScreen_own (env : SubScreenEnv V) (entry : LoaderEntry V) :
    LoadersOf (OwnTarget entry) (initializeSubScreen env entry) := by
  apply LoadersOf.cons _ .nil
  left
  split
  · rfl
  · rfl

/-- The default entry starts what the entry itself starts. -/
theorem initializeSubScreen_default (env : SubScreenEnv V) (entry : LoaderEntry V) :
    ∃ first, initializeSubScreen env entry = [.loader first] ∧
      first.loaderPath = entry.target.loaderPath ∧ first.volume = entry.target.volume := by
  cases initrd : entry.target.initrdPath with
  | none => exact ⟨entry.target, by rw [initializeSubScreen, initrd], rfl, rfl⟩
  | some path =>
    refine ⟨{ entry.target with
      loadOptions := env.addInitrdToOptions entry.target.loadOptions (some path) }, ?_, rfl, rfl⟩
    simp only [initializeSubScreen, initrd]

theorem setXomOptions_keeps (entry : LoaderEntry V) :
    (setXomOptions entry).target.loaderPath = entry.target.loaderPath ∧
      (setXomOptions entry).target.volume = entry.target.volume := by
  rw [setXomOptions]
  split
  · exact ⟨rfl, rfl⟩
  · exact ⟨rfl, rfl⟩

theorem generateSubScreen_loaderPath (env : SubScreenEnv V) (entry : LoaderEntry V) (volume : V)
    (generateReturn : Bool) :
    (generateSubScreen env entry volume generateReturn).target.loaderPath =
      entry.target.loaderPath := (setXomOptions_keeps entry).1

theorem generateSubScreen_volume (env : SubScreenEnv V) (entry : LoaderEntry V) (volume : V)
    (generateReturn : Bool) :
    (generateSubScreen env entry volume generateReturn).target.volume = entry.target.volume :=
  (setXomOptions_keeps entry).2

theorem setXomOptions_own {entry : LoaderEntry V} {target : Target V}
    (h : OwnTarget (setXomOptions entry) target) : OwnTarget entry target := by
  rw [OwnTarget, (setXomOptions_keeps entry).1] at h
  exact h

/-- A fresh submenu is the loader entries, with a return entry behind them when one is asked for. -/
theorem generateSubScreen_subScreen (env : SubScreenEnv V) (entry : LoaderEntry V) (volume : V)
    (generateReturn : Bool) :
    ∃ loaders, LoadersOf (OwnTarget entry) loaders ∧
      (generateSubScreen env entry volume generateReturn).subScreen =
        loaders ++ if generateReturn then [.ret] else [] := by
  let screen := initializeSubScreen env entry
  refine ⟨screen ++ osSubEntries env (setXomOptions entry) volume screen, ?_, ?_⟩
  · apply (initializeSubScreen_own env entry).append
    intro item mem
    obtain ⟨target, same, own⟩ := osSubEntries_own env (setXomOptions entry) volume screen item mem
    exact ⟨target, same, setXomOptions_own own⟩
  · cases generateReturn with
    | true => rfl
    | false => exact (List.append_nil _).symm

end Meridian.Menu
