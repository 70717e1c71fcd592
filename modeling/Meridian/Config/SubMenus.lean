import Meridian.Config.Layout
import Mathlib.Data.List.Induction
import Mathlib.Data.List.TakeWhile

/-!
# The submenu of a manual stanza

With one enabled block, the submenu is the default entry, the block's entry and the return entry, if
the stanza has a loader when the block is read. Each further block copies the submenu into an array
that has no room for what is appended to the copy.
-/

namespace Meridian.Config

open Text Menu

variable {V : Type}

/-! ### Submenus that were written past their array -/

theorem addMenuEntryCopy_outside {screen : Screen V} (h : screen.inside = false)
    (element : Option (SubElement V)) : (addMenuEntryCopy screen element).inside = false := by
  cases element with
  | none => exact h
  | some element => exact addListElement_outside h _

theorem addMenuEntryCopies_outside {screen : Screen V} (h : screen.inside = false)
    (elements : List (Option (SubElement V))) :
    (elements.foldl addMenuEntryCopy screen).inside = false := by
  induction elements generalizing screen with
  | nil => exact h
  | cons element elements ih => exact ih (addMenuEntryCopy_outside h element)

theorem copyMenuScreen_outside {screen : Screen V} (h : screen.inside = false) :
    (copyMenuScreen screen).inside = false := by
  rw [copyMenuScreen]
  apply addMenuEntryCopies_outside
  exact h

/-- A copy starts with a full array, and overflows unless the count is one at which it grows. -/
theorem copyMenuScreen_overruns {screen : Screen V} {elements : List (SubElement V)}
    (h : Holds screen elements) (still : elements.length % 16 ≠ 0) :
    (copyMenuScreen screen).inside = false := by
  obtain ⟨first, rest, rfl⟩ := List.exists_cons_of_ne_nil
    (show elements ≠ [] by rintro rfl; exact still rfl)
  have some : screen.count ≠ 0 := by
    rw [h.count, List.length_cons]
    omega
  rw [copyMenuScreen, h.elements, List.map_cons, List.foldl_cons, if_neg some]
  apply addMenuEntryCopies_outside
  apply addListElement_full rfl
  · rw [List.length_replicate]
  · show screen.count % 16 ≠ 0
    rw [h.count]
    exact still

/-! ### Entries with a loader -/

structure Complete (target : Target V) : Prop where
  path : target.loaderPath.isSome = true
  volume : target.volume.isSome = true

/-- A line that names a loader. -/
def NamesLoader (line : Line) : Prop := isToken line "loader" = true ∧ line.getD 1 [] ≠ []

def HasLoader (items : List Item) : Prop := ∃ line ∈ ownLines items, NamesLoader line

theorem stanzaLine_keeps (env : StanzaEnv V) (volume : V) {st : StanzaState V} {line : Line}
    (loader : st.gotFirmwareTag = false) (noFirmware : isToken line "firmware_bootnum" = false) :
    (stanzaLine env volume st line).entry.subScreen = st.entry.subScreen ∧
      (stanzaLine env volume st line).addedSubmenu = st.addedSubmenu ∧
      (stanzaLine env volume st line).gotFirmwareTag = false ∧
      (stanzaLine env volume st line).entry.target.volume = st.entry.target.volume ∧
      ((stanzaLine env volume st line).entry.target.loaderPath.isSome = true ↔
        st.entry.target.loaderPath.isSome = true ∨ NamesLoader line) := by
  have other {word : String} (h : isToken line word = true)
      (apart : word.toList.map lowerChar ≠ "loader".toList.map lowerChar) : ¬ NamesLoader line := by
    rintro ⟨names, _⟩
    rw [isToken_other h "loader" apart] at names
    cases names
  rw [stanzaLine]
  split
  · rename_i both
    rw [Bool.and_eq_true] at both
    exact ⟨rfl, rfl, loader, rfl, (or_iff_left (other both.2 (by decide))).symm⟩
  · split
    · rename_i osType
      exact ⟨rfl, rfl, loader, rfl, (or_iff_left (other osType (by decide))).symm⟩
    · split
      · rename_i condition
        rw [Bool.or_eq_true] at condition
        have none : ¬ NamesLoader line := by
          obtain arch | firmware := condition
          · exact other arch (by decide)
          · exact other firmware (by decide)
        exact ⟨rfl, rfl, loader, rfl, (or_iff_left none).symm⟩
      · split
        · rename_i names
          split
          · rename_i empty
            exact ⟨rfl, rfl, loader, rfl, (or_iff_left fun named => named.2 empty).symm⟩
          · rename_i c path same
            rw [loader, if_neg Bool.false_ne_true]
            refine ⟨rfl, rfl, rfl, rfl, ?_⟩
            have named : NamesLoader line := ⟨names, by rw [same]; exact List.cons_ne_nil c path⟩
            exact ⟨fun _ => .inr named, fun _ => rfl⟩
        · rename_i notLoader
          have none : ¬ NamesLoader line := fun named => notLoader named.1
          split
          · exact ⟨rfl, rfl, loader, rfl, (or_iff_left none).symm⟩
          · split
            · exact ⟨rfl, rfl, loader, rfl, (or_iff_left none).symm⟩
            · rw [noFirmware, if_neg Bool.false_ne_true]
              exact ⟨rfl, rfl, loader, rfl, (or_iff_left none).symm⟩

/-- The loader lines of a block have a path. -/
def BlockPaths (body : Lines) : Prop := ∀ line ∈ body, isToken line "loader" = true → 2 ≤ line.length

theorem submenuLine_complete {volume : V} {st : SubmenuState V} {line : Line}
    (path : isToken line "loader" = true → 2 ≤ line.length) (h : Complete st.target) :
    Complete (submenuLine volume st line).target := by
  rw [submenuLine]
  split
  · rename_i names
    refine ⟨?_, rfl⟩
    rw [List.getElem?_eq_getElem (path names)]
    rfl
  · split
    · exact ⟨h.path, h.volume⟩
    · split
      · exact ⟨h.path, h.volume⟩
      · split
        · exact ⟨h.path, h.volume⟩
        · split
          · exact h
          · exact h

theorem submenuLines_complete {volume : V} {st : SubmenuState V} {body : Lines}
    (paths : BlockPaths body) (h : Complete st.target) :
    Complete (body.foldl (submenuLine volume) st).target := by
  induction body generalizing st with
  | nil => exact h
  | cons line body ih =>
    obtain ⟨first, rest⟩ := List.forall_mem_cons.mp paths
    exact ih rest (submenuLine_complete first h)

theorem submenuTarget_complete {st : SubmenuState V} (h : Complete st.target) :
    Complete (submenuTarget st) := by
  rw [submenuTarget]
  split
  · exact ⟨h.path, h.volume⟩
  · exact ⟨h.path, h.volume⟩

/-! ### The items that are read -/

/-- The stanza's items as the loop reads them: without the closed disabled blocks, and up to an open
one, whose lines behind the mark come last. -/
def effective : List Item → List Item
  | [] => []
  | .line tokens :: items => .line tokens :: effective items
  | .submenu header body close :: items =>
    if body.any isDisabled then
      if volumeFirst body then effective items else (afterMark body).map .line
    else .submenu header body close :: effective items

/-- The title token of an enabled block. -/
def enabledBlock : Item → Option (Option Str)
  | .line _ => none
  | .submenu header body _ => if body.any isDisabled then none else some header[1]?

def enabledBlocks (items : List Item) : List (Option Str) := items.filterMap enabledBlock

def Item.isLine : Item → Bool
  | .line _ => true
  | .submenu .. => false

/-- An item that the loop reads: a line, or an enabled block. -/
def effectiveStep (env : StanzaEnv V) (volume : V) (st : StanzaState V) : Item → StanzaState V
  | .line tokens => stanzaLine env volume st tokens
  | .submenu header body _ =>
    { st with entry := withSubmenu env volume st.entry header body, addedSubmenu := true }

theorem itemsRun_effective (env : StanzaEnv V) (volume : V) (st : StanzaState V)
    (items : List Item) :
    ended (itemsRun env volume st items) =
      (effective items).foldl (effectiveStep env volume) st := by
  induction items generalizing st with
  | nil => rfl
  | cons item items ih =>
    rw [itemsRun_cons]
    cases item with
    | line tokens => exact ih _
    | submenu header body close =>
      rw [itemStep, effective]
      cases body.any isDisabled with
      | false => exact ih _
      | true =>
        cases volumeFirst body with
        | true => exact ih st
        | false =>
          show (afterMark body).foldl (stanzaLine env volume) st =
            ((afterMark body).map Item.line).foldl (effectiveStep env volume) st
          rw [List.foldl_map]
          rfl

/-- What the items of a stanza for a loader look like: no line asks for a firmware boot number, and
the loader lines of blocks have a path. -/
def ForLoader : Item → Prop
  | .line tokens => isToken tokens "firmware_bootnum" = false
  | .submenu _ body _ =>
    (∀ line ∈ body, isToken line "firmware_bootnum" = false) ∧ BlockPaths body

/-- A read item is enabled. -/
def Enabled : Item → Prop
  | .line _ => True
  | .submenu _ body _ => body.any isDisabled = false

/-- What is read of a stanza: its lines, the lines behind the mark of an open block, and its enabled blocks. -/
theorem mem_effective {items : List Item} {item : Item} (mem : item ∈ effective items) :
    item ∈ items ∧ Enabled item ∨
      ∃ header body close line, .submenu header body close ∈ items ∧ line ∈ body ∧ item = .line line := by
  induction items with
  | nil => exact absurd mem List.not_mem_nil
  | cons first items ih =>
    have later : item ∈ effective items → item ∈ first :: items ∧ Enabled item ∨
        ∃ header body close line, .submenu header body close ∈ first :: items ∧ line ∈ body ∧ item = .line line := by
      intro mem
      rcases ih mem with ⟨there, enabled⟩ | ⟨header, body, close, line, there, leaked, read⟩
      · exact .inl ⟨List.mem_cons_of_mem _ there, enabled⟩
      · exact .inr ⟨header, body, close, line, List.mem_cons_of_mem _ there, leaked, read⟩
    cases first with
    | line tokens =>
      obtain rfl | mem := List.mem_cons.mp mem
      · exact .inl ⟨List.mem_cons_self, trivial⟩
      · exact later mem
    | submenu header body close =>
      rw [effective] at mem
      split at mem
      · split at mem
        · exact later mem
        · obtain ⟨line, leaked, rfl⟩ := List.mem_map.mp mem
          exact .inr ⟨header, body, close, line, List.mem_cons_self, afterMark_subset leaked, rfl⟩
      · rename_i enabled
        obtain rfl | mem := List.mem_cons.mp mem
        · exact .inl ⟨List.mem_cons_self, Bool.eq_false_iff.mpr enabled⟩
        · exact later mem

theorem effective_spec {items : List Item} (loader : ∀ item ∈ items, ForLoader item) :
    ∀ item ∈ effective items, ForLoader item ∧ Enabled item := by
  intro item mem
  rcases mem_effective mem with ⟨there, enabled⟩ | ⟨header, body, close, line, there, leaked, rfl⟩
  · exact ⟨loader item there, enabled⟩
  · exact ⟨(loader _ there).1 line leaked, trivial⟩

/-! ### The submenu while the items are read -/

def blockTitle (env : StanzaEnv V) (volume : V) (title : Option Str) : Str :=
  env.loaderTitle (title.getD "Instance: Unknown".toList) volume

/-- The stanza's lines before its first block. -/
def leadingLines (items : List Item) : List Item := items.takeWhile Item.isLine

/-- The submenu by the number of enabled blocks. -/
inductive Built (env : StanzaEnv V) (volume : V) (items : List Item) :
    List (Option Str) → Bool → Option (Screen V) → Prop where
  | none : Built env volume items [] false none
  | one {title : Option Str} {screen : Screen V} {first sub : Target V} :
      Holds screen [.loader Option.none first, .loader (some (blockTitle env volume title)) sub] →
      (first.loaderPath.isSome = true ↔ HasLoader (leadingLines items)) →
      first.volume = some volume → (first.loaderPath.isSome = true → Complete sub) →
      Built env volume items [title] true (some screen)
  | more {title title' : Option Str} {titles : List (Option Str)} {screen : Screen V} :
      screen.inside = false → Built env volume items (title :: title' :: titles) true (some screen)

structure Tracked (env : StanzaEnv V) (volume : V) (items : List Item) (st : StanzaState V) :
    Prop where
  path : st.entry.target.loaderPath.isSome = true ↔ HasLoader items
  onVolume : st.entry.target.volume = some volume
  loader : st.gotFirmwareTag = false
  built : Built env volume items (enabledBlocks items) st.addedSubmenu st.entry.subScreen

theorem hasLoader_concat_line (items : List Item) (tokens : Line) :
    HasLoader (items ++ [.line tokens]) ↔ HasLoader items ∨ NamesLoader tokens := by
  have own : ownLines (items ++ [.line tokens]) = ownLines items ++ [tokens] := List.filterMap_append
  rw [HasLoader, own]
  constructor
  · rintro ⟨line, mem, names⟩
    obtain before | here := List.mem_append.mp mem
    · exact .inl ⟨line, before, names⟩
    · rw [List.mem_singleton.mp here] at names
      exact .inr names
  · rintro (⟨line, mem, names⟩ | names)
    · exact ⟨line, List.mem_append_left _ mem, names⟩
    · exact ⟨tokens, List.mem_append_right _ (List.mem_singleton.mpr rfl), names⟩

theorem hasLoader_concat_submenu (items : List Item) (header : Line) (body : Lines) (close : Line) :
    HasLoader (items ++ [.submenu header body close]) ↔ HasLoader items := by
  have own : ownLines (items ++ [.submenu header body close]) = ownLines items := by
    rw [ownLines, List.filterMap_append]
    exact List.append_nil _
  rw [HasLoader, own]
  rfl

theorem enabledBlocks_concat_line (items : List Item) (tokens : Line) :
    enabledBlocks (items ++ [.line tokens]) = enabledBlocks items := by
  rw [enabledBlocks, List.filterMap_append]
  exact List.append_nil _

theorem enabledBlocks_concat_submenu (items : List Item) {header : Line} {body : Lines}
    {close : Line} (enabled : body.any isDisabled = false) :
    enabledBlocks (items ++ [.submenu header body close]) = enabledBlocks items ++ [header[1]?] := by
  have block : enabledBlock (.submenu header body close) = some header[1]? := by
    rw [enabledBlock, enabled, if_neg Bool.false_ne_true]
  rw [enabledBlocks, List.filterMap_append, List.filterMap_cons_some block]
  rfl

/-- Without blocks, all lines are leading ones. -/
theorem leadingLines_of_no_block {items : List Item} (enabled : ∀ item ∈ items, Enabled item)
    (none : enabledBlocks items = []) : leadingLines items = items := by
  apply List.takeWhile_eq_self_iff.mpr
  intro item mem
  cases item with
  | line tokens => rfl
  | submenu header body close =>
    have inside : header[1]? ∈ enabledBlocks items := by
      apply List.mem_filterMap.mpr
      refine ⟨_, mem, ?_⟩
      rw [enabledBlock, enabled _ mem, if_neg Bool.false_ne_true]
    rw [none] at inside
    exact absurd inside List.not_mem_nil

/-- Behind a block, more items change no leading line. -/
theorem leadingLines_concat {items : List Item} {title : Option Str}
    (block : title ∈ enabledBlocks items) (item : Item) :
    leadingLines (items ++ [item]) = leadingLines items := by
  obtain ⟨found, mem, isBlock⟩ := List.mem_filterMap.mp block
  rw [leadingLines, leadingLines, List.takeWhile_append, if_neg]
  intro all
  have whole := (List.takeWhile_sublist Item.isLine).eq_of_length all
  have isLine := List.takeWhile_eq_self_iff.mp whole found mem
  cases found with
  | line tokens => cases isBlock
  | submenu header body close => cases isLine

/-- The submenu of the first block. -/
theorem withSubmenu_first (env : StanzaEnv V) (volume : V) {entry : StanzaEntry V}
    (none : entry.subScreen = none) (header : Line) {body : Lines} {close : Line}
    (valid : ValidBlock header body close) (enabled : body.any isDisabled = false)
    (paths : BlockPaths body) :
    ∃ screen first sub, (withSubmenu env volume entry header body).subScreen = some screen ∧
      Holds screen [.loader Option.none first, .loader (some (blockTitle env volume header[1]?)) sub] ∧
      first.loaderPath = entry.target.loaderPath ∧ first.volume = entry.target.volume ∧
      (first.loaderPath.isSome = true → Complete sub) := by
  obtain ⟨found, alone, _⟩ :=
    volumeLoop_enabled env.toVolumeEnv valid.body enabled valid.close false volume
  obtain ⟨first, items, path, onVolume⟩ :=
    initializeSubScreen_default env.toSubScreenEnv entry.toLoaderEntry
  have fresh : Holds (initializeSubScreen env entry) [.loader Option.none first] := by
    rw [initializeSubScreen, none]
    dsimp only
    rw [items]
    exact Holds.empty.add _
  refine ⟨_, first, _, rfl, fresh.add _, path, onVolume, ?_⟩
  intro some
  rw [path] at some
  apply submenuTarget_complete
  apply submenuLines_complete paths
  refine ⟨some, ?_⟩
  rw [getStanzaVolume, alone]
  rfl

theorem tracked_step {env : StanzaEnv V} {volume : V} {items : List Item} {st : StanzaState V}
    (h : Tracked env volume items st) {item : Item} (valid : item.Valid) (loader : ForLoader item)
    (enabled : Enabled item) (before : ∀ item ∈ items, Enabled item) :
    Tracked env volume (items ++ [item]) (effectiveStep env volume st item) := by
  obtain ⟨path, onVolume, noFirmware, built⟩ := h
  cases item with
  | line tokens =>
    obtain ⟨screen, added, firmware, sameVolume, samePath⟩ :=
      stanzaLine_keeps env volume noFirmware loader
    refine ⟨?_, sameVolume.trans onVolume, firmware, ?_⟩
    · rw [hasLoader_concat_line, ← path]
      exact samePath
    · show Built env volume _ _ (stanzaLine env volume st tokens).addedSubmenu
        (stanzaLine env volume st tokens).entry.subScreen
      rw [enabledBlocks_concat_line, screen, added]
      generalize blocks : enabledBlocks items = titles at built ⊢
      generalize st.addedSubmenu = added, st.entry.subScreen = screen at built ⊢
      cases built with
      | none => exact .none
      | one holds leading firstVolume complete =>
        refine .one holds ?_ firstVolume complete
        rw [leadingLines_concat (by rw [blocks]; exact List.mem_singleton.mpr rfl)]
        exact leading
      | more outside => exact .more outside
  | submenu header body close =>
    refine ⟨?_, onVolume, noFirmware, ?_⟩
    · rw [hasLoader_concat_submenu]
      exact path
    · show Built env volume _ _ true (withSubmenu env volume st.entry header body).subScreen
      rw [enabledBlocks_concat_submenu items enabled]
      generalize blocks : enabledBlocks items = titles at built ⊢
      generalize st.addedSubmenu = added at built
      generalize screens : st.entry.subScreen = old at built
      cases built with
      | none =>
        obtain ⟨screen, first, sub, made, holds, firstPath, firstVolume, complete⟩ :=
          withSubmenu_first env volume screens header valid enabled loader.2
        rw [made, List.nil_append]
        refine .one holds ?_ (firstVolume.trans onVolume) complete
        have leading : leadingLines (items ++ [.submenu header body close]) = items := by
          have lines := leadingLines_of_no_block before blocks
          rw [leadingLines] at lines
          rw [leadingLines, List.takeWhile_append, lines, if_pos rfl]
          exact List.append_nil _
        rw [leading, firstPath]
        exact path
      | one holds _ _ _ =>
        apply Built.more
        apply addListElement_outside
        rw [initializeSubScreen, screens]
        have still : 2 % 16 ≠ 0 := by decide
        exact copyMenuScreen_overruns holds still
      | more outside =>
        apply Built.more
        apply addListElement_outside
        rw [initializeSubScreen, screens]
        exact copyMenuScreen_outside outside

theorem tracked_run (env : StanzaEnv V) (volume : V) (title : Str) {items : List Item}
    (valid : ∀ item ∈ items, item.Valid)
    (read : ∀ item ∈ items, ForLoader item ∧ Enabled item) :
    Tracked env volume items (items.foldl (effectiveStep env volume) (startStanza volume title)) := by
  induction items using List.reverseRecOn with
  | nil =>
    refine ⟨?_, rfl, rfl, .none⟩
    constructor
    · intro impossible
      cases impossible
    · rintro ⟨line, mem, _⟩
      exact absurd mem List.not_mem_nil
  | append_singleton items item ih =>
    have last : item ∈ items ++ [item] := List.mem_append_right _ (List.mem_singleton.mpr rfl)
    rw [List.foldl_append]
    apply tracked_step
    · apply ih
      · exact fun item mem => valid item (List.mem_append_left _ mem)
      · exact fun item mem => read item (List.mem_append_left _ mem)
    · exact valid item last
    · exact (read item last).1
    · exact (read item last).2
    · exact fun item mem => (read item (List.mem_append_left _ mem)).2

theorem valid_effective {items : List Item} (valid : ∀ item ∈ items, item.Valid) :
    ∀ item ∈ effective items, item.Valid := by
  intro item mem
  rcases mem_effective mem with ⟨there, _⟩ | ⟨header, body, close, line, there, leaked, rfl⟩
  · exact valid item there
  · exact ValidBlock.body (valid _ there) line leaked

/-- The blocks that are read are the first ones. -/
theorem enabledBlocks_prefix (items : List Item) :
    enabledBlocks (effective items) <+: enabledBlocks items := by
  induction items with
  | nil => exact List.prefix_rfl
  | cons item items ih =>
    cases item with
    | line tokens => exact ih
    | submenu header body close =>
      rw [effective]
      cases marked : body.any isDisabled with
      | false =>
        have block : enabledBlock (.submenu header body close) = some header[1]? := by
          rw [enabledBlock, marked, if_neg Bool.false_ne_true]
        rw [if_neg Bool.false_ne_true, enabledBlocks, enabledBlocks,
          List.filterMap_cons_some block, List.filterMap_cons_some block]
        exact List.prefix_cons_inj _ |>.mpr ih
      | true =>
        have none : enabledBlock (.submenu header body close) = none := by
          rw [enabledBlock, marked, if_pos rfl]
        rw [if_pos rfl, enabledBlocks, enabledBlocks, List.filterMap_cons_none none]
        split
        · exact ih
        · have lines : ((afterMark body).map Item.line).filterMap enabledBlock = [] := by
            rw [List.filterMap_map]
            exact List.filterMap_eq_nil_iff.mpr fun _ _ => rfl
          rw [lines]
          exact List.nil_prefix

/-! ### The whole stanza -/

/-- The entry's submenu is the default entry, an entry for each title, and the return entry, all of
them complete, and was built inside its array. -/
def SubmenusListed (env : StanzaEnv V) (entry : StanzaEntry V) (titles : List (Option Str)) : Prop :=
  ∃ (screen : Screen V) (volume : V) (first : Target V) (subs : List (Str × Target V)),
    entry.subScreen = some screen ∧ screen.inside = true ∧ entry.target.volume = some volume ∧
    screen.elements = some (.loader none first) ::
      subs.map (fun sub => some (.loader (some sub.1) sub.2)) ++ [some (.header .ret none)] ∧
    subs.map Prod.fst = titles.map (blockTitle env volume) ∧
    Complete first ∧ ∀ sub ∈ subs, Complete sub.2

/-- The stanza names a loader before its first block, and has one enabled block, which is read, or
none, and no entries of the loader's OS type are added. -/
def SubmenusBuilt (env : StanzaEnv V) (selfVolume : V) (items : List Item)
    (entry : StanzaEntry V) : Prop :=
  HasLoader (leadingLines (effective items)) ∧
    ((enabledBlocks items).length = 1 ∧ enabledBlocks (effective items) = enabledBlocks items ∨
      enabledBlocks items = [] ∧
        osSubEntries env.toSubScreenEnv (setXomOptions entry.toLoaderEntry) selfVolume
          (Menu.initializeSubScreen env.toSubScreenEnv entry.toLoaderEntry) = [])

theorem setDefaults_keeps (env : StanzaEnv V) (entry : StanzaEntry V) (path : Str) (volume : V) :
    (setDefaults env entry path volume).target.loaderPath = entry.target.loaderPath ∧
      (setDefaults env entry path volume).target.volume = entry.target.volume ∧
      (setDefaults env entry path volume).subScreen = entry.subScreen := ⟨rfl, rfl, rfl⟩

/-- What the end of a stanza does to the entry's loader and submenu. -/
theorem finishStanza_keeps (env : StanzaEnv V) (selfVolume volume : V) {st : StanzaState V}
    (loader : st.gotFirmwareTag = false) :
    (finishStanza env selfVolume volume st).target.loaderPath = st.entry.target.loaderPath ∧
      (finishStanza env selfVolume volume st).target.volume = st.entry.target.volume ∧
      (finishStanza env selfVolume volume st).subScreen =
        if st.addedSubmenu then
          st.entry.subScreen.map fun screen => addListElement screen (.header .ret none)
        else st.entry.subScreen := by
  rw [finishStanza, loader]
  cases st.addedSubmenu <;> cases st.defaultsSet <;> cases env.named volume <;>
    exact ⟨rfl, rfl, rfl⟩

theorem screenOf_holds (items : List (SubItem V)) :
    Holds (screenOf items) (items.map elementOf) := Holds.empty.addAll _

/-- The submenu that a stanza without blocks is given. -/
theorem completeSubScreen_listed (env : StanzaEnv V) (selfVolume : V) {entry : StanzaEntry V}
    (none : entry.subScreen = none) :
    ∃ first screen, (completeSubScreen env selfVolume entry).subScreen = some screen ∧
      Menu.initializeSubScreen env.toSubScreenEnv entry.toLoaderEntry = [.loader first] ∧
      first.loaderPath = entry.target.loaderPath ∧ first.volume = entry.target.volume ∧
      (completeSubScreen env selfVolume entry).target.volume = entry.target.volume ∧
      Holds screen (.loader Option.none first ::
        (osSubEntries env.toSubScreenEnv (setXomOptions entry.toLoaderEntry) selfVolume
          (Menu.initializeSubScreen env.toSubScreenEnv entry.toLoaderEntry)).map elementOf ++
        [.header .ret Option.none]) := by
  obtain ⟨first, items, path, onVolume⟩ :=
    initializeSubScreen_default env.toSubScreenEnv entry.toLoaderEntry
  have complete : completeSubScreen env selfVolume entry =
      let whole := generateSubScreen env.toSubScreenEnv entry.toLoaderEntry selfVolume true
      { entry with target := whole.target, subScreen := some (screenOf whole.subScreen) } := by
    rw [completeSubScreen, none]
  refine ⟨first, _, by rw [complete], items, path, onVolume, ?_, ?_⟩
  · rw [complete]
    exact generateSubScreen_volume env.toSubScreenEnv entry.toLoaderEntry selfVolume true
  · have holds := screenOf_holds
      (generateSubScreen env.toSubScreenEnv entry.toLoaderEntry selfVolume true).subScreen
    have elements : (generateSubScreen env.toSubScreenEnv entry.toLoaderEntry selfVolume
        true).subScreen.map elementOf = .loader Option.none first ::
          (osSubEntries env.toSubScreenEnv (setXomOptions entry.toLoaderEntry) selfVolume
            (Menu.initializeSubScreen env.toSubScreenEnv entry.toLoaderEntry)).map elementOf ++
          [.header .ret Option.none] := by
      show ((Menu.initializeSubScreen _ _ ++ osSubEntries _ _ _ _) ++ [SubItem.ret]).map elementOf = _
      rw [items, List.map_append, List.map_append]
      rfl
    rw [elements] at holds
    exact holds

/-- Entries without a title of their own are no entries of blocks. -/
theorem no_entries_of_untitled {os : List (SubItem V)} {P : Target V → Prop} (loaders : LoadersOf P os)
    {subs : List (Str × Target V)}
    (same : (os.map elementOf).map some =
      subs.map fun sub => some (SubElement.loader (some sub.1) sub.2)) : os = [] ∧ subs = [] := by
  cases os with
  | nil =>
    cases subs with
    | nil => exact ⟨rfl, rfl⟩
    | cons sub subs => cases same
  | cons item os =>
    obtain ⟨target, rfl, _⟩ := loaders item List.mem_cons_self
    cases subs with
    | nil => cases same
    | cons sub subs =>
      obtain ⟨head, _⟩ := List.cons.inj same
      cases head

def submenuOf (title options : String) : Item :=
  .submenu (wordLine ["submenuentry", title]) [wordLine ["options", options]] (wordLine ["\x7d"])

theorem submenuOf_valid (title options : String) : (submenuOf title options).Valid := by
  have plain : IsPlain (wordLine ["options", options]) := ⟨rfl, rfl⟩
  exact ⟨rfl, List.forall_mem_singleton.mpr plain, rfl⟩

def loaderLine : Item := .line (wordLine ["loader", "a"])

end Meridian.Config
