import Meridian.Config.Lines
import Meridian.Config.Tokens

/-!
# The readers of a configuration file

How `GetIsDisabled`, `GetStanzaVolume`, `InitializeStanza` and `ScanUserConfigured` of
`config/config_stanza.c`, `AddSubmenu` of `config/config_submenu.c`, and the loop over an options file
in `GenerateSubScreen` of `discovery/entry_build.c` move over the lines of a file, and which lines they
handle on the way. The entries that they make are left out.
-/

namespace Meridian.Config

open Text

/-- A position in a file: the lines that are still to be read. The macros stay when a position is
restored. -/
structure Source where
  macros : Macros
  lines : List Str

def Source.readTokenLine (build : BuildNames) (source : Source) : List Str × Source :=
  let read := Config.readTokenLine build source.macros false source.lines
  (read.2.1, ⟨read.1, read.2.2⟩)

theorem readTokenLine_le (build : BuildNames) (macros : Macros) (isQuoted : Bool) (lines : List Str) :
    (readTokenLine build macros isQuoted lines).2.2.length ≤ lines.length := by
  induction lines generalizing macros isQuoted with
  | nil => exact Nat.le_refl 0
  | cons line rest ih =>
    rw [readTokenLine]
    split
    · exact Nat.le_succ_of_le (ih _ _)
    · exact Nat.le_succ _

/-! ### Lines that are handled -/

/-- Which code handles a line, with what it knows of the lines before. -/
inductive Reader where
  /-- `ScanUserConfigured`. -/
  | scan (manualInclude : Bool)
  /-- Code that looks at the first token only. -/
  | keyword
  /-- `GetStanzaVolume`, where it takes the name of a volume. -/
  | volume
  /-- `InitializeStanza`: whether there is a graphics tag, and whether there is a firmware tag. -/
  | stanza (graphicsTag gotFirmwareTag : Bool)
  /-- `AddSubmenu`: whether there is a graphics tag. -/
  | submenu (graphicsTag : Bool)
  /-- The first line of an options file. -/
  | firstOptions
  | options
  deriving DecidableEq, Repr

structure Visit where
  reader : Reader
  tokens : List Str
  deriving DecidableEq, Repr

/-! ### Loops -/

/-- What the body of a loop does with a line: its variables, whether the loop ends, the position, and
the lines that were handled. -/
structure Handled (σ : Type) where
  state : σ
  stop : Bool := false
  source : Source
  visits : List Visit

/-- The body of a loop over lines. It may read on, but never goes back behind the line. -/
structure Handler (σ : Type) where
  handle : σ → List Str → Source → Handled σ
  onwards : ∀ st tokens source, (handle st tokens source).source.lines.length ≤ source.lines.length

variable {σ : Type}

/-- `while (1)` over token lines, up to the end of the file. -/
def Source.loop (build : BuildNames) (handler : Handler σ) (st : σ) (source : Source) : Handled σ :=
  let read := source.readTokenLine build
  if _more : read.1 ≠ [] then
    let handled := handler.handle st read.1 read.2
    if handled.stop then handled
    else
      let later := Source.loop build handler handled.state handled.source
      { later with visits := handled.visits ++ later.visits }
  else { state := st, source := read.2, visits := [] }
termination_by source.lines.length
decreasing_by exact Nat.lt_of_le_of_lt (handler.onwards _ _ _) (readTokenLine_length _more)

theorem loop_onwards (build : BuildNames) (handler : Handler σ) (st : σ) (source : Source) :
    (Source.loop build handler st source).source.lines.length ≤ source.lines.length := by
  fun_induction Source.loop build handler st source with
  | case1 st source read more handled stop =>
    exact Nat.le_trans (handler.onwards _ _ _) (readTokenLine_le ..)
  | case2 st source read more handled goesOn later ih =>
    exact Nat.le_trans ih (Nat.le_trans (handler.onwards _ _ _) (readTokenLine_le ..))
  | case3 st source read none => exact readTokenLine_le ..

/-- What holds of the lines that the body handles holds of those that the loop handles. -/
theorem loop_visits {build : BuildNames} {handler : Handler σ} {P : Visit → Prop}
    (each : ∀ st tokens source, tokens ≠ [] → ∀ visit ∈ (handler.handle st tokens source).visits, P visit)
    (st : σ) (source : Source) : ∀ visit ∈ (Source.loop build handler st source).visits, P visit := by
  fun_induction Source.loop build handler st source with
  | case1 st source read more handled stop => exact each _ _ _ more
  | case2 st source read more handled goesOn later ih =>
    intro visit mem
    rcases List.mem_append.mp mem with here | there
    · exact each _ _ _ more visit here
    · exact ih visit there
  | case3 st source read none => exact fun visit mem => (nomatch mem)

/-! ### Look-ahead -/

variable {V : Type}

/-- The configuration, and the files that are read. -/
structure ReaderEnv (V : Type) extends VolumeEnv V where
  build : BuildNames
  configFilename : Str
  /-- The lines of a file beside the program, if it can be read. -/
  file : Str → Option (List Str)
  /-- The lines of the options file that `GenerateSubScreen` reads for the entry that these lines of a
  stanza make, if it is called for it and reads one. -/
  optionsFile : List Visit → Option (List Str)

/-- The body of `GetIsDisabled`, with the depth and the mark. -/
def disabledHandler : Handler (Nat × Bool) where
  handle := fun (subMenus, isDisabled) tokens source =>
    let visits := [⟨.keyword, tokens⟩]
    if isToken tokens "disabled" then { state := (subMenus, true), source := source, visits := visits }
    else if isToken tokens "submenuentry" then
      { state := (subMenus + 1, isDisabled), source := source, visits := visits }
    else if isToken tokens "\x7d" then
      if subMenus < 1 then
        { state := (subMenus, isDisabled), stop := true, source := source, visits := visits }
      else { state := (subMenus - 1, isDisabled), source := source, visits := visits }
    else { state := (subMenus, isDisabled), source := source, visits := visits }
  onwards := by
    intro st tokens source
    dsimp only
    repeat' split
    all_goals exact Nat.le_refl _

def Source.getIsDisabled (build : BuildNames) (source : Source) : Handled Bool :=
  let found := Source.loop build disabledHandler (0, false) source
  { state := found.state.2
    source := if found.state.2 then found.source else { found.source with lines := source.lines }
    visits := found.visits }

theorem getIsDisabled_onwards (build : BuildNames) (source : Source) :
    (source.getIsDisabled build).source.lines.length ≤ source.lines.length := by
  rw [Source.getIsDisabled]
  dsimp only
  split
  · exact loop_onwards ..
  · exact Nat.le_refl _

/-- The variables of `GetStanzaVolume`. -/
structure VolumeState (V : Type) where
  subMenus : Nat := 0
  checkedVolume : Bool := false
  isDisabled : Bool := false
  subjectVolume : V

/-- The body of `GetStanzaVolume`. -/
def volumeHandler (env : ReaderEnv V) : Handler (VolumeState V) where
  handle st tokens source :=
    let visits := [⟨.keyword, tokens⟩]
    if isToken tokens "\x7d" then
      if st.subMenus < 1 then { state := st, stop := true, source := source, visits := visits }
      else { state := { st with subMenus := st.subMenus - 1 }, source := source, visits := visits }
    else if isToken tokens "submenuentry" then
      { state := { st with subMenus := st.subMenus + 1 }, source := source, visits := visits }
    else if st.isDisabled || st.subMenus > 0 then { state := st, source := source, visits := visits }
    else if isToken tokens "disabled" then
      { state := { st with isDisabled := true }, stop := true, source := source, visits := visits }
    else if !isToken tokens "volume" || st.checkedVolume then
      { state := st, source := source, visits := visits }
    else
      let ahead := source.getIsDisabled env.build
      if ahead.state then
        { state := { st with isDisabled := true }
          stop := true
          source := ahead.source
          visits := visits ++ ahead.visits }
      else
        let visits := visits ++ ahead.visits ++ [⟨.volume, tokens⟩]
        match env.findVolume tokens[1]? with
        | some found =>
          if env.usable found then
            { state := { st with checkedVolume := true, subjectVolume := found }
              source := ahead.source
              visits := visits }
          else { state := st, source := ahead.source, visits := visits }
        | none => { state := st, source := ahead.source, visits := visits }
  onwards := by
    intro st tokens source
    have ahead := getIsDisabled_onwards env.build source
    dsimp only
    repeat' split
    all_goals first | exact Nat.le_refl _ | exact ahead

/-- The position is restored unless the stanza is disabled. -/
def Source.getStanzaVolume (env : ReaderEnv V) (source : Source) (volume : V) : Handled (Option V) :=
  let found := Source.loop env.build (volumeHandler env) { subjectVolume := volume } source
  if found.state.isDisabled then { state := none, source := found.source, visits := found.visits }
  else
    { state := some found.state.subjectVolume
      source := { found.source with lines := source.lines }
      visits := found.visits }

theorem getStanzaVolume_onwards (env : ReaderEnv V) (source : Source) (volume : V) :
    (source.getStanzaVolume env volume).source.lines.length ≤ source.lines.length := by
  rw [Source.getStanzaVolume]
  dsimp only
  split
  · exact loop_onwards ..
  · exact Nat.le_refl _

/-! ### Stanzas -/

/-- The body of `AddSubmenu`, with whether there is a graphics tag. -/
def submenuHandler : Handler Bool where
  handle graphicsTag tokens source :=
    if isToken tokens "\x7d" then
      { state := graphicsTag, stop := true, source := source, visits := [⟨.keyword, tokens⟩] }
    else
      { state := graphicsTag || isToken tokens "graphics"
        source := source
        visits := [⟨.submenu graphicsTag, tokens⟩] }
  onwards := by
    intro st tokens source
    split <;> exact Nat.le_refl _

def Source.addSubmenu (env : ReaderEnv V) (source : Source) (volume : V) : Handled Unit :=
  let found := source.getStanzaVolume env volume
  if found.state.isNone then { state := (), source := found.source, visits := found.visits }
  else
    let block := Source.loop env.build submenuHandler false found.source
    { state := (), source := block.source, visits := found.visits ++ block.visits }

theorem addSubmenu_onwards (env : ReaderEnv V) (source : Source) (volume : V) :
    (source.addSubmenu env volume).source.lines.length ≤ source.lines.length := by
  have found := getStanzaVolume_onwards env source volume
  rw [Source.addSubmenu]
  split
  · exact found
  · exact Nat.le_trans (loop_onwards ..) found

/-- What `InitializeStanza` knows of the lines before. -/
structure StanzaTags where
  graphicsTag : Bool := false
  gotFirmwareTag : Bool := false

/-- The body of `InitializeStanza`. -/
def stanzaHandler (env : ReaderEnv V) (volume : V) : Handler StanzaTags where
  handle tags tokens source :=
    if isToken tokens "\x7d" then
      { state := tags, stop := true, source := source, visits := [⟨.keyword, tokens⟩] }
    else
      let visit : Visit := ⟨.stanza tags.graphicsTag tags.gotFirmwareTag, tokens⟩
      if isToken tokens "submenuentry" then
        let sub := source.addSubmenu env volume
        { state := tags, source := sub.source, visits := visit :: sub.visits }
      else
        { state :=
            { graphicsTag := tags.graphicsTag || isToken tokens "graphics"
              gotFirmwareTag := tags.gotFirmwareTag || isToken tokens "firmware_bootnum" }
          source := source
          visits := [visit] }
  onwards := by
    intro st tokens source
    have sub := addSubmenu_onwards env source volume
    dsimp only
    repeat' split
    all_goals first | exact Nat.le_refl _ | exact sub

def Source.initializeStanza (env : ReaderEnv V) (source : Source) (selfVolume : V) : Handled Unit :=
  let found := source.getStanzaVolume env selfVolume
  match found.state with
  | none => { state := (), source := found.source, visits := found.visits }
  | some volume =>
    let stanza := Source.loop env.build (stanzaHandler env volume) {} found.source
    { state := (), source := stanza.source, visits := found.visits ++ stanza.visits }

theorem initializeStanza_onwards (env : ReaderEnv V) (source : Source) (selfVolume : V) :
    (source.initializeStanza env selfVolume).source.lines.length ≤ source.lines.length := by
  have found := getStanzaVolume_onwards env source selfVolume
  rw [Source.initializeStanza]
  split
  · exact found
  · exact Nat.le_trans (loop_onwards ..) found

/-! ### Files -/

/-- The lines of an options file, with whether the first one is still to come. -/
def optionsHandler : Handler Bool where
  handle first tokens source :=
    { state := false, source := source, visits := [⟨if first then .firstOptions else .options, tokens⟩] }
  onwards := fun _ _ _ => Nat.le_refl _

/-- The lines that `GenerateSubScreen` reads for a stanza; only its macros stay. -/
def generateSubScreenLines (env : ReaderEnv V) (macros : Macros) (stanza : List Visit) :
    Macros × List Visit :=
  match env.optionsFile stanza with
  | none => (macros, [])
  | some lines =>
    let read := Source.loop env.build optionsHandler true ⟨macros, lines⟩
    (read.source.macros, read.visits)

/-- The body of `ScanUserConfigured`; there is no `include` while a file is included. -/
def scanHandler (env : ReaderEnv V) (selfVolume : V) (fileName : Str)
    (scanInclude? : Option (Macros → Str → Macros × List Visit)) : Handler Unit where
  handle _ tokens source :=
    let visit : Visit := ⟨.scan scanInclude?.isNone, tokens⟩
    if tokens.length > 1 && isToken tokens "menuentry" then
      let stanza := source.initializeStanza env selfVolume
      let sub := generateSubScreenLines env stanza.source.macros stanza.visits
      { state := ()
        source := { stanza.source with macros := sub.1 }
        visits := visit :: (stanza.visits ++ sub.2) }
    else
      match scanInclude? with
      | none => { state := (), source := source, visits := [visit] }
      | some scanInclude =>
        if tokens.length = 2 && !equalsCI (tokens.getD 1 []) fileName && isToken tokens "include" &&
            equalsCI fileName env.configFilename then
          let included := scanInclude source.macros (tokens.getD 1 [])
          { state := ()
            source := { source with macros := included.1 }
            visits := visit :: included.2 }
        else { state := (), source := source, visits := [visit] }
  onwards := by
    intro st tokens source
    have stanza := initializeStanza_onwards env source selfVolume
    dsimp only
    repeat' split
    all_goals first | exact Nat.le_refl _ | exact stanza

/-- `ScanUserConfigured`: the macros behind the file and the lines that were handled. -/
def scanFile (env : ReaderEnv V) (selfVolume : V)
    (scanInclude? : Option (Macros → Str → Macros × List Visit)) (macros : Macros) (fileName : Str) :
    Macros × List Visit :=
  match env.file fileName with
  | none => (macros, [])
  | some lines =>
    let read := Source.loop env.build (scanHandler env selfVolume fileName scanInclude?) () ⟨macros, lines⟩
    (read.source.macros, read.visits)

def scanUserConfigured (env : ReaderEnv V) (selfVolume : V) (macros : Macros) (fileName : Str) :
    Macros × List Visit :=
  scanFile env selfVolume (some (scanFile env selfVolume none)) macros fileName

end Meridian.Config
