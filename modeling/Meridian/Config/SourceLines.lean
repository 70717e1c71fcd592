import Meridian.Config.Source
import Meridian.Config.Stanza

/-!
# Files and their token lines

While a file's lines define no macro, the readers over its lines do what the readers over its token
lines do: the same answers, and positions that agree.
-/

namespace Meridian.Config

open Text

variable {build : BuildNames} {macros : Macros}

/-- The position gives these token lines, and the macros stay as they are on the way. -/
structure Source.Gives (build : BuildNames) (macros : Macros) (source : Source) (lines : Lines) : Prop where
  macros_eq : source.macros = macros
  settled : ∀ line ∈ source.lines, ∀ isQuoted, (readTokens build macros isQuoted line).macros = macros
  tokens : (tokenLines build macros source.lines).2 = lines

/-! ### Files without macros -/

theorem readTokens_noMacro {line : Str} (absent : '$' ∉ line) (isQuoted : Bool) :
    (readTokens build macros isQuoted line).macros = macros := by
  have plain : ∀ c ∈ cString line, c ≠ '$' := by
    rintro c mem rfl
    exact absent ((List.takeWhile_sublist _).subset mem)
  have tokens := lineLoop_all (by decide) isQuoted (cString line) plain
  rw [readTokens]
  split
  · rename_i first second more found
    rw [found] at tokens
    have none : macroDefName first = none :=
      macroDefName_of_not_mem fun mem => tokens first List.mem_cons_self '$' mem rfl
    rw [none]
  · rfl

/-- A file without a dollar sign gives its token lines. -/
theorem gives_of_noMacro {lines : List Str} (absent : ∀ line ∈ lines, '$' ∉ line) :
    Source.Gives build macros ⟨macros, lines⟩ (tokenLines build macros lines).2 :=
  ⟨rfl, fun line mem => readTokens_noMacro (absent line mem), rfl⟩

/-! ### One call -/

theorem readTokenLine_settled (isQuoted : Bool) {lines : List Str}
    (settled : ∀ line ∈ lines, ∀ isQuoted, (readTokens build macros isQuoted line).macros = macros) :
    (readTokenLine build macros isQuoted lines).1 = macros ∧
      (readTokenLine build macros isQuoted lines).2.2 ⊆ lines := by
  induction lines generalizing isQuoted with
  | nil => exact ⟨rfl, List.Subset.refl _⟩
  | cons line rest ih =>
    obtain ⟨here, later⟩ := List.forall_mem_cons.mp settled
    rw [readTokenLine, here isQuoted]
    split
    · obtain ⟨same, part⟩ := ih (readTokens build macros isQuoted line).isQuoted later
      exact ⟨same, List.Subset.trans part (List.subset_cons_self line rest)⟩
    · exact ⟨rfl, List.subset_cons_self line rest⟩

theorem readTokenLine_end {isQuoted : Bool} {lines : List Str}
    (none : (readTokenLine build macros isQuoted lines).2.1 = []) :
    (readTokenLine build macros isQuoted lines).2.2 = [] := by
  induction lines generalizing macros isQuoted with
  | nil => rfl
  | cons line rest ih =>
    rw [readTokenLine] at none ⊢
    split
    · rename_i empty
      rw [if_pos empty] at none
      exact ih none
    · rename_i some
      rw [if_neg some] at none
      exact absurd none some

/-- A call gives the first token line, and none behind the last. -/
theorem Source.Gives.read {source : Source} {lines : Lines} (gives : source.Gives build macros lines) :
    ((source.readTokenLine build).1 = [] ∧ lines = [] ∧ (source.readTokenLine build).2.Gives build macros []) ∨
      ∃ rest, (source.readTokenLine build).1 ≠ [] ∧ lines = (source.readTokenLine build).1 :: rest ∧
        (source.readTokenLine build).2.Gives build macros rest := by
  obtain ⟨rfl, settled, rfl⟩ := gives
  obtain ⟨same, part⟩ := readTokenLine_settled false settled
  have behind : (source.readTokenLine build).2.Gives build source.macros
      (tokenLines build source.macros (source.readTokenLine build).2.lines).2 :=
    ⟨same, fun line mem => settled line (part mem), rfl⟩
  have read : (tokenLines build source.macros source.lines).2 =
      if (source.readTokenLine build).1 = [] then []
      else (source.readTokenLine build).1 ::
        (tokenLines build source.macros (source.readTokenLine build).2.lines).2 := by
    rw [tokenLines, same]
    split
    · rename_i more
      exact (if_neg more).symm
    · rename_i none
      exact (if_pos (not_not.mp none)).symm
  by_cases none : (source.readTokenLine build).1 = []
  · have last : (source.readTokenLine build).2.lines = [] := readTokenLine_end none
    rw [last] at behind
    rw [if_pos none] at read
    refine Or.inl ⟨none, read, ?_⟩
    rw [tokenLines] at behind
    exact behind
  · rw [if_neg none] at read
    exact Or.inr ⟨_, none, read, behind⟩

variable {σ : Type} {handler : Handler σ}

/-- Where the body stops, the loop has its result; else there are token lines to go on with. -/
def Handled.Keeps (build : BuildNames) (macros : Macros) (P : σ → Lines → σ → Source → Prop)
    (result : σ → Source → Prop) (handled : Handled σ) : Prop :=
  handled.stop = true ∧ result handled.state handled.source ∨
    handled.stop = false ∧ ∃ next, handled.source.Gives build macros next ∧
      ∀ last behind, P handled.state next last behind → result last behind

/-- A loop over a file keeps to what its body does with one token line behind the other. -/
theorem loop_gives {P : σ → Lines → σ → Source → Prop}
    (ends : ∀ st source, source.Gives build macros [] → P st [] st source)
    (each : ∀ st line rest source, source.Gives build macros rest →
      (handler.handle st line source).Keeps build macros P (P st (line :: rest)))
    (st : σ) (source : Source) : ∀ {lines : Lines}, source.Gives build macros lines →
      P st lines (Source.loop build handler st source).state (Source.loop build handler st source).source := by
  fun_induction Source.loop build handler st source with
  | case1 st source read more handled =>
    rename_i stop
    intro lines gives
    obtain ⟨none, -⟩ | ⟨rest, -, rfl, behind⟩ := gives.read
    · exact absurd none more
    · obtain ⟨-, here⟩ | ⟨goesOn, -⟩ := each st read.1 rest read.2 behind
      · exact here
      · cases stop.symm.trans goesOn
  | case2 st source read more handled goesOn later =>
    rename_i ih
    intro lines gives
    obtain ⟨none, -⟩ | ⟨rest, -, rfl, behind⟩ := gives.read
    · exact absurd none more
    · obtain ⟨stop, -⟩ | ⟨-, next, nextGives, further⟩ := each st read.1 rest read.2 behind
      · exact absurd stop goesOn
      · exact further _ _ (ih nextGives)
  | case3 st source read =>
    rename_i none
    intro lines gives
    obtain ⟨-, rfl, behind⟩ | ⟨rest, more, -⟩ := gives.read
    · exact ends st read.2 behind
    · exact absurd more none

/-! ### Look-ahead -/

theorem disabledLoop_source {source : Source} {lines : Lines} (gives : source.Gives build macros lines)
    (st : Nat × Bool) :
    (Source.loop build disabledHandler st source).state.2 = (disabledLoop st.1 st.2 lines).1 ∧
      (Source.loop build disabledHandler st source).source.Gives build macros
        (disabledLoop st.1 st.2 lines).2 := by
  refine loop_gives (P := fun st lines last behind => last.2 = (disabledLoop st.1 st.2 lines).1 ∧
    behind.Gives build macros (disabledLoop st.1 st.2 lines).2) ?_ ?_ st source gives
  · exact fun st source gives => ⟨rfl, gives⟩
  · rintro ⟨subMenus, isDisabled⟩ line rest source gives
    dsimp only
    rw [disabledHandler, disabledLoop]
    dsimp only
    split
    · exact Or.inr ⟨rfl, rest, gives, fun last behind => id⟩
    · split
      · exact Or.inr ⟨rfl, rest, gives, fun last behind => id⟩
      · split
        · split
          · exact Or.inl ⟨rfl, rfl, gives⟩
          · exact Or.inr ⟨rfl, rest, gives, fun last behind => id⟩
        · exact Or.inr ⟨rfl, rest, gives, fun last behind => id⟩

theorem getIsDisabled_lines {source : Source} {lines : Lines} (gives : source.Gives build macros lines) :
    (source.getIsDisabled build).state = (getIsDisabled lines).1 ∧
      (source.getIsDisabled build).source.Gives build macros (getIsDisabled lines).2 := by
  obtain ⟨marked, behind⟩ := disabledLoop_source gives (0, false)
  rw [Source.getIsDisabled, getIsDisabled]
  dsimp only
  rw [marked]
  split
  · rename_i found
    exact ⟨found, behind⟩
  · rename_i found
    exact ⟨Bool.eq_false_iff.mpr found, ⟨behind.macros_eq, gives.settled, gives.tokens⟩⟩

theorem getIsDisabled_unmarked {lines : Lines} (unmarked : ¬(getIsDisabled lines).1 = true) :
    (getIsDisabled lines).2 = lines := by
  rw [getIsDisabled] at unmarked ⊢
  split at unmarked
  · exact absurd rfl unmarked
  · rename_i notFound
    rw [if_neg notFound]

variable {V : Type}

/-- What the loop of `GetStanzaVolume` leaves for its answer. -/
def VolumeAgrees (env : ReaderEnv V) (macros : Macros) (last : VolumeState V) (behind : Source) :
    Except Lines V → Prop
  | .ok subject => last.isDisabled = false ∧ last.subjectVolume = subject ∧ behind.macros = macros
  | .error rest => last.isDisabled = true ∧ behind.Gives env.build macros rest

theorem stanzaVolumeLoop_source (env : ReaderEnv V) {source : Source} {lines : Lines}
    (gives : source.Gives env.build macros lines) (st : VolumeState V) (active : st.isDisabled = false) :
    VolumeAgrees env macros (Source.loop env.build (volumeHandler env) st source).state
      (Source.loop env.build (volumeHandler env) st source).source
      (stanzaVolumeLoop env.toVolumeEnv st.subMenus st.checkedVolume st.subjectVolume lines) := by
  refine loop_gives (P := fun st lines last behind => st.isDisabled = false → VolumeAgrees env macros last behind
    (stanzaVolumeLoop env.toVolumeEnv st.subMenus st.checkedVolume st.subjectVolume lines))
    ?_ ?_ st source gives active
  · exact fun st source gives active => ⟨active, rfl, gives.macros_eq⟩
  · intro st line rest source gives
    obtain ⟨marked, behind⟩ := getIsDisabled_lines gives
    rw [volumeHandler, stanzaVolumeLoop]
    dsimp only
    by_cases closes : isToken line "\x7d" = true
    · rw [if_pos closes, if_pos closes]
      split
      · exact Or.inl ⟨rfl, fun active => ⟨active, rfl, gives.macros_eq⟩⟩
      · exact Or.inr ⟨rfl, rest, gives, fun last behind => id⟩
    rw [if_neg closes, if_neg closes]
    by_cases header : isToken line "submenuentry" = true
    · rw [if_pos header, if_pos header]
      exact Or.inr ⟨rfl, rest, gives, fun last behind => id⟩
    rw [if_neg header, if_neg header]
    by_cases inner : (st.isDisabled || st.subMenus > 0) = true
    · rw [if_pos inner]
      refine Or.inr ⟨rfl, rest, gives, fun last behind agrees active => ?_⟩
      rw [active, Bool.false_or] at inner
      rw [if_pos (of_decide_eq_true inner)]
      exact agrees active
    have outer : ¬st.subMenus > 0 := fun more => inner (by rw [decide_eq_true more, Bool.or_true])
    rw [if_neg inner, if_neg outer]
    by_cases disabled : isToken line "disabled" = true
    · rw [if_pos disabled, if_pos disabled]
      exact Or.inl ⟨rfl, fun active => ⟨rfl, gives⟩⟩
    rw [if_neg disabled, if_neg disabled]
    by_cases other : (!isToken line "volume" || st.checkedVolume) = true
    · rw [if_pos other, if_pos other]
      exact Or.inr ⟨rfl, rest, gives, fun last behind => id⟩
    have unchecked : st.checkedVolume = false := (Bool.or_eq_false_iff.mp (Bool.eq_false_iff.mpr other)).2
    rw [if_neg other, if_neg other, marked]
    by_cases ahead : (getIsDisabled rest).1 = true
    · rw [if_pos ahead, if_pos ahead]
      exact Or.inl ⟨rfl, fun active => ⟨rfl, behind⟩⟩
    rw [if_neg ahead, if_neg ahead]
    rw [getIsDisabled_unmarked ahead] at behind
    cases env.findVolume (line)[1]? with
    | none =>
      refine Or.inr ⟨rfl, rest, behind, fun last behind agrees active => ?_⟩
      dsimp only at agrees
      rw [unchecked] at agrees
      exact agrees active
    | some found =>
      dsimp only
      split
      · exact Or.inr ⟨rfl, rest, behind, fun last behind => id⟩
      · refine Or.inr ⟨rfl, rest, behind, fun last behind agrees active => ?_⟩
        dsimp only at agrees
        rw [unchecked] at agrees
        exact agrees active

/-- The volume is the same, and the positions agree. -/
theorem getStanzaVolume_lines (env : ReaderEnv V) {source : Source} {lines : Lines}
    (gives : source.Gives env.build macros lines) (volume : V) :
    (source.getStanzaVolume env volume).state = (getStanzaVolume env.toVolumeEnv lines volume).1 ∧
      (source.getStanzaVolume env volume).source.Gives env.build macros
        (getStanzaVolume env.toVolumeEnv lines volume).2 := by
  have agrees := stanzaVolumeLoop_source env gives { subjectVolume := volume } rfl
  rw [Source.getStanzaVolume, getStanzaVolume]
  dsimp only at agrees ⊢
  cases found : stanzaVolumeLoop env.toVolumeEnv 0 false volume lines with
  | ok subject =>
    rw [found] at agrees
    obtain ⟨active, same, kept⟩ := agrees
    rw [active, if_neg Bool.false_ne_true, same]
    exact ⟨rfl, ⟨kept, gives.settled, gives.tokens⟩⟩
  | error rest =>
    rw [found] at agrees
    obtain ⟨disabled, behind⟩ := agrees
    rw [disabled, if_pos rfl]
    exact ⟨rfl, behind⟩

/-- The position is restored with the volume. -/
theorem getStanzaVolume_active {env : VolumeEnv V} {lines rest : Lines} {volume subject : V}
    (found : getStanzaVolume env lines volume = (some subject, rest)) : rest = lines := by
  rw [getStanzaVolume] at found
  split at found
  · exact (Prod.mk.inj found).2.symm
  · cases (Prod.mk.inj found).1

/-! ### Stanzas -/

theorem submenuLoop_source (env : ReaderEnv V) {source : Source} {lines : Lines}
    (gives : source.Gives env.build macros lines) (graphicsTag : Bool) (volume : V) (st : SubmenuState V) :
    (Source.loop env.build submenuHandler graphicsTag source).source.Gives env.build macros
      (submenuLoop volume st lines).2 := by
  refine loop_gives (P := fun _ lines _ behind => ∀ st,
    behind.Gives env.build macros (submenuLoop volume st lines).2) ?_ ?_ graphicsTag source gives st
  · exact fun _ source gives st => gives
  · intro graphicsTag line rest source gives
    rw [submenuHandler]
    dsimp only
    split
    · rename_i closes
      refine Or.inl ⟨rfl, fun st => ?_⟩
      rw [submenuLoop, if_pos closes]
      exact gives
    · rename_i opens
      refine Or.inr ⟨rfl, rest, gives, fun last behind agrees st => ?_⟩
      rw [submenuLoop, if_neg opens]
      exact agrees _

variable (env : ReaderEnv V) {stanzaEnv : StanzaEnv V} (same : env.toVolumeEnv = stanzaEnv.toVolumeEnv)
  {source : Source} {lines : Lines} (gives : source.Gives env.build macros lines)

include same gives

theorem addSubmenu_lines (entry : StanzaEntry V) (volume : V) (title : Option Str) :
    (source.addSubmenu env volume).source.Gives env.build macros
      (addSubmenu stanzaEnv entry lines volume title).2.2 := by
  obtain ⟨answer, behind⟩ := getStanzaVolume_lines env gives volume
  rw [same] at answer behind
  rw [Source.addSubmenu, addSubmenu]
  dsimp only
  rw [answer]
  rcases found : getStanzaVolume stanzaEnv.toVolumeEnv lines volume with ⟨_ | targetVolume, rest⟩
  · rw [found] at behind
    exact behind
  · rw [found] at behind
    rw [getStanzaVolume_active found] at behind
    exact submenuLoop_source env behind false volume _

theorem stanzaLoop_source (volume : V) (tags : StanzaTags) (st : StanzaState V) :
    (Source.loop env.build (stanzaHandler env volume) tags source).source.Gives env.build macros
      (stanzaLoop stanzaEnv volume st lines).2 := by
  refine loop_gives (P := fun _ lines _ behind => ∀ st,
    behind.Gives env.build macros (stanzaLoop stanzaEnv volume st lines).2) ?_ ?_ tags source gives st
  · intro _ source gives st
    rw [stanzaLoop]
    exact gives
  · intro tags line rest source gives
    rw [stanzaHandler]
    dsimp only
    split
    · rename_i closes
      refine Or.inl ⟨rfl, fun st => ?_⟩
      rw [stanzaLoop, if_pos closes]
      exact gives
    · rename_i opens
      split
      · rename_i header
        -- The position behind a block does not depend on the entry.
        have behind := addSubmenu_lines env same gives (startStanza volume []).entry volume none
        refine Or.inr ⟨rfl, _, behind, fun last behindAll agrees st => ?_⟩
        have here := addSubmenu_lines env same gives st.entry volume (line)[1]?
        rw [stanzaLoop, if_neg opens, if_pos header]
        rw [behind.tokens.symm.trans here.tokens] at agrees
        exact agrees _
      · rename_i plain
        refine Or.inr ⟨rfl, rest, gives, fun last behind agrees st => ?_⟩
        rw [stanzaLoop, if_neg opens, if_neg plain]
        exact agrees _

theorem initializeStanza_lines (selfVolume : V) (title : Str) :
    (source.initializeStanza env selfVolume).source.Gives env.build macros
      (initializeStanza stanzaEnv lines selfVolume title).2 := by
  obtain ⟨answer, behind⟩ := getStanzaVolume_lines env gives selfVolume
  rw [same] at answer behind
  rw [Source.initializeStanza, initializeStanza]
  dsimp only
  rw [answer]
  rcases found : getStanzaVolume stanzaEnv.toVolumeEnv lines selfVolume with ⟨_ | volume, rest⟩
  · rw [found] at behind
    exact behind
  · rw [found] at behind
    exact stanzaLoop_source env same behind volume {} _

end Meridian.Config
