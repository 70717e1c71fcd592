import Meridian.Conn.Machine
import Meridian.Lib.Run

/-!
# The menu's flags and its machine

`Sound` holds in every state of every run: the countdown's flag implies the autoboot state, the
saver's flag is the saver state, and the selection names an entry. The other half of `Consistent`,
that the autoboot state implies the flag, is lost exactly by the steps that cancel the countdown
without telling the machine: the options key, the network key and a missing timer in the autoboot
state, and a launch that returns to a list that starts the countdown again
(`menu_consistent_iff`).
-/

namespace Meridian.Conn

variable {E : Engine} {list : Option ConnEntryList} {ui : ConnUiState}

/-- The selection names an entry, or is zero when there is none. -/
def Names (list : Option ConnEntryList) (selected : Nat) : Prop :=
  selected < entryCount list ∨ entryCount list = 0 ∧ selected = 0

/-- What no step breaks. -/
structure Sound (list : Option ConnEntryList) (ui : ConnUiState) : Prop where
  armed : Armed ui → ui.machine = .autoboot ∧ 0 < entryCount list
  saverState : ui.saverActive = true ↔ ui.machine = .saver
  selection : Names list ui.selected

/-- A state without a running countdown. -/
theorem Sound.of_idle (idle : ¬Armed ui) (saver : ui.saverActive = true ↔ ui.machine = .saver)
    (selection : Names list ui.selected) : Sound list ui :=
  ⟨fun armed => absurd armed idle, saver, selection⟩

/-- The invariant reads the machine, three flags and the selection only. -/
theorem Sound.congr {ui' : ConnUiState} (h : Sound list ui) (machine : ui'.machine = ui.machine)
    (autoboot : ui'.autoboot = ui.autoboot) (cancelled : ui'.cancelled = ui.cancelled)
    (saver : ui'.saverActive = ui.saverActive) (selected : ui'.selected = ui.selected) :
    Sound list ui' := by
  refine ⟨?_, ?_, ?_⟩
  · rw [machine, Armed, autoboot, cancelled]; exact h.armed
  · rw [saver, machine, h.saverState]
  · rw [selected]; exact h.selection

theorem Sound.not_armed (h : Sound list ui) (state : ui.machine ≠ .autoboot) : ¬Armed ui :=
  fun armed => state (h.armed armed).1

theorem Sound.not_saver (h : Sound list ui) (state : ui.machine ≠ .saver) : ui.saverActive = false :=
  Bool.eq_false_iff.mpr fun active => state (h.saverState.mp active)

theorem Names.lt {selected : Nat} (h : Names list selected) (entries : entryCount list ≠ 0) :
    selected < entryCount list :=
  h.resolve_right fun none => entries none.1

theorem clampSelected_names (selected : Nat) : Names list (clampSelected selected list) := by
  by_cases empty : entryCount list = 0
  · exact Or.inr ⟨empty, by simp [clampSelected, empty]⟩
  · exact Or.inl (clampSelected_lt _ (Nat.pos_of_ne_zero empty))

/-! ### Each action -/

theorem sound_init (hE : E.FirstMatch) (st : ConnUiState) : Sound list (connUiInit E st list) := by
  rw [connUiInit_eq hE]
  cases list with
  | none => exact .of_idle (by simp [Armed]) (by simp) (Or.inr ⟨rfl, rfl⟩)
  | some l =>
    dsimp only
    by_cases empty : l.count = 0
    · rw [if_pos empty]
      exact .of_idle (by simp [Armed]) (by simp) (Or.inr ⟨empty, rfl⟩)
    · have entries : 0 < entryCount (some l) := Nat.pos_of_ne_zero empty
      have selection := defaultSelection_lt entries
      rw [if_neg empty]
      split
      · exact ⟨fun _ => ⟨rfl, entries⟩, by simp, Or.inl selection⟩
      · exact .of_idle (by simp [Armed]) (by simp) (Or.inl selection)

theorem sound_actionKey (event : ConnUiSmEvent) (h : Sound list ui) (ctx : ConnUiDispatch)
    (same : ctx.list = list) : Sound list (moved .manual (actionKey event ui ctx)).1 := by
  unfold actionKey moved
  rw [same]
  by_cases empty : entryCount list = 0
  · -- No entry: the flags stay, and the countdown was not running.
    rw [if_pos empty]
    have idle : ¬Armed ui := fun armed => absurd (h.armed armed).2 (by omega)
    exact .of_idle idle (by simp) h.selection
  · rw [if_neg empty]
    exact .of_idle (by simp [Armed]) (by simp) (Or.inl (keySelection_lt _ _ (h.selection.lt empty)))

theorem sound_actionWake (h : Sound list ui) (ctx : ConnUiDispatch) :
    Sound list (moved .manual (actionWake ui ctx)).1 :=
  .of_idle (by simp [moved, actionWake, Armed]) (by simp [moved, actionWake]) h.selection

theorem sound_actionRemote (h : Sound list ui) (ctx : ConnUiDispatch) (same : ctx.list = list) :
    Sound list (moved .manual (actionRemote ui ctx)).1 := by
  have woken := sound_actionWake h ctx
  have list_same : (actionWake ui ctx).2.list = list := same
  unfold actionRemote
  dsimp only
  rw [list_same]
  split
  · split
    · exact woken.congr rfl rfl rfl rfl rfl
    · rename_i _ inside
      exact .of_idle (by simp [moved, actionWake, Armed]) (by simp [moved, actionWake])
        (Or.inl (Nat.lt_of_not_le inside))
  · exact woken.congr rfl rfl rfl rfl rfl

theorem uiBumpIdle_machine : (uiBumpIdle ui).machine = ui.machine := by
  rw [uiBumpIdle]; split <;> rfl

theorem sound_bumpIdle (h : Sound list ui) : Sound list (uiBumpIdle ui) := by
  unfold uiBumpIdle
  split
  · exact h.congr rfl rfl rfl rfl rfl
  · exact h

theorem sound_enterSaver (h : Sound list ui) (ctx : ConnUiDispatch) :
    Sound list (moved .saver (actionEnterSaver ui ctx)).1 :=
  .of_idle (by simp [moved, actionEnterSaver, Armed]) (by simp [moved, actionEnterSaver])
    (sound_bumpIdle h).selection

theorem sound_tickSaver (h : Sound list ui) (state : ui.machine = .saver) (ctx : ConnUiDispatch) :
    Sound list (moved .saver (actionTickSaver ui ctx)).1 := by
  have bumped := sound_bumpIdle h
  have idle : ¬Armed (uiBumpIdle ui) := bumped.not_armed (by simp [uiBumpIdle_machine, state])
  have base : Sound list { uiBumpIdle ui with saverActive := true, machine := .saver } :=
    .of_idle idle (by simp) bumped.selection
  simp only [actionTickSaver, moved]
  split <;> exact base.congr rfl rfl rfl rfl rfl

theorem sound_tickIdle (h : Sound list ui) (target : ConnUiSmState) (same : target = ui.machine)
    (ctx : ConnUiDispatch) : Sound list (moved target (uiBumpIdle ui, ctx)).1 :=
  (sound_bumpIdle h).congr (by rw [uiBumpIdle_machine]; exact same) rfl rfl rfl rfl

theorem entries_of_active (active : uiTickActive ui list = true) : 0 < entryCount list := by
  cases list with
  | none => simp [uiTickActive] at active
  | some l =>
    simp only [uiTickActive, Bool.and_eq_true, decide_eq_true_eq] at active
    exact active.2

theorem sound_tickLaunch (ctx : ConnUiDispatch) (entries : 0 < entryCount ctx.list) :
    Sound ctx.list (moved .launch (actionTickLaunch ui ctx)).1 := by
  cases same : ctx.list with
  | none => rw [same] at entries; exact absurd entries (Nat.lt_irrefl 0)
  | some l =>
    rw [same] at entries
    simp only [actionTickLaunch, same, moved]
    exact .of_idle (by simp [Armed]) (by simp) (Or.inl (defaultSelection_lt entries))

theorem sound_tickRedraw (h : Sound list ui) (state : ui.machine = .autoboot) (ctx : ConnUiDispatch) :
    Sound list (moved .autoboot (actionTickRedraw ui ctx)).1 := by
  simp only [actionTickRedraw, moved]
  split <;> exact h.congr state.symm rfl rfl rfl rfl

/-! ### Each event -/

theorem sound_key (hE : E.FirstMatch) (key : ConnKey) (digit : Int) (h : Sound list ui) :
    Sound list (connUiOnKey E ui key digit list).1 := by
  simp only [connUiOnKey, dispatch_key hE]
  split
  · exact sound_actionKey _ h _ rfl
  · exact sound_actionKey _ h _ rfl
  · exact sound_actionWake h _
  · exact h

theorem sound_tick (hE : E.FirstMatch) (h : Sound list ui) :
    Sound list (connUiOnTick E ui list).1 := by
  simp only [connUiOnTick, dispatch_tick hE]
  split
  · rename_i state
    split
    · rename_i active
      split
      · exact sound_tickLaunch { list := list } (entries_of_active active)
      · exact sound_tickRedraw h state _
    · exact h
  · rename_i state
    split
    · exact sound_enterSaver h _
    · exact sound_tickIdle h _ state.symm _
  · rename_i state
    split
    · exact sound_enterSaver h _
    · exact sound_tickIdle h _ state.symm _
  · exact sound_tickSaver h ‹_› _
  · exact h

theorem sound_remote (hE : E.FirstMatch) (wake : ConnWakeIntent) (wakeIndex : Nat)
    (h : Sound list ui) : Sound list (connUiOnRemote E ui wake wakeIndex list).1 := by
  simp only [connUiOnRemote, dispatch_remote hE]
  split
  · exact h
  · exact h
  · exact sound_actionRemote h _ rfl

theorem sound_screensaver (seconds : Nat) (h : Sound list ui) :
    Sound list (connUiSetScreensaver ui seconds) := by
  unfold connUiSetScreensaver
  dsimp only
  split <;> exact h.congr rfl rfl rfl rfl rfl

theorem sound_reinit (hE : E.FirstMatch) (model : ConnModel) :
    Sound list (reinit E model list).ui :=
  sound_screensaver _ (sound_init hE _)

variable {model : ConnModel}

theorem sound_openOptions (h : Sound list model.ui) : Sound list (openOptions model list).1.ui := by
  unfold openOptions
  split
  · exact h
  · exact .of_idle (by simp [Armed]) h.saverState h.selection

theorem sound_update (hE : E.FirstMatch) (event : ConnEvent) (h : Sound list model.ui) :
    Sound list (connUpdate E list model event).1.ui := by
  cases event with
  | init => exact sound_reinit hE model
  | key key digit =>
    simp only [connUpdate]
    split
    · exact sound_openOptions h
    · exact sound_key hE key digit h
  | tick => exact sound_tick hE h
  | remote wake wakeIndex => exact sound_remote hE wake wakeIndex h
  | point row click => exact sound_remote hE (pointWake click) row h
  | launchReturned failed selectedHint =>
    exact .of_idle (by simp [connUpdate, Armed]) (sound_reinit hE model).saverState
      (clampSelected_names selectedHint)

theorem sound_menuStep (hE : E.FirstMatch) (step : MenuStep) (h : Sound list model.ui) :
    Sound list (menuStep E list model step).ui := by
  cases step with
  | update event => exact sound_update hE event h
  | countdown seconds => exact h.congr rfl rfl rfl rfl rfl
  | screensaver seconds => exact sound_screensaver seconds h
  | stopAutoboot | networkKey => exact .of_idle (by simp [menuStep, Armed]) h.saverState h.selection
  | railScroll top => exact h.congr rfl rfl rfl rfl rfl
  | globe => exact h

/-! ### The autoboot state without its flag -/

/-- The machine counts down only while the flag is up. -/
def Counting (ui : ConnUiState) : Prop := ui.machine = .autoboot → Armed ui

/-- The step does not take the countdown's flag down behind the machine's back: no options key, no
network key and no loss of the timer in the autoboot state, and no launch that returns to a list
that starts the countdown. -/
def KeepsMachine (list : Option ConnEntryList) (model : ConnModel) : MenuStep → Prop
  | .update (.key .options _) | .stopAutoboot | .networkKey => model.ui.machine ≠ .autoboot
  | .update (.launchReturned _ _) => ¬Rearms list
  | _ => True

theorem reinit_machine : (reinit E model list).ui.machine = (connUiInit E model.ui list).machine := by
  simp only [reinit, connUiSetScreensaver, connModelInit]
  split <;> rfl

theorem reinit_autoboot_iff (hE : E.FirstMatch) :
    (reinit E model list).ui.machine = .autoboot ↔ Rearms list := by
  rw [reinit_machine, connUiInit_eq hE]
  cases list with
  | none => simp [Rearms]
  | some l =>
    by_cases empty : l.count = 0
    · simp [Rearms, empty]
    · cases auto : l.allowAutoboot <;> simp [Rearms, empty, auto, Nat.pos_of_ne_zero empty]

theorem counting_init (hE : E.FirstMatch) (st : ConnUiState) : Counting (connUiInit E st list) := by
  rw [connUiInit_eq hE]
  cases list with
  | none => simp [Counting]
  | some l =>
    dsimp only
    split
    · simp [Counting]
    · split <;> simp [Counting, Armed]

theorem counting_reinit (hE : E.FirstMatch) (model : ConnModel) :
    Counting (reinit E model list).ui := by
  have init : Counting (connUiInit E model.ui list) := counting_init hE model.ui
  simp only [reinit, connUiSetScreensaver, connModelInit]
  split <;> exact init

theorem counting_key (hE : E.FirstMatch) (key : ConnKey) (digit : Int) (h : Counting ui) :
    Counting (connUiOnKey E ui key digit list).1 := by
  simp only [connUiOnKey, dispatch_key hE]
  split
  · simp [Counting, moved]
  · simp [Counting, moved]
  · simp [Counting, moved]
  · exact h

theorem counting_tick (hE : E.FirstMatch) (h : Counting ui) :
    Counting (connUiOnTick E ui list).1 := by
  simp only [connUiOnTick, dispatch_tick hE]
  split
  · rename_i state
    split
    · split
      · simp [Counting, moved]
      · -- Another second of the countdown: the flags are not touched.
        intro _
        simp only [actionTickRedraw, moved]
        split <;> exact h state
    · exact h
  · split <;> simp [Counting, moved]
  · split <;> simp [Counting, moved]
  · simp [Counting, moved]
  · exact h

theorem counting_remote (hE : E.FirstMatch) (wake : ConnWakeIntent) (wakeIndex : Nat)
    (h : Counting ui) : Counting (connUiOnRemote E ui wake wakeIndex list).1 := by
  simp only [connUiOnRemote, dispatch_remote hE]
  split
  · exact h
  · exact h
  · simp [Counting, moved]

theorem counting_menuStep (hE : E.FirstMatch) (step : MenuStep) (h : Counting model.ui)
    (keeps : KeepsMachine list model step) : Counting (menuStep E list model step).ui := by
  cases step with
  | update event =>
    cases event with
    | init => exact counting_reinit hE model
    | key key digit =>
      simp only [menuStep, connUpdate]
      split
      · rename_i asked
        obtain ⟨rfl, _⟩ := asked
        intro state
        have same : (openOptions model list).1.ui.machine = model.ui.machine := by
          unfold openOptions; split <;> rfl
        exact absurd (same.symm.trans state) keeps
      · exact counting_key hE key digit h
    | tick => exact counting_tick hE h
    | remote wake wakeIndex => exact counting_remote hE wake wakeIndex h
    | point row click => exact counting_remote hE (pointWake click) row h
    | launchReturned failed selectedHint =>
      intro state
      exact absurd ((reinit_autoboot_iff hE).mp state) keeps
  | screensaver seconds =>
    simp only [menuStep, connUiSetScreensaver]
    split <;> exact h
  | stopAutoboot | networkKey => exact fun state => absurd state keeps
  | _ => exact h

/-- A step that fails the condition leaves the machine counting down with the flag taken down. -/
theorem keepsMachine_of_counting (hE : E.FirstMatch) (step : MenuStep) (h : Sound list model.ui)
    (before : Counting model.ui) (after : Counting (menuStep E list model step).ui) :
    KeepsMachine list model step := by
  cases step with
  | stopAutoboot | networkKey =>
    intro state
    simpa [menuStep, Armed] using after state
  | update event =>
    cases event with
    | key key digit =>
      cases key with
      | options =>
        intro state
        have entries : entryCount list ≠ 0 := Nat.ne_of_gt (h.armed (before state)).2
        have awake : model.ui.saverActive = false := h.not_saver (by simp [state])
        simp [Counting, menuStep, connUpdate, openOptions, awake, entries, state, Armed] at after
      | _ => trivial
    | launchReturned failed selectedHint =>
      intro rearms
      have state : (reinit E model list).ui.machine = .autoboot := (reinit_autoboot_iff hE).mpr rearms
      simp [Counting, menuStep, connUpdate, state, Armed] at after
    | _ => trivial
  | _ => trivial

/-! ### Runs -/

/-- The flags agree with the machine's state, and the selection names an entry when there is one. -/
structure Consistent (list : Option ConnEntryList) (ui : ConnUiState) : Prop where
  autobootState : ui.machine = .autoboot ↔ ui.autoboot = true ∧ ui.cancelled = false
  saverState : ui.saverActive = true ↔ ui.machine = .saver
  selection : ui.selected < entryCount list ∨ entryCount list = 0 ∧ ui.selected = 0

theorem consistent_iff (h : Sound list ui) : Consistent list ui ↔ Counting ui :=
  ⟨fun c => c.autobootState.mp,
    fun counting => ⟨⟨counting, fun armed => (h.armed armed).1⟩, h.saverState, h.selection⟩⟩

/-- From its initialisation on, the menu's flags agree with its machine in every state of a run
exactly if no step of the run takes the countdown down behind the machine's back. -/
theorem menu_consistent_iff (E : Engine) (hE : E.FirstMatch) (list : Option ConnEntryList)
    (model : ConnModel) (steps : List MenuStep) :
    Lib.Run.Visits (menuStep E list) (fun m => Consistent list m.ui) (connModelInit E model list) steps ↔
      Lib.Run.Along (menuStep E list) (KeepsMachine list) (connModelInit E model list) steps := by
  apply Lib.Run.visits_iff_along (I := fun m : ConnModel => Sound list m.ui ∧ Counting m.ui)
  · exact fun m h => (consistent_iff h.1).mpr h.2
  · exact fun m step h keeps => ⟨sound_menuStep hE step h.1, counting_menuStep hE step h.2 keeps⟩
  · intro m step h after
    exact keepsMachine_of_counting hE step h.1 h.2 ((consistent_iff (sound_menuStep hE step h.1)).mp after)
  · exact ⟨sound_init hE _, counting_init hE _⟩

/-- Moving in the menu and then cancelling keeps the flags and the machine together. -/
theorem menu_consistent_keys :
    Lib.Run.Visits (menuStep listedOrder (some ⟨3, 1, true⟩))
      (fun m => Consistent (some ⟨3, 1, true⟩) m.ui)
      (connModelInit listedOrder {} (some ⟨3, 1, true⟩))
      [.update .tick, .update (.key .down 0), .networkKey, .update (.key .options 0)] :=
  (menu_consistent_iff listedOrder listedOrder_firstMatch _ _ _).mpr (by
    simp only [Lib.Run.Along, KeepsMachine]
    decide)

/-- The network key while the countdown runs leaves the machine in the autoboot state. -/
theorem networkKey_inconsistent :
    ¬Lib.Run.Visits (menuStep listedOrder (some ⟨1, 0, true⟩))
      (fun m => Consistent (some ⟨1, 0, true⟩) m.ui)
      (connModelInit listedOrder {} (some ⟨1, 0, true⟩)) [.networkKey] := by
  intro visits
  have after : Consistent (some ⟨1, 0, true⟩) (menuStep listedOrder (some ⟨1, 0, true⟩)
    (connModelInit listedOrder {} (some ⟨1, 0, true⟩)) .networkKey).ui := visits.2
  have armed := after.autobootState.mp (by decide)
  exact absurd armed.1 (by decide)

end Meridian.Conn
