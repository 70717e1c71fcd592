import Mathlib.Data.List.Induction
import Meridian.Conn.Invariant

/-!
# What makes the menu launch

A launch is answered to an Enter, to a remote launch or a click on a listed row, or to the tick
that ends a countdown which nothing has interrupted. The run invariant `CountsFrom` says where a
running countdown was started and how many ticks it has seen since.
-/

namespace Meridian.Conn

variable {E : Engine} {list : Option ConnEntryList} {model : ConnModel}

/-- The reducer answers the event with a launch. -/
def Launches (E : Engine) (list : Option ConnEntryList) (model : ConnModel) (event : ConnEvent) : Prop :=
  (connUpdate E list model event).2 = .launch

/-- The event itself asks for the launch of a listed entry. -/
def AsksLaunch (list : Option ConnEntryList) : ConnEvent → Prop
  | .key key _ => key = .enter
  | .remote wake wakeIndex => wake = .launch ∧ wakeIndex < entryCount list
  | .point row click => click = true ∧ row < entryCount list
  | _ => False

/-- The events that end a countdown: all but the tick and the initialisation that starts it. -/
def Cancels : ConnEvent → Prop
  | .tick | .init => False
  | _ => True

/-! ### Which events launch -/

theorem Sound.selected_lt {ui : ConnUiState} (h : Sound list ui) (entries : 0 < entryCount list) :
    ui.selected < entryCount list :=
  h.selection.lt (Nat.ne_of_gt entries)

theorem keyCommand_launch {event : ConnUiSmEvent} {wasRunning : Bool}
    (h : keyCommand event wasRunning = .launch) : event = .keyEnter := by
  cases event with
  | keyEnter => rfl
  | keyOther | init | tick | remote => cases wasRunning <;> simp [keyCommand] at h
  | _ => simp [keyCommand] at h

theorem eventForKey_enter {key : ConnKey} (h : eventForKey key = .keyEnter) : key = .enter := by
  cases key <;> simp [eventForKey] at h ⊢

theorem actionKey_launch {ui : ConnUiState} {key : ConnKey} {ctx : ConnUiDispatch}
    (idle : ctx.action = .none) (h : (actionKey (eventForKey key) ui ctx).2.action = .launch) :
    key = .enter ∧ 0 < entryCount ctx.list := by
  by_cases empty : entryCount ctx.list = 0
  · simp [actionKey, empty, idle] at h
  · have command : keyCommand (eventForKey key) ui.autoboot = .launch := by
      simpa [actionKey, empty, uiResetIdle] using h
    exact ⟨eventForKey_enter (keyCommand_launch command), Nat.pos_of_ne_zero empty⟩

theorem launch_key (hE : E.FirstMatch) {ui : ConnUiState} {key : ConnKey} {digit : Int}
    (h : (connUiOnKey E ui key digit list).2 = .launch) : key = .enter ∧ 0 < entryCount list := by
  simp only [connUiOnKey, dispatch_key hE] at h
  split at h
  · exact actionKey_launch rfl h
  · exact actionKey_launch rfl h
  · simp [moved, actionWake] at h
  · simp at h

theorem actionRemote_launch {ui : ConnUiState} {ctx : ConnUiDispatch}
    (h : (actionRemote ui ctx).2.action = .launch) :
    ctx.wake = .launch ∧ ctx.wakeIndex < entryCount ctx.list := by
  by_cases outside : ctx.wakeIndex ≥ entryCount ctx.list
  · cases asked : ctx.wake <;> simp [actionRemote, actionWake, asked, outside] at h
  · cases asked : ctx.wake with
    | launch => exact ⟨rfl, Nat.lt_of_not_le outside⟩
    | dismiss | select => simp [actionRemote, actionWake, asked, outside] at h

theorem launch_remote (hE : E.FirstMatch) {ui : ConnUiState} {wake : ConnWakeIntent} {wakeIndex : Nat}
    (h : (connUiOnRemote E ui wake wakeIndex list).2 = .launch) :
    wake = .launch ∧ wakeIndex < entryCount list := by
  simp only [connUiOnRemote, dispatch_remote hE] at h
  split at h
  · simp at h
  · simp at h
  · exact actionRemote_launch h

theorem armed_of_active {ui : ConnUiState} (active : uiTickActive ui list = true) : Armed ui := by
  cases list with
  | none => simp [uiTickActive] at active
  | some l =>
    simp only [uiTickActive, Bool.and_eq_true, Bool.not_eq_true'] at active
    exact active.1

theorem launch_tick (hE : E.FirstMatch) {ui : ConnUiState} (h : (connUiOnTick E ui list).2 = .launch) :
    Armed ui ∧ ui.countdownS ≤ 1 ∧ 0 < entryCount list := by
  simp only [connUiOnTick, dispatch_tick hE] at h
  split at h
  · split at h
    · rename_i active
      split at h
      · exact ⟨armed_of_active active, ‹_›, entries_of_active active⟩
      · simp [moved, actionTickRedraw] at h
    · simp at h
  · split at h <;> simp [moved, actionEnterSaver] at h
  · split at h <;> simp [moved, actionEnterSaver] at h
  · simp [moved, actionTickSaver] at h
  · simp at h

/-- A launch was asked for, or a running countdown is at its last tick; and there is an entry. -/
theorem launch_update (hE : E.FirstMatch) {event : ConnEvent} (h : Launches E list model event) :
    (AsksLaunch list event ∨ event = .tick ∧ Armed model.ui ∧ model.ui.countdownS ≤ 1) ∧
      0 < entryCount list := by
  cases event with
  | init => simp [Launches, connUpdate] at h
  | launchReturned failed selectedHint => simp [Launches, connUpdate] at h
  | key key digit =>
    simp only [Launches, connUpdate] at h
    split at h
    · unfold openOptions at h
      split at h <;> simp at h
    · obtain ⟨enter, entries⟩ := launch_key hE h
      exact ⟨Or.inl enter, entries⟩
  | tick =>
    obtain ⟨armed, last, entries⟩ := launch_tick hE h
    exact ⟨Or.inr ⟨rfl, armed, last⟩, entries⟩
  | remote wake wakeIndex =>
    have asked := launch_remote hE h
    exact ⟨Or.inl asked, Nat.zero_lt_of_lt asked.2⟩
  | point row click =>
    obtain ⟨wake, inside⟩ := launch_remote hE h
    have clicked : click = true := by
      cases click with
      | true => rfl
      | false => simp [pointWake] at wake
    exact ⟨Or.inl ⟨clicked, inside⟩, Nat.zero_lt_of_lt inside⟩

/-! ### Which events leave the countdown running -/

theorem not_armed_of_cancelled {ui : ConnUiState} (h : ui.cancelled = true) : ¬Armed ui := by
  simp [Armed, h]

theorem key_not_armed (hE : E.FirstMatch) {ui : ConnUiState} (h : Sound list ui) (key : ConnKey)
    (digit : Int) : ¬Armed (connUiOnKey E ui key digit list).1 := by
  intro armed
  -- An armed machine is in the manual state nowhere, and that is where a key leaves it.
  have state := (sound_key hE key digit h).armed armed
  simp only [connUiOnKey, dispatch_key hE] at armed state
  split at state
  · exact absurd state.1 (by simp [moved])
  · exact absurd state.1 (by simp [moved])
  · exact absurd state.1 (by simp [moved])
  · exact absurd state.1 ‹_›

theorem remote_not_armed (hE : E.FirstMatch) {ui : ConnUiState} (h : Sound list ui)
    (wake : ConnWakeIntent) (wakeIndex : Nat) :
    ¬Armed (connUiOnRemote E ui wake wakeIndex list).1 := by
  intro armed
  have state := (sound_remote hE wake wakeIndex h).armed armed
  simp only [connUiOnRemote, dispatch_remote hE] at state
  split at state
  · rename_i bootstrap
    exact absurd (bootstrap.symm.trans state.1) (by simp)
  · rename_i launch
    exact absurd (launch.symm.trans state.1) (by simp)
  · exact absurd state.1 (by simp [moved])

theorem active_of_armed {ui : ConnUiState} (armed : Armed ui) (entries : 0 < entryCount list) :
    uiTickActive ui list = true := by
  cases list with
  | none => exact absurd entries (Nat.lt_irrefl 0)
  | some l => simpa [uiTickActive, armed.1, armed.2, entryCount] using entries

theorem tick_armed (hE : E.FirstMatch) {ui : ConnUiState} (h : Sound list ui)
    (armed : Armed (connUiOnTick E ui list).1) :
    Armed ui ∧ 1 < ui.countdownS ∧ (connUiOnTick E ui list).1.countdownS + 1 = ui.countdownS := by
  have after := (sound_tick hE h).armed armed
  obtain ⟨state, entries⟩ := after
  by_cases counting : ui.machine = .autoboot
  · simp only [connUiOnTick, dispatch_tick hE, counting] at state armed ⊢
    by_cases active : uiTickActive ui list = true
    · by_cases last : ui.countdownS ≤ 1
      · simp [active, last, moved] at state
      · have pos : ui.countdownS > 0 := by omega
        simp only [if_pos active, if_neg last, moved, actionTickRedraw, if_pos pos]
        exact ⟨armed_of_active active, by omega, by omega⟩
    · rw [if_neg active] at armed
      exact absurd (active_of_armed armed entries) active
  · -- No tick enters the autoboot state.
    refine absurd state ?_
    simp only [connUiOnTick, dispatch_tick hE]
    split
    · exact absurd ‹_› counting
    · split <;> simp [moved]
    · split <;> simp [moved]
    · simp [moved]
    · exact counting

theorem connUiInit_countdown (hE : E.FirstMatch) (st : ConnUiState)
    (armed : Armed (connUiInit E st list)) : (connUiInit E st list).countdownS = autobootSeconds := by
  rw [connUiInit_eq hE] at armed ⊢
  cases list with
  | none => simp [Armed] at armed
  | some l =>
    by_cases empty : l.count = 0
    · simp [empty, Armed] at armed
    · cases auto : l.allowAutoboot with
      | true => simp [empty, auto]
      | false => simp [empty, auto, Armed] at armed

theorem connUiSetScreensaver_countdown (ui : ConnUiState) (seconds : Nat) :
    (connUiSetScreensaver ui seconds).countdownS = ui.countdownS := by
  rw [connUiSetScreensaver]; split <;> rfl

theorem connUiSetScreensaver_armed {ui : ConnUiState} {seconds : Nat}
    (armed : Armed (connUiSetScreensaver ui seconds)) : Armed ui := by
  rw [connUiSetScreensaver] at armed
  split at armed <;> exact armed

theorem reinit_countdown (hE : E.FirstMatch) (model : ConnModel)
    (armed : Armed (reinit E model list).ui) :
    (reinit E model list).ui.countdownS = autobootSeconds :=
  (connUiSetScreensaver_countdown _ _).trans
    (connUiInit_countdown hE model.ui (connUiSetScreensaver_armed armed))

/-- The countdown runs after an event only if the event started it or is one of its ticks. -/
theorem armed_update (hE : E.FirstMatch) {event : ConnEvent} (h : Sound list model.ui)
    (armed : Armed (connUpdate E list model event).1.ui) :
    (event = .init ∧ (connUpdate E list model event).1.ui.countdownS = autobootSeconds) ∨
      (event = .tick ∧ Armed model.ui ∧ 1 < model.ui.countdownS ∧
        (connUpdate E list model event).1.ui.countdownS + 1 = model.ui.countdownS) := by
  cases event with
  | init => exact Or.inl ⟨rfl, reinit_countdown hE model armed⟩
  | tick => exact Or.inr ⟨rfl, tick_armed hE h armed⟩
  | key key digit =>
    simp only [connUpdate] at armed
    split at armed
    · unfold openOptions at armed
      split at armed
      · exact absurd (h.armed armed).2 (by omega)
      · exact absurd armed (not_armed_of_cancelled rfl)
    · exact absurd armed (key_not_armed hE h key digit)
  | remote wake wakeIndex => exact absurd armed (remote_not_armed hE h wake wakeIndex)
  | point row click => exact absurd armed (remote_not_armed hE h (pointWake click) row)
  | launchReturned failed selectedHint => exact absurd armed (not_armed_of_cancelled rfl)

/-! ### Runs -/

/-- The menu initialised, with the configured timeout, if there is one, as its countdown. -/
def started (E : Engine) (list : Option ConnEntryList) (model : ConnModel) : Option Nat → ConnModel
  | .none => connModelInit E model list
  | some seconds => menuStep E list (connModelInit E model list) (.countdown seconds)

/-- The menu after the events, from its initialisation on. -/
def fed (E : Engine) (list : Option ConnEntryList) (model : ConnModel) (timeout : Option Nat)
    (events : List ConnEvent) : ConnModel :=
  events.foldl (fun m event => (connUpdate E list m event).1) (started E list model timeout)

/-- After these events the countdown has just been started, with so many seconds. -/
def Starts (timeout : Option Nat) (events : List ConnEvent) (seconds : Nat) : Prop :=
  (events = [] ∧ seconds = (timeout.map (· % 2 ^ 32)).getD autobootSeconds) ∨
    (∃ before, events = before ++ [.init]) ∧ seconds = autobootSeconds

/-- Since the countdown was started there were only ticks, which took it down to `left`. -/
def CountsFrom (timeout : Option Nat) (events : List ConnEvent) (left : Nat) : Prop :=
  ∃ start ticks seconds, events = start ++ List.replicate ticks .tick ∧
    Starts timeout start seconds ∧ left + ticks = seconds ∧ (ticks = 0 ∨ 0 < left)

/-- Since the countdown was started there were only ticks, and the next one is its last. -/
def CountedDown (timeout : Option Nat) (events : List ConnEvent) : Prop :=
  ∃ start ticks seconds, events = start ++ List.replicate ticks .tick ∧
    Starts timeout start seconds ∧ ticks + 1 = max 1 seconds

theorem CountsFrom.counted {timeout : Option Nat} {events : List ConnEvent} {left : Nat}
    (h : CountsFrom timeout events left) (last : left ≤ 1) : CountedDown timeout events := by
  obtain ⟨start, ticks, seconds, split, starts, sum, fresh⟩ := h
  exact ⟨start, ticks, seconds, split, starts, by omega⟩

/-- A countdown at its end has had no cancelling event since it was started. -/
theorem CountedDown.not_cancelled {timeout : Option Nat} {before after : List ConnEvent}
    {event : ConnEvent} (cancels : Cancels event) (noInit : ConnEvent.init ∉ after) :
    ¬CountedDown timeout (before ++ event :: after) := by
  rintro ⟨start, ticks, seconds, split, starts, _⟩
  have neverTick : event ∉ List.replicate ticks ConnEvent.tick := by
    intro mem
    rw [List.eq_of_mem_replicate mem] at cancels
    exact cancels
  rcases List.append_eq_append_iff.mp split with ⟨mid, startEq, rest⟩ | ⟨mid, beforeEq, rest⟩
  · cases mid with
    | nil => exact neverTick (by rw [← List.nil_append (List.replicate _ _), ← rest]; simp)
    | cons head mid =>
      -- The cancelling event lies in the start, which then ends with an initialisation after it.
      obtain ⟨rfl, restEq⟩ := List.cons.inj rest
      rcases starts with ⟨empty, _⟩ | ⟨⟨earlier, ending⟩, _⟩
      · rw [empty] at startEq
        simp at startEq
      · have last : (event :: mid).getLast? = some .init := by
          have := congrArg List.getLast? (startEq.symm.trans ending)
          simpa using this
        rcases List.mem_cons.mp (List.mem_of_getLast? last) with rfl | inMid
        · exact cancels
        · exact noInit (by rw [restEq]; exact List.mem_append_left _ inMid)
  · exact neverTick (by rw [rest]; simp)

theorem starts_started (hE : E.FirstMatch) (timeout : Option Nat)
    (armed : Armed (started E list model timeout).ui) :
    Starts timeout [] (started E list model timeout).ui.countdownS := by
  refine Or.inl ⟨rfl, ?_⟩
  cases timeout with
  | some seconds => rfl
  | none => exact connUiInit_countdown hE model.ui armed

theorem fed_snoc (timeout : Option Nat) (events : List ConnEvent) (event : ConnEvent) :
    fed E list model timeout (events ++ [event]) =
      (connUpdate E list (fed E list model timeout events) event).1 := by
  simp [fed]

theorem sound_started (hE : E.FirstMatch) (timeout : Option Nat) :
    Sound list (started E list model timeout).ui := by
  have init : Sound list (connModelInit E model list).ui := sound_init hE model.ui
  cases timeout with
  | none => exact init
  | some seconds => exact sound_menuStep hE (.countdown seconds) init

theorem sound_fed (hE : E.FirstMatch) (timeout : Option Nat) (events : List ConnEvent) :
    Sound list (fed E list model timeout events).ui :=
  Lib.Run.foldl_invariant (I := fun m : ConnModel => Sound list m.ui)
    (fun _ event h => sound_update hE event h) events (sound_started hE timeout)

/-- A running countdown was started by an initialisation, and there were only ticks since. -/
theorem countsFrom_fed (hE : E.FirstMatch) (timeout : Option Nat) (events : List ConnEvent)
    (armed : Armed (fed E list model timeout events).ui) :
    CountsFrom timeout events (fed E list model timeout events).ui.countdownS := by
  induction events using List.reverseRecOn with
  | nil => exact ⟨[], 0, _, rfl, starts_started hE timeout armed, rfl, Or.inl rfl⟩
  | append_singleton events event ih =>
    rw [fed_snoc] at armed ⊢
    rcases armed_update hE (sound_fed hE timeout events) armed with
      ⟨rfl, full⟩ | ⟨rfl, before, left, counted⟩
    · exact ⟨events ++ [.init], 0, _, by simp, Or.inr ⟨⟨events, rfl⟩, full⟩, rfl, Or.inl rfl⟩
    · obtain ⟨start, ticks, seconds, split, starts, sum, _⟩ := ih before
      refine ⟨start, ticks + 1, seconds, ?_, starts, by omega, Or.inr (by omega)⟩
      rw [split, List.replicate_succ', List.append_assoc]

end Meridian.Conn
