import Meridian.Conn.App

/-!
# What one event does to the menu machine

One lemma for each event, over an engine that fires the first matching transition: which action
runs in which state, and where the machine goes. The invariants of the menu are read off these;
no later proof looks at the transition tables.
-/

namespace Meridian.Conn

variable {E : Engine} {list : Option ConnEntryList}

/-- The machine's own part of a fired transition: the action's result, in the target state. -/
def moved (target : ConnUiSmState) (r : ConnUiState × ConnUiDispatch) : ConnUiState × ConnUiDispatch :=
  ({ r.1 with machine := target }, r.2)

theorem dispatch_init (hE : E.FirstMatch) (st : ConnUiState) (ctx : ConnUiDispatch)
    (fresh : st.machine = .bootstrap) :
    dispatch E st .init ctx = match ctx.list with
      | .none => (st, ctx)
      | some l =>
        if l.count = 0 then moved .empty (actionInitEmpty st ctx.list, ctx)
        else if l.allowAutoboot then moved .autoboot (actionInitAutoboot st ctx.list, ctx)
        else moved .manual (actionInitManual st ctx.list, ctx) := by
  simp only [dispatch, hE.2, transitions, initTransitions, fresh]
  cases h : ctx.list with
  | none => simp [guard]
  | some l =>
    by_cases empty : l.count = 0
    · simp [guard, empty, runAction, moved, h]
    · have entries : 0 < l.count := Nat.pos_of_ne_zero empty
      cases auto : l.allowAutoboot <;> simp [guard, empty, entries, auto, runAction, moved, h]

theorem dispatch_key (hE : E.FirstMatch) (st : ConnUiState) (key : ConnKey) (ctx : ConnUiDispatch) :
    dispatch E st (eventForKey key) ctx = match st.machine with
      | .autoboot | .manual => moved .manual (actionKey (eventForKey key) st ctx)
      | .saver => moved .manual (actionWake st ctx)
      | _ => (st, ctx) := by
  have table : transitions (eventForKey key) = keyTransition := by cases key <;> rfl
  simp only [dispatch, hE.2, table, keyTransition]
  cases st.machine <;> simp [runAction, moved]

theorem dispatch_tick (hE : E.FirstMatch) (st : ConnUiState) (ctx : ConnUiDispatch) :
    dispatch E st .tick ctx = match st.machine with
      | .autoboot =>
        if uiTickActive st ctx.list then
          if st.countdownS ≤ 1 then moved .launch (actionTickLaunch st ctx)
          else moved .autoboot (actionTickRedraw st ctx)
        else (st, ctx)
      | .manual =>
        if guard st ctx.list .idleReady then moved .saver (actionEnterSaver st ctx)
        else moved .manual (uiBumpIdle st, ctx)
      | .empty =>
        if guard st ctx.list .idleReady then moved .saver (actionEnterSaver st ctx)
        else moved .empty (uiBumpIdle st, ctx)
      | .saver => moved .saver (actionTickSaver st ctx)
      | _ => (st, ctx) := by
  simp only [dispatch, hE.2, transitions, tickTransitions]
  cases state : st.machine with
  | autoboot =>
    cases active : uiTickActive st ctx.list with
    | false => simp [guard, active]
    | true =>
      by_cases last : st.countdownS ≤ 1
      · simp [guard, active, last, runAction, moved]
      · simp [guard, active, last, Nat.lt_of_not_le last, runAction, moved]
  | manual | empty => cases ready : guard st ctx.list .idleReady <;> simp [ready, runAction, moved]
  | _ => simp [runAction, moved]

theorem dispatch_remote (hE : E.FirstMatch) (st : ConnUiState) (ctx : ConnUiDispatch) :
    dispatch E st .remote ctx = match st.machine with
      | .bootstrap | .launch => (st, ctx)
      | _ => moved .manual (actionRemote st ctx) := by
  simp only [dispatch, hE.2, transitions, remoteTransition]
  cases st.machine <;> simp [runAction, moved]

/-! ### The machine after an initialisation -/

/-- Initialising the menu with this list starts the countdown. -/
def Rearms (list : Option ConnEntryList) : Prop :=
  ∃ l, list = some l ∧ 0 < l.count ∧ l.allowAutoboot = true

/-- The countdown runs: nothing has cancelled it. -/
def Armed (ui : ConnUiState) : Prop := ui.autoboot = true ∧ ui.cancelled = false

/-- The state the initialisation leaves, whatever the model held before. -/
theorem connUiInit_eq (hE : E.FirstMatch) (st : ConnUiState) (list : Option ConnEntryList) :
    connUiInit E st list = match list with
      | .none => { machine := .bootstrap }
      | some l =>
        if l.count = 0 then { machine := .empty }
        else if l.allowAutoboot then
          { machine := .autoboot, autoboot := true, countdownS := autobootSeconds, status := .ok
            selected := defaultSelection list }
        else { machine := .manual, status := .ok, selected := defaultSelection list } := by
  simp only [connUiInit, hE.1, if_true]
  rw [dispatch_init hE _ _ rfl]
  cases list with
  | none => rfl
  | some l =>
    dsimp only
    split
    · rename_i empty
      simp [moved, actionInitEmpty, initCommon, defaultSelection, empty]
    · split <;> rfl

theorem defaultSelection_lt (h : 0 < entryCount list) : defaultSelection list < entryCount list := by
  cases list with
  | none => exact h
  | some l =>
    simp only [defaultSelection, entryCount] at h ⊢
    split <;> omega

theorem clampSelected_lt (selected : Nat) (h : 0 < entryCount list) :
    clampSelected selected list < entryCount list := by
  unfold clampSelected
  split
  · omega
  · split <;> omega

theorem connPageStep_lt (page : Nat) (forward : Bool) {selected count : Nat} (h : selected < count) :
    connPageStep selected count page forward < count := by
  have entries : count ≠ 0 := by omega
  unfold connPageStep
  rw [if_neg entries]
  cases forward with
  | true => rw [if_pos rfl]; split <;> omega
  | false => rw [if_neg Bool.false_ne_true]; split <;> omega

theorem keySelection_lt (event : ConnUiSmEvent) (digit : Int) {selected count : Nat}
    (h : selected < count) : keySelection event digit selected count < count := by
  cases event with
  | keyPageUp => exact connPageStep_lt _ false h
  | keyPageDown => exact connPageStep_lt _ true h
  | keyUp | keyDown | keyDigit => simp only [keySelection]; split <;> omega
  | _ => exact h

end Meridian.Conn
