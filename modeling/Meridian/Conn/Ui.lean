import Mathlib.Data.List.Basic

/-!
# The boot menu's state machine

The model of `conn/core/ui.c`: the guards, the actions and the transition tables of the menu
machine, and the entry points that dispatch events to it. The engine that walks the tables is
not part of the repository; it is a parameter, with what the menu relies on as `FirstMatch`.
-/

namespace Meridian.Conn

inductive ConnUiSmState where
  | bootstrap | empty | autoboot | manual | saver | launch
  deriving DecidableEq, Repr

inductive ConnUiSmEvent where
  | init | keyUp | keyDown | keyDigit | keyEnter | keyOther | tick | remote | keyPageUp | keyPageDown
  deriving DecidableEq, Repr

inductive ConnUiSmGuard where
  | listEmpty | listAutoboot | listEntries | tickLaunch | tickRedraw | idleReady
  deriving DecidableEq, Repr

inductive ConnUiSmAction where
  | initEmpty | initAutoboot | initManual | key | tickLaunch | tickRedraw | tickIdle
  | enterSaver | tickSaver | wake | remote
  deriving DecidableEq, Repr

inductive ConnUiStatus where
  | ok | empty | launchFailed
  deriving DecidableEq, Repr

inductive ConnWakeIntent where
  | dismiss | select | launch
  deriving DecidableEq, Repr

inductive ConnKey where
  | none | up | down | pageUp | pageDown | enter | digit | options
  | left | right | home | «end» | backspace | delete | text | escape | other
  deriving DecidableEq, Repr

inductive ConnAction where
  | none | redraw | launch | options
  deriving DecidableEq, Repr

/-- The part of `ConnEntryList` that the reducer reads. -/
structure ConnEntryList where
  count : Nat
  defaultIndex : Nat
  allowAutoboot : Bool
  deriving DecidableEq, Repr

structure ConnUiState where
  machine : ConnUiSmState := .bootstrap
  selected : Nat := 0
  countdownS : Nat := 0
  idleS : Nat := 0
  saverFrame : Nat := 0
  screensaverS : Nat := 0
  autoboot : Bool := false
  cancelled : Bool := false
  saverActive : Bool := false
  status : ConnUiStatus := .empty
  deriving DecidableEq, Repr

/-- `ConnUiDispatch`: the payload of one event, with the command the action answers. A list
pointer may be null. -/
structure ConnUiDispatch where
  list : Option ConnEntryList
  digit : Int := 0
  wake : ConnWakeIntent := .dismiss
  wakeIndex : Nat := 0
  action : ConnAction := .none

def autobootSeconds : Nat := 5

/-- `CONN_MENU_PAGE_ROWS`, `CONN_ROWS - 7`. -/
def menuPageRows : Nat := 18

/-- The entry count, zero for a null list. -/
def entryCount : Option ConnEntryList → Nat
  | some list => list.count
  | .none => 0

def connPageStep (selected count page : Nat) (forward : Bool) : Nat :=
  if count = 0 then 0
  else if forward then
    if selected + page < count then selected + page else count - 1
  else
    if selected ≥ page then selected - page else 0

/-! ### Guards -/

def uiTickActive (st : ConnUiState) : Option ConnEntryList → Bool
  | some list => st.autoboot && !st.cancelled && decide (list.count > 0)
  | .none => false

def guard (st : ConnUiState) (list : Option ConnEntryList) : ConnUiSmGuard → Bool
  | .listEmpty => list.any fun list => list.count = 0
  | .listAutoboot => list.any fun list => decide (list.count > 0) && list.allowAutoboot
  | .listEntries => list.any fun list => list.count > 0
  | .tickLaunch => uiTickActive st list && decide (st.countdownS ≤ 1)
  | .tickRedraw => uiTickActive st list && decide (st.countdownS > 1)
  | .idleReady => decide (st.screensaverS > 0) && decide (st.idleS ≥ st.screensaverS - 1)

/-! ### Actions -/

def maxU32 : Nat := 0xFFFFFFFF

def uiBumpIdle (st : ConnUiState) : ConnUiState :=
  if st.idleS < maxU32 then { st with idleS := st.idleS + 1 } else st

def uiResetIdle (st : ConnUiState) : ConnUiState := { st with idleS := 0, saverFrame := 0 }

/-- The default entry when it exists, else the first. -/
def defaultSelection : Option ConnEntryList → Nat
  | some list => if list.defaultIndex < list.count then list.defaultIndex else 0
  | .none => 0

def initCommon (st : ConnUiState) (list : Option ConnEntryList) : ConnUiState :=
  { st with
    selected := defaultSelection list
    cancelled := false
    status := .ok
    idleS := 0
    saverFrame := 0
    saverActive := false }

def actionInitEmpty (st : ConnUiState) (list : Option ConnEntryList) : ConnUiState :=
  { initCommon st list with autoboot := false, countdownS := 0, status := .empty }

def actionInitAutoboot (st : ConnUiState) (list : Option ConnEntryList) : ConnUiState :=
  { initCommon st list with autoboot := true, countdownS := autobootSeconds }

def actionInitManual (st : ConnUiState) (list : Option ConnEntryList) : ConnUiState :=
  { initCommon st list with autoboot := false, countdownS := 0 }

/-- The selection after a key, in a list with entries. -/
def keySelection (event : ConnUiSmEvent) (digit : Int) (selected count : Nat) : Nat :=
  match event with
  | .keyUp => if selected > 0 then selected - 1 else selected
  | .keyDown => if selected + 1 < count then selected + 1 else selected
  | .keyPageUp => connPageStep selected count menuPageRows false
  | .keyPageDown => connPageStep selected count menuPageRows true
  | .keyDigit => if digit ≥ 1 ∧ digit.toNat ≤ count then (digit - 1).toNat else selected
  | _ => selected

/-- The command a key answers; `wasRunning` is the countdown's flag before the key. -/
def keyCommand (event : ConnUiSmEvent) (wasRunning : Bool) : ConnAction :=
  match event with
  | .keyUp | .keyDown | .keyPageUp | .keyPageDown | .keyDigit => .redraw
  | .keyEnter => .launch
  | _ => if wasRunning then .redraw else .none

def actionKey (event : ConnUiSmEvent) (st : ConnUiState) (ctx : ConnUiDispatch) :
    ConnUiState × ConnUiDispatch :=
  let st := { uiResetIdle st with saverActive := false }
  if entryCount ctx.list = 0 then (st, ctx)
  else
    ({ st with
        autoboot := false
        cancelled := true
        status := .ok
        selected := keySelection event ctx.digit st.selected (entryCount ctx.list) },
      { ctx with action := keyCommand event st.autoboot })

/-- `CONN_UI_EMPTY` only for a list that is there and has no entry. -/
def wakeStatus : Option ConnEntryList → ConnUiStatus
  | some list => if list.count = 0 then .empty else .ok
  | .none => .ok

def actionWake (st : ConnUiState) (ctx : ConnUiDispatch) : ConnUiState × ConnUiDispatch :=
  ({ uiResetIdle st with
      saverActive := false
      autoboot := false
      cancelled := true
      status := wakeStatus ctx.list },
    { ctx with action := .redraw })

def actionRemote (st : ConnUiState) (ctx : ConnUiDispatch) : ConnUiState × ConnUiDispatch :=
  let (st, ctx) := actionWake st ctx
  if ctx.wake = .select ∨ ctx.wake = .launch then
    if ctx.wakeIndex ≥ entryCount ctx.list then (st, { ctx with action := .redraw })
    else
      ({ st with selected := ctx.wakeIndex },
        { ctx with action := if ctx.wake = .launch then .launch else .redraw })
  else (st, { ctx with action := .redraw })

def actionTickLaunch (st : ConnUiState) (ctx : ConnUiDispatch) : ConnUiState × ConnUiDispatch :=
  match ctx.list with
  | .none => (st, ctx)
  | some list =>
    ({ st with
        countdownS := 0
        autoboot := false
        saverActive := false
        selected := defaultSelection (some list) },
      { ctx with action := .launch })

def actionTickRedraw (st : ConnUiState) (ctx : ConnUiDispatch) : ConnUiState × ConnUiDispatch :=
  (if st.countdownS > 0 then { st with countdownS := st.countdownS - 1 } else st,
    { ctx with action := .redraw })

def actionEnterSaver (st : ConnUiState) (ctx : ConnUiDispatch) : ConnUiState × ConnUiDispatch :=
  ({ uiBumpIdle st with saverFrame := 0, saverActive := true, autoboot := false },
    { ctx with action := .redraw })

def actionTickSaver (st : ConnUiState) (ctx : ConnUiDispatch) : ConnUiState × ConnUiDispatch :=
  let st := { uiBumpIdle st with saverActive := true }
  (if st.saverFrame < maxU32 then { st with saverFrame := st.saverFrame + 1 } else st,
    { ctx with action := .redraw })

def runAction (event : ConnUiSmEvent) (st : ConnUiState) (ctx : ConnUiDispatch) :
    ConnUiSmAction → ConnUiState × ConnUiDispatch
  | .initEmpty => (actionInitEmpty st ctx.list, ctx)
  | .initAutoboot => (actionInitAutoboot st ctx.list, ctx)
  | .initManual => (actionInitManual st ctx.list, ctx)
  | .key => actionKey event st ctx
  | .tickLaunch => actionTickLaunch st ctx
  | .tickRedraw => actionTickRedraw st ctx
  | .tickIdle => (uiBumpIdle st, ctx)
  | .enterSaver => actionEnterSaver st ctx
  | .tickSaver => actionTickSaver st ctx
  | .wake => actionWake st ctx
  | .remote => actionRemote st ctx

/-! ### Transition tables -/

structure Transition where
  sources : List ConnUiSmState
  guards : List ConnUiSmGuard
  target : ConnUiSmState
  action : ConnUiSmAction

def initTransitions : List Transition :=
  [⟨[.bootstrap], [.listEmpty], .empty, .initEmpty⟩,
   ⟨[.bootstrap], [.listAutoboot], .autoboot, .initAutoboot⟩,
   ⟨[.bootstrap], [.listEntries], .manual, .initManual⟩]

def keyTransition : List Transition :=
  [⟨[.autoboot, .manual], [], .manual, .key⟩,
   ⟨[.saver], [], .manual, .wake⟩]

def tickTransitions : List Transition :=
  [⟨[.autoboot], [.tickLaunch], .launch, .tickLaunch⟩,
   ⟨[.autoboot], [.tickRedraw], .autoboot, .tickRedraw⟩,
   ⟨[.manual], [.idleReady], .saver, .enterSaver⟩,
   ⟨[.empty], [.idleReady], .saver, .enterSaver⟩,
   ⟨[.saver], [], .saver, .tickSaver⟩,
   ⟨[.manual], [], .manual, .tickIdle⟩,
   ⟨[.empty], [], .empty, .tickIdle⟩]

def remoteTransition : List Transition :=
  [⟨[.empty, .autoboot, .manual, .saver], [], .manual, .remote⟩]

/-- `ConnUiEvents`. -/
def transitions : ConnUiSmEvent → List Transition
  | .init => initTransitions
  | .tick => tickTransitions
  | .remote => remoteTransition
  | _ => keyTransition

/-! ### The engine and the entry points -/

/-- The external state-machine engine: whether it accepts the definition, and which of an event's
transitions it fires. -/
structure Engine where
  init : Bool
  select : List Transition → ConnUiSmState → (ConnUiSmGuard → Bool) → Option Transition

/-- The engine accepts the menu's definition and fires the first transition, in listed order,
whose source is the current state and whose guards hold. -/
def Engine.FirstMatch (E : Engine) : Prop :=
  E.init = true ∧ ∀ ts current holds, E.select ts current holds =
    ts.find? fun t => decide (current ∈ t.sources) && t.guards.all holds

/-- An engine that tries the transitions in listed order. -/
def listedOrder : Engine :=
  ⟨true, fun ts current holds => ts.find? fun t => decide (current ∈ t.sources) && t.guards.all holds⟩

theorem listedOrder_firstMatch : listedOrder.FirstMatch := ⟨rfl, fun _ _ _ => rfl⟩

/-- `state_machine_dispatch` for the menu machine. -/
def dispatch (E : Engine) (st : ConnUiState) (event : ConnUiSmEvent) (ctx : ConnUiDispatch) :
    ConnUiState × ConnUiDispatch :=
  match E.select (transitions event) st.machine (guard st ctx.list) with
  | .none => (st, ctx)
  | some t =>
    let (st, ctx) := runAction event st ctx t.action
    ({ st with machine := t.target }, ctx)

def eventForKey : ConnKey → ConnUiSmEvent
  | .up => .keyUp
  | .down => .keyDown
  | .pageUp => .keyPageUp
  | .pageDown => .keyPageDown
  | .digit => .keyDigit
  | .enter => .keyEnter
  | _ => .keyOther

def connUiInit (E : Engine) (st : ConnUiState) (list : Option ConnEntryList) : ConnUiState :=
  -- Every field is reset; a machine whose definition is refused keeps its old state.
  let st : ConnUiState := { machine := st.machine }
  if E.init then (dispatch E { st with machine := .bootstrap } .init { list := list }).1 else st

def connUiOnKey (E : Engine) (st : ConnUiState) (key : ConnKey) (digit : Int)
    (list : Option ConnEntryList) : ConnUiState × ConnAction :=
  let (st, ctx) := dispatch E st (eventForKey key) { list := list, digit := digit }
  (st, ctx.action)

def connUiOnTick (E : Engine) (st : ConnUiState) (list : Option ConnEntryList) :
    ConnUiState × ConnAction :=
  let (st, ctx) := dispatch E st .tick { list := list }
  (st, ctx.action)

def connUiOnRemote (E : Engine) (st : ConnUiState) (wake : ConnWakeIntent) (wakeIndex : Nat)
    (list : Option ConnEntryList) : ConnUiState × ConnAction :=
  let (st, ctx) := dispatch E st .remote { list := list, wake := wake, wakeIndex := wakeIndex }
  (st, ctx.action)

def connUiSetScreensaver (st : ConnUiState) (seconds : Nat) : ConnUiState :=
  let st := { st with screensaverS := seconds }
  if seconds = 0 then { st with idleS := 0, saverFrame := 0 } else st

end Meridian.Conn
