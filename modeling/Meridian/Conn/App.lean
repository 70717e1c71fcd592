import Meridian.Conn.Ui
import Mathlib.Algebra.Group.Nat.Defs

/-!
# The menu reducer and its bridge

The model of `conn/core/app.c` (`connUpdate` and the events it takes) and of the places where
`ui/conn_bridge.c` writes the menu's state without an event.
-/

namespace Meridian.Conn

structure ConnModel where
  ui : ConnUiState := {}
  railTop : Nat := 0
  globeFrame : Nat := 0
  deriving DecidableEq, Repr

/-- `ConnEvent`, one constructor for each event type with the fields its case reads. -/
inductive ConnEvent where
  | init
  | key (key : ConnKey) (digit : Int)
  | tick
  | remote (wake : ConnWakeIntent) (wakeIndex : Nat)
  | point (row : Nat) (click : Bool)
  | launchReturned (failed : Bool) (selectedHint : Nat)
  deriving DecidableEq, Repr

def clampSelected (selected : Nat) (list : Option ConnEntryList) : Nat :=
  if entryCount list = 0 then 0
  else if selected < entryCount list then selected else entryCount list - 1

def openOptions (model : ConnModel) (list : Option ConnEntryList) : ConnModel × ConnAction :=
  if entryCount list = 0 then (model, .none)
  else
    ({ model with ui := { model.ui with
        idleS := 0
        saverFrame := 0
        autoboot := false
        cancelled := true
        status := .ok } }, .options)

def connModelInit (E : Engine) (model : ConnModel) (list : Option ConnEntryList) : ConnModel :=
  { model with ui := connUiInit E model.ui list, railTop := 0 }

/-- `conn_event_point` carries a click as a launch and a move as a selection. -/
def pointWake (click : Bool) : ConnWakeIntent := if click then .launch else .select

/-- A reinitialised model that keeps the configured screensaver delay. -/
def reinit (E : Engine) (model : ConnModel) (list : Option ConnEntryList) : ConnModel :=
  let screensaverS := model.ui.screensaverS
  let model := connModelInit E model list
  { model with ui := connUiSetScreensaver model.ui screensaverS }

def connUpdate (E : Engine) (list : Option ConnEntryList) (model : ConnModel) :
    ConnEvent → ConnModel × ConnAction
  | .init => (reinit E model list, .redraw)
  | .key key digit =>
    if key = .options ∧ model.ui.saverActive = false then openOptions model list
    else
      let (ui, act) := connUiOnKey E model.ui key digit list
      ({ model with ui := ui }, act)
  | .tick =>
    let (ui, act) := connUiOnTick E model.ui list
    ({ model with ui := ui }, act)
  | .remote wake wakeIndex =>
    let (ui, act) := connUiOnRemote E model.ui wake wakeIndex list
    ({ model with ui := ui }, act)
  | .point row click =>
    let (ui, act) := connUiOnRemote E model.ui (pointWake click) row list
    ({ model with ui := ui }, act)
  | .launchReturned failed selectedHint =>
    let model := reinit E model list
    ({ model with ui := { model.ui with
        autoboot := false
        cancelled := true
        selected := clampSelected selectedHint list
        status := if failed then .launchFailed else .ok } }, .redraw)

/-! ### Writes of the bridge -/

/-- What `ConnRunMainMenu` and its preview do to the model: feed it an event, or write its fields
directly. -/
inductive MenuStep where
  | update (event : ConnEvent)
  /-- The configured timeout replaces the countdown. -/
  | countdown (seconds : Nat)
  | screensaver (seconds : Nat)
  /-- No timer could be set up, or the menu is only previewed. -/
  | stopAutoboot
  /-- The key that brings the network up cancels the countdown. -/
  | networkKey
  /-- The system-information rail is scrolled, by the arrow keys or the wheel. -/
  | railScroll (top : Nat)
  | globe
  deriving DecidableEq, Repr

def menuStep (E : Engine) (list : Option ConnEntryList) (model : ConnModel) : MenuStep → ConnModel
  | .update event => (connUpdate E list model event).1
  | .countdown seconds => { model with ui := { model.ui with countdownS := seconds % 2 ^ 32 } }
  | .screensaver seconds => { model with ui := connUiSetScreensaver model.ui seconds }
  | .stopAutoboot => { model with ui := { model.ui with autoboot := false } }
  | .networkKey =>
    { model with ui := { model.ui with cancelled := true, autoboot := false, idleS := 0 } }
  | .railScroll top =>
    { model with railTop := top, ui := { model.ui with idleS := 0, saverFrame := 0 } }
  | .globe => { model with globeFrame := (model.globeFrame + 1) % 2 ^ 32 }

end Meridian.Conn
