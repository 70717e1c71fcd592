import Meridian.Conn.Ui
import Meridian.Lib.Statechart
import Meridian.Lib.Splice

/-!
# The line editor

The model of `conn/core/widget_editline.c`: an option string in a fixed buffer, edited in place under a
cursor and shown through a window that follows it. Against a plain editor on lists the buffer always holds
the text with its end behind it, and the cursor stands in the window.
-/

namespace Meridian.Conn.EditLine

open Lib.Splice

/-- `CONN_EDIT_MAX`. -/
def editMax : Nat := 1024

/-- `BUF_COL`. -/
def bufCol : Nat := 8

/-- `VIEW`, `CONN_COLS - 3 - BUF_COL`. -/
def view : Nat := 80 - 3 - bufCol

inductive EditSmState where
  | active | committed | cancelled
  deriving DecidableEq, Repr

inductive EditSmEvent where
  | tick | keyEnter | keyEscape | keyLeft | keyRight | keyHome | keyEnd | keyBackspace | keyDelete | keyText
  deriving DecidableEq, Repr

inductive EditSmGuard where
  | textInsertable
  deriving DecidableEq, Repr

inductive EditSmAction where
  | tick | commit | cancel | cursor | backspace | delete | insert | noopRedraw
  deriving DecidableEq, Repr

inductive ConnEditStatus where
  | active | committed | cancelled
  deriving DecidableEq, Repr

/-- `ConnLineEditModel`, less the texts above the buffer. The cells of `buf` from `editMax` on are the
memory behind it; a machine that was never set up has no state. -/
structure ConnLineEditModel where
  buf : Nat → UInt8
  len : Nat
  cursor : Nat
  first : Nat
  cursorOn : Bool
  status : ConnEditStatus
  machine : Option EditSmState

/-- `ConnEvent`, as far as the line editor reads it. -/
inductive EditEvent where
  | tick
  | key (key : ConnKey) (ch : Nat)
  | other
  deriving DecidableEq, Repr

/-! ### Actions -/

def clampScroll (m : ConnLineEditModel) : ConnLineEditModel :=
  { m with first :=
      if m.cursor < m.first then m.cursor
      else if m.cursor ≥ m.first + view then m.cursor - view + 1
      else m.first }

/-- `guard_text_insertable`. -/
def guard (m : ConnLineEditModel) (ch : Nat) : EditSmGuard → Bool
  | .textInsertable => decide (ch ≥ 0x20) && decide (ch < 0x7F) && decide (m.len + 1 < editMax)

def actionTick (m : ConnLineEditModel) : ConnLineEditModel := { m with cursorOn := !m.cursorOn }

def actionCommit (m : ConnLineEditModel) : ConnLineEditModel :=
  { m with cursorOn := true, status := .committed }

def actionCancel (m : ConnLineEditModel) : ConnLineEditModel :=
  { m with cursorOn := true, status := .cancelled }

def actionCursor (event : EditSmEvent) (m : ConnLineEditModel) : ConnLineEditModel :=
  clampScroll { m with
    cursorOn := true
    cursor := match event with
      | .keyLeft => if m.cursor > 0 then m.cursor - 1 else m.cursor
      | .keyRight => if m.cursor < m.len then m.cursor + 1 else m.cursor
      | .keyHome => 0
      | .keyEnd => m.len
      | _ => m.cursor }

/-- The character at `start` taken out: the cells behind it move down, and the new end is marked. -/
def removeAt (m : ConnLineEditModel) (start : Nat) : ConnLineEditModel :=
  { m with
    buf := Function.update (closeGap m.buf start (m.len - 1 - start)) (m.len - 1) 0
    len := m.len - 1 }

def actionBackspace (m : ConnLineEditModel) : ConnLineEditModel :=
  let m := { m with cursorOn := true }
  clampScroll (if m.cursor > 0 then { removeAt m (m.cursor - 1) with cursor := m.cursor - 1 } else m)

def actionDelete (m : ConnLineEditModel) : ConnLineEditModel :=
  let m := { m with cursorOn := true }
  clampScroll (if m.cursor < m.len then removeAt m m.cursor else m)

def actionInsert (ch : Nat) (m : ConnLineEditModel) : ConnLineEditModel :=
  clampScroll { m with
    cursorOn := true
    buf := Function.update
      (Function.update (openGap m.buf m.cursor m.len) m.cursor (UInt8.ofNat ch)) (m.len + 1) 0
    len := m.len + 1
    cursor := m.cursor + 1 }

def actionNoopRedraw (m : ConnLineEditModel) : ConnLineEditModel := { m with cursorOn := true }

def runAction (event : EditSmEvent) (ch : Nat) (m : ConnLineEditModel) : EditSmAction → ConnLineEditModel
  | .tick => actionTick m
  | .commit => actionCommit m
  | .cancel => actionCancel m
  | .cursor => actionCursor event m
  | .backspace => actionBackspace m
  | .delete => actionDelete m
  | .insert => actionInsert ch m
  | .noopRedraw => actionNoopRedraw m

/-! ### The machine -/

abbrev EditTransition := Lib.Statechart.Transition EditSmState EditSmGuard EditSmAction

abbrev EditEngine := Lib.Statechart.Engine EditSmState EditSmGuard EditSmAction

def textTransitions : List EditTransition :=
  [⟨[.active], [.textInsertable], .active, .insert⟩,
   ⟨[.active], [], .active, .noopRedraw⟩]

/-- `EditEvents`. -/
def transitions : EditSmEvent → List EditTransition
  | .tick => [⟨[.active], [], .active, .tick⟩]
  | .keyEnter => [⟨[.active], [], .committed, .commit⟩]
  | .keyEscape => [⟨[.active], [], .cancelled, .cancel⟩]
  | .keyLeft | .keyRight | .keyHome | .keyEnd => [⟨[.active], [], .active, .cursor⟩]
  | .keyBackspace => [⟨[.active], [], .active, .backspace⟩]
  | .keyDelete => [⟨[.active], [], .active, .delete⟩]
  | .keyText => textTransitions

/-- `state_machine_dispatch` for the editor. Every action answers a redraw. -/
def dispatch (E : EditEngine) (m : ConnLineEditModel) (event : EditSmEvent) (ch : Nat) :
    ConnLineEditModel × ConnAction :=
  match m.machine with
  | none => (m, .none)
  | some current =>
    match E.select (transitions event) current (guard m ch) with
    | none => (m, .none)
    | some t => ({ runAction event ch m t.action with machine := some t.target }, .redraw)

def eventForKey : ConnKey → Option EditSmEvent
  | .enter => some .keyEnter
  | .escape => some .keyEscape
  | .left => some .keyLeft
  | .right => some .keyRight
  | .home => some .keyHome
  | .end => some .keyEnd
  | .backspace => some .keyBackspace
  | .delete => some .keyDelete
  | .text => some .keyText
  | _ => none

/-- `event_for_ev`, with the character that the event carries. -/
def eventForEv : EditEvent → Option (EditSmEvent × Nat)
  | .tick => some (.tick, 0)
  | .key key ch => (eventForKey key).map fun event => (event, ch)
  | .other => none

/-- The loop of `conn_cp_bounded`, from cell `i` on: the buffer and the cell it stops at. -/
def cpLoop (cap : Nat) : (Nat → UInt8) → List UInt8 → Nat → (Nat → UInt8) × Nat
  | dst, [], i => (dst, i)
  | dst, c :: src, i =>
    if c ≠ 0 ∧ i + 1 < cap then cpLoop cap (Function.update dst i c) src (i + 1) else (dst, i)

def connCpBounded (dst : Nat → UInt8) (src : List UInt8) (cap : Nat) : (Nat → UInt8) × Nat :=
  if cap = 0 then (dst, 0)
  else
    let (dst, i) := cpLoop cap dst src 0
    (Function.update dst i 0, i)

def connLineEditInit (E : EditEngine) (m : ConnLineEditModel) (initial : List UInt8) : ConnLineEditModel :=
  let copied := connCpBounded (fun i => if i < editMax then 0 else m.buf i) initial editMax
  { clampScroll
      { buf := copied.1, len := copied.2, cursor := copied.2, first := 0, cursorOn := true, status := .active
        machine := none } with
    machine := if E.accepts then some .active else none }

def connLineEditUpdate (E : EditEngine) (m : ConnLineEditModel) (ev : EditEvent) :
    ConnLineEditModel × ConnAction :=
  match eventForEv ev with
  | none => (m, .none)
  | some (event, ch) => dispatch E m event ch

/-- The column that the cursor is drawn in. -/
def cursorColumn (m : ConnLineEditModel) : Int := bufCol + ((m.cursor : Int) - m.first)

/-- The characters of the buffer up to its length. -/
def ConnLineEditModel.text (m : ConnLineEditModel) : List UInt8 := (List.range m.len).map m.buf

/-! ### A plain editor -/

/-- A text with a cursor in it. -/
structure Editor where
  text : List UInt8
  cursor : Nat
  status : ConnEditStatus
  deriving DecidableEq, Repr

/-- Most characters that a text can have. -/
def editLimit : Nat := 1023

namespace Editor

def start (text : List UInt8) : Editor := ⟨text, text.length, .active⟩

def press (e : Editor) (ch : Nat) : ConnKey → Editor
  | .enter => { e with status := .committed }
  | .escape => { e with status := .cancelled }
  | .left => { e with cursor := e.cursor - 1 }
  | .right => { e with cursor := min (e.cursor + 1) e.text.length }
  | .home => { e with cursor := 0 }
  | .end => { e with cursor := e.text.length }
  | .backspace =>
    if e.cursor = 0 then e else { e with text := e.text.eraseIdx (e.cursor - 1), cursor := e.cursor - 1 }
  | .delete => { e with text := e.text.eraseIdx e.cursor }
  | .text =>
    if 0x20 ≤ ch ∧ ch < 0x7F ∧ e.text.length < editLimit then
      { e with text := e.text.insertIdx e.cursor (UInt8.ofNat ch), cursor := e.cursor + 1 }
    else e
  | _ => e

def feed (e : Editor) : EditEvent → Editor
  | .key key ch => if e.status = .active then e.press ch key else e
  | .tick | .other => e

end Editor

end Meridian.Conn.EditLine
