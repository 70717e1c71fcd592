import Meridian.Conn.ListWidget
import Meridian.Lib.Word

/-!
# The panel widget

The model of `conn/core/widget_panel.c`: a text that scrolls under a row of up to six actions. The text is
scrolled only as far as there are lines, so that the unsigned difference that the drawing takes is one.
-/

namespace Meridian.Conn.PanelWidget

open Lib.Statechart Lib.Word
open ListWidget (WidgetState WidgetStatus stateOf boundedText)

/-- `PANEL_BODY_TOP`. -/
def panelBodyTop : Nat := 5

/-- `PANEL_BODY_ROWS`. -/
def panelBodyRows : Nat := 15

/-- `CONN_PANEL_BODY`. -/
def panelBody : Nat := 64

/-- `CONN_PANEL_ACTS`. -/
def panelActs : Nat := 6

/-- `CONN_PANEL_COLS`. -/
def panelCols : Nat := 72

/-- `CONN_PANEL_ALBL`. -/
def panelLabel : Nat := 28

inductive PanelSmEvent where
  | keyUp | keyDown | keyHome | keyEnd | keyLeft | keyRight | keyEnter | keyEscape | keyDigit
  deriving DecidableEq, Repr

inductive PanelSmGuard where
  | hasActions | digitValid
  deriving DecidableEq, Repr

inductive PanelSmAction where
  | scroll | actNav | chooseEnter | cancel | chooseDigit | noopRedraw
  deriving DecidableEq, Repr

/-- `ConnPanel`, less its title. The texts behind the first `panelBody` and `panelActs` ones are the memory
behind the two arrays; a machine that was never set up has no state. -/
structure ConnPanel where
  body : Nat → List UInt8
  bodyCount : Nat
  bodyFirst : Nat
  act : Nat → List UInt8
  actCount : Nat
  selected : Nat
  status : WidgetStatus
  machine : Option WidgetState

/-! ### Actions -/

def guard (p : ConnPanel) (digit : Int) : PanelSmGuard → Bool
  | .hasActions => decide (p.actCount > 0)
  | .digitValid => decide (digit ≥ 1) && decide (digit.toNat ≤ p.actCount)

def actionScroll (event : PanelSmEvent) (p : ConnPanel) : ConnPanel :=
  { p with bodyFirst := match event with
    | .keyUp => if p.bodyFirst > 0 then p.bodyFirst - 1 else p.bodyFirst
    | .keyDown => if p.bodyFirst + panelBodyRows < p.bodyCount then p.bodyFirst + 1 else p.bodyFirst
    | .keyHome => 0
    | .keyEnd => if p.bodyCount > panelBodyRows then p.bodyCount - panelBodyRows else 0
    | _ => p.bodyFirst }

def actionActNav (event : PanelSmEvent) (p : ConnPanel) : ConnPanel :=
  { p with selected :=
      if event = .keyLeft then if p.selected > 0 then p.selected - 1 else p.selected
      else if p.selected + 1 < p.actCount then p.selected + 1 else p.selected }

def actionChooseEnter (p : ConnPanel) : ConnPanel := { p with status := .chosen }

def actionCancel (p : ConnPanel) : ConnPanel := { p with status := .cancelled }

def actionChooseDigit (digit : Int) (p : ConnPanel) : ConnPanel :=
  { p with selected := (digit - 1).toNat, status := .chosen }

def runAction (event : PanelSmEvent) (digit : Int) (p : ConnPanel) : PanelSmAction → ConnPanel
  | .scroll => actionScroll event p
  | .actNav => actionActNav event p
  | .chooseEnter => actionChooseEnter p
  | .cancel => actionCancel p
  | .chooseDigit => actionChooseDigit digit p
  | .noopRedraw => p

/-! ### The machine -/

abbrev PanelTransition := Lib.Statechart.Transition WidgetState PanelSmGuard PanelSmAction

abbrev PanelEngine := Lib.Statechart.Engine WidgetState PanelSmGuard PanelSmAction

def enterTransitions : List PanelTransition :=
  [⟨[.active], [.hasActions], .chosen, .chooseEnter⟩,
   ⟨[.active], [], .active, .noopRedraw⟩]

def digitTransitions : List PanelTransition :=
  [⟨[.active], [.digitValid], .chosen, .chooseDigit⟩,
   ⟨[.active], [], .active, .noopRedraw⟩]

/-- `PanelEvents`. -/
def transitions : PanelSmEvent → List PanelTransition
  | .keyUp | .keyDown | .keyHome | .keyEnd => [⟨[.active], [], .active, .scroll⟩]
  | .keyLeft | .keyRight => [⟨[.active], [], .active, .actNav⟩]
  | .keyEnter => enterTransitions
  | .keyEscape => [⟨[.active], [], .cancelled, .cancel⟩]
  | .keyDigit => digitTransitions

/-- `state_machine_dispatch` for the panel. Every action answers a redraw. -/
def dispatch (E : PanelEngine) (p : ConnPanel) (event : PanelSmEvent) (digit : Int) : ConnPanel × ConnAction :=
  match p.machine with
  | none => (p, .none)
  | some current =>
    match E.select (transitions event) current (guard p digit) with
    | none => (p, .none)
    | some t => ({ runAction event digit p t.action with machine := some t.target }, .redraw)

def eventForKey : ConnKey → Option PanelSmEvent
  | .up => some .keyUp
  | .down => some .keyDown
  | .home => some .keyHome
  | .end => some .keyEnd
  | .left => some .keyLeft
  | .right => some .keyRight
  | .enter => some .keyEnter
  | .escape => some .keyEscape
  | .digit => some .keyDigit
  | _ => none

def connPanelInit (E : PanelEngine) (p : ConnPanel) : ConnPanel :=
  { body := fun i => if i < panelBody then [] else p.body i
    bodyCount := 0, bodyFirst := 0
    act := fun i => if i < panelActs then [] else p.act i
    actCount := 0, selected := 0, status := .active
    machine := if E.accepts then some .active else none }

def connPanelAddBody (p : ConnPanel) (line : List UInt8) : ConnPanel :=
  if p.bodyCount < panelBody then
    { p with
      body := Function.update p.body p.bodyCount (boundedText panelCols line)
      bodyCount := p.bodyCount + 1 }
  else p

def connPanelAddAction (p : ConnPanel) (label : List UInt8) : ConnPanel × Bool :=
  if p.actCount ≥ panelActs then (p, false)
  else
    ({ p with
      act := Function.update p.act p.actCount (boundedText panelLabel label)
      actCount := p.actCount + 1 }, true)

def connPanelSetDefault (p : ConnPanel) (idx : Nat) : ConnPanel :=
  if p.actCount = 0 then p
  else { p with selected := if idx < p.actCount then idx else p.actCount - 1 }

def connPanelUpdate (E : PanelEngine) (p : ConnPanel) : ConnEvent → ConnPanel × ConnAction
  | .key key digit =>
    match eventForKey key with
    | none => (p, .none)
    | some event => dispatch E p event digit
  | _ => (p, .none)

/-! ### Drawing -/

/-- A line of the text as it is drawn. -/
structure BodyRow where
  row : Nat
  line : List UInt8
  idx : Nat
  deriving DecidableEq, Repr

/-- How many lines `conn_panel_render` draws, of an unsigned difference. -/
def bodyShown (p : ConnPanel) : Nat := min (sub64 p.bodyCount p.bodyFirst) panelBodyRows

def bodyRows (p : ConnPanel) : List BodyRow :=
  (List.range (bodyShown p)).map fun i =>
    { row := panelBodyTop + i, line := p.body (p.bodyFirst + i), idx := p.bodyFirst + i }

/-- An action as it is drawn: its column and label, its index, and whether it is highlighted. -/
structure ActCell where
  col : Nat
  label : List UInt8
  idx : Nat
  sel : Bool
  deriving DecidableEq, Repr

def actWidth (p : ConnPanel) (i : Nat) : Nat := (p.act i).length + 4

/-- The width of all the actions, with a gap between two of them. -/
def actsTotal (p : ConnPanel) : Nat :=
  ((List.range p.actCount).map fun i => actWidth p i + if i = 0 then 0 else 1).sum

def actsCol (p : ConnPanel) : Nat := max (if 80 > actsTotal p then (80 - actsTotal p) / 2 else 1) 1

/-- The actions that `conn_panel_render` draws, each behind those before it. -/
def actCells (p : ConnPanel) : List ActCell :=
  (List.range p.actCount).map fun i =>
    { col := actsCol p + ((List.range i).map fun j => actWidth p j + 1).sum
      label := p.act i
      idx := i
      sel := decide (i = p.selected) }

/-! ### The invariant -/

variable {E : PanelEngine} {p : ConnPanel} {digit : Int}

/-- The state and the action of the transition that an event fires while the panel is active. -/
def fired (p : ConnPanel) (digit : Int) : PanelSmEvent → WidgetState × PanelSmAction
  | .keyUp | .keyDown | .keyHome | .keyEnd => (.active, .scroll)
  | .keyLeft | .keyRight => (.active, .actNav)
  | .keyEnter => if guard p digit .hasActions then (.chosen, .chooseEnter) else (.active, .noopRedraw)
  | .keyEscape => (.cancelled, .cancel)
  | .keyDigit => if guard p digit .digitValid then (.chosen, .chooseDigit) else (.active, .noopRedraw)

theorem dispatch_active (hE : E.FirstMatch) (active : p.machine = some .active) (event : PanelSmEvent)
    (digit : Int) : dispatch E p event digit =
      ({ runAction event digit p (fired p digit event).2 with machine := some (fired p digit event).1 },
        .redraw) := by
  unfold dispatch
  rw [active]
  dsimp only
  cases event with
  | keyEnter =>
    rw [transitions, enterTransitions, Engine.select_guarded hE (by decide) (by decide) rfl rfl, fired]
    cases guard p digit .hasActions <;> rfl
  | keyDigit =>
    rw [transitions, digitTransitions, Engine.select_guarded hE (by decide) (by decide) rfl rfl, fired]
    cases guard p digit .digitValid <;> rfl
  | _ => simp [transitions, Engine.select_one hE, Transition.Enabled, fired]

theorem transitions_sources (event : PanelSmEvent) : ∀ t ∈ transitions event, t.sources = [.active] := by
  cases event <;> simp [transitions, enterTransitions, digitTransitions]

theorem dispatch_final (hE : E.FirstMatch) (final : p.machine = some .chosen ∨ p.machine = some .cancelled)
    (event : PanelSmEvent) (digit : Int) : dispatch E p event digit = (p, .none) := by
  unfold dispatch
  obtain state | state := final
  all_goals
    rw [state]
    dsimp only
    rw [Engine.select_elsewhere hE (transitions_sources event) (by decide)]

/-- A chosen or cancelled panel takes no event. -/
theorem update_final (hE : E.FirstMatch) (final : p.machine = some .chosen ∨ p.machine = some .cancelled)
    (ev : ConnEvent) : (connPanelUpdate E p ev).1 = p := by
  cases ev with
  | key key digit =>
    rw [connPanelUpdate]
    cases eventForKey key with
    | none => rfl
    | some event => exact congrArg Prod.fst (dispatch_final hE final event digit)
  | _ => rfl

/-- The counts are within the arrays, the text is scrolled over its lines, and the selection is an action. -/
structure Sound (p : ConnPanel) : Prop where
  bodyCount : p.bodyCount ≤ panelBody
  actCount : p.actCount ≤ panelActs
  bodyFirst : p.bodyFirst ≤ p.bodyCount
  selected : 0 < p.actCount → p.selected < p.actCount
  none : p.actCount = 0 → p.selected = 0
  chosen : p.status = .chosen → 0 < p.actCount
  machine : p.machine = some (stateOf p.status)

theorem scroll_le (event : PanelSmEvent) (h : Sound p) : (actionScroll event p).bodyFirst ≤ p.bodyCount := by
  have inside := h.bodyFirst
  dsimp only [actionScroll]
  cases event with
  | keyHome => exact Nat.zero_le _
  | keyUp | keyDown | keyEnd => dsimp only; split <;> omega
  | _ => exact inside

theorem actNav_lt (event : PanelSmEvent) (h : Sound p) :
    (0 < p.actCount → (actionActNav event p).selected < p.actCount) ∧
      (p.actCount = 0 → (actionActNav event p).selected = 0) := by
  have names := h.selected
  have nowhere := h.none
  dsimp only [actionActNav]
  constructor <;> intro count <;> repeat' split
  all_goals omega

theorem digitValid_iff : guard p digit .digitValid = true ↔ 1 ≤ digit ∧ digit.toNat ≤ p.actCount := by
  simp [guard]

theorem hasActions_iff : guard p digit .hasActions = true ↔ 0 < p.actCount := by
  simp [guard]

/-- What an event's transition does to an active panel keeps it sound. -/
theorem Sound.fires (h : Sound p) (active : p.status = .active) (event : PanelSmEvent) (digit : Int) :
    Sound { runAction event digit p (fired p digit event).2 with machine := some (fired p digit event).1 } := by
  have stays : some WidgetState.active = some (stateOf p.status) := by rw [active]; rfl
  have kept : Sound { p with machine := some .active } :=
    ⟨h.bodyCount, h.actCount, h.bodyFirst, h.selected, h.none, h.chosen, stays⟩
  have scroll : ∀ event, Sound { actionScroll event p with machine := some .active } := fun event =>
    ⟨h.bodyCount, h.actCount, scroll_le event h, h.selected, h.none, h.chosen, stays⟩
  have nav : ∀ event, Sound { actionActNav event p with machine := some .active } := fun event =>
    ⟨h.bodyCount, h.actCount, h.bodyFirst, (actNav_lt event h).1, (actNav_lt event h).2, h.chosen, stays⟩
  cases event with
  | keyUp | keyDown | keyHome | keyEnd => exact scroll _
  | keyLeft | keyRight => exact nav _
  | keyEnter =>
    rw [fired]
    by_cases actions : guard p digit .hasActions = true
    · have some_action : 0 < p.actCount := hasActions_iff.mp actions
      rw [if_pos actions]
      exact ⟨h.bodyCount, h.actCount, h.bodyFirst, h.selected, h.none, fun _ => some_action, rfl⟩
    · rw [if_neg actions]
      exact kept
  | keyEscape =>
    exact ⟨h.bodyCount, h.actCount, h.bodyFirst, h.selected, h.none, fun chosen => (nomatch chosen), rfl⟩
  | keyDigit =>
    rw [fired]
    by_cases valid : guard p digit .digitValid = true
    · obtain ⟨low, high⟩ := digitValid_iff.mp valid
      rw [if_pos valid]
      refine ⟨h.bodyCount, h.actCount, h.bodyFirst, fun actions => ?_, fun empty => ?_, fun _ => ?_, rfl⟩
      · show (digit - 1).toNat < p.actCount
        omega
      · have zero : p.actCount = 0 := empty
        omega
      · show 0 < p.actCount
        omega
    · rw [if_neg valid]
      exact kept

theorem Sound.final (h : Sound p) (finished : p.status ≠ .active) :
    p.machine = some .chosen ∨ p.machine = some .cancelled := by
  rw [h.machine]
  cases status : p.status with
  | active => exact absurd status finished
  | chosen => exact .inl rfl
  | cancelled => exact .inr rfl

theorem Sound.update (hE : E.FirstMatch) (h : Sound p) (ev : ConnEvent) : Sound (connPanelUpdate E p ev).1 := by
  by_cases active : p.status = .active
  · have machine : p.machine = some .active := by rw [h.machine, active]; rfl
    cases ev with
    | key key digit =>
      rw [connPanelUpdate]
      cases eventForKey key with
      | none => exact h
      | some event =>
        dsimp only
        rw [dispatch_active hE machine]
        exact h.fires active event digit
    | _ => exact h
  · rw [update_final hE (h.final active)]
    exact h

theorem Sound.setDefault (h : Sound p) (idx : Nat) : Sound (connPanelSetDefault p idx) := by
  unfold connPanelSetDefault
  split
  · exact h
  · rename_i actions
    refine ⟨h.bodyCount, h.actCount, h.bodyFirst, fun _ => ?_, fun empty => absurd empty actions, h.chosen,
      h.machine⟩
    dsimp only
    split <;> omega

theorem sound_init (hE : E.FirstMatch) (p : ConnPanel) : Sound (connPanelInit E p) :=
  ⟨Nat.zero_le _, Nat.zero_le _, Nat.le_refl 0, fun actions => absurd actions (Nat.lt_irrefl 0), fun _ => rfl,
    fun chosen => (nomatch chosen), if_pos hE.1⟩

/-- A panel that nothing has been selected in yet. -/
def Fresh (p : ConnPanel) : Prop := Sound p ∧ p.selected = 0 ∧ p.status = .active

theorem Fresh.addBody (h : Fresh p) (line : List UInt8) : Fresh (connPanelAddBody p line) := by
  obtain ⟨sound, first, active⟩ := h
  unfold connPanelAddBody
  split
  · rename_i room
    exact ⟨⟨room, sound.actCount, Nat.le_succ_of_le sound.bodyFirst, sound.selected, sound.none, sound.chosen,
      sound.machine⟩, first, active⟩
  · exact ⟨sound, first, active⟩

theorem Fresh.addAction (h : Fresh p) (label : List UInt8) : Fresh (connPanelAddAction p label).1 := by
  obtain ⟨sound, first, active⟩ := h
  unfold connPanelAddAction
  split
  · exact ⟨sound, first, active⟩
  · rename_i room
    refine ⟨⟨sound.bodyCount, Nat.lt_of_not_le room, sound.bodyFirst, fun _ => ?_, fun empty => (nomatch empty),
      fun _ => Nat.succ_pos _, sound.machine⟩, first, active⟩
    show p.selected < p.actCount + 1
    omega

/-! ### What is drawn -/

theorem Sound.bodyRow (h : Sound p) {r : BodyRow} (drawn : r ∈ bodyRows p) : r.idx < p.bodyCount := by
  obtain ⟨i, inside, rfl⟩ := List.mem_map.mp drawn
  have few := h.bodyCount
  have scrolled := h.bodyFirst
  rw [List.mem_range, bodyShown, sub64_of_le scrolled (by unfold panelBody at few; omega)] at inside
  dsimp only
  omega

theorem actCell_idx {c : ActCell} (drawn : c ∈ actCells p) :
    c.idx < p.actCount ∧ (c.sel = true ↔ c.idx = p.selected) := by
  obtain ⟨i, inside, rfl⟩ := List.mem_map.mp drawn
  exact ⟨List.mem_range.mp inside, decide_eq_true_iff⟩

theorem Sound.actCell (h : Sound p) (actions : 0 < p.actCount) :
    ∃ c ∈ actCells p, c.idx = p.selected ∧ c.sel = true :=
  ⟨_, List.mem_map.mpr ⟨p.selected, List.mem_range.mpr (h.selected actions), rfl⟩, rfl, decide_eq_true rfl⟩

end Meridian.Conn.PanelWidget
