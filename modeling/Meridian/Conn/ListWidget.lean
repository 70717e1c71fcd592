import Meridian.Conn.Machine
import Meridian.Lib.Statechart

/-!
# The list widget

The model of `conn/core/widget_list.c`: a list of up to 32 items with a selection and a window that follows
it. The drawing clamps the window on its own, and still shows the selected item.
-/

namespace Meridian.Conn.ListWidget

/-- `LIST_TOP`. -/
def listTop : Nat := 6

/-- `LIST_VISIBLE`, `CONN_ROWS - 4 - LIST_TOP + 1`. -/
def listVisible : Nat := 25 - 4 - listTop + 1

/-- `CONN_LIST_MAX`. -/
def listMax : Nat := 32

/-- `CONN_LIST_INFO`. -/
def listInfo : Nat := 14

/-- `CONN_LIST_COLS`. -/
def listCols : Nat := 72

/-- `ConnWidgetStates3`, and the states of both widgets' machines. -/
inductive WidgetState where
  | active | chosen | cancelled
  deriving DecidableEq, Repr

/-- `ConnListStatus`, and `ConnPanelStatus` with the same members. -/
inductive WidgetStatus where
  | active | chosen | cancelled
  deriving DecidableEq, Repr

inductive ListSmEvent where
  | keyUp | keyDown | keyHome | keyEnd | keyEnter | keyEscape | keyDigit | keyPageUp | keyPageDown
  deriving DecidableEq, Repr

inductive ListSmGuard where
  | hasEntries | digitValid
  deriving DecidableEq, Repr

inductive ListSmAction where
  | nav | chooseEnter | cancel | chooseDigit | digitClamp | noopRedraw
  deriving DecidableEq, Repr

/-- `ConnList`, less its title. The texts behind the first `listInfo` and `listMax` ones are the memory behind
the two arrays; a machine that was never set up has no state. -/
structure ConnList where
  info : Nat → List UInt8
  infoCount : Nat
  item : Nat → List UInt8
  count : Nat
  selected : Nat
  first : Nat
  status : WidgetStatus
  machine : Option WidgetState

/-! ### Actions -/

def clampScroll (l : ConnList) : ConnList :=
  { l with first :=
      if l.selected < l.first then l.selected
      else if l.selected ≥ l.first + listVisible then l.selected - listVisible + 1
      else l.first }

def guard (l : ConnList) (digit : Int) : ListSmGuard → Bool
  | .hasEntries => decide (l.count > 0)
  | .digitValid => decide (digit ≥ 1) && decide (digit.toNat ≤ l.count)

def actionNav (event : ListSmEvent) (l : ConnList) : ConnList :=
  clampScroll { l with selected := match event with
    | .keyUp => if l.selected > 0 then l.selected - 1 else l.selected
    | .keyDown => if l.selected + 1 < l.count then l.selected + 1 else l.selected
    | .keyPageUp => connPageStep l.selected l.count listVisible false
    | .keyPageDown => connPageStep l.selected l.count listVisible true
    | .keyHome => 0
    | .keyEnd => if l.count > 0 then l.count - 1 else l.selected
    | _ => l.selected }

def actionChooseEnter (l : ConnList) : ConnList := { l with status := .chosen }

def actionCancel (l : ConnList) : ConnList := { l with status := .cancelled }

def actionChooseDigit (digit : Int) (l : ConnList) : ConnList :=
  clampScroll { l with selected := (digit - 1).toNat, status := .chosen }

def actionDigitClamp (l : ConnList) : ConnList := clampScroll l

def runAction (event : ListSmEvent) (digit : Int) (l : ConnList) : ListSmAction → ConnList
  | .nav => actionNav event l
  | .chooseEnter => actionChooseEnter l
  | .cancel => actionCancel l
  | .chooseDigit => actionChooseDigit digit l
  | .digitClamp => actionDigitClamp l
  | .noopRedraw => l

/-! ### The machine -/

abbrev ListTransition := Lib.Statechart.Transition WidgetState ListSmGuard ListSmAction

abbrev ListEngine := Lib.Statechart.Engine WidgetState ListSmGuard ListSmAction

def enterTransitions : List ListTransition :=
  [⟨[.active], [.hasEntries], .chosen, .chooseEnter⟩,
   ⟨[.active], [], .active, .noopRedraw⟩]

def digitTransitions : List ListTransition :=
  [⟨[.active], [.digitValid], .chosen, .chooseDigit⟩,
   ⟨[.active], [], .active, .digitClamp⟩]

/-- `ListEvents`. -/
def transitions : ListSmEvent → List ListTransition
  | .keyEnter => enterTransitions
  | .keyEscape => [⟨[.active], [], .cancelled, .cancel⟩]
  | .keyDigit => digitTransitions
  | _ => [⟨[.active], [], .active, .nav⟩]

/-- `state_machine_dispatch` for the list. Every action answers a redraw. -/
def dispatch (E : ListEngine) (l : ConnList) (event : ListSmEvent) (digit : Int) : ConnList × ConnAction :=
  match l.machine with
  | none => (l, .none)
  | some current =>
    match E.select (transitions event) current (guard l digit) with
    | none => (l, .none)
    | some t => ({ runAction event digit l t.action with machine := some t.target }, .redraw)

def eventForKey : ConnKey → Option ListSmEvent
  | .up => some .keyUp
  | .down => some .keyDown
  | .pageUp => some .keyPageUp
  | .pageDown => some .keyPageDown
  | .home => some .keyHome
  | .end => some .keyEnd
  | .enter => some .keyEnter
  | .escape => some .keyEscape
  | .digit => some .keyDigit
  | _ => none

/-- The text that `conn_cp_bounded` leaves in a field of `cap` characters. -/
def boundedText (cap : Nat) (src : List UInt8) : List UInt8 := (src.takeWhile (· ≠ 0)).take (cap - 1)

def connListInit (E : ListEngine) (l : ConnList) : ConnList :=
  { info := fun i => if i < listInfo then [] else l.info i
    infoCount := 0
    item := fun i => if i < listMax then [] else l.item i
    count := 0, selected := 0, first := 0, status := .active
    machine := if E.accepts then some .active else none }

def connListAddInfo (l : ConnList) (line : List UInt8) : ConnList :=
  if l.infoCount < listInfo then
    { l with
      info := Function.update l.info l.infoCount (boundedText listCols line)
      infoCount := l.infoCount + 1 }
  else l

def connListAdd (l : ConnList) (item : List UInt8) : ConnList × Bool :=
  if l.count ≥ listMax then (l, false)
  else
    ({ l with
      item := Function.update l.item l.count (boundedText listCols item)
      count := l.count + 1 }, true)

def connListSetDefault (l : ConnList) (idx : Nat) : ConnList :=
  if l.count = 0 then l
  else clampScroll { l with selected := if idx < l.count then idx else l.count - 1 }

def connListUpdate (E : ListEngine) (l : ConnList) : ConnEvent → ConnList × ConnAction
  | .key key digit =>
    match eventForKey key with
    | none => (l, .none)
    | some event => dispatch E l event digit
  | _ => (l, .none)

/-! ### Drawing -/

/-- The two characters of an item's number. -/
def itemNumber (num : Nat) : List Nat :=
  [if num ≥ 10 ∧ num < 100 then 0x30 + num / 10 % 10 else 0x20, if num < 100 then 0x30 + num % 10 else 0x20]

/-- An item as it is drawn: its row, number and text, its index, and whether it is highlighted. -/
structure ListRow where
  row : Int
  nb : List Nat
  title : List UInt8
  idx : Int
  sel : Bool
  deriving DecidableEq, Repr

/-- The index of the first item drawn. -/
def listStart (l : ConnList) : Int :=
  if (l.count : Int) > listVisible then
    let start : Int := if (l.first : Int) > l.count - listVisible then l.count - listVisible else l.first
    if start < 0 then 0 else start
  else 0

def listShown (l : ConnList) : Int :=
  if l.count - listStart l > listVisible then listVisible else l.count - listStart l

/-- The items that `conn_list_render` draws. -/
def listRows (l : ConnList) : List ListRow :=
  (List.range (listShown l).toNat).map fun i : Nat =>
    let idx := listStart l + i
    { row := listTop + i
      nb := itemNumber (idx.toNat + 1)
      title := l.item idx.toNat
      idx := idx
      sel := decide (idx.toNat = l.selected) }

/-- The indices of the lines that `conn_list_render` draws above the items. -/
def listInfos (l : ConnList) : List Nat := (List.range l.infoCount).takeWhile (· < 2)

/-! ### The invariant -/

variable {E : ListEngine} {l : ConnList} {digit : Int}

open Lib.Statechart

def stateOf : WidgetStatus → WidgetState
  | .active => .active
  | .chosen => .chosen
  | .cancelled => .cancelled

/-- The state and the action of the transition that an event fires while the list is active. -/
def fired (l : ConnList) (digit : Int) : ListSmEvent → WidgetState × ListSmAction
  | .keyEnter => if guard l digit .hasEntries then (.chosen, .chooseEnter) else (.active, .noopRedraw)
  | .keyEscape => (.cancelled, .cancel)
  | .keyDigit => if guard l digit .digitValid then (.chosen, .chooseDigit) else (.active, .digitClamp)
  | _ => (.active, .nav)

theorem dispatch_active (hE : E.FirstMatch) (active : l.machine = some .active) (event : ListSmEvent)
    (digit : Int) : dispatch E l event digit =
      ({ runAction event digit l (fired l digit event).2 with machine := some (fired l digit event).1 },
        .redraw) := by
  unfold dispatch
  rw [active]
  dsimp only
  cases event with
  | keyEnter =>
    rw [transitions, enterTransitions, Engine.select_guarded hE (by decide) (by decide) rfl rfl, fired]
    cases guard l digit .hasEntries <;> rfl
  | keyDigit =>
    rw [transitions, digitTransitions, Engine.select_guarded hE (by decide) (by decide) rfl rfl, fired]
    cases guard l digit .digitValid <;> rfl
  | _ => simp [transitions, Engine.select_one hE, Transition.Enabled, fired]

theorem transitions_sources (event : ListSmEvent) : ∀ t ∈ transitions event, t.sources = [.active] := by
  cases event <;> simp [transitions, enterTransitions, digitTransitions]

theorem dispatch_final (hE : E.FirstMatch) (final : l.machine = some .chosen ∨ l.machine = some .cancelled)
    (event : ListSmEvent) (digit : Int) : dispatch E l event digit = (l, .none) := by
  unfold dispatch
  obtain state | state := final
  all_goals
    rw [state]
    dsimp only
    rw [Engine.select_elsewhere hE (transitions_sources event) (by decide)]

/-- A chosen or cancelled list takes no event. -/
theorem update_final (hE : E.FirstMatch) (final : l.machine = some .chosen ∨ l.machine = some .cancelled)
    (ev : ConnEvent) : (connListUpdate E l ev).1 = l := by
  cases ev with
  | key key digit =>
    rw [connListUpdate]
    cases eventForKey key with
    | none => rfl
    | some event => exact congrArg Prod.fst (dispatch_final hE final event digit)
  | _ => rfl

/-- The counts are within the arrays, and the selection is an item in the window. -/
structure Sound (l : ConnList) : Prop where
  count : l.count ≤ listMax
  infoCount : l.infoCount ≤ listInfo
  selected : 0 < l.count → l.selected < l.count
  none : l.count = 0 → l.selected = 0
  window : l.first ≤ l.selected ∧ l.selected < l.first + listVisible
  chosen : l.status = .chosen → 0 < l.count
  machine : l.machine = some (stateOf l.status)

theorem clampScroll_window (l : ConnList) :
    (clampScroll l).first ≤ l.selected ∧ l.selected < (clampScroll l).first + listVisible := by
  have tall : 0 < listVisible := by decide
  dsimp only [clampScroll]
  split
  · omega
  · split <;> omega

theorem navSelection_lt (event : ListSmEvent) (h : Sound l) :
    (0 < l.count → (actionNav event l).selected < l.count) ∧
      (l.count = 0 → (actionNav event l).selected = 0) := by
  constructor
  · intro entries
    have names := h.selected entries
    dsimp only [actionNav, clampScroll]
    cases event with
    | keyPageUp => exact connPageStep_lt _ false names
    | keyPageDown => exact connPageStep_lt _ true names
    | keyHome => exact entries
    | keyUp | keyDown | keyEnd => dsimp only; split <;> omega
    | _ => exact names
  · intro empty
    have first := h.none empty
    dsimp only [actionNav, clampScroll]
    cases event with
    | keyPageUp | keyPageDown => exact if_pos empty
    | keyHome => rfl
    | keyUp | keyDown | keyEnd => dsimp only; split <;> omega
    | _ => exact first

theorem digitValid_iff : guard l digit .digitValid = true ↔ 1 ≤ digit ∧ digit.toNat ≤ l.count := by
  simp [guard]

theorem hasEntries_iff : guard l digit .hasEntries = true ↔ 0 < l.count := by
  simp [guard]

/-- What an event's transition does to an active list keeps it sound. -/
theorem Sound.fires (h : Sound l) (active : l.status = .active) (event : ListSmEvent) (digit : Int) :
    Sound { runAction event digit l (fired l digit event).2 with machine := some (fired l digit event).1 } := by
  have stays : some WidgetState.active = some (stateOf l.status) := by rw [active]; rfl
  have kept : Sound { l with machine := some .active } :=
    ⟨h.count, h.infoCount, h.selected, h.none, h.window, h.chosen, stays⟩
  have nav : ∀ event, Sound { actionNav event l with machine := some .active } := by
    intro event
    obtain ⟨names, nowhere⟩ := navSelection_lt event h
    exact ⟨h.count, h.infoCount, names, nowhere, clampScroll_window _, h.chosen, stays⟩
  cases event with
  | keyEnter =>
    rw [fired]
    by_cases entries : guard l digit .hasEntries = true
    · have some_entry : 0 < l.count := hasEntries_iff.mp entries
      rw [if_pos entries]
      exact ⟨h.count, h.infoCount, h.selected, h.none, h.window, fun _ => some_entry, rfl⟩
    · rw [if_neg entries]
      exact kept
  | keyEscape => exact ⟨h.count, h.infoCount, h.selected, h.none, h.window, fun chosen => (nomatch chosen), rfl⟩
  | keyDigit =>
    rw [fired]
    by_cases valid : guard l digit .digitValid = true
    · obtain ⟨low, high⟩ := digitValid_iff.mp valid
      rw [if_pos valid]
      refine ⟨h.count, h.infoCount, fun entries => ?_, fun empty => ?_, clampScroll_window _, fun _ => ?_, rfl⟩
      · show (digit - 1).toNat < l.count
        omega
      · have zero : l.count = 0 := empty
        omega
      · show 0 < l.count
        omega
    · rw [if_neg valid]
      exact ⟨h.count, h.infoCount, h.selected, h.none, clampScroll_window _, h.chosen, stays⟩
  | _ => exact nav _

theorem Sound.final (h : Sound l) (finished : l.status ≠ .active) :
    l.machine = some .chosen ∨ l.machine = some .cancelled := by
  rw [h.machine]
  cases status : l.status with
  | active => exact absurd status finished
  | chosen => exact .inl rfl
  | cancelled => exact .inr rfl

theorem Sound.update (hE : E.FirstMatch) (h : Sound l) (ev : ConnEvent) : Sound (connListUpdate E l ev).1 := by
  by_cases active : l.status = .active
  · have machine : l.machine = some .active := by rw [h.machine, active]; rfl
    cases ev with
    | key key digit =>
      rw [connListUpdate]
      cases eventForKey key with
      | none => exact h
      | some event =>
        dsimp only
        rw [dispatch_active hE machine]
        exact h.fires active event digit
    | _ => exact h
  · rw [update_final hE (h.final active)]
    exact h

theorem Sound.setDefault (h : Sound l) (idx : Nat) : Sound (connListSetDefault l idx) := by
  unfold connListSetDefault
  split
  · exact h
  · rename_i entries
    refine ⟨h.count, h.infoCount, fun _ => ?_, fun empty => absurd empty entries, clampScroll_window _,
      h.chosen, h.machine⟩
    dsimp only [clampScroll]
    split <;> omega

theorem sound_init (hE : E.FirstMatch) (l : ConnList) : Sound (connListInit E l) :=
  ⟨Nat.zero_le _, Nat.zero_le _, fun entries => absurd entries (Nat.lt_irrefl 0), fun _ => rfl,
    ⟨Nat.le_refl 0, (by decide : 0 < 0 + listVisible)⟩, fun chosen => (nomatch chosen), if_pos hE.1⟩

/-- A list that nothing has been selected in yet. -/
def Fresh (l : ConnList) : Prop := Sound l ∧ l.selected = 0 ∧ l.status = .active

theorem Fresh.addInfo (h : Fresh l) (line : List UInt8) : Fresh (connListAddInfo l line) := by
  obtain ⟨sound, first, active⟩ := h
  unfold connListAddInfo
  split
  · rename_i room
    exact ⟨⟨sound.count, room, sound.selected, sound.none, sound.window, sound.chosen, sound.machine⟩, first,
      active⟩
  · exact ⟨sound, first, active⟩

theorem Fresh.add (h : Fresh l) (item : List UInt8) : Fresh (connListAdd l item).1 := by
  obtain ⟨sound, first, active⟩ := h
  unfold connListAdd
  split
  · exact ⟨sound, first, active⟩
  · rename_i room
    refine ⟨⟨Nat.lt_of_not_le room, sound.infoCount, fun _ => ?_, fun empty => (nomatch empty), sound.window,
      fun _ => Nat.succ_pos _, sound.machine⟩, first, active⟩
    show l.selected < l.count + 1
    omega

/-! ### What is drawn -/

/-- The window that is drawn: `start` is an index, and the items from it on are there. -/
theorem listStart_bounds (l : ConnList) :
    0 ≤ listStart l ∧ listStart l + listShown l ≤ l.count ∧ 0 ≤ listShown l ∧ listShown l ≤ listVisible := by
  have tall : (0 : Int) < listVisible := by decide
  unfold listShown listStart
  dsimp only
  repeat' split
  all_goals omega

theorem mem_listRows {r : ListRow} : r ∈ listRows l ↔ ∃ i : Nat, (i : Int) < listShown l ∧
    r = { row := listTop + i, nb := itemNumber ((listStart l + i).toNat + 1),
          title := l.item (listStart l + i).toNat, idx := listStart l + i,
          sel := decide ((listStart l + i).toNat = l.selected) } := by
  unfold listRows
  rw [List.mem_map]
  constructor
  · rintro ⟨i, inside, rfl⟩
    rw [List.mem_range] at inside
    exact ⟨i, by omega, rfl⟩
  · rintro ⟨i, inside, rfl⟩
    exact ⟨i, List.mem_range.mpr (by omega), rfl⟩

/-- An item in the list's own window is drawn. -/
theorem Sound.drawn (h : Sound l) (entries : 0 < l.count) :
    listStart l ≤ l.selected ∧ (l.selected : Int) < listStart l + listShown l := by
  have names := h.selected entries
  obtain ⟨above, below⟩ := h.window
  unfold listShown listStart
  dsimp only
  repeat' split
  all_goals omega

theorem Sound.row (h : Sound l) (entries : 0 < l.count) :
    ∃ r ∈ listRows l, r.idx = l.selected ∧ r.nb = itemNumber (l.selected + 1) ∧ r.sel = true := by
  obtain ⟨above, below⟩ := h.drawn entries
  have idx : listStart l + ((l.selected - listStart l).toNat : Nat) = l.selected := by omega
  refine ⟨_, mem_listRows.mpr ⟨(l.selected - listStart l).toNat, by omega, rfl⟩, idx, ?_, ?_⟩
  · dsimp only
    rw [idx]
    rfl
  · dsimp only
    rw [idx]
    exact decide_eq_true rfl

/-- Every row drawn is an item that is stored, under its own number. -/
theorem row_idx {r : ListRow} (drawn : r ∈ listRows l) :
    0 ≤ r.idx ∧ r.idx < l.count ∧ r.nb = itemNumber (r.idx.toNat + 1) ∧
      (r.sel = true ↔ r.idx = l.selected) := by
  obtain ⟨i, inside, rfl⟩ := mem_listRows.mp drawn
  obtain ⟨low, high, -, -⟩ := listStart_bounds l
  refine ⟨by dsimp only; omega, by dsimp only; omega, rfl, ?_⟩
  dsimp only
  rw [decide_eq_true_iff]
  omega

theorem itemNumber_injective : ∀ a ≤ listMax, ∀ b ≤ listMax, itemNumber a = itemNumber b → a = b := by
  decide

end Meridian.Conn.ListWidget
