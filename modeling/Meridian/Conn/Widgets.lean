import Meridian.Conn.PanelWidget
import Meridian.Lib.Run

/-!
# The list and the panel over whole runs

Whatever has been put into a list or a panel and whatever is done to it afterwards, it draws only what is
stored, its list shows the selected item, and what is chosen is an item that was drawn under that number or
was highlighted. The choice is final.
-/

namespace Meridian.Conn.Widgets

open ListWidget PanelWidget

/-- What is put into a list before it is shown. -/
inductive ListAdd where
  | info (line : List UInt8)
  | item (text : List UInt8)
  deriving DecidableEq, Repr

def listAdd (l : ConnList) : ListAdd → ConnList
  | .info line => connListAddInfo l line
  | .item text => (connListAdd l text).1

/-- What is put into a panel before it is shown. -/
inductive PanelAdd where
  | body (line : List UInt8)
  | action (label : List UInt8)
  deriving DecidableEq, Repr

def panelAdd (p : ConnPanel) : PanelAdd → ConnPanel
  | .body line => connPanelAddBody p line
  | .action label => (connPanelAddAction p label).1

/-- A call on a list or a panel that is shown. -/
inductive WidgetStep where
  | setDefault (idx : Nat)
  | update (ev : ConnEvent)
  deriving DecidableEq, Repr

def listStep (E : ListEngine) (l : ConnList) : WidgetStep → ConnList
  | .setDefault idx => connListSetDefault l idx
  | .update ev => (connListUpdate E l ev).1

def panelStep (E : PanelEngine) (p : ConnPanel) : WidgetStep → ConnPanel
  | .setDefault idx => connPanelSetDefault p idx
  | .update ev => (connPanelUpdate E p ev).1

def listRun (E : ListEngine) (before : ConnList) (adds : List ListAdd) (steps : List WidgetStep) : ConnList :=
  steps.foldl (listStep E) (adds.foldl listAdd (connListInit E before))

def panelRun (E : PanelEngine) (before : ConnPanel) (adds : List PanelAdd) (steps : List WidgetStep) :
    ConnPanel :=
  steps.foldl (panelStep E) (adds.foldl panelAdd (connPanelInit E before))

/-! ### The list -/

/-- The digit's item is chosen: it is the one drawn under that number, before and after. -/
def ChoosesNumber (l l' : ConnList) (digit : Int) : Prop :=
  l'.status = .chosen ∧ (∃ r ∈ listRows l', r.nb = itemNumber digit.toNat ∧ r.idx = l'.selected) ∧
    ∀ r, r ∈ listRows l ∨ r ∈ listRows l' → r.nb = itemNumber digit.toNat → r.idx = l'.selected

/-- The highlighted item is chosen, and it is the only highlighted one. -/
def ChoosesHighlighted (l l' : ConnList) : Prop :=
  l'.status = .chosen ∧ l'.selected = l.selected ∧ (∃ r ∈ listRows l, r.sel = true ∧ r.idx = l'.selected) ∧
    ∀ r ∈ listRows l, r.sel = true → r.idx = l'.selected

/-- What holds of a list in every state of a run. -/
structure ListRight (E : ListEngine) (l : ConnList) : Prop where
  stored : l.count ≤ listMax ∧ l.infoCount ≤ listInfo
  items : ∀ r ∈ listRows l, 0 ≤ r.idx ∧ r.idx < l.count
  infos : ∀ k ∈ listInfos l, k < l.infoCount
  shown : 0 < l.count → ∃ r ∈ listRows l, r.idx = l.selected
  chosen : l.status = .chosen → l.selected < l.count
  digit : l.status = .active → ∀ digit : Int,
    if 1 ≤ digit ∧ digit.toNat ≤ l.count then ChoosesNumber l (connListUpdate E l (.key .digit digit)).1 digit
    else (connListUpdate E l (.key .digit digit)).1.status = .active ∧
      (connListUpdate E l (.key .digit digit)).1.selected = l.selected
  enter : l.status = .active → ∀ digit : Int,
    if 0 < l.count then ChoosesHighlighted l (connListUpdate E l (.key .enter digit)).1
    else (connListUpdate E l (.key .enter digit)).1.status = .active
  finished : l.status ≠ .active → ∀ ev, (connListUpdate E l ev).1 = l
  default : ∀ idx, (connListSetDefault l idx).status = l.status

section List

variable {E : ListEngine} {l : ConnList}

theorem list_active (h : ListWidget.Sound l) (active : l.status = .active) : l.machine = some .active := by
  rw [h.machine, active]
  rfl

theorem list_digit (hE : E.FirstMatch) (h : ListWidget.Sound l) (active : l.status = .active) (digit : Int) :
    if 1 ≤ digit ∧ digit.toNat ≤ l.count then ChoosesNumber l (connListUpdate E l (.key .digit digit)).1 digit
    else (connListUpdate E l (.key .digit digit)).1.status = .active ∧
      (connListUpdate E l (.key .digit digit)).1.selected = l.selected := by
  have after : ListWidget.Sound (connListUpdate E l (.key .digit digit)).1 := h.update hE _
  have fires : (connListUpdate E l (.key .digit digit)).1 = _ :=
    congrArg Prod.fst (ListWidget.dispatch_active hE (list_active h active) .keyDigit digit)
  rw [ListWidget.fired] at fires
  by_cases valid : 1 ≤ digit ∧ digit.toNat ≤ l.count
  · rw [if_pos valid]
    rw [if_pos (ListWidget.digitValid_iff.mpr valid)] at fires
    have count : (connListUpdate E l (.key .digit digit)).1.count = l.count := by rw [fires]; rfl
    have selected : (connListUpdate E l (.key .digit digit)).1.selected + 1 = digit.toNat := by
      rw [fires]
      show (digit - 1).toNat + 1 = digit.toNat
      omega
    have few := h.count
    refine ⟨by rw [fires]; rfl, ?_, fun r drawn named => ?_⟩
    · obtain ⟨r, drawn, idx, named, -⟩ := after.row (by omega)
      exact ⟨r, drawn, by rw [named, selected], idx⟩
    · -- The row's own number and the digit are at most `listMax`, where the two characters tell them apart.
      have own : 0 ≤ r.idx ∧ r.idx < l.count ∧ r.nb = itemNumber (r.idx.toNat + 1) := by
        obtain drawn | drawn := drawn
        · obtain ⟨low, high, number, -⟩ := row_idx drawn
          exact ⟨low, high, number⟩
        · obtain ⟨low, high, number, -⟩ := row_idx drawn
          exact ⟨low, count ▸ high, number⟩
      obtain ⟨low, high, number⟩ := own
      have same := itemNumber_injective _ (by omega) _ (by omega) (number.symm.trans named)
      omega
  · rw [if_neg valid]
    rw [if_neg (mt ListWidget.digitValid_iff.mp valid)] at fires
    rw [fires]
    exact ⟨active, rfl⟩

theorem list_enter (hE : E.FirstMatch) (h : ListWidget.Sound l) (active : l.status = .active) (digit : Int) :
    if 0 < l.count then ChoosesHighlighted l (connListUpdate E l (.key .enter digit)).1
    else (connListUpdate E l (.key .enter digit)).1.status = .active := by
  have fires : (connListUpdate E l (.key .enter digit)).1 = _ :=
    congrArg Prod.fst (ListWidget.dispatch_active hE (list_active h active) .keyEnter digit)
  rw [ListWidget.fired] at fires
  by_cases entries : 0 < l.count
  · rw [if_pos entries, fires, if_pos (hasEntries_iff.mpr entries)]
    obtain ⟨r, drawn, idx, -, highlighted⟩ := h.row entries
    exact ⟨rfl, rfl, ⟨r, drawn, highlighted, idx⟩, fun r drawn => (row_idx drawn).2.2.2.mp⟩
  · rw [if_neg entries, fires, if_neg (mt hasEntries_iff.mp entries)]
    exact active

theorem list_right (hE : E.FirstMatch) (h : ListWidget.Sound l) : ListRight E l where
  stored := ⟨h.count, h.infoCount⟩
  items := fun r drawn => ⟨(row_idx drawn).1, (row_idx drawn).2.1⟩
  infos := fun k drawn => List.mem_range.mp ((List.takeWhile_prefix _).subset drawn)
  shown := fun entries => by
    obtain ⟨r, drawn, idx, -⟩ := h.row entries
    exact ⟨r, drawn, idx⟩
  chosen := fun chosen => h.selected (h.chosen chosen)
  digit := list_digit hE h
  enter := list_enter hE h
  finished := fun finished => ListWidget.update_final hE (h.final finished)
  default := fun idx => by
    unfold connListSetDefault
    split <;> rfl

theorem fresh_listAdd (add : ListAdd) (h : ListWidget.Fresh l) : ListWidget.Fresh (listAdd l add) := by
  cases add with
  | info line => exact h.addInfo line
  | item text => exact h.add text

theorem sound_listStep (hE : E.FirstMatch) (step : WidgetStep) (h : ListWidget.Sound l) :
    ListWidget.Sound (listStep E l step) := by
  cases step with
  | setDefault idx => exact h.setDefault idx
  | update ev => exact h.update hE ev

theorem list_sound (hE : E.FirstMatch) (before : ConnList) (adds : List ListAdd) (steps : List WidgetStep) :
    ListWidget.Sound (listRun E before adds steps) := by
  have filled : ListWidget.Fresh (adds.foldl listAdd (connListInit E before)) :=
    Lib.Run.foldl_invariant (fun _ add => fresh_listAdd add) _ ⟨ListWidget.sound_init hE before, rfl, rfl⟩
  exact Lib.Run.foldl_invariant (fun _ step => sound_listStep hE step) _ filled.1

end List

/-! ### The panel -/

/-- What holds of a panel in every state of a run. -/
structure PanelRight (E : PanelEngine) (p : ConnPanel) : Prop where
  stored : p.bodyCount ≤ panelBody ∧ p.actCount ≤ panelActs
  lines : ∀ r ∈ bodyRows p, r.idx < p.bodyCount
  actions : ∀ c ∈ actCells p, c.idx < p.actCount
  chosen : p.status = .chosen → p.selected < p.actCount
  digit : p.status = .active → ∀ digit : Int,
    if 1 ≤ digit ∧ digit.toNat ≤ p.actCount then
      (connPanelUpdate E p (.key .digit digit)).1.status = .chosen ∧
        ((connPanelUpdate E p (.key .digit digit)).1.selected : Int) = digit - 1
    else (connPanelUpdate E p (.key .digit digit)).1 = p
  enter : p.status = .active → ∀ digit : Int,
    if 0 < p.actCount then
      (connPanelUpdate E p (.key .enter digit)).1.status = .chosen ∧
        ∃ c ∈ actCells p, c.sel = true ∧ c.idx = (connPanelUpdate E p (.key .enter digit)).1.selected
    else (connPanelUpdate E p (.key .enter digit)).1 = p
  finished : p.status ≠ .active → ∀ ev, (connPanelUpdate E p ev).1 = p
  default : ∀ idx, (connPanelSetDefault p idx).status = p.status

section Panel

variable {E : PanelEngine} {p : ConnPanel}

theorem panel_active (h : PanelWidget.Sound p) (active : p.status = .active) : p.machine = some .active := by
  rw [h.machine, active]
  rfl

theorem panel_digit (hE : E.FirstMatch) (h : PanelWidget.Sound p) (active : p.status = .active) (digit : Int) :
    if 1 ≤ digit ∧ digit.toNat ≤ p.actCount then
      (connPanelUpdate E p (.key .digit digit)).1.status = .chosen ∧
        ((connPanelUpdate E p (.key .digit digit)).1.selected : Int) = digit - 1
    else (connPanelUpdate E p (.key .digit digit)).1 = p := by
  have machine := panel_active h active
  have fires : (connPanelUpdate E p (.key .digit digit)).1 = _ :=
    congrArg Prod.fst (PanelWidget.dispatch_active hE machine .keyDigit digit)
  rw [PanelWidget.fired] at fires
  by_cases valid : 1 ≤ digit ∧ digit.toNat ≤ p.actCount
  · rw [if_pos valid, fires, if_pos (PanelWidget.digitValid_iff.mpr valid)]
    refine ⟨rfl, ?_⟩
    show ((digit - 1).toNat : Int) = digit - 1
    omega
  · rw [if_neg valid, fires, if_neg (mt PanelWidget.digitValid_iff.mp valid), ← machine]
    rfl

theorem panel_enter (hE : E.FirstMatch) (h : PanelWidget.Sound p) (active : p.status = .active) (digit : Int) :
    if 0 < p.actCount then
      (connPanelUpdate E p (.key .enter digit)).1.status = .chosen ∧
        ∃ c ∈ actCells p, c.sel = true ∧ c.idx = (connPanelUpdate E p (.key .enter digit)).1.selected
    else (connPanelUpdate E p (.key .enter digit)).1 = p := by
  have machine := panel_active h active
  have fires : (connPanelUpdate E p (.key .enter digit)).1 = _ :=
    congrArg Prod.fst (PanelWidget.dispatch_active hE machine .keyEnter digit)
  rw [PanelWidget.fired] at fires
  by_cases actions : 0 < p.actCount
  · rw [if_pos actions, fires, if_pos (hasActions_iff.mpr actions)]
    obtain ⟨c, drawn, idx, highlighted⟩ := h.actCell actions
    exact ⟨rfl, c, drawn, highlighted, idx⟩
  · rw [if_neg actions, fires, if_neg (mt hasActions_iff.mp actions), ← machine]
    rfl

theorem panel_right (hE : E.FirstMatch) (h : PanelWidget.Sound p) : PanelRight E p where
  stored := ⟨h.bodyCount, h.actCount⟩
  lines := fun _ drawn => h.bodyRow drawn
  actions := fun _ drawn => (actCell_idx drawn).1
  chosen := fun chosen => h.selected (h.chosen chosen)
  digit := panel_digit hE h
  enter := panel_enter hE h
  finished := fun finished => PanelWidget.update_final hE (h.final finished)
  default := fun idx => by
    unfold connPanelSetDefault
    split <;> rfl

theorem fresh_panelAdd (add : PanelAdd) (h : PanelWidget.Fresh p) : PanelWidget.Fresh (panelAdd p add) := by
  cases add with
  | body line => exact h.addBody line
  | action label => exact h.addAction label

theorem sound_panelStep (hE : E.FirstMatch) (step : WidgetStep) (h : PanelWidget.Sound p) :
    PanelWidget.Sound (panelStep E p step) := by
  cases step with
  | setDefault idx => exact h.setDefault idx
  | update ev => exact h.update hE ev

theorem panel_sound (hE : E.FirstMatch) (before : ConnPanel) (adds : List PanelAdd) (steps : List WidgetStep) :
    PanelWidget.Sound (panelRun E before adds steps) := by
  have filled : PanelWidget.Fresh (adds.foldl panelAdd (connPanelInit E before)) :=
    Lib.Run.foldl_invariant (fun _ add => fresh_panelAdd add) _ ⟨PanelWidget.sound_init hE before, rfl, rfl⟩
  exact Lib.Run.foldl_invariant (fun _ step => sound_panelStep hE step) _ filled.1

end Panel

/-! ### Both widgets -/

end Meridian.Conn.Widgets
