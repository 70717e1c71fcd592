import Meridian.Conn.EditLine

/-!
# The line editor keeps its text

Each action of the editor does to the buffer what the plain editor does to its list, and leaves the cursor
in the window. Once a key has committed or cancelled the edit, no transition starts from the state reached.
-/

namespace Meridian.Conn.EditLine

open Lib.Splice Lib.Statechart

variable {E : EditEngine} {m : ConnLineEditModel} {e : Editor} {outside buf : Nat → UInt8} {len i ch : Nat}
  {text : List UInt8}

/-! ### What the engine fires -/

/-- The state and the action of the transition that an event fires while the edit is active. -/
def fired (m : ConnLineEditModel) (ch : Nat) : EditSmEvent → EditSmState × EditSmAction
  | .tick => (.active, .tick)
  | .keyEnter => (.committed, .commit)
  | .keyEscape => (.cancelled, .cancel)
  | .keyLeft | .keyRight | .keyHome | .keyEnd => (.active, .cursor)
  | .keyBackspace => (.active, .backspace)
  | .keyDelete => (.active, .delete)
  | .keyText => (.active, if guard m ch .textInsertable then .insert else .noopRedraw)

theorem dispatch_active (hE : E.FirstMatch) (active : m.machine = some .active) (event : EditSmEvent)
    (ch : Nat) : dispatch E m event ch =
      ({ runAction event ch m (fired m ch event).2 with machine := some (fired m ch event).1 }, .redraw) := by
  unfold dispatch
  rw [active]
  dsimp only
  cases event with
  | keyText =>
    rw [transitions, textTransitions, Engine.select_guarded hE (by decide) (by decide) rfl rfl, fired]
    cases guard m ch .textInsertable <;> rfl
  | _ => simp [transitions, Engine.select_one hE, Transition.Enabled, fired]

theorem transitions_sources (event : EditSmEvent) : ∀ t ∈ transitions event, t.sources = [.active] := by
  cases event <;> simp [transitions, textTransitions]

theorem dispatch_final (hE : E.FirstMatch) (final : m.machine = some .committed ∨ m.machine = some .cancelled)
    (event : EditSmEvent) (ch : Nat) : dispatch E m event ch = (m, .none) := by
  unfold dispatch
  obtain state | state := final
  all_goals
    rw [state]
    dsimp only
    rw [Engine.select_elsewhere hE (transitions_sources event) (by decide)]

/-- A committed or cancelled edit takes no event. -/
theorem update_final (hE : E.FirstMatch) (final : m.machine = some .committed ∨ m.machine = some .cancelled)
    (ev : EditEvent) : (connLineEditUpdate E m ev).1 = m := by
  unfold connLineEditUpdate
  cases eventForEv ev with
  | none => rfl
  | some fed => exact congrArg Prod.fst (dispatch_final hE final fed.1 fed.2)

/-! ### The buffer -/

/-- A buffer of `editMax` cells that holds a printable text with its end behind it. -/
structure Content (outside buf : Nat → UInt8) (len : Nat) (text : List UInt8) : Prop where
  length : len = text.length
  held : Holds buf text
  ends : buf len = 0
  room : text.length ≤ editLimit
  printable : ∀ c ∈ text, 0x20 ≤ c.toNat ∧ c.toNat < 0x7F
  outside : ∀ i, editMax ≤ i → buf i = outside i

theorem Content.erase (h : Content outside buf len text) (inside : i < text.length) :
    Content outside (Function.update (closeGap buf i (len - 1 - i)) (len - 1) 0) (len - 1)
      (text.eraseIdx i) := by
  obtain ⟨rfl, held, ends, room, printable, apart⟩ := h
  have length := List.length_eraseIdx_of_lt inside
  refine ⟨length.symm, (held.erase inside).update (by omega) 0, Function.update_self .., by omega,
    fun c listed => printable c (List.mem_of_mem_eraseIdx listed), fun j far => ?_⟩
  have below : text.length ≤ j := by unfold editLimit at room; unfold editMax at far; omega
  rw [Function.update_of_ne (by omega), closeGap_apply, if_neg (by omega)]
  exact apart j far

theorem Content.insert (h : Content outside buf len text) (inside : i ≤ text.length)
    (more : text.length < editLimit) (printable : 0x20 ≤ ch ∧ ch < 0x7F) :
    Content outside (Function.update (Function.update (openGap buf i len) i (UInt8.ofNat ch)) (len + 1) 0)
      (len + 1) (text.insertIdx i (UInt8.ofNat ch)) := by
  obtain ⟨rfl, held, ends, room, others, apart⟩ := h
  have length := List.length_insertIdx_of_le_length inside (UInt8.ofNat ch)
  refine ⟨length.symm, (held.insert inside _).update (by omega) 0, Function.update_self .., by omega,
    fun c listed => ?_, fun j far => ?_⟩
  · obtain rfl | listed := List.eq_or_mem_of_mem_insertIdx listed
    · rw [UInt8.toNat_ofNat_of_lt' (Nat.lt_trans printable.2 (by decide))]
      exact printable
    · exact others c listed
  · have below : text.length + 1 < j := by unfold editLimit at more; unfold editMax at far; omega
    rw [Function.update_of_ne (by omega), Function.update_of_ne (by omega), openGap_apply,
      if_neg (by omega)]
    exact apart j far

theorem cpLoop_held (cap : Nat) (buf : Nat → UInt8) (pre src : List UInt8) (nonzero : ∀ c ∈ src, c ≠ 0)
    (fits : pre.length + src.length < cap) (held : Holds buf pre) :
    (cpLoop cap buf src pre.length).2 = (pre ++ src).length ∧
      Holds (cpLoop cap buf src pre.length).1 (pre ++ src) ∧
      ∀ i, cap ≤ i → (cpLoop cap buf src pre.length).1 i = buf i := by
  induction src generalizing buf pre with
  | nil =>
    rw [List.append_nil]
    exact ⟨rfl, held, fun i _ => rfl⟩
  | cons c src ih =>
    rw [List.length_cons] at fits
    have next : Holds (Function.update buf pre.length c) (pre ++ [c]) := by
      intro i inside
      rw [List.length_append, List.length_singleton] at inside
      by_cases last : i = pre.length
      · subst last
        rw [Function.update_self, List.getElem_concat_length rfl]
      · rw [Function.update_of_ne last, List.getElem_append_left (by omega)]
        exact held i _
    obtain ⟨length, copied, apart⟩ := ih _ (pre ++ [c])
      (fun c listed => nonzero c (List.mem_cons_of_mem _ listed)) (by simp; omega) next
    rw [List.append_assoc, List.singleton_append] at length copied
    rw [List.length_append, List.length_singleton] at length copied apart
    rw [cpLoop, if_pos ⟨nonzero c List.mem_cons_self, by omega⟩]
    refine ⟨length, copied, fun i far => ?_⟩
    rw [apart i far, Function.update_of_ne (by omega)]

/-! ### The editor -/

def stateOf : ConnEditStatus → EditSmState
  | .active => .active
  | .committed => .committed
  | .cancelled => .cancelled

/-- The editor's model holds what the plain editor does, and shows the cursor. -/
structure Shows (outside : Nat → UInt8) (m : ConnLineEditModel) (e : Editor) : Prop where
  content : Content outside m.buf m.len e.text
  cursor : m.cursor = e.cursor
  within : e.cursor ≤ e.text.length
  window : m.first ≤ m.cursor ∧ m.cursor < m.first + view
  status : m.status = e.status
  machine : m.machine = some (stateOf e.status)

theorem clampScroll_window (m : ConnLineEditModel) :
    (clampScroll m).first ≤ m.cursor ∧ m.cursor < (clampScroll m).first + view := by
  have wide : 0 < view := by decide
  dsimp only [clampScroll]
  split
  · omega
  · split <;> omega

/-- A model with the text and the cursor of an active editor, after its window has been moved. -/
theorem shows_clamped (m : ConnLineEditModel) (content : Content outside m.buf m.len e.text)
    (cursor : m.cursor = e.cursor) (within : e.cursor ≤ e.text.length) (status : m.status = .active)
    (active : e.status = .active) : Shows outside { clampScroll m with machine := some .active } e :=
  ⟨content, cursor, within, clampScroll_window m, status.trans active.symm, by rw [active]; rfl⟩

theorem shows_cursor (h : Shows outside m e) (active : e.status = .active) (event : EditSmEvent) {c : Nat}
    (moved : (actionCursor event m).cursor = c) (within : c ≤ e.text.length) :
    Shows outside { actionCursor event m with machine := some .active } { e with cursor := c } :=
  shows_clamped _ h.content moved within (h.status.trans active) active

theorem shows_backspace (h : Shows outside m e) (active : e.status = .active) :
    Shows outside { actionBackspace m with machine := some .active } (e.press ch .backspace) := by
  have within := h.within
  rw [Editor.press]
  unfold actionBackspace
  dsimp only
  by_cases first : e.cursor = 0
  · rw [if_pos first, if_neg (by rw [h.cursor]; omega)]
    exact shows_clamped _ h.content h.cursor within (h.status.trans active) active
  · rw [if_neg first, if_pos (by rw [h.cursor]; omega)]
    have length := List.length_eraseIdx_of_lt (show e.cursor - 1 < e.text.length by omega)
    refine shows_clamped _ ?_ (congrArg (· - 1) h.cursor) (by dsimp only; omega) (h.status.trans active) active
    rw [h.cursor]
    exact h.content.erase (by omega)

theorem shows_delete (h : Shows outside m e) (active : e.status = .active) :
    Shows outside { actionDelete m with machine := some .active } (e.press ch .delete) := by
  have within := h.within
  rw [Editor.press]
  unfold actionDelete
  dsimp only
  by_cases last : e.cursor < e.text.length
  · have length := List.length_eraseIdx_of_lt last
    rw [if_pos (by rw [h.cursor, h.content.length]; exact last)]
    refine shows_clamped _ ?_ h.cursor (by dsimp only; omega) (h.status.trans active) active
    rw [h.cursor]
    exact h.content.erase last
  · rw [if_neg (by rw [h.cursor, h.content.length]; exact last), List.eraseIdx_of_length_le (by omega)]
    exact shows_clamped _ h.content h.cursor within (h.status.trans active) active

theorem insertable_iff (h : Shows outside m e) :
    guard m ch .textInsertable = true ↔ 0x20 ≤ ch ∧ ch < 0x7F ∧ e.text.length < editLimit := by
  simp only [guard, Bool.and_eq_true, decide_eq_true_eq, ge_iff_le, and_assoc, h.content.length]
  unfold editMax editLimit
  omega

theorem shows_text (h : Shows outside m e) (active : e.status = .active) :
    Shows outside { runAction .keyText ch m (fired m ch .keyText).2 with machine := some .active }
      (e.press ch .text) := by
  rw [Editor.press, fired]
  dsimp only
  by_cases fits : 0x20 ≤ ch ∧ ch < 0x7F ∧ e.text.length < editLimit
  · have length := List.length_insertIdx_of_le_length h.within (UInt8.ofNat ch)
    have within := h.within
    rw [if_pos fits, if_pos ((insertable_iff h).mpr fits), runAction, actionInsert]
    refine shows_clamped _ ?_ (congrArg (· + 1) h.cursor) (by dsimp only; omega) (h.status.trans active) active
    rw [h.cursor]
    exact h.content.insert h.within fits.2.2 ⟨fits.1, fits.2.1⟩
  · rw [if_neg fits, if_neg (mt (insertable_iff h).mp fits), runAction]
    exact ⟨h.content, h.cursor, h.within, h.window, h.status, by rw [active]; rfl⟩

/-- What a key's event does to an active edit, the plain editor does at that key. -/
theorem shows_press (h : Shows outside m e) (active : e.status = .active) {key : ConnKey}
    {event : EditSmEvent} (is_event : eventForKey key = some event) :
    Shows outside { runAction event ch m (fired m ch event).2 with machine := some (fired m ch event).1 }
      (e.press ch key) := by
  have within := h.within
  cases key with
  | enter =>
    cases is_event
    exact ⟨h.content, h.cursor, within, h.window, rfl, rfl⟩
  | escape =>
    cases is_event
    exact ⟨h.content, h.cursor, within, h.window, rfl, rfl⟩
  | left =>
    cases is_event
    refine shows_cursor h active .keyLeft ?_ (by omega)
    dsimp only [actionCursor, clampScroll]
    rw [h.cursor]
    split <;> omega
  | right =>
    cases is_event
    refine shows_cursor h active .keyRight ?_ (by omega)
    dsimp only [actionCursor, clampScroll]
    rw [h.cursor, h.content.length]
    split <;> omega
  | home =>
    cases is_event
    exact shows_cursor h active .keyHome rfl (Nat.zero_le _)
  | «end» =>
    cases is_event
    exact shows_cursor h active .keyEnd h.content.length (Nat.le_refl _)
  | backspace =>
    cases is_event
    exact shows_backspace h active
  | delete =>
    cases is_event
    exact shows_delete h active
  | text =>
    cases is_event
    exact shows_text h active
  | _ => cases is_event

theorem shows_update (hE : E.FirstMatch) (h : Shows outside m e) (ev : EditEvent) :
    Shows outside (connLineEditUpdate E m ev).1 (e.feed ev) := by
  have machine := h.machine
  cases status : e.status with
  | active =>
    rw [status] at machine
    unfold connLineEditUpdate
    cases ev with
    | tick =>
      rw [eventForEv]
      dsimp only
      rw [dispatch_active hE machine]
      exact ⟨h.content, h.cursor, h.within, h.window, h.status, congrArg (some ∘ stateOf) status.symm⟩
    | other => exact h
    | key key ch =>
      rw [Editor.feed, if_pos status, eventForEv]
      cases event : eventForKey key with
      | none => cases key <;> first | exact h | cases event
      | some event' =>
        rw [Option.map_some]
        dsimp only
        rw [dispatch_active hE machine]
        exact shows_press h status event
  | committed | cancelled =>
    rw [status] at machine
    have kept : e.feed ev = e := by cases ev <;> simp [Editor.feed, status]
    rw [update_final hE (by simp [machine, stateOf]), kept]
    exact h

theorem shows_init (hE : E.FirstMatch) (m : ConnLineEditModel) (text : List UInt8)
    (printable : ∀ c ∈ text, 0x20 ≤ c.toNat ∧ c.toNat < 0x7F) (short : text.length ≤ editLimit) :
    Shows m.buf (connLineEditInit E m text) (Editor.start text) := by
  have nonzero : ∀ c ∈ text, c ≠ 0 := by
    intro c listed zero
    have range := printable c listed
    rw [zero] at range
    exact absurd range.1 (by decide)
  obtain ⟨length, held, apart⟩ := cpLoop_held editMax (fun i => if i < editMax then 0 else m.buf i) [] text
    nonzero (by unfold editLimit at short; simp [editMax]; omega) (fun _ h => absurd h (by simp))
  rw [List.nil_append] at length held
  have content : Content m.buf
      (connCpBounded (fun i => if i < editMax then 0 else m.buf i) text editMax).1
      (connCpBounded (fun i => if i < editMax then 0 else m.buf i) text editMax).2 text := by
    unfold connCpBounded
    rw [if_neg (by decide)]
    dsimp only [List.length_nil] at length held apart ⊢
    refine ⟨length, ?_, Function.update_self .., short, printable, fun i far => ?_⟩
    · rw [length]
      exact held.update (Nat.le_refl _) 0
    · have below : text.length < i := by unfold editLimit at short; unfold editMax at far; omega
      rw [Function.update_of_ne (by rw [length]; omega), apart i far, if_neg (by omega)]
  unfold connLineEditInit
  rw [hE.1]
  exact shows_clamped _ content content.length (Nat.le_refl _) rfl rfl

theorem shows_run (hE : E.FirstMatch) (h : Shows outside m e) (events : List EditEvent) :
    Shows outside (events.foldl (fun m ev => (connLineEditUpdate E m ev).1) m) (events.foldl Editor.feed e) := by
  induction events generalizing m e with
  | nil => exact h
  | cons ev events ih => exact ih (shows_update hE h ev)

theorem Shows.text_eq (h : Shows outside m e) : m.text = e.text := by
  unfold ConnLineEditModel.text
  refine List.ext_getElem (by simp [h.content.length]) fun i inside within => ?_
  rw [List.getElem_map, List.getElem_range]
  exact h.content.held i within

end Meridian.Conn.EditLine
