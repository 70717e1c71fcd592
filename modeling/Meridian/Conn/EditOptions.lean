import Meridian.Conn.EditLineText

/-!
# Editing an entry's load options

The model of `ConnEditOptions` in `ui/conn_bridge.c`: the options of a loader entry are copied into the line
editor as 8-bit characters, keys and ticks are fed to it until it is committed or cancelled, and a committed
text becomes the entry's new options.
-/

namespace Meridian.Conn.EditLine

open Lib.Splice

/-! ### Keys -/

def scanRight : UInt16 := 0x03

def scanLeft : UInt16 := 0x04

def scanHome : UInt16 := 0x05

def scanEnd : UInt16 := 0x06

def scanDelete : UInt16 := 0x08

def scanEsc : UInt16 := 0x17

structure EfiInputKey where
  scanCode : UInt16
  unicodeChar : UInt16
  deriving DecidableEq, Repr

def editKeyToEvent (k : EfiInputKey) : EditEvent :=
  if k.scanCode ≠ 0 then
    if k.scanCode = scanLeft then .key .left 0
    else if k.scanCode = scanRight then .key .right 0
    else if k.scanCode = scanHome then .key .home 0
    else if k.scanCode = scanEnd then .key .end 0
    else if k.scanCode = scanDelete then .key .delete 0
    else if k.scanCode = scanEsc then .key .escape 0
    else .key .other 0
  else if k.unicodeChar = 0x0D ∨ k.unicodeChar = 0x0A then .key .enter 0
  else if k.unicodeChar = 0x1B then .key .escape 0
  else if k.unicodeChar = 0x08 then .key .backspace 0
  else if k.unicodeChar ≥ 0x20 ∧ k.unicodeChar < 0x7F then .key .text k.unicodeChar.toNat
  else .key .other 0

/-! ### Strings -/

/-- The loop of `Char16ToAsciiStrict`, from character `i` on. -/
def asciiLoop (cap : Nat) : List UInt16 → Nat → Option (List UInt8)
  | [], _ => some []
  | c :: src, i =>
    if c = 0 then some []
    else if i + 1 < cap then
      if c < 0x20 ∨ c > 0x7E then none else (asciiLoop cap src (i + 1)).map (c.toUInt8 :: ·)
    else none

/-- `Char16ToAsciiStrict`; a string that is not there has no characters. -/
def char16ToAsciiStrict (src : Option (List UInt16)) (cap : Nat) : Option (List UInt8) :=
  if cap = 0 then none
  else match src with
    | none => some []
    | some src => asciiLoop cap src 0

/-- The characters before the first NUL of a buffer, looked for in `fuel` cells from `i` on. -/
def stringFrom (cells : Nat → UInt8) : Nat → Nat → Option (List UInt8)
  | 0, _ => none
  | fuel + 1, i => if cells i = 0 then some [] else (stringFrom cells fuel (i + 1)).map (cells i :: ·)

/-- `AsciiToChar16Pool` on the editor's buffer: nothing when the copy cannot be allocated. -/
def asciiToChar16Pool (allocated : Bool) (src : Nat → UInt8) : Option (List UInt16) :=
  if allocated then (stringFrom src editMax 0).map fun text => text.map UInt8.toUInt16 else none

/-! ### The screen -/

/-- One return of `WaitForEvent`: it fails, or has nothing to wait for; a key is there, which may not be
readable; or the timer has run out. -/
inductive EditWait where
  | failed
  | key (read : Option EfiInputKey)
  | tick
  deriving DecidableEq, Repr

/-- What `ConnEditOptions` meets: whether it is given a loader entry, the editor is hidden, there is a screen
to draw on and the memory for it; what it waits for; and whether the new options can be allocated. -/
structure EditScreen where
  loader : Bool
  hidden : Bool
  graphics : Bool
  memory : Bool
  waits : List EditWait
  allocated : Bool

inductive EditExit where
  | zero | enter
  deriving DecidableEq, Repr

/-- The entry's load options afterwards, the menu's exit, and whether the entry is to be booted. -/
structure EditResult where
  options : Option (List UInt16)
  exit : EditExit
  boot : Bool
  deriving DecidableEq, Repr

/-- The loop of `ConnEditOptions`: the editor as the loop leaves it, or nothing while it still waits. -/
def editLoop (E : EditEngine) (m : ConnLineEditModel) : List EditWait → Option ConnLineEditModel
  | [] => none
  | .failed :: _ => some m
  | .key none :: waits => if m.status ≠ .active then some m else editLoop E m waits
  | .key (some k) :: waits =>
    let m := (connLineEditUpdate E m (editKeyToEvent k)).1
    if m.status ≠ .active then some m else editLoop E m waits
  | .tick :: waits =>
    let m := (connLineEditUpdate E m .tick).1
    if m.status ≠ .active then some m else editLoop E m waits

/-- What `ConnEditOptions` does once its loop has ended: a committed text becomes the entry's options. -/
def editResult (allocated : Bool) (loadOptions : Option (List UInt16)) (m : ConnLineEditModel) : EditResult :=
  if m.status = .committed then
    match asciiToChar16Pool allocated m.buf with
    | none => { options := loadOptions, exit := .zero, boot := false }
    | some new => { options := some new, exit := .enter, boot := true }
  else { options := loadOptions, exit := .zero, boot := false }

/-- `ConnEditOptions`, in memory `m` for the editor. -/
def connEditOptions (E : EditEngine) (m : ConnLineEditModel) (screen : EditScreen)
    (loadOptions : Option (List UInt16)) : Option EditResult :=
  let back : EditResult := { options := loadOptions, exit := .zero, boot := false }
  if !screen.loader then some back
  else if screen.hidden then some back
  else if !screen.graphics then some back
  else match char16ToAsciiStrict loadOptions editMax with
    | none => some back
    | some initial =>
      if !screen.memory then some back
      else (editLoop E (connLineEditInit E m initial) screen.waits).map
        (editResult screen.allocated loadOptions)

/-- The events that the waits feed to the editor. -/
def eventsOf : List EditWait → List EditEvent
  | [] | .failed :: _ => []
  | .key none :: waits => eventsOf waits
  | .key (some k) :: waits => editKeyToEvent k :: eventsOf waits
  | .tick :: waits => .tick :: eventsOf waits

/-- The screen is opened on an entry whose options fit the editor. -/
def EditScreen.Opens (screen : EditScreen) : Prop :=
  screen.loader = true ∧ screen.hidden = false ∧ screen.graphics = true ∧ screen.memory = true

instance (screen : EditScreen) : Decidable screen.Opens := inferInstanceAs (Decidable (_ ∧ _))

/-! ### The conversions -/

variable {E : EditEngine} {m : ConnLineEditModel} {e : Editor} {outside buf : Nat → UInt8}

/-- The characters of an entry's options. -/
def charsOf (options : Option (List UInt16)) : List UInt8 := (options.getD []).map UInt16.toUInt8

/-- The options are a string that the editor takes. -/
def Editable (options : List UInt16) : Prop :=
  (∀ c ∈ options, 0x20 ≤ c ∧ c ≤ 0x7E) ∧ options.length ≤ editLimit

theorem asciiLoop_eq {cap i : Nat} (src : List UInt16) (printable : ∀ c ∈ src, 0x20 ≤ c ∧ c ≤ 0x7E)
    (fits : i + src.length < cap) : asciiLoop cap src i = some (src.map UInt16.toUInt8) := by
  induction src generalizing i with
  | nil => rfl
  | cons c src ih =>
    obtain ⟨low, high⟩ := printable c List.mem_cons_self
    rw [List.length_cons] at fits
    rw [UInt16.le_iff_toNat_le] at low high
    have nonzero : c ≠ 0 := by
      rintro rfl
      exact absurd low (by decide)
    have inside : ¬ (c < 0x20 ∨ c > 0x7E) := by
      rw [gt_iff_lt, UInt16.lt_iff_toNat_lt, UInt16.lt_iff_toNat_lt]
      omega
    rw [asciiLoop, if_neg nonzero, if_pos (by omega), if_neg inside,
      ih (fun c listed => printable c (List.mem_cons_of_mem _ listed)) (by omega)]
    rfl

theorem char16ToAsciiStrict_eq {options : Option (List UInt16)} (editable : Editable (options.getD [])) :
    char16ToAsciiStrict options editMax = some (charsOf options) := by
  unfold char16ToAsciiStrict
  rw [if_neg (by decide)]
  cases options with
  | none => rfl
  | some src =>
    have short : src.length ≤ editLimit := editable.2
    exact asciiLoop_eq src editable.1 (by unfold editLimit at short; unfold editMax; omega)

theorem stringFrom_eq (fuel i : Nat) (text : List UInt8) (nonzero : ∀ c ∈ text, c ≠ 0)
    (held : ∀ j (h : j < text.length), buf (i + j) = text[j]) (ends : buf (i + text.length) = 0)
    (enough : text.length < fuel) : stringFrom buf fuel i = some text := by
  induction text generalizing fuel i with
  | nil =>
    cases fuel with
    | zero => exact absurd enough (Nat.not_lt_zero _)
    | succ fuel => exact if_pos ends
  | cons c text ih =>
    cases fuel with
    | zero => exact absurd enough (Nat.not_lt_zero _)
    | succ fuel =>
      have first : buf i = c := held 0 (Nat.succ_pos _)
      rw [List.length_cons] at ends enough
      have rest := ih fuel (i + 1) (fun c listed => nonzero c (List.mem_cons_of_mem _ listed))
        (fun j inside => by rw [Nat.add_assoc, Nat.add_comm 1]; exact held (j + 1) (Nat.succ_lt_succ inside))
        (by rw [Nat.add_assoc, Nat.add_comm 1]; exact ends) (by omega)
      rw [stringFrom, first, if_neg (nonzero c List.mem_cons_self), rest]
      rfl

theorem Content.string {len : Nat} {text : List UInt8} (h : Content outside buf len text) :
    stringFrom buf editMax 0 = some text := by
  obtain ⟨rfl, held, ends, room, printable, apart⟩ := h
  refine stringFrom_eq editMax 0 text ?_ (fun j inside => ?_) ?_ ?_
  · rintro c listed rfl
    exact absurd (printable 0 listed).1 (by decide)
  · rw [Nat.zero_add]
    exact held j inside
  · rw [Nat.zero_add]
    exact ends
  · unfold editLimit at room
    unfold editMax
    omega

/-! ### Runs -/

theorem feed_final {ev : EditEvent} (final : e.status ≠ .active) : e.feed ev = e := by
  cases ev <;> simp [Editor.feed, final]

theorem run_final (events : List EditEvent) (final : e.status ≠ .active) :
    events.foldl Editor.feed e = e := by
  induction events with
  | nil => rfl
  | cons ev events ih => rw [List.foldl_cons, feed_final final, ih]

/-- The loop ends with the editor fed all the events, and does end once the edit is over. -/
theorem editLoop_shows (hE : E.FirstMatch) (waits : List EditWait) (h : Shows outside m e)
    (active : e.status = .active) :
    (∀ m', editLoop E m waits = some m' → Shows outside m' ((eventsOf waits).foldl Editor.feed e)) ∧
      (((eventsOf waits).foldl Editor.feed e).status ≠ .active → ∃ m', editLoop E m waits = some m') := by
  induction waits generalizing m e with
  | nil => exact ⟨fun _ ended => (nomatch ended), fun final => absurd active final⟩
  | cons wait waits ih =>
    -- One event: either it ends the edit, and what follows changes nothing, or the loop goes on.
    have fed : ∀ ev, (∀ m', (if (connLineEditUpdate E m ev).1.status ≠ .active
            then some (connLineEditUpdate E m ev).1
            else editLoop E (connLineEditUpdate E m ev).1 waits) = some m' →
          Shows outside m' ((eventsOf waits).foldl Editor.feed (e.feed ev))) ∧
        (((eventsOf waits).foldl Editor.feed (e.feed ev)).status ≠ .active →
          ∃ m', (if (connLineEditUpdate E m ev).1.status ≠ .active
            then some (connLineEditUpdate E m ev).1
            else editLoop E (connLineEditUpdate E m ev).1 waits) = some m') := by
      intro ev
      have next := shows_update hE h ev
      by_cases final : (e.feed ev).status = .active
      · rw [if_neg (by rw [next.status]; exact not_not.mpr final)]
        exact ih next final
      · rw [if_pos (by rw [next.status]; exact final), run_final _ final]
        exact ⟨fun m' ended => Option.some.inj ended ▸ next, fun _ => ⟨_, rfl⟩⟩
    cases wait with
    | failed =>
      rw [eventsOf, List.foldl_nil]
      exact ⟨fun m' ended => Option.some.inj ended ▸ h, fun _ => ⟨_, rfl⟩⟩
    | tick => exact fed .tick
    | key read =>
      cases read with
      | none =>
        rw [editLoop, if_neg (by rw [h.status]; exact not_not.mpr active)]
        exact ih h active
      | some k => exact fed (editKeyToEvent k)

theorem editResult_options (h : Shows outside m e) (allocated : Bool) (options : Option (List UInt16)) :
    (editResult allocated options m).options =
      if e.status = .committed ∧ allocated = true then some (e.text.map UInt8.toUInt16) else options := by
  unfold editResult asciiToChar16Pool
  rw [h.status, h.content.string]
  by_cases committed : e.status = .committed
  · rw [if_pos committed]
    cases allocated with
    | true => rw [if_pos rfl, if_pos ⟨committed, rfl⟩]; rfl
    | false => rw [if_neg Bool.false_ne_true, if_neg fun both => Bool.false_ne_true both.2]
  · rw [if_neg committed, if_neg fun both => committed both.1]

theorem charsOf_printable {options : Option (List UInt16)} (editable : Editable (options.getD [])) :
    ∀ c ∈ charsOf options, 0x20 ≤ c.toNat ∧ c.toNat < 0x7F := by
  intro c listed
  obtain ⟨wide, of_options, rfl⟩ := List.mem_map.mp listed
  obtain ⟨low, high⟩ := editable.1 wide of_options
  rw [UInt16.le_iff_toNat_le] at low high
  rw [UInt16.toNat_toUInt8]
  have low' : 0x20 ≤ wide.toNat := low
  have high' : wide.toNat ≤ 0x7E := high
  omega

theorem shows_options (hE : E.FirstMatch) (m : ConnLineEditModel) {options : Option (List UInt16)}
    (editable : Editable (options.getD [])) :
    Shows m.buf (connLineEditInit E m (charsOf options)) (.start (charsOf options)) :=
  shows_init hE m _ (charsOf_printable editable) (by rw [charsOf, List.length_map]; exact editable.2)

/-- The options after the screen: the text of a committed edit that could be allocated, else those before. -/
theorem connEditOptions_ends (hE : E.FirstMatch) (m : ConnLineEditModel) (screen : EditScreen)
    (options : Option (List UInt16)) (editable : Editable (options.getD [])) (opens : screen.Opens) (e : Editor)
    (edited : (eventsOf screen.waits).foldl Editor.feed (.start (charsOf options)) = e) :
    (∀ r, connEditOptions E m screen options = some r → r.options =
        if e.status = .committed ∧ screen.allocated = true then some (e.text.map UInt8.toUInt16) else options) ∧
      (e.status ≠ .active → ∃ r, connEditOptions E m screen options = some r) := by
  obtain ⟨loader, visible, graphics, memory⟩ := opens
  obtain ⟨ends, stops⟩ := editLoop_shows hE screen.waits (shows_options hE m editable) rfl
  have opened : connEditOptions E m screen options =
      (editLoop E (connLineEditInit E m (charsOf options)) screen.waits).map
        (editResult screen.allocated options) := by
    unfold connEditOptions
    simp [loader, visible, graphics, memory, char16ToAsciiStrict_eq editable]
  rw [opened]
  rw [edited] at ends stops
  constructor
  · intro r returned
    obtain ⟨m', ended, rfl⟩ := Option.map_eq_some_iff.mp returned
    exact editResult_options (ends m' ended) _ _
  · intro final
    obtain ⟨m', ended⟩ := stops final
    exact ⟨_, by rw [ended]; rfl⟩

/-- On a screen that is not opened the options stay. -/
theorem connEditOptions_closed (m : ConnLineEditModel) (screen : EditScreen) (options : Option (List UInt16))
    (closed : ¬ screen.Opens) :
    connEditOptions E m screen options = some { options := options, exit := .zero, boot := false } := by
  unfold EditScreen.Opens at closed
  unfold connEditOptions
  cases loader : screen.loader <;> cases hidden : screen.hidden <;> cases graphics : screen.graphics <;>
    cases memory : screen.memory <;> simp_all
  split <;> rfl

/-! ### The line editor against a plain one -/

/-- The editor set up with an option string and fed these events. -/
def editRun (E : EditEngine) (m : ConnLineEditModel) (initial : List UInt8) (events : List EditEvent) :
    ConnLineEditModel :=
  events.foldl (fun m ev => (connLineEditUpdate E m ev).1) (connLineEditInit E m initial)

/-- What holds of the editor, set up in memory `before`, against a plain one after the same events. -/
structure Agrees (before : ConnLineEditModel) (m : ConnLineEditModel) (e : Editor) : Prop where
  text : m.text = e.text
  cursor : m.cursor = e.cursor
  length : m.len ≤ editLimit
  ends : m.buf m.len = 0
  within : m.cursor ≤ m.len
  window : (bufCol : Int) ≤ cursorColumn m ∧ cursorColumn m < bufCol + view
  outside : ∀ i, editMax ≤ i → m.buf i = before.buf i

theorem Shows.agrees {before : ConnLineEditModel} (h : Shows before.buf m e) : Agrees before m e where
  text := h.text_eq
  cursor := h.cursor
  length := h.content.length ▸ h.content.room
  ends := h.content.ends
  within := by
    rw [h.cursor, h.content.length]
    exact h.within
  window := by
    obtain ⟨above, below⟩ := h.window
    unfold cursorColumn
    omega
  outside := h.content.outside

theorem press_ends {key : ConnKey} (ending : key = .enter ∨ key = .escape) (ch : Nat) :
    (e.feed (.key key ch)).status ≠ .active := by
  rw [Editor.feed]
  split
  · obtain rfl | rfl := ending <;> simp [Editor.press]
  · assumption

theorem run_finished (hE : E.FirstMatch) (h : Shows outside m e) (finished : e.status ≠ .active)
    (events : List EditEvent) : events.foldl (fun m ev => (connLineEditUpdate E m ev).1) m = m := by
  have machine := h.machine
  induction events with
  | nil => rfl
  | cons ev events ih =>
    have final : m.machine = some .committed ∨ m.machine = some .cancelled := by
      rw [machine]
      cases status : e.status <;> simp [status, stateOf] at finished ⊢
    rw [List.foldl_cons, update_final hE final, ih]

/-- The editor is a plain one on lists, Enter and Escape end it, and its text becomes the options. -/
theorem lineEditor_agrees (hE : E.FirstMatch) (before : ConnLineEditModel) (options : Option (List UInt16))
    (editable : Editable (options.getD [])) :
    (∀ events, Agrees before (editRun E before (charsOf options) events)
        (events.foldl Editor.feed (.start (charsOf options)))) ∧
      (∀ events key ch later, key = .enter ∨ key = .escape →
        editRun E before (charsOf options) (events ++ .key key ch :: later) =
          editRun E before (charsOf options) (events ++ [.key key ch])) ∧
      ∀ screen : EditScreen, screen.Opens → ∀ e,
        (eventsOf screen.waits).foldl Editor.feed (.start (charsOf options)) = e →
          (∀ r, connEditOptions E before screen options = some r → r.options =
            if e.status = .committed ∧ screen.allocated = true then some (e.text.map UInt8.toUInt16)
            else options) ∧
          (e.status ≠ .active → ∃ r, connEditOptions E before screen options = some r) := by
  have start := shows_options hE before editable
  refine ⟨fun events => (shows_run hE start events).agrees, fun events key ch later ending => ?_,
    fun screen opens e edited => connEditOptions_ends hE before screen options editable opens e edited⟩
  have reached := shows_update hE (shows_run hE start events) (.key key ch)
  unfold editRun
  rw [List.foldl_append, List.foldl_append, List.foldl_cons, List.foldl_cons, List.foldl_nil]
  exact run_finished hE reached (press_ends ending ch) later

/-- The string `ro`, with an engine that tries the transitions in listed order. -/
theorem lineEditor_agrees_ro :
    (Lib.Statechart.Engine.listedOrder EditSmState EditSmGuard EditSmAction).FirstMatch ∧
      Editable [0x72, 0x6F] ∧
      Agrees ⟨fun _ => 0, 0, 0, 0, false, .active, none⟩
        (editRun (.listedOrder _ _ _) ⟨fun _ => 0, 0, 0, 0, false, .active, none⟩ [0x72, 0x6F]
          [.key .home 0, .key .delete 0, .key .text 0x6E, .key .enter 0])
        ⟨[0x6E, 0x6F], 1, .committed⟩ :=
  have editable : Editable [0x72, 0x6F] :=
    ⟨fun c listed => by obtain rfl | rfl := List.mem_pair.mp listed <;> decide, by decide⟩
  ⟨Lib.Statechart.Engine.listedOrder_firstMatch, editable,
    (lineEditor_agrees Lib.Statechart.Engine.listedOrder_firstMatch ⟨fun _ => 0, 0, 0, 0, false, .active, none⟩
      (some [0x72, 0x6F]) editable).1 _⟩

end Meridian.Conn.EditLine
