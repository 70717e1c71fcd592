import Meridian.Config.Stanza

/-!
# Stanzas by their blocks

A stanza is a list of lines and submenu blocks. What the readers do on each of them is stated here
once, for whatever lines follow.
-/

namespace Meridian.Config

open Text Menu

/-! ### Tokens -/

theorem isToken_other {line : Line} {word : String} (h : isToken line word = true) (other : String)
    (apart : word.toList.map lowerChar ≠ other.toList.map lowerChar) :
    isToken line other = false := by
  rw [isToken, equalsCI_iff] at h
  rw [← Bool.not_eq_true, isToken, equalsCI_iff, h]
  exact apart

def isDisabled (line : Line) : Bool := isToken line "disabled"

def isVolume (line : Line) : Bool := isToken line "volume"

/-- The line neither opens nor closes a block. -/
structure IsPlain (line : Line) : Prop where
  noBrace : isToken line "\x7d" = false
  noHeader : isToken line "submenuentry" = false

inductive Item where
  | line (tokens : Line)
  | submenu (header : Line) (body : Lines) (close : Line)
  deriving DecidableEq

def Item.lines : Item → Lines
  | .line tokens => [tokens]
  | .submenu header body close => header :: body ++ [close]

/-- The lines of a block. -/
structure ValidBlock (header : Line) (body : Lines) (close : Line) : Prop where
  header : isToken header "submenuentry" = true
  body : ∀ line ∈ body, IsPlain line
  close : isToken close "\x7d" = true

def Item.Valid : Item → Prop
  | .line tokens => IsPlain tokens
  | .submenu header body close => ValidBlock header body close

def linesOf (items : List Item) : Lines := items.flatMap Item.lines

theorem linesOf_cons (item : Item) (items : List Item) (rest : Lines) :
    linesOf (item :: items) ++ rest = item.lines ++ (linesOf items ++ rest) := by
  rw [linesOf, List.flatMap_cons, List.append_assoc]
  rfl

theorem linesOf_append (items more : List Item) (rest : Lines) :
    linesOf (items ++ more) ++ rest = linesOf items ++ (linesOf more ++ rest) := by
  rw [linesOf, List.flatMap_append, List.append_assoc]
  rfl

theorem submenu_lines (header : Line) (body : Lines) (close : Line) (rest : Lines) :
    (Item.submenu header body close).lines ++ rest = header :: (body ++ close :: rest) := by
  rw [Item.lines, List.cons_append, List.cons_append, List.append_assoc]
  rfl

/-- The stanza's own lines. -/
def ownLines (items : List Item) : Lines :=
  items.filterMap fun
    | .line tokens => some tokens
    | .submenu .. => none

/-! ### The look-ahead for the mark -/

theorem disabledLoop_plain {body : Lines} (plain : ∀ line ∈ body, IsPlain line) (subMenus : Nat)
    (found : Bool) (rest : Lines) :
    disabledLoop subMenus found (body ++ rest) =
      disabledLoop subMenus (found || body.any isDisabled) rest := by
  induction body generalizing found with
  | nil => rw [List.any_nil, Bool.or_false, List.nil_append]
  | cons line body ih =>
    obtain ⟨here, later⟩ := List.forall_mem_cons.mp plain
    rw [List.cons_append, disabledLoop, here.noHeader, here.noBrace, List.any_cons, isDisabled]
    cases isToken line "disabled" with
    | true =>
      rw [if_pos rfl, ih later]
      congr 1
      rw [Bool.true_or, Bool.or_true]
    | false =>
      rw [if_neg Bool.false_ne_true, if_neg Bool.false_ne_true, if_neg Bool.false_ne_true, ih later,
        Bool.false_or]

theorem disabledLoop_close {close : Line} (h : isToken close "\x7d" = true) (found : Bool)
    (rest : Lines) : disabledLoop 0 found (close :: rest) = (found, rest) := by
  rw [disabledLoop, isToken_other h "disabled" (by decide), isToken_other h "submenuentry" (by decide),
    h]
  rfl

/-- Whether any line of the item is a mark, at any depth. -/
def Item.marked : Item → Bool
  | .line tokens => isDisabled tokens
  | .submenu _ body _ => body.any isDisabled

theorem disabledLoop_item {item : Item} (valid : item.Valid) (found : Bool) (rest : Lines) :
    disabledLoop 0 found (item.lines ++ rest) = disabledLoop 0 (found || item.marked) rest := by
  cases item with
  | line tokens =>
    rw [Item.lines, disabledLoop_plain (List.forall_mem_singleton.mpr valid)]
    congr 1
    rw [List.any_cons, List.any_nil, Bool.or_false]
    rfl
  | submenu header body close =>
    rw [submenu_lines, disabledLoop, isToken_other valid.header "disabled" (by decide), valid.header,
      if_neg Bool.false_ne_true, if_pos rfl, disabledLoop_plain valid.body, disabledLoop,
      isToken_other valid.close "disabled" (by decide),
      isToken_other valid.close "submenuentry" (by decide), valid.close]
    rfl

theorem disabledLoop_items {items : List Item} (valid : ∀ item ∈ items, item.Valid) (found : Bool)
    (rest : Lines) : disabledLoop 0 found (linesOf items ++ rest) =
      disabledLoop 0 (found || items.any Item.marked) rest := by
  induction items generalizing found with
  | nil => rw [List.any_nil, Bool.or_false]; rfl
  | cons item items ih =>
    obtain ⟨here, later⟩ := List.forall_mem_cons.mp valid
    rw [linesOf_cons, disabledLoop_item here, ih later, List.any_cons, Bool.or_assoc]

theorem getIsDisabled_items {items : List Item} (valid : ∀ item ∈ items, item.Valid) {close : Line}
    (brace : isToken close "\x7d" = true) (rest : Lines) :
    getIsDisabled (linesOf items ++ close :: rest) =
      if items.any Item.marked then (true, rest) else (false, linesOf items ++ close :: rest) := by
  rw [getIsDisabled, disabledLoop_items valid, disabledLoop_close brace, Bool.false_or]

theorem getIsDisabled_body {body : Lines} (plain : ∀ line ∈ body, IsPlain line) {close : Line}
    (brace : isToken close "\x7d" = true) (rest : Lines) :
    getIsDisabled (body ++ close :: rest) =
      if body.any isDisabled then (true, rest) else (false, body ++ close :: rest) := by
  rw [getIsDisabled, disabledLoop_plain plain, disabledLoop_close brace, Bool.false_or]

/-! ### The look-ahead for the volume -/

variable {V : Type} (env : VolumeEnv V)

theorem volumeLoop_nested {body : Lines} (plain : ∀ line ∈ body, IsPlain line) (subMenus : Nat)
    (checked : Bool) (subject : V) (rest : Lines) :
    stanzaVolumeLoop env (subMenus + 1) checked subject (body ++ rest) =
      stanzaVolumeLoop env (subMenus + 1) checked subject rest := by
  induction body with
  | nil => rfl
  | cons line body ih =>
    obtain ⟨here, later⟩ := List.forall_mem_cons.mp plain
    rw [List.cons_append, stanzaVolumeLoop, here.noBrace, here.noHeader, if_neg Bool.false_ne_true,
      if_neg Bool.false_ne_true, if_pos (Nat.succ_pos subMenus), ih later]

theorem volumeLoop_submenu {header : Line} {body : Lines} {close : Line}
    (valid : ValidBlock header body close) (checked : Bool) (subject : V) (rest : Lines) :
    stanzaVolumeLoop env 0 checked subject ((Item.submenu header body close).lines ++ rest) =
      stanzaVolumeLoop env 0 checked subject rest := by
  rw [submenu_lines, stanzaVolumeLoop, isToken_other valid.header "\x7d" (by decide), valid.header,
    if_neg Bool.false_ne_true, if_pos rfl, volumeLoop_nested env valid.body, stanzaVolumeLoop,
    valid.close, if_pos rfl, if_neg (by omega)]

/-- A plain line of the stanza itself. -/
theorem volumeLoop_line {line : Line} (plain : IsPlain line) (checked : Bool) (subject : V)
    (rest : Lines) :
    stanzaVolumeLoop env 0 checked subject (line :: rest) =
      if isDisabled line then .error rest
      else if !isVolume line || checked then stanzaVolumeLoop env 0 checked subject rest
      else if (getIsDisabled rest).1 then .error (getIsDisabled rest).2
      else match env.findVolume (line)[1]? with
        | some found =>
          if env.usable found then stanzaVolumeLoop env 0 true found rest
          else stanzaVolumeLoop env 0 false subject rest
        | none => stanzaVolumeLoop env 0 false subject rest := by
  rw [stanzaVolumeLoop, plain.noBrace, plain.noHeader, if_neg Bool.false_ne_true,
    if_neg Bool.false_ne_true, if_neg (Nat.lt_irrefl 0)]
  rfl

/-- Lines without a volume or a mark are passed over. -/
theorem volumeLoop_quiet {items : List Item} (valid : ∀ item ∈ items, item.Valid)
    (quiet : ∀ line ∈ ownLines items, isDisabled line = false ∧ isVolume line = false)
    (checked : Bool) (subject : V) (rest : Lines) :
    stanzaVolumeLoop env 0 checked subject (linesOf items ++ rest) =
      stanzaVolumeLoop env 0 checked subject rest := by
  induction items with
  | nil => rfl
  | cons item items ih =>
    obtain ⟨here, later⟩ := List.forall_mem_cons.mp valid
    rw [linesOf_cons]
    cases item with
    | line tokens =>
      obtain ⟨first, others⟩ := List.forall_mem_cons.mp quiet
      show stanzaVolumeLoop env 0 checked subject (tokens :: (linesOf items ++ rest)) = _
      rw [volumeLoop_line env here, first.1, first.2, if_neg Bool.false_ne_true]
      exact ih later others
    | submenu header body close =>
      rw [volumeLoop_submenu env here]
      exact ih later quiet

/-- A stanza with a mark of its own is disabled. -/
theorem volumeLoop_marked {items : List Item} (valid : ∀ item ∈ items, item.Valid)
    (marked : ∃ line ∈ ownLines items, isDisabled line = true) (checked : Bool) (subject : V)
    (rest : Lines) :
    ∃ position, stanzaVolumeLoop env 0 checked subject (linesOf items ++ rest) =
      .error position := by
  induction items generalizing checked subject with
  | nil =>
    obtain ⟨line, mem, _⟩ := marked
    exact absurd mem List.not_mem_nil
  | cons item items ih =>
    obtain ⟨here, later⟩ := List.forall_mem_cons.mp valid
    rw [linesOf_cons]
    cases item with
    | submenu header body close' =>
      rw [volumeLoop_submenu env here]
      exact ih later marked checked subject
    | line tokens =>
      show ∃ position, stanzaVolumeLoop env 0 checked subject
        (tokens :: (linesOf items ++ rest)) = .error position
      rw [volumeLoop_line env here]
      split
      · exact ⟨_, rfl⟩
      · rename_i unmarked
        have rest' : ∃ line ∈ ownLines items, isDisabled line = true := by
          obtain ⟨line, mem, disabled⟩ := marked
          obtain rfl | mem := List.mem_cons.mp mem
          · exact absurd disabled unmarked
          · exact ⟨line, mem, disabled⟩
        have go := ih later rest'
        split
        · exact go checked subject
        · split
          · exact ⟨_, rfl⟩
          · split
            · split
              · exact go true _
              · exact go false subject
            · exact go false subject

/-- The first volume or mark of the block is a volume. -/
def volumeFirst (body : Lines) : Bool :=
  (body.find? fun line => isVolume line || isDisabled line).any isVolume

/-- What follows the first mark. -/
def afterMark (body : Lines) : Lines := (body.dropWhile (!isDisabled ·)).drop 1

theorem isVolume_of_isDisabled {line : Line} (h : isDisabled line = true) : isVolume line = false :=
  isToken_other h "volume" (by decide)

/-- A disabled block is left behind its end when a volume comes first, else behind the mark. -/
theorem volumeLoop_disabled {body : Lines} (plain : ∀ line ∈ body, IsPlain line)
    (marked : body.any isDisabled = true) {close : Line} (brace : isToken close "\x7d" = true)
    (subject : V) (rest : Lines) :
    stanzaVolumeLoop env 0 false subject (body ++ close :: rest) =
      .error (if volumeFirst body then rest else afterMark body ++ close :: rest) := by
  induction body with
  | nil => cases marked
  | cons line body ih =>
    obtain ⟨here, later⟩ := List.forall_mem_cons.mp plain
    rw [List.cons_append, volumeLoop_line env here]
    cases mark : isDisabled line with
    | true =>
      have first : volumeFirst (line :: body) = false := by
        rw [volumeFirst, List.find?_cons_of_pos (by rw [mark, Bool.or_true])]
        exact isVolume_of_isDisabled mark
      rw [if_pos rfl, first, afterMark, List.dropWhile_cons_of_neg (by rw [mark]; exact Bool.false_ne_true)]
      rfl
    | false =>
      have marked : body.any isDisabled = true := by
        rw [List.any_cons, mark, Bool.false_or] at marked
        exact marked
      rw [if_neg Bool.false_ne_true]
      cases volume : isVolume line with
      | true =>
        have first : volumeFirst (line :: body) = true := by
          rw [volumeFirst, List.find?_cons_of_pos (by rw [volume, Bool.true_or])]
          exact volume
        rw [getIsDisabled_body later brace, if_pos marked, first]
        rfl
      | false =>
        have first : volumeFirst (line :: body) = volumeFirst body := by
          rw [volumeFirst, List.find?_cons_of_neg (by rw [volume, mark]; exact Bool.false_ne_true)]
          rfl
        rw [first, afterMark, List.dropWhile_cons_of_pos (by rw [mark]; rfl)]
        exact ih later marked

/-- The look-ahead over an enabled block stays inside it. -/
theorem volumeLoop_enabled {body : Lines} (plain : ∀ line ∈ body, IsPlain line)
    (enabled : body.any isDisabled = false) {close : Line} (brace : isToken close "\x7d" = true)
    (checked : Bool) (subject : V) :
    ∃ volume, stanzaVolumeLoop env 0 checked subject body = .ok volume ∧
      ∀ rest, stanzaVolumeLoop env 0 checked subject (body ++ close :: rest) = .ok volume := by
  induction body generalizing checked subject with
  | nil =>
    refine ⟨subject, rfl, fun rest => ?_⟩
    rw [List.nil_append, stanzaVolumeLoop, brace, if_pos rfl, if_pos Nat.zero_lt_one]
  | cons line body ih =>
    obtain ⟨here, later⟩ := List.forall_mem_cons.mp plain
    rw [List.any_cons, Bool.or_eq_false_iff] at enabled
    have go := ih later enabled.2
    have alone : (getIsDisabled body).1 = false := by
      have whole := disabledLoop_plain later 0 false []
      rw [List.append_nil, enabled.2] at whole
      rw [getIsDisabled, whole]
      rfl
    have inside : ∀ rest, (getIsDisabled (body ++ close :: rest)).1 = false := by
      intro rest
      rw [getIsDisabled_body later brace, enabled.2]
      rfl
    simp only [List.cons_append, volumeLoop_line env here, enabled.1, alone, inside,
      Bool.false_eq_true, if_false]
    split
    · exact go checked subject
    · split
      · split
        · exact go true _
        · exact go false subject
      · exact go false subject

/-! ### The loop over a stanza -/

variable {V : Type} (env : StanzaEnv V) (volume : V)

/-- The lines of a block, without a brace to end them. -/
theorem submenuLoop_body {body : Lines} (plain : ∀ line ∈ body, IsPlain line) {close : Line}
    (brace : isToken close "\x7d" = true) (st : SubmenuState V) (rest : Lines) :
    submenuLoop volume st (body ++ close :: rest) =
      (body.foldl (submenuLine volume) st, rest) := by
  induction body generalizing st with
  | nil => rw [List.nil_append, submenuLoop, brace, if_pos rfl, List.foldl_nil]
  | cons line body ih =>
    obtain ⟨here, later⟩ := List.forall_mem_cons.mp plain
    rw [List.cons_append, submenuLoop, here.noBrace, if_neg Bool.false_ne_true, List.foldl_cons]
    exact ih later _

/-- The parent with the entry of an enabled block. -/
def withSubmenu (entry : StanzaEntry V) (header : Line) (body : Lines) : StanzaEntry V :=
  let targetVolume := (getStanzaVolume env.toVolumeEnv body volume).1
  let sub := body.foldl (submenuLine volume) { target := { entry.target with volume := targetVolume } }
  let title := env.loaderTitle (header[1]?.getD "Instance: Unknown".toList) volume
  { entry with
    subScreen := some (addListElement (initializeSubScreen env entry)
      (.loader (some title) (submenuTarget sub))) }

theorem addSubmenu_enabled {header : Line} {body : Lines} {close : Line}
    (valid : ValidBlock header body close) (enabled : body.any isDisabled = false)
    (entry : StanzaEntry V) (rest : Lines) :
    addSubmenu env entry (body ++ close :: rest) volume header[1]? =
      (withSubmenu env volume entry header body, true, rest) := by
  obtain ⟨found, alone, inside⟩ :=
    volumeLoop_enabled env.toVolumeEnv valid.body enabled valid.close false volume
  rw [addSubmenu, withSubmenu, getStanzaVolume, getStanzaVolume, alone, inside]
  dsimp only
  rw [submenuLoop_body volume valid.body valid.close]

theorem addSubmenu_disabled {header : Line} {body : Lines} {close : Line}
    (valid : ValidBlock header body close) (marked : body.any isDisabled = true)
    (entry : StanzaEntry V) (title : Option Str) (rest : Lines) :
    addSubmenu env entry (body ++ close :: rest) volume title =
      (entry, false, if volumeFirst body then rest else afterMark body ++ close :: rest) := by
  rw [addSubmenu, getStanzaVolume, volumeLoop_disabled env.toVolumeEnv valid.body marked valid.close]

/-- What one item makes of the state; the stanza ends early behind an open disabled block. -/
def itemStep (st : StanzaState V) : Item → Except (StanzaState V) (StanzaState V)
  | .line tokens => .ok (stanzaLine env volume st tokens)
  | .submenu header body _ =>
    if body.any isDisabled then
      if volumeFirst body then .ok st
      else .error ((afterMark body).foldl (stanzaLine env volume) st)
    else .ok { st with entry := withSubmenu env volume st.entry header body, addedSubmenu := true }

theorem stanzaLoop_line {line : Line} (plain : IsPlain line) (st : StanzaState V) (rest : Lines) :
    stanzaLoop env volume st (line :: rest) =
      stanzaLoop env volume (stanzaLine env volume st line) rest := by
  rw [stanzaLoop, plain.noBrace, plain.noHeader, if_neg Bool.false_ne_true,
    if_neg Bool.false_ne_true]

theorem stanzaLoop_close {close : Line} (brace : isToken close "\x7d" = true) (st : StanzaState V)
    (rest : Lines) : stanzaLoop env volume st (close :: rest) = (st, rest) := by
  rw [stanzaLoop, brace, if_pos rfl]

/-- Leaked lines are read as the stanza's, up to the block's brace. -/
theorem stanzaLoop_leak {body : Lines} (plain : ∀ line ∈ body, IsPlain line) {close : Line}
    (brace : isToken close "\x7d" = true) (st : StanzaState V) (rest : Lines) :
    stanzaLoop env volume st (body ++ close :: rest) =
      (body.foldl (stanzaLine env volume) st, rest) := by
  induction body generalizing st with
  | nil => exact stanzaLoop_close env volume brace st rest
  | cons line body ih =>
    obtain ⟨here, later⟩ := List.forall_mem_cons.mp plain
    rw [List.cons_append, stanzaLoop_line env volume here, List.foldl_cons]
    exact ih later _

theorem afterMark_subset {body : Lines} {line : Line} (h : line ∈ afterMark body) : line ∈ body :=
  (List.dropWhile_suffix _).subset (List.mem_of_mem_drop h)

theorem stanzaLoop_item {item : Item} (valid : item.Valid) (st : StanzaState V) (rest : Lines) :
    stanzaLoop env volume st (item.lines ++ rest) =
      match itemStep env volume st item with
      | .ok st' => stanzaLoop env volume st' rest
      | .error st' => (st', rest) := by
  cases item with
  | line tokens => exact stanzaLoop_line env volume valid st rest
  | submenu header body close =>
    rw [submenu_lines, stanzaLoop, isToken_other valid.header "\x7d" (by decide), valid.header,
      if_neg Bool.false_ne_true, if_pos rfl, itemStep]
    cases marked : body.any isDisabled with
    | false =>
      rw [addSubmenu_enabled env volume valid marked, if_neg Bool.false_ne_true]
      dsimp only
      rw [Bool.or_true]
    | true =>
      rw [addSubmenu_disabled env volume valid marked, if_pos rfl]
      dsimp only
      rw [Bool.or_false]
      split
      · rfl
      · exact stanzaLoop_leak env volume (fun line mem => valid.body line (afterMark_subset mem))
          valid.close st rest

/-- The state behind the stanza. -/
def itemsRun (st : StanzaState V) (items : List Item) : Except (StanzaState V) (StanzaState V) :=
  items.foldlM (itemStep env volume) st

def ended : Except (StanzaState V) (StanzaState V) → StanzaState V
  | .ok st => st
  | .error st => st

theorem itemsRun_cons (st : StanzaState V) (item : Item) (items : List Item) :
    itemsRun env volume st (item :: items) =
      match itemStep env volume st item with
      | .ok st' => itemsRun env volume st' items
      | .error st' => .error st' := by
  rw [itemsRun, List.foldlM_cons]
  cases itemStep env volume st item with
  | ok st' => rfl
  | error st' => rfl

theorem stanzaLoop_items {items : List Item} (valid : ∀ item ∈ items, item.Valid) {close : Line}
    (brace : isToken close "\x7d" = true) (st : StanzaState V) (rest : Lines) :
    (stanzaLoop env volume st (linesOf items ++ close :: rest)).1 =
      ended (itemsRun env volume st items) := by
  induction items generalizing st with
  | nil =>
    rw [linesOf, List.flatMap_nil, List.nil_append, stanzaLoop_close env volume brace]
    rfl
  | cons item items ih =>
    obtain ⟨here, later⟩ := List.forall_mem_cons.mp valid
    rw [linesOf_cons, stanzaLoop_item env volume here, itemsRun_cons]
    cases itemStep env volume st item with
    | ok st' => exact ih later st'
    | error st' => rfl

end Meridian.Config
