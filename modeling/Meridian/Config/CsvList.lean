import Meridian.Text
import Mathlib.Data.List.Induction

/-!
# Deleting an item from a list

The model of `DeleteItemFromCsvList` of `lib/str_list.c`, on a list that `FindCommaDelimited` reads.
Allocations succeed.
-/

namespace Meridian.Config

open Text Lib.Search

/-- The items of a list that may be null. -/
def csvItems (list : Option Str) : List Str := commaItems (list.getD [])

/-- What is returned, the list that is left, and where a null character is written in the old one. -/
structure CsvDeletion where
  removed : Bool
  list : Option Str
  written : Option Nat := none
  deriving DecidableEq, Repr

def partBefore (toDelete list : Str) : Option Str :=
  let partA := getSubStrBefore (',' :: toDelete) list
  if equalsCI partA list then
    let partA := getSubStrBefore toDelete list
    if equalsCI partA list then none else some partA
  else some partA

def partAfter (toDelete list : Str) : Option Str :=
  let partB := getSubStrAfter (toDelete ++ [',']) list
  if equalsCI partB list then
    let partB := getSubStrAfter toDelete list
    if equalsCI partB list then none else some partB
  else some partB

/-- `DeleteItemFromCsvList`. `PartB` points into the list and is read after the list is freed: `freed`
is what the memory of such a string holds by then. -/
def deleteItemFromCsvList (freed : Str → Str) (toDelete list : Option Str) : CsvDeletion :=
  match toDelete, list with
  | some toDelete, some list =>
    match mrdStrFind list toDelete with
    | none => { removed := false, list := some list }
    | some found =>
      match mrdStrFind found [','] with
      | none =>
        let start := list.length - found.length
        if start = 0 then { removed := true, list := some [], written := some 0 }
        else { removed := true, list := some (list.take (start - 1)), written := some (start - 1) }
      | some _ =>
        match partBefore toDelete list, partAfter toDelete list with
        | none, none => { removed := true, list := some list }
        | some partA, some partB => { removed := true, list := some (partA ++ ',' :: freed partB) }
        | some partA, none => { removed := true, list := some partA }
        | none, some partB => { removed := true, list := some (freed partB) }
  | _, list => { removed := false, list := list }

/-- The items that are the name are gone, the others are kept, the answer says whether there were any,
and what is written is in the string. -/
structure DeletesItem (toDelete list : Option Str) (result : CsvDeletion) : Prop where
  items : csvItems result.list = (csvItems list).filter fun item => some item ≠ toDelete
  removed : result.removed = true ↔ ∃ item ∈ csvItems list, toDelete = some item
  inside : ∀ i ∈ result.written, i ≤ (list.getD []).length

/-! ### Reading the items -/

/-- The state of `FindCommaDelimited`, with the items so far. -/
structure ItemScan where
  items : List Str := []
  item : Str := []
  blanks : Str := []
  inQuotes : Bool := false

def ItemScan.step (s : ItemScan) (c : Char) : ItemScan :=
  if c = '"' then { s with item := '"' :: s.blanks ++ s.item, blanks := [], inQuotes := !s.inQuotes }
  else if c = ',' ∧ !s.inQuotes then
    if s.item = [] then { s with blanks := [] }
    else { s with items := s.items ++ [s.item.reverse], item := [], blanks := [] }
  else if s.inQuotes ∨ c ≠ ' ' then { s with item := c :: s.blanks ++ s.item, blanks := [] }
  else { s with blanks := if s.item = [] then [] else ' ' :: s.blanks }

def ItemScan.found (s : ItemScan) : List Str :=
  if s.item = [] then s.items else s.items ++ [s.item.reverse]

def scanItems (text : Str) : ItemScan := text.foldl ItemScan.step {}

theorem ItemScan.found_foldl (s : ItemScan) (text : Str) :
    (text.foldl ItemScan.step s).found =
      s.items ++ commaItemsFrom s.item s.blanks s.inQuotes text := by
  induction text generalizing s with
  | nil =>
    rw [List.foldl_nil, ItemScan.found, commaItemsFrom]
    split
    · exact (List.append_nil _).symm
    · rfl
  | cons c text ih =>
    rw [List.foldl_cons, ih, ItemScan.step, commaItemsFrom]
    by_cases quote : c = '"'
    · rw [if_pos quote, if_pos quote]
    rw [if_neg quote, if_neg quote]
    by_cases comma : c = ',' ∧ (!s.inQuotes) = true
    · rw [if_pos comma, if_pos comma]
      split
      · rename_i empty
        rw [empty]
      · exact List.append_assoc ..
    rw [if_neg comma, if_neg comma]
    by_cases kept : s.inQuotes = true ∨ c ≠ ' '
    · rw [if_pos kept, if_pos kept]
    · rw [if_neg kept, if_neg kept]

theorem commaItems_eq_found (text : Str) : commaItems text = (scanItems text).found :=
  (ItemScan.found_foldl {} text).symm

theorem scanItems_concat (text : Str) (c : Char) : scanItems (text ++ [c]) = (scanItems text).step c := by
  rw [scanItems, List.foldl_append]
  rfl

/-- What a character does: it is a part of an item, it ends one, or it is a blank between words. -/
theorem ItemScan.step_cases (s : ItemScan) (c : Char) :
    ((s.step c).item = c :: s.blanks ++ s.item ∧ (s.step c).blanks = [] ∧
        (s.step c).items = s.items ∧ (c = ' ' → s.inQuotes = true)) ∨
      (c = ',' ∧ s.step c = { items := s.found }) ∨
      (c = ' ' ∧ s.inQuotes = false ∧
        s.step c = { s with blanks := if s.item = [] then [] else ' ' :: s.blanks }) := by
  rw [ItemScan.step]
  split
  · rename_i quote
    subst quote
    exact .inl ⟨rfl, rfl, rfl, fun impossible => absurd impossible (by decide)⟩
  split
  · rename_i comma
    obtain ⟨rfl, plain⟩ := comma
    rw [Bool.not_eq_true'] at plain
    refine .inr (.inl ⟨rfl, ?_⟩)
    rw [ItemScan.found]
    split
    · rename_i empty
      rw [← plain, ← empty]
    · rw [← plain]
  split
  · rename_i kept
    refine .inl ⟨rfl, rfl, rfl, fun blank => ?_⟩
    exact kept.resolve_right (not_not_intro blank)
  · rename_i blank
    rw [not_or, Bool.not_eq_true, not_not] at blank
    exact .inr (.inr ⟨blank.2, blank.1, rfl⟩)

/-- Between two items. -/
def Fresh (text : Str) : Prop := (scanItems text).item = []

theorem Fresh.commaItems_eq {text : Str} (h : Fresh text) :
    commaItems text = (scanItems text).items := by
  have empty : (scanItems text).item = [] := h
  rw [commaItems_eq_found, ItemScan.found, if_pos empty]

/-- What the state says of the text: where the item that is read began. -/
structure Scanned (text : Str) : Prop where
  began : ∃ front, text = front ++ (scanItems text).item.reverse ++ (scanItems text).blanks.reverse ∧
    Fresh front ∧ (scanItems front).items = (scanItems text).items
  quoted : (scanItems text).inQuotes = true → ¬ Fresh text
  noBlank : (scanItems text).item.getLast? ≠ some ' '
  blanks : Fresh text → (scanItems text).blanks = []

theorem scanned_of_fresh {text : Str} (fresh : Fresh text) (plain : (scanItems text).inQuotes = false)
    (blanks : (scanItems text).blanks = []) : Scanned text := by
  have empty : (scanItems text).item = [] := fresh
  refine ⟨⟨text, ?_, fresh, rfl⟩, ?_, ?_, fun _ => blanks⟩
  · rw [empty, blanks]
    simp
  · intro quoted
    cases plain.symm.trans quoted
  · rw [empty]
    exact fun impossible => nomatch impossible

theorem scanItems_scanned (text : Str) : Scanned text := by
  induction text using List.reverseRecOn with
  | nil => exact scanned_of_fresh rfl rfl rfl
  | append_singleton text c ih =>
    obtain ⟨item, blanks, items, quoted⟩ | ⟨rfl, ended⟩ | ⟨rfl, plain, blank⟩ :=
      (scanItems text).step_cases c
    · rw [← scanItems_concat] at item blanks items
      have nonempty : ¬ Fresh (text ++ [c]) := by
        rw [Fresh, item]
        exact List.cons_ne_nil _ _
      refine ⟨?_, fun _ => nonempty, ?_, fun fresh => absurd fresh nonempty⟩
      · obtain ⟨front, whole, fresh, same⟩ := ih.began
        refine ⟨front, ?_, fresh, same.trans items.symm⟩
        rw [item, blanks]
        conv_lhs => rw [whole]
        simp
      · rw [item]
        by_cases fresh : (scanItems text).item = []
        · rw [ih.blanks fresh, fresh]
          intro same
          exact ih.quoted (quoted (Option.some.inj same)) fresh
        · rw [List.getLast?_append, List.getLast?_eq_some_getLast fresh, Option.some_or,
            ← List.getLast?_eq_some_getLast fresh]
          exact ih.noBlank
    · rw [← scanItems_concat] at ended
      apply scanned_of_fresh
      · exact congrArg _ ended
      · exact congrArg _ ended
      · exact congrArg _ ended
    · rw [← scanItems_concat] at blank
      by_cases fresh : (scanItems text).item = []
      · apply scanned_of_fresh
        · exact (congrArg _ blank).trans fresh
        · exact (congrArg _ blank).trans plain
        · rw [blank, if_pos fresh]
      · rw [if_neg fresh] at blank
        have nonempty : ¬ Fresh (text ++ [' ']) := by
          rw [Fresh, blank]
          exact fresh
        refine ⟨?_, fun _ => nonempty, ?_, fun fresh => absurd fresh nonempty⟩
        · obtain ⟨front, whole, began, same⟩ := ih.began
          refine ⟨front, ?_, began, same.trans (congrArg ItemScan.items blank).symm⟩
          rw [blank]
          conv_lhs => rw [whole]
          simp
        · rw [blank]
          exact ih.noBlank

/-! ### Where the items are -/

/-- The item stands in the text between what is before it and what is behind it. -/
structure ItemAt (text item front back : Str) : Prop where
  whole : text = front ++ item ++ back
  fresh : Fresh front
  nonempty : item ≠ []
  visible : item.head? ≠ some ' '

theorem Scanned.itemAt {text : Str} (h : Scanned text) (reading : ¬ Fresh text) :
    ∃ front, ItemAt text (scanItems text).item.reverse front (scanItems text).blanks.reverse ∧
      (scanItems front).items = (scanItems text).items := by
  obtain ⟨front, whole, fresh, same⟩ := h.began
  refine ⟨front, ⟨whole, fresh, mt List.reverse_eq_nil_iff.mp reading, ?_⟩, same⟩
  rw [List.head?_reverse]
  exact h.noBlank

theorem ItemAt.concat {text item front back : Str} (h : ItemAt text item front back) (c : Char) :
    ItemAt (text ++ [c]) item front (back ++ [c]) := by
  refine ⟨?_, h.fresh, h.nonempty, h.visible⟩
  rw [h.whole, List.append_assoc]

/-- An item that was ended by a comma. -/
theorem scanItems_item (text : Str) {item : Str} (mem : item ∈ (scanItems text).items) :
    ∃ front back rest, ItemAt text item front back ∧ ',' ∈ back ∧
      (scanItems text).items = (scanItems front).items ++ item :: rest := by
  induction text using List.reverseRecOn with
  | nil => cases mem
  | append_singleton text c ih =>
    have kept (same : (scanItems (text ++ [c])).items = (scanItems text).items) :
        ∃ front back rest, ItemAt (text ++ [c]) item front back ∧ ',' ∈ back ∧
          (scanItems (text ++ [c])).items = (scanItems front).items ++ item :: rest := by
      rw [same] at mem ⊢
      obtain ⟨front, back, rest, here, comma, items⟩ := ih mem
      exact ⟨front, back ++ [c], rest, here.concat c, List.mem_append_left _ comma, items⟩
    obtain ⟨_, _, items, _⟩ | ⟨rfl, ended⟩ | ⟨_, _, blank⟩ := (scanItems text).step_cases c
    · rw [← scanItems_concat] at items
      exact kept items
    · rw [← scanItems_concat] at ended
      have items : (scanItems (text ++ [','])).items = (scanItems text).found := congrArg _ ended
      by_cases fresh : Fresh text
      · exact kept (items.trans (if_pos fresh))
      · have found : (scanItems text).found = (scanItems text).items ++ [(scanItems text).item.reverse] :=
          if_neg fresh
        rw [items, found] at mem ⊢
        obtain old | new := List.mem_append.mp mem
        · obtain ⟨front, back, rest, here, comma, before⟩ := ih old
          refine ⟨front, back ++ [','], rest ++ [(scanItems text).item.reverse], here.concat _,
            List.mem_append_left _ comma, ?_⟩
          rw [before, List.append_assoc]
          rfl
        · obtain rfl := List.mem_singleton.mp new
          obtain ⟨front, here, same⟩ := (scanItems_scanned text).itemAt fresh
          refine ⟨front, _, [], here.concat ',', List.mem_append_right _ List.mem_cons_self, ?_⟩
          rw [same]
    · rw [← scanItems_concat] at blank
      exact kept (by rw [blank])

/-- An item, the items before it, and those behind it, which follow a comma. -/
theorem commaItems_item {text item : Str} (mem : item ∈ commaItems text) :
    ∃ front back rest, ItemAt text item front back ∧ (rest = [] ∨ ',' ∈ back) ∧
      commaItems text = commaItems front ++ item :: rest := by
  rw [commaItems_eq_found, ItemScan.found] at mem ⊢
  by_cases reading : (scanItems text).item = []
  · rw [if_pos reading] at mem ⊢
    obtain ⟨front, back, rest, here, comma, items⟩ := scanItems_item text mem
    exact ⟨front, back, rest, here, .inr comma, by rw [items, here.fresh.commaItems_eq]⟩
  · rw [if_neg reading] at mem ⊢
    obtain old | last := List.mem_append.mp mem
    · obtain ⟨front, back, rest, here, comma, items⟩ := scanItems_item text old
      refine ⟨front, back, rest ++ [(scanItems text).item.reverse], here, .inr comma, ?_⟩
      rw [items, here.fresh.commaItems_eq, List.append_assoc]
      rfl
    · obtain rfl := List.mem_singleton.mp last
      obtain ⟨front, here, same⟩ := (scanItems_scanned text).itemAt reading
      refine ⟨front, _, [], here, .inl rfl, ?_⟩
      rw [here.fresh.commaItems_eq, same]

theorem commaItems_within {text item : Str} (mem : item ∈ commaItems text) : item <:+: text := by
  obtain ⟨front, back, _, here, _⟩ := commaItems_item mem
  exact ⟨front, back, here.whole.symm⟩

/-- Between two items, without a comma, there are blanks only. -/
theorem blanks_of_fresh {front middle : Str} (fresh : Fresh (front ++ middle)) (plain : ',' ∉ middle) :
    ∀ c ∈ middle, c = ' ' := by
  induction middle using List.reverseRecOn with
  | nil => exact fun c mem => absurd mem List.not_mem_nil
  | append_singleton middle c ih =>
    rw [← List.append_assoc] at fresh
    have empty : ((scanItems (front ++ middle)).step c).item = [] := by
      rw [← scanItems_concat]
      exact fresh
    obtain ⟨item, -⟩ | ⟨rfl, -⟩ | ⟨rfl, _, blank⟩ := (scanItems (front ++ middle)).step_cases c
    · cases item.symm.trans empty
    · exact absurd (List.mem_append_right _ List.mem_cons_self) plain
    · rw [blank] at empty
      intro c mem
      obtain before | last := List.mem_append.mp mem
      · exact ih empty (fun comma => plain (List.mem_append_left _ comma)) c before
      · exact List.mem_singleton.mp last

/-- The character before the start of an item belongs to no item. -/
theorem commaItems_dropLast {text : Str} {c : Char} (fresh : Fresh (text ++ [c])) :
    commaItems (text ++ [c]) = commaItems text := by
  have empty : ((scanItems text).step c).item = [] := by
    rw [← scanItems_concat]
    exact fresh
  rw [fresh.commaItems_eq, commaItems_eq_found, scanItems_concat]
  obtain ⟨item, -⟩ | ⟨_, ended⟩ | ⟨_, _, blank⟩ := (scanItems text).step_cases c
  · cases item.symm.trans empty
  · rw [ended]
  · rw [blank] at empty ⊢
    exact (if_pos empty).symm

/-- More text gives other items. -/
theorem commaItems_concat_ne (text : Str) : commaItems (text ++ ['x']) ≠ commaItems text := by
  have step : (scanItems (text ++ ['x'])).found = (scanItems text).items ++
      [('x' :: (scanItems text).blanks ++ (scanItems text).item).reverse] := by
    obtain ⟨item, _, items, _⟩ | ⟨impossible, _⟩ | ⟨impossible, _⟩ := (scanItems text).step_cases 'x'
    · rw [scanItems_concat, ItemScan.found, item, items]
      exact if_neg (List.cons_ne_nil _ _)
    · exact absurd impossible (by decide)
    · exact absurd impossible (by decide)
  rw [commaItems_eq_found, commaItems_eq_found, step, ItemScan.found]
  intro same
  split at same
  · have lengths := congrArg List.length same
    rw [List.length_append, List.length_singleton] at lengths
    omega
  · have lengths := congrArg List.length (List.cons.inj (List.append_cancel_left same)).1
    simp only [List.length_reverse, List.length_cons, List.length_append] at lengths
    omega

/-! ### The last item -/

/-- The first place of the name, behind which there is no other item. -/
structure LastAt (name front found : Str) : Prop where
  fresh : Fresh front
  items : commaItems (front ++ found) = commaItems front ++ [name]
  absent : name ∉ commaItems front
  nonempty : name ≠ []
  visible : name.head? ≠ some ' '

theorem lastAt_of_first {name front found : Str} (first : FirstAt name front found)
    (mem : name ∈ commaItems (front ++ found)) (last : ',' ∉ found ∨ found = name) :
    LastAt name front found := by
  obtain ⟨before, back, rest, here, comma, items⟩ := commaItems_item mem
  have behind := first.length_le here.whole.symm
  have inside : front <+: before := by
    apply List.prefix_of_prefix_length_le (List.prefix_append front found) _ behind
    rw [here.whole, List.append_assoc]
    exact List.prefix_append before _
  obtain ⟨middle, rfl⟩ := inside
  have whole : found = middle ++ (name ++ back) := by
    have same := here.whole
    rw [List.append_assoc, List.append_assoc] at same
    exact List.append_cancel_left same
  have alone : middle = [] ∧ rest = [] := by
    obtain plain | only := last
    · rw [whole] at plain
      refine ⟨?_, comma.resolve_right fun inBack => plain ?_⟩
      · cases middle with
        | nil => rfl
        | cons c middle =>
          have blank := blanks_of_fresh here.fresh (fun mem => plain (List.mem_append_left _ mem)) c
            List.mem_cons_self
          obtain ⟨d, name, rfl⟩ := List.exists_cons_of_ne_nil here.nonempty
          have starts := first.starts
          rw [whole, List.cons_append, List.cons_prefix_cons] at starts
          exact absurd (congrArg some (starts.1.trans blank)) here.visible
      · exact List.mem_append_right _ (List.mem_append_right _ inBack)
    · have lengths := congrArg List.length whole
      rw [only, List.length_append, List.length_append] at lengths
      refine ⟨List.length_eq_zero_iff.mp (by omega), comma.resolve_right fun inBack => ?_⟩
      rw [List.length_eq_zero_iff.mp (by omega : back.length = 0)] at inBack
      cases inBack
  obtain ⟨rfl, rfl⟩ := alone
  rw [List.append_nil] at items
  refine ⟨?_, items, ?_, here.nonempty, here.visible⟩
  · have fresh := here.fresh
    rwa [List.append_nil] at fresh
  · intro earlier
    obtain ⟨a, t, whole'⟩ := commaItems_within earlier
    have later := first.length_le (show a ++ name ++ (t ++ found) = front ++ found by
      rw [← whole', List.append_assoc (a ++ name)])
    have positive := List.length_pos_iff.mpr here.nonempty
    have lengths := congrArg List.length whole'
    rw [List.length_append, List.length_append] at lengths
    omega

theorem LastAt.filter {name front found : Str} (h : LastAt name front found) :
    (commaItems (front ++ found)).filter (fun item => some item ≠ some name) = commaItems front := by
  rw [h.items, List.filter_append, List.filter_eq_self.mpr, List.filter_cons_of_neg, List.filter_nil,
    List.append_nil]
  · simp
  · intro item mem
    apply decide_eq_true
    intro same
    exact h.absent (Option.some.inj same ▸ mem)

/-! ### The parts -/

theorem equalsCI_of_length {s₁ s₂ : Str} (h : s₁.length ≠ s₂.length) : ¬ equalsCI s₁ s₂ = true :=
  mt equalsCI_length h

/-- What is before an item that ends the list, once the character before it is gone as well or not. -/
theorem partBefore_last {name front : Str} (first : FirstAt name front name)
    (last : LastAt name front name) (later : front ≠ []) :
    ∃ partA, partBefore name (front ++ name) = some partA ∧ commaItems partA = commaItems front := by
  have length : (front ++ name).length = front.length + name.length := List.length_append
  have positive := List.length_pos_iff.mpr last.nonempty
  have positive' := List.length_pos_iff.mpr later
  have plain : getSubStrBefore name (front ++ name) = front := by
    rw [getSubStrBefore, getDelimiter_of_visible last.visible, mrdStrFind, find_eq_some first]
    dsimp only
    rw [if_neg (equalsCI_of_length (by omega)), length, Nat.add_sub_cancel, List.take_left]
  have whole (same : getSubStrBefore (',' :: name) (front ++ name) = front ++ name) :
      partBefore name (front ++ name) = some front := by
    rw [partBefore, same, plain]
    dsimp only
    rw [if_pos (equalsCI_self _), if_neg (equalsCI_of_length (by omega))]
  cases found : mrdStrFind (front ++ name) (',' :: name) with
  | none =>
    refine ⟨front, whole ?_, rfl⟩
    rw [getSubStrBefore, getDelimiter_of_visible (by simp), found]
  | some tail =>
    have cut : getSubStrBefore (',' :: name) (front ++ name) =
        if equalsCI tail (front ++ name) then front ++ name
        else (front ++ name).take ((front ++ name).length - tail.length) := by
      rw [getSubStrBefore, getDelimiter_of_visible (by simp), found]
    obtain ⟨before, split, starts, _⟩ := find_append found
    obtain ⟨back, rfl⟩ := starts
    have occurs : (before ++ [',']) ++ name ++ back = front ++ name := by
      rw [split]
      simp
    have behind := first.length_le occurs
    have lengths := congrArg List.length occurs
    rw [List.length_append, List.length_append, length] at lengths
    obtain rfl : back = [] := List.length_eq_zero_iff.mp (by omega)
    rw [List.append_nil] at occurs
    obtain rfl : before ++ [','] = front := List.append_cancel_right occurs
    by_cases begin : before = []
    · refine ⟨before ++ [','], whole ?_, rfl⟩
      rw [cut, if_pos]
      rw [begin, List.append_nil]
      exact equalsCI_self _
    · have start := List.length_pos_iff.mpr begin
      have value : getSubStrBefore (',' :: name) (before ++ [','] ++ name) = before := by
        rw [cut, if_neg (equalsCI_of_length (by simp; omega))]
        simp
      refine ⟨before, ?_, (commaItems_dropLast last.fresh).symm⟩
      rw [partBefore, value]
      exact if_neg (equalsCI_of_length (by simp))

theorem partAfter_last {name front : Str} (first : FirstAt name front name)
    (last : LastAt name front name) : partAfter name (front ++ name) = none := by
  have absent : mrdStrFind (front ++ name) (name ++ [',']) = none := by
    cases found : mrdStrFind (front ++ name) (name ++ [',']) with
    | none => rfl
    | some tail =>
      obtain ⟨before, split, ⟨back, rfl⟩, _⟩ := find_append found
      rw [List.append_assoc, ← List.append_assoc before] at split
      have behind := first.length_le split.symm
      have lengths := congrArg List.length split
      simp only [List.length_append, List.length_singleton] at lengths
      omega
  have visible : (name ++ [',']).head? ≠ some ' ' := by
    rw [List.head?_append_of_ne_nil _ last.nonempty]
    exact last.visible
  have comma : getSubStrAfter (name ++ [',']) (front ++ name) = front ++ name := by
    rw [getSubStrAfter, getDelimiter_of_visible visible, absent]
  have plain : getSubStrAfter name (front ++ name) = front ++ name := by
    rw [getSubStrAfter, getDelimiter_of_visible last.visible, mrdStrFind, find_eq_some first]
    dsimp only
    rw [if_pos List.drop_length]
  rw [partAfter, comma, plain]
  dsimp only
  rw [if_pos (equalsCI_self _), if_pos (equalsCI_self _)]

/-- Without a part behind it, the name ends the list. -/
theorem found_of_partAfter {name front found : Str} (first : FirstAt name front found)
    (nonempty : name ≠ []) (visible : name.head? ≠ some ' ')
    (none : partAfter name (front ++ found) = none) : found = name := by
  obtain ⟨back, rfl⟩ := first.starts
  rw [partAfter] at none
  have same : equalsCI (getSubStrAfter name (front ++ (name ++ back))) (front ++ (name ++ back)) = true := by
    by_contra differs
    dsimp only at none
    rw [if_neg differs] at none
    split at none
    · cases none
    · cases none
  rw [getSubStrAfter, getDelimiter_of_visible visible, mrdStrFind, find_eq_some first] at same
  dsimp only at same
  rw [List.drop_left] at same
  split at same
  · rename_i empty
    rw [empty, List.append_nil]
  · have lengths := equalsCI_length same
    have positive := List.length_pos_iff.mpr nonempty
    simp only [List.length_append] at lengths
    omega

/-! ### The deletion -/

/-- Where the characters of the name are found in the list, the name is an item and no comma follows
from there on, or the found place is that of the name at the end of a longer list. -/
def Deletable (toDelete list : Option Str) : Prop :=
  ∀ name text found, toDelete = some name → list = some text → mrdStrFind text name = some found →
    name ∈ commaItems text ∧ (',' ∈ found → found = name ∧ found ≠ text)

theorem deletesItem_absent {name text : Str} (absent : mrdStrFind text name = none) :
    DeletesItem (some name) (some text) { removed := false, list := some text } := by
  have missing : name ∉ commaItems text := fun mem =>
    find_eq_none_iff.mp absent (commaItems_within mem)
  refine ⟨?_, ?_, fun i impossible => nomatch impossible⟩
  · refine (List.filter_eq_self.mpr ?_).symm
    intro item mem
    apply decide_eq_true
    intro same
    exact missing (Option.some.inj same ▸ mem)
  · refine iff_of_false Bool.false_ne_true ?_
    intro ⟨item, mem, same⟩
    exact missing (Option.some.inj same ▸ mem)

/-- What is left is right when it holds the items before the last one, which is the name. -/
theorem deletesItem_last {name front found : Str} (last : LastAt name front found) {left : Str}
    {written : Option Nat} (items : commaItems left = commaItems front)
    (inside : ∀ i ∈ written, i ≤ (front ++ found).length) :
    DeletesItem (some name) (some (front ++ found))
      { removed := true, list := some left, written := written } := by
  refine ⟨items.trans last.filter.symm, iff_of_true rfl ⟨name, ?_, rfl⟩, inside⟩
  show name ∈ commaItems (front ++ found)
  rw [last.items]
  exact List.mem_append_right _ List.mem_cons_self

theorem deletesItem_removed {name text : Str} {result : CsvDeletion}
    (h : DeletesItem (some name) (some text) result) (removed : result.removed = true) :
    name ∈ commaItems text := by
  obtain ⟨item, mem, same⟩ := h.removed.mp removed
  exact Option.some.inj same ▸ mem

theorem deletesItem_null {toDelete list : Option Str} (null : toDelete = none ∨ list = none) :
    DeletesItem toDelete list { removed := false, list := list } := by
  have other : ∀ item ∈ csvItems list, some item ≠ toDelete := by
    intro item mem same
    obtain rfl | rfl := null
    · cases same
    · cases mem
  refine ⟨?_, iff_of_false Bool.false_ne_true ?_, fun i impossible => nomatch impossible⟩
  · exact (List.filter_eq_self.mpr fun item mem => decide_eq_true (other item mem)).symm
  · exact fun ⟨item, mem, same⟩ => other item mem same.symm

section

variable {name front found : Str} (first : FirstAt name front found) (freed : Str → Str)
include first

/-- Without a comma from the name on, a null character is written before the name. -/
theorem deleteItem_plain (plain : ',' ∉ found) :
    deleteItemFromCsvList freed (some name) (some (front ++ found)) =
      { removed := true, list := some front.dropLast, written := some (front.length - 1) } := by
  have start : (front ++ found).length - found.length = front.length := by
    rw [List.length_append, Nat.add_sub_cancel]
  rw [deleteItemFromCsvList, mrdStrFind, find_eq_some first]
  dsimp only
  rw [mrdStrFind, (find_self_singleton found).mpr plain]
  dsimp only
  rw [start]
  split
  · rename_i empty
    rw [List.length_eq_zero_iff.mp empty]
    rfl
  · rw [List.take_append_of_le_length (Nat.sub_le _ _), List.dropLast_eq_take]

theorem deleteItem_comma (comma : ',' ∈ found) :
    deleteItemFromCsvList freed (some name) (some (front ++ found)) =
      match partBefore name (front ++ found), partAfter name (front ++ found) with
      | none, none => { removed := true, list := some (front ++ found) }
      | some partA, some partB => { removed := true, list := some (partA ++ ',' :: freed partB) }
      | some partA, none => { removed := true, list := some partA }
      | none, some partB => { removed := true, list := some (freed partB) } := by
  rw [deleteItemFromCsvList, mrdStrFind, find_eq_some first]
  dsimp only
  cases behind : mrdStrFind found [','] with
  | none => exact absurd comma ((find_self_singleton found).mp behind)
  | some _ => rfl

theorem deleteItem_removed :
    (deleteItemFromCsvList freed (some name) (some (front ++ found))).removed = true := by
  by_cases comma : ',' ∈ found
  · rw [deleteItem_comma first freed comma]
    cases partBefore name (front ++ found) <;> cases partAfter name (front ++ found) <;> rfl
  · rw [deleteItem_plain first freed comma]

end

theorem commaItems_dropLast_front {front : Str} (fresh : Fresh front) :
    commaItems front.dropLast = commaItems front := by
  obtain rfl | ⟨text, c, rfl⟩ := front.eq_nil_or_concat'
  · rfl
  · rw [List.dropLast_concat]
    exact (commaItems_dropLast fresh).symm

/-- A name that is the whole list has nothing before it. -/
theorem partBefore_self {name : Str} (visible : name.head? ≠ some ' ') : partBefore name name = none := by
  have absent : mrdStrFind name (',' :: name) = none := by
    refine find_eq_none_iff.mpr fun inside => ?_
    have lengths := inside.length_le
    rw [List.length_cons] at lengths
    omega
  have here : FirstAt name [] name :=
    ⟨List.prefix_rfl, fun j short => absurd short (Nat.not_lt_zero j)⟩
  have found : mrdStrFind name name = some name := find_eq_some here
  have comma : getSubStrBefore (',' :: name) name = name := by
    rw [getSubStrBefore, getDelimiter_of_visible (by simp), absent]
  have plain : getSubStrBefore name name = name := by
    rw [getSubStrBefore, getDelimiter_of_visible visible, found]
    exact if_pos (equalsCI_self name)
  rw [partBefore, comma, plain]
  dsimp only
  rw [if_pos (equalsCI_self name), if_pos (equalsCI_self name)]

/-- When what is left does not depend on the freed memory, there is no part behind the name. -/
theorem partAfter_of_freed {name front found : Str} (first : FirstAt name front found)
    (comma : ',' ∈ found) (all : ∀ freed, DeletesItem (some name) (some (front ++ found))
      (deleteItemFromCsvList freed (some name) (some (front ++ found)))) :
    partAfter name (front ++ found) = none := by
  cases after : partAfter name (front ++ found) with
  | none => rfl
  | some partB =>
    exfalso
    have same := ((all fun _ => ['x']).items).trans ((all fun _ => []).items).symm
    rw [deleteItem_comma first _ comma, deleteItem_comma first _ comma, after] at same
    cases before : partBefore name (front ++ found) with
    | none =>
      rw [before] at same
      exact commaItems_concat_ne [] same
    | some partA =>
      rw [before] at same
      apply commaItems_concat_ne (partA ++ [','])
      rw [List.append_assoc]
      exact same

/-- Whatever the freed memory holds, the name is deleted as it should be exactly when it is the last
item and its characters come no earlier. -/
theorem deleteItemFromCsvList_iff (toDelete list : Option Str) :
    (∀ freed, DeletesItem toDelete list (deleteItemFromCsvList freed toDelete list)) ↔
      Deletable toDelete list := by
  constructor
  · rintro all name text found rfl rfl place
    obtain ⟨front, rfl, first⟩ := find_append place
    have mem := deletesItem_removed (all id) (deleteItem_removed first id)
    refine ⟨mem, fun comma => ?_⟩
    obtain ⟨_, _, _, item, _⟩ := commaItems_item mem
    have none := partAfter_of_freed first comma all
    have same := found_of_partAfter first item.nonempty item.visible none
    subst same
    refine ⟨rfl, fun whole => ?_⟩
    have empty : front = [] := List.self_eq_append_left.mp whole
    subst empty
    have items := (all id).items
    rw [deleteItem_comma first id comma, none, List.nil_append, partBefore_self item.visible] at items
    have kept : found ∈ (csvItems (some found)).filter fun item => some item ≠ some found := by
      rw [← items]
      exact mem
    exact of_decide_eq_true (List.mem_filter.mp kept).2 rfl
  · intro deletable freed
    match toDelete, list with
    | none, list => exact deletesItem_null (.inl rfl)
    | some name, none => exact deletesItem_null (.inr rfl)
    | some name, some text =>
      cases place : mrdStrFind text name with
      | none =>
        rw [deleteItemFromCsvList, place]
        exact deletesItem_absent place
      | some found =>
        obtain ⟨mem, ends⟩ := deletable name text found rfl rfl place
        obtain ⟨front, rfl, first⟩ := find_append place
        by_cases comma : ',' ∈ found
        · obtain ⟨rfl, longer⟩ := ends comma
          have last := lastAt_of_first first mem (.inr rfl)
          have later : front ≠ [] := fun empty => longer (by rw [empty]; rfl)
          obtain ⟨partA, before, items⟩ := partBefore_last first last later
          rw [deleteItem_comma first freed comma, before, partAfter_last first last]
          exact deletesItem_last last items fun i impossible => nomatch impossible
        · have last := lastAt_of_first first mem (.inl comma)
          rw [deleteItem_plain first freed comma]
          apply deletesItem_last last (commaItems_dropLast_front last.fresh)
          intro i written
          obtain rfl := Option.some.inj written
          rw [List.length_append]
          omega

/-! ### A name that ends with the deleted one -/

/-- The list has no such item, and what is in it loses its end. -/
theorem deleteItemFromCsvList_chromeos : ¬ ∀ freed,
    DeletesItem (some "os".toList) (some "chromeos".toList)
      (deleteItemFromCsvList freed (some "os".toList) (some "chromeos".toList)) := by
  intro all
  have result : deleteItemFromCsvList id (some "os".toList) (some "chromeos".toList) =
      { removed := true, list := some "chrom".toList, written := some 5 } := by decide +kernel
  have items := (all id).items
  rw [result] at items
  revert items
  decide +kernel

end Meridian.Config
