import Meridian.Config.CsvList

/-!
# Merging lists

The model of `FindCommaDelimited` and `CountListItems` of `lib/str_list.c`, and of
`MergeStringsHelper` and `MergeUniqueItems` of `lib/str_merge.c` over the `SafeStrCat` of
`lib/str_format.c`. Allocations succeed; whether the library's `StrnCatS` takes the size of a
destination is a parameter.
-/

namespace Meridian.Config

open Text

/-! ### The two scanners -/

structure CommaScan where
  startPos : Nat := 0
  endPos : Nat := 0
  elemIndex : Nat := 0
  inQuotes : Bool := false
  hasContent : Bool := false
  found : Bool := false

/-- A character that belongs to an element. -/
def CommaScan.content (s : CommaScan) (curPos : Nat) : CommaScan :=
  { s with
    startPos := if s.hasContent then s.startPos else curPos
    hasContent := true
    endPos := curPos + 1 }

/-- The loop of `FindCommaDelimited`. -/
def commaLoop (index curPos : Nat) (s : CommaScan) : Str → CommaScan
  | [] => s
  | c :: rest =>
    if c = '"' then commaLoop index (curPos + 1) { s.content curPos with inQuotes := !s.inQuotes } rest
    else if c = ',' ∧ !s.inQuotes then
      if s.hasContent then
        if s.elemIndex = index then { s with found := true }
        else commaLoop index (curPos + 1) { s with elemIndex := s.elemIndex + 1, hasContent := false } rest
      else commaLoop index (curPos + 1) s rest
    else if s.inQuotes ∨ c ≠ ' ' then commaLoop index (curPos + 1) (s.content curPos) rest
    else commaLoop index (curPos + 1) s rest

def findCommaDelimited (inString : Option Str) (index : Nat) : Option Str :=
  match inString with
  | none => none
  | some text =>
    let s := commaLoop index 0 {} text
    if s.found ∨ (s.hasContent ∧ s.elemIndex = index) then
      some ((text.drop s.startPos).take (s.endPos - s.startPos))
    else none

/-- The loop of `CountListItems`. -/
def countLoop (count : Nat) (inQuotes hasContent : Bool) : Str → Nat
  | [] => if hasContent then count + 1 else count
  | c :: rest =>
    if c = '"' then countLoop count (!inQuotes) true rest
    else if c = ',' ∧ !inQuotes then
      if hasContent then countLoop (count + 1) inQuotes false rest else countLoop count inQuotes hasContent rest
    else if inQuotes ∨ c ≠ ' ' then countLoop count inQuotes true rest
    else countLoop count inQuotes hasContent rest

def countListItems (inString : Option Str) : Nat :=
  match inString with
  | none => 0
  | some text => if text = [] then 0 else countLoop 0 false false text

/-! ### Merging -/

/-- `SafeStrCat` and `StrnCatS`: the library refuses a size that it does not take, and a destination
without room. -/
def safeStrCat (takes : Nat → Bool) (destSize : Nat) (dest src : Str) : Str :=
  if takes destSize ∧ dest.length + src.length < destSize then dest ++ src else dest

def mergeStringsHelper (takes : Nat → Bool) (first second : Option Str) (addChar : Option Char)
    (uniqueOnly : Bool) : Option Str :=
  match first with
  | none => second
  | some first =>
    let bufSize := first.length + (second.getD []).length + 2
    let newString :=
      if first.length = 0 then []
      else safeStrCat takes bufSize (safeStrCat takes bufSize [] first) addChar.toList
    match second with
    | none => some newString
    | some second =>
      let skipMerge := uniqueOnly && addChar.isSome && (commaItems newString).any (equalsCI · second)
      if !skipMerge then some (safeStrCat takes bufSize newString second)
      else some (if addChar.isSome then newString.take first.length else newString)

def mergeUniqueStrings (takes : Nat → Bool) (first second : Option Str) (addChar : Option Char) : Option Str :=
  mergeStringsHelper takes first second addChar true

/-- The loop of `MergeUniqueItems`, from the index on. -/
def mergeItemsLoop (takes : Nat → Bool) (inString : Option Str) (addChar : Option Char) (i : Nat)
    (mergeTo : Option Str) : Nat → Option Str
  | 0 => mergeTo
  | fuel + 1 =>
    match findCommaDelimited inString i with
    | none => mergeTo
    | some item =>
      mergeItemsLoop takes inString addChar (i + 1) (mergeUniqueStrings takes mergeTo (some item) addChar) fuel

def mergeUniqueItems (takes : Nat → Bool) (mergeTo inString : Option Str) (addChar : Option Char) : Option Str :=
  mergeItemsLoop takes inString addChar 0 mergeTo (countListItems inString + 1)

/-! ### The items that the scanners see -/

/-- The state of the scanner against the element that is read: its place in the text. -/
structure ScanAt (text : Str) (curPos : Nat) (s : CommaScan) (item blanks : Str) : Prop where
  inside : curPos ≤ text.length
  searching : s.found = false
  content : s.hasContent = true ↔ item ≠ []
  noBlanks : item = [] → blanks = []
  place : item ≠ [] → ∃ front, text.take curPos = front ++ item.reverse ++ blanks.reverse ∧
    s.startPos = front.length ∧ s.endPos = s.startPos + item.length

section
variable {text rest item blanks : Str} {curPos : Nat} {s : CommaScan} {c : Char}

theorem take_next (here : text.drop curPos = c :: rest) :
    text.take (curPos + 1) = text.take curPos ++ [c] := by
  rw [List.take_add, here]
  rfl

theorem drop_next (here : text.drop curPos = c :: rest) : text.drop (curPos + 1) = rest := by
  rw [← List.drop_drop, here]
  rfl

theorem ScanAt.element (h : ScanAt text curPos s item blanks) (reading : item ≠ []) :
    (text.drop s.startPos).take (s.endPos - s.startPos) = item.reverse := by
  obtain ⟨front, before, start, finish⟩ := h.place reading
  have whole := List.take_append_drop curPos text
  rw [before] at whole
  rw [← whole, finish, Nat.add_sub_cancel_left, start, List.append_assoc, List.append_assoc, List.drop_left,
    ← List.length_reverse, List.take_left]

theorem here_lt (here : text.drop curPos = c :: rest) : curPos < text.length := by
  by_contra outside
  rw [List.drop_eq_nil_of_le (Nat.le_of_not_lt outside)] at here
  cases here

theorem ScanAt.length (h : ScanAt text curPos s item blanks) : (text.take curPos).length = curPos := by
  rw [List.length_take, Nat.min_eq_left h.inside]

theorem ScanAt.char (h : ScanAt text curPos s item blanks) (here : text.drop curPos = c :: rest)
    (inQuotes : Bool) :
    ScanAt text (curPos + 1) { s.content curPos with inQuotes := inQuotes } (c :: blanks ++ item) [] := by
  have next := take_next here
  refine ⟨here_lt here, h.searching, iff_of_true rfl (List.cons_ne_nil _ _), fun impossible => ?_, fun _ => ?_⟩
  · cases impossible
  by_cases reading : item = []
  · have started : s.hasContent = false := by
      rw [Bool.eq_false_iff]
      exact fun content => h.content.mp content reading
    refine ⟨text.take curPos, ?_, ?_, ?_⟩
    · rw [next, h.noBlanks reading, reading]
      simp
    · simp [CommaScan.content, started, h.length]
    · simp [CommaScan.content, started, h.noBlanks reading, reading]
  · obtain ⟨front, before, start, finish⟩ := h.place reading
    have started : s.hasContent = true := h.content.mpr reading
    have length := congrArg List.length before
    rw [h.length] at length
    refine ⟨front, ?_, ?_, ?_⟩
    · rw [next, before]
      simp
    · simp [CommaScan.content, started, start]
    · simp [CommaScan.content, started] at length ⊢
      omega

theorem ScanAt.skip (h : ScanAt text curPos s item blanks) (between : item = [])
    (here : text.drop curPos = c :: rest) : ScanAt text (curPos + 1) s [] [] :=
  ⟨here_lt here, h.searching, between ▸ h.content, fun _ => rfl, fun impossible => absurd rfl impossible⟩

theorem ScanAt.blank (h : ScanAt text curPos s item blanks) (here : text.drop curPos = ' ' :: rest) :
    ScanAt text (curPos + 1) s item (if item = [] then [] else ' ' :: blanks) := by
  by_cases reading : item = []
  · rw [if_pos reading, reading]
    exact h.skip reading here
  · rw [if_neg reading]
    refine ⟨here_lt here, h.searching, h.content, fun none => absurd none reading, fun _ => ?_⟩
    obtain ⟨front, before, start, finish⟩ := h.place reading
    refine ⟨front, ?_, start, finish⟩
    rw [take_next here, before]
    simp

theorem ScanAt.ended (h : ScanAt text curPos s item blanks) (here : text.drop curPos = c :: rest)
    (elemIndex : Nat) :
    ScanAt text (curPos + 1) { s with elemIndex := elemIndex, hasContent := false } [] [] :=
  ⟨here_lt here, h.searching, iff_of_false Bool.false_ne_true (not_not_intro rfl), fun _ => rfl,
    fun impossible => absurd rfl impossible⟩

/-- From an element on, the loop finds the item with the number. -/
theorem commaLoop_eq {index : Nat} (h : ScanAt text curPos s item blanks) (here : text.drop curPos = rest)
    (before : s.elemIndex ≤ index) :
    (if (commaLoop index curPos s rest).found ∨
        ((commaLoop index curPos s rest).hasContent ∧ (commaLoop index curPos s rest).elemIndex = index) then
      some ((text.drop (commaLoop index curPos s rest).startPos).take
        ((commaLoop index curPos s rest).endPos - (commaLoop index curPos s rest).startPos))
    else none) = (commaItemsFrom item blanks s.inQuotes rest)[index - s.elemIndex]? := by
  induction rest generalizing curPos s item blanks with
  | nil =>
    rw [commaLoop, commaItemsFrom, h.searching]
    by_cases reading : item = []
    · have ended : ¬ s.hasContent = true := fun content => h.content.mp content reading
      simp [reading, ended]
    · have content := h.content.mpr reading
      simp only [Bool.false_eq_true, false_or, content, true_and, if_neg reading, h.element reading]
      split
      · rename_i same
        simp [same]
      · rename_i other
        have later : index - s.elemIndex = (index - s.elemIndex - 1) + 1 := by omega
        rw [later]
        rfl
  | cons c rest ih =>
    have next := drop_next here
    rw [commaLoop, commaItemsFrom]
    by_cases quote : c = '"'
    · rw [if_pos quote, if_pos quote]
      subst quote
      exact ih (h.char here _) next before
    rw [if_neg quote, if_neg quote]
    by_cases comma : c = ',' ∧ (!s.inQuotes) = true
    · rw [if_pos comma, if_pos comma]
      by_cases reading : item = []
      · have ended : ¬ s.hasContent = true := fun content => h.content.mp content reading
        rw [if_neg ended, if_pos reading]
        exact ih (h.skip reading here) next before
      · have content := h.content.mpr reading
        rw [if_pos content, if_neg reading]
        by_cases same : s.elemIndex = index
        · rw [if_pos same, same, Nat.sub_self]
          exact congrArg some (h.element reading)
        · have later : index - s.elemIndex = (index - (s.elemIndex + 1)) + 1 := by omega
          rw [if_neg same, later]
          exact ih (h.ended here (s.elemIndex + 1)) next (Nat.lt_of_le_of_ne before same)
    rw [if_neg comma, if_neg comma]
    by_cases kept : s.inQuotes = true ∨ c ≠ ' '
    · rw [if_pos kept, if_pos kept]
      exact ih (h.char here s.inQuotes) next before
    · rw [if_neg kept, if_neg kept]
      rw [not_or, not_not] at kept
      rw [kept.2] at here
      exact ih (h.blank here) next before

end

theorem findCommaDelimited_eq (inString : Option Str) (index : Nat) :
    findCommaDelimited inString index = (csvItems inString)[index]? := by
  cases inString with
  | none => rfl
  | some text =>
    have start : ScanAt text 0 {} [] [] :=
      ⟨Nat.zero_le _, rfl, iff_of_false Bool.false_ne_true (not_not_intro rfl), fun _ => rfl,
        fun impossible => absurd rfl impossible⟩
    exact commaLoop_eq start rfl (Nat.zero_le index)

theorem countLoop_eq (count : Nat) (item blanks : Str) (inQuotes hasContent : Bool) (text : Str)
    (content : hasContent = true ↔ item ≠ []) :
    countLoop count inQuotes hasContent text = count + (commaItemsFrom item blanks inQuotes text).length := by
  induction text generalizing count item blanks inQuotes hasContent with
  | nil =>
    rw [countLoop, commaItemsFrom]
    by_cases reading : item = []
    · rw [if_neg (fun some => content.mp some reading), if_pos reading]
      rfl
    · rw [if_pos (content.mpr reading), if_neg reading]
      rfl
  | cons c text ih =>
    rw [countLoop, commaItemsFrom]
    have filled (item : Str) (c : Char) : (true = true ↔ c :: item ≠ []) :=
      iff_of_true rfl (List.cons_ne_nil _ _)
    by_cases quote : c = '"'
    · rw [if_pos quote, if_pos quote]
      exact ih _ _ _ _ _ (filled _ _)
    rw [if_neg quote, if_neg quote]
    by_cases comma : c = ',' ∧ (!inQuotes) = true
    · rw [if_pos comma, if_pos comma]
      by_cases reading : item = []
      · rw [if_neg (fun some => content.mp some reading), if_pos reading]
        exact ih _ _ _ _ _ (reading ▸ content)
      · rw [if_pos (content.mpr reading), if_neg reading, List.length_cons,
          ih _ [] [] _ _ (iff_of_false Bool.false_ne_true (not_not_intro rfl))]
        omega
    rw [if_neg comma, if_neg comma]
    by_cases kept : inQuotes = true ∨ c ≠ ' '
    · rw [if_pos kept, if_pos kept]
      exact ih _ _ _ _ _ (filled _ _)
    · rw [if_neg kept, if_neg kept]
      exact ih _ _ _ _ _ content

theorem countListItems_eq (inString : Option Str) : countListItems inString = (csvItems inString).length := by
  cases inString with
  | none => rfl
  | some text =>
    rw [countListItems]
    split
    · rename_i empty
      rw [empty]
      rfl
    · have between := iff_of_false Bool.false_ne_true (not_not_intro (rfl : ([] : Str) = []))
      rw [countLoop_eq 0 [] [] false false text between, Nat.zero_add]
      rfl

/-- The two scanners agree on how many items there are. -/
theorem findCommaDelimited_isSome (inString : Option Str) (index : Nat) :
    (findCommaDelimited inString index).isSome = true ↔ index < countListItems inString := by
  rw [findCommaDelimited_eq, countListItems_eq, isSome_getElem?]

/-! ### Items as lists of their own -/

/-- Every quote that is opened is closed. -/
def Balanced (text : Str) : Prop := text.count '"' % 2 = 0

instance (text : Str) : Decidable (Balanced text) := inferInstanceAs (Decidable (_ = _))

/-- A list that consists of the item alone. -/
structure Single (item : Str) : Prop where
  alone : commaItems item = [item]
  balanced : Balanced item
  nonempty : item ≠ []

theorem scanItems_inQuotes (text : Str) : (scanItems text).inQuotes = true ↔ text.count '"' % 2 = 1 := by
  induction text using List.reverseRecOn with
  | nil => exact iff_of_false Bool.false_ne_true (by decide)
  | append_singleton text c ih =>
    rw [scanItems_concat, ItemScan.step, List.count_append, List.count_singleton]
    by_cases quote : c = '"'
    · rw [if_pos quote, quote]
      simp only [Bool.not_eq_true', beq_self_eq_true, ↓reduceIte]
      rw [← Bool.not_eq_true, ih]
      omega
    · have other : (c == '"') = false := beq_eq_false_iff_ne.mpr quote
      rw [if_neg quote, other]
      simp only [Bool.false_eq_true, ↓reduceIte, Nat.add_zero]
      rw [← ih]
      split
      · split
        · rfl
        · rfl
      · split
        · rfl
        · rfl

theorem balanced_iff (text : Str) : Balanced text ↔ (scanItems text).inQuotes = false := by
  rw [← Bool.not_eq_true, scanItems_inQuotes, Balanced]
  omega

/-- Behind a balanced list and a comma, a list is read as if it stood alone. -/
theorem commaItems_join {front : Str} (balanced : Balanced front) (back : Str) :
    commaItems (front ++ ',' :: back) = commaItems front ++ commaItems back := by
  have plain := (balanced_iff front).mp balanced
  have ended : (scanItems front).step ',' = { items := (scanItems front).found } := by
    rw [ItemScan.step, if_neg (by decide), if_pos ⟨rfl, by rw [plain]; rfl⟩, ItemScan.found]
    split
    · rename_i between
      rw [← plain, ← between]
    · rw [← plain]
  have split : scanItems (front ++ ',' :: back) = back.foldl ItemScan.step ((scanItems front).step ',') := by
    rw [scanItems, List.foldl_append]
    rfl
  rw [commaItems_eq_found, split, ended, ItemScan.found_foldl, ← commaItems_eq_found]
  rfl

theorem balanced_join {front back : Str} (opened : Balanced front) (closed : Balanced back) :
    Balanced (front ++ ',' :: back) := by
  unfold Balanced at *
  rw [List.count_append, List.count_cons_of_ne (by decide)]
  omega

theorem commaItems_comma {front : Str} (balanced : Balanced front) :
    commaItems (front ++ [',']) = commaItems front := by
  rw [commaItems_join balanced]
  exact List.append_nil _

/-- What the scan keeps of the element that is read: read alone, it leaves the scanner there. -/
structure Resumes (s : ItemScan) : Prop where
  items : ∀ item ∈ s.items, Single item
  whole : scanItems (s.item.reverse ++ s.blanks.reverse) = { s with items := [] }
  trimmed : scanItems s.item.reverse = { s with items := [], blanks := [] }

theorem Resumes.single {s : ItemScan} (h : Resumes s) (reading : s.item ≠ []) (plain : s.inQuotes = false) :
    Single s.item.reverse := by
  refine ⟨?_, ?_, mt List.reverse_eq_nil_iff.mp reading⟩
  · rw [commaItems_eq_found, h.trimmed, ItemScan.found, if_neg reading]
    rfl
  · rw [balanced_iff, h.trimmed]
    exact plain

/-- A character that belongs to the element. -/
theorem Resumes.char {s : ItemScan} (h : Resumes s) {c : Char} {inQuotes : Bool}
    (step : ({ s with items := [] } : ItemScan).step c =
      { items := [], item := c :: s.blanks ++ s.item, blanks := [], inQuotes := inQuotes }) :
    Resumes { s with item := c :: s.blanks ++ s.item, blanks := [], inQuotes := inQuotes } := by
  have read : scanItems (c :: s.blanks ++ s.item).reverse =
      { items := [], item := c :: s.blanks ++ s.item, blanks := [], inQuotes := inQuotes } := by
    rw [← step, ← h.whole, ← scanItems_concat]
    simp
  refine ⟨h.items, ?_, read⟩
  rw [List.reverse_nil, List.append_nil]
  exact read

/-- Between two elements. -/
theorem resumes_between {items : List Str} (singles : ∀ item ∈ items, Single item) :
    Resumes { items := items } := ⟨singles, rfl, rfl⟩

theorem resumes_step {s : ItemScan} (h : Resumes s) (c : Char) : Resumes (s.step c) := by
  rw [ItemScan.step]
  by_cases quote : c = '"'
  · rw [if_pos quote]
    subst quote
    exact h.char rfl
  rw [if_neg quote]
  by_cases comma : c = ',' ∧ (!s.inQuotes) = true
  · rw [if_pos comma]
    have plain : s.inQuotes = false := by
      rw [← Bool.not_eq_true']
      exact comma.2
    split
    · rename_i between
      rw [between, plain]
      exact resumes_between h.items
    · rename_i reading
      rw [plain]
      refine resumes_between fun item mem => ?_
      obtain before | last := List.mem_append.mp mem
      · exact h.items item before
      · rw [List.mem_singleton.mp last]
        exact h.single reading plain
  rw [if_neg comma]
  by_cases kept : s.inQuotes = true ∨ c ≠ ' '
  · rw [if_pos kept]
    refine h.char ?_
    rw [ItemScan.step, if_neg quote, if_neg comma, if_pos kept]
  · rw [if_neg kept]
    have plain : s.inQuotes = false := Bool.not_eq_true _ ▸ (not_or.mp kept).1
    by_cases between : s.item = []
    · rw [if_pos between, between, plain]
      exact resumes_between h.items
    · rw [if_neg between]
      refine ⟨h.items, ?_, h.trimmed⟩
      have blank : c = ' ' := not_not.mp (not_or.mp kept).2
      rw [List.reverse_cons, ← List.append_assoc, scanItems_concat, h.whole, ItemScan.step, if_neg (by decide),
        if_neg (by simp), if_neg (by simp [plain]), if_neg between]

theorem resumes_scanItems (text : Str) : Resumes (scanItems text) := by
  induction text using List.reverseRecOn with
  | nil => exact resumes_between fun item mem => absurd mem List.not_mem_nil
  | append_singleton text c ih =>
    rw [scanItems_concat]
    exact resumes_step ih c

theorem commaItems_single {text : Str} (balanced : Balanced text) : ∀ item ∈ commaItems text, Single item := by
  have h := resumes_scanItems text
  rw [commaItems_eq_found, ItemScan.found]
  split
  · exact h.items
  · rename_i reading
    intro item mem
    obtain before | last := List.mem_append.mp mem
    · exact h.items item before
    · rw [List.mem_singleton.mp last]
      exact h.single reading ((balanced_iff text).mp balanced)

/-! ### One merge -/

/-- The items that equal no earlier item, up to the case of their letters. -/
def newItems (earlier : List Str) : List Str → List Str
  | [] => []
  | item :: rest =>
    if earlier.any (equalsCI · item) then newItems earlier rest else item :: newItems (earlier ++ [item]) rest

/-- The library takes the size that the merge of the item needs. -/
def MergeTaken (takes : Nat → Bool) (list : Option Str) (item : Str) : Prop :=
  ∀ first, list = some first → takes (first.length + item.length + 2) = true

instance (takes : Nat → Bool) (list : Option Str) (item : Str) : Decidable (MergeTaken takes list item) :=
  match list with
  | none => isTrue fun _ impossible => nomatch impossible
  | some first => decidable_of_iff (takes (first.length + item.length + 2) = true)
    ⟨fun taken _ same => Option.some.inj same ▸ taken, fun taken => taken first rfl⟩

theorem safeStrCat_room {takes : Nat → Bool} {destSize : Nat} {dest src : Str} (taken : takes destSize = true)
    (room : dest.length + src.length < destSize) : safeStrCat takes destSize dest src = dest ++ src :=
  if_pos ⟨taken, room⟩

theorem safeStrCat_refused {takes : Nat → Bool} {destSize : Nat} {dest src : Str}
    (refused : takes destSize = false) : safeStrCat takes destSize dest src = dest := by
  refine if_neg fun both => ?_
  rw [refused] at both
  exact Bool.false_ne_true both.1

variable {takes : Nat → Bool} {list : Option Str} {item : Str}

theorem mergeUniqueStrings_empty :
    mergeUniqueStrings takes (some []) (some item) (some ',') =
      some (safeStrCat takes (item.length + 2) [] item) := by
  have none : commaItems [] = [] := rfl
  simp [mergeUniqueStrings, mergeStringsHelper, none]

/-- A list with something in it: the comma is put behind it before the items are compared. -/
theorem mergeUniqueStrings_some {first newString : Str} (nonempty : first ≠ [])
    (built : safeStrCat takes (first.length + item.length + 2)
      (safeStrCat takes (first.length + item.length + 2) [] first) [','] = newString) :
    mergeUniqueStrings takes (some first) (some item) (some ',') =
      if (commaItems newString).any (equalsCI · item) then some (newString.take first.length)
      else some (safeStrCat takes (first.length + item.length + 2) newString item) := by
  have length : first.length ≠ 0 := mt List.length_eq_zero_iff.mp nonempty
  simp only [mergeUniqueStrings, mergeStringsHelper, Option.getD_some, Option.toList_some, Option.isSome_some,
    Bool.true_and, if_neg length, built, if_true]
  cases (commaItems newString).any (equalsCI · item)
  · rfl
  · rfl

theorem merged_list (single : Single item) (balanced : Balanced (list.getD []))
    (taken : MergeTaken takes list item) :
    csvItems (mergeUniqueStrings takes list (some item) (some ',')) =
        csvItems list ++ newItems (csvItems list) [item] ∧
      Balanced ((mergeUniqueStrings takes list (some item) (some ',')).getD []) := by
  cases list with
  | none => exact ⟨single.alone, single.balanced⟩
  | some first =>
    have size := taken first rfl
    by_cases empty : first = []
    · subst empty
      rw [List.length_nil, Nat.zero_add] at size
      rw [mergeUniqueStrings_empty, safeStrCat_room size (by simp)]
      exact ⟨single.alone, single.balanced⟩
    have opened : Balanced first := balanced
    have copied := @safeStrCat_room takes _ [] first size (by rw [List.length_nil]; omega)
    have comma := @safeStrCat_room takes _ first [','] size (by rw [List.length_singleton]; omega)
    have cat := @safeStrCat_room takes _ (first ++ [',']) item size
      (by rw [List.length_append, List.length_singleton]; omega)
    have items : csvItems (some first) = commaItems first := rfl
    rw [List.nil_append] at copied
    rw [mergeUniqueStrings_some empty (by rw [copied, comma]), cat, commaItems_comma opened, items, newItems]
    split
    · rw [List.take_left, newItems, List.append_nil]
      exact ⟨rfl, balanced⟩
    · have joined : first ++ [','] ++ item = first ++ ',' :: item := List.append_assoc ..
      rw [newItems, joined]
      refine ⟨?_, ?_⟩
      · rw [csvItems, Option.getD_some, commaItems_join opened, single.alone]
      · exact balanced_join opened single.balanced

theorem merged_refused {first : Str} (refused : takes (first.length + item.length + 2) = false) :
    mergeUniqueStrings takes (some first) (some item) (some ',') = some [] := by
  by_cases empty : first = []
  · subst empty
    rw [List.length_nil, Nat.zero_add] at refused
    rw [mergeUniqueStrings_empty, safeStrCat_refused refused]
  · rw [mergeUniqueStrings_some empty rfl, safeStrCat_refused refused, safeStrCat_refused refused,
      safeStrCat_refused refused, List.take_nil, ite_self]

/-! ### All merges -/

/-- The merges of the items, one behind the other. -/
def mergedAll (takes : Nat → Bool) (list : Option Str) (items : List Str) : Option Str :=
  items.foldl (fun list item => mergeUniqueStrings takes list (some item) (some ',')) list

theorem mergeItemsLoop_eq (takes : Nat → Bool) (inString list : Option Str) (i fuel : Nat)
    (enough : (csvItems inString).length - i < fuel) :
    mergeItemsLoop takes inString (some ',') i list fuel = mergedAll takes list ((csvItems inString).drop i) := by
  induction fuel generalizing i list with
  | zero => exact absurd enough (Nat.not_lt_zero _)
  | succ fuel ih =>
    rw [mergeItemsLoop, findCommaDelimited_eq]
    cases found : (csvItems inString)[i]? with
    | none =>
      rw [List.drop_eq_nil_of_le (List.getElem?_eq_none_iff.mp found)]
      rfl
    | some item =>
      obtain ⟨inside, same⟩ := List.getElem?_eq_some_iff.mp found
      rw [List.drop_eq_getElem_cons inside, same]
      exact ih _ (i + 1) (by omega)

theorem mergeUniqueItems_eq (takes : Nat → Bool) (mergeTo inString : Option Str) :
    mergeUniqueItems takes mergeTo inString (some ',') = mergedAll takes mergeTo (csvItems inString) := by
  rw [mergeUniqueItems, countListItems_eq, mergeItemsLoop_eq _ _ _ _ _ (by omega), List.drop_zero]

/-- The library takes every size on the way. -/
def MergesTaken (takes : Nat → Bool) : Option Str → List Str → Prop
  | _, [] => True
  | list, item :: rest =>
    MergeTaken takes list item ∧ MergesTaken takes (mergeUniqueStrings takes list (some item) (some ',')) rest

instance decidableMergesTaken (takes : Nat → Bool) :
    (list : Option Str) → (items : List Str) → Decidable (MergesTaken takes list items)
  | _, [] => isTrue trivial
  | list, item :: rest => @instDecidableAnd _ _ (inferInstanceAs (Decidable (MergeTaken takes list item)))
    (decidableMergesTaken takes _ rest)

theorem newItems_cons (earlier : List Str) (item : Str) (rest : List Str) :
    newItems earlier (item :: rest) =
      newItems earlier [item] ++ newItems (earlier ++ newItems earlier [item]) rest := by
  rw [newItems, newItems]
  split
  · rw [newItems, List.append_nil]
    rfl
  · rfl

/-- A run whose sizes are all taken ends with the items of the list and the new ones. -/
theorem merged_run {items : List Str} (singles : ∀ item ∈ items, Single item)
    (balanced : Balanced (list.getD [])) (taken : MergesTaken takes list items) :
    csvItems (mergedAll takes list items) = csvItems list ++ newItems (csvItems list) items := by
  induction items generalizing list with
  | nil => exact (List.append_nil _).symm
  | cons item rest ih =>
    obtain ⟨merged, kept⟩ := merged_list (singles item List.mem_cons_self) balanced taken.1
    have later := ih (fun item mem => singles item (List.mem_cons_of_mem _ mem)) kept taken.2
    rw [newItems_cons, ← List.append_assoc, ← merged]
    exact later

theorem mergedAll_append (list : Option Str) (front back : List Str) :
    mergedAll takes list (front ++ back) = mergedAll takes (mergedAll takes list front) back := List.foldl_append

theorem mergesTaken_append (list : Option Str) (front back : List Str) :
    MergesTaken takes list (front ++ back) ↔
      MergesTaken takes list front ∧ MergesTaken takes (mergedAll takes list front) back := by
  induction front generalizing list with
  | nil => exact (and_iff_right trivial).symm
  | cons item front ih =>
    rw [List.cons_append, MergesTaken, MergesTaken, ih, and_assoc]
    rfl

/-- The last merge whose size is refused. -/
theorem exists_last_refused {items : List Str} (refused : ¬ MergesTaken takes list items) :
    ∃ front item rest, items = front ++ item :: rest ∧
      ¬ MergeTaken takes (mergedAll takes list front) item ∧
      MergesTaken takes (mergedAll takes list (front ++ [item])) rest := by
  induction items using List.reverseRecOn with
  | nil => exact absurd trivial refused
  | append_singleton items last ih =>
    by_cases here : MergeTaken takes (mergedAll takes list items) last
    · have before : ¬ MergesTaken takes list items := by
        intro all
        exact refused ((mergesTaken_append _ _ _).mpr ⟨all, here, trivial⟩)
      obtain ⟨front, item, rest, rfl, lost, taken⟩ := ih before
      refine ⟨front, item, rest ++ [last], by simp, lost, ?_⟩
      rw [mergesTaken_append, ← mergedAll_append, List.append_assoc]
      exact ⟨taken, here, trivial⟩
    · exact ⟨items, last, [], rfl, here, trivial⟩

/-- A refused merge leaves the empty list behind. -/
theorem merged_lost {front : List Str} (lost : ¬ MergeTaken takes (mergedAll takes list front) item) :
    mergedAll takes list (front ++ [item]) = some [] := by
  unfold MergeTaken at lost
  push Not at lost
  obtain ⟨first, here, refused⟩ := lost
  rw [mergedAll_append, here]
  exact merged_refused (Bool.not_eq_true _ ▸ refused)

/-- The items of the second list that are new come behind those of the first, unless the library
refuses a size: there the list is lost, and has to be named again by the items behind the place. -/
theorem mergeUniqueItems_iff (takes : Nat → Bool) (mergeTo inString : Option Str)
    (balanced : Balanced (mergeTo.getD [])) (balanced' : Balanced (inString.getD [])) :
    (∀ list index, (findCommaDelimited list index).isSome = true ↔ index < countListItems list) ∧
      (csvItems (mergeUniqueItems takes mergeTo inString (some ',')) =
          csvItems mergeTo ++ newItems (csvItems mergeTo) (csvItems inString) ↔
        MergesTaken takes mergeTo (csvItems inString) ∨
          ∃ front item rest, csvItems inString = front ++ item :: rest ∧
            ¬ MergeTaken takes (mergedAll takes mergeTo front) item ∧ MergesTaken takes (some []) rest ∧
              newItems [] rest = csvItems mergeTo ++ newItems (csvItems mergeTo) (csvItems inString)) := by
  refine ⟨findCommaDelimited_isSome, ?_⟩
  have singles : ∀ item ∈ csvItems inString, Single item := commaItems_single balanced'
  have restored {front rest : List Str} {item : Str} (split : csvItems inString = front ++ item :: rest)
      (lost : ¬ MergeTaken takes (mergedAll takes mergeTo front) item)
      (taken : MergesTaken takes (some []) rest) :
      csvItems (mergeUniqueItems takes mergeTo inString (some ',')) = newItems [] rest := by
    have whole : csvItems inString = (front ++ [item]) ++ rest := by
      rw [split, List.append_assoc]
      rfl
    rw [mergeUniqueItems_eq, whole, mergedAll_append, merged_lost lost]
    refine merged_run (fun item mem => singles item ?_) rfl taken
    rw [whole]
    exact List.mem_append_right _ mem
  constructor
  · intro right
    by_cases taken : MergesTaken takes mergeTo (csvItems inString)
    · exact .inl taken
    · obtain ⟨front, item, rest, split, lost, later⟩ := exists_last_refused taken
      rw [merged_lost lost] at later
      exact .inr ⟨front, item, rest, split, lost, later, (restored split lost later).symm.trans right⟩
  · rintro (taken | ⟨front, item, rest, split, lost, taken, again⟩)
    · rw [mergeUniqueItems_eq]
      exact merged_run singles balanced taken
    · exact (restored split lost taken).trans again

/-- The library takes sizes up to a million characters. -/
def libraryTakes (size : Nat) : Bool := size ≤ 1000000

theorem mergeUniqueItems_case :
    csvItems (mergeUniqueItems libraryTakes (some "a, \"b,c\" ".toList) (some ",A,d,,D".toList) (some ',')) =
      ["a".toList, "\"b,c\"".toList, "d".toList] := by
  have merged := (mergeUniqueItems_iff libraryTakes (some "a, \"b,c\" ".toList) (some ",A,d,,D".toList) (by decide)
    (by decide)).2.mpr (.inl (by decide))
  rw [merged]
  decide

theorem newItems_nonempty (earlier : List Str) (item : Str) : earlier ++ newItems earlier [item] ≠ [] := by
  cases earlier with
  | nil => exact List.cons_ne_nil _ _
  | cons first earlier => exact List.cons_ne_nil _ _

theorem mergeUniqueItems_long {n : Nat} (long : 1000000 ≤ n) :
    Balanced (List.replicate n 'a') ∧ Balanced ['b'] ∧
      csvItems (mergeUniqueItems libraryTakes (some (List.replicate n 'a')) (some ['b']) (some ',')) ≠
        csvItems (some (List.replicate n 'a')) ++
          newItems (csvItems (some (List.replicate n 'a'))) (csvItems (some ['b'])) := by
  have item : csvItems (some ['b']) = [['b']] := rfl
  have refused : libraryTakes ((List.replicate n 'a').length + ['b'].length + 2) = false := by
    rw [List.length_replicate]
    exact decide_eq_false (by simp; omega)
  refine ⟨?_, rfl, ?_⟩
  · rw [Balanced, List.count_replicate]
    rfl
  · rw [mergeUniqueItems_eq, item, mergedAll, List.foldl_cons, List.foldl_nil, merged_refused refused]
    exact (newItems_nonempty _ _).symm

theorem mergeUniqueItems_million :
    Balanced (List.replicate 1000000 'a') ∧ Balanced ['b'] ∧
      csvItems (mergeUniqueItems libraryTakes (some (List.replicate 1000000 'a')) (some ['b']) (some ',')) ≠
        csvItems (some (List.replicate 1000000 'a')) ++
          newItems (csvItems (some (List.replicate 1000000 'a'))) (csvItems (some ['b'])) :=
  mergeUniqueItems_long (Nat.le_refl _)

end Meridian.Config
