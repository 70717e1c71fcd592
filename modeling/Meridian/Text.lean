import Meridian.Lib.Search

/-!
# Strings and paths

The model of `MrdStrEqualsCI`, `MrdStrIncludesCI` and `MrdStrFind` of `lib/str_compare.c`,
`GetSubStrAfter` and `GetSubStrBefore` of `lib/str_format.c`, `IsListItemSubstringIn` and
`FindCommaDelimited` of `lib/str_list.c`, `MergeStrings` of `lib/str_merge.c`,
`CleanUpPathNameSlashes` of `lib/lib.c`, and `Basename`, `FindPath`, `StripSetExtension` and the
wildcard match of `storage/file_io.c`. A string is its characters before the terminating null.
-/

namespace Meridian.Text

abbrev Str := List Char

def lowerChar (c : Char) : Char :=
  if 'A' ≤ c ∧ c ≤ 'Z' then Char.ofNat (c.toNat + 32) else c

theorem toNat_lowerChar (c : Char) :
    (lowerChar c).toNat = if 65 ≤ c.toNat ∧ c.toNat ≤ 90 then c.toNat + 32 else c.toNat := by
  have upper : ('A' ≤ c ∧ c ≤ 'Z') ↔ (65 ≤ c.toNat ∧ c.toNat ≤ 90) := Iff.rfl
  simp only [lowerChar, upper]
  split
  · rw [Char.ofNat, dif_pos (.inl (by omega))]
    rfl
  · rfl

/-- The loop of `MrdStrEqualsCI`. -/
def equalsCI : Str → Str → Bool
  | c₁ :: s₁, c₂ :: s₂ => if lowerChar c₁ ≠ lowerChar c₂ then false else equalsCI s₁ s₂
  | [], [] => true
  | _, _ => false

def mrdStrEqualsCI : Option Str → Option Str → Bool
  | some s₁, some s₂ => equalsCI s₁ s₂
  | _, _ => false

theorem equalsCI_iff (s₁ s₂ : Str) :
    equalsCI s₁ s₂ = true ↔ s₁.map lowerChar = s₂.map lowerChar := by
  induction s₁ generalizing s₂ with
  | nil =>
    cases s₂ with
    | nil => exact ⟨fun _ => rfl, fun _ => rfl⟩
    | cons c₂ s₂ =>
      constructor
      · intro impossible
        cases impossible
      · intro impossible
        cases impossible
  | cons c₁ s₁ ih =>
    cases s₂ with
    | nil =>
      constructor
      · intro impossible
        cases impossible
      · intro impossible
        cases impossible
    | cons c₂ s₂ =>
      rw [equalsCI, List.map_cons, List.map_cons, List.cons.injEq]
      by_cases same : lowerChar c₁ = lowerChar c₂
      · rw [if_neg (not_not.mpr same), ih, and_iff_right same]
      · rw [if_pos same]
        constructor
        · intro impossible
          cases impossible
        · intro both
          exact absurd both.1 same

theorem equalsCI_self (s : Str) : equalsCI s s = true := (equalsCI_iff s s).mpr rfl

theorem equalsCI_length {s₁ s₂ : Str} (h : equalsCI s₁ s₂ = true) : s₁.length = s₂.length := by
  have lengths := congrArg List.length ((equalsCI_iff s₁ s₂).mp h)
  rwa [List.length_map, List.length_map] at lengths

/-- The inner loop of `MrdStrIncludesCI`. -/
def startsCI : Str → Str → Bool
  | _, [] => true
  | [], _ => false
  | b :: big, c :: small => lowerChar c = lowerChar b && startsCI big small

def mrdStrIncludesCI (big small : Str) : Bool :=
  if big = [] ∧ small = [] then true
  else if big = [] ∨ small = [] then false
  else big.tails.any (startsCI · small)

/-- `IsListItemSubstringIn`, over the items of the list. -/
def isListItemSubstringIn (big : Str) (items : List Str) : Bool :=
  items.any fun item => item.length > 0 && item.length ≤ big.length && mrdStrIncludesCI big item

/-- `MrdStrFind`: what is left of the string from the first occurrence on. -/
def mrdStrFind (string charSet : Str) : Option Str := Lib.Search.find charSet string

def defaultStringDelim : Str := " @+@ ".toList

def initialStringDelim : Str := " @@ ".toList

def getDelimiter (inputDelimiter string : Str) : Str :=
  if !equalsCI inputDelimiter defaultStringDelim then inputDelimiter
  else if (mrdStrFind string initialStringDelim).isSome then initialStringDelim
  else defaultStringDelim

theorem lowerChar_blank {c : Char} (h : lowerChar c = ' ') : c = ' ' := by
  have blank : (' ' : Char).toNat = 32 := rfl
  rw [← Char.toNat_inj, toNat_lowerChar, blank] at h
  rw [← Char.toNat_inj, blank]
  split at h
  · omega
  · exact h

theorem getDelimiter_of_visible {delimiter : Str} (visible : delimiter.head? ≠ some ' ') (string : Str) :
    getDelimiter delimiter string = delimiter := by
  rw [getDelimiter, if_pos]
  rw [Bool.not_eq_true', Bool.eq_false_iff]
  intro same
  cases delimiter with
  | nil => cases same
  | cons c delimiter =>
    have heads := (List.cons.inj ((equalsCI_iff _ _).mp same)).1
    exact visible (congrArg some (lowerChar_blank heads))

def getSubStrAfter (inputDelimiter string : Str) : Str :=
  let delimiter := getDelimiter inputDelimiter string
  match mrdStrFind string delimiter with
  | none => string
  | some found => if found.drop delimiter.length = [] then string else found.drop delimiter.length

def getSubStrBefore (inputDelimiter string : Str) : Str :=
  match mrdStrFind string (getDelimiter inputDelimiter string) with
  | none => string
  | some found => if equalsCI found string then string else string.take (string.length - found.length)

/-- The items that `FindCommaDelimited` finds, from the item so far (last character first) and the
blanks behind it. -/
def commaItemsFrom (item : Str) (blanks : Str) (inQuotes : Bool) : Str → List Str
  | [] => if item = [] then [] else [item.reverse]
  | c :: rest =>
    if c = '"' then commaItemsFrom ('"' :: blanks ++ item) [] (!inQuotes) rest
    else if c = ',' ∧ !inQuotes then
      if item = [] then commaItemsFrom [] [] inQuotes rest
      else item.reverse :: commaItemsFrom [] [] inQuotes rest
    else if inQuotes ∨ c ≠ ' ' then commaItemsFrom (c :: blanks ++ item) [] inQuotes rest
    else commaItemsFrom item (if item = [] then [] else ' ' :: blanks) inQuotes rest

/-- The items of a comma separated list, in order. -/
def commaItems (text : Str) : List Str := commaItemsFrom [] [] false text

def isSlash (c : Char) : Bool := c = '/' || c = '\\'

/-- The loop of `CleanUpPathNameSlashes`, with the characters written so far, last first. A slash is
passed over at the start and after a backslash that was written: the inner loop. -/
def cleanLoop (out : Str) : Str → Str
  | [] => out
  | c :: rest =>
    if isSlash c then
      if out = [] ∨ out.head? = some '\\' then cleanLoop out rest else cleanLoop ('\\' :: out) rest
    else cleanLoop (c :: out) rest

def cleanUpPathNameSlashes (path : Str) : Str :=
  if path = [] then path
  else
    let out := cleanLoop [] path
    let out := if out.head? = some '\\' then out.tail else out
    if out = [] then ['\\'] else out.reverse

/-- What two paths share when they name one file for the program. -/
def pathKey (path : Str) : Str := (cleanUpPathNameSlashes path).map lowerChar

/-- `MergeStrings`; `none` stands for a null pointer, and no `addChar` for a zero one. -/
def mergeStrings (first : Option Str) (second : Str) (addChar : Option Char) : Str :=
  match first with
  | none => second
  | some [] => second
  | some first => first ++ addChar.toList ++ second

def basename (path : Str) : Str := (path.reverse.takeWhile (!isSlash ·)).reverse

/-- `FindPath`: the part before the last backslash. -/
def findPath (path : Str) : Str := ((path.reverse.dropWhile (· ≠ '\\')).drop 1).reverse

def upperChar (c : Char) : Char :=
  if 'a' ≤ c ∧ c ≤ 'z' then Char.ofNat (c.toNat - 32) else c

/-- `MeridianWildcardMatch`. -/
def wildcardMatch : Str → Str → Bool
  | string, [] => string.isEmpty
  | [], p :: pattern => if p = '*' then wildcardMatch [] pattern else false
  | s :: string, p :: pattern =>
    if p = '*' then wildcardMatch (s :: string) pattern || wildcardMatch string (p :: pattern)
    else if p = '?' then wildcardMatch string pattern
    else upperChar s = upperChar p && wildcardMatch string pattern
termination_by string pattern => string.length + pattern.length

theorem toNat_upperChar (c : Char) :
    (upperChar c).toNat = if 97 ≤ c.toNat ∧ c.toNat ≤ 122 then c.toNat - 32 else c.toNat := by
  have lower : ('a' ≤ c ∧ c ≤ 'z') ↔ (97 ≤ c.toNat ∧ c.toNat ≤ 122) := Iff.rfl
  simp only [upperChar, lower]
  split
  · rw [Char.ofNat, dif_pos (.inl (by omega))]
    rfl
  · rfl

/-- Folding to capitals tells the same characters apart as folding to small letters. -/
theorem upperChar_eq_iff (c d : Char) : upperChar c = upperChar d ↔ lowerChar c = lowerChar d := by
  rw [← Char.toNat_inj, ← Char.toNat_inj, toNat_upperChar, toNat_upperChar, toNat_lowerChar, toNat_lowerChar]
  repeat' split
  all_goals omega

/-- `StripSetExtension`, for an extension that starts with a dot. -/
def stripSetExtension (extension fileName : Str) : Str :=
  if extension.length ≤ fileName.length ∧
      equalsCI (fileName.drop (fileName.length - extension.length)) extension then
    fileName.take (fileName.length - extension.length)
  else fileName

/-! ### File names in paths -/

def IsFileName (name : Str) : Prop := name ≠ [] ∧ ∀ c ∈ name, isSlash c = false

instance (name : Str) : Decidable (IsFileName name) :=
  @instDecidableAnd _ _ inferInstance (List.decidableBAll (fun c => isSlash c = false) name)

/-- The path is the name, or the name behind a slash. -/
def EndsIn (name path : Str) : Prop :=
  ∃ front, path = front ++ name ∧ (front = [] ∨ ∃ dir slash, front = dir ++ [slash] ∧
    isSlash slash = true)

theorem cleanLoop_append (out front rest : Str) :
    cleanLoop out (front ++ rest) = cleanLoop (cleanLoop out front) rest := by
  induction front generalizing out with
  | nil => rfl
  | cons c front ih =>
    rw [List.cons_append, cleanLoop, cleanLoop]
    split
    · split
      · exact ih out
      · exact ih ('\\' :: out)
    · exact ih (c :: out)

theorem cleanLoop_name (out name : Str) (plain : ∀ c ∈ name, isSlash c = false) :
    cleanLoop out name = name.reverse ++ out := by
  induction name generalizing out with
  | nil => rfl
  | cons c name ih =>
    have here := plain c List.mem_cons_self
    rw [cleanLoop, here, if_neg Bool.false_ne_true,
      ih (c :: out) fun d mem => plain d (List.mem_cons_of_mem c mem), List.reverse_cons,
      List.append_assoc]
    rfl

theorem cleanLoop_slash {out : Str} {slash : Char} (h : isSlash slash = true) :
    cleanLoop out [slash] = [] ∨ ∃ rest, cleanLoop out [slash] = '\\' :: rest := by
  rw [cleanLoop, h, if_pos rfl]
  split
  · rename_i skipped
    obtain rfl | head := skipped
    · exact .inl rfl
    · obtain ⟨rest, same⟩ := List.head?_eq_some_iff.mp head
      exact .inr ⟨rest, same⟩
  · exact .inr ⟨out, rfl⟩

theorem EndsIn.clean {name path : Str} (file : IsFileName name) (h : EndsIn name path) :
    EndsIn name (cleanUpPathNameSlashes path) := by
  obtain ⟨front, rfl, ends⟩ := h
  obtain ⟨some, plain⟩ := file
  obtain ⟨c, rest, reversed⟩ := List.exists_cons_of_ne_nil
    (show name.reverse ≠ [] from fun none => some (List.reverse_eq_nil_iff.mp none))
  have last : isSlash c = false := by
    apply plain
    rw [← List.mem_reverse, reversed]
    exact List.mem_cons_self
  have notSlash : c ≠ '\\' := by
    rintro rfl
    cases last
  have before : cleanLoop [] front = [] ∨ ∃ dir, cleanLoop [] front = '\\' :: dir := by
    obtain rfl | ⟨dir, slash, rfl, separator⟩ := ends
    · exact .inl rfl
    · rw [cleanLoop_append]
      exact cleanLoop_slash separator
  have whole : cleanLoop [] (front ++ name) = name.reverse ++ cleanLoop [] front := by
    rw [cleanLoop_append, cleanLoop_name _ _ plain]
  have nonempty : front ++ name ≠ [] := fun none => some (List.append_eq_nil_iff.mp none).2
  have kept : (name.reverse ++ cleanLoop [] front).head? ≠ Option.some '\\' := by
    rw [reversed, List.cons_append, List.head?_cons]
    exact fun same => notSlash (Option.some.inj same)
  have cleaned : cleanUpPathNameSlashes (front ++ name) = (cleanLoop [] front).reverse ++ name := by
    rw [cleanUpPathNameSlashes, if_neg nonempty, whole]
    dsimp only
    rw [if_neg kept, if_neg, List.reverse_append, List.reverse_reverse]
    rw [reversed]
    exact List.cons_ne_nil _ _
  refine ⟨(cleanLoop [] front).reverse, cleaned, ?_⟩
  obtain none | ⟨dir, same⟩ := before
  · rw [none]
    exact .inl rfl
  · rw [same, List.reverse_cons]
    exact .inr ⟨dir.reverse, '\\', rfl, rfl⟩

theorem EndsIn.basename {name path : Str} (file : IsFileName name) (h : EndsIn name path) :
    basename path = name := by
  obtain ⟨front, rfl, ends⟩ := h
  have all : ∀ c ∈ name.reverse, (!isSlash c) = true := by
    intro c mem
    rw [file.2 c (List.mem_reverse.mp mem)]
    rfl
  have stop : front.reverse.takeWhile (!isSlash ·) = [] := by
    obtain rfl | ⟨dir, slash, rfl, separator⟩ := ends
    · rfl
    · rw [List.reverse_append, List.reverse_singleton, List.singleton_append]
      apply List.takeWhile_cons_of_neg
      rw [separator]
      exact Bool.false_ne_true
  rw [Text.basename, List.reverse_append, List.takeWhile_append_of_pos all, stop, List.append_nil,
    List.reverse_reverse]

theorem EndsIn.merge {name : Str} (first : Option Str) :
    EndsIn name (mergeStrings first name (some '\\')) := by
  cases first with
  | none => exact ⟨[], rfl, .inl rfl⟩
  | some dir =>
    cases dir with
    | nil => exact ⟨[], rfl, .inl rfl⟩
    | cons c dir => exact ⟨c :: dir ++ ['\\'], rfl, .inr ⟨c :: dir, '\\', rfl, rfl⟩⟩

theorem EndsIn.backslash {name path : Str} (h : EndsIn name path) : EndsIn name ('\\' :: path) := by
  obtain ⟨front, rfl, ends⟩ := h
  refine ⟨'\\' :: front, rfl, .inr ?_⟩
  obtain rfl | ⟨dir, slash, rfl, separator⟩ := ends
  · exact ⟨[], '\\', rfl, rfl⟩
  · exact ⟨'\\' :: dir, slash, rfl, separator⟩

end Meridian.Text
