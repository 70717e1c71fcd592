import Meridian.Discovery.Guids

/-!
# Lists of hexadecimal numbers

The model of `HandleHexes` of `config/config_handlers.c` and of `IsValidHex` of `lib/str_guid.c`.
Allocations succeed.
-/

namespace Meridian.Config

open Text Discovery

/-- The loop of `IsValidHex`, from the index on. -/
def isValidHexLoop (first : Char) (i : Nat) : Str → Bool
  | [] => true
  | c :: rest =>
    if i = 0 ∧ c = '0' then isValidHexLoop first (i + 1) rest
    else if i = 1 ∧ (c = 'x' ∨ c = 'X') then
      if first ≠ '0' then false else isValidHexLoop first (i + 1) rest
    else if (c < '0' ∨ '9' < c) ∧ (c < 'A' ∨ 'F' < c) ∧ (c < 'a' ∨ 'f' < c) then false
    else isValidHexLoop first (i + 1) rest

def isValidHex : Str → Bool
  | [] => false
  | first :: rest =>
    if equalsCI (first :: rest) "0x".toList then false else isValidHexLoop first 0 (first :: rest)

/-- The new values are added to the old ones. -/
def addsToList (tokenList : List Str) : Bool :=
  tokenList.length > 2 && mrdStrEqualsCI tokenList[1]? (some ['+'])

def inputIndex (tokenList : List Str) : Nat := if addsToList tokenList then 2 else 1

/-- One round of the loop, with the list as it ends. -/
def hexStep (maxValue : Nat) (list : List UInt32) (token : Str) : List UInt32 :=
  if !isValidHex token then list
  else
    let value := UInt32.ofNat (strToHex token 0 8)
    if value.toNat > maxValue then list else list ++ [value]

def handleHexes (tokenList : List Str) (maxValue : Nat) (target : List UInt32) : List UInt32 :=
  (tokenList.drop (inputIndex tokenList)).foldl (hexStep maxValue)
    (if addsToList tokenList then target else [])

/-! ### Hexadecimal numbers -/

/-- The part of a token behind the prefix. -/
def hexPart : Str → Str
  | '0' :: 'x' :: digits => digits
  | '0' :: 'X' :: digits => digits
  | token => token

/-- The number that a token stands for. -/
def hexNumber (token : Str) : Option Nat :=
  if hexPart token ≠ [] ∧ AllHex (hexPart token) then some (hexValue (hexPart token)) else none

theorem not_digit_iff (c : Char) :
    ((c < '0' ∨ '9' < c) ∧ (c < 'A' ∨ 'F' < c) ∧ (c < 'a' ∨ 'f' < c)) ↔ ¬ (hexDigit c).isSome = true := by
  have ranges : ((c < '0' ∨ '9' < c) ∧ (c < 'A' ∨ 'F' < c) ∧ (c < 'a' ∨ 'f' < c)) ↔
      (c.toNat < 48 ∨ 57 < c.toNat) ∧ (c.toNat < 65 ∨ 70 < c.toNat) ∧ (c.toNat < 97 ∨ 102 < c.toNat) := Iff.rfl
  rw [ranges, Option.isSome_iff_exists]
  simp only [hexDigit_eq_some]
  constructor
  · rintro outside ⟨d, inside⟩
    omega
  · intro none
    by_contra inside
    apply none
    by_cases digit : c.toNat ≤ 57
    · exact ⟨c.toNat - 48, by omega⟩
    by_cases capital : c.toNat ≤ 70
    · exact ⟨c.toNat - 55, by omega⟩
    · exact ⟨c.toNat - 87, by omega⟩

theorem allHex_cons (c : Char) (s : Str) : AllHex (c :: s) ↔ (hexDigit c).isSome = true ∧ AllHex s :=
  List.forall_mem_cons

/-- A character at a place where no prefix is looked for. -/
theorem isValidHexLoop_digit {first c : Char} {i : Nat} {rest : Str} (zero : ¬(i = 0 ∧ c = '0'))
    (prefixed : ¬(i = 1 ∧ (c = 'x' ∨ c = 'X'))) :
    isValidHexLoop first i (c :: rest) = true ↔
      (hexDigit c).isSome = true ∧ isValidHexLoop first (i + 1) rest = true := by
  rw [isValidHexLoop, if_neg zero, if_neg prefixed]
  simp only [not_digit_iff]
  split
  · rename_i other
    exact iff_of_false Bool.false_ne_true fun both => other both.1
  · rename_i digit
    exact (and_iff_right (not_not.mp digit)).symm

theorem isValidHexLoop_late (first : Char) (i : Nat) (s : Str) :
    isValidHexLoop first (i + 2) s = true ↔ AllHex s := by
  induction s generalizing i with
  | nil => exact iff_of_true rfl fun c mem => absurd mem List.not_mem_nil
  | cons c s ih =>
    rw [isValidHexLoop_digit (fun both => by omega) (fun both => by omega), allHex_cons]
    exact and_congr_right fun _ => ih (i + 1)

theorem isValidHexLoop_one {first : Char} {s : Str} (plain : s.head? ≠ some 'x' ∧ s.head? ≠ some 'X') :
    isValidHexLoop first 1 s = true ↔ AllHex s := by
  cases s with
  | nil => exact iff_of_true rfl fun c mem => absurd mem List.not_mem_nil
  | cons c s =>
    have other : ¬((1 : Nat) = 1 ∧ (c = 'x' ∨ c = 'X')) := by
      rintro ⟨-, rfl | rfl⟩
      · exact plain.1 rfl
      · exact plain.2 rfl
    rw [isValidHexLoop_digit (fun both => absurd both.1 (by decide)) other, allHex_cons]
    exact and_congr_right fun _ => isValidHexLoop_late first 0 s

theorem not_allHex_x {c : Char} (h : c = 'x' ∨ c = 'X') (s : Str) : ¬ AllHex (c :: s) := by
  rw [allHex_cons]
  obtain rfl | rfl := h
  · exact fun both => absurd both.1 (by decide)
  · exact fun both => absurd both.1 (by decide)

theorem hexNumber_isSome (token : Str) :
    (hexNumber token).isSome = true ↔ hexPart token ≠ [] ∧ AllHex (hexPart token) := by
  rw [hexNumber]
  split
  · rename_i number
    exact iff_of_true rfl number
  · rename_i other
    exact iff_of_false Bool.false_ne_true other

theorem isValidHex_prefixed {x : Char} (h : x = 'x' ∨ x = 'X') (digits : Str) :
    isValidHex ('0' :: x :: digits) = true ↔ digits ≠ [] ∧ AllHex digits := by
  have lower : lowerChar x = 'x' := by
    obtain rfl | rfl := h
    · decide
    · decide
  have alone : equalsCI ('0' :: x :: digits) "0x".toList = true ↔ digits = [] := by
    rw [equalsCI_iff, List.map_cons, List.map_cons, lower]
    constructor
    · intro same
      exact List.map_eq_nil_iff.mp (List.cons.inj (List.cons.inj same).2).2
    · rintro rfl
      decide
  rw [isValidHex]
  split
  · rename_i same
    exact iff_of_false Bool.false_ne_true fun both => both.1 (alone.mp same)
  · rename_i other
    rw [isValidHexLoop, if_pos ⟨rfl, rfl⟩, isValidHexLoop, if_neg (by omega), if_pos ⟨rfl, h⟩,
      if_neg (not_not_intro rfl), isValidHexLoop_late]
    exact (and_iff_right (mt alone.mpr other)).symm

theorem isValidHex_plain {c : Char} {rest : Str}
    (plain : c = '0' → rest.head? ≠ some 'x' ∧ rest.head? ≠ some 'X') :
    isValidHex (c :: rest) = true ↔ AllHex (c :: rest) := by
  have notX (mem : 'x' ∈ (c :: rest).map lowerChar) : ¬ AllHex (c :: rest) := by
    intro digits
    obtain ⟨x, inside, lower⟩ := List.mem_map.mp mem
    obtain ⟨d, digit⟩ := Option.isSome_iff_exists.mp (digits x inside)
    have value : ('x' : Char).toNat = 120 := rfl
    rw [hexDigit_eq_some] at digit
    rw [← Char.toNat_inj, toNat_lowerChar, value] at lower
    split at lower <;> omega
  rw [isValidHex]
  split
  · rename_i same
    rw [equalsCI_iff] at same
    exact iff_of_false Bool.false_ne_true (notX (by rw [same]; decide))
  · by_cases zero : c = '0'
    · rw [isValidHexLoop, if_pos ⟨rfl, zero⟩, isValidHexLoop_one (plain zero), allHex_cons, zero]
      exact (and_iff_right rfl).symm
    · rw [isValidHexLoop_digit (fun both => zero both.2) (fun both => by omega), allHex_cons]
      by_cases prefixed : rest.head? = some 'x' ∨ rest.head? = some 'X'
      · obtain ⟨x, digits, rfl, letter⟩ : ∃ x digits, rest = x :: digits ∧ (x = 'x' ∨ x = 'X') := by
          obtain small | capital := prefixed
          · obtain ⟨digits, same⟩ := List.head?_eq_some_iff.mp small
            exact ⟨'x', digits, same, .inl rfl⟩
          · obtain ⟨digits, same⟩ := List.head?_eq_some_iff.mp capital
            exact ⟨'X', digits, same, .inr rfl⟩
        rw [isValidHexLoop, if_neg (by omega), if_pos ⟨rfl, letter⟩, if_pos zero]
        exact iff_of_false (fun both => Bool.false_ne_true both.2) fun both => not_allHex_x letter digits both.2
      · exact and_congr_right fun _ => isValidHexLoop_one (not_or.mp prefixed)

/-- The test accepts the hexadecimal numbers, with or without a prefix. -/
theorem isValidHex_iff (token : Str) : isValidHex token = true ↔ (hexNumber token).isSome = true := by
  rw [hexNumber_isSome]
  cases token with
  | nil => exact iff_of_false Bool.false_ne_true fun both => both.1 rfl
  | cons c rest =>
    by_cases plain : c = '0' → rest.head? ≠ some 'x' ∧ rest.head? ≠ some 'X'
    · have part : hexPart (c :: rest) = c :: rest := by
        unfold hexPart
        split
        · rename_i same
          obtain ⟨rfl, rfl⟩ := List.cons.inj same
          exact absurd rfl (plain rfl).1
        · rename_i same
          obtain ⟨rfl, rfl⟩ := List.cons.inj same
          exact absurd rfl (plain rfl).2
        · rfl
      rw [isValidHex_plain plain, part]
      exact (and_iff_right (List.cons_ne_nil _ _)).symm
    · push Not at plain
      obtain ⟨rfl, prefixed⟩ := plain
      by_cases small : rest.head? = some 'x'
      · obtain ⟨digits, rfl⟩ := List.head?_eq_some_iff.mp small
        exact isValidHex_prefixed (.inl rfl) digits
      · obtain ⟨digits, rfl⟩ := List.head?_eq_some_iff.mp (prefixed small)
        exact isValidHex_prefixed (.inr rfl) digits

/-! ### What is read of a number -/

/-- How many digits of a number are read: the zero of a capital prefix counts as one. -/
def digitLimit : Str → Nat
  | '0' :: 'X' :: _ => 7
  | _ => 8

/-- Reading the number leaves out no digit that matters: there are few enough, or all are zeros, or the
digits that are read exceed the maximum by themselves. -/
def HexRead (maxValue : Nat) (token : Str) : Prop :=
  (hexPart token).length ≤ digitLimit token ∨ hexValue (hexPart token) = 0 ∨
    maxValue < hexValue ((hexPart token).take (digitLimit token))

theorem getSubStrAfter_behind {digits : Str} (some : digits ≠ []) :
    getSubStrAfter "0x".toList ('0' :: 'x' :: digits) = digits := by
  have found : mrdStrFind ('0' :: 'x' :: digits) "0x".toList = .some ('0' :: 'x' :: digits) := rfl
  have behind : ('0' :: 'x' :: digits).drop "0x".toList.length = digits := rfl
  rw [getSubStrAfter, getDelimiter_of_visible (by decide), found]
  dsimp only
  rw [behind, if_neg some]

theorem hexNumber_eq_some {token : Str} {v : Nat} :
    hexNumber token = some v ↔ hexPart token ≠ [] ∧ AllHex (hexPart token) ∧ v = hexValue (hexPart token) := by
  rw [hexNumber]
  split
  · rename_i number
    rw [Option.some.injEq, and_iff_right number.1, and_iff_right number.2, eq_comm]
  · rename_i other
    exact iff_of_false (fun impossible => nomatch impossible) fun all => other ⟨all.1, all.2.1⟩

theorem absent_of_allHex {s : Str} (digits : AllHex s) : 'x' ∉ s := fun mem =>
  absurd (digits 'x' mem) (by decide)

theorem token_cases (token : Str) :
    (∃ digits, token = '0' :: 'x' :: digits) ∨ (∃ digits, token = '0' :: 'X' :: digits) ∨
      hexPart token = token ∧ digitLimit token = 8 := by
  by_cases small : ∃ digits, token = '0' :: 'x' :: digits
  · exact .inl small
  by_cases capital : ∃ digits, token = '0' :: 'X' :: digits
  · exact .inr (.inl capital)
  refine .inr (.inr ⟨?_, ?_⟩)
  · unfold hexPart
    split
    · exact absurd ⟨_, rfl⟩ small
    · exact absurd ⟨_, rfl⟩ capital
    · rfl
  · unfold digitLimit
    split
    · exact absurd ⟨_, rfl⟩ capital
    · rfl

theorem strToHex_number {token : Str} (some : hexPart token ≠ []) (digits : AllHex (hexPart token)) :
    strToHex token 0 8 = hexValue ((hexPart token).take (digitLimit token)) := by
  obtain ⟨behind, rfl⟩ | ⟨behind, rfl⟩ | ⟨part, limit⟩ := token_cases token
  · have digits' : AllHex behind := digits
    rw [strToHex, @getSubStrAfter_behind behind some]
    exact hexLoop_take digits' 8
  · have digits' : AllHex behind := digits
    have absent : 'x' ∉ '0' :: 'X' :: behind := by
      simp [absent_of_allHex digits']
    have zero : hexDigit '0' = .some 0 := by decide
    have other : hexDigit 'X' = none := by decide
    rw [strToHex_absent absent 0 (by decide), List.drop_zero, hexLoop_digit zero, hexLoop_other other]
    exact hexLoop_take digits' 7
  · rw [part] at digits ⊢
    rw [strToHex_absent (absent_of_allHex digits) 0 (by decide), List.drop_zero, hexLoop_take digits, limit]

/-- The numbers that a token adds. -/
def tokenValues (maxValue : Nat) (token : Str) : List UInt32 := hexStep maxValue [] token

theorem hexStep_eq (maxValue : Nat) (list : List UInt32) (token : Str) :
    hexStep maxValue list token = list ++ tokenValues maxValue token := by
  unfold tokenValues hexStep
  split
  · exact (List.append_nil list).symm
  · dsimp only
    split
    · exact (List.append_nil list).symm
    · rfl

/-- The numbers that a token is to add. -/
def numberOf (maxValue : Nat) (token : Str) : List Nat :=
  ((hexNumber token).filter (· ≤ maxValue)).toList

theorem first_le_hexValue (n : Nat) (s : Str) : hexValue (s.take n) ≤ hexValue s := by
  have whole := hexValue_append (s := s.take n) (s.drop n)
  rw [List.take_append_drop] at whole
  have power : 0 < 16 ^ (s.drop n).length := Nat.pow_pos (by decide)
  have more := Nat.le_mul_of_pos_right (hexValue (s.take n)) power
  omega

/-- The first digits make the whole number where there are no others, and for zero. -/
theorem first_eq_hexValue_iff (n : Nat) (s : Str) :
    s.length ≤ n ∨ hexValue s = 0 ↔ hexValue (s.take n) = hexValue s := by
  constructor
  · rintro (all | zero)
    · rw [List.take_of_length_le all]
    · have below := first_le_hexValue n s
      omega
  · intro same
    by_cases all : s.length ≤ n
    · exact .inl all
    · have whole := hexValue_append (s := s.take n) (s.drop n)
      rw [List.take_append_drop, same, List.length_drop] at whole
      have power : 16 ≤ 16 ^ (s.length - n) := Nat.le_self_pow (by omega) 16
      have more := Nat.mul_le_mul_left (hexValue s) power
      exact .inr (by omega)

/-- What a token adds, and what it is to add, by the digits that are read. -/
theorem tokenValues_cases (maxValue : Nat) (token : Str) :
    (hexNumber token = none ∧ tokenValues maxValue token = [] ∧ numberOf maxValue token = []) ∨
      ∃ read all : Nat, (hexNumber token).isSome = true ∧ read ≤ all ∧
        (HexRead maxValue token ↔ read = all ∨ maxValue < read) ∧
        (tokenValues maxValue token).map UInt32.toNat = (if read ≤ maxValue then [read] else []) ∧
        numberOf maxValue token = if all ≤ maxValue then [all] else [] := by
  cases number : hexNumber token with
  | none =>
    have refused : isValidHex token = false := by
      rw [Bool.eq_false_iff, ne_eq, isValidHex_iff, number]
      exact Bool.false_ne_true
    refine .inl ⟨rfl, ?_, ?_⟩
    · rw [tokenValues, hexStep, refused]
      rfl
    · rw [numberOf, number]
      rfl
  | some v =>
    obtain ⟨some, digits, rfl⟩ := hexNumber_eq_some.mp number
    have valid : isValidHex token = true := by
      rw [isValidHex_iff, number]
      rfl
    have read := strToHex_number some digits
    have few : digitLimit token ≤ 8 := by
      unfold digitLimit
      split
      · decide
      · exact Nat.le_refl _
    have bound := hexValue_lt (s := (hexPart token).take (digitLimit token))
      fun c mem => digits c (List.take_subset _ _ mem)
    have small : hexValue ((hexPart token).take (digitLimit token)) < 2 ^ 32 := by
      refine Nat.lt_of_lt_of_le bound (Nat.pow_le_pow_right (by decide) (?_ : _ ≤ 8))
      rw [List.length_take]
      omega
    have value : (UInt32.ofNat (strToHex token 0 8)).toNat =
        hexValue ((hexPart token).take (digitLimit token)) := by
      rw [read]
      exact UInt32.toNat_ofNat_of_lt' small
    have below := first_le_hexValue (digitLimit token) (hexPart token)
    refine .inr ⟨_, _, rfl, below, ?_, ?_, ?_⟩
    · rw [HexRead, ← or_assoc, first_eq_hexValue_iff]
    · rw [tokenValues, hexStep, valid, if_neg (by decide)]
      dsimp only
      rw [value]
      split
      · rename_i beyond
        rw [if_neg (Nat.not_le_of_lt beyond)]
        rfl
      · rename_i fits
        rw [if_pos (Nat.le_of_not_lt fits)]
        exact congrArg (fun value => [value]) value
    · rw [numberOf, number]
      by_cases fits : hexValue (hexPart token) ≤ maxValue
      · simp [fits]
      · simp [fits, Nat.lt_of_not_le fits]

theorem tokenValues_iff (maxValue : Nat) (token : Str) :
    (tokenValues maxValue token).map UInt32.toNat = numberOf maxValue token ↔
      ((hexNumber token).isSome = true → HexRead maxValue token) := by
  obtain ⟨none, adds, right⟩ | ⟨read, all, number, below, same, adds, right⟩ := tokenValues_cases maxValue token
  · rw [adds, right, none]
    exact iff_of_true rfl fun impossible => nomatch impossible
  · rw [adds, right, same]
    by_cases small : read ≤ maxValue
    · rw [if_pos small]
      by_cases fits : all ≤ maxValue
      · rw [if_pos fits, List.cons.injEq, and_iff_left rfl]
        constructor
        · exact fun equal _ => .inl equal
        · exact fun holds => (holds number).resolve_right (Nat.not_lt_of_le small)
      · rw [if_neg fits]
        refine iff_of_false (List.cons_ne_nil _ _) fun holds => ?_
        obtain equal | beyond := holds number
        · exact fits (equal ▸ small)
        · exact absurd small (Nat.not_le_of_lt beyond)
    · rw [if_neg small, if_neg fun fits => small (below.trans fits)]
      exact iff_of_true rfl fun _ => .inr (Nat.lt_of_not_le small)

theorem numberOf_length (maxValue : Nat) (token : Str) :
    (numberOf maxValue token).length ≤ ((tokenValues maxValue token).map UInt32.toNat).length := by
  obtain ⟨-, -, right⟩ | ⟨read, all, -, below, -, adds, right⟩ := tokenValues_cases maxValue token
  · rw [right]
    exact Nat.zero_le _
  · rw [adds, right]
    by_cases small : read ≤ maxValue
    · rw [if_pos small]
      split
      · exact Nat.le_refl _
      · exact Nat.zero_le _
    · rw [if_neg small, if_neg fun fits => small (below.trans fits)]

/-! ### The list -/

/-- Where one side never gives more than the other, two concatenations agree when all parts do. -/
theorem flatMap_eq_iff {α β : Type} {f g : α → List β} (shorter : ∀ a, (g a).length ≤ (f a).length) (l : List α) :
    l.flatMap f = l.flatMap g ↔ ∀ a ∈ l, f a = g a := by
  have total (l : List α) : (l.flatMap g).length ≤ (l.flatMap f).length := by
    induction l with
    | nil => exact Nat.le_refl _
    | cons a l ih =>
      rw [List.flatMap_cons, List.flatMap_cons, List.length_append, List.length_append]
      exact Nat.add_le_add (shorter a) ih
  induction l with
  | nil => exact iff_of_true rfl fun a mem => absurd mem List.not_mem_nil
  | cons a l ih =>
    simp only [List.flatMap_cons, List.forall_mem_cons, ← ih]
    constructor
    · intro same
      have lengths := congrArg List.length same
      rw [List.length_append, List.length_append] at lengths
      have here := shorter a
      have later := total l
      exact List.append_inj same (by omega)
    · rintro ⟨here, later⟩
      rw [here, later]

theorem foldl_hexStep (maxValue : Nat) (tokens : List Str) (list : List UInt32) :
    tokens.foldl (hexStep maxValue) list = list ++ tokens.flatMap (tokenValues maxValue) := by
  induction tokens generalizing list with
  | nil => exact (List.append_nil list).symm
  | cons token tokens ih => rw [List.foldl_cons, ih, hexStep_eq, List.append_assoc, List.flatMap_cons]

/-- The list is what it is to be where no digit that matters is left out. -/
theorem handleHexes_iff (tokenList : List Str) (maxValue : Nat) (target : List UInt32) :
    (handleHexes tokenList maxValue target).map UInt32.toNat =
        (if addsToList tokenList then target.map UInt32.toNat else []) ++
          (tokenList.drop (inputIndex tokenList)).flatMap (numberOf maxValue) ↔
      ∀ token ∈ tokenList.drop (inputIndex tokenList),
        (hexNumber token).isSome = true → HexRead maxValue token := by
  have earlier : (if addsToList tokenList then target else []).map UInt32.toNat =
      if addsToList tokenList then target.map UInt32.toNat else [] := by
    split
    · rfl
    · rfl
  rw [handleHexes, foldl_hexStep, List.map_append, earlier, List.append_cancel_left_eq, List.map_flatMap,
    flatMap_eq_iff (numberOf_length maxValue)]
  simp only [tokenValues_iff]

/-- A number with leading zeros is taken for zero. -/
theorem handleHexes_padded :
    (handleHexes ["csr_values".toList, "0000000010".toList] 0xFFF []).map UInt32.toNat ≠
      (if addsToList ["csr_values".toList, "0000000010".toList] then ([] : List UInt32).map UInt32.toNat
        else []) ++
        (["csr_values".toList, "0000000010".toList].drop
          (inputIndex ["csr_values".toList, "0000000010".toList])).flatMap (numberOf 0xFFF) := by
  intro same
  have adds : addsToList ["csr_values".toList, "0000000010".toList] = false := rfl
  rw [handleHexes, inputIndex, adds, if_neg Bool.false_ne_true, if_neg Bool.false_ne_true,
    if_neg Bool.false_ne_true, List.drop_succ_cons, List.drop_zero, foldl_hexStep, List.nil_append, List.nil_append,
    List.flatMap_singleton, List.flatMap_singleton, tokenValues_iff] at same
  have read := same (by decide)
  rw [HexRead] at read
  revert read
  decide

end Meridian.Config
