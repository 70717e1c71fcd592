import Meridian.Text
import Mathlib.Data.List.Infix
import Mathlib.Data.List.TakeWhile
import Mathlib.Data.Prod.Lex

/-!
# Search in strings, pointer by pointer

`MrdStrFind` and `MrdStrIncludesCI` of `lib/str_compare.c` as loops over pointers to null-terminated strings. A
pointer is the cells from it on. A read behind the last cell has no result. Any units will do; the program's are
16 bits wide.
-/

namespace Meridian.Text.Find

open Lib.Search

variable {α : Type}

theorem ne_nul {nul c : α} {text back : List α} (front : List α) (ended : nul ∉ text)
    (whole : text = front ++ c :: back) : c ≠ nul :=
  ne_of_mem_of_not_mem (whole ▸ List.mem_append_right front List.mem_cons_self) ended

theorem not_infix_map_nil {f : α → α} {text : List α} (nonempty : text ≠ []) :
    ¬text.map f <:+: ([] : List α).map f := by
  rw [List.map_nil, List.infix_nil, List.map_eq_nil_iff]
  exact nonempty

variable [DecidableEq α]

/-! ### Strings -/

/-- A pointer to a string: there is a null at it or behind it. -/
structure StrPtr (nul : α) where
  cells : List α
  ended : nul ∈ cells

def StrPtr.text {nul : α} (s : StrPtr nul) : List α := s.cells.takeWhile (· ≠ nul)

theorem exists_takeWhile_append {nul : α} {cells : List α} (ended : nul ∈ cells) :
    ∃ behind, cells = cells.takeWhile (· ≠ nul) ++ nul :: behind := by
  induction cells with
  | nil => cases ended
  | cons c cells ih =>
    by_cases same : c = nul
    · rw [List.takeWhile_cons_of_neg (by simpa using same), same]
      exact ⟨cells, rfl⟩
    · obtain ⟨behind, shape⟩ := ih ((List.mem_cons.mp ended).resolve_left (Ne.symm same))
      rw [List.takeWhile_cons_of_pos (by simpa using same)]
      exact ⟨behind, congrArg (c :: ·) shape⟩

theorem StrPtr.shape {nul : α} (s : StrPtr nul) :
    ∃ behind, s.cells = s.text ++ nul :: behind ∧ nul ∉ s.text := by
  obtain ⟨behind, shape⟩ := exists_takeWhile_append s.ended
  refine ⟨behind, shape, fun mem => ?_⟩
  exact of_decide_eq_true (List.mem_takeWhile_imp (p := fun c => decide (c ≠ nul)) mem) rfl

/-! ### MrdStrFind -/

variable (nul : α)

/-- The loop, with `Src`, `String` and `StrCharSet`; `Sub` does not change. -/
def findLoop (sub src string charSet : List α) : Option (Option (List α)) :=
  match string, charSet with
  | s :: string', c :: charSet' =>
    if s ≠ nul ∧ c ≠ nul then
      if s = c then findLoop sub src string' charSet'
      else
        match src with
        | [] => none
        | _ :: src' => findLoop sub src' src' sub
    else some (if c = nul then some src else none)
  | _, _ => none
termination_by (src.length, string.length)

/-- `MrdStrFind`, for pointers that may be `NULL`. -/
def mrdStrFind (string charSet : Option (List α)) : Option (Option (List α)) :=
  match string, charSet with
  | some string, some charSet => findLoop nul charSet string string charSet
  | _, _ => some none

variable {nul} {needle : List α}

theorem findLoop_found (sub src string charSet : List α) (s : α) :
    findLoop nul sub src (s :: string) (nul :: charSet) = some (some src) := by
  rw [findLoop.eq_def]
  dsimp only
  rw [if_neg fun both => both.2 rfl, if_pos rfl]

theorem findLoop_short {c : α} (known : c ≠ nul) (sub src string charSet : List α) :
    findLoop nul sub src (nul :: string) (c :: charSet) = some none := by
  rw [findLoop.eq_def]
  dsimp only
  rw [if_neg fun both => both.1 rfl, if_neg known]

theorem findLoop_same {c : α} (known : c ≠ nul) (sub src string charSet : List α) :
    findLoop nul sub src (c :: string) (c :: charSet) = findLoop nul sub src string charSet := by
  rw [findLoop.eq_def]
  dsimp only
  rw [if_pos ⟨known, known⟩, if_pos rfl]

theorem findLoop_differs {s c : α} (known : s ≠ nul) (known' : c ≠ nul) (other : s ≠ c)
    (sub src string charSet : List α) (first : α) :
    findLoop nul sub (first :: src) (s :: string) (c :: charSet) = findLoop nul sub src src sub := by
  rw [findLoop.eq_def]
  dsimp only
  rw [if_pos ⟨known, known'⟩, if_neg other]

/-- From a partial match on, the loop finds what there is to find. -/
theorem findLoop_eq (behind behind' matched rest left : List α) (whole : needle = matched ++ left)
    (ended : nul ∉ matched ++ rest) (ended' : nul ∉ needle) :
    findLoop nul (needle ++ nul :: behind') (matched ++ rest ++ nul :: behind) (rest ++ nul :: behind)
        (left ++ nul :: behind') =
      some ((find needle (matched ++ rest)).map (· ++ nul :: behind)) := by
  match left, rest with
  | [], rest =>
    have starts : needle <+: matched ++ rest := ⟨rest, by rw [whole, List.append_nil]⟩
    have first : FirstAt needle [] (matched ++ rest) := ⟨starts, fun j short => absurd short (Nat.not_lt_zero j)⟩
    have found : find needle (matched ++ rest) = some (matched ++ rest) := find_eq_some first
    obtain ⟨s, string, shape⟩ : ∃ s string, rest ++ nul :: behind = s :: string :=
      List.exists_cons_of_ne_nil (List.append_ne_nil_of_right_ne_nil _ (List.cons_ne_nil _ _))
    rw [found, shape]
    exact findLoop_found ..
  | c :: left, [] =>
    have known := ne_nul matched ended' whole
    have absent : find needle (matched ++ []) = none := by
      rw [find_eq_none_iff, List.append_nil, whole]
      intro inside
      have long := inside.length_le
      rw [List.length_append, List.length_cons] at long
      omega
    rw [absent]
    exact findLoop_short known ..
  | c :: left, s :: rest =>
    have known := ne_nul matched ended' whole
    have known' := ne_nul matched ended rfl
    by_cases same : s = c
    · subst same
      have next := findLoop_eq behind behind' (matched ++ [s]) rest left
        (by rw [whole, List.append_assoc]; rfl) (by rw [List.append_assoc]; exact ended) ended'
      rw [List.append_assoc matched [s] rest] at next
      exact (findLoop_same known ..).trans next
    · have differs : ¬needle <+: matched ++ s :: rest := by
        rw [whole, List.prefix_append_right_inj, List.cons_prefix_cons]
        exact fun both => same both.1.symm
      obtain ⟨first, others, shape⟩ : ∃ first others, matched ++ s :: rest = first :: others :=
        List.exists_cons_of_ne_nil (List.append_ne_nil_of_right_ne_nil _ (List.cons_ne_nil _ _))
      have next := findLoop_eq behind behind' [] others needle rfl
        (fun mem => ended (shape ▸ List.mem_cons_of_mem first mem)) ended'
      rw [shape] at differs ⊢
      rw [find, if_neg (mt List.isPrefixOf_iff_prefix.mp differs)]
      exact (findLoop_differs known' known same ..).trans next
termination_by ((matched ++ rest).length, rest.length)
decreasing_by
  · rw [List.append_assoc]
    exact Prod.Lex.right _ (Nat.lt_succ_self _)
  · rw [shape]
    exact Prod.Lex.left _ _ (Nat.lt_succ_self _)

theorem mrdStrFind_eq (string charSet : StrPtr nul) :
    ∃ behind, string.cells = string.text ++ nul :: behind ∧
      mrdStrFind nul (some string.cells) (some charSet.cells) =
        some ((find charSet.text string.text).map (· ++ nul :: behind)) := by
  obtain ⟨behind, shape, ended⟩ := string.shape
  obtain ⟨behind', shape', ended'⟩ := charSet.shape
  refine ⟨behind, shape, ?_⟩
  have found : findLoop nul (charSet.text ++ nul :: behind') (string.text ++ nul :: behind)
      (string.text ++ nul :: behind) (charSet.text ++ nul :: behind') = _ :=
    findLoop_eq behind behind' [] string.text charSet.text rfl ended ended'
  rw [← shape, ← shape'] at found
  exact found

/-! ### MrdStrIncludesCI -/

/-- How the inner loop ends. -/
inductive InnerEnd where
  | found
  | ended
  | differs
  deriving DecidableEq, Repr

variable (nul) (lower : α → α)

/-- The inner loop, from `BigIndex` and `SmallIndex` on. -/
def innerLoop : List α → List α → Option InnerEnd
  | _, [] => none
  | big, c₁ :: small =>
    if c₁ = nul then some .found
    else
      match big with
      | [] => none
      | c₂ :: big =>
        if c₂ = nul then some .ended
        else if lower c₁ ≠ lower c₂ then some .differs
        else innerLoop big small

/-- The outer loop, from `BigStart` on. -/
def includesLoop (small : List α) : List α → Option Bool
  | [] => none
  | c :: big =>
    if c = nul then some false
    else
      match innerLoop nul lower (c :: big) small with
      | none => none
      | some .found => some true
      | some .ended => some false
      | some .differs => includesLoop small big

/-- `MrdStrIncludesCI`, for pointers that may be `NULL`. -/
def mrdStrIncludesCI (bigStr smallStr : Option (List α)) : Option Bool :=
  match bigStr, smallStr with
  | some (b :: big), some (s :: small) =>
    if b = nul ∧ s = nul then some true
    else if b = nul ∨ s = nul then some false
    else includesLoop nul lower (s :: small) (b :: big)
  | some _, some _ => none
  | _, _ => some false

variable {nul lower}

theorem innerLoop_eq (behind behind' : List α) {big small : List α} (ended : nul ∉ big) (ended' : nul ∉ small) :
    innerLoop nul lower (big ++ nul :: behind) (small ++ nul :: behind') =
      some (if small.map lower <+: big.map lower then .found
        else if big.map lower <+: small.map lower then .ended else .differs) := by
  induction small generalizing big with
  | nil =>
    rw [List.map_nil, if_pos List.nil_prefix, List.nil_append, innerLoop.eq_def]
    exact if_pos rfl
  | cons c₁ small ih =>
    obtain ⟨known, later⟩ := not_or.mp (mt List.mem_cons.mpr ended')
    rw [List.cons_append, innerLoop.eq_def]
    dsimp only
    rw [if_neg (Ne.symm known)]
    cases big with
    | nil =>
      rw [List.map_nil, List.map_cons, if_neg (by rw [List.prefix_nil]; exact List.cons_ne_nil _ _),
        if_pos List.nil_prefix]
      exact if_pos rfl
    | cons c₂ big =>
      obtain ⟨known', later'⟩ := not_or.mp (mt List.mem_cons.mpr ended)
      rw [List.cons_append]
      dsimp only
      rw [if_neg (Ne.symm known')]
      by_cases same : lower c₁ = lower c₂
      · rw [if_neg (not_not.mpr same), ih later' later]
        simp only [List.map_cons, same, List.cons_prefix_cons, true_and]
      · have differs : ¬(c₁ :: small).map lower <+: (c₂ :: big).map lower :=
          fun starts => same (List.cons_prefix_cons.mp starts).1
        have differs' : ¬(c₂ :: big).map lower <+: (c₁ :: small).map lower :=
          fun starts => same (List.cons_prefix_cons.mp starts).1.symm
        rw [if_pos same, if_neg differs, if_neg differs']

/-- The outer loop goes on until the rest of the string is too short. -/
theorem includesLoop_eq (behind behind' : List α) {big small : List α} (ended : nul ∉ big) (ended' : nul ∉ small)
    (nonempty : small ≠ []) :
    includesLoop nul lower (small ++ nul :: behind') (big ++ nul :: behind) =
      some (decide (small.map lower <:+: big.map lower)) := by
  induction big with
  | nil =>
    rw [decide_eq_false (not_infix_map_nil nonempty)]
    exact if_pos rfl
  | cons c big ih =>
    obtain ⟨known, later⟩ := not_or.mp (mt List.mem_cons.mpr ended)
    have inner := @innerLoop_eq _ _ _ lower behind behind' _ _ ended ended'
    have cases : small.map lower <:+: (c :: big).map lower ↔
        small.map lower <+: (c :: big).map lower ∨ small.map lower <:+: big.map lower := List.infix_cons_iff
    rw [List.cons_append] at inner ⊢
    rw [includesLoop, if_neg (Ne.symm known), inner]
    by_cases starts : small.map lower <+: (c :: big).map lower
    · rw [if_pos starts, decide_eq_true (cases.mpr (Or.inl starts))]
    · rw [if_neg starts]
      by_cases short : (c :: big).map lower <+: small.map lower
      · have absent : ¬small.map lower <:+: big.map lower := by
          intro inside
          have least := short.length_le
          have most := inside.length_le
          rw [List.map_cons, List.length_cons] at least
          omega
        rw [if_pos short, decide_eq_false (mt cases.mp (not_or.mpr ⟨starts, absent⟩))]
      · rw [if_neg short]
        dsimp only
        rw [ih later]
        exact congrArg some (decide_eq_decide.mpr (cases.trans (or_iff_right starts)).symm)

theorem mrdStrIncludesCI_eq (bigStr smallStr : StrPtr nul) (nonempty : smallStr.text ≠ []) :
    mrdStrIncludesCI nul lower (some bigStr.cells) (some smallStr.cells) =
      some (decide (smallStr.text.map lower <:+: bigStr.text.map lower)) := by
  obtain ⟨behind, shape, ended⟩ := bigStr.shape
  obtain ⟨behind', shape', ended'⟩ := smallStr.shape
  have loop := @includesLoop_eq _ _ _ lower behind behind' _ _ ended ended' nonempty
  obtain ⟨s, small, textIs⟩ := List.exists_cons_of_ne_nil nonempty
  have known : s ≠ nul := ne_nul [] ended' textIs
  rw [textIs] at shape'
  cases bigIs : bigStr.text with
  | nil =>
    rw [bigIs] at shape
    rw [shape, shape', decide_eq_false (not_infix_map_nil nonempty)]
    exact (if_neg fun both => known both.2).trans (if_pos (Or.inl rfl))
  | cons b big =>
    have known' : b ≠ nul := ne_nul [] ended bigIs
    rw [textIs, bigIs] at loop
    rw [shape, shape', bigIs, textIs]
    exact (if_neg fun both => known' both.1).trans ((if_neg (not_or.mpr ⟨known', known⟩)).trans loop)

/-! ### The program's strings -/

/-- `c += 32` for the letters from `A` to `Z`. -/
def lowerUnit (c : UInt16) : UInt16 := if 65 ≤ c ∧ c ≤ 90 then c + 32 else c

/-- `MrdStrFind` gives a pointer to the first occurrence, or none if there is no occurrence, and `MrdStrIncludesCI`
tells whether a part of the string is the one that is searched for, but for the case of its letters. -/
theorem search_right (string search : StrPtr (0 : UInt16)) (nonempty : search.text ≠ []) :
    (∃ result, mrdStrFind 0 (some string.cells) (some search.cells) = some result ∧
        (result = none ↔ ¬search.text <:+: string.text) ∧
        ∀ found, result = some found → ∃ front rest, string.text = front ++ rest ∧ string.cells = front ++ found ∧
          FirstAt search.text front rest) ∧
      ∃ answer, mrdStrIncludesCI 0 lowerUnit (some string.cells) (some search.cells) = some answer ∧
        (answer = true ↔ ∃ part, part <:+: string.text ∧ part.map lowerUnit = search.text.map lowerUnit) := by
  obtain ⟨behind, shape, result⟩ := mrdStrFind_eq string search
  refine ⟨⟨_, result, ?_, ?_⟩, _, mrdStrIncludesCI_eq string search nonempty, ?_⟩
  · rw [Option.map_eq_none_iff, find_eq_none_iff]
  · intro found same
    obtain ⟨rest, at', rfl⟩ := Option.map_eq_some_iff.mp same
    obtain ⟨front, whole, first⟩ := find_append at'
    refine ⟨front, rest, whole, ?_, first⟩
    rw [shape, whole, List.append_assoc]
  · rw [decide_eq_true_iff, List.infix_map_iff]
    exact exists_congr fun part => and_congr_right fun _ => eq_comm

theorem search_right_overlap :
    ∃ string search : StrPtr (0 : UInt16), search.text ≠ [] ∧
      ((∃ result, mrdStrFind 0 (some string.cells) (some search.cells) = some result ∧
          (result = none ↔ ¬search.text <:+: string.text) ∧
          ∀ found, result = some found → ∃ front rest,
            string.text = front ++ rest ∧ string.cells = front ++ found ∧ FirstAt search.text front rest) ∧
        ∃ answer, mrdStrIncludesCI 0 lowerUnit (some string.cells) (some search.cells) = some answer ∧
          (answer = true ↔ ∃ part, part <:+: string.text ∧ part.map lowerUnit = search.text.map lowerUnit)) :=
  ⟨⟨[97, 97, 98, 0], by decide⟩, ⟨[97, 98, 0], by decide⟩, by decide,
    search_right ⟨[97, 97, 98, 0], by decide⟩ ⟨[97, 98, 0], by decide⟩ (by decide)⟩

/-! ### The strings of the model -/

def terminated (nul : α) (text : List α) : StrPtr nul :=
  ⟨text ++ [nul], List.mem_append_right _ List.mem_cons_self⟩

theorem text_terminated {nul : α} {text : List α} (ended : nul ∉ text) : (terminated nul text).text = text := by
  have kept : ∀ c ∈ text, decide (c ≠ nul) = true := fun c mem => decide_eq_true fun same => ended (same ▸ mem)
  rw [StrPtr.text, terminated, List.takeWhile_append_of_pos kept, List.takeWhile_cons_of_neg (by simp),
    List.append_nil]

/-- The search that the model uses is that of the loops. -/
theorem mrdStrFind_terminated {string charSet : Str} (ended : '\x00' ∉ string) (ended' : '\x00' ∉ charSet) :
    mrdStrFind '\x00' (some (string ++ ['\x00'])) (some (charSet ++ ['\x00'])) =
      some ((Text.mrdStrFind string charSet).map (· ++ ['\x00'])) := by
  obtain ⟨behind, shape, result⟩ := mrdStrFind_eq (terminated '\x00' string) (terminated '\x00' charSet)
  rw [text_terminated ended] at shape result
  rw [text_terminated ended'] at result
  have last : ['\x00'] = '\x00' :: behind := List.append_cancel_left shape
  rw [← last] at result
  exact result

theorem startsCI_iff {big small : Str} :
    startsCI big small = true ↔ small.map lowerChar <+: big.map lowerChar := by
  induction small generalizing big with
  | nil =>
    rw [startsCI]
    exact iff_of_true rfl List.nil_prefix
  | cons c small ih =>
    cases big with
    | nil =>
      have short : startsCI [] (c :: small) = false := rfl
      rw [short]
      exact iff_of_false Bool.false_ne_true fun starts => List.cons_ne_nil _ _ (List.prefix_nil.mp starts)
    | cons b big =>
      rw [startsCI, Bool.and_eq_true, decide_eq_true_iff, ih, List.map_cons, List.map_cons, List.cons_prefix_cons]

theorem mrdStrIncludesCI_terminated {big small : Str} (ended : '\x00' ∉ big) (ended' : '\x00' ∉ small)
    (nonempty : small ≠ []) :
    mrdStrIncludesCI '\x00' lowerChar (some (big ++ ['\x00'])) (some (small ++ ['\x00'])) =
      some (Text.mrdStrIncludesCI big small) := by
  have some : (terminated '\x00' small).text ≠ [] := by rwa [text_terminated ended']
  have answer : mrdStrIncludesCI '\x00' lowerChar (Option.some (big ++ ['\x00']))
      (Option.some (small ++ ['\x00'])) = _ :=
    mrdStrIncludesCI_eq (terminated '\x00' big) (terminated '\x00' small) some
  rw [text_terminated ended, text_terminated ended'] at answer
  refine answer.trans (congrArg Option.some ?_)
  rw [Bool.eq_iff_iff, decide_eq_true_iff, Text.mrdStrIncludesCI, if_neg fun both => nonempty both.2]
  by_cases empty : big = []
  · rw [if_pos (Or.inl empty), empty, List.map_nil, List.infix_nil, List.map_eq_nil_iff]
    exact iff_of_false nonempty Bool.false_ne_true
  · rw [if_neg (not_or.mpr ⟨empty, nonempty⟩), List.any_eq_true, List.infix_map_iff]
    constructor
    · rintro ⟨part, inside, same⟩
      obtain ⟨tail, starts, ends⟩ := List.infix_iff_prefix_suffix.mp inside
      exact ⟨tail, (List.mem_tails _ _).mpr ends, startsCI_iff.mpr (same ▸ starts.map lowerChar)⟩
    · rintro ⟨tail, mem, starts⟩
      obtain ⟨part, front, same⟩ := List.prefix_map_iff.mp (startsCI_iff.mp starts)
      exact ⟨part, front.isInfix.trans ((List.mem_tails _ _).mp mem).isInfix, same⟩

end Meridian.Text.Find
