import Meridian.Lib.Glob
import Meridian.Text

/-!
# Wildcards in file names

The model of `MeridianWildcardMatch` and `MeridianMetaiMatch` of `storage/file_io.c`, with the loop
that tries the rest of a pattern behind a star at every place of the string.
`meridianMetaiMatch_iff` shows that it accepts exactly the words of the pattern.
-/

namespace Meridian.Storage

open Text Lib.Glob

/-- The loop behind a star, and the attempt at the end of the string. -/
def starLoop (attempt : Str → Bool) : Str → Bool
  | [] => attempt []
  | c :: string => if attempt (c :: string) then true else starLoop attempt string

/-- `MeridianWildcardMatch`, by the pattern. The null that ends the string is no character of it. -/
def meridianWildcardMatch : Str → Str → Bool
  | [], string => string.isEmpty
  | p :: pattern, string =>
    if p = '*' then
      if pattern = [] then true else starLoop (meridianWildcardMatch pattern) string
    else
      match string with
      | [] => false
      | s :: string =>
        if p = '?' then meridianWildcardMatch pattern string
        else if upperChar s ≠ upperChar p then false
        else meridianWildcardMatch pattern string

def meridianMetaiMatch : Option Str → Option Str → Bool
  | some string, some pattern => meridianWildcardMatch pattern string
  | _, _ => false

/-! ### The language of a pattern -/

/-- What a character of a pattern stands for. -/
def symbolOf (p : Char) : Symbol Char :=
  if p = '*' then .any
  else if p = '?' then .one fun _ => True
  else .one fun s => lowerChar s = lowerChar p

def globWords (pattern : Str) : Language Char := words (pattern.map symbolOf)

theorem symbolOf_star : symbolOf '*' = .any := rfl

theorem symbolOf_question : symbolOf '?' = .one fun _ => True := rfl

theorem symbolOf_plain {p : Char} (star : p ≠ '*') (question : p ≠ '?') :
    symbolOf p = .one fun s => lowerChar s = lowerChar p := by
  rw [symbolOf, if_neg star, if_neg question]

theorem nil_not_mem_symbol {p : Char} (star : p ≠ '*') (pattern : List (Symbol Char)) :
    [] ∉ words (symbolOf p :: pattern) := by
  by_cases question : p = '?'
  · rw [question, symbolOf_question]
    exact nil_not_mem_words_one
  · rw [symbolOf_plain star question]
    exact nil_not_mem_words_one

theorem starLoop_iff (attempt : Str → Bool) (string : Str) :
    starLoop attempt string = true ↔ ∃ rest, rest <:+ string ∧ attempt rest = true := by
  induction string with
  | nil =>
    constructor
    · exact fun here => ⟨[], List.suffix_rfl, here⟩
    · rintro ⟨rest, suffix, here⟩
      rwa [List.suffix_nil.mp suffix] at here
  | cons c string ih =>
    rw [starLoop]
    split
    · rename_i here
      exact iff_of_true rfl ⟨_, List.suffix_rfl, here⟩
    · rename_i failed
      rw [ih]
      constructor
      · rintro ⟨rest, suffix, here⟩
        exact ⟨rest, suffix.trans (List.suffix_cons c string), here⟩
      · rintro ⟨rest, suffix, here⟩
        obtain rfl | behind := List.suffix_cons_iff.mp suffix
        · exact absurd here failed
        · exact ⟨rest, behind, here⟩

theorem meridianWildcardMatch_iff (pattern string : Str) :
    meridianWildcardMatch pattern string = true ↔ string ∈ globWords pattern := by
  unfold globWords
  induction pattern generalizing string with
  | nil => exact List.isEmpty_iff
  | cons p pattern ih =>
    rw [List.map_cons]
    by_cases star : p = '*'
    · subst star
      rw [meridianWildcardMatch.eq_def, symbolOf_star]
      simp only [↓reduceIte]
      split
      · rename_i last
        rw [last]
        exact iff_of_true rfl (mem_words_any_last string)
      · rw [starLoop_iff, mem_words_any]
        simp only [ih]
    · cases string with
      | nil =>
        rw [meridianWildcardMatch, if_neg star]
        exact iff_of_false Bool.false_ne_true (nil_not_mem_symbol star _)
      | cons s string =>
        simp only [meridianWildcardMatch, if_neg star]
        by_cases question : p = '?'
        · rw [if_pos question, question, symbolOf_question, cons_mem_words_one, ih, true_and]
        · rw [if_neg question, symbolOf_plain star question, cons_mem_words_one, ← upperChar_eq_iff]
          split
          · rename_i other
            exact iff_of_false Bool.false_ne_true fun both => other both.1
          · rename_i like
            rw [ih, and_iff_right (not_not.mp like)]

/-- The test that the directory reads make of a name is this match. -/
theorem wildcardMatch_eq (string pattern : Str) :
    wildcardMatch string pattern = meridianWildcardMatch pattern string := by
  rw [Bool.eq_iff_iff, meridianWildcardMatch_iff]
  unfold globWords
  fun_induction wildcardMatch string pattern with
  | case1 string => exact List.isEmpty_iff
  | case2 pattern ih => rw [ih, List.map_cons, symbolOf_star, nil_mem_words_any]
  | case3 p pattern star =>
    rw [List.map_cons]
    exact iff_of_false Bool.false_ne_true (nil_not_mem_symbol star _)
  | case4 s string pattern ih₁ ih₂ =>
    rw [Bool.or_eq_true, ih₁, ih₂, List.map_cons, symbolOf_star, cons_mem_words_any]
  | case5 s string pattern star ih =>
    rw [ih, List.map_cons, symbolOf_question, cons_mem_words_one, true_and]
  | case6 s string p pattern star question ih =>
    rw [Bool.and_eq_true, ih, List.map_cons, symbolOf_plain star question, cons_mem_words_one, decide_eq_true_iff,
      upperChar_eq_iff]

/-- The match accepts the words of the pattern, and no others. -/
theorem meridianMetaiMatch_iff (string pattern : Str) :
    meridianMetaiMatch (some string) (some pattern) = true ↔ string ∈ globWords pattern :=
  meridianWildcardMatch_iff pattern string

end Meridian.Storage
