import Mathlib.Computability.Language

/-!
# Glob patterns

A pattern is a list of symbols: any word, or one letter that fits. Its words are those of the
concatenation of the languages of its symbols. A word is read from the front: each symbol is a
statement about the words of the pattern behind it.
-/

namespace Lib.Glob

inductive Symbol (α : Type) where
  | any
  | one (fits : α → Prop)

variable {α : Type}

/-- The words that one symbol stands for. -/
def Symbol.words : Symbol α → Language α
  | .any => ⊤
  | .one fits => {word | ∃ a, fits a ∧ word = [a]}

def words (pattern : List (Symbol α)) : Language α := (pattern.map Symbol.words).prod

variable {pattern : List (Symbol α)} {fits : α → Prop}

theorem mem_words_nil {word : List α} : word ∈ words [] ↔ word = [] := Iff.rfl

theorem mem_words_cons {symbol : Symbol α} {word : List α} :
    word ∈ words (symbol :: pattern) ↔
      ∃ front ∈ symbol.words, ∃ rest ∈ words pattern, front ++ rest = word := by
  rw [words, List.map_cons, List.prod_cons]
  exact Language.mem_mul

/-- Behind a star, the pattern may start anywhere. -/
theorem mem_words_any {word : List α} :
    word ∈ words (.any :: pattern) ↔ ∃ rest, rest <:+ word ∧ rest ∈ words pattern := by
  rw [mem_words_cons]
  constructor
  · rintro ⟨front, -, rest, mem, whole⟩
    exact ⟨rest, ⟨front, whole⟩, mem⟩
  · rintro ⟨rest, ⟨front, whole⟩, mem⟩
    exact ⟨front, trivial, rest, mem, whole⟩

theorem mem_words_any_last (word : List α) : word ∈ words [.any] :=
  mem_words_any.mpr ⟨[], List.nil_suffix, rfl⟩

theorem nil_mem_words_any : [] ∈ words (.any :: pattern) ↔ [] ∈ words pattern := by
  rw [mem_words_any]
  constructor
  · rintro ⟨rest, suffix, mem⟩
    rwa [List.suffix_nil.mp suffix] at mem
  · exact fun mem => ⟨[], List.nil_suffix, mem⟩

theorem cons_mem_words_any {a : α} {word : List α} :
    a :: word ∈ words (.any :: pattern) ↔ a :: word ∈ words pattern ∨ word ∈ words (.any :: pattern) := by
  rw [mem_words_any, mem_words_any]
  constructor
  · rintro ⟨rest, suffix, mem⟩
    obtain rfl | behind := List.suffix_cons_iff.mp suffix
    · exact .inl mem
    · exact .inr ⟨rest, behind, mem⟩
  · rintro (mem | ⟨rest, suffix, mem⟩)
    · exact ⟨a :: word, List.suffix_rfl, mem⟩
    · exact ⟨rest, suffix.trans (List.suffix_cons a word), mem⟩

theorem nil_not_mem_words_one : [] ∉ words (.one fits :: pattern) := by
  rw [mem_words_cons]
  rintro ⟨front, ⟨a, -, rfl⟩, rest, -, whole⟩
  exact List.cons_ne_nil _ _ whole

theorem cons_mem_words_one {a : α} {word : List α} :
    a :: word ∈ words (.one fits :: pattern) ↔ fits a ∧ word ∈ words pattern := by
  rw [mem_words_cons]
  constructor
  · rintro ⟨front, ⟨b, fit, rfl⟩, rest, mem, whole⟩
    obtain ⟨rfl, rfl⟩ := List.cons.inj whole
    exact ⟨fit, mem⟩
  · rintro ⟨fit, mem⟩
    exact ⟨[a], ⟨a, fit, rfl⟩, word, mem, rfl⟩

end Lib.Glob
