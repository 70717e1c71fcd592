import Mathlib.Data.List.Basic
import Mathlib.Data.List.TakeWhile

/-!
# The words of a list

The words are the nonempty runs between separators. They split where a separator stands, and a run
between two boundaries is a word of its own.
-/

namespace Lib.Words

variable {α : Type} [DecidableEq α] {sep : α}

def words (sep : α) (l : List α) : List (List α) := (l.splitOn sep).filter (· ≠ [])

/-- Nothing, or a separator first. -/
def Ends (sep : α) (l : List α) : Prop := ∀ x ∈ l.head?, x = sep

/-- Nothing, or a separator last. -/
def Begins (sep : α) (l : List α) : Prop := ∀ x ∈ l.getLast?, x = sep

theorem words_nil : words sep ([] : List α) = [] := by
  rw [words, List.splitOn_nil]
  rfl

theorem words_append_cons (a b : List α) : words sep (a ++ sep :: b) = words sep a ++ words sep b := by
  rw [words, List.splitOn_append_cons_self, List.filter_append]
  rfl

theorem words_cons (b : List α) : words sep (sep :: b) = words sep b := by
  have split : words sep ([] ++ sep :: b) = words sep [] ++ words sep b := words_append_cons [] b
  rwa [words_nil] at split

theorem words_word {w : List α} (nonempty : w ≠ []) (whole : sep ∉ w) : words sep w = [w] := by
  rw [words, List.splitOn_eq_singleton whole]
  exact List.filter_cons_of_pos (decide_eq_true nonempty)

theorem words_begins {a : List α} (begins : Begins sep a) (b : List α) :
    words sep (a ++ b) = words sep a ++ words sep b := by
  obtain rfl | ⟨a, x, rfl⟩ := List.eq_nil_or_concat' a
  · rw [words_nil]
    rfl
  · obtain rfl := begins x (by rw [List.getLast?_concat]; rfl)
    rw [List.append_assoc, List.singleton_append, words_append_cons, words_append_cons, words_nil,
      List.append_nil]

theorem words_ends {w b : List α} (nonempty : w ≠ []) (whole : sep ∉ w) (ends : Ends sep b) :
    words sep (w ++ b) = w :: words sep b := by
  cases b with
  | nil => rw [List.append_nil, words_word nonempty whole, words_nil]
  | cons x b =>
    obtain rfl := ends x rfl
    rw [words_append_cons, words_word nonempty whole, words_cons]
    rfl

/-- A run between two boundaries is a word. -/
theorem words_between {a w b : List α} (begins : Begins sep a) (nonempty : w ≠ []) (whole : sep ∉ w)
    (ends : Ends sep b) : words sep (a ++ w ++ b) = words sep a ++ w :: words sep b := by
  rw [List.append_assoc, words_begins begins, words_ends nonempty whole ends]

theorem ends_dropWhile (l : List α) : Ends sep (l.dropWhile (· ≠ sep)) := by
  intro x first
  have stops := List.head?_dropWhile_not (fun x => decide (x ≠ sep)) l
  rw [first] at stops
  simpa using stops

theorem not_mem_takeWhile (l : List α) : sep ∉ l.takeWhile (· ≠ sep) := by
  intro mem
  have differs := List.mem_takeWhile_imp mem
  exact of_decide_eq_true differs rfl

/-- The first word. -/
theorem words_cons_ne {x : α} {l : List α} (word : x ≠ sep) :
    words sep (x :: l) = (x :: l.takeWhile (· ≠ sep)) :: words sep (l.dropWhile (· ≠ sep)) := by
  have whole : sep ∉ x :: l.takeWhile (· ≠ sep) := by
    intro mem
    obtain rfl | later := List.mem_cons.mp mem
    · exact word rfl
    · exact not_mem_takeWhile l later
  rw [← words_ends (List.cons_ne_nil _ _) whole (ends_dropWhile l), List.cons_append,
    List.takeWhile_append_dropWhile]

/-- A list is taken apart separator by separator and word by word. -/
theorem words_induction (sep : α) {motive : List α → Prop} (nil : motive [])
    (skip : ∀ l, motive l → motive (sep :: l))
    (word : ∀ x l, x ≠ sep → motive (l.dropWhile (· ≠ sep)) → motive (x :: l)) (l : List α) : motive l := by
  match l with
  | [] => exact nil
  | x :: l =>
    by_cases here : x = sep
    · rw [here]
      exact skip l (words_induction sep nil skip word l)
    · exact word x l here (words_induction sep nil skip word _)
termination_by l.length
decreasing_by
  · exact Nat.lt_succ_self _
  · exact Nat.lt_succ_of_le (List.length_dropWhile_le _ l)

theorem not_mem_of_mem_words {w : List α} (l : List α) (mem : w ∈ words sep l) : sep ∉ w := by
  induction l using words_induction sep with
  | nil =>
    rw [words_nil] at mem
    cases mem
  | skip l ih =>
    rw [words_cons] at mem
    exact ih mem
  | word x l here ih =>
    rw [words_cons_ne here] at mem
    obtain rfl | later := List.mem_cons.mp mem
    · rw [List.mem_cons, not_or]
      exact ⟨fun same => here same.symm, not_mem_takeWhile l⟩
    · exact ih later

theorem infix_of_mem_words {w : List α} (l : List α) (mem : w ∈ words sep l) : w <:+: l := by
  induction l using words_induction sep with
  | nil =>
    rw [words_nil] at mem
    cases mem
  | skip l ih =>
    rw [words_cons] at mem
    exact (ih mem).trans (List.suffix_cons sep l).isInfix
  | word x l here ih =>
    rw [words_cons_ne here] at mem
    obtain rfl | later := List.mem_cons.mp mem
    · exact (List.prefix_cons_inj x |>.mpr (List.takeWhile_prefix _)).isInfix
    · exact (ih later).trans ((List.dropWhile_suffix _).trans (List.suffix_cons x l)).isInfix

theorem subset_of_mem_words {w : List α} (l : List α) (mem : w ∈ words sep l) : w ⊆ l :=
  (infix_of_mem_words l mem).subset

/-- Every list is a part up to a separator and a run. -/
theorem exists_begins (sep : α) (l : List α) : ∃ a w, l = a ++ w ∧ Begins sep a ∧ sep ∉ w := by
  refine ⟨(l.reverse.dropWhile (· ≠ sep)).reverse, (l.reverse.takeWhile (· ≠ sep)).reverse, ?_, ?_, ?_⟩
  · rw [← List.reverse_append, List.takeWhile_append_dropWhile, List.reverse_reverse]
  · intro x last
    rw [List.getLast?_reverse] at last
    exact ends_dropWhile l.reverse x last
  · rw [List.mem_reverse]
    exact not_mem_takeWhile l.reverse

end Lib.Words
