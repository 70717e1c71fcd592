import Mathlib.Data.List.Basic

/-!
# The first occurrence of a list in another

`find` leaves what is behind the front of the list that holds no start of an occurrence.
-/

namespace Lib.Search

variable {α : Type}

/-- What the first occurrence is: no other starts before it. -/
structure FirstAt (needle front found : List α) : Prop where
  starts : needle <+: found
  first : ∀ j < front.length, ¬ needle <+: (front ++ found).drop j

variable {needle hay front found : List α}

theorem FirstAt.length_le (h : FirstAt needle front found) {a t : List α}
    (occurs : a ++ needle ++ t = front ++ found) : front.length ≤ a.length := by
  by_contra shorter
  apply h.first a.length (Nat.lt_of_not_le shorter)
  rw [← occurs, List.append_assoc, List.drop_left]
  exact List.prefix_append needle t

variable [DecidableEq α]

/-- The list from the first occurrence on. -/
def find (needle : List α) : List α → Option (List α)
  | [] => if needle = [] then some [] else none
  | x :: hay => if needle.isPrefixOf (x :: hay) then some (x :: hay) else find needle hay

theorem find_append (h : find needle hay = some found) :
    ∃ front, hay = front ++ found ∧ FirstAt needle front found := by
  induction hay with
  | nil =>
    rw [find] at h
    split at h
    · rename_i empty
      obtain rfl := Option.some.inj h
      exact ⟨[], rfl, empty ▸ List.prefix_rfl, fun j short => absurd short (Nat.not_lt_zero j)⟩
    · cases h
  | cons x hay ih =>
    rw [find] at h
    split at h
    · rename_i starts
      obtain rfl := Option.some.inj h
      exact ⟨[], rfl, List.isPrefixOf_iff_prefix.mp starts,
        fun j short => absurd short (Nat.not_lt_zero j)⟩
    · rename_i later
      obtain ⟨front, rfl, starts, first⟩ := ih h
      refine ⟨x :: front, rfl, starts, ?_⟩
      intro j short
      cases j with
      | zero => exact fun here => later (List.isPrefixOf_iff_prefix.mpr here)
      | succ j => exact first j (Nat.lt_of_succ_lt_succ short)

theorem find_eq_none_iff : find needle hay = none ↔ ¬ needle <:+: hay := by
  induction hay with
  | nil =>
    rw [find, List.infix_nil]
    split
    · rename_i empty
      exact iff_of_false (fun impossible => nomatch impossible) (not_not_intro empty)
    · rename_i nonempty
      exact iff_of_true rfl nonempty
  | cons x hay ih =>
    rw [find, List.infix_cons_iff, not_or]
    split
    · rename_i starts
      exact iff_of_false (fun impossible => nomatch impossible)
        fun absent => absent.1 (List.isPrefixOf_iff_prefix.mp starts)
    · rename_i later
      rw [ih, and_iff_right (mt List.isPrefixOf_iff_prefix.mpr later)]

/-- An occurrence that no other one comes before is the one that is found. -/
theorem find_eq_some (h : FirstAt needle front found) : find needle (front ++ found) = some found := by
  induction front with
  | nil =>
    cases found with
    | nil => rw [List.nil_append, find, if_pos (List.prefix_nil.mp h.starts)]
    | cons x found => rw [List.nil_append, find, if_pos (List.isPrefixOf_iff_prefix.mpr h.starts)]
  | cons x front ih =>
    have here := h.first 0 (Nat.zero_lt_succ _)
    rw [List.drop_zero, List.cons_append] at here
    rw [List.cons_append, find, if_neg (mt List.isPrefixOf_iff_prefix.mp here)]
    exact ih ⟨h.starts, fun j short => h.first (j + 1) (Nat.succ_lt_succ short)⟩

theorem find_self_singleton {x : α} (hay : List α) : find [x] hay = none ↔ x ∉ hay := by
  rw [find_eq_none_iff, not_iff_not]
  constructor
  · intro inside
    exact inside.subset List.mem_cons_self
  · intro mem
    obtain ⟨front, back, rfl⟩ := List.append_of_mem mem
    exact ⟨front, back, by rw [List.append_assoc]; rfl⟩

end Lib.Search
