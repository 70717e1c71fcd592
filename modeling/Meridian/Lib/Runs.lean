import Mathlib.Data.List.Basic
import Mathlib.Order.Nat

/-!
# Runs of numbers

Elements that each stand for a run of consecutive numbers, from a first one on and so many. In a list of runs that
are apart from each other, in order, a number is in at most one of them.
-/

namespace Lib.Runs

variable {α : Type} (first length : α → Nat)

def Covers (e : α) (k : Nat) : Prop := first e ≤ k ∧ k < first e + length e

instance (e : α) (k : Nat) : Decidable (Covers first length e k) := by
  unfold Covers
  infer_instance

/-- The runs are in order, and none goes into the one behind it. -/
def Apart (l : List α) : Prop := l.Pairwise fun e e' => first e + length e ≤ first e'

/-- The run that a number is in. -/
def runAt (l : List α) (k : Nat) : Option α := l.find? fun e => Covers first length e k

variable {first length} {l : List α} {e : α} {k : Nat}

theorem runAt_eq_none : runAt first length l k = none ↔ ∀ e ∈ l, ¬ Covers first length e k := by
  rw [runAt, List.find?_eq_none]
  refine forall₂_congr fun e _ => ?_
  rw [decide_eq_true_iff]

theorem runAt_mem (found : runAt first length l k = some e) : e ∈ l ∧ Covers first length e k := by
  have covers := List.find?_some found
  rw [decide_eq_true_iff] at covers
  exact ⟨List.mem_of_find?_eq_some found, covers⟩

theorem Apart.runAt (apart : Apart first length l) (mem : e ∈ l) (covers : Covers first length e k) :
    Runs.runAt first length l k = some e := by
  induction l with
  | nil => exact absurd mem List.not_mem_nil
  | cons x l ih =>
    obtain ⟨behind, rest⟩ := List.pairwise_cons.mp apart
    rcases List.mem_cons.mp mem with rfl | later
    · exact List.find?_cons_of_pos (decide_eq_true covers)
    · have before := behind e later
      have not : ¬ Covers first length x k := by
        intro other
        have upTo := Nat.le_trans before covers.1
        exact absurd other.2 (Nat.not_lt.mpr upTo)
      rw [Runs.runAt, List.find?_cons_of_neg (by rwa [decide_eq_true_iff])]
      exact ih rest later

end Lib.Runs
