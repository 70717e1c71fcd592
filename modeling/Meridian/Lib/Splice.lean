import Mathlib.Data.List.InsertIdx
import Mathlib.Logic.Function.Basic

/-!
# Insertion and removal in a buffer

The two loops that shift the cells of a buffer in place by one, and what they do to a list that the buffer
holds from its start: closing the gap at a cell erases it, and opening one makes room for an insertion.
-/

namespace Lib.Splice

variable {β : Type} {cells : Nat → β} {l : List β} {i : Nat}

/-- `for (i = start; i + 1 < len; i++) cells[i] = cells[i + 1]`, over the rounds that are left. -/
def closeGap (cells : Nat → β) (start : Nat) : Nat → Nat → β
  | 0 => cells
  | n + 1 => closeGap (Function.update cells start (cells (start + 1))) (start + 1) n

/-- `for (i = len; i > start; i--) cells[i] = cells[i - 1]`. -/
def openGap (cells : Nat → β) (start : Nat) : Nat → Nat → β
  | 0 => cells
  | i + 1 => if i + 1 > start then openGap (Function.update cells (i + 1) (cells i)) start i else cells

theorem closeGap_apply (cells : Nat → β) (start n k : Nat) :
    closeGap cells start n k = if start ≤ k ∧ k < start + n then cells (k + 1) else cells k := by
  induction n generalizing cells start with
  | zero => rw [closeGap, if_neg (by omega)]
  | succ n ih =>
    rw [closeGap, ih]
    by_cases first : k = start
    · subst first
      rw [if_neg (by omega), if_pos (by omega), Function.update_self]
    · by_cases inside : start ≤ k ∧ k < start + (n + 1)
      · rw [if_pos (by omega), if_pos inside, Function.update_of_ne (by omega)]
      · rw [if_neg (by omega), if_neg inside, Function.update_of_ne first]

theorem openGap_apply (cells : Nat → β) (start i k : Nat) :
    openGap cells start i k = if start < k ∧ k ≤ i then cells (k - 1) else cells k := by
  induction i generalizing cells with
  | zero => rw [openGap, if_neg (by omega)]
  | succ i ih =>
    rw [openGap]
    by_cases more : i + 1 > start
    · rw [if_pos more, ih]
      by_cases last : k = i + 1
      · subst last
        rw [if_neg (by omega), if_pos (by omega), Function.update_self, Nat.add_sub_cancel]
      · by_cases inside : start < k ∧ k ≤ i + 1
        · rw [if_pos (by omega), if_pos inside, Function.update_of_ne (by omega)]
        · rw [if_neg (by omega), if_neg inside, Function.update_of_ne last]
    · rw [if_neg more, if_neg (by omega)]

/-- The buffer holds the list from its first cell on. -/
def Holds (cells : Nat → β) (l : List β) : Prop := ∀ i (h : i < l.length), cells i = l[i]

theorem Holds.update (held : Holds cells l) (behind : l.length ≤ i) (b : β) :
    Holds (Function.update cells i b) l := by
  intro k inside
  rw [Function.update_of_ne (by omega)]
  exact held k inside

theorem Holds.erase (held : Holds cells l) (inside : i < l.length) :
    Holds (closeGap cells i (l.length - 1 - i)) (l.eraseIdx i) := by
  intro k within
  have length := List.length_eraseIdx_of_lt inside
  rw [closeGap_apply, List.getElem_eraseIdx]
  by_cases before : k < i
  · rw [if_neg (by omega), dif_pos before]
    exact held k _
  · rw [if_pos (by omega), dif_neg before]
    exact held (k + 1) _

theorem Holds.insert (held : Holds cells l) (inside : i ≤ l.length) (b : β) :
    Holds (Function.update (openGap cells i l.length) i b) (l.insertIdx i b) := by
  intro k within
  have length := List.length_insertIdx_of_le_length inside b
  rw [List.getElem_insertIdx within]
  by_cases before : k < i
  · rw [dif_pos before, Function.update_of_ne (by omega), openGap_apply, if_neg (by omega)]
    exact held k _
  · rw [dif_neg before]
    by_cases here : k = i
    · rw [dif_pos here, here, Function.update_self]
    · rw [dif_neg here, Function.update_of_ne here, openGap_apply, if_pos (by omega)]
      exact held (k - 1) _

end Lib.Splice
