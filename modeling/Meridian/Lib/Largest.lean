import Mathlib.Data.List.Induction
import Mathlib.Data.List.InsertIdx
import Mathlib.Data.List.MinMax
import Mathlib.Data.List.Sort

/-!
# The largest elements of a list

`keep` inserts an element into a descending list that holds `n` elements at most. Folded over a list,
it keeps the `n` largest elements, whatever their order is.
-/

namespace Lib.Largest

variable {α : Type} [LinearOrder α] {n : Nat} {l top : List α} {x : α}

/-- Insertion before the first smaller element; what comes to stand behind the first `n` is dropped. -/
def keep (n : Nat) (top : List α) (x : α) : List α := (top.orderedInsert (· > ·) x).take n

/-- The list holds the `n` largest elements of `l`, all of them when there are fewer. -/
structure IsTop (n : Nat) (l top : List α) : Prop where
  sorted : top.Pairwise (· ≥ ·)
  short : top.length ≤ n
  split : ∃ rest, (top ++ rest).Perm l ∧ (∀ x ∈ top, ∀ y ∈ rest, y ≤ x) ∧ (rest = [] ∨ top.length = n)

/-! ### Keeping one element more -/

theorem orderedInsert_sorted (sorted : top.Pairwise (· ≥ ·)) :
    (top.orderedInsert (· > ·) x).Pairwise (· ≥ ·) := by
  induction top with
  | nil => exact List.pairwise_singleton _ x
  | cons y top ih =>
    obtain ⟨first, later⟩ := List.pairwise_cons.mp sorted
    rw [List.orderedInsert_cons]
    split
    · rename_i larger
      refine List.pairwise_cons.mpr ⟨?_, sorted⟩
      intro z mem
      rcases List.mem_cons.mp mem with rfl | mem
      · exact le_of_lt larger
      · exact le_trans (first z mem) (le_of_lt larger)
    · rename_i notLarger
      refine List.pairwise_cons.mpr ⟨?_, ih later⟩
      intro z mem
      rcases (List.mem_orderedInsert _).mp mem with rfl | mem
      · exact le_of_not_gt notLarger
      · exact first z mem

theorem orderedInsert_eq_insertIdx (top : List α) (x : α) :
    top.orderedInsert (· > ·) x = top.insertIdx (top.findIdx fun y => decide (x > y)) x := by
  induction top with
  | nil => rfl
  | cons y top ih =>
    rw [List.orderedInsert_cons, List.findIdx_cons]
    by_cases larger : x > y
    · rw [if_pos larger, decide_eq_true larger, cond_true, List.insertIdx_zero]
    · rw [if_neg larger, decide_eq_false larger, cond_false, List.insertIdx_succ_cons, ih]

theorem IsTop.keep (h : IsTop n l top) (x : α) : IsTop n (l ++ [x]) (Largest.keep n top x) := by
  obtain ⟨rest, parts, above, full⟩ := h.split
  set inserted := top.orderedInsert (· > ·) x with insertedEq
  have perm : inserted.Perm (x :: top) := List.perm_orderedInsert _ x top
  have sorted : inserted.Pairwise (· ≥ ·) := orderedInsert_sorted h.sorted
  have length : inserted.length = top.length + 1 := perm.length_eq
  have cut : inserted.take n ++ inserted.drop n = inserted := List.take_append_drop n inserted
  rw [← cut, List.pairwise_append] at sorted
  refine ⟨sorted.1, List.length_take_le n inserted, inserted.drop n ++ rest, ?_, ?_, ?_⟩
  · calc inserted.take n ++ (inserted.drop n ++ rest)
      _ = inserted ++ rest := by rw [← List.append_assoc, cut]
      _ |>.Perm ((x :: top) ++ rest) := perm.append_right rest
      _ |>.Perm (x :: l) := parts.cons x
      _ |>.Perm (l ++ [x]) := (List.perm_append_singleton x l).symm
  · intro y kept z out
    rcases List.mem_append.mp out with dropped | old
    · exact sorted.2.2 y kept z dropped
    · -- The list was full: what is dropped now stands between the two.
      have whole : top.length = n := full.resolve_left (List.ne_nil_of_mem old)
      have one : (inserted.drop n).length = 1 := by rw [List.length_drop]; omega
      obtain ⟨last, lastEq⟩ := List.length_eq_one_iff.mp one
      have lastMem : last ∈ x :: top :=
        perm.mem_iff.mp (List.mem_of_mem_drop (lastEq ▸ List.mem_singleton_self last))
      have lastLe : last ≤ y := sorted.2.2 y kept last (lastEq ▸ List.mem_singleton_self last)
      rcases List.mem_cons.mp lastMem with rfl | lastMem
      · have same : (inserted.take n).Perm top := by
          rw [← cut, lastEq] at perm
          exact (List.perm_cons last).mp ((List.perm_append_singleton last _).symm.trans perm)
        exact above y (same.mem_iff.mp kept) z old
      · exact le_trans (above last lastMem z old) lastLe
  · by_cases fits : inserted.length ≤ n
    · rcases full with none | whole
      · exact Or.inl (by rw [none, List.append_nil]; exact List.drop_eq_nil_of_le fits)
      · omega
    · right
      rw [Largest.keep, ← insertedEq, List.length_take]
      omega

theorem isTop_nil : IsTop n ([] : List α) [] where
  sorted := List.Pairwise.nil
  short := Nat.zero_le n
  split := ⟨[], List.Perm.refl _, fun _ mem => (nomatch mem), Or.inl rfl⟩

theorem isTop_foldl (n : Nat) (l : List α) : IsTop n l (l.foldl (keep n) []) := by
  induction l using List.reverseRecOn with
  | nil => exact isTop_nil
  | append_singleton l x ih =>
    rw [List.foldl_append]
    exact ih.keep x

/-! ### The largest element -/

/-- The first of the largest elements does not depend on the order, where no two elements tie. -/
theorem argmax_perm {β : Type} {score : β → α} {l l' : List β} (perm : l.Perm l')
    (ties : ∀ a ∈ l, ∀ b ∈ l, score a = score b → a = b) : l.argmax score = l'.argmax score := by
  cases most : l.argmax score with
  | none =>
    rw [List.argmax_eq_none] at most
    rw [most] at perm
    rw [← perm.nil_eq]
    rfl
  | some a =>
    cases most' : l'.argmax score with
    | none =>
      rw [List.argmax_eq_none] at most'
      rw [most', List.perm_nil] at perm
      rw [perm] at most
      cases most
    | some b =>
      have memA := List.argmax_mem most
      have memB := perm.mem_iff.mpr (List.argmax_mem most')
      have below := List.le_of_mem_argmax memB most
      have above := List.le_of_mem_argmax (perm.mem_iff.mp memA) most'
      rw [ties a memA b memB (le_antisymm above below)]

/-! ### Which elements are kept -/

/-- How many elements of the list are larger. -/
def rank (l : List α) (x : α) : Nat := l.countP (x < ·)

theorem rank_cons (y : α) (l : List α) (x : α) :
    rank (y :: l) x = rank l x + if x < y then 1 else 0 := by
  rw [rank, List.countP_cons, rank]
  simp only [decide_eq_true_eq]

variable (h : IsTop n l top)

include h

theorem IsTop.mem (mem : x ∈ top) : x ∈ l := by
  obtain ⟨rest, parts, -, -⟩ := h.split
  exact parts.mem_iff.mp (List.mem_append_left rest mem)

theorem IsTop.covers (mem : x ∈ l) (out : x ∉ top ∨ top.count x < l.count x) :
    top.length = n ∧ ∀ y ∈ top, x ≤ y := by
  obtain ⟨rest, parts, above, full⟩ := h.split
  have inRest : x ∈ rest := by
    rcases out with out | fewer
    · exact (List.mem_append.mp (parts.mem_iff.mpr mem)).resolve_left out
    · rw [← parts.count_eq, List.count_append] at fewer
      exact List.count_pos_iff.mp (by omega)
  exact ⟨full.resolve_left (List.ne_nil_of_mem inRest), fun y kept => above y kept x inRest⟩

theorem IsTop.exists_ge (room : 0 < n) (mem : x ∈ l) : ∃ y ∈ top, x ≤ y := by
  by_cases here : x ∈ top
  · exact ⟨x, here, le_refl x⟩
  · obtain ⟨whole, least⟩ := h.covers mem (Or.inl here)
    obtain ⟨y, kept⟩ := List.exists_mem_of_length_pos (whole.symm ▸ room)
    exact ⟨y, kept, least y kept⟩

/-- The elements above a kept one are all kept. -/
theorem IsTop.rank_eq (mem : x ∈ top) : rank l x = rank top x := by
  obtain ⟨rest, parts, above, -⟩ := h.split
  have none : rest.countP (x < ·) = 0 :=
    List.countP_eq_zero.mpr fun y out => by simpa using above x mem y out
  rw [rank, ← parts.countP_eq, List.countP_append, none, Nat.add_zero, rank]

omit h in
theorem rank_add_count_le (l : List α) (x : α) : rank l x + l.count x ≤ l.length := by
  induction l with
  | nil => exact Nat.le_refl 0
  | cons y l ih =>
    rw [rank_cons, List.count_cons, List.length_cons]
    by_cases larger : x < y
    · have differs : ¬ (y == x) = true := by simpa using ne_of_gt larger
      rw [if_pos larger, if_neg differs]
      omega
    · rw [if_neg larger]
      split <;> omega

omit h in
theorem rank_add_count (l : List α) (x : α) (least : ∀ y ∈ l, x ≤ y) :
    rank l x + l.count x = l.length := by
  induction l with
  | nil => rfl
  | cons y l ih =>
    have before := ih fun z mem => least z (List.mem_cons_of_mem y mem)
    rw [rank_cons, List.count_cons, List.length_cons]
    rcases lt_or_eq_of_le (least y List.mem_cons_self) with larger | rfl
    · have differs : ¬ (y == x) = true := by simpa using ne_of_gt larger
      rw [if_pos larger, if_neg differs]
      omega
    · rw [if_neg (lt_irrefl x), if_pos (beq_self_eq_true x)]
      omega

theorem IsTop.mem_iff : x ∈ top ↔ x ∈ l ∧ rank l x < n := by
  constructor
  · intro mem
    have counted : 0 < top.count x := List.count_pos_iff.mpr mem
    have bound := rank_add_count_le top x
    have short := h.short
    exact ⟨h.mem mem, by rw [h.rank_eq mem]; omega⟩
  · rintro ⟨mem, low⟩
    by_contra out
    obtain ⟨whole, least⟩ := h.covers mem (Or.inl out)
    have all := rank_add_count top x least
    obtain ⟨rest, parts, -, -⟩ := h.split
    have more : rank top x ≤ rank l x := by
      rw [rank, rank, ← parts.countP_eq, List.countP_append]
      omega
    rw [List.count_eq_zero.mpr out] at all
    omega

/-- No element is kept twice when each one that is kept stands in the list once, or is the last one
that is kept. -/
theorem IsTop.strict_iff :
    top.Pairwise (· > ·) ↔ ∀ x ∈ top, l.count x = 1 ∨ rank l x + 1 = n := by
  have nodup : top.Pairwise (· > ·) ↔ top.Nodup := by
    constructor
    · exact List.Pairwise.imp fun larger => ne_of_gt larger
    · exact fun distinct =>
        (List.Pairwise.and h.sorted distinct).imp fun both => lt_of_le_of_ne both.1 both.2.symm
  rw [nodup, List.nodup_iff_count_le_one]
  constructor
  · intro once x mem
    have kept : top.count x = 1 := Nat.le_antisymm (once x) (List.count_pos_iff.mpr mem)
    by_cases more : top.count x < l.count x
    · obtain ⟨whole, least⟩ := h.covers (h.mem mem) (Or.inr more)
      have all := rank_add_count top x least
      exact Or.inr (by rw [h.rank_eq mem]; omega)
    · obtain ⟨rest, parts, -, -⟩ := h.split
      rw [← parts.count_eq, List.count_append] at more ⊢
      exact Or.inl (by omega)
  · intro single x
    by_cases mem : x ∈ top
    · have bound := rank_add_count_le top x
      have short := h.short
      rcases single x mem with once | last
      · obtain ⟨rest, parts, -, -⟩ := h.split
        rw [← parts.count_eq, List.count_append] at once
        omega
      · rw [h.rank_eq mem] at last
        omega
    · rw [List.count_eq_zero.mpr mem]
      exact Nat.zero_le 1

end Lib.Largest
