import Mathlib.Data.List.Basic
import Mathlib.Data.List.TakeWhile
import Mathlib.Order.Basic
import Mathlib.Order.Defs.LinearOrder
import Mathlib.Order.Lattice

/-!
# Search trees of a list

A tree of a given height holds a list: a leaf has elements, and an inner node has children behind pointers. The
list is strictly ordered by its keys, and the pointer to a child has the least key below it. A search splits the
list at a bound: it goes to the last child whose pointer is not above the bound, down to a leaf.
-/

namespace Lib.SearchTree

variable {κ α β : Type}

/-! ### Lists in order -/

section
variable [LinearOrder κ] (key : α → κ) (bound : κ)

/-- The elements up to a bound, and those above it. -/
def upTo (l : List α) : List α := l.takeWhile (key · ≤ bound)

def above (l : List α) : List α := l.dropWhile (key · ≤ bound)

variable {key bound}

theorem upTo_append_above (l : List α) : upTo key bound l ++ above key bound l = l :=
  List.takeWhile_append_dropWhile

theorem upTo_cons {e : α} (le : key e ≤ bound) (l : List α) : upTo key bound (e :: l) = e :: upTo key bound l :=
  List.takeWhile_cons_of_pos (decide_eq_true le)

theorem upTo_cons_of_lt {e : α} (lt : bound < key e) (l : List α) : upTo key bound (e :: l) = [] :=
  List.takeWhile_cons_of_neg (by rw [decide_eq_true_iff]; exact not_le.mpr lt)

theorem above_cons {e : α} (le : key e ≤ bound) (l : List α) : above key bound (e :: l) = above key bound l :=
  List.dropWhile_cons_of_pos (decide_eq_true le)

theorem above_cons_of_lt {e : α} (lt : bound < key e) (l : List α) : above key bound (e :: l) = e :: l :=
  List.dropWhile_cons_of_neg (by rw [decide_eq_true_iff]; exact not_le.mpr lt)

/-- Elements in front that are not above the bound. -/
theorem split_append {l : List α} (le : ∀ e ∈ l, key e ≤ bound) (m : List α) :
    upTo key bound (l ++ m) = l ++ upTo key bound m ∧ above key bound (l ++ m) = above key bound m := by
  induction l with
  | nil => exact ⟨rfl, rfl⟩
  | cons e l ih =>
    obtain ⟨first, rest⟩ := List.forall_mem_cons.mp le
    obtain ⟨up, ab⟩ := ih rest
    rw [List.cons_append, upTo_cons first, above_cons first, up, ab]
    exact ⟨rfl, rfl⟩

/-- Elements behind, of which the first one is above the bound. -/
theorem split_append_above (l : List α) {m : List α} (lt : ∀ e ∈ m.head?, bound < key e) :
    upTo key bound (l ++ m) = upTo key bound l ∧ above key bound (l ++ m) = above key bound l ++ m := by
  induction l with
  | nil =>
    cases m with
    | nil => exact ⟨rfl, rfl⟩
    | cons e m => exact ⟨upTo_cons_of_lt (lt e rfl) m, above_cons_of_lt (lt e rfl) m⟩
  | cons e l ih =>
    obtain ⟨up, ab⟩ := ih
    rcases le_or_gt (key e) bound with le | gt
    · rw [List.cons_append, upTo_cons le, upTo_cons le, above_cons le, above_cons le, up, ab]
      exact ⟨rfl, rfl⟩
    · rw [List.cons_append, upTo_cons_of_lt gt, upTo_cons_of_lt gt, above_cons_of_lt gt, above_cons_of_lt gt]
      exact ⟨rfl, rfl⟩

theorem le_of_mem_upTo {l : List α} {e : α} (mem : e ∈ upTo key bound l) : key e ≤ bound := by
  have taken := List.mem_takeWhile_imp mem
  exact of_decide_eq_true taken

theorem head_above (l : List α) : ∀ e ∈ (above key bound l).head?, bound < key e := by
  induction l with
  | nil => exact fun e none => absurd none (Option.some_ne_none e).symm
  | cons e l ih =>
    rcases le_or_gt (key e) bound with le | gt
    · rw [above_cons le]
      exact ih
    · rw [above_cons_of_lt gt]
      rintro e' ⟨⟩
      exact gt

/-- In a list in order, the last element up to the bound is the one with the greatest key up to it. -/
theorem getLast?_upTo {l : List α} (ordered : l.Pairwise fun e e' => key e < key e') {e : α} :
    (upTo key bound l).getLast? = some e ↔
      e ∈ l ∧ key e ≤ bound ∧ ∀ e' ∈ l, key e' ≤ bound → key e' ≤ key e := by
  induction l generalizing e with
  | nil => exact iff_of_false (Option.some_ne_none e).symm fun found => absurd found.1 List.not_mem_nil
  | cons x l ih =>
    obtain ⟨first, rest⟩ := List.pairwise_cons.mp ordered
    rcases le_or_gt (key x) bound with le | gt
    · rw [upTo_cons le, List.getLast?_cons]
      cases last : (upTo key bound l).getLast? with
      | none =>
        have empty : ∀ e' ∈ l, bound < key e' := by
          intro e' mem
          rw [List.getLast?_eq_none_iff] at last
          have whole := @upTo_append_above _ _ _ key bound l
          rw [last, List.nil_append] at whole
          have heads := @head_above _ _ _ key bound l
          rw [whole] at heads
          cases l with
          | nil => exact absurd mem List.not_mem_nil
          | cons y l =>
            have head := heads y rfl
            rcases List.mem_cons.mp mem with rfl | later
            · exact head
            · exact lt_trans head ((List.pairwise_cons.mp rest).1 e' later)
        constructor
        · rintro ⟨⟩
          refine ⟨List.mem_cons_self, le, fun e' mem le' => ?_⟩
          rcases List.mem_cons.mp mem with rfl | later
          · exact le_refl _
          · exact absurd le' (not_le.mpr (empty e' later))
        · rintro ⟨mem, le', _⟩
          rcases List.mem_cons.mp mem with rfl | later
          · rfl
          · exact absurd le' (not_le.mpr (empty e later))
      | some y =>
        obtain ⟨memY, leY, greatest⟩ := (ih rest).mp last
        constructor
        · rintro ⟨⟩
          refine ⟨List.mem_cons_of_mem x memY, leY, fun e' mem le' => ?_⟩
          rcases List.mem_cons.mp mem with rfl | later
          · exact le_of_lt (first y memY)
          · exact greatest e' later le'
        · rintro ⟨mem, le', greatest'⟩
          have upper := greatest' y (List.mem_cons_of_mem x memY) leY
          rcases List.mem_cons.mp mem with rfl | later
          · exact absurd upper (not_le.mpr (first y memY))
          · exact last.symm.trans ((ih rest).mpr ⟨later, le', fun e' mem' =>
              greatest' e' (List.mem_cons_of_mem x mem')⟩)
    · rw [upTo_cons_of_lt gt]
      refine iff_of_false (Option.some_ne_none e).symm fun found => ?_
      rcases List.mem_cons.mp found.1 with rfl | later
      · exact absurd found.2.1 (not_le.mpr gt)
      · exact absurd (lt_of_lt_of_le (lt_trans gt (first e later)) found.2.1) (lt_irrefl _)

/-- The element with a key is the last one up to it, if that has the key. -/
theorem find?_eq_last {l : List α} (ordered : l.Pairwise fun e e' => key e < key e') {p : α → Bool}
    (is : ∀ e, p e ↔ key e = bound) : l.find? p = (upTo key bound l).getLast?.filter p := by
  cases found : l.find? p with
  | some e =>
    have same := (is e).mp (List.find?_some found)
    have last := (@getLast?_upTo _ _ _ key bound l ordered e).mpr
      ⟨List.mem_of_find?_eq_some found, le_of_eq same, fun e' _ le => same ▸ le⟩
    rw [last, Option.filter_some, if_pos (List.find?_some found)]
  | none =>
    cases last : (upTo key bound l).getLast? with
    | none => rfl
    | some e =>
      have mem := ((@getLast?_upTo _ _ _ key bound l ordered e).mp last).1
      rw [Option.filter_some, if_neg (List.find?_eq_none.mp found e mem)]

theorem lt_of_mem_above {l : List α} (ordered : l.Pairwise fun e e' => key e < key e') {e : α}
    (mem : e ∈ above key bound l) : bound < key e := by
  have heads := @head_above _ _ _ key bound l
  have later := ordered.sublist (List.dropWhile_sublist fun e => decide (key e ≤ bound))
  change (above key bound l).Pairwise _ at later
  cases rest : above key bound l with
  | nil =>
    rw [rest] at mem
    exact absurd mem List.not_mem_nil
  | cons x m =>
    rw [rest] at mem heads later
    have head := heads x rfl
    rcases List.mem_cons.mp mem with rfl | behind
    · exact head
    · exact lt_trans head ((List.pairwise_cons.mp later).1 e behind)

/-- The elements above a bound, as a part of the list. -/
theorem filter_above {l : List α} (ordered : l.Pairwise fun e e' => key e < key e') (p : α → Bool) :
    (above key bound l).filter p = l.filter fun e => p e && decide (bound < key e) := by
  conv_rhs => rw [← @upTo_append_above _ _ _ key bound l, List.filter_append]
  have none : (upTo key bound l).filter (fun e => p e && decide (bound < key e)) = [] := by
    refine List.filter_eq_nil_iff.mpr fun e mem => ?_
    rw [decide_eq_false (not_lt.mpr (le_of_mem_upTo mem)), Bool.and_false]
    exact Bool.false_ne_true
  rw [none, List.nil_append]
  refine List.filter_congr fun e mem => ?_
  rw [decide_eq_true (lt_of_mem_above ordered mem), Bool.and_true]

/-- Where a property is lost for good, the elements with it are those in front. -/
theorem takeWhile_eq_filter {p : α → Bool} {l : List α} (closed : l.Pairwise fun e e' => p e' → p e) :
    l.takeWhile p = l.filter p := by
  induction l with
  | nil => rfl
  | cons e l ih =>
    obtain ⟨first, rest⟩ := List.pairwise_cons.mp closed
    by_cases here : p e
    · rw [List.takeWhile_cons_of_pos here, List.filter_cons_of_pos here, ih rest]
    · rw [List.takeWhile_cons_of_neg here, List.filter_cons_of_neg here]
      exact (List.filter_eq_nil_iff.mpr fun e' mem holds => here (first e' mem holds)).symm

end

/-! ### Trees -/

/-- A tree of a height, of pointers `β` and elements `α`. -/
@[reducible] def Tree (β α : Type) : Nat → Type
  | 0 => List α
  | n + 1 => List (β × Tree β α n)

namespace Tree

/-- The elements of a tree, from left to right. -/
def items : (n : Nat) → Tree β α n → List α
  | 0, elements => elements
  | n + 1, children => List.flatMap (fun child => items n child.2) children

/-- The elements of the children of an inner node. -/
def below {n : Nat} (children : List (β × Tree β α n)) : List α := children.flatMap fun child => items n child.2

theorem below_append {n : Nat} (l m : List (β × Tree β α n)) : below (l ++ m) = below l ++ below m :=
  List.flatMap_append

theorem below_cons {n : Nat} (child : β × Tree β α n) (l : List (β × Tree β α n)) :
    below (child :: l) = items n child.2 ++ below l := List.flatMap_cons

variable (ptr : β → κ) (key : α → κ)

/-- Of children in order, the first element below them has the pointer's key. -/
theorem head_below {n : Nat} {children : List (β × Tree β α n)}
    (heads : ∀ child ∈ children, (items n child.2).head?.map key = some (ptr child.1)) :
    (below children).head?.map key = children.head?.map fun child => ptr child.1 := by
  cases children with
  | nil => rfl
  | cons child l =>
    have head := heads child List.mem_cons_self
    rw [below_cons]
    cases found : items n child.2 with
    | nil =>
      rw [found] at head
      cases head
    | cons e rest =>
      rw [found] at head
      exact head

variable [LinearOrder κ]

/-- The elements are in order, and the pointer to a child has its least key. -/
def Ordered : (n : Nat) → Tree β α n → Prop
  | 0, elements => List.Pairwise (fun e e' => key e < key e') elements
  | n + 1, children =>
    List.Pairwise (fun c d => ptr c.1 < ptr d.1 ∧ ∀ e ∈ items n c.2, key e < ptr d.1) children ∧
      ∀ child ∈ children, Ordered n child.2 ∧ (items n child.2).head?.map key = some (ptr child.1)

variable {ptr key} {bound : κ}

/-- A child has an element at its pointer, which is its first one. -/
theorem Ordered.first {n : Nat} {children : Tree β α (n + 1)} (ordered : Ordered ptr key (n + 1) children)
    {child : β × Tree β α n} (mem : child ∈ children) :
    ∃ x rest, items n child.2 = x :: rest ∧ key x = ptr child.1 := by
  have head := (ordered.2 child mem).2
  cases found : items n child.2 with
  | nil =>
    rw [found] at head
    cases head
  | cons x rest =>
    rw [found] at head
    exact ⟨x, rest, rfl, Option.some.inj head⟩

theorem Ordered.pairwise {n : Nat} {t : Tree β α n} (ordered : Ordered ptr key n t) :
    (items n t).Pairwise fun e e' => key e < key e' := by
  induction n with
  | zero => exact ordered
  | succ n ih =>
    have each := fun child mem => ih (ordered.2 child mem).1
    refine List.pairwise_flatMap.mpr ⟨each, ?_⟩
    refine ordered.1.imp_of_mem fun {c d} _ memD apart e mem e' mem' => ?_
    obtain ⟨x, rest, found, least⟩ := ordered.first memD
    have inOrder := each d memD
    have before := apart.2 e mem
    rw [found] at mem' inOrder
    rw [← least] at before
    rcases List.mem_cons.mp mem' with rfl | later
    · exact before
    · exact lt_trans before ((List.pairwise_cons.mp inOrder).1 e' later)

/-- The pointer to a child is not above the elements below it. -/
theorem Ordered.ptr_le {n : Nat} {children : Tree β α (n + 1)} (ordered : Ordered ptr key (n + 1) children)
    {child : β × Tree β α n} (mem : child ∈ children) {e : α} (below : e ∈ items n child.2) :
    ptr child.1 ≤ key e := by
  have sorted := (ordered.2 child mem).1.pairwise
  obtain ⟨x, rest, found, least⟩ := ordered.first mem
  rw [found] at below sorted
  rw [← least]
  rcases List.mem_cons.mp below with rfl | later
  · exact le_refl _
  · exact le_of_lt ((List.pairwise_cons.mp sorted).1 e later)

variable (ptr key bound)

/-- What a search finds: the last element up to the bound, and the elements above it. -/
def search : (n : Nat) → Tree β α n → Option α × List α
  | 0, elements => ((upTo key bound elements).getLast?, above key bound elements)
  | n + 1, children =>
    match (upTo (fun child => ptr child.1) bound children).getLast? with
    | none => (none, below children)
    | some child =>
      let found := search n child.2
      (found.1, found.2 ++ below (above (fun child => ptr child.1) bound children))

variable {ptr key bound}

/-- A search splits the list of the tree. -/
theorem search_eq {n : Nat} {t : Tree β α n} (ordered : Ordered ptr key n t) :
    search ptr key bound n t = ((upTo key bound (items n t)).getLast?, above key bound (items n t)) := by
  induction n with
  | zero => rfl
  | succ n ih =>
    obtain ⟨inOrder, each⟩ := ordered
    rw [search]
    have whole := @upTo_append_above _ _ _ (fun child : β × Tree β α n => ptr child.1) bound t
    have heads : ∀ child ∈ above (fun child : β × Tree β α n => ptr child.1) bound t,
        (items n child.2).head?.map key = some (ptr child.1) := by
      intro child mem
      refine (each child ?_).2
      rw [← whole]
      exact List.mem_append_right _ mem
    have headAbove := @head_above _ _ _ (fun child : β × Tree β α n => ptr child.1) bound t
    have le := fun child => @le_of_mem_upTo _ _ _ (fun child : β × Tree β α n => ptr child.1) bound t child
    generalize upTo (fun child : β × Tree β α n => ptr child.1) bound t = pre at *
    generalize above (fun child : β × Tree β α n => ptr child.1) bound t = post at *
    subst whole
    have behind : ∀ e ∈ (below post).head?, bound < key e := by
      intro e head
      have same := head_below ptr key heads
      rw [head] at same
      cases first : post.head? with
      | none =>
        rw [first] at same
        cases same
      | some child =>
        rw [first] at same
        exact lt_of_lt_of_eq (headAbove child first) (Option.some.inj same).symm
    change _ = ((upTo key bound (below (pre ++ post))).getLast?, above key bound (below (pre ++ post)))
    rcases List.eq_nil_or_concat pre with rfl | ⟨init, child, same⟩
    · obtain ⟨up, ab⟩ := split_append_above [] behind
      rw [List.nil_append] at up ab
      rw [List.nil_append, up, ab]
      rfl
    · rw [List.concat_eq_append] at same
      subst same
      have mem : child ∈ init ++ [child] := List.mem_append_right _ (List.mem_singleton.mpr rfl)
      obtain ⟨ordered', head⟩ := each child (List.mem_append_left _ mem)
      have before : ∀ e ∈ below init, key e ≤ bound := by
        intro e memE
        obtain ⟨c, memC, memE⟩ := List.mem_flatMap.mp memE
        obtain ⟨pairs, _, _⟩ := List.pairwise_append.mp inOrder
        have apart := (List.pairwise_append.mp pairs).2.2 c memC child (List.mem_singleton.mpr rfl)
        exact le_trans (le_of_lt (apart.2 e memE)) (le child mem)
      obtain ⟨upBelow, aboveBelow⟩ := split_append before (items n child.2 ++ below post)
      obtain ⟨upItems, aboveItems⟩ := split_append_above (items n child.2) behind
      have some : upTo key bound (items n child.2) ≠ [] := by
        cases found : items n child.2 with
        | nil =>
          rw [found] at head
          cases head
        | cons e rest =>
          rw [found] at head
          have first : key e ≤ bound := le_of_eq_of_le (Option.some.inj head) (le child mem)
          rw [upTo_cons first]
          exact List.cons_ne_nil _ _
      have whole : below (init ++ [child] ++ post) = below init ++ (items n child.2 ++ below post) := by
        rw [List.append_assoc, below_append, List.singleton_append, below_cons]
      rw [List.getLast?_concat, whole, upBelow, aboveBelow, upItems, aboveItems,
        List.getLast?_append_of_ne_nil _ some]
      dsimp only
      rw [ih ordered']

end Tree

end Lib.SearchTree
