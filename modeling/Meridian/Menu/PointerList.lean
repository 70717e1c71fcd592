import Mathlib.Data.List.Basic

/-!
# Lists of pointers

The model of `AddListElement` of `lib/lib.c`: an array of pointers that is allocated anew each time
the count passes a multiple of sixteen. Allocations succeed. What a write past the allocation hits is
left open; that there was one is kept.
-/

namespace Meridian.Menu

variable {α : Type}

/-- A list pointer with its element count; a slot holds no pointer until it is written. -/
structure PointerList (α : Type) where
  slots : Option (List (Option α)) := none
  count : Nat := 0
  /-- Every write so far was inside the allocation. -/
  inside : Bool := true
  deriving DecidableEq

/-- What the list's users read: the slots below the count. -/
def PointerList.elements (l : PointerList α) : List (Option α) :=
  (List.range l.count).map fun i => (l.slots.getD []).getD i none

/-- The allocation that the new element is written to. -/
def grownSlots (l : PointerList α) : List (Option α) :=
  match l.slots with
  | none => List.replicate (l.count + 16) none
  | some slots =>
    if l.count % 16 = 0 then
      if l.count = 0 then List.replicate 16 none
      else
        -- `EfiReallocatePool` copies the elements into a zeroed allocation
        let old := slots.take l.count
        old ++ List.replicate (l.count + 16 - old.length) none
    else slots

def addListElement (l : PointerList α) (element : α) : PointerList α :=
  { slots := some ((grownSlots l).set l.count (some element))
    count := l.count + 1
    inside := l.inside && l.count < (grownSlots l).length }

/-! ### Lists that only `AddListElement` builds -/

/-- The list holds exactly these elements, in an allocation that the next growth fits. -/
structure Holds (l : PointerList α) (elements : List α) : Prop where
  inside : l.inside = true
  count : l.count = elements.length
  slots : elements = [] ∧ l.slots = none ∨
    ∃ free, l.slots = some (elements.map some ++ List.replicate free none) ∧
      elements ≠ [] ∧ (elements.length + free) % 16 = 0

theorem Holds.empty : Holds ({} : PointerList α) [] := ⟨rfl, rfl, .inl ⟨rfl, rfl⟩⟩

theorem set_free (elements : List α) (free : Nat) (element : α) :
    (elements.map some ++ List.replicate (free + 1) none).set elements.length (some element) =
      (elements ++ [element]).map some ++ List.replicate free none := by
  have position : elements.length = (elements.map some).length := (List.length_map ..).symm
  rw [position, List.set_append_right _ _ (Nat.le_refl _), Nat.sub_self, List.replicate_succ,
    List.set_cons_zero, List.map_append, List.append_assoc]
  rfl

theorem Holds.grownSlots {l : PointerList α} {elements : List α} (h : Holds l elements) :
    ∃ free, grownSlots l = elements.map some ++ List.replicate (free + 1) none ∧
      (elements.length + (free + 1)) % 16 = 0 := by
  obtain ⟨_, count, ⟨rfl, null⟩ | ⟨free, same, nonempty, whole⟩⟩ := h
  · refine ⟨15, ?_, by rw [List.length_nil]⟩
    rw [Menu.grownSlots, null, count]
    rfl
  · have positive : elements.length ≠ 0 := fun zero => nonempty (List.length_eq_zero_iff.mp zero)
    rw [Menu.grownSlots, same]
    dsimp only
    by_cases full : l.count % 16 = 0
    · refine ⟨15, ?_, by omega⟩
      have old : (elements.map some ++ List.replicate free none).take l.count =
          elements.map some := by
        rw [count, List.take_left' (List.length_map ..)]
      have room : l.count + 16 - (elements.map some).length = 15 + 1 := by
        rw [List.length_map]
        omega
      rw [if_pos full, if_neg (by omega), old, room]
    · obtain ⟨room, rfl⟩ : ∃ room, free = room + 1 := ⟨free - 1, by omega⟩
      exact ⟨room, if_neg full, whole⟩

theorem Holds.add {l : PointerList α} {elements : List α} (h : Holds l elements) (element : α) :
    Holds (addListElement l element) (elements ++ [element]) := by
  obtain ⟨free, grown, whole⟩ := h.grownSlots
  have length : (elements ++ [element]).length = elements.length + 1 := by
    rw [List.length_append, List.length_singleton]
  refine ⟨?_, ?_, .inr ⟨free, ?_, ?_, ?_⟩⟩
  · show (l.inside && decide (l.count < (Menu.grownSlots l).length)) = true
    rw [h.inside, Bool.true_and, decide_eq_true_iff, h.count, grown, List.length_append,
      List.length_map, List.length_replicate]
    omega
  · rw [length, ← h.count]
    rfl
  · show some ((Menu.grownSlots l).set l.count (some element)) = _
    rw [grown, h.count, set_free]
  · exact List.append_ne_nil_of_right_ne_nil _ (List.cons_ne_nil _ _)
  · rw [length]
    omega

theorem Holds.elements {l : PointerList α} {elements : List α} (h : Holds l elements) :
    l.elements = elements.map some := by
  obtain ⟨_, count, ⟨rfl, null⟩ | ⟨free, same, _, _⟩⟩ := h
  · rw [PointerList.elements, count]
    rfl
  · rw [PointerList.elements, count, same]
    apply List.ext_getElem
    · rw [List.length_map, List.length_range, List.length_map]
    · intro i small _
      rw [List.length_map, List.length_range] at small
      rw [List.getElem_map, List.getElem_range, List.getElem_map]
      show (elements.map some ++ List.replicate free none).getD i none = _
      rw [List.getD_eq_getElem?_getD, List.getElem?_append_left (by rw [List.length_map]; exact small),
        List.getElem?_map, List.getElem?_eq_getElem small]
      rfl

theorem Holds.addAll {l : PointerList α} {elements : List α} (h : Holds l elements)
    (more : List α) : Holds (more.foldl addListElement l) (elements ++ more) := by
  induction more generalizing l elements with
  | nil =>
    rw [List.append_nil]
    exact h
  | cons element more ih =>
    have next := ih (h.add element)
    rw [List.append_assoc] at next
    exact next

/-! ### Writes past the allocation -/

theorem addListElement_outside {l : PointerList α} (h : l.inside = false) (element : α) :
    (addListElement l element).inside = false := by
  show (l.inside && _) = false
  rw [h, Bool.false_and]

/-- A full array overflows at a count at which it does not grow. -/
theorem addListElement_full {l : PointerList α} {slots : List (Option α)} (h : l.slots = some slots)
    (full : slots.length ≤ l.count) (still : l.count % 16 ≠ 0) (element : α) :
    (addListElement l element).inside = false := by
  have same : grownSlots l = slots := by
    rw [grownSlots, h]
    exact if_neg still
  show (l.inside && decide (l.count < (grownSlots l).length)) = false
  rw [same, decide_eq_false (Nat.not_lt.mpr full), Bool.and_false]

end Meridian.Menu
