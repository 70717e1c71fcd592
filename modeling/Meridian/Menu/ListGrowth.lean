import Meridian.Lib.Run
import Meridian.Menu.PointerList
import Mathlib.Algebra.Group.Nat.Defs

/-!
# Lists of pointers where memory runs out

`AddListElement` of `lib/lib.c` over `EfiReallocatePool` of `EfiLib/BmLib.c`, with allocations that may fail. Where
they succeed, a call does what it does in `Meridian.Menu.PointerList`. The old pool is freed even if there is no
new one, and the list then points to nothing.
-/

namespace Meridian.Menu

variable {α : Type}

/-! ### The list -/

/-- What the list pointer points to. -/
inductive ListPtr (α : Type) where
  | null
  | pool (slots : List (Option α))
  | freed
  deriving DecidableEq

/-- A call: the element, whether its allocation is granted, whether a kernel was started, so that nothing is freed
any more, and what a freed pool reads as. -/
structure AddCall (α : Type) where
  newElement : α
  granted : Bool
  kernelStarted : Bool
  stale : List (Option α)
  deriving DecidableEq

/-- The list and its count, with the elements that were added by calls that did not abort. -/
structure GrownList (α : Type) where
  listPtr : ListPtr α := .null
  elementCount : Nat := 0
  /-- Every write so far was inside the current allocation. -/
  inside : Bool := true
  added : List α := []
  deriving DecidableEq

def ListPtr.slots : ListPtr α → List (Option α)
  | .pool slots => slots
  | _ => []

def ListPtr.bytes (listPtr : ListPtr α) : Nat := 8 * listPtr.slots.length

/-- A pool that is granted has its place beside the one that is still held. -/
def AddCall.allocates (call : AddCall α) (held size : Nat) : Bool := call.granted && held + size ≤ 2 ^ 64

/-- `AllocatePool`. -/
def AddCall.allocatePool (call : AddCall α) (held size : Nat) : Option (ListPtr α) :=
  if call.allocates held size then some (.pool (List.replicate (size / 8) none)) else none

/-- What a copy of a pool reads. -/
def ListPtr.contents (stale : List (Option α)) : ListPtr α → List (Option α)
  | .pool slots => slots
  | .null => []
  | .freed => stale

/-- `EfiReallocatePool`: the new pool, and what is left of the old one. -/
def AddCall.efiReallocatePool (call : AddCall α) (oldPool : ListPtr α) (oldSize newSize : Nat) :
    Option (ListPtr α) × ListPtr α :=
  let newPool :=
    if newSize ≠ 0 ∧ call.allocates oldPool.bytes newSize = true then
      let copied := (oldPool.contents call.stale).take (min oldSize newSize / 8)
      some (.pool (copied ++ List.replicate (newSize / 8 - copied.length) none))
    else none
  (newPool, if call.kernelStarted then oldPool else .freed)

/-- `(*ListPtr)[*ElementCount] = NewElement; (*ElementCount)++`. -/
def GrownList.store (l : GrownList α) (listPtr : ListPtr α) (newElement : α) : GrownList α where
  listPtr :=
    match listPtr with
    | .pool slots => .pool (slots.set l.elementCount (some newElement))
    | other => other
  elementCount := (l.elementCount + 1) % 2 ^ 64
  inside := l.inside && l.elementCount < listPtr.slots.length
  added := l.added ++ [newElement]

/-- `AddListElement`. -/
def GrownList.add (l : GrownList α) (call : AddCall α) : GrownList α :=
  let allocatePointer := 8 * (l.elementCount + 16) % 2 ^ 64
  let elementPointer := 8 * l.elementCount % 2 ^ 64
  match l.listPtr with
  | .null =>
    match call.allocatePool 0 allocatePointer with
    | none => l
    | some tmpListPtr => l.store tmpListPtr call.newElement
  | listPtr =>
    if l.elementCount % 16 = 0 then
      if l.elementCount = 0 then
        match call.allocatePool listPtr.bytes allocatePointer with
        | none => { l with listPtr := if call.kernelStarted then listPtr else .null }
        | some tmpListPtr => l.store tmpListPtr call.newElement
      else
        match call.efiReallocatePool listPtr elementPointer allocatePointer with
        | (none, oldPool) => { l with listPtr := oldPool }
        | (some tmpListPtr, _) => l.store tmpListPtr call.newElement
    else l.store listPtr call.newElement

/-! ### The list without failures -/

/-- The list as its users read it. -/
def GrownList.toPointerList (l : GrownList α) : PointerList α where
  slots :=
    match l.listPtr with
    | .null => none
    | other => some other.slots
  count := l.elementCount
  inside := l.inside

/-- The elements are the ones that were added, the count is their number, and no write was outside. -/
structure GrownList.Right (l : GrownList α) : Prop where
  elements : l.toPointerList.elements = l.added.map some
  count : l.elementCount = l.added.length
  inside : l.inside = true

/-- The list holds what was added, in a pool that fits into memory beside the one before it. -/
structure GrownList.Sound (l : GrownList α) : Prop where
  holds : Holds l.toPointerList l.added
  held : l.listPtr ≠ .freed
  room : l.listPtr.slots.length ≤ 2 ^ 60 + 8

theorem GrownList.Sound.right {l : GrownList α} (h : l.Sound) : l.Right :=
  ⟨h.holds.elements, h.holds.count, h.holds.inside⟩

theorem GrownList.sound_empty : ({} : GrownList α).Sound :=
  ⟨Holds.empty, by rintro ⟨⟩, Nat.zero_le _⟩

/-- The elements are in the slots. -/
theorem GrownList.Sound.count_le {l : GrownList α} (h : l.Sound) : l.elementCount ≤ l.listPtr.slots.length := by
  obtain ⟨_, count, ⟨none, _⟩ | ⟨free, slots, _, _⟩⟩ := h.holds
  · have zero : l.elementCount = 0 := count.trans (congrArg List.length none)
    rw [zero]
    exact Nat.zero_le _
  · have same : l.elementCount = l.added.length := count
    cases shape : l.listPtr with
    | null =>
      rw [toPointerList, shape] at slots
      cases slots
    | freed => exact absurd shape h.held
    | pool cells =>
      rw [toPointerList, shape] at slots
      have whole : cells = l.added.map some ++ List.replicate free none := Option.some.inj slots
      have length := congrArg List.length whole
      rw [List.length_append, List.length_map] at length
      show l.elementCount ≤ cells.length
      omega

theorem GrownList.store_toPointerList (l : GrownList α) (slots : List (Option α)) (newElement : α)
    (below : l.elementCount + 1 < 2 ^ 64) :
    (l.store (.pool slots) newElement).toPointerList =
      { slots := some (slots.set l.elementCount (some newElement))
        count := l.elementCount + 1
        inside := l.inside && l.elementCount < slots.length } := by
  rw [toPointerList, store, Nat.mod_eq_of_lt below]
  rfl

/-- A call that finds the pool full gets a new one, or nothing is freed any more. -/
def GrownList.KeepsPool (l : GrownList α) (call : AddCall α) : Prop :=
  l.elementCount ≠ 0 → l.elementCount % 16 = 0 → call.kernelStarted = false →
    call.allocates l.listPtr.bytes (8 * (l.elementCount + 16)) = true

/-- What a call does to a list: it stores the element in the slots that the list grows to, it leaves the list
alone, or it loses the pool. -/
inductive GrownList.AddCase (l : GrownList α) (call : AddCall α) : Prop where
  | stored (same : l.add call = l.store (.pool (grownSlots l.toPointerList)) call.newElement)
      (room : (grownSlots l.toPointerList).length ≤ 2 ^ 60 + 8) (keeps : l.KeepsPool call)
  | alone (same : l.add call = l) (keeps : l.KeepsPool call)
  | lost (same : l.add call = { l with listPtr := .freed }) (positive : l.elementCount ≠ 0)
      (loses : ¬l.KeepsPool call)

section
variable {l : GrownList α} {slots : List (Option α)}

theorem GrownList.toPointerList_slots (shape : l.listPtr = .pool slots) : l.toPointerList.slots = some slots := by
  rw [toPointerList, shape]
  rfl

/-- There is a pool only once something was added. -/
theorem GrownList.Sound.count_ne_zero (h : l.Sound) (shape : l.listPtr = .pool slots) : l.elementCount ≠ 0 := by
  intro zero
  obtain ⟨_, count, ⟨_, null⟩ | ⟨_, _, nonempty, _⟩⟩ := h.holds
  · rw [toPointerList_slots shape] at null
    cases null
  · exact nonempty (List.length_eq_zero_iff.mp (count.symm.trans zero))

/-- The sizes in bytes do not wrap. -/
theorem GrownList.Sound.sizes (h : l.Sound) :
    8 * (l.elementCount + 16) % 2 ^ 64 = 8 * (l.elementCount + 16) ∧
      8 * l.elementCount % 2 ^ 64 = 8 * l.elementCount := by
  have below := h.count_le
  have room := h.room
  exact ⟨Nat.mod_eq_of_lt (by omega), Nat.mod_eq_of_lt (by omega)⟩

theorem GrownList.Sound.add_null (h : l.Sound) (call : AddCall α) (shape : l.listPtr = .null) :
    l.AddCase call := by
  have below := h.count_le
  rw [shape] at below
  have zero : l.elementCount = 0 := Nat.le_zero.mp below
  have keeps : l.KeepsPool call := fun positive => absurd zero positive
  have cells : 8 * (l.elementCount + 16) / 8 = l.elementCount + 16 := Nat.mul_div_cancel_left _ (by decide)
  have grown : grownSlots l.toPointerList = List.replicate (l.elementCount + 16) none := by
    rw [grownSlots, toPointerList, shape]
  have body : l.add call = if call.allocates 0 (8 * (l.elementCount + 16)) = true then
      l.store (.pool (grownSlots l.toPointerList)) call.newElement else l := by
    rw [add, h.sizes.1, shape]
    dsimp only
    rw [AddCall.allocatePool, cells, grown]
    by_cases granted : call.allocates 0 (8 * (l.elementCount + 16)) = true
    · rw [if_pos granted, if_pos granted]
    · rw [if_neg granted, if_neg granted]
  by_cases granted : call.allocates 0 (8 * (l.elementCount + 16)) = true
  · rw [if_pos granted] at body
    refine .stored body ?_ keeps
    rw [grown, List.length_replicate]
    omega
  · rw [if_neg granted] at body
    exact .alone body keeps

/-- A pool that is not full takes the element. -/
theorem GrownList.Sound.add_free (h : l.Sound) (call : AddCall α) (shape : l.listPtr = .pool slots)
    (free : l.elementCount % 16 ≠ 0) : l.AddCase call := by
  have grown : grownSlots l.toPointerList = slots := by
    rw [grownSlots, toPointerList_slots shape]
    exact if_neg free
  have room := h.room
  rw [shape] at room
  refine .stored ?_ (grown ▸ room) fun _ full => absurd full free
  rw [add, shape, grown]
  exact if_neg free

/-- A full pool is replaced by a larger one, or it is freed for nothing. -/
theorem GrownList.Sound.add_full (h : l.Sound) (call : AddCall α) (shape : l.listPtr = .pool slots)
    (full : l.elementCount % 16 = 0) : l.AddCase call := by
  have positive := h.count_ne_zero shape
  have below := h.count_le
  rw [shape] at below
  have grown : grownSlots l.toPointerList = slots.take l.elementCount ++
      List.replicate (l.elementCount + 16 - (slots.take l.elementCount).length) none := by
    rw [grownSlots, toPointerList_slots shape]
    exact (if_pos full).trans (if_neg positive)
  have cells : 8 * (l.elementCount + 16) / 8 = l.elementCount + 16 := Nat.mul_div_cancel_left _ (by decide)
  have copied : min (8 * l.elementCount) (8 * (l.elementCount + 16)) / 8 = l.elementCount := by omega
  have size : 8 * (l.elementCount + 16) ≠ 0 := by omega
  have body : l.add call = if call.allocates (ListPtr.pool slots).bytes (8 * (l.elementCount + 16)) = true then
        l.store (.pool (grownSlots l.toPointerList)) call.newElement
      else { l with listPtr := if call.kernelStarted then .pool slots else .freed } := by
    rw [add, h.sizes.1, h.sizes.2, shape]
    dsimp only
    rw [if_pos full, if_neg positive, AddCall.efiReallocatePool, ListPtr.contents, copied, cells, grown]
    by_cases granted : call.allocates (ListPtr.pool slots).bytes (8 * (l.elementCount + 16)) = true
    · rw [if_pos granted, if_pos ⟨size, granted⟩]
    · rw [if_neg granted, if_neg fun both => granted both.2]
  by_cases granted : call.allocates (ListPtr.pool slots).bytes (8 * (l.elementCount + 16)) = true
  · rw [if_pos granted] at body
    refine .stored body ?_ fun _ _ _ => by rw [shape]; exact granted
    have fits := of_decide_eq_true (Bool.and_eq_true_iff.mp granted).2
    rw [ListPtr.bytes] at fits
    rw [grown, List.length_append, List.length_replicate, List.length_take]
    omega
  · rw [if_neg granted] at body
    cases started : call.kernelStarted with
    | true =>
      rw [started, if_pos rfl, ← shape] at body
      refine .alone body fun _ _ never => ?_
      rw [started] at never
      cases never
    | false =>
      rw [started, if_neg Bool.false_ne_true] at body
      refine .lost body positive fun keeps => granted ?_
      rw [← shape]
      exact keeps positive full started

theorem GrownList.Sound.add_case (h : l.Sound) (call : AddCall α) : l.AddCase call := by
  cases shape : l.listPtr with
  | null => exact h.add_null call shape
  | freed => exact absurd shape h.held
  | pool slots =>
    by_cases full : l.elementCount % 16 = 0
    · exact h.add_full call shape full
    · exact h.add_free call shape full

end

/-- Where its memory is granted, a call does what it does without failures. -/
theorem GrownList.Sound.store {l : GrownList α} (h : l.Sound) (call : AddCall α)
    (room : (grownSlots l.toPointerList).length ≤ 2 ^ 60 + 8) :
    (l.store (.pool (grownSlots l.toPointerList)) call.newElement).toPointerList =
        addListElement l.toPointerList call.newElement ∧
      (l.store (.pool (grownSlots l.toPointerList)) call.newElement).Sound := by
  have below := h.count_le
  have small := h.room
  have same := l.store_toPointerList (grownSlots l.toPointerList) call.newElement (by omega)
  refine ⟨same, ?_, by rintro ⟨⟩, ?_⟩
  · rw [same]
    exact h.holds.add call.newElement
  · show ((grownSlots l.toPointerList).set _ _).length ≤ _
    rwa [List.length_set]

theorem GrownList.Sound.add {l : GrownList α} (h : l.Sound) {call : AddCall α} (keeps : l.KeepsPool call) :
    (l.add call).Sound := by
  cases h.add_case call with
  | stored same room =>
    rw [same]
    exact (h.store call room).2
  | alone same =>
    rw [same]
    exact h
  | lost _ _ loses => exact absurd keeps loses

/-- A list that has lost its pool has lost its elements. -/
theorem GrownList.Sound.keepsPool {l : GrownList α} (h : l.Sound) {call : AddCall α} (right : (l.add call).Right) :
    l.KeepsPool call := by
  cases h.add_case call with
  | stored _ _ keeps => exact keeps
  | alone _ keeps => exact keeps
  | lost same positive =>
    rw [same] at right
    obtain ⟨n, count⟩ := Nat.exists_eq_succ_of_ne_zero positive
    have elements := right.elements
    rw [PointerList.elements, toPointerList] at elements
    dsimp only at elements
    rw [count, List.range_succ_eq_map, List.map_cons] at elements
    cases shape : l.added with
    | nil =>
      rw [shape] at elements
      cases elements
    | cons element more =>
      rw [shape] at elements
      exact absurd (List.cons.inj elements).1 (by rintro ⟨⟩)

/-- In every state of a run the list is what was added, exactly if no call finds the pool full, gets no new one and
frees it nonetheless. -/
theorem addListElement_right_iff (calls : List (AddCall α)) :
    Lib.Run.Visits GrownList.add GrownList.Right {} calls ↔
      Lib.Run.Along GrownList.add GrownList.KeepsPool {} calls :=
  Lib.Run.visits_iff_along (fun _ h => h.right) (fun _ _ h keeps => h.add keeps)
    (fun _ _ h right => h.keepsPool right) GrownList.sound_empty

/-- Sixteen elements are added, and the seventeenth gets no memory: the list points to the pool that was freed. -/
theorem addListElement_dangles :
    ¬∀ calls : List (AddCall Nat), Lib.Run.Visits GrownList.add GrownList.Right {} calls := by
  intro all
  have visits := all ((List.range 16).map (fun i => ⟨i, true, false, []⟩) ++ [⟨16, false, false, []⟩])
  have last := (Lib.Run.visits_iff_initial.mp visits _ List.prefix_rfl).elements
  exact absurd last (by decide +kernel)

end Meridian.Menu
