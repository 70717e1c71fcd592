import Mathlib.Data.Finset.Card
import Mathlib.Data.List.Induction
import Mathlib.Logic.Function.Basic
import Mathlib.Data.Nat.Basic

/-!
# Radix trees in a bump allocator

A radix tree kept in numbered nodes: each slot of a node is empty, a link to a child node, or a
leaf. Nodes are taken in order and a link always leads to a later node, to each node at most one.
The tree denotes a partial map from paths to leaves (`leafAt`): linking a new node does not change
it, and storing a leaf updates it at one path.
-/

namespace Lib.Radix

variable {α : Type*}

inductive Slot (α : Type*) where
  | empty
  | child (node : Nat)
  | leaf (value : α)

structure RadixTree (α : Type*) where
  used : Nat
  slot : Nat → Nat → Slot α
  root : 0 < used
  up : ∀ {n i m}, slot n i = .child m → n < m ∧ m < used
  inj : ∀ {n i n' i' m}, slot n i = .child m → slot n' i' = .child m → n = n' ∧ i = i'
  unused : ∀ {n} i, used ≤ n → slot n i = .empty

namespace RadixTree

/-- A single empty node. -/
def single : RadixTree α where
  used := 1
  slot _ _ := .empty
  root := Nat.one_pos
  up h := by cases h
  inj h := by cases h
  unused _ _ := rfl

def childOf : Slot α → Option Nat
  | .child m => some m
  | _ => none

def leafOf : Slot α → Option α
  | .leaf a => some a
  | _ => none

theorem childOf_eq_some {s : Slot α} {m : Nat} : childOf s = some m ↔ s = .child m := by
  cases s <;> simp [childOf]

theorem leafOf_eq_some {s : Slot α} {a : α} : leafOf s = some a ↔ s = .leaf a := by
  cases s <;> simp [leafOf]

variable (t : RadixTree α)

/-- The node that the links along the path lead to. -/
def node (path : List Nat) : Option Nat :=
  path.foldlM (fun n i => childOf (t.slot n i)) 0

/-- The leaf stored under the path and a last index. -/
def leafAt (path : List Nat) (i : Nat) : Option α := (t.node path).bind fun n => leafOf (t.slot n i)

@[simp] theorem node_nil : t.node [] = some 0 := rfl

theorem node_concat (path : List Nat) (i : Nat) :
    t.node (path ++ [i]) = (t.node path).bind fun n => childOf (t.slot n i) := by
  simp [node, List.foldlM_append]

variable {t} {path : List Nat} {n m i : Nat}

theorem node_concat_of (h : t.node path = some n) (i : Nat) :
    t.node (path ++ [i]) = childOf (t.slot n i) := by
  rw [node_concat, h, Option.bind_some]

theorem leafAt_of (h : t.node path = some n) (i : Nat) : t.leafAt path i = leafOf (t.slot n i) := by
  rw [leafAt, h, Option.bind_some]

theorem node_concat_eq_some :
    t.node (path ++ [i]) = some m ↔ ∃ n, t.node path = some n ∧ t.slot n i = .child m := by
  rw [node_concat, Option.bind_eq_some_iff]
  simp only [childOf_eq_some]

theorem leafAt_eq_some {a : α} :
    t.leafAt path i = some a ↔ ∃ n, t.node path = some n ∧ t.slot n i = .leaf a := by
  rw [leafAt, Option.bind_eq_some_iff]
  simp only [leafOf_eq_some]

theorem node_lt (h : t.node path = some n) : n < t.used := by
  rcases List.eq_nil_or_concat path with rfl | ⟨path, i, rfl⟩
  · rw [node_nil] at h
    exact Option.some.inj h ▸ t.root
  · rw [List.concat_eq_append, node_concat_eq_some] at h
    obtain ⟨m, _, child⟩ := h
    exact (t.up child).2

/-- No node is under two paths. -/
theorem node_injective {path' : List Nat} (h : t.node path = some n) (h' : t.node path' = some n) :
    path = path' := by
  induction path using List.reverseRecOn generalizing path' n with
  | nil =>
    rcases List.eq_nil_or_concat path' with rfl | ⟨path', i, rfl⟩
    · rfl
    · rw [List.concat_eq_append, node_concat_eq_some] at h'
      obtain ⟨m, _, child⟩ := h'
      have later := (t.up child).1
      rw [node_nil] at h
      cases h
      omega
  | append_singleton path i ih =>
    obtain ⟨m, reach, child⟩ := node_concat_eq_some.mp h
    rcases List.eq_nil_or_concat path' with rfl | ⟨path', i', rfl⟩
    · have later := (t.up child).1
      rw [node_nil] at h'
      cases h'
      omega
    · rw [List.concat_eq_append, node_concat_eq_some] at h'
      obtain ⟨m', reach', child'⟩ := h'
      obtain ⟨rfl, rfl⟩ := t.inj child child'
      rw [ih reach reach', List.concat_eq_append]

/-! ### Linking a new node -/

/-- Take a new node and link an empty slot to it. -/
def link (t : RadixTree α) (n i : Nat) (here : n < t.used) : RadixTree α where
  used := t.used + 1
  slot k j := if k = n ∧ j = i then .child t.used else t.slot k j
  root := Nat.succ_pos _
  up := by
    intro k j m h
    split at h
    · rename_i at_
      cases h
      omega
    · have := t.up h
      omega
  inj := by
    intro k j k' j' m h h'
    split at h
    · rename_i at_
      cases h
      split at h'
      · rename_i at_'
        exact ⟨at_.1.trans at_'.1.symm, at_.2.trans at_'.2.symm⟩
      · exact absurd (t.up h').2 (Nat.lt_irrefl _)
    · split at h'
      · cases h'
        exact absurd (t.up h).2 (Nat.lt_irrefl _)
      · exact t.inj h h'
  unused := by
    intro k j h
    have other : ¬(k = n ∧ j = i) := by omega
    rw [if_neg other]
    exact t.unused j (by omega)

section Link

variable {here : n < t.used}

theorem link_slot_self : (t.link n i here).slot n i = .child t.used := if_pos ⟨rfl, rfl⟩

theorem link_slot_ne {k j : Nat} (h : ¬(k = n ∧ j = i)) :
    (t.link n i here).slot k j = t.slot k j := if_neg h

theorem node_link (reach : t.node path = some n) (free : t.slot n i = .empty) (path' : List Nat) :
    (t.link n i here).node path' = if path' = path ++ [i] then some t.used else t.node path' := by
  induction path' using List.reverseRecOn with
  | nil => simp
  | append_singleton q j ih =>
    rw [node_concat, ih]
    by_cases new : q = path ++ [i]
    · -- Below the new node everything is empty, before and after.
      have fresh : (t.link n i here).slot t.used j = .empty := by
        rw [link_slot_ne (by omega)]
        exact t.unused j (Nat.le_refl _)
      have nothing : t.node (q ++ [j]) = none := by
        rw [new, node_concat, node_concat_of reach, free]
        rfl
      have differ : q ++ [j] ≠ path ++ [i] := fun eq => by
        have len := congrArg List.length eq
        rw [new] at len
        simp at len
      rw [if_pos new, if_neg differ, nothing, Option.bind_some, fresh]
      rfl
    · rw [if_neg new, node_concat]
      cases at_q : t.node q with
      | none =>
        have differ : q ++ [j] ≠ path ++ [i] := fun eq => by
          obtain ⟨rfl, _⟩ := List.append_inj' eq rfl
          rw [at_q] at reach
          cases reach
        rw [if_neg differ]
        rfl
      | some k =>
        simp only [Option.bind_some]
        by_cases here' : k = n ∧ j = i
        · obtain ⟨rfl, rfl⟩ := here'
          rw [node_injective at_q reach, if_pos rfl, link_slot_self]
          rfl
        · have differ : q ++ [j] ≠ path ++ [i] := fun eq => by
            obtain ⟨rfl, last⟩ := List.append_inj' eq rfl
            rw [at_q] at reach
            cases reach
            exact here' ⟨rfl, List.cons.inj last |>.1⟩
          rw [if_neg differ, link_slot_ne here']

/-- Linking a node does not change what the tree denotes. -/
theorem leafAt_link (reach : t.node path = some n) (free : t.slot n i = .empty) (path' : List Nat)
    (j : Nat) : (t.link n i here).leafAt path' j = t.leafAt path' j := by
  rw [leafAt, node_link reach free, leafAt]
  by_cases new : path' = path ++ [i]
  · have fresh : (t.link n i here).slot t.used j = .empty := by
      rw [link_slot_ne (by omega)]
      exact t.unused j (Nat.le_refl _)
    rw [if_pos new, new, node_concat_of reach, free, Option.bind_some, fresh]
    rfl
  · rw [if_neg new]
    cases at_path : t.node path' with
    | none => rfl
    | some k =>
      simp only [Option.bind_some]
      by_cases here' : k = n ∧ j = i
      · obtain ⟨rfl, rfl⟩ := here'
        rw [link_slot_self, free]
        rfl
      · rw [link_slot_ne here']

end Link

/-! ### Storing a leaf -/

/-- Store a leaf in a slot that is not a link. -/
def store (t : RadixTree α) (n i : Nat) (a : α) (here : n < t.used) : RadixTree α where
  used := t.used
  slot k j := if k = n ∧ j = i then .leaf a else t.slot k j
  root := t.root
  up := by
    intro k j m h
    split at h
    · cases h
    · exact t.up h
  inj := by
    intro k j k' j' m h h'
    split at h
    · cases h
    · split at h'
      · cases h'
      · exact t.inj h h'
  unused := by
    intro k j h
    have other : ¬(k = n ∧ j = i) := by omega
    rw [if_neg other]
    exact t.unused j h

section Store

variable {here : n < t.used} {a : α}

theorem store_slot_self : (t.store n i a here).slot n i = .leaf a := if_pos ⟨rfl, rfl⟩

theorem store_slot_ne {k j : Nat} (h : ¬(k = n ∧ j = i)) :
    (t.store n i a here).slot k j = t.slot k j := if_neg h

theorem node_store (noChild : ∀ m, t.slot n i ≠ .child m) (path : List Nat) :
    (t.store n i a here).node path = t.node path := by
  induction path using List.reverseRecOn with
  | nil => rfl
  | append_singleton q j ih =>
    rw [node_concat, ih, node_concat]
    congr 1
    funext k
    by_cases here' : k = n ∧ j = i
    · obtain ⟨rfl, rfl⟩ := here'
      rw [store_slot_self]
      cases old : t.slot k j with
      | child m => exact absurd old (noChild m)
      | _ => rfl
    · rw [store_slot_ne here']

/-- Storing a leaf updates what the tree denotes at one path. -/
theorem leafAt_store (reach : t.node path = some n) (noChild : ∀ m, t.slot n i ≠ .child m)
    (path' : List Nat) (j : Nat) :
    (t.store n i a here).leafAt path' j =
      if path' = path ∧ j = i then some a else t.leafAt path' j := by
  rw [leafAt, node_store noChild, leafAt]
  cases at_path : t.node path' with
  | none =>
    have differ : ¬(path' = path ∧ j = i) := fun eq => by
      rw [eq.1, reach] at at_path
      cases at_path
    rw [if_neg differ]
    rfl
  | some k =>
    simp only [Option.bind_some]
    by_cases here' : k = n ∧ j = i
    · obtain ⟨rfl, rfl⟩ := here'
      rw [if_pos ⟨node_injective at_path reach, rfl⟩, store_slot_self]
      rfl
    · have differ : ¬(path' = path ∧ j = i) := fun eq => by
        rw [eq.1, reach] at at_path
        cases at_path
        exact here' ⟨rfl, eq.2⟩
      rw [if_neg differ, store_slot_ne here']

end Store

/-! ### Leaves at fixed depths -/

/-- Below each slot of the root the leaves are at one depth, and links only above it. -/
structure Layered (depth : Nat → Nat) (t : RadixTree α) : Prop where
  nodes : ∀ {path n}, t.node path = some n → ∀ i, path.length ≤ depth (path.headD i) ∨ path = []
  leaves : ∀ {path i a}, t.leafAt path i = some a → path.length = depth (path.headD i)

section Layered

variable {depth : Nat → Nat}

theorem leafAt_single (path : List Nat) (i : Nat) : (single : RadixTree α).leafAt path i = none := by
  unfold leafAt
  cases node single path <;> rfl

theorem layered_single : Layered depth (single : RadixTree α) where
  nodes := by
    intro path n h i
    rcases List.eq_nil_or_concat path with rfl | ⟨q, j, rfl⟩
    · exact Or.inr rfl
    · rw [List.concat_eq_append, node_concat_eq_some] at h
      obtain ⟨m, _, child⟩ := h
      cases child
  leaves := by
    intro path i a h
    rw [leafAt_single] at h
    cases h

/-- Above the depth of the leaves a slot is empty or a link. -/
theorem Layered.not_leaf (h : Layered depth t) (reach : t.node path = some n)
    (above : path.length < depth (path.headD i)) (a : α) : t.slot n i ≠ .leaf a := by
  intro leaf
  have found : t.leafAt path i = some a := by rw [leafAt_of reach, leaf]; rfl
  exact absurd (h.leaves found) (Nat.ne_of_lt above)

/-- At the depth of the leaves no slot is a link. -/
theorem Layered.not_child (h : Layered depth t) (reach : t.node path = some n)
    (bottom : path.length = depth (path.headD i)) (m : Nat) : t.slot n i ≠ .child m := by
  intro child
  have found : t.node (path ++ [i]) = some m := by rw [node_concat_of reach, child]; rfl
  have same : (path ++ [i]).headD i = path.headD i := by cases path <;> rfl
  rcases h.nodes found i with short | empty
  · rw [same, List.length_append, List.length_singleton] at short
    omega
  · simp at empty

theorem Layered.link (h : Layered depth t) {here : n < t.used} (reach : t.node path = some n)
    (free : t.slot n i = .empty) (above : path.length < depth (path.headD i)) :
    Layered depth (t.link n i here) where
  nodes := by
    intro path' k found j
    rw [node_link reach free] at found
    split at found
    · rename_i new
      have same : (path ++ [i]).headD j = path.headD i := by cases path <;> rfl
      left
      rw [new, same, List.length_append, List.length_singleton]
      exact above
    · exact h.nodes found j
  leaves := by
    intro path' j a found
    rw [leafAt_link reach free] at found
    exact h.leaves found

theorem Layered.store (h : Layered depth t) {here : n < t.used} (reach : t.node path = some n)
    (bottom : path.length = depth (path.headD i)) (a : α) : Layered depth (t.store n i a here) where
  nodes := by
    intro path' k found j
    rw [node_store (h.not_child reach bottom)] at found
    exact h.nodes found j
  leaves := by
    intro path' j b found
    rw [leafAt_store reach (h.not_child reach bottom)] at found
    split at found
    · rename_i same
      rw [same.1, same.2]
      exact bottom
    · exact h.leaves found

end Layered

/-- The tree as a map from paths and last indices to leaves. -/
def denote (t : RadixTree α) (key : List Nat × Nat) : Option α := t.leafAt key.1 key.2

theorem denote_single : (single : RadixTree α).denote = fun _ => none :=
  funext fun key => leafAt_single key.1 key.2

theorem denote_link {here : n < t.used} (reach : t.node path = some n) (free : t.slot n i = .empty) :
    (t.link n i here).denote = t.denote :=
  funext fun key => leafAt_link reach free key.1 key.2

theorem denote_store {here : n < t.used} {a : α} (reach : t.node path = some n)
    (noChild : ∀ m, t.slot n i ≠ .child m) :
    (t.store n i a here).denote = Function.update t.denote (path, i) (some a) := by
  funext key
  rw [denote, leafAt_store reach noChild, Function.update_apply]
  refine if_congr ?_ rfl rfl
  rw [Prod.ext_iff]

/-! ### Nodes under given paths -/

/-- Every node is under one of the paths. -/
def Confined (paths : Finset (List Nat)) (t : RadixTree α) : Prop :=
  ∀ m < t.used, ∃ path ∈ paths, t.node path = some m

section Confined

variable {paths : Finset (List Nat)}

theorem confined_single (root : [] ∈ paths) : Confined paths (single : RadixTree α) := by
  intro m below
  have first : m = 0 := Nat.lt_one_iff.mp below
  exact ⟨[], root, first ▸ rfl⟩

/-- There are no more nodes than paths. -/
theorem Confined.used_le (confined : Confined paths t) : t.used ≤ paths.card := by
  have onto : Set.SurjOn (fun path => (t.node path).getD 0) paths (Finset.range t.used) := by
    intro m mem
    obtain ⟨path, inPaths, reach⟩ := confined m (Finset.mem_range.mp (Finset.mem_coe.mp mem))
    exact ⟨path, Finset.mem_coe.mpr inPaths, congrArg (Option.getD · 0) reach⟩
  have counted := Finset.card_le_card_of_surjOn _ onto
  rw [Finset.card_range] at counted
  exact counted

/-- A path without a node leaves room for one more. -/
theorem Confined.used_lt (confined : Confined paths t) (mem : path ∈ paths)
    (absent : t.node path = none) : t.used < paths.card := by
  have others : Confined (paths.erase path) t := by
    intro m below
    obtain ⟨path', mem', reach⟩ := confined m below
    refine ⟨path', Finset.mem_erase.mpr ⟨?_, mem'⟩, reach⟩
    rintro rfl
    rw [absent] at reach
    cases reach
  have fewer := others.used_le
  have positive := Finset.card_pos.mpr ⟨path, mem⟩
  rw [Finset.card_erase_of_mem mem] at fewer
  omega

theorem Confined.link (confined : Confined paths t) (reach : t.node path = some n)
    (free : t.slot n i = .empty) (mem : path ++ [i] ∈ paths) (here : n < t.used) :
    Confined paths (t.link n i here) := by
  intro m below
  have split : m < t.used ∨ m = t.used := Nat.lt_succ_iff_lt_or_eq.mp below
  rcases split with old | rfl
  · obtain ⟨path', mem', reach'⟩ := confined m old
    refine ⟨path', mem', ?_⟩
    rw [node_link reach free, if_neg]
    · exact reach'
    · rintro rfl
      rw [node_concat_of reach, free] at reach'
      cases reach'
  · exact ⟨path ++ [i], mem, by rw [node_link reach free, if_pos rfl]⟩

theorem Confined.store (confined : Confined paths t) (noChild : ∀ m, t.slot n i ≠ .child m) (a : α)
    (here : n < t.used) : Confined paths (t.store n i a here) := by
  intro m below
  obtain ⟨path, mem, reach⟩ := confined m below
  exact ⟨path, mem, (node_store noChild path).trans reach⟩

end Confined

end RadixTree

/-! ### A map overwritten key by key -/

section Overwrite

variable {κ ι : Type*} [DecidableEq κ] (key : ι → κ) (value : ι → α)

/-- The map after a value was stored for each element of the list, in order. -/
def overwrite (map : κ → Option α) (items : List ι) : κ → Option α :=
  items.foldl (fun map item => Function.update map (key item) (some (value item))) map

variable {key value} {map : κ → Option α} {k : κ}

theorem overwrite_of_not_mem {items : List ι} (h : ∀ item ∈ items, key item ≠ k) :
    overwrite key value map items k = map k := by
  induction items generalizing map with
  | nil => rfl
  | cons item items ih =>
    have later : overwrite key value (Function.update map (key item) (some (value item))) items k = _ :=
      ih fun other mem => h other (List.mem_cons_of_mem item mem)
    exact later.trans (Function.update_of_ne (h item List.mem_cons_self).symm _ _)

/-- A key that is written is left with one of the values written for it. -/
theorem overwrite_of_mem {items : List ι} (h : ∃ item ∈ items, key item = k) :
    ∃ last ∈ items, key last = k ∧ overwrite key value map items k = some (value last) := by
  induction items generalizing map with
  | nil => simp at h
  | cons first items ih =>
    by_cases later : ∃ item ∈ items, key item = k
    · obtain ⟨last, mem, same, result⟩ := @ih (Function.update map (key first) (some (value first))) later
      exact ⟨last, List.mem_cons_of_mem first mem, same, result⟩
    · have first_key : key first = k := by
        obtain ⟨item, mem, same⟩ := h
        rcases List.mem_cons.mp mem with rfl | inTail
        · exact same
        · exact absurd ⟨item, inTail, same⟩ later
      refine ⟨first, List.mem_cons_self, first_key, ?_⟩
      have untouched : overwrite key value (Function.update map (key first) (some (value first))) items k = _ :=
        overwrite_of_not_mem fun item mem same => later ⟨item, mem, same⟩
      rw [first_key, Function.update_self] at untouched
      rw [← first_key] at untouched ⊢
      exact untouched

/-- What the map holds was there before or was written. -/
theorem overwrite_cases {items : List ι} {a : α} (h : overwrite key value map items k = some a) :
    map k = some a ∨ ∃ item ∈ items, key item = k ∧ value item = a := by
  by_cases written : ∃ item ∈ items, key item = k
  · obtain ⟨last, mem, same, result⟩ := @overwrite_of_mem _ _ _ _ key value map k items written
    exact Or.inr ⟨last, mem, same, Option.some.inj (result.symm.trans h)⟩
  · left
    rw [← h, overwrite_of_not_mem fun item mem same => written ⟨item, mem, same⟩]

end Overwrite

end Lib.Radix
