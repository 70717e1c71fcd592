import Mathlib.Data.List.Induction
import Mathlib.Order.Basic
import Mathlib.Order.Defs.LinearOrder
import Mathlib.Order.Lattice

/-!
# Ordered trees of overwritten entries

A node is a list of entries, from the oldest to the newest, and an entry takes the place of the older
ones with its key. An entry may be dead, and hides what it takes the place of. A search takes, in each
node, the entry with the least key from a bound on, and goes on in the child of that entry.
-/

namespace Lib.Overlay

variable {α κ N : Type} {key : α → κ} {bound : κ} {l : List α} {e e' : α}

/-! ### One node -/

/-- An entry that no later one takes the place of. -/
def Newest (key : α → κ) (l : List α) (e : α) : Prop :=
  ∃ older newer, l = older ++ e :: newer ∧ ∀ x ∈ newer, key x ≠ key e

theorem Newest.mem (newest : Newest key l e) : e ∈ l := by
  obtain ⟨older, newer, rfl, _⟩ := newest
  exact List.mem_append_right _ List.mem_cons_self

theorem Newest.concat (newest : Newest key l e) {x : α} (other : key x ≠ key e) :
    Newest key (l ++ [x]) e := by
  obtain ⟨older, newer, rfl, later⟩ := newest
  refine ⟨older, newer ++ [x], by rw [List.append_assoc, List.cons_append], ?_⟩
  intro y mem
  rcases List.mem_append.mp mem with mem | mem
  · exact later y mem
  · obtain rfl := List.mem_singleton.mp mem
    exact other

theorem newest_last (l : List α) (x : α) : Newest key (l ++ [x]) x := ⟨l, [], rfl, nofun⟩

/-- A key has one newest entry. -/
theorem Newest.unique (newest : Newest key l e) (newest' : Newest key l e')
    (same : key e = key e') : e = e' := by
  obtain ⟨older, newer, rfl, later⟩ := newest
  obtain ⟨older', newer', split, later'⟩ := newest'
  rcases List.append_eq_append_iff.mp split with ⟨between, rfl, rest⟩ | ⟨between, rfl, rest⟩
  · cases between with
    | nil => exact (List.cons.inj rest).1
    | cons x between =>
      have mem : e' ∈ newer := by
        rw [(List.cons.inj rest).2]
        exact List.mem_append_right _ List.mem_cons_self
      exact absurd same.symm (later e' mem)
  · cases between with
    | nil => exact (List.cons.inj rest).1.symm
    | cons x between =>
      have mem : e ∈ newer' := by
        rw [(List.cons.inj rest).2]
        exact List.mem_append_right _ List.mem_cons_self
      exact absurd same (later' e mem)

variable [LinearOrder κ]

/-- The newest entry with the least key from the bound on. -/
structure First (key : α → κ) (bound : κ) (l : List α) (e : α) : Prop where
  newest : Newest key l e
  above : bound ≤ key e
  least : ∀ x ∈ l, bound ≤ key x → key e ≤ key x

/-- The search for it, entry by entry. -/
def lower (key : α → κ) (bound : κ) (best : Option α) (x : α) : Option α :=
  if bound ≤ key x then
    match best with
    | none => some x
    | some b => if key x ≤ key b then some x else some b
  else best

theorem First.unique (first : First key bound l e) (first' : First key bound l e') : e = e' := by
  apply first.newest.unique first'.newest
  apply le_antisymm
  · exact first.least e' first'.newest.mem first'.above
  · exact first'.least e first.newest.mem first.above

/-- What the search has found in the entries so far. -/
theorem foldl_lower (l : List α) :
    match l.foldl (lower key bound) none with
    | some e => First key bound l e
    | none => ∀ x ∈ l, ¬ bound ≤ key x := by
  induction l using List.reverseRecOn with
  | nil => exact nofun
  | append_singleton l x ih =>
    rw [List.foldl_append, List.foldl_cons, List.foldl_nil]
    cases found : l.foldl (lower key bound) none with
    | none =>
      rw [found] at ih
      rw [lower]
      by_cases above : bound ≤ key x
      · rw [if_pos above]
        refine ⟨newest_last l x, above, ?_⟩
        intro y mem bounded
        rcases List.mem_append.mp mem with mem | mem
        · exact absurd bounded (ih y mem)
        · exact (List.mem_singleton.mp mem ▸ le_refl _)
      · rw [if_neg above]
        intro y mem
        rcases List.mem_append.mp mem with mem | mem
        · exact ih y mem
        · exact List.mem_singleton.mp mem ▸ above
    | some b =>
      rw [found] at ih
      rw [lower]
      by_cases above : bound ≤ key x
      · rw [if_pos above]
        by_cases replaced : key x ≤ key b
        · simp only [if_pos replaced]
          refine ⟨newest_last l x, above, ?_⟩
          intro y mem bounded
          rcases List.mem_append.mp mem with mem | mem
          · exact le_trans replaced (ih.least y mem bounded)
          · exact (List.mem_singleton.mp mem ▸ le_refl _)
        · simp only [if_neg replaced]
          refine ⟨ih.newest.concat fun same => replaced (le_of_eq same), ih.above, ?_⟩
          intro y mem bounded
          rcases List.mem_append.mp mem with mem | mem
          · exact ih.least y mem bounded
          · exact List.mem_singleton.mp mem ▸ le_of_not_ge replaced
      · rw [if_neg above]
        refine ⟨ih.newest.concat fun same => above (same ▸ ih.above), ih.above, ?_⟩
        intro y mem bounded
        rcases List.mem_append.mp mem with mem | mem
        · exact ih.least y mem bounded
        · exact absurd bounded (List.mem_singleton.mp mem ▸ above)

theorem foldl_lower_eq_some :
    l.foldl (lower key bound) none = some e ↔ First key bound l e := by
  have spec := @foldl_lower _ _ key bound _ l
  constructor
  · intro found
    rw [found] at spec
    exact spec
  · intro first
    cases found : l.foldl (lower key bound) none with
    | none =>
      rw [found] at spec
      exact absurd first.above (spec e first.newest.mem)
    | some b =>
      rw [found] at spec
      rw [First.unique spec first]

/-! ### A tree -/

/-- The nodes of a tree, and what an entry says. -/
structure Nodes (N α κ : Type) where
  holds : N → List α → Prop
  holds_unique : ∀ {n l l'}, holds n l → holds n l' → l = l'
  key : α → κ
  dead : α → Prop
  child : α → Option N

namespace Nodes

variable (T : Nodes N α κ)

def Live (l : List α) (e : α) : Prop := Newest T.key l e ∧ ¬ T.dead e

/-- The live entries of the leaves below a node. -/
def Below : ℕ → N → α → Prop
  | 0, n, e => ∃ l, T.holds n l ∧ T.Live l e
  | level + 1, n, e =>
    ∃ l, T.holds n l ∧ ∃ i, T.Live l i ∧ ∃ c, T.child i = some c ∧ Below level c e

/-- Each live entry of an interior node leads to a child, which has the keys up to that entry's from
the entry before it on. -/
def Ordered : ℕ → N → Prop
  | 0, n => ∃ l, T.holds n l
  | level + 1, n =>
    ∃ l, T.holds n l ∧ ∀ i, T.Live l i → ∃ c, T.child i = some c ∧ Ordered level c ∧
      ∀ e, T.Below level c e →
        T.key e ≤ T.key i ∧ ∀ j, T.Live l j → T.key j < T.key i → T.key j < T.key e

/-- In each node that the search comes to, the least key from the bound on is a live one. -/
def Open (bound : κ) : ℕ → N → Prop
  | 0, n => ∃ l, T.holds n l ∧ ∃ e, First T.key bound l e ∧ ¬ T.dead e
  | level + 1, n =>
    ∃ l, T.holds n l ∧ ∃ i, First T.key bound l i ∧ ¬ T.dead i ∧ ∃ c, T.child i = some c ∧
      Open bound level c

/-- The entry that the search ends at. -/
def Finds (bound : κ) : ℕ → N → α → Prop
  | 0, n, e => ∃ l, T.holds n l ∧ First T.key bound l e ∧ ¬ T.dead e
  | level + 1, n, e =>
    ∃ l, T.holds n l ∧ ∃ i, First T.key bound l i ∧ ¬ T.dead i ∧ ∃ c, T.child i = some c ∧
      Finds bound level c e

/-- The least of the live entries from the bound on. -/
structure Least (bound : κ) (level : ℕ) (n : N) (e : α) : Prop where
  below : T.Below level n e
  above : bound ≤ T.key e
  least : ∀ x, T.Below level n x → bound ≤ T.key x → T.key e ≤ T.key x

variable {T} {level : ℕ} {n : N}

theorem open_iff : T.Open bound level n ↔ ∃ e, T.Finds bound level n e := by
  induction level generalizing n with
  | zero =>
    constructor
    · rintro ⟨l, held, e, first, live⟩
      exact ⟨e, l, held, first, live⟩
    · rintro ⟨e, l, held, first, live⟩
      exact ⟨l, held, e, first, live⟩
  | succ level ih =>
    constructor
    · rintro ⟨l, held, i, first, live, c, child, rest⟩
      obtain ⟨e, found⟩ := ih.mp rest
      exact ⟨e, l, held, i, first, live, c, child, found⟩
    · rintro ⟨e, l, held, i, first, live, c, child, found⟩
      exact ⟨l, held, i, first, live, c, child, ih.mpr ⟨e, found⟩⟩

/-- What a search finds is the least of the live entries from the bound on. -/
theorem Finds.least (ordered : T.Ordered level n) (found : T.Finds bound level n e) :
    T.Least bound level n e := by
  induction level generalizing n with
  | zero =>
    obtain ⟨l, held, first, live⟩ := found
    refine ⟨⟨l, held, first.newest, live⟩, first.above, ?_⟩
    rintro x ⟨l', held', newest, _⟩ above
    obtain rfl := T.holds_unique held held'
    exact first.least x newest.mem above
  | succ level ih =>
    obtain ⟨l, held, i, first, live, c, child, found⟩ := found
    obtain ⟨l', held', children⟩ := ordered
    obtain rfl := T.holds_unique held held'
    obtain ⟨c', child', below, range⟩ := children i ⟨first.newest, live⟩
    obtain rfl := Option.some.inj (child.symm.trans child')
    have inner := ih below found
    refine ⟨⟨l, held, i, ⟨first.newest, live⟩, c, child, inner.below⟩, inner.above, ?_⟩
    rintro x ⟨l', held', j, liveJ, d, childJ, under⟩ above
    obtain rfl := T.holds_unique held held'
    obtain ⟨d', childJ', _, rangeJ⟩ := children j liveJ
    obtain rfl := Option.some.inj (childJ.symm.trans childJ')
    have upTo := (rangeJ x under).1
    -- The keys under an entry before the one that is taken end below the bound.
    have behind : T.key i ≤ T.key j := first.least j liveJ.1.mem (le_trans above upTo)
    rcases lt_or_eq_of_le behind with later | same
    · have beyond := (rangeJ x under).2 i ⟨first.newest, live⟩ later
      exact le_trans (range e inner.below).1 (le_of_lt beyond)
    · obtain rfl := first.newest.unique liveJ.1 same
      obtain rfl := Option.some.inj (child.symm.trans childJ)
      exact inner.least x under above

end Nodes

end Lib.Overlay
