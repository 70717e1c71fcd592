import Mathlib.Data.List.Basic

/-!
# Doubly linked lists in memory

A memory gives each live node its two links. `Chain` follows the links from a start on: the nodes that
it meets, the last of them and the node behind it. A node is put in front of a list with `Chain.push` and
taken out of the middle with `Chain.unlink`.
-/

namespace Lib.Linked

variable {α : Type*}

structure Links (α : Type*) where
  next : Option α
  prev : Option α

/-- From `start`, whose node ahead is `before`, through the nodes to `last`, which has `behind` behind it. -/
def Chain (links : α → Option (Links α)) : Option α → Option α → List α → Option α → Option α → Prop
  | before, start, [], last, behind => last = before ∧ behind = start
  | before, start, a :: as, last, behind =>
    start = some a ∧ ∃ next, links a = some ⟨next, before⟩ ∧ Chain links (some a) next as last behind

variable {links links' : α → Option (Links α)} {before start last behind : Option α} {as bs : List α} {a : α}

theorem Chain.congr (same : ∀ b ∈ as, links' b = links b) (chain : Chain links before start as last behind) :
    Chain links' before start as last behind := by
  induction as generalizing before start with
  | nil => exact chain
  | cons a as ih =>
    obtain ⟨eq, next, here, rest⟩ := chain
    exact ⟨eq, next, (same a List.mem_cons_self).trans here,
      ih (fun b mem => same b (List.mem_cons_of_mem a mem)) rest⟩

theorem chain_append :
    Chain links before start (as ++ bs) last behind ↔
      ∃ middle next, Chain links before start as middle next ∧ Chain links middle next bs last behind := by
  induction as generalizing before start with
  | nil =>
    constructor
    · intro chain
      exact ⟨before, start, ⟨rfl, rfl⟩, chain⟩
    · rintro ⟨_, _, ⟨rfl, rfl⟩, chain⟩
      exact chain
  | cons a as ih =>
    constructor
    · rintro ⟨eq, next, here, rest⟩
      obtain ⟨middle, next', front, back⟩ := ih.mp rest
      exact ⟨middle, next', ⟨eq, next, here, front⟩, back⟩
    · rintro ⟨middle, next', ⟨eq, next, here, front⟩, back⟩
      exact ⟨eq, next, here, ih.mpr ⟨middle, next', front, back⟩⟩

theorem Chain.live (chain : Chain links before start as last behind) (mem : a ∈ as) : ∃ l, links a = some l := by
  induction as generalizing before start with
  | nil => cases mem
  | cons b as ih =>
    obtain ⟨_, next, here, rest⟩ := chain
    rcases List.mem_cons.mp mem with rfl | mem
    · exact ⟨_, here⟩
    · exact ih rest mem

/-- The last node is one of the list, or what was before an empty one. -/
theorem Chain.last_eq (chain : Chain links before start as last behind) :
    as = [] ∧ last = before ∨ ∃ a ∈ as, last = some a := by
  induction as generalizing before start with
  | nil => exact Or.inl ⟨rfl, chain.1⟩
  | cons a as ih =>
    obtain ⟨_, next, _, rest⟩ := chain
    rcases ih rest with ⟨_, eq⟩ | ⟨b, mem, eq⟩
    · exact Or.inr ⟨a, List.mem_cons_self, eq⟩
    · exact Or.inr ⟨b, List.mem_cons_of_mem a mem, eq⟩

/-- The start of a whole list is one of its nodes. -/
theorem Chain.start_eq (chain : Chain links before start as last none) :
    as = [] ∧ start = none ∨ ∃ a ∈ as, start = some a := by
  cases as with
  | nil => exact Or.inl ⟨rfl, chain.2.symm⟩
  | cons a as => exact Or.inr ⟨a, List.mem_cons_self, chain.1⟩

/-- The nodes of the list that starts at `head`. -/
def IsList (links : α → Option (Links α)) (head : Option α) (as : List α) : Prop :=
  ∃ last, Chain links none head as last none

theorem isList_nil : IsList links none [] := ⟨none, rfl, rfl⟩

theorem IsList.congr {head : Option α} (list : IsList links head as) (same : ∀ b ∈ as, links' b = links b) :
    IsList links' head as := by
  obtain ⟨last, chain⟩ := list
  exact ⟨last, chain.congr same⟩

theorem IsList.live {head : Option α} (list : IsList links head as) (mem : a ∈ as) : ∃ l, links a = some l := by
  obtain ⟨last, chain⟩ := list
  exact chain.live mem

/-- The links of a node lead to nodes of its list. -/
theorem IsList.links_mem {head : Option α} {l : Links α} (list : IsList links head (as ++ a :: bs))
    (here : links a = some l) : (∀ b ∈ l.prev, b ∈ as) ∧ ∀ b ∈ l.next, b ∈ bs := by
  obtain ⟨last, chain⟩ := list
  obtain ⟨middle, _, front, rfl, next, here', back⟩ := chain_append.mp chain
  obtain rfl := Option.some.inj (here.symm.trans here')
  constructor
  · intro b mem
    rcases front.last_eq with ⟨_, none_⟩ | ⟨c, mem', eq⟩
    · cases none_.symm.trans mem
    · obtain rfl := Option.some.inj (eq.symm.trans mem)
      exact mem'
  · intro b mem
    rcases back.start_eq with ⟨_, none_⟩ | ⟨c, mem', eq⟩
    · cases none_.symm.trans mem
    · obtain rfl := Option.some.inj (eq.symm.trans mem)
      exact mem'

variable [DecidableEq α]

/-- The links where the node behind `last` is `next` and the one ahead of `next` is `last`. -/
def joined (links : α → Option (Links α)) (last next : Option α) : α → Option (Links α) := fun b =>
  (links b).map fun l =>
    { next := if last = some b then next else l.next, prev := if next = some b then last else l.prev }

theorem joined_other {b : α} {next : Option α} (notLast : last ≠ some b) (notNext : next ≠ some b) :
    joined links last next b = links b := by
  simp [joined, notLast, notNext]

/-- A list that starts at `next` starts behind `last` when they are joined. -/
theorem Chain.joined_back {next ahead : Option α} (chain : Chain links before next as last behind)
    (distinct : as.Nodup) (apart : ∀ b ∈ as, ahead ≠ some b) (nonempty : as ≠ []) :
    Chain (joined links ahead next) ahead next as last behind := by
  cases as with
  | nil => exact absurd rfl nonempty
  | cons a as =>
    obtain ⟨rfl, next', here, rest⟩ := chain
    refine ⟨rfl, next', ?_, rest.congr fun b mem => ?_⟩
    · simp [joined, here, apart a List.mem_cons_self]
    · have differs : some a ≠ some b := by
        intro eq
        obtain rfl := Option.some.inj eq
        exact (List.nodup_cons.mp distinct).1 mem
      exact joined_other (apart b (List.mem_cons_of_mem a mem)) differs

/-- A list that ends at `last` goes on at `next` when they are joined. -/
theorem Chain.joined_front {next : Option α} (chain : Chain links before start as last behind)
    (distinct : as.Nodup) (apart : ∀ b ∈ as, next ≠ some b) (nonempty : as ≠ []) :
    Chain (joined links last next) before start as last next := by
  induction as generalizing before start with
  | nil => exact absurd rfl nonempty
  | cons a as ih =>
    obtain ⟨rfl, next', here, rest⟩ := chain
    obtain ⟨notMem, distinct⟩ := List.nodup_cons.mp distinct
    cases as with
    | nil =>
      obtain ⟨rfl, rfl⟩ := rest
      exact ⟨rfl, next, by simp [joined, here, apart a List.mem_cons_self], rfl, rfl⟩
    | cons b as =>
      have notLast : last ≠ some a := by
        intro eq
        rcases rest.last_eq with ⟨empty, _⟩ | ⟨c, mem, eq'⟩
        · cases empty
        · obtain rfl := Option.some.inj (eq.symm.trans eq')
          exact notMem mem
      refine ⟨rfl, next', (joined_other notLast (apart a List.mem_cons_self)).trans here, ?_⟩
      exact ih rest distinct (fun c mem => apart c (List.mem_cons_of_mem a mem)) (List.cons_ne_nil b as)

/-! ### The operations on a list -/

/-- A node is put in front. -/
theorem IsList.push {head : Option α} (list : IsList links head as) (distinct : as.Nodup) (new : a ∉ as)
    (here : links' a = some ⟨head, none⟩) (others : ∀ b ∈ as, links' b = joined links (some a) head b) :
    IsList links' (some a) (a :: as) := by
  obtain ⟨last, chain⟩ := list
  by_cases empty : as = []
  · subst empty
    obtain ⟨_, rfl⟩ := chain
    exact ⟨some a, rfl, none, here, rfl, rfl⟩
  · have apart : ∀ c ∈ as, some a ≠ some c := by
      intro c mem eq
      obtain rfl := Option.some.inj eq
      exact new mem
    exact ⟨last, rfl, head, here, (chain.joined_back distinct apart empty).congr others⟩

/-- A node is taken out: the one ahead of it and the one behind it are joined. -/
theorem IsList.unlink {head : Option α} {l : Links α} (list : IsList links head (as ++ a :: bs))
    (distinct : (as ++ a :: bs).Nodup) (here : links a = some l)
    (others : ∀ b ∈ as ++ bs, links' b = joined links l.prev l.next b) :
    IsList links' (if head = some a then l.next else head) (as ++ bs) := by
  obtain ⟨inPrev, inNext⟩ := list.links_mem here
  obtain ⟨last, chain⟩ := list
  obtain ⟨middle, _, front, rfl, next, here', back⟩ := chain_append.mp chain
  obtain rfl := Option.some.inj (here.symm.trans here')
  obtain ⟨distinctFront, distinctBack, disjoint⟩ := List.nodup_append.mp distinct
  obtain ⟨notMem, distinctBack⟩ := List.nodup_cons.mp distinctBack
  have nextApart : ∀ b ∈ as, next ≠ some b :=
    fun b mem eq => disjoint b mem b (List.mem_cons_of_mem a (inNext b eq)) rfl
  have prevApart : ∀ b ∈ bs, middle ≠ some b :=
    fun b mem eq => disjoint b (inPrev b eq) b (List.mem_cons_of_mem a mem) rfl
  have start : Chain (joined links middle next) none (if head = some a then next else head) as middle next := by
    by_cases empty : as = []
    · subst empty
      obtain ⟨rfl, rfl⟩ := front
      rw [if_pos rfl]
      exact ⟨rfl, rfl⟩
    · have other : head ≠ some a := by
        intro eq
        obtain ⟨b, as, rfl⟩ := List.exists_cons_of_ne_nil empty
        obtain rfl := Option.some.inj (front.1.symm.trans eq)
        exact disjoint b List.mem_cons_self b List.mem_cons_self rfl
      rw [if_neg other]
      exact front.joined_front distinctFront nextApart empty
  have rest : ∃ last', Chain (joined links middle next) middle next bs last' none := by
    by_cases empty : bs = []
    · subst empty
      exact ⟨middle, rfl, back.2⟩
    · exact ⟨last, back.joined_back distinctBack prevApart empty⟩
  obtain ⟨last', rest⟩ := rest
  exact ⟨last', (chain_append.mpr ⟨middle, next, start, rest⟩).congr others⟩

end Lib.Linked
