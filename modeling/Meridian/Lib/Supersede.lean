import Mathlib.Data.List.Perm.Basic
import Mathlib.Data.List.Count

/-!
# Superseding entries of a list

Elements may have a key. A new element is appended, and takes the place of the oldest element with
its key. A run of such steps replaces every old element of the keys it touches, and loses none of the
new ones, exactly when each key has as many old elements as new ones.
-/

namespace Lib.Supersede

variable {α κ : Type} [DecidableEq κ]

def supersede (key : α → Option κ) (l : List α) (e : α) : List α :=
  l.eraseP (fun x => key x = key e) ++ [e]

/-- The elements of one key. -/
def ofKey (key : α → Option κ) (k : κ) (l : List α) : List α := l.filter fun x => key x = some k

variable {key : α → Option κ} {k : κ}

theorem ofKey_append (l₁ l₂ : List α) :
    ofKey key k (l₁ ++ l₂) = ofKey key k l₁ ++ ofKey key k l₂ := List.filter_append ..

/-- Erasing one element of a key takes the first of the key's elements, and no other. -/
theorem ofKey_eraseP (l : List α) (k' : κ) :
    ofKey key k (l.eraseP fun x => key x = some k') =
      if k' = k then (ofKey key k l).tail else ofKey key k l := by
  induction l with
  | nil =>
    split
    · rfl
    · rfl
  | cons x l ih =>
    by_cases erased : key x = some k'
    · rw [List.eraseP_cons_of_pos (by simpa using erased)]
      by_cases same : k' = k
      · subst same
        rw [if_pos rfl, ofKey, ofKey, List.filter_cons_of_pos (by simpa using erased), List.tail_cons]
      · have other : key x ≠ some k := by
          rw [erased]
          exact fun equal => same (Option.some.inj equal)
        rw [if_neg same, ofKey, ofKey, List.filter_cons_of_neg (by simpa using other)]
    · rw [List.eraseP_cons_of_neg (by simpa using erased)]
      by_cases mine : key x = some k
      · have different : k' ≠ k := by
          rintro rfl
          exact erased mine
        rw [if_neg different] at ih ⊢
        rw [ofKey, ofKey, List.filter_cons_of_pos (by simpa using mine),
          List.filter_cons_of_pos (by simpa using mine)]
        exact congrArg _ ih
      · rw [ofKey, ofKey, List.filter_cons_of_neg (by simpa using mine),
          List.filter_cons_of_neg (by simpa using mine)]
        exact ih

theorem ofKey_supersede (l : List α) {e : α} {k' : κ} (h : key e = some k') :
    ofKey key k (supersede key l e) =
      if k' = k then (ofKey key k l).tail ++ [e] else ofKey key k l := by
  rw [supersede, h, ofKey_append, ofKey_eraseP]
  by_cases same : k' = k
  · subst same
    rw [if_pos rfl, if_pos rfl, ofKey, ofKey, List.filter_cons_of_pos (by simpa using h),
      List.filter_nil]
  · have other : key e ≠ some k := by
      rw [h]
      exact fun equal => same (Option.some.inj equal)
    rw [if_neg same, if_neg same, ofKey, ofKey, List.filter_cons_of_neg (by simpa using other),
      List.filter_nil, List.append_nil]

/-- One key's elements after a run. -/
theorem ofKey_run (l es : List α) (keyed : ∀ e ∈ es, (key e).isSome) :
    ofKey key k (es.foldl (supersede key) l) =
      (ofKey key k es).foldl (fun old e => old.tail ++ [e]) (ofKey key k l) := by
  induction es generalizing l with
  | nil => rfl
  | cons e es ih =>
    obtain ⟨first, rest⟩ := List.forall_mem_cons.mp keyed
    obtain ⟨k', h⟩ := Option.isSome_iff_exists.mp first
    rw [List.foldl_cons, ih _ rest, ofKey_supersede l h]
    by_cases same : k' = k
    · subst same
      have mine : ofKey key k' (e :: es) = e :: ofKey key k' es :=
        List.filter_cons_of_pos (by simpa using h)
      rw [if_pos rfl, mine, List.foldl_cons]
    · have other : key e ≠ some k := by
        rw [h]
        exact fun equal => same (Option.some.inj equal)
      have skipped : ofKey key k (e :: es) = ofKey key k es :=
        List.filter_cons_of_neg (by simpa using other)
      rw [if_neg same, skipped]

/-- The elements without a key stay as they were. -/
theorem keyless_run (l es : List α) (keyed : ∀ e ∈ es, (key e).isSome) :
    (es.foldl (supersede key) l).filter (fun x => key x = none) = l.filter fun x => key x = none := by
  induction es generalizing l with
  | nil => rfl
  | cons e es ih =>
    obtain ⟨first, rest⟩ := List.forall_mem_cons.mp keyed
    obtain ⟨k', h⟩ := Option.isSome_iff_exists.mp first
    rw [List.foldl_cons, ih _ rest, supersede, List.filter_append]
    have none : [e].filter (fun x => key x = Option.none) = [] := by
      rw [List.filter_cons_of_neg (by simp [h]), List.filter_nil]
    rw [none, List.append_nil]
    clear ih
    induction l with
    | nil => rfl
    | cons x l ih =>
      by_cases erased : key x = key e
      · rw [List.eraseP_cons_of_pos (by simpa using erased),
          List.filter_cons_of_neg (by simp [erased, h])]
      · rw [List.eraseP_cons_of_neg (by simpa using erased)]
        simp only [List.filter_cons, ih]

/-- A queue of fixed length forgets its oldest elements. -/
theorem foldl_tail_append (old es : List α) (room : es.length ≤ old.length) :
    es.foldl (fun old e => old.tail ++ [e]) old = old.drop es.length ++ es := by
  induction es generalizing old with
  | nil => exact (List.append_nil _).symm
  | cons e es ih =>
    obtain ⟨x, old, rfl⟩ := List.exists_cons_of_length_pos (by
      rw [List.length_cons] at room
      omega : 0 < old.length)
    simp only [List.length_cons] at room
    rw [List.foldl_cons, List.tail_cons, ih _ (by rw [List.length_append]; omega), List.length_cons,
      List.drop_succ_cons, List.drop_append_of_le_length (by omega), List.append_assoc]
    rfl

theorem length_foldl_tail_append (old es : List α) :
    (es.foldl (fun old e => old.tail ++ [e]) old).length =
      if es = [] then old.length else max old.length 1 := by
  induction es generalizing old with
  | nil => rfl
  | cons e es ih =>
    have length : (old.tail ++ [e]).length = max old.length 1 := by
      rw [List.length_append, List.length_tail, List.length_singleton]
      omega
    rw [List.foldl_cons, ih, length, if_neg (List.cons_ne_nil e es)]
    split
    · rfl
    · omega

/-- Each key has as many old elements as new ones, or a single new one. -/
def Matched (key : α → Option κ) (l es : List α) : Prop :=
  ∀ e ∈ es, ∀ k, key e = some k →
    (ofKey key k es).length = max (ofKey key k l).length 1

/-- What a run should leave: the old elements of other keys, and the new elements. -/
def replaced (key : α → Option κ) (l es : List α) : List α :=
  l.filter (fun x => ∀ e ∈ es, key e ≠ key x) ++ es

theorem ofKey_replaced_of_mem {l es : List α} {e : α} (mem : e ∈ es) (h : key e = some k) :
    ofKey key k (replaced key l es) = ofKey key k es := by
  rw [replaced, ofKey_append]
  have empty : ofKey key k (l.filter fun x => ∀ e ∈ es, key e ≠ key x) = [] := by
    apply List.filter_eq_nil_iff.mpr
    intro x member
    obtain ⟨_, kept⟩ := List.mem_filter.mp member
    have apart := of_decide_eq_true kept e mem
    rw [h] at apart
    simpa using fun equal => apart equal.symm
  rw [empty, List.nil_append]

theorem count_replaced_of_untouched [DecidableEq α] {l es : List α} {x : α}
    (untouched : ∀ e ∈ es, key e ≠ key x) : (replaced key l es).count x = l.count x := by
  have absent : x ∉ es := fun mem => untouched x mem rfl
  have kept : decide (∀ e ∈ es, key e ≠ key x) = true := decide_eq_true untouched
  rw [replaced, List.count_append, List.count_eq_zero_of_not_mem absent, Nat.add_zero]
  exact List.count_filter (p := fun x => decide (∀ e ∈ es, key e ≠ key x)) kept

theorem run_perm_iff [DecidableEq α] (l es : List α) (keyed : ∀ e ∈ es, (key e).isSome) :
    (es.foldl (supersede key) l).Perm (replaced key l es) ↔ Matched key l es := by
  constructor
  · intro same e mem k h
    have part : (ofKey key k (es.foldl (supersede key) l)).length =
        (ofKey key k (replaced key l es)).length := (same.filter _).length_eq
    have nonempty : ofKey key k es ≠ [] := by
      intro empty
      have here : e ∈ ofKey key k es := List.mem_filter.mpr ⟨mem, by simpa using h⟩
      rw [empty] at here
      exact List.not_mem_nil here
    rw [ofKey_run l es keyed, length_foldl_tail_append, if_neg nonempty,
      ofKey_replaced_of_mem mem h] at part
    exact part.symm
  · intro matched
    apply List.perm_iff_count.mpr
    intro x
    have inKey : ∀ k, key x = some k → ∀ l' : List α, l'.count x = (ofKey key k l').count x := by
      intro k h l'
      exact (List.count_filter (by simpa using h)).symm
    cases h : key x with
    | none =>
      have keyless : ∀ l' : List α,
          l'.count x = (l'.filter fun y => key y = none).count x := by
        intro l'
        exact (List.count_filter (by simpa using h)).symm
      have untouched : ∀ e ∈ es, key e ≠ key x := by
        intro e mem equal
        have some := keyed e mem
        rw [equal, h] at some
        cases some
      rw [keyless, keyless_run l es keyed, ← keyless, count_replaced_of_untouched untouched]
    | some k =>
      by_cases touched : ∃ e ∈ es, key e = some k
      · obtain ⟨e, mem, he⟩ := touched
        have count := matched e mem k he
        rw [inKey k h, inKey k h (replaced key l es), ofKey_run l es keyed,
          ofKey_replaced_of_mem mem he]
        by_cases room : (ofKey key k es).length ≤ (ofKey key k l).length
        · have all : (ofKey key k l).drop (ofKey key k es).length = [] :=
            List.drop_of_length_le (by omega)
          rw [foldl_tail_append _ _ room, all, List.nil_append]
        · obtain ⟨only, single⟩ := List.length_eq_one_iff.mp (by omega : (ofKey key k es).length = 1)
          have none : ofKey key k l = [] := List.length_eq_zero_iff.mp (by omega)
          rw [single, none]
          rfl
      · have untouched : ∀ e ∈ es, key e ≠ key x := by
          intro e mem equal
          exact touched ⟨e, mem, equal.trans h⟩
        have absent : ofKey key k es = [] := by
          apply List.filter_eq_nil_iff.mpr
          intro e mem
          simpa using fun equal => touched ⟨e, mem, equal⟩
        rw [inKey k h, ofKey_run l es keyed, absent, List.foldl_nil, ← inKey k h,
          count_replaced_of_untouched untouched]

/-! ### Elements that a wider key reaches -/

/-- Every element that shares its wide key with a new one has it as its key. -/
def Reached (key wide : α → Option κ) (l es : List α) : Prop :=
  ∀ x ∈ l, ∀ e ∈ es, wide e = wide x → key x = wide x

theorem replaced_wide {wide : α → Option κ} {l es : List α}
    (narrow : ∀ x k, key x = some k → wide x = some k) (keyed : ∀ e ∈ es, (key e).isSome)
    (reached : Reached key wide l es) : replaced wide l es = replaced key l es := by
  rw [replaced, replaced]
  congr 1
  apply List.filter_congr
  intro x mem
  apply decide_eq_decide.mpr
  apply forall₂_congr
  intro e inNew
  obtain ⟨k, h⟩ := Option.isSome_iff_exists.mp (keyed e inNew)
  rw [narrow e k h, h]
  apply not_congr
  constructor
  · intro same
    rw [reached x mem e inNew ((narrow e k h).trans same)]
    exact same
  · exact fun same => (narrow x k same.symm).symm

theorem run_perm_wide_iff [DecidableEq α] {wide : α → Option κ} (l es : List α)
    (narrow : ∀ x k, key x = some k → wide x = some k) (keyed : ∀ e ∈ es, (key e).isSome) :
    (es.foldl (supersede key) l).Perm (replaced wide l es) ↔
      Matched key l es ∧ Reached key wide l es := by
  constructor
  · intro same
    have reached : Reached key wide l es := by
      intro x mem e inNew equal
      obtain ⟨k, h⟩ := Option.isSome_iff_exists.mp (keyed e inNew)
      cases mine : key x with
      | some k' => exact (narrow x k' mine).symm
      | none =>
        -- the run keeps `x`, and the wide key says that it should go
        have kept : x ∈ es.foldl (supersede key) l := by
          have keyless := keyless_run l es keyed
          apply List.mem_of_mem_filter (p := fun y => key y = none)
          rw [keyless]
          exact List.mem_filter.mpr ⟨mem, by simpa using mine⟩
        obtain old | new := List.mem_append.mp (same.subset kept)
        · obtain ⟨_, apart⟩ := List.mem_filter.mp old
          exact absurd equal (of_decide_eq_true apart e inNew)
        · have some := keyed x new
          rw [mine] at some
          cases some
    rw [replaced_wide narrow keyed reached] at same
    exact ⟨(run_perm_iff l es keyed).mp same, reached⟩
  · rintro ⟨matched, reached⟩
    rw [replaced_wide narrow keyed reached]
    exact (run_perm_iff l es keyed).mpr matched

end Lib.Supersede
