import Mathlib.Logic.Basic

/-!
# Computations that may fail

What a successful run of a computation in `Except` says about its parts: each step of a `do` block
succeeded, on the value that the one before it returned. And when a loop of such steps succeeds.
-/

namespace Lib.Result

universe u

variable {ε : Type*} {α β : Type u}

theorem ok_bind (a : α) (f : α → Except ε β) : Except.ok a >>= f = f a := rfl

theorem bind_eq_ok {x : Except ε α} {f : α → Except ε β} {b : β} :
    x >>= f = .ok b ↔ ∃ a, x = .ok a ∧ f a = .ok b := by
  cases x with
  | error e =>
    constructor
    · intro h
      cases h
    · rintro ⟨a, h, _⟩
      cases h
  | ok a =>
    constructor
    · intro h
      exact ⟨a, rfl, h⟩
    · rintro ⟨a', h, result⟩
      cases h
      exact result

theorem mapM_ok {ι : Type*} {f : ι → Except ε β} {g : ι → β} {items : List ι}
    (each : ∀ item ∈ items, f item = .ok (g item)) : items.mapM f = .ok (items.map g) := by
  induction items with
  | nil => rfl
  | cons item items ih =>
    rw [List.mapM_cons, each item List.mem_cons_self, ok_bind,
      ih fun other mem => each other (List.mem_cons_of_mem item mem), ok_bind]
    rfl

/-- A loop runs to its end when every step succeeds and keeps an invariant. -/
theorem foldlM_ok {σ : Type u} {ι : Type*} {Inv : σ → Prop} {step : σ → ι → Except ε σ} {items : List ι}
    (keep : ∀ item ∈ items, ∀ s, Inv s → ∃ s', step s item = .ok s' ∧ Inv s') {s : σ} (start : Inv s) :
    ∃ s', items.foldlM step s = .ok s' ∧ Inv s' := by
  induction items generalizing s with
  | nil => exact ⟨s, rfl, start⟩
  | cons item items ih =>
    obtain ⟨s₁, first, inv⟩ := keep item List.mem_cons_self s start
    obtain ⟨s', rest, inv'⟩ := ih (fun other mem => keep other (List.mem_cons_of_mem item mem)) inv
    refine ⟨s', ?_, inv'⟩
    rw [List.foldlM_cons, first, ok_bind]
    exact rest

end Lib.Result
