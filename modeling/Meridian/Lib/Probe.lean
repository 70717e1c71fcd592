import Mathlib.Order.Nat
import Mathlib.Data.List.Basic

/-!
# Computations that probe a memory

A computation that asks for cells of a memory, one after another, each depending on the answers before. Its
result depends on the cells that it asks for and on no others.
-/

namespace Lib

inductive Probe (σ : Type) (α : Type) where
  | done (value : α)
  | ask (offset : Nat) (next : σ → Probe σ α)

variable {σ α β : Type}

namespace Probe

def bind : Probe σ α → (α → Probe σ β) → Probe σ β
  | done value, rest => rest value
  | ask offset next, rest => ask offset fun cell => (next cell).bind rest

instance : Monad (Probe σ) where
  pure := done
  bind := bind

def cell (offset : Nat) : Probe σ σ := ask offset done

def run (memory : Nat → σ) : Probe σ α → α
  | done value => value
  | ask offset next => (next (memory offset)).run memory

/-- The offsets that are asked for, in order. -/
def used (memory : Nat → σ) : Probe σ α → List Nat
  | done _ => []
  | ask offset next => offset :: (next (memory offset)).used memory

variable {memory memory' : Nat → σ} {p : Probe σ α} {rest : α → Probe σ β}

@[simp] theorem run_pure (memory : Nat → σ) (value : α) : (pure value : Probe σ α).run memory = value := rfl

@[simp] theorem used_pure (memory : Nat → σ) (value : α) : (pure value : Probe σ α).used memory = [] := rfl

@[simp] theorem run_cell (memory : Nat → σ) (offset : Nat) :
    (cell offset : Probe σ σ).run memory = memory offset := rfl

@[simp] theorem used_cell (memory : Nat → σ) (offset : Nat) :
    (cell offset : Probe σ σ).used memory = [offset] := rfl

@[simp] theorem run_bind (memory : Nat → σ) (p : Probe σ α) (rest : α → Probe σ β) :
    (p >>= rest).run memory = (rest (p.run memory)).run memory := by
  induction p with
  | done value => rfl
  | ask offset next ih => exact ih (memory offset)

@[simp] theorem used_bind (memory : Nat → σ) (p : Probe σ α) (rest : α → Probe σ β) :
    (p >>= rest).used memory = p.used memory ++ (rest (p.run memory)).used memory := by
  induction p with
  | done value => rfl
  | ask offset next ih => exact congrArg (offset :: ·) (ih (memory offset))

/-- Memories that agree on what is asked for give the same result. -/
theorem run_congr (agree : ∀ i ∈ p.used memory, memory i = memory' i) : p.run memory = p.run memory' := by
  induction p with
  | done value => rfl
  | ask offset next ih =>
    have here : memory offset = memory' offset := agree offset List.mem_cons_self
    have later := ih (memory offset) fun i asked => agree i (List.mem_cons_of_mem _ asked)
    rw [run, run, ← here]
    exact later

/-- Every offset asked for lies below the bound, whatever the memory holds. -/
def Below (bound : Nat) (p : Probe σ α) : Prop := ∀ memory, ∀ i ∈ p.used memory, i < bound

theorem below_pure (bound : Nat) (value : α) : Below bound (pure value : Probe σ α) :=
  fun _ _ asked => absurd asked List.not_mem_nil

theorem below_cell {bound offset : Nat} (inside : offset < bound) : Below bound (cell offset : Probe σ σ) := by
  intro memory i asked
  obtain rfl := List.mem_singleton.mp asked
  exact inside

theorem Below.bind {bound : Nat} (first : Below bound p) (later : ∀ value, Below bound (rest value)) :
    Below bound (p >>= rest) := by
  intro memory i asked
  rw [used_bind] at asked
  obtain early | late := List.mem_append.mp asked
  · exact first memory i early
  · exact later _ memory i late

theorem Below.ite {bound : Nat} {c : Prop} [Decidable c] {q : Probe σ α} (yes : c → Below bound p)
    (no : ¬ c → Below bound q) : Below bound (if c then p else q) := by
  split
  · rename_i holds
    exact yes holds
  · rename_i fails
    exact no fails

end Probe

end Lib
