import Mathlib.Data.List.Basic

/-!
# Table-driven state machines

A machine whose events list guarded transitions. Which of them an event fires is up to the engine that
walks the table; the results are about engines that fire the first one that is enabled.
-/

namespace Lib.Statechart

variable {σ γ α : Type} [DecidableEq σ]

structure Transition (σ γ α : Type) where
  sources : List σ
  guards : List γ
  target : σ
  action : α

def Transition.Enabled (t : Transition σ γ α) (current : σ) (holds : γ → Bool) : Prop :=
  current ∈ t.sources ∧ ∀ g ∈ t.guards, holds g = true

instance (t : Transition σ γ α) (current : σ) (holds : γ → Bool) : Decidable (t.Enabled current holds) :=
  inferInstanceAs (Decidable (_ ∧ _))

/-- An engine: whether it accepts a machine's definition, and which of an event's transitions it fires. -/
structure Engine (σ γ α : Type) where
  accepts : Bool
  select : List (Transition σ γ α) → σ → (γ → Bool) → Option (Transition σ γ α)

/-- The first transition, in listed order, whose source is the current state and whose guards hold. -/
def firstMatch (table : List (Transition σ γ α)) (current : σ) (holds : γ → Bool) :
    Option (Transition σ γ α) :=
  table.find? fun t => t.Enabled current holds

namespace Engine

/-- The engine accepts the definition and fires the first transition that is enabled. -/
def FirstMatch (E : Engine σ γ α) : Prop :=
  E.accepts = true ∧ ∀ table current holds, E.select table current holds = firstMatch table current holds

/-- An engine that tries the transitions in listed order. -/
def listedOrder (σ γ α : Type) [DecidableEq σ] : Engine σ γ α := ⟨true, firstMatch⟩

theorem listedOrder_firstMatch : (listedOrder σ γ α).FirstMatch := ⟨rfl, fun _ _ _ => rfl⟩

variable {E : Engine σ γ α} {table : List (Transition σ γ α)} {current : σ} {holds : γ → Bool}

theorem select_one (hE : E.FirstMatch) (t : Transition σ γ α) :
    E.select [t] current holds = if t.Enabled current holds then some t else none := by
  rw [hE.2, firstMatch, List.find?_cons]
  by_cases enabled : t.Enabled current holds <;> simp [enabled]

theorem select_cons (hE : E.FirstMatch) (t : Transition σ γ α) :
    E.select (t :: table) current holds =
      if t.Enabled current holds then some t else E.select table current holds := by
  rw [hE.2, hE.2, firstMatch, List.find?_cons]
  by_cases enabled : t.Enabled current holds <;> simp [enabled, firstMatch]

/-- Two transitions from the current state, the first under one guard and the second under none. -/
theorem select_guarded (hE : E.FirstMatch) {t u : Transition σ γ α} {g : γ} (first : current ∈ t.sources)
    (second : current ∈ u.sources) (one : t.guards = [g]) (free : u.guards = []) :
    E.select [t, u] current holds = some (if holds g then t else u) := by
  have guarded : t.Enabled current holds ↔ holds g = true := by
    rw [Transition.Enabled, one]
    simp [first]
  have unguarded : u.Enabled current holds := by
    rw [Transition.Enabled, free]
    exact ⟨second, fun g listed => absurd listed List.not_mem_nil⟩
  rw [select_cons hE, select_one hE, if_pos unguarded]
  by_cases ready : holds g = true
  · rw [if_pos (guarded.mpr ready), if_pos ready]
  · rw [if_neg (mt guarded.mp ready), if_neg ready]

/-- A state that no transition of the table starts from stays. -/
theorem select_final (hE : E.FirstMatch) (final : ∀ t ∈ table, current ∉ t.sources) :
    E.select table current holds = none := by
  rw [hE.2, firstMatch, List.find?_eq_none]
  intro t listed enabled
  exact final t listed (of_decide_eq_true enabled).1

/-- A table whose transitions all start from one state fires none in another. -/
theorem select_elsewhere (hE : E.FirstMatch) {start : σ} (sources : ∀ t ∈ table, t.sources = [start])
    (moved : current ≠ start) : E.select table current holds = none := by
  refine select_final hE fun t listed mem => ?_
  rw [sources t listed] at mem
  exact moved (List.mem_singleton.mp mem)

end Engine

end Lib.Statechart
