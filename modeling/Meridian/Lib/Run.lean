import Mathlib.Data.List.Basic

/-!
# Runs of a step function

A deterministic machine is a step function on states and events; a run is the left fold of it.
`visits_iff_along` is the one induction over runs: when a step from a good state reaches a state
with property `P` exactly if it meets a condition `ok`, a run keeps `P` throughout exactly if
all its steps meet `ok`.
-/

namespace Lib.Run

variable {σ ε : Type*} (step : σ → ε → σ)

/-- Every step of the run meets `ok`, a condition on the event and the state before it. -/
def Along (ok : σ → ε → Prop) : σ → List ε → Prop
  | _, [] => True
  | s, e :: es => ok s e ∧ Along ok (step s e) es

/-- `P` holds in every state of the run, the first and the last included. -/
def Visits (P : σ → Prop) : σ → List ε → Prop
  | s, [] => P s
  | s, e :: es => P s ∧ Visits P (step s e) es

instance Along.decidable (ok : σ → ε → Prop) [∀ s e, Decidable (ok s e)] :
    ∀ s es, Decidable (Along step ok s es)
  | _, [] => inferInstanceAs (Decidable True)
  | s, e :: es =>
    have := Along.decidable ok (step s e) es
    inferInstanceAs (Decidable (ok s e ∧ Along step ok (step s e) es))

variable {step} {P I : σ → Prop} {ok : σ → ε → Prop} {s : σ}

theorem visits_iff_initial {es : List ε} :
    Visits step P s es ↔ ∀ pre, pre <+: es → P (pre.foldl step s) := by
  induction es generalizing s with
  | nil => simp [Visits]
  | cons e es ih =>
    simp only [Visits, ih]
    constructor
    · rintro ⟨here, later⟩ pre hpre
      rcases List.prefix_cons_iff.mp hpre with rfl | ⟨pre', rfl, hpre'⟩
      · exact here
      · exact later pre' hpre'
    · intro all
      exact ⟨all [] List.nil_prefix,
        fun pre hpre => all (e :: pre) (List.cons_prefix_cons.mpr ⟨rfl, hpre⟩)⟩

/-- The run lemma: an invariant kept by every step that meets `ok` holds along the run. -/
theorem visits_of_along (keep : ∀ s e, I s → ok s e → I (step s e)) {es : List ε}
    (start : I s) (steps : Along step ok s es) : Visits step I s es := by
  induction es generalizing s with
  | nil => exact start
  | cons e es ih => exact ⟨start, ih (keep s e start steps.1) steps.2⟩

theorem Visits.weaken (weaken : ∀ s, I s → P s) {es : List ε} (h : Visits step I s es) :
    Visits step P s es := by
  induction es generalizing s with
  | nil => exact weaken s h
  | cons e es ih => exact ⟨weaken s h.1, ih h.2⟩

theorem Visits.head {es : List ε} (h : Visits step P s es) : P s := by
  cases es with
  | nil => exact h
  | cons e es => exact h.1

/-- What every step from a good state does that meets `ok`, each step of a run does all of which meet it. -/
theorem along_of_invariant {ok' : σ → ε → Prop} (keep : ∀ s e, I s → ok s e → I (step s e))
    (does : ∀ s e, I s → ok s e → ok' s e) {es : List ε} (start : I s) (steps : Along step ok s es) :
    Along step ok' s es := by
  induction es generalizing s with
  | nil => trivial
  | cons e es ih => exact ⟨does s e start steps.1, ih (keep s e start steps.1) steps.2⟩

/-- If steps that break `ok` are exactly the ones that leave `P`, a run keeps `P` throughout if
and only if every step of it meets `ok`. -/
theorem visits_iff_along (weaken : ∀ s, I s → P s)
    (keep : ∀ s e, I s → ok s e → I (step s e))
    (exact : ∀ s e, I s → P (step s e) → ok s e) {es : List ε} (start : I s) :
    Visits step P s es ↔ Along step ok s es := by
  constructor
  · intro visits
    induction es generalizing s with
    | nil => trivial
    | cons e es ih =>
      have met : ok s e := exact s e start visits.2.head
      exact ⟨met, ih (keep s e start met) visits.2⟩
  · intro steps
    exact (visits_of_along keep start steps).weaken weaken

/-- Two conditions that agree on the good states, one of which keeps them good, hold along the same
runs. -/
theorem along_congr {ok' : σ → ε → Prop} (same : ∀ s e, I s → (ok s e ↔ ok' s e))
    (keep : ∀ s e, I s → ok' s e → I (step s e)) {es : List ε} (start : I s) :
    Along step ok s es ↔ Along step ok' s es := by
  induction es generalizing s with
  | nil => exact Iff.rfl
  | cons e es ih =>
    constructor
    · rintro ⟨here, later⟩
      have met := (same s e start).mp here
      exact ⟨met, (ih (keep s e start met)).mp later⟩
    · rintro ⟨met, later⟩
      exact ⟨(same s e start).mpr met, (ih (keep s e start met)).mpr later⟩

/-- If `P` is lost exactly by the steps that break `ok`, and never regained, it holds after a run
if and only if every step of the run meets `ok`. -/
theorem foldl_iff_along (es : List ε) (stay : ∀ s e, I s → I (step s e))
    (back : ∀ s e, I s → P (step s e) → P s)
    (exact : ∀ s e, I s → P s → (P (step s e) ↔ ok s e)) (start : I s) (holds : P s) :
    P (es.foldl step s) ↔ Along step ok s es := by
  have lost : ∀ (es : List ε) (s : σ), I s → P (es.foldl step s) → P s := by
    intro es
    induction es with
    | nil => exact fun s _ h => h
    | cons e es ih => exact fun s inv h => back s e inv (ih _ (stay s e inv) h)
  induction es generalizing s with
  | nil => exact ⟨fun _ => trivial, fun _ => holds⟩
  | cons e es ih =>
    constructor
    · intro after
      have next : P (step s e) := lost es _ (stay s e start) after
      exact ⟨(exact s e start holds).mp next, (ih (stay s e start) next).mp after⟩
    · rintro ⟨met, later⟩
      exact (ih (stay s e start) ((exact s e start holds).mpr met)).mpr later

/-- An invariant of every step holds after every run. -/
theorem foldl_invariant (keep : ∀ s e, I s → I (step s e)) (es : List ε) (start : I s) :
    I (es.foldl step s) := by
  induction es generalizing s with
  | nil => exact start
  | cons e es ih => exact ih (keep s e start)

end Lib.Run
