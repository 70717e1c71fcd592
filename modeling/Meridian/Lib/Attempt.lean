import Mathlib.Init

/-!
# Runs that may fail

A run takes a state to an outcome and a state. What a run does is said of every state with an invariant: it keeps
the invariant, its result is as it should be, and it fails only as it may.
-/

namespace Lib.Attempt

variable {σ ε α β : Type}

/-- A run over states `σ` that fails with `ε`. -/
abbrev AttemptM (σ ε : Type) := ExceptT ε (StateM σ)

/-- A run that is tried: it may fail in some ways. -/
def catching (caught : ε → Bool) (run : AttemptM σ ε α) : AttemptM σ ε (Option α) := fun s =>
  match run s with
  | (.ok a, s) => (.ok (some a), s)
  | (.error e, s) => (if caught e then .ok none else .error e, s)

/-- What may come of a run. -/
inductive Outcome (fails : ε → Prop) (post : α → Prop) : Except ε α → Prop
  | ok {a : α} : post a → Outcome fails post (.ok a)
  | error {e : ε} : fails e → Outcome fails post (.error e)

theorem Outcome.imp {fails fails' : ε → Prop} {post post' : α → Prop} {out : Except ε α}
    (outcome : Outcome fails post out) (result : ∀ a, post a → post' a) (failed : ∀ e, fails e → fails' e) :
    Outcome fails' post' out := by
  cases outcome with
  | ok right => exact .ok (result _ right)
  | error may => exact .error (failed _ may)

def Meets (inv : σ → Prop) (fails : ε → Prop) (run : AttemptM σ ε α) (post : α → Prop) : Prop :=
  ∀ s, inv s → inv (run s).2 ∧ Outcome fails post (run s).1

variable {inv : σ → Prop} {fails : ε → Prop} {post : α → Prop} {run : AttemptM σ ε α}

theorem Meets.imp (meets : Meets inv fails run post) {post' : α → Prop} (imp : ∀ a, post a → post' a) :
    Meets inv fails run post' := by
  intro s holds
  obtain ⟨kept, outcome⟩ := meets s holds
  exact ⟨kept, outcome.imp imp fun _ => id⟩

theorem meets_pure {a : α} (result : post a) : Meets inv fails (pure a) post := fun _ holds => ⟨holds, .ok result⟩

theorem meets_throw {e : ε} (may : fails e) : Meets inv fails (throw e) post := fun _ holds => ⟨holds, .error may⟩

/-- A value, or what is wrong with it. -/
theorem meets_liftExcept {value : Except ε α} (outcome : Outcome fails post value) :
    Meets inv fails (liftExcept value) post := by
  cases outcome with
  | ok result => exact meets_pure result
  | error may => exact meets_throw may

/-- A run and the one behind it, which has its result. -/
theorem Meets.bind (meets : Meets inv fails run post) {next : α → AttemptM σ ε β} {post' : β → Prop}
    (rest : ∀ a, post a → Meets inv fails (next a) post') : Meets inv fails (run >>= next) post' := by
  intro s holds
  obtain ⟨kept, outcome⟩ := meets s holds
  have unfolded : (run >>= next) s = ExceptT.bindCont next (run s).1 (run s).2 := rfl
  rw [unfolded]
  generalize (run s).1 = out at outcome ⊢
  cases outcome with
  | ok result => exact rest _ result _ kept
  | error may => exact ⟨kept, .error may⟩

/-- What is tried gives a result, or fails in a way that is caught. -/
theorem Meets.catching {caught : ε → Bool} {fails' : ε → Prop} {post' : Option α → Prop}
    (meets : Meets inv fails run post) (result : ∀ a, post a → post' (some a))
    (failed : ∀ e, fails e → if caught e then post' none else fails' e) :
    Meets inv fails' (catching caught run) post' := by
  intro s holds
  obtain ⟨kept, outcome⟩ := meets s holds
  rw [Attempt.catching]
  generalize run s = out at kept outcome ⊢
  obtain ⟨out, s'⟩ := out
  cases outcome with
  | ok holds' => exact ⟨kept, .ok (result _ holds')⟩
  | @error e may =>
    refine ⟨kept, ?_⟩
    have here := failed e may
    dsimp only
    split
    · rename_i yes
      rw [if_pos yes] at here
      exact .ok here
    · rename_i no
      rw [if_neg no] at here
      exact .error here

theorem Meets.mono (meets : Meets inv fails run post) {fails' : ε → Prop} (imp : ∀ e, fails e → fails' e) :
    Meets inv fails' run post := by
  intro s holds
  obtain ⟨kept, outcome⟩ := meets s holds
  exact ⟨kept, outcome.imp (fun _ => id) imp⟩

theorem meets_ite {c : Prop} [Decidable c] {run' : AttemptM σ ε α} (yes : c → Meets inv fails run post)
    (no : ¬ c → Meets inv fails run' post) : Meets inv fails (if c then run else run') post := by
  split
  · rename_i holds
    exact yes holds
  · rename_i not
    exact no not

/-- The result of a run that succeeds. -/
theorem Meets.result (meets : Meets inv fails run post) {s : σ} (holds : inv s) {a : α}
    (same : (run s).1 = .ok a) : post a := by
  have outcome := (meets s holds).2
  rw [same] at outcome
  cases outcome with
  | ok result => exact result

/-- A run that may not fail succeeds. -/
theorem Meets.succeeds (meets : Meets inv (fun _ => False) run post) {s : σ} (holds : inv s) :
    ∃ a, (run s).1 = .ok a ∧ post a := by
  have outcome := (meets s holds).2
  generalize (run s).1 = out at outcome ⊢
  cases outcome with
  | ok result => exact ⟨_, rfl, result⟩
  | error may => exact absurd may id

/-! ### States before and behind -/

/-- From the states with a property, a run ends in a result and a state that are as they should be, or it fails
in a way and a state that it may. -/
def Does (pre : σ → Prop) (run : AttemptM σ ε α) (post : α → σ → Prop) (fails : ε → σ → Prop) : Prop :=
  ∀ s, pre s → Outcome (fails · (run s).2) (post · (run s).2) (run s).1

section
variable {pre : σ → Prop} {post : α → σ → Prop} {fails : ε → σ → Prop}

theorem does_pure {a : α} (result : ∀ s, pre s → post a s) : Does pre (pure a) post fails :=
  fun s holds => .ok (result s holds)

theorem Does.imp (does : Does pre run post fails) {pre' : σ → Prop} {post' : α → σ → Prop} {fails' : ε → σ → Prop}
    (first : ∀ s, pre' s → pre s) (result : ∀ a s, post a s → post' a s) (failed : ∀ e s, fails e s → fails' e s) :
    Does pre' run post' fails' :=
  fun s holds => (does s (first s holds)).imp (fun _ => result _ _) fun _ => failed _ _

theorem Does.bind (does : Does pre run post fails) {next : α → AttemptM σ ε β} {post' : β → σ → Prop}
    (rest : ∀ a, Does (post a) (next a) post' fails) : Does pre (run >>= next) post' fails := by
  intro s holds
  have outcome := does s holds
  have unfolded : (run >>= next) s = ExceptT.bindCont next (run s).1 (run s).2 := rfl
  rw [unfolded]
  generalize (run s).2 = s' at outcome ⊢
  generalize (run s).1 = out at outcome ⊢
  cases outcome with
  | ok result => exact rest _ s' result
  | error may => exact .error may

/-- A fact of the states before it. -/
theorem does_and {fact : Prop} (rest : fact → Does pre run post fails) :
    Does (fun s => fact ∧ pre s) run post fails := fun s holds => rest holds.1 s holds.2

/-- A step that only changes the state. -/
theorem does_modify {f : σ → σ} {post : Unit → σ → Prop} (result : ∀ s, pre s → post () (f s)) :
    Does pre (modify f) post fails := fun s holds => .ok (result s holds)

end

end Lib.Attempt
