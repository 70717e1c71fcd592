import Mathlib.Data.Fintype.EquivFin
import Mathlib.Logic.Relation

/-!
# Walking names through links

A node is a link or is not, and a component leads from one node to another. `Goes` says where a walk
along components arrives when every link met before a further component is followed, and `Calls` which
part of the resolution starts which other one. On finitely many nodes a resolution ends exactly when no
link that it follows in full is followed in full again on its own behalf.
-/

namespace Lib.Walk

open Relation

variable {ν κ : Type*}

inductive Shape (ν κ : Type*) where
  | node
  | link (start : ν) (names : List κ)
  | unreadable

/-- `arrives` says of a link at which nodes it may end. -/
structure Names (ν κ : Type*) where
  shape : ν → Shape ν κ
  entry : ν → κ → Option ν
  arrives : ν → ν → Prop

inductive Task (ν κ : Type*) where
  | walk (from' : ν) (names : List κ)
  | follow (rounds : ℕ) (node : ν)
  | seek (rounds : ℕ) (start : ν) (names : List κ)

/-- Where a task arrives: a walk does not follow the last node that it meets, and a link before another
component is followed for at most `limit` rounds. -/
inductive Goes (T : Names ν κ) (limit : ℕ) : Task ν κ → ν → Prop where
  | done (d : ν) : Goes T limit (.walk d []) d
  | component {d e f x : ν} {c : κ} {cs : List κ} (follow : Goes T limit (.follow limit d) e)
      (entry : T.entry e c = some f) (rest : Goes T limit (.walk f cs) x) : Goes T limit (.walk d (c :: cs)) x
  | node {n : ℕ} {d : ν} (shape : T.shape d = .node) : Goes T limit (.follow (n + 1) d) d
  | link {n : ℕ} {d s x : ν} {names : List κ} (shape : T.shape d = .link s names)
      (seek : Goes T limit (.seek n s names) x) (arrives : T.arrives d x) : Goes T limit (.follow (n + 1) d) x
  | seek {n : ℕ} {s e x : ν} {names : List κ} (walk : Goes T limit (.walk s names) e)
      (follow : Goes T limit (.follow n e) x) : Goes T limit (.seek n s names) x

/-- The tasks that a task starts on its way. -/
inductive Calls (T : Names ν κ) (limit : ℕ) : Task ν κ → Task ν κ → Prop where
  | component (d : ν) (c : κ) (cs : List κ) : Calls T limit (.walk d (c :: cs)) (.follow limit d)
  | rest {d e f : ν} {c : κ} {cs : List κ} (follow : Goes T limit (.follow limit d) e)
      (entry : T.entry e c = some f) : Calls T limit (.walk d (c :: cs)) (.walk f cs)
  | link {n : ℕ} {d s : ν} {names : List κ} (shape : T.shape d = .link s names) :
      Calls T limit (.follow (n + 1) d) (.seek n s names)
  | target (n : ℕ) (s : ν) (names : List κ) : Calls T limit (.seek n s names) (.walk s names)
  | onwards {n : ℕ} {s e : ν} {names : List κ} (walk : Goes T limit (.walk s names) e) :
      Calls T limit (.seek n s names) (.follow n e)

def Ends (T : Names ν κ) (limit : ℕ) : Task ν κ → Prop := Acc fun u t => Calls T limit t u

/-- The link is followed in full again before the resolution of it is over. -/
def Reenters (T : Names ν κ) (limit : ℕ) (l : ν) : Prop :=
  TransGen (Calls T limit) (.follow limit l) (.follow limit l)

def Reaches (T : Names ν κ) (limit : ℕ) (t : Task ν κ) (l : ν) : Prop :=
  ReflTransGen (Calls T limit) t (.follow limit l)

variable {T T' : Names ν κ} {limit limit' n m : ℕ} {t t' u : Task ν κ} {d e s x y : ν} {c : κ} {cs : List κ}

/-! ### One destination -/

/-- The same links lead the same way, and no entry is lost. -/
structure Refines (T T' : Names ν κ) : Prop where
  shape (d : ν) : T'.shape d = T.shape d
  entry {d e : ν} {c : κ} (here : T.entry d c = some e) : T'.entry d c = some e

theorem Refines.refl (T : Names ν κ) : Refines T T := ⟨fun _ => rfl, id⟩

/-- The same task, but for the rounds that are left. -/
inductive Task.Alike : Task ν κ → Task ν κ → Prop where
  | walk (d : ν) (names : List κ) : Alike (.walk d names) (.walk d names)
  | follow (n m : ℕ) (d : ν) : Alike (.follow n d) (.follow m d)
  | seek (n m : ℕ) (s : ν) (names : List κ) : Alike (.seek n s names) (.seek m s names)

theorem Refines.same_end (refines : Refines T T') (first : Goes T limit t x) (alike : t.Alike t')
    (second : Goes T' limit' t' y) : x = y := by
  induction first generalizing t' y with
  | done =>
    cases alike with
    | walk => cases second; rfl
  | component _ entry _ ihFollow ihRest =>
    cases alike with
    | walk =>
      cases second with
      | component follow entry' rest =>
        rw [← ihFollow (.follow _ _ _) follow, refines.entry entry] at entry'
        cases entry'
        exact ihRest (.walk _ _) rest
  | node shape =>
    cases alike with
    | follow =>
      cases second with
      | node => rfl
      | link shape' => cases shape.symm.trans ((refines.shape _).symm.trans shape')
  | link shape _ _ ih =>
    cases alike with
    | follow =>
      cases second with
      | node shape' => cases shape.symm.trans ((refines.shape _).symm.trans shape')
      | link shape' seek =>
        cases shape.symm.trans ((refines.shape _).symm.trans shape')
        exact ih (.seek _ _ _ _) seek
  | seek _ _ ihWalk ihFollow =>
    cases alike with
    | seek =>
      cases second with
      | seek walk follow =>
        rw [← ihWalk (.walk _ _) walk] at follow
        exact ihFollow (.follow _ _ _) follow

theorem Task.alike_refl (t : Task ν κ) : t.Alike t := by
  cases t with
  | walk d names => exact .walk d names
  | follow n d => exact .follow n n d
  | seek n s names => exact .seek n n s names

theorem goes_unique (first : Goes T limit t x) (second : Goes T limit t y) : x = y :=
  (Refines.refl T).same_end first t.alike_refl second

/-! ### Where the links may end -/

/-- Every link that the task resolves ends where the other names let it end. -/
def Lawful (T T' : Names ν κ) (limit : ℕ) (t : Task ν κ) : Prop :=
  ∀ n l s names x, ReflTransGen (Calls T limit) t (.follow n l) → T.shape l = .link s names →
    Goes T limit (.follow n l) x → T'.arrives l x

theorem Lawful.step (lawful : Lawful T T' limit t) (call : Calls T limit t u) : Lawful T T' limit u :=
  fun n l s names x reach => lawful n l s names x (.head call reach)

theorem Refines.goes (refines : Refines T T') (goes : Goes T limit t x) (lawful : Lawful T T' limit t) :
    Goes T' limit t x := by
  induction goes with
  | done d => exact .done d
  | component follow entry rest ihFollow ihRest =>
    refine .component (ihFollow (lawful.step (.component _ _ _))) (refines.entry entry) (ihRest ?_)
    exact lawful.step (.rest follow entry)
  | node shape => exact .node ((refines.shape _).trans shape)
  | link shape seek arrives ih =>
    refine .link ((refines.shape _).trans shape) (ih (lawful.step (.link shape))) ?_
    exact lawful _ _ _ _ _ .refl shape (.link shape seek arrives)
  | seek walk follow ihWalk ihFollow =>
    exact .seek (ihWalk (lawful.step (.target _ _ _))) (ihFollow (lawful.step (.onwards walk)))

theorem Lawful.of_calls (calls : ∀ u, Calls T limit t u → Lawful T T' limit u)
    (own : ∀ n l s names x, t = .follow n l → T.shape l = .link s names → Goes T limit t x → T'.arrives l x) :
    Lawful T T' limit t := by
  intro n l s names x reach shape goes
  rcases reach.cases_head with rfl | ⟨u, call, reach⟩
  · exact own n l s names x rfl shape goes
  · exact calls u call n l s names x reach shape goes

/-- What arrives under the stricter names too has resolved only links that end where they may. -/
theorem Refines.lawful (refines : Refines T T') (goes : Goes T limit t x) (alike : t.Alike t')
    (goes' : Goes T' limit' t' y) : Lawful T T' limit t := by
  induction goes generalizing t' y with
  | done =>
    refine Lawful.of_calls (fun u call => ?_) fun _ _ _ _ _ same => by cases same
    cases call
  | component follow entry _ ihFollow ihRest =>
    cases alike with
    | walk =>
      cases goes' with
      | component follow' entry' rest' =>
        refine Lawful.of_calls (fun u call => ?_) fun _ _ _ _ _ same => by cases same
        cases call with
        | component => exact ihFollow (.follow _ _ _) follow'
        | rest again there =>
          rw [goes_unique again follow, entry] at there
          cases there
          rw [← refines.same_end follow (.follow _ _ _) follow', refines.entry entry] at entry'
          cases entry'
          exact ihRest (.walk _ _) rest'
  | node shape =>
    refine Lawful.of_calls (fun u call => ?_) fun _ _ _ _ _ same link => ?_
    · cases call with
      | link shape' => cases shape.symm.trans shape'
    · cases same
      cases shape.symm.trans link
  | link shape seek arrives ih =>
    cases alike with
    | follow =>
      cases goes' with
      | node shape' => cases shape.symm.trans ((refines.shape _).symm.trans shape')
      | link shape' seek' arrives' =>
        cases shape.symm.trans ((refines.shape _).symm.trans shape')
        refine Lawful.of_calls (fun u call => ?_) fun _ _ _ _ _ same _ again => ?_
        · cases call with
          | link there =>
            cases shape.symm.trans there
            exact ih (.seek _ _ _ _) seek'
        · cases same
          rw [goes_unique again (.link shape seek arrives), refines.same_end seek (.seek _ _ _ _) seek']
          exact arrives'
  | seek walk _ ihWalk ihFollow =>
    cases alike with
    | seek =>
      cases goes' with
      | seek walk' follow' =>
        refine Lawful.of_calls (fun u call => ?_) fun _ _ _ _ _ same => by cases same
        cases call with
        | target => exact ihWalk (.walk _ _) walk'
        | onwards again =>
          cases goes_unique walk again
          rw [← refines.same_end walk (.walk _ _) walk'] at follow'
          exact ihFollow (.follow _ _ _) follow'

/-! ### Ends and re-entries -/

theorem Ends.step (ends : Ends T limit t) (call : Calls T limit t u) : Ends T limit u := Acc.inv ends call

theorem Ends.reach (ends : Ends T limit t) (reach : ReflTransGen (Calls T limit) t u) : Ends T limit u := by
  induction reach with
  | refl => exact ends
  | tail _ call ih => exact ih.step call

theorem Ends.irreflexive (ends : Ends T limit t) : ¬ TransGen (Calls T limit) t t := by
  induction ends with
  | intro t _ ih =>
    intro cycle
    obtain ⟨u, call, back⟩ := TransGen.head'_iff.mp cycle
    exact ih u call (TransGen.tail' back call)

/-- Every link that the task follows in full ends. -/
def FullEnds (T : Names ν κ) (limit : ℕ) (t : Task ν κ) : Prop :=
  ∀ l, TransGen (Calls T limit) t (.follow limit l) → Ends T limit (.follow limit l)

theorem FullEnds.step (full : FullEnds T limit t) (call : Calls T limit t u) : FullEnds T limit u :=
  fun l calls => full l (.head call calls)

theorem ends_of_no_link (plain : ∀ s names, T.shape d ≠ .link s names) : Ends T limit (.follow n d) := by
  refine Acc.intro _ fun u call => ?_
  cases call with
  | link shape => exact absurd shape (plain _ _)

theorem ends_walk (full : FullEnds T limit (.walk d cs)) : Ends T limit (.walk d cs) := by
  induction cs generalizing d with
  | nil => exact Acc.intro _ fun u call => by cases call
  | cons c cs ih =>
    refine Acc.intro _ fun u call => ?_
    cases call with
    | component => exact full d (.single (.component d c cs))
    | rest follow entry => exact ih (full.step (.rest follow entry))

theorem ends_seek (walk : Ends T limit (.walk s cs))
    (follow : ∀ e, Goes T limit (.walk s cs) e → Ends T limit (.follow n e)) :
    Ends T limit (.seek n s cs) := by
  refine Acc.intro _ fun u call => ?_
  cases call with
  | target => exact walk
  | onwards arrives => exact follow _ arrives

theorem ends_follow (full : FullEnds T limit (.follow n d)) : Ends T limit (.follow n d) := by
  induction n generalizing d with
  | zero => exact Acc.intro _ fun u call => by cases call
  | succ n ih =>
    refine Acc.intro _ fun u call => ?_
    cases call with
    | @link _ _ s names shape =>
      have full := full.step (.link shape)
      exact ends_seek (ends_walk (full.step (.target n s names))) fun e arrives => ih (full.step (.onwards arrives))

/-- Apart from the links that it follows in full, a task only has fewer components or rounds left. -/
theorem ends_of_full (full : FullEnds T limit t) : Ends T limit t := by
  cases t with
  | walk d names => exact ends_walk full
  | follow n d => exact ends_follow full
  | seek n s names =>
    refine ends_seek (ends_walk (full.step (.target n s names))) fun e arrives => ?_
    exact ends_follow (full.step (.onwards arrives))

/-- On finitely many nodes a relation without a cycle ahead of a node does not go on from it forever. -/
theorem acc_of_acyclic [Finite ν] {r : ν → ν → Prop} {start : ν}
    (acyclic : ∀ l, ReflTransGen r start l → ¬ TransGen r l l) : Acc (fun b a => r a b) start := by
  have trans : IsTrans { l // ReflTransGen r start l } fun b a => TransGen r a.1 b.1 :=
    ⟨fun _ _ _ first second => second.trans first⟩
  have irrefl : Std.Irrefl fun b a : { l // ReflTransGen r start l } => TransGen r a.1 b.1 :=
    ⟨fun l cycle => acyclic l.1 l.2 cycle⟩
  have wf := Finite.wellFounded_of_trans_of_irrefl fun b a : { l // ReflTransGen r start l } => TransGen r a.1 b.1
  have all : ∀ l : { l // ReflTransGen r start l }, Acc (fun b a => r a b) l.1 := by
    intro l
    induction l using wf.induction with
    | _ l ih => exact Acc.intro _ fun k step => ih ⟨k, l.2.tail step⟩ (.single step)
  exact all ⟨start, .refl⟩

theorem ends_iff [Finite ν] : Ends T limit t ↔ ∀ l, Reaches T limit t l → ¬ Reenters T limit l := by
  constructor
  · intro ends l reach
    exact (ends.reach reach).irreflexive
  · intro acyclic
    let again : ν → ν → Prop := fun a b => TransGen (Calls T limit) (.follow limit a) (.follow limit b)
    have trans : IsTrans ν again := ⟨fun _ _ _ first second => first.trans second⟩
    have ends : ∀ l, Acc (fun b a => again a b) l → Ends T limit (.follow limit l) := by
      intro l acc
      induction acc with
      | intro l _ ih => exact ends_of_full ih
    refine ends_of_full fun l calls => ends l (acc_of_acyclic fun k chain cycle => acyclic k ?_ ?_)
    · rcases reflTransGen_iff_eq_or_transGen.mp chain with rfl | chain
      · exact calls.to_reflTransGen
      · rw [transGen_eq_self] at chain
        exact (calls.trans chain).to_reflTransGen
    · rw [transGen_eq_self] at cycle
      exact cycle

end Lib.Walk
