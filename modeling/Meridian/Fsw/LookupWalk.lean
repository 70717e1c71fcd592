import Meridian.Fsw.Lookup
import Meridian.Lib.Walk
import Mathlib.Data.Fin.VecNotation

/-!
# Where a lookup ends

The lookup as a walk through links. `Tree.coded` are the names as the code reads them and `Tree.posix`
as POSIX has them: the parent of the root is the root, an empty path leads nowhere, and a path that ends
in a separator has to lead to a directory. What a run returns is what the walk reaches, and a run ends
when the walk does.
-/

namespace Meridian.Fsw.Lookup

open Lib.Result
open Lib.Walk
open Relation

variable {ν : Type}

def Tree.shape (tree : Tree ν) (dno : ν) : Shape ν Name :=
  match tree.fill dno with
  | .error _ => .unreadable
  | .ok type =>
    if type ≠ .symlink then .node else
    match tree.parent dno, tree.readlink dno with
    | some parent, .ok target => .link (start tree parent target slash) (components slash target)
    | _, _ => .unreadable

def entry (tree : Tree ν) (dno : ν) (name : Name) : FswM ν := do
  let type ← check (tree.fill dno)
  entryOf tree (dno, type) name

def Tree.coded (tree : Tree ν) : Names ν Name where
  shape := tree.shape
  entry dno name := (entry tree dno name).toOption
  arrives _ _ := True

/-- An empty path leads nowhere, and one that ends in a separator only to a directory. -/
def Tree.MayEnd (tree : Tree ν) (separator : UInt16) (path : Name) (dno : ν) : Prop :=
  path ≠ [] ∧ (path.getLast? = some separator → tree.fill dno = .ok .dir)

def Tree.posixEntry (tree : Tree ν) (dno : ν) (name : Name) : Option ν :=
  if tree.fill dno = .ok .dir then
    if name = dot then some dno
    else if name = dotDot then some ((tree.parent dno).getD dno)
    else (tree.dirLookup dno name).toOption
  else none

def Tree.posix (tree : Tree ν) : Names ν Name where
  shape := tree.shape
  entry := tree.posixEntry
  arrives link dno := ∀ target, tree.readlink link = .ok target → tree.MayEnd slash target dno

def rounds : ℕ := linkCount - 1

/-- To walk the path and then to follow what it ends at. -/
def task (tree : Tree ν) (limit : ℕ) (dno : ν) (path : Name) (separator : UInt16) : Task ν Name :=
  .seek limit (start tree dno path separator) (components separator path)

/-- POSIX resolution of a path, with whatever bound on the links in a row. -/
def Denotes (tree : Tree ν) (dno : ν) (path : Name) (separator : UInt16) (target : ν) : Prop :=
  tree.MayEnd separator path target ∧
    ∃ limit, Goes tree.posix limit (task tree limit dno path separator) target

/-! ### Runs of a task -/

def walkNames (tree : Tree ν) (depth : ℕ) (dno : ν) (names : List Name) : FswM ν :=
  names.foldlM (lookupPathStep tree (fswDnodeResolve tree depth)) dno

def follow (tree : Tree ν) (depth rounds : ℕ) (dno : ν) : FswM ν :=
  resolveLoop tree (fswDnodeResolve tree depth) rounds dno

def run (tree : Tree ν) (depth : ℕ) : Task ν Name → FswM ν
  | .walk dno names => walkNames tree depth dno names
  | .follow rounds dno => follow tree depth rounds dno
  | .seek rounds dno names => walkNames tree depth dno names >>= follow tree depth rounds

variable {tree : Tree ν} {depth depth' n : ℕ} {dno x : ν} {name : Name} {names : List Name} {t : Task ν Name}

theorem resolve_succ : fswDnodeResolve tree (depth + 1) dno = follow tree depth rounds dno := rfl

theorem walkNames_cons : walkNames tree depth dno (name :: names) =
    lookupPathStep tree (fswDnodeResolve tree depth) dno name >>= fun child => walkNames tree depth child names :=
  List.foldlM_cons

theorem run_below (le : depth ≤ depth') (t : Task ν Name) : Below (run tree depth t) (run tree depth' t) := by
  have resolve : ∀ dno, Below (fswDnodeResolve tree depth dno) (fswDnodeResolve tree depth' dno) :=
    fswDnodeResolve_below le
  have walk : ∀ names dno, Below (walkNames tree depth dno names) (walkNames tree depth' dno names) :=
    fun names dno => Below.foldlM (lookupPathStep_below resolve) names dno
  cases t with
  | walk dno names => exact walk names dno
  | follow rounds dno => exact resolveLoop_below resolve rounds dno
  | seek rounds dno names => exact (walk names dno).bind (resolveLoop_below resolve rounds)

theorem follow_succ (tree : Tree ν) (depth n : ℕ) (dno : ν) :
    (tree.shape dno = .node ∧ follow tree depth (n + 1) dno = .ok dno) ∨
    (∃ s names, tree.shape dno = .link s names ∧
      follow tree depth (n + 1) dno = run tree depth (.seek n s names)) ∨
    (tree.shape dno = .unreadable ∧ ∃ status, follow tree depth (n + 1) dno = fail status) := by
  rw [follow, resolveLoop, Tree.shape]
  cases filled : tree.fill dno with
  | error status => exact .inr (.inr ⟨rfl, status, rfl⟩)
  | ok type =>
    rw [check, ok_bind]
    dsimp only
    by_cases link : type ≠ .symlink
    · rw [if_pos link, if_pos link]
      exact .inl ⟨rfl, rfl⟩
    · rw [if_neg link, if_neg link]
      cases tree.parent dno with
      | none => exact .inr (.inr ⟨rfl, .notFound, rfl⟩)
      | some parent =>
        dsimp only
        rw [fswDnodeReadlink, filled, check, ok_bind, if_neg link]
        cases tree.readlink dno with
        | error status => exact .inr (.inr ⟨rfl, status, rfl⟩)
        | ok target =>
          rw [check, ok_bind, fswDnodeLookupPath_eq]
          exact .inr (.inl ⟨_, _, rfl, rfl⟩)

theorem follow_node (node : tree.shape dno = .node) : follow tree depth (n + 1) dno = .ok dno := by
  rcases follow_succ tree depth n dno with ⟨_, returns⟩ | ⟨s, names, shape, _⟩ | ⟨shape, _⟩
  · exact returns
  · cases node.symm.trans shape
  · cases node.symm.trans shape

/-! ### What is found -/

theorem toOption_eq_some {α : Type} {run : FswM α} {a : α} : run.toOption = some a ↔ run = .ok a := by
  cases run with
  | error fault => exact ⟨nofun, nofun⟩
  | ok b => exact ⟨fun h => congrArg Except.ok (Option.some.inj h), fun h => congrArg some (Except.ok.inj h)⟩

theorem check_ok {α : Type} {result : Except FswStatus α} {a : α} : check result = .ok a ↔ result = .ok a := by
  cases result with
  | ok b => exact ⟨fun h => congrArg Except.ok (Except.ok.inj h), fun h => congrArg Except.ok (Except.ok.inj h)⟩
  | error status => exact ⟨nofun, nofun⟩

theorem shape_node {type : DnodeType} (filled : tree.fill dno = .ok type) (other : type ≠ .symlink) :
    tree.shape dno = .node := by
  rw [Tree.shape, filled]
  exact if_pos other

theorem followed_ok {resolve : ν → FswM ν} {type : DnodeType} (found : followed tree resolve dno = .ok (x, type)) :
    tree.fill x = .ok type ∧ (tree.shape dno = .node ∧ x = dno ∨ resolve dno = .ok x) := by
  obtain ⟨first, filled, found⟩ := bind_eq_ok.mp found
  rw [check_ok] at filled
  split at found
  · obtain ⟨e, resolved, found⟩ := bind_eq_ok.mp found
    obtain ⟨type', filled', found⟩ := bind_eq_ok.mp found
    cases found
    exact ⟨check_ok.mp filled', .inr resolved⟩
  · rename_i other
    cases found
    exact ⟨filled, .inl ⟨shape_node filled other, rfl⟩⟩

/-- With some depth left a dnode that is no link resolves to itself, so that each name is looked up in what
its directory resolves to. -/
theorem lookupPathStep_eq : lookupPathStep tree (fswDnodeResolve tree (depth + 1)) dno name =
    follow tree depth rounds dno >>= fun e => entry tree e name := by
  rw [lookupPathStep, followed]
  have loop : follow tree depth rounds dno = follow tree depth (38 + 1) dno := rfl
  cases filled : tree.fill dno with
  | error status =>
    rw [loop, follow, resolveLoop, filled]
    rfl
  | ok type =>
    rw [check, ok_bind]
    by_cases link : type = .symlink
    · rw [if_pos link, resolve_succ]
      cases follow tree depth rounds dno with
      | error fault => rfl
      | ok e =>
        rw [ok_bind, ok_bind, entry]
        cases tree.fill e <;> rfl
    · rw [if_neg link, loop, follow_node (shape_node filled link), ok_bind, ok_bind, entry, filled, check, ok_bind]

theorem walkNames_sound
    (resolves : ∀ dno e, fswDnodeResolve tree depth dno = .ok e → Goes tree.coded rounds (.follow rounds dno) e)
    (returns : walkNames tree depth dno names = .ok x) : Goes tree.coded rounds (.walk dno names) x := by
  induction names generalizing dno with
  | nil =>
    cases returns
    exact .done _
  | cons name names ih =>
    rw [walkNames_cons] at returns
    obtain ⟨f, step, returns⟩ := bind_eq_ok.mp returns
    obtain ⟨⟨e, type⟩, found, there⟩ := bind_eq_ok.mp step
    obtain ⟨filled, target⟩ := followed_ok found
    have goes : Goes tree.coded rounds (.follow rounds dno) e := by
      rcases target with ⟨shape, rfl⟩ | resolved
      · exact .node shape
      · exact resolves dno e resolved
    refine .component goes (toOption_eq_some.mpr ?_) (ih returns)
    rw [entry, filled, check, ok_bind]
    exact there

theorem follow_sound
    (walks : ∀ dno names e, walkNames tree depth dno names = .ok e → Goes tree.coded rounds (.walk dno names) e)
    (returns : follow tree depth n dno = .ok x) : Goes tree.coded rounds (.follow n dno) x := by
  induction n generalizing dno with
  | zero => cases returns
  | succ n ih =>
    rcases follow_succ tree depth n dno with ⟨shape, same⟩ | ⟨s, names, shape, same⟩ | ⟨_, _, same⟩
    · rw [same] at returns
      cases returns
      exact .node shape
    · rw [same] at returns
      obtain ⟨e, walked, returns⟩ := bind_eq_ok.mp returns
      exact .link shape (.seek (walks s names e walked) (ih returns)) trivial
    · rw [same] at returns
      cases returns

theorem resolve_sound (returns : fswDnodeResolve tree depth dno = .ok x) :
    Goes tree.coded rounds (.follow rounds dno) x := by
  induction depth generalizing dno x with
  | zero => cases returns
  | succ depth ih => exact follow_sound (fun _ _ _ => walkNames_sound fun _ _ => ih) returns

/-- What a run returns is what the task reaches. -/
theorem run_sound (returns : run tree depth t = .ok x) : Goes tree.coded rounds t x := by
  have walks : ∀ dno names e, walkNames tree depth dno names = .ok e →
      Goes tree.coded rounds (.walk dno names) e :=
    fun _ _ _ => walkNames_sound fun _ _ => resolve_sound
  cases t with
  | walk dno names => exact walks dno names x returns
  | follow n dno => exact follow_sound walks returns
  | seek n dno names =>
    obtain ⟨e, walked, returns⟩ := bind_eq_ok.mp returns
    exact .seek (walks dno names e walked) (follow_sound walks returns)

theorem run_raise (returns : run tree depth t = .ok x) (le : depth ≤ depth') : run tree depth' t = .ok x := by
  rw [(run_below le t).eq, returns]
  rw [returns]
  nofun

theorem walkNames_next : walkNames tree (depth + 1) dno (name :: names) =
    follow tree depth rounds dno >>= fun e =>
      entry tree e name >>= fun f => walkNames tree (depth + 1) f names := by
  rw [walkNames_cons, lookupPathStep_eq]
  cases follow tree depth rounds dno <;> rfl

theorem follow_link {s : ν} (shape : tree.shape dno = .link s names) :
    follow tree depth (n + 1) dno = run tree depth (.seek n s names) := by
  rcases follow_succ tree depth n dno with ⟨shape', _⟩ | ⟨s', names', shape', same⟩ | ⟨shape', _⟩
  · cases shape.symm.trans shape'
  · cases shape.symm.trans shape'
    exact same
  · cases shape.symm.trans shape'

/-- What the task reaches is what it returns with depth enough. -/
theorem run_complete (goes : Goes tree.coded rounds t x) : ∃ depth, run tree depth t = .ok x := by
  induction goes with
  | done d => exact ⟨0, rfl⟩
  | @component d e f x name names _ entry _ ihFollow ihRest =>
    obtain ⟨depth₁, first⟩ := ihFollow
    obtain ⟨depth₂, rest⟩ := ihRest
    have first' : follow tree (max depth₁ depth₂) rounds d = .ok e := run_raise first (Nat.le_max_left _ _)
    refine ⟨max depth₁ depth₂ + 1, walkNames_next.trans ?_⟩
    rw [first', ok_bind, toOption_eq_some.mp entry, ok_bind]
    exact run_raise rest (Nat.le_succ_of_le (Nat.le_max_right _ _))
  | node shape => exact ⟨0, follow_node shape⟩
  | link shape _ _ ih =>
    obtain ⟨depth, seek⟩ := ih
    exact ⟨depth, (follow_link shape).trans seek⟩
  | @seek n s e x names _ _ ihWalk ihFollow =>
    obtain ⟨depth₁, walk⟩ := ihWalk
    obtain ⟨depth₂, onwards⟩ := ihFollow
    have walk' : walkNames tree (max depth₁ depth₂) s names = .ok e := run_raise walk (Nat.le_max_left _ _)
    refine ⟨max depth₁ depth₂, ?_⟩
    rw [run, walk', ok_bind]
    exact run_raise onwards (Nat.le_max_right _ _)

/-! ### What ends -/

def Finishes {α : Type} (run : FswM α) : Prop := run ≠ .error .outOfFuel

theorem finishes_bind {α β : Type} {run : FswM α} {f : α → FswM β} :
    Finishes (run >>= f) ↔ Finishes run ∧ ∀ a, run = .ok a → Finishes (f a) := by
  cases run with
  | error fault =>
    constructor
    · exact fun h => ⟨fun same => h (congrArg Except.error (Except.error.inj same)), nofun⟩
    · exact fun h same => h.1 (congrArg Except.error (Except.error.inj same))
  | ok a =>
    constructor
    · intro h
      refine ⟨nofun, fun b same => ?_⟩
      cases same
      exact h
    · exact fun h => h.2 a rfl

theorem finishes_check {α : Type} (result : Except FswStatus α) : Finishes (check result) := by
  cases result <;> exact nofun

theorem finishes_entryOf (found : ν × DnodeType) : Finishes (entryOf tree found name) := by
  unfold entryOf
  split_ifs
  · exact nofun
  · exact nofun
  · split <;> exact nofun
  · exact finishes_check _

theorem finishes_entry : Finishes (entry tree dno name) :=
  finishes_bind.mpr ⟨finishes_check _, fun _ _ => finishes_entryOf _⟩

theorem run_finishes (finishes : Finishes (run tree depth t)) (le : depth ≤ depth') :
    Finishes (run tree depth' t) := by
  rw [(run_below le t).eq finishes]
  exact finishes

/-- A run with depth enough finishes where the walk ends. -/
theorem finishes_of_ends (ends : Ends tree.coded rounds t) : ∃ depth, Finishes (run tree depth t) := by
  induction ends with
  | intro t _ ih =>
    cases t with
    | walk d names =>
      cases names with
      | nil => exact ⟨0, nofun⟩
      | cons name names =>
        obtain ⟨depth₁, first⟩ := ih _ (.component d name names)
        cases resolved : follow tree depth₁ rounds d with
        | error fault =>
          refine ⟨depth₁ + 1, ?_⟩
          rw [run, walkNames_next, resolved]
          intro same
          exact first (resolved.trans (congrArg Except.error (Except.error.inj same)))
        | ok e =>
          cases there : entry tree e name with
          | error fault =>
            refine ⟨depth₁ + 1, ?_⟩
            rw [run, walkNames_next, resolved, ok_bind, there]
            intro same
            exact finishes_entry (there.trans (congrArg Except.error (Except.error.inj same)))
          | ok f =>
            have goes := run_sound (t := .follow rounds d) resolved
            obtain ⟨depth₂, rest⟩ := ih _ (.rest goes (toOption_eq_some.mpr there))
            have resolved' : follow tree (max depth₁ depth₂) rounds d = .ok e :=
              run_raise (t := .follow rounds d) resolved (Nat.le_max_left _ _)
            refine ⟨max depth₁ depth₂ + 1, ?_⟩
            rw [run, walkNames_next, resolved', ok_bind, there, ok_bind]
            exact run_finishes (t := .walk f names) rest (Nat.le_succ_of_le (Nat.le_max_right _ _))
    | follow n d =>
      cases n with
      | zero => exact ⟨0, nofun⟩
      | succ n =>
        rcases follow_succ tree 0 n d with ⟨_, same⟩ | ⟨s, names, shape, _⟩ | ⟨_, _, same⟩
        · refine ⟨0, ?_⟩
          rw [run, same]
          nofun
        · obtain ⟨depth, seek⟩ := ih _ (.link shape)
          refine ⟨depth, ?_⟩
          rw [run, follow_link shape]
          exact seek
        · refine ⟨0, ?_⟩
          rw [run, same]
          nofun
    | seek n s names =>
      obtain ⟨depth₁, walk⟩ := ih _ (.target n s names)
      cases walked : walkNames tree depth₁ s names with
      | error fault =>
        refine ⟨depth₁, ?_⟩
        rw [run, walked]
        intro same
        exact walk (walked.trans (congrArg Except.error (Except.error.inj same)))
      | ok e =>
        have goes := run_sound (t := .walk s names) walked
        obtain ⟨depth₂, onwards⟩ := ih _ (.onwards goes)
        have walked' : walkNames tree (max depth₁ depth₂) s names = .ok e :=
          run_raise (t := .walk s names) walked (Nat.le_max_left _ _)
        refine ⟨max depth₁ depth₂, ?_⟩
        rw [run, walked', ok_bind]
        exact run_finishes (t := .follow n e) onwards (Nat.le_max_right _ _)

theorem returns_of_finishes (finishes : Finishes (run tree depth t)) (returns : run tree depth' t = .ok x) :
    run tree depth t = .ok x := by
  rcases Nat.le_total depth depth' with le | le
  · rw [← (run_below le t).eq finishes, returns]
  · exact run_raise returns le

theorem followed_finishes {resolve : ν → FswM ν} (finishes : Finishes (followed tree resolve dno)) :
    (∀ s names, tree.shape dno ≠ .link s names) ∨ Finishes (resolve dno) := by
  cases filled : tree.fill dno with
  | error status =>
    refine .inl fun s names shape => ?_
    rw [Tree.shape, filled] at shape
    cases shape
  | ok type =>
    by_cases link : type = .symlink
    · rw [followed, filled, check, ok_bind, if_pos link] at finishes
      exact .inr (finishes_bind.mp finishes).1
    · refine .inl fun s names shape => ?_
      cases (shape_node filled link).symm.trans shape

theorem walkNames_ends
    (resolves : ∀ dno, Finishes (fswDnodeResolve tree depth dno) → Ends tree.coded rounds (.follow rounds dno))
    (finishes : Finishes (walkNames tree depth dno names)) : Ends tree.coded rounds (.walk dno names) := by
  induction names generalizing dno with
  | nil => exact Acc.intro _ fun u call => by cases call
  | cons name names ih =>
    rw [walkNames_cons] at finishes
    obtain ⟨step, rest⟩ := finishes_bind.mp finishes
    refine Acc.intro _ fun u call => ?_
    cases call with
    | component =>
      rcases followed_finishes (finishes_bind.mp step).1 with plain | resolved
      · exact ends_of_no_link plain
      · exact resolves dno resolved
    | @rest _ _ f _ _ goes entry =>
      obtain ⟨depth', found⟩ := run_complete (.component goes entry (.done f))
      have one : Finishes (run tree depth (.walk dno [name])) := finishes_bind.mpr ⟨step, fun _ _ => nofun⟩
      obtain ⟨f', found, same⟩ := bind_eq_ok.mp (returns_of_finishes one found)
      cases same
      exact ih (rest f found)

theorem follow_ends
    (walks : ∀ dno names, Finishes (walkNames tree depth dno names) → Ends tree.coded rounds (.walk dno names))
    (finishes : Finishes (follow tree depth n dno)) : Ends tree.coded rounds (.follow n dno) := by
  induction n generalizing dno with
  | zero => exact Acc.intro _ fun u call => by cases call
  | succ n ih =>
    refine Acc.intro _ fun u call => ?_
    cases call with
    | @link _ _ s names shape =>
      rw [follow_link shape] at finishes
      obtain ⟨walk, onwards⟩ := finishes_bind.mp finishes
      refine ends_seek (walks s names walk) fun e goes => ih (onwards e ?_)
      obtain ⟨depth', walked⟩ := run_complete goes
      exact returns_of_finishes (t := .walk s names) walk walked

theorem resolve_ends (finishes : Finishes (fswDnodeResolve tree depth dno)) :
    Ends tree.coded rounds (.follow rounds dno) := by
  induction depth generalizing dno with
  | zero => exact absurd rfl finishes
  | succ depth ih => exact follow_ends (fun _ _ => walkNames_ends fun _ => ih) finishes

/-! ### Opening a path -/

variable {path : Name} {separator : UInt16}

theorem openPath_eq : openPath tree depth dno path separator =
    walkNames tree depth (start tree dno path separator) (components separator path) >>=
      fswDnodeResolve tree depth := by
  rw [openPath, fswDnodeLookupPath_eq]
  rfl

theorem openPath_sound (returns : openPath tree depth dno path separator = .ok x) :
    Goes tree.coded rounds (task tree rounds dno path separator) x := by
  rw [openPath_eq] at returns
  obtain ⟨e, walked, resolved⟩ := bind_eq_ok.mp returns
  exact .seek (walkNames_sound (fun _ _ => resolve_sound) walked) (resolve_sound resolved)

theorem openPath_of_run (depth : ℕ) : Below (run tree depth (task tree rounds dno path separator))
    (openPath tree (depth + 1) dno path separator) := by
  rw [openPath_eq]
  exact (run_below (Nat.le_succ depth) (.walk (start tree dno path separator) (components separator path))).bind
    fun e => .refl _

theorem openPath_ends (finishes : Finishes (openPath tree depth dno path separator)) :
    Ends tree.coded rounds (task tree rounds dno path separator) := by
  rw [openPath_eq] at finishes
  obtain ⟨walk, onwards⟩ := finishes_bind.mp finishes
  refine ends_seek (walkNames_ends (fun _ => resolve_ends) walk) fun e goes => resolve_ends (onwards e ?_)
  obtain ⟨depth', walked⟩ := run_complete goes
  exact returns_of_finishes (t := .walk _ _) walk walked

theorem openPath_complete (finishes : Finishes (openPath tree depth dno path separator))
    (goes : Goes tree.coded rounds (task tree rounds dno path separator) x) :
    openPath tree depth dno path separator = .ok x := by
  obtain ⟨depth', returns⟩ := run_complete goes
  have found : openPath tree (depth' + 1) dno path separator = .ok x := by
    rw [(openPath_of_run depth').eq (by rw [returns]; nofun), returns]
  rcases Nat.le_total depth (depth' + 1) with le | le
  · rw [← (openPath_below le dno path separator).eq finishes, found]
  · rw [(openPath_below le dno path separator).eq (by rw [found]; nofun), found]

theorem coded_refines (tree : Tree ν) : Refines tree.coded tree.posix := by
  refine ⟨fun _ => rfl, fun {d e c} here => ?_⟩
  obtain ⟨type, filled, found⟩ := bind_eq_ok.mp (toOption_eq_some.mp here)
  rw [check_ok] at filled
  change tree.posixEntry d c = some e
  rw [Tree.posixEntry]
  unfold entryOf at found
  by_cases dir : type ≠ .dir
  · rw [if_pos dir] at found
    cases found
  · rw [if_neg dir] at found
    rw [if_pos (by rw [filled, not_not.mp dir])]
    by_cases here : c = dot
    · rw [if_pos here] at found ⊢
      exact congrArg some (Except.ok.inj found)
    · rw [if_neg here] at found ⊢
      by_cases up : c = dotDot
      · rw [if_pos up] at found ⊢
        dsimp only at found
        cases above : tree.parent d with
        | none =>
          rw [above] at found
          cases found
        | some parent =>
          rw [above] at found
          exact congrArg some (Except.ok.inj found)
      · rw [if_neg up] at found ⊢
        dsimp only at found
        rw [check_ok.mp found]
        rfl

/-- No link that the lookup resolves has to be resolved for the sake of its own target. -/
def NoReentry (tree : Tree ν) (dno : ν) (path : Name) (separator : UInt16) : Prop :=
  ∀ link, Reaches tree.coded rounds (task tree rounds dno path separator) link → ¬ Reenters tree.coded rounds link

/-- Where the path leads to a dnode, it may end there, and so may each link that is resolved on the way. -/
def Tidy (tree : Tree ν) (dno : ν) (path : Name) (separator : UInt16) : Prop :=
  ∀ x, Goes tree.coded rounds (task tree rounds dno path separator) x →
    tree.MayEnd separator path x ∧ Lawful tree.coded tree.posix rounds (task tree rounds dno path separator)

def backslash : UInt16 := 0x5c

/-- In its root `l` is a link to the directory `d`, which holds the file `f`. -/
def linked : Tree (Fin 4) where
  root := 0
  parent := ![none, some 0, some 0, some 1]
  fill := ![.ok .dir, .ok .dir, .ok .symlink, .ok .file]
  dirLookup dno name :=
    if dno = 0 ∧ name = [0x64] then .ok 1
    else if dno = 0 ∧ name = [0x6c] then .ok 2
    else if dno = 1 ∧ name = [0x66] then .ok 3
    else .error .notFound
  readlink dno := if dno = 2 then .ok [0x64] else .error .unsupported

theorem linked_denotes : Denotes linked 0 [0x6c, 0x5c, 0x66] backslash 3 := by
  have names : components backslash [0x6c, 0x5c, 0x66] = [[0x6c], [0x66]] := by decide
  have link : Goes linked.posix rounds (.follow rounds 2) 1 := by
    have shape : linked.posix.shape 2 = .link 0 [[0x64]] := rfl
    refine .link shape ?_ fun target same => ?_
    · exact .seek (.component (.node rfl) rfl (.done 1)) (.node rfl)
    · cases same
      exact ⟨by decide, by decide⟩
  refine ⟨⟨by decide, by decide⟩, rounds, ?_⟩
  rw [task, names]
  exact .seek (.component (.node rfl) rfl (.component link rfl (.done 3))) (.node rfl)

/-- In its root `a` is a link to `a/b`. -/
def throughItself : Tree (Fin 2) where
  root := 0
  parent := ![none, some 0]
  fill := ![.ok .dir, .ok .symlink]
  dirLookup dno name := if dno = 0 ∧ name = [0x61] then .ok 1 else .error .notFound
  readlink dno := if dno = 1 then .ok [0x61, 0x2f, 0x62] else .error .unsupported

theorem resolve_throughItself (depth : ℕ) (name : Name) :
    fswDnodeResolve throughItself depth 1 = .error .outOfFuel ∧
    walkNames throughItself depth 0 [[0x61], name] = .error .outOfFuel := by
  have walk : ∀ depth name, fswDnodeResolve throughItself depth 1 = .error .outOfFuel →
      walkNames throughItself depth 0 [[0x61], name] = .error .outOfFuel := by
    intro depth name resolved
    have first : lookupPathStep throughItself (fswDnodeResolve throughItself depth) 0 [0x61] = .ok 1 := rfl
    have again : lookupPathStep throughItself (fswDnodeResolve throughItself depth) 1 name =
        .error .outOfFuel := by
      have filled : throughItself.fill 1 = .ok .symlink := rfl
      rw [lookupPathStep, followed, filled, check, ok_bind, if_pos rfl, resolved]
      rfl
    rw [walkNames_cons, first, ok_bind, walkNames_cons, again]
    rfl
  suffices resolved : fswDnodeResolve throughItself depth 1 = .error .outOfFuel from
    ⟨resolved, walk depth name resolved⟩
  induction depth with
  | zero => rfl
  | succ depth ih =>
    have names : components slash [0x61, 0x2f, 0x62] = [[0x61], [0x62]] := by decide
    have shape : throughItself.shape 1 = .link 0 [[0x61], [0x62]] := congrArg (Shape.link 0) names
    have loop : follow throughItself depth rounds 1 = follow throughItself depth (38 + 1) 1 := rfl
    rw [resolve_succ, loop, follow_link shape, run, walk depth [0x62] ih]
    rfl

end Meridian.Fsw.Lookup
