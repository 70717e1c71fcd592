import Meridian.Fsw.Bytes
import Meridian.Lib.Result
import Mathlib.Data.List.Basic

/-!
# Looking up a path

The model of `fsw_strsplit` of `filesystems/fsw_lib.c`, of `fsw_dnode_lookup_path`, `fsw_dnode_readlink` and
`fsw_dnode_resolve` of `filesystems/fsw_core.c` and of the lookup in `fsw_efi_dir_open` of `fsw_efi.c`.
Strings are in the host's encoding: the driver passes UTF-16, and `readlink` coerces its target to that.
`depth` bounds how many calls of `fsw_dnode_resolve` may be open inside one another.
-/

namespace Meridian.Fsw.Lookup

open Lib.Result

inductive DnodeType where
  | unknown | file | dir | symlink | special
  deriving DecidableEq, Repr

abbrev Name := List UInt16

/-- A mounted directory tree: its file system's functions, and each dnode's `parent`. -/
structure Tree (ν : Type) where
  root : ν
  parent : ν → Option ν
  fill : ν → Except FswStatus DnodeType
  dirLookup : ν → Name → Except FswStatus ν
  readlink : ν → Except FswStatus Name

variable {ν : Type}

def slash : UInt16 := 0x2f
def dot : Name := [0x2e]
def dotDot : Name := [0x2e, 0x2e]

def check {α : Type} : Except FswStatus α → FswM α
  | .ok a => .ok a
  | .error status => fail status

/-- The next element and the remaining path. -/
def fswStrsplit (separator : UInt16) : Name → Name × Name
  | [] => ([], [])
  | c :: cs =>
    if c = separator then ([], cs) else
      let (element, buffer) := fswStrsplit separator cs
      (c :: element, buffer)

theorem fswStrsplit_shorter (separator : UInt16) (c : UInt16) (path : Name) :
    (fswStrsplit separator (c :: path)).2.length < (c :: path).length := by
  induction path generalizing c with
  | nil =>
    rw [fswStrsplit]
    split
    · exact Nat.zero_lt_one
    · exact Nat.zero_lt_one
  | cons c' path ih =>
    rw [fswStrsplit]
    split
    · exact Nat.lt_succ_self _
    · exact Nat.lt_succ_of_lt (ih c')

/-! ### The operations -/

/-- The dnode that a name is looked up in, and its type: a symbolic link is resolved first. -/
def followed (tree : Tree ν) (resolve : ν → FswM ν) (dno : ν) : FswM (ν × DnodeType) := do
  let type ← check (tree.fill dno)
  if type = .symlink then do
    let dno ← resolve dno
    let type ← check (tree.fill dno)
    .ok (dno, type)
  else .ok (dno, type)

def entryOf (tree : Tree ν) (found : ν × DnodeType) (lookupName : Name) : FswM ν :=
  if found.2 ≠ .dir then
    fail .unsupported
  else if lookupName = dot then
    .ok found.1
  else if lookupName = dotDot then
    match tree.parent found.1 with
    | none => fail .notFound
    | some parent => .ok parent
  else
    check (tree.dirLookup found.1 lookupName)

/-- One round of the loop of `fsw_dnode_lookup_path`, for a name that is not empty. -/
def lookupPathStep (tree : Tree ν) (resolve : ν → FswM ν) (dno : ν) (lookupName : Name) : FswM ν := do
  let found ← followed tree resolve dno
  entryOf tree found lookupName

def lookupPathLoop (tree : Tree ν) (resolve : ν → FswM ν) (separator : UInt16) (rootIfEmpty : Bool)
    (dno : ν) (path : Name) : FswM ν := do
  let child ←
    if (fswStrsplit separator path).1 = [] then .ok (if rootIfEmpty then tree.root else dno)
    else lookupPathStep tree resolve dno (fswStrsplit separator path).1
  if (fswStrsplit separator path).2.length < 1 then .ok child
  else lookupPathLoop tree resolve separator false child (fswStrsplit separator path).2
termination_by path.length
decreasing_by
  rename_i more
  cases path with
  | nil => exact absurd Nat.zero_lt_one more
  | cons c path => exact fswStrsplit_shorter separator c path

def fswDnodeLookupPath (tree : Tree ν) (resolve : ν → FswM ν) (dno : ν) (lookupPath : Name)
    (separator : UInt16) : FswM ν :=
  lookupPathLoop tree resolve separator true dno lookupPath

def fswDnodeReadlink (tree : Tree ν) (dno : ν) : FswM Name := do
  let type ← check (tree.fill dno)
  if type ≠ .symlink then fail .unsupported else check (tree.readlink dno)

/-- The loop of `fsw_dnode_resolve`, by the rounds that `link_count` leaves. -/
def resolveLoop (tree : Tree ν) (resolve : ν → FswM ν) : ℕ → ν → FswM ν
  | 0, _ => fail .notFound
  | rounds + 1, dno => do
    let type ← check (tree.fill dno)
    if type ≠ .symlink then .ok dno else
    match tree.parent dno with
    | none => fail .notFound
    | some parent => do
      let targetName ← fswDnodeReadlink tree dno
      let targetDno ← fswDnodeLookupPath tree resolve parent targetName slash
      resolveLoop tree resolve rounds targetDno

def linkCount : ℕ := 40

/-- `--link_count > 0` lets one round less pass than `link_count` starts with. -/
def fswDnodeResolve (tree : Tree ν) : ℕ → ν → FswM ν
  | 0, _ => .error .outOfFuel
  | depth + 1, dno => resolveLoop tree (fswDnodeResolve tree depth) (linkCount - 1) dno

/-- The lookup of `fsw_efi_dir_open`, whose separator is the backslash. -/
def openPath (tree : Tree ν) (depth : ℕ) (dno : ν) (lookupPath : Name) (separator : UInt16) : FswM ν := do
  let dno ← fswDnodeLookupPath tree (fswDnodeResolve tree depth) dno lookupPath separator
  fswDnodeResolve tree depth dno

/-! ### Components -/

def components (separator : UInt16) (path : Name) : List Name :=
  (path.splitOn separator).filter (· ≠ [])

/-- Where a path starts: at the root when it is empty or begins with the separator. -/
def start (tree : Tree ν) (dno : ν) (path : Name) (separator : UInt16) : ν :=
  if path = [] ∨ path.head? = some separator then tree.root else dno

theorem splitOn_split (separator : UInt16) (path : Name) :
    ∃ names, path.splitOn separator = (fswStrsplit separator path).1 :: names ∧
      names.filter (· ≠ []) = components separator (fswStrsplit separator path).2 := by
  induction path with
  | nil => exact ⟨[], rfl, rfl⟩
  | cons c path ih =>
    rw [List.splitOn_cons_eq_if_modifyHead, fswStrsplit]
    by_cases here : c = separator
    · rw [if_pos (beq_iff_eq.mpr here), if_pos here]
      exact ⟨path.splitOn separator, rfl, rfl⟩
    · obtain ⟨names, split, rest⟩ := ih
      rw [if_neg (mt beq_iff_eq.mp here), if_neg here, split]
      exact ⟨names, rfl, rest⟩

theorem components_split (separator : UInt16) (path : Name) :
    components separator path =
      (if (fswStrsplit separator path).1 = [] then [] else [(fswStrsplit separator path).1]) ++
        components separator (fswStrsplit separator path).2 := by
  obtain ⟨names, split, rest⟩ := splitOn_split separator path
  rw [components, split, List.filter_cons, rest]
  by_cases empty : (fswStrsplit separator path).1 = []
  · rw [if_pos empty, if_neg (by simpa using empty)]
    rfl
  · rw [if_neg empty, if_pos (by simpa using empty)]
    rfl

theorem components_nil (separator : UInt16) : components separator [] = [] := rfl

theorem lookupPathLoop_eq (tree : Tree ν) (resolve : ν → FswM ν) (separator : UInt16) (dno : ν) (path : Name) :
    lookupPathLoop tree resolve separator false dno path =
      (components separator path).foldlM (lookupPathStep tree resolve) dno := by
  induction length : path.length using Nat.strong_induction_on generalizing dno path with
  | _ n ih =>
    have rest : ∀ child, (if (fswStrsplit separator path).2.length < 1 then .ok child
        else lookupPathLoop tree resolve separator false child (fswStrsplit separator path).2) =
          (components separator (fswStrsplit separator path).2).foldlM (lookupPathStep tree resolve) child := by
      intro child
      split
      · rename_i last
        rw [List.length_eq_zero_iff.mp (Nat.lt_one_iff.mp last)]
        rfl
      · rename_i more
        cases path with
        | nil => exact absurd Nat.zero_lt_one more
        | cons c path => exact ih _ (length ▸ fswStrsplit_shorter separator c path) child _ rfl
    rw [lookupPathLoop, components_split, List.foldlM_append]
    simp only [rest]
    by_cases empty : (fswStrsplit separator path).1 = []
    · rw [if_pos empty, if_pos empty]
      rfl
    · rw [if_neg empty, if_neg empty, List.foldlM_cons]
      cases lookupPathStep tree resolve dno (fswStrsplit separator path).1 <;> rfl

theorem fswStrsplit_empty (separator : UInt16) (path : Name) :
    (fswStrsplit separator path).1 = [] ↔ path = [] ∨ path.head? = some separator := by
  cases path with
  | nil => exact ⟨fun _ => .inl rfl, fun _ => rfl⟩
  | cons c path =>
    rw [fswStrsplit]
    by_cases here : c = separator
    · rw [if_pos here, here]
      exact ⟨fun _ => .inr rfl, fun _ => rfl⟩
    · rw [if_neg here]
      constructor
      · intro impossible
        cases impossible
      · rintro (impossible | head)
        · cases impossible
        · exact absurd (Option.some.inj head) here

/-- The loop walks the components of the path from its start. -/
theorem fswDnodeLookupPath_eq (tree : Tree ν) (resolve : ν → FswM ν) (dno : ν) (path : Name) (separator : UInt16) :
    fswDnodeLookupPath tree resolve dno path separator =
      (components separator path).foldlM (lookupPathStep tree resolve) (start tree dno path separator) := by
  have first : lookupPathLoop tree resolve separator true dno path =
      lookupPathLoop tree resolve separator false (start tree dno path separator) path := by
    rw [lookupPathLoop, lookupPathLoop, start]
    by_cases empty : (fswStrsplit separator path).1 = []
    · rw [if_pos empty, if_pos empty, if_pos ((fswStrsplit_empty separator path).mp empty)]
      rfl
    · rw [if_neg empty, if_neg empty, if_neg (mt (fswStrsplit_empty separator path).mpr empty)]
  rw [fswDnodeLookupPath, first, lookupPathLoop_eq]

/-! ### More depth -/

/-- The second run has more depth: it differs only where the first one ran out. -/
def Below {α : Type} (run run' : FswM α) : Prop := run = .error .outOfFuel ∨ run = run'

section

variable {α β : Type} {run run' : FswM α} {f f' : α → FswM β}

theorem Below.refl (run : FswM α) : Below run run := .inr rfl

theorem Below.bind (first : Below run run') (rest : ∀ a, Below (f a) (f' a)) :
    Below (run >>= f) (run' >>= f') := by
  rcases first with rfl | rfl
  · exact .inl rfl
  · cases run with
    | error fault => exact .inr rfl
    | ok a => exact rest a

theorem Below.eq (below : Below run run') (ends : run ≠ .error .outOfFuel) : run' = run :=
  (below.resolve_left ends).symm

theorem Below.foldlM {f f' : β → α → FswM β} (below : ∀ b a, Below (f b a) (f' b a)) (as : List α) (b : β) :
    Below (as.foldlM f b) (as.foldlM f' b) := by
  induction as generalizing b with
  | nil => exact .refl _
  | cons a as ih =>
    rw [List.foldlM_cons, List.foldlM_cons]
    exact (below b a).bind ih

end

section

variable {tree : Tree ν} {resolve resolve' : ν → FswM ν}

theorem lookupPathStep_below (below : ∀ dno, Below (resolve dno) (resolve' dno)) (dno : ν) (name : Name) :
    Below (lookupPathStep tree resolve dno name) (lookupPathStep tree resolve' dno name) := by
  refine Below.bind ((Below.refl _).bind fun type => ?_) fun found => .refl _
  split
  · exact (below dno).bind fun _ => .refl _
  · exact .refl _

theorem fswDnodeLookupPath_below (below : ∀ dno, Below (resolve dno) (resolve' dno)) (dno : ν) (path : Name)
    (separator : UInt16) :
    Below (fswDnodeLookupPath tree resolve dno path separator)
      (fswDnodeLookupPath tree resolve' dno path separator) := by
  rw [fswDnodeLookupPath_eq, fswDnodeLookupPath_eq]
  exact Below.foldlM (fun dno name => lookupPathStep_below below dno name) _ _

theorem resolveLoop_below (below : ∀ dno, Below (resolve dno) (resolve' dno)) (rounds : ℕ) (dno : ν) :
    Below (resolveLoop tree resolve rounds dno) (resolveLoop tree resolve' rounds dno) := by
  induction rounds generalizing dno with
  | zero => exact .refl _
  | succ rounds ih =>
    refine (Below.refl _).bind fun type => ?_
    split
    · exact .refl _
    · split
      · exact .refl _
      · refine (Below.refl _).bind fun target => ?_
        exact (fswDnodeLookupPath_below below _ target slash).bind ih

theorem fswDnodeResolve_below {depth depth' : ℕ} (le : depth ≤ depth') (dno : ν) :
    Below (fswDnodeResolve tree depth dno) (fswDnodeResolve tree depth' dno) := by
  induction depth generalizing depth' dno with
  | zero => exact .inl rfl
  | succ depth ih =>
    cases depth' with
    | zero => cases le
    | succ depth' => exact resolveLoop_below (fun dno => ih (Nat.le_of_succ_le_succ le) dno) _ dno

theorem openPath_below {depth depth' : ℕ} (le : depth ≤ depth') (dno : ν) (path : Name) (separator : UInt16) :
    Below (openPath tree depth dno path separator) (openPath tree depth' dno path separator) :=
  (fswDnodeLookupPath_below (fswDnodeResolve_below le) dno path separator).bind (fswDnodeResolve_below le)

end

end Meridian.Fsw.Lookup
