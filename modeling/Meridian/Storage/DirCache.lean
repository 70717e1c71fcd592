import Meridian.Lib.Cursor
import Meridian.Lib.Run
import Meridian.Text
import Mathlib.Logic.Function.Basic

/-!
# The directory cache

The model of `DirIterOpen`, `DirIterNext`, `DirIterClose` and the directory cache of
`storage/file_io.c`, under a firmware that opens and closes volume root handles. Allocations succeed,
and no volume changes while the cache is kept.
-/

namespace Meridian.Storage

open Text Lib.Cursor Lib.Run

/-- What the iteration uses of `EFI_FILE_INFO`. -/
structure FileInfo where
  fileName : Str
  directory : Bool
  fileSize : Nat
  deriving DecidableEq, Repr

/-- The volumes as the firmware shows them: which directory a path opens from the root, and what
reading a directory from its start gives. -/
structure Volumes (V D : Type) where
  root : V → D
  resolve : V → Str → Option D
  entries : V → D → List FileInfo

variable {V D H : Type}

/-- The directory that `DirIterOpen` is asked for. -/
def Volumes.directory (vols : Volumes V D) (volume : V) : Option Str → Option D
  | none => some (vols.root volume)
  | some path => vols.resolve volume path

def Volumes.listing (vols : Volumes V D) (volume : V) (path : Option Str) : List FileInfo :=
  match vols.directory volume path with
  | some directory => vols.entries volume directory
  | none => []

/-- The arguments of `DirIterNext`: which kind is asked for, and the patterns. -/
structure Filter where
  filterMode : Nat
  filePattern : Option Str
  deriving DecidableEq, Repr

/-- The tests of the loop of `DirIterNext`. -/
def Filter.accepts (filter : Filter) (info : FileInfo) : Bool :=
  if filter.filterMode = 1 ∧ !info.directory then false
  else if filter.filterMode = 2 ∧ info.directory then false
  else
    match filter.filePattern with
    | none => true
    | some pattern => info.directory || (commaItems pattern).any (wildcardMatch info.fileName)

/-- An open root handle: its volume, and how far it was read as a directory itself. -/
structure RootHandle (V : Type) where
  volume : V
  position : Nat := 0
  deriving DecidableEq

/-- A node of the cache. The volume and the path that it was read for are not stored by the program. -/
structure DirCacheNode (V H : Type) where
  baseDir : H
  path : Str
  entries : List FileInfo
  volume : V
  readPath : Option Str

/-- An iterator. What it was opened for and its requests so far, with their answers, are not stored
by the program. -/
structure DirIter (V : Type) where
  cache : List FileInfo
  cacheIndex : Nat := 0
  failed : Bool := false
  volume : V
  path : Option Str
  requests : List Filter := []
  answers : List (Option FileInfo) := []

structure DirState (V H : Type) where
  handles : H → Option (RootHandle V)
  cache : List (DirCacheNode V H) := []
  iters : Nat → Option (DirIter V) := fun _ => none

/-! ### The functions of the cache -/

def keyPath (path : Option Str) : Str := cleanUpPathNameSlashes (path.getD [])

variable [DecidableEq H]

def dirCacheFind (cache : List (DirCacheNode V H)) (baseDir : H) (key : Str) :
    Option (DirCacheNode V H) :=
  cache.find? fun node => node.baseDir = baseDir && equalsCI node.path key

/-- `DirIterOpen`, on a handle that is open; the handle of a null path is read where it stands. -/
def dirIterOpen (vols : Volumes V D) (st : DirState V H) (id : Nat) (baseDir : H)
    (handle : RootHandle V) (path : Option Str) : DirState V H :=
  let iter : DirIter V := { cache := [], volume := handle.volume, path := path }
  match dirCacheFind st.cache baseDir (keyPath path) with
  | some node =>
    { st with iters := Function.update st.iters id (some { iter with cache := node.entries }) }
  | none =>
    match vols.directory handle.volume path with
    | none => { st with iters := Function.update st.iters id (some { iter with failed := true }) }
    | some directory =>
      let whole := vols.entries handle.volume directory
      let entries := if path.isNone then whole.drop handle.position else whole
      let node : DirCacheNode V H := {
        baseDir := baseDir
        path := keyPath path
        entries := entries
        volume := handle.volume
        readPath := path }
      { handles := if path.isNone then
          Function.update st.handles baseDir (some { handle with position := whole.length })
          else st.handles
        cache := node :: st.cache
        iters := Function.update st.iters id (some { iter with cache := entries }) }

/-- The loop of `DirIterNext`, over the entries from the index on. -/
def nextLoop (filter : Filter) (index : Nat) : List FileInfo → Nat × Option FileInfo
  | [] => (index, none)
  | info :: rest =>
    if filter.accepts info then (index + 1, some info) else nextLoop filter (index + 1) rest

def dirIterNext (iter : DirIter V) (filter : Filter) : DirIter V :=
  let found := nextLoop filter iter.cacheIndex (iter.cache.drop iter.cacheIndex)
  { iter with
    cacheIndex := found.1
    requests := iter.requests ++ [filter]
    answers := iter.answers ++ [found.2] }

/-! ### Runs -/

/-- What happens to the handles and the iterators. -/
inductive DirEvent (V H : Type) where
  | openRoot (volume : V) (handle : H)
  | closeRoot (handle : H)
  | iterOpen (id : Nat) (baseDir : H) (path : Option Str)
  | iterNext (id : Nat) (filter : Filter)
  | iterClose (id : Nat)

/-- The firmware gives an open a pointer that is not in use, and iterators are opened on open
handles: other events change nothing. -/
def dirStep (vols : Volumes V D) (st : DirState V H) : DirEvent V H → DirState V H
  | .openRoot volume handle =>
    match st.handles handle with
    | some _ => st
    | none => { st with handles := Function.update st.handles handle (some { volume := volume }) }
  | .closeRoot handle => { st with handles := Function.update st.handles handle none }
  | .iterOpen id baseDir path =>
    match st.handles baseDir with
    | some handle => dirIterOpen vols st id baseDir handle path
    | none => st
  | .iterNext id filter =>
    match st.iters id with
    | some iter => { st with iters := Function.update st.iters id (some (dirIterNext iter filter)) }
    | none => st
  | .iterClose id => { st with iters := Function.update st.iters id none }

/-- The iterator was answered from the directory that it was opened for, on the volume of its handle
at that time: with the entries in order, each request passing over what it filters out. -/
structure AnswersListing (vols : Volumes V D) (iter : DirIter V) : Prop where
  served : iter.answers =
    serve (vols.listing iter.volume iter.path) (iter.requests.map Filter.accepts)
  filtered : ∀ (filter : Filter) (n : Nat), iter.requests = List.replicate n filter →
    iter.answers = (((vols.listing iter.volume iter.path).filter filter.accepts).map some ++
      List.replicate n none).take n

def AllAnswered (vols : Volumes V D) (st : DirState V H) : Prop :=
  ∀ id iter, st.iters id = some iter → AnswersListing vols iter

/-- A pointer is given to another volume only when the cache holds nothing under it; a path hits the
cache only for the directory that it names; and a handle is read itself only from its start. -/
def HandleKept (vols : Volumes V D) (st : DirState V H) : DirEvent V H → Prop
  | .openRoot volume handle =>
    ∀ node ∈ st.cache, node.baseDir = handle → node.volume = volume
  | .iterOpen _ baseDir path =>
    ∀ handle, st.handles baseDir = some handle →
      (∀ node ∈ st.cache, node.baseDir = baseDir → equalsCI node.path (keyPath path) = true →
        vols.directory handle.volume node.readPath = vols.directory handle.volume path) ∧
      (path = none → dirCacheFind st.cache baseDir (keyPath path) = none → handle.position = 0)
  | _ => True

/-! ### The invariant -/

theorem nextLoop_eq (filter : Filter) (index : Nat) (cache : List FileInfo)
    (l : List FileInfo) (h : cache.drop index = l) :
    (nextLoop filter index l).2 = (next filter.accepts l).1 ∧
      cache.drop (nextLoop filter index l).1 = (next filter.accepts l).2 := by
  induction l generalizing index with
  | nil => exact ⟨rfl, h⟩
  | cons info l ih =>
    have later : cache.drop (index + 1) = l := by
      rw [← List.drop_drop, h]
      rfl
    rw [nextLoop, next]
    split
    · exact ⟨rfl, later⟩
    · exact ih (index + 1) later

/-- An iterator over the listing that it was opened for. -/
structure IterInv (vols : Volumes V D) (iter : DirIter V) : Prop where
  cache : iter.cache = vols.listing iter.volume iter.path
  left : iter.cache.drop iter.cacheIndex = rest iter.cache (iter.requests.map Filter.accepts)
  answers : iter.answers = serve iter.cache (iter.requests.map Filter.accepts)

theorem IterInv.answersListing {vols : Volumes V D} {iter : DirIter V} (h : IterInv vols iter) :
    AnswersListing vols iter := by
  have served := h.answers
  rw [h.cache] at served
  refine ⟨served, ?_⟩
  intro filter n constant
  rw [served, constant, List.map_replicate, serve_replicate]

theorem dirIterNext_inv {vols : Volumes V D} {iter : DirIter V} (h : IterInv vols iter)
    (filter : Filter) : IterInv vols (dirIterNext iter filter) := by
  obtain ⟨found, left⟩ := nextLoop_eq filter iter.cacheIndex iter.cache _ rfl
  refine ⟨h.cache, ?_, ?_⟩
  · show iter.cache.drop (nextLoop filter iter.cacheIndex (iter.cache.drop iter.cacheIndex)).1 =
      rest iter.cache ((iter.requests ++ [filter]).map Filter.accepts)
    rw [left, h.left, List.map_append, List.map_singleton, rest_concat]
  · show iter.answers ++ [(nextLoop filter iter.cacheIndex (iter.cache.drop iter.cacheIndex)).2] =
      serve iter.cache ((iter.requests ++ [filter]).map Filter.accepts)
    rw [found, h.left, h.answers, List.map_append, List.map_singleton, serve_concat]

/-- What the cache holds, and that it holds it for the volumes of the open handles. -/
structure CacheInv (vols : Volumes V D) (st : DirState V H) : Prop where
  nodes : ∀ node ∈ st.cache, node.entries = vols.listing node.volume node.readPath
  handles : ∀ h handle, st.handles h = some handle → ∀ node ∈ st.cache, node.baseDir = h →
    node.volume = handle.volume
  iters : ∀ id iter, st.iters id = some iter → IterInv vols iter

theorem update_some {β : Type} {α : Type} [DecidableEq α] {f : α → Option β} {a i : α} {b c : β}
    (h : Function.update f a (some b) i = some c) : i = a ∧ c = b ∨ f i = some c := by
  by_cases same : i = a
  · subst same
    rw [Function.update_self] at h
    exact .inl ⟨rfl, (Option.some.inj h).symm⟩
  · rw [Function.update_of_ne same] at h
    exact .inr h

theorem update_none {β : Type} {α : Type} [DecidableEq α] {f : α → Option β} {a i : α} {c : β}
    (h : Function.update f a none i = some c) : f i = some c := by
  by_cases same : i = a
  · subst same
    rw [Function.update_self] at h
    cases h
  · rw [Function.update_of_ne same] at h
    exact h

theorem iterInv_fresh {vols : Volumes V D} {iter : DirIter V}
    (cache : iter.cache = vols.listing iter.volume iter.path) (index : iter.cacheIndex = 0)
    (requests : iter.requests = []) (answers : iter.answers = []) : IterInv vols iter := by
  refine ⟨cache, ?_, ?_⟩
  · rw [index, requests]
    rfl
  · rw [requests, answers]
    rfl

/-- Opening an iterator keeps the invariant, when it is kept to its directory. -/
theorem dirIterOpen_inv {vols : Volumes V D} {st : DirState V H} (h : CacheInv vols st) (id : Nat)
    {baseDir : H} {handle : RootHandle V} {path : Option Str}
    (open' : st.handles baseDir = some handle)
    (same : ∀ node ∈ st.cache, node.baseDir = baseDir → equalsCI node.path (keyPath path) = true →
      vols.directory handle.volume node.readPath = vols.directory handle.volume path)
    (start : path = none → dirCacheFind st.cache baseDir (keyPath path) = none →
      handle.position = 0) : CacheInv vols (dirIterOpen vols st id baseDir handle path) := by
  rw [dirIterOpen]
  cases hit : dirCacheFind st.cache baseDir (keyPath path) with
  | some node =>
    refine ⟨h.nodes, h.handles, ?_⟩
    intro i iter found
    obtain ⟨_, rfl⟩ | old := update_some found
    · apply iterInv_fresh _ rfl rfl rfl
      have mem := List.mem_of_find?_eq_some hit
      have matched := List.find?_some hit
      rw [Bool.and_eq_true, decide_eq_true_iff] at matched
      show node.entries = vols.listing handle.volume path
      rw [h.nodes node mem, h.handles baseDir handle open' node mem matched.1, Volumes.listing,
        Volumes.listing, same node mem matched.1 matched.2]
    · exact h.iters i iter old
  | none =>
    dsimp only
    cases named : vols.directory handle.volume path with
    | none =>
      refine ⟨h.nodes, h.handles, ?_⟩
      intro i iter found
      obtain ⟨_, rfl⟩ | old := update_some found
      · apply iterInv_fresh _ rfl rfl rfl
        show [] = vols.listing handle.volume path
        rw [Volumes.listing, named]
      · exact h.iters i iter old
    | some directory =>
      have entries : (if path.isNone then (vols.entries handle.volume directory).drop handle.position
          else vols.entries handle.volume directory) = vols.listing handle.volume path := by
        rw [Volumes.listing, named]
        split
        · rename_i null
          rw [start (Option.isNone_iff_eq_none.mp null) hit]
          rfl
        · rfl
      refine ⟨?_, ?_, ?_⟩
      · intro node mem
        obtain rfl | old := List.mem_cons.mp mem
        · exact entries
        · exact h.nodes node old
      · intro p kept found
        have volume : ∃ before, st.handles p = some before ∧ before.volume = kept.volume := by
          dsimp only at found
          split at found
          · obtain ⟨rfl, rfl⟩ | old := update_some found
            · exact ⟨handle, open', rfl⟩
            · exact ⟨kept, old, rfl⟩
          · exact ⟨kept, found, rfl⟩
        obtain ⟨before, opened, sameVolume⟩ := volume
        intro node mem here
        rw [← sameVolume]
        obtain rfl | old := List.mem_cons.mp mem
        · show handle.volume = before.volume
          have equal : baseDir = p := here
          subst equal
          rw [Option.some.inj (open'.symm.trans opened)]
        · exact h.handles p before opened node old here
      · intro i iter found
        obtain ⟨_, rfl⟩ | old := update_some found
        · exact iterInv_fresh entries rfl rfl rfl
        · exact h.iters i iter old

theorem dirStep_inv (vols : Volumes V D) (st : DirState V H) (event : DirEvent V H)
    (h : CacheInv vols st) (ok : HandleKept vols st event) : CacheInv vols (dirStep vols st event) := by
  cases event with
  | openRoot volume handle =>
    rw [dirStep]
    split
    · exact h
    · refine ⟨h.nodes, ?_, h.iters⟩
      intro p kept found node mem here
      obtain ⟨rfl, rfl⟩ | old := update_some found
      · exact ok node mem here
      · exact h.handles p kept old node mem here
  | closeRoot handle =>
    refine ⟨h.nodes, ?_, h.iters⟩
    intro p kept found
    exact h.handles p kept (update_none found)
  | iterOpen id baseDir path =>
    rw [dirStep]
    cases opened : st.handles baseDir with
    | none => exact h
    | some handle =>
      obtain ⟨same, start⟩ := ok handle opened
      exact dirIterOpen_inv h id opened same start
  | iterNext id filter =>
    rw [dirStep]
    cases found : st.iters id with
    | none => exact h
    | some iter =>
      refine ⟨h.nodes, h.handles, ?_⟩
      intro i other changed
      obtain ⟨_, rfl⟩ | old := update_some changed
      · exact dirIterNext_inv (h.iters id iter found) filter
      · exact h.iters i other old
  | iterClose id =>
    refine ⟨h.nodes, h.handles, ?_⟩
    intro i iter found
    exact h.iters i iter (update_none found)

/-- Each volume has one directory, with one file that is named after the volume. -/
def twoVolumes : Volumes Bool Unit where
  root := fun _ => ()
  resolve := fun _ _ => some ()
  entries := fun volume _ => [⟨if volume then ['a'] else ['b'], false, 1⟩]

def anyFile : Filter := ⟨2, none⟩

end Meridian.Storage
