import Meridian.Storage.DirCache

/-!
# Failing directory reads

The model of `DirNextEntry`, `DirIterOpen` and `DirIterClose` of `storage/file_io.c` over a firmware
whose reads of a directory can fail at any point. Allocations succeed.
-/

namespace Meridian.Storage

open Text Lib.Cursor Lib.Run

inductive ReadStatus where
  | success
  | bufferTooSmall
  | error (code : Nat)
  deriving DecidableEq, Repr

def ReadStatus.isError : ReadStatus → Bool
  | .success => false
  | _ => true

/-- What the firmware answers to a read of a directory. -/
inductive ReadAnswer where
  | bufferTooSmall (size : Nat)
  | failed (code : Nat)
  | delivered
  deriving DecidableEq, Repr

/-- The volumes, the errors of the opens that find no directory, and the answer to each read, by its
number and the size of its buffer. -/
structure DirFirmware (V D : Type) extends Volumes V D where
  openError : V → Str → Nat
  read : Nat → Nat → ReadAnswer

variable {V D H : Type}

/-! ### Reading a directory -/

/-- The next size of the buffer, for the size that the firmware asks for. -/
def resized (size requested : Nat) : Nat :=
  if requested ≤ size then size * 2 else requested

/-- The loop over `IterCount`, with what is left of it: the number of the next read, and the status. -/
def readLoop (fw : DirFirmware V D) : Nat → Nat → Nat → Nat × ReadStatus
  | tries, reads, size =>
    match fw.read reads size with
    | .delivered => (reads + 1, .success)
    | .failed code => (reads + 1, .error code)
    | .bufferTooSmall requested =>
      match tries with
      | 0 => (reads + 1, .bufferTooSmall)
      | tries + 1 => readLoop fw tries (reads + 1) (resized size requested)

/-- What `DirNextEntry` leaves: the number of the next read, the entries that the handle has yet to
give, the status and the entry. -/
structure EntryRead where
  reads : Nat
  pending : List FileInfo
  status : ReadStatus
  entry : Option FileInfo

def dirNextEntry (fw : DirFirmware V D) (filterMode : Nat) : Nat → List FileInfo → EntryRead
  | reads, [] =>
    let read := readLoop fw 4 reads 256
    ⟨read.1, [], read.2, none⟩
  | reads, info :: pending =>
    let read := readLoop fw 4 reads 256
    if read.2.isError then ⟨read.1, info :: pending, read.2, none⟩
    else if filterMode = 1 ∧ !info.directory then dirNextEntry fw filterMode read.1 pending
    else if filterMode = 2 ∧ info.directory then dirNextEntry fw filterMode read.1 pending
    else ⟨read.1, pending, read.2, some info⟩

theorem dirNextEntry_pending_lt {fw : DirFirmware V D} {filterMode reads : Nat}
    {pending : List FileInfo} {info : FileInfo}
    (h : (dirNextEntry fw filterMode reads pending).entry = some info) :
    (dirNextEntry fw filterMode reads pending).pending.length < pending.length := by
  induction pending generalizing reads with
  | nil => cases h
  | cons first pending ih =>
    rw [dirNextEntry] at h ⊢
    split at h
    · cases h
    · rename_i answered
      rw [if_neg answered]
      split at h
      · rename_i filtered
        rw [if_pos filtered]
        exact Nat.lt_succ_of_lt (ih h)
      · rename_i kept
        rw [if_neg kept]
        split at h
        · rename_i filtered
          rw [if_pos filtered]
          exact Nat.lt_succ_of_lt (ih h)
        · rename_i kept'
          rw [if_neg kept']
          exact Nat.lt_succ_self pending.length

/-- What the loop of `DirIterOpen` leaves of a directory, and the entries that it got. -/
structure EntriesRead where
  reads : Nat
  pending : List FileInfo
  status : ReadStatus
  entries : List FileInfo

/-- The loop of `DirIterOpen`. -/
def readEntries (fw : DirFirmware V D) (reads : Nat) (pending : List FileInfo) : EntriesRead :=
  let next := dirNextEntry fw 0 reads pending
  if next.status.isError then ⟨next.reads, next.pending, next.status, []⟩
  else
    match _got : next.entry with
    | none => ⟨next.reads, next.pending, next.status, []⟩
    | some info =>
      let others := readEntries fw next.reads next.pending
      { others with entries := info :: others.entries }
termination_by pending.length
decreasing_by exact dirNextEntry_pending_lt _got

/-! ### Iterators -/

/-- An iterator. The directory that its entries are of, what kept the program from reading them, and
its requests so far with their answers are not stored by the program. -/
structure ReadIter (V : Type) where
  cache : List FileInfo
  cacheIndex : Nat := 0
  lastStatus : ReadStatus := .success
  volume : V
  path : Option Str
  failure : Option ReadStatus := none
  requests : List Filter := []
  answers : List (Option FileInfo) := []

structure ReadState (V H : Type) where
  handles : H → Option (RootHandle V)
  reads : Nat := 0
  cache : List (DirCacheNode V H) := []
  iters : Nat → Option (ReadIter V) := fun _ => none

def ReadStatus.failure (status : ReadStatus) : Option ReadStatus :=
  if status.isError then some status else none

/-- `DirIterOpen`, on a handle that is open; the handle of a null path is read where it stands. -/
def dirIterRead [DecidableEq H] (fw : DirFirmware V D) (st : ReadState V H) (id : Nat) (baseDir : H)
    (handle : RootHandle V) (path : Option Str) : ReadState V H :=
  match dirCacheFind st.cache baseDir (keyPath path) with
  | some node =>
    let iter : ReadIter V := { cache := node.entries, volume := node.volume, path := node.readPath }
    { st with iters := Function.update st.iters id (some iter) }
  | none =>
    match fw.directory handle.volume path with
    | none =>
      let status := ReadStatus.error (fw.openError handle.volume (path.getD []))
      let iter : ReadIter V := {
        cache := []
        lastStatus := status
        volume := handle.volume
        path := path
        failure := some status }
      { st with iters := Function.update st.iters id (some iter) }
    | some directory =>
      let whole := fw.entries handle.volume directory
      let got := readEntries fw st.reads (if path.isNone then whole.drop handle.position else whole)
      let node : DirCacheNode V H := {
        baseDir := baseDir
        path := keyPath path
        entries := got.entries
        volume := handle.volume
        readPath := path }
      -- the status of the last read is dropped here
      let iter : ReadIter V := {
        cache := got.entries
        lastStatus := .success
        volume := handle.volume
        path := path
        failure := got.status.failure }
      { handles := if path.isNone then
          Function.update st.handles baseDir
            (some { handle with position := whole.length - got.pending.length })
          else st.handles
        reads := got.reads
        cache := node :: st.cache
        iters := Function.update st.iters id (some iter) }

/-- `DirIterNext`. -/
def ReadIter.next (iter : ReadIter V) (filter : Filter) : ReadIter V :=
  let found := nextLoop filter iter.cacheIndex (iter.cache.drop iter.cacheIndex)
  { iter with
    cacheIndex := found.1
    requests := iter.requests ++ [filter]
    answers := iter.answers ++ [found.2] }

/-- What `DirIterClose` returns. -/
def dirIterClose (iter : ReadIter V) : ReadStatus := iter.lastStatus

inductive ReadEvent (V H : Type) where
  | openRoot (volume : V) (handle : H)
  | closeRoot (handle : H)
  | iterOpen (id : Nat) (baseDir : H) (path : Option Str)
  | iterNext (id : Nat) (filter : Filter)
  | iterClose (id : Nat)
  | clear

/-- Iterators are opened on open handles, and the cache is cleared under no iterator that is used
again: other events change nothing. -/
def readStep [DecidableEq H] (fw : DirFirmware V D) (st : ReadState V H) : ReadEvent V H → ReadState V H
  | .openRoot volume handle =>
    match st.handles handle with
    | some _ => st
    | none => { st with handles := Function.update st.handles handle (some { volume := volume }) }
  | .closeRoot handle => { st with handles := Function.update st.handles handle none }
  | .iterOpen id baseDir path =>
    match st.handles baseDir with
    | some handle => dirIterRead fw st id baseDir handle path
    | none => st
  | .iterNext id filter =>
    match st.iters id with
    | some iter => { st with iters := Function.update st.iters id (some (iter.next filter)) }
    | none => st
  | .iterClose id => { st with iters := Function.update st.iters id none }
  | .clear => { st with cache := [], iters := fun _ => none }

/-! ### What is reported -/

/-- The iterator was answered from every entry of its directory, or closing it returns what kept the
program from reading them. -/
def Reported (vols : Volumes V D) (iter : ReadIter V) : Prop :=
  (∃ failure, iter.failure = some failure ∧ dirIterClose iter = failure) ∨
    iter.answers = serve (vols.listing iter.volume iter.path) (iter.requests.map Filter.accepts)

/-- Every failure is reported, and no partial listing is remembered. -/
def AllReported (vols : Volumes V D) (st : ReadState V H) : Prop :=
  (∀ id iter, st.iters id = some iter → Reported vols iter) ∧
    ∀ node ∈ st.cache, node.entries = vols.listing node.volume node.readPath

/-- With so many more tries, the firmware delivers to a buffer of some size, which leaves the next
read. -/
inductive Answered (fw : DirFirmware V D) : Nat → Nat → Nat → Nat → Prop where
  | delivered {tries reads size : Nat} (answer : fw.read reads size = .delivered) :
    Answered fw tries reads size (reads + 1)
  | resized {tries reads size requested next : Nat}
    (answer : fw.read reads size = .bufferTooSmall requested)
    (later : Answered fw tries (reads + 1) (resized size requested) next) :
    Answered fw (tries + 1) reads size next

/-- The firmware delivers each of the entries that a handle has yet to give, with at most four larger
buffers for each. -/
inductive Delivers (fw : DirFirmware V D) : Nat → List FileInfo → Prop where
  | nil {reads : Nat} : Delivers fw reads []
  | cons {reads next : Nat} {info : FileInfo} {pending : List FileInfo}
    (first : Answered fw 4 reads 256 next) (later : Delivers fw next pending) :
    Delivers fw reads (info :: pending)

/-- A directory that is opened and not in the cache is read from its start, and every entry of it is
delivered. -/
def ReadsDelivered [DecidableEq H] (fw : DirFirmware V D) (st : ReadState V H) : ReadEvent V H → Prop
  | .iterOpen _ baseDir path =>
    ∀ handle directory, st.handles baseDir = some handle →
      dirCacheFind st.cache baseDir (keyPath path) = none →
      fw.directory handle.volume path = some directory →
        (path = none → handle.position = 0 ∨ fw.entries handle.volume directory = []) ∧
          Delivers fw st.reads (fw.entries handle.volume directory)
  | _ => True

/-! ### One directory -/

theorem ReadStatus.isError_eq_false {status : ReadStatus} : status.isError = false ↔ status = .success := by
  cases status <;> simp [ReadStatus.isError]

theorem readLoop_eq_success (fw : DirFirmware V D) {tries reads size next : Nat} :
    readLoop fw tries reads size = (next, .success) ↔ Answered fw tries reads size next := by
  constructor
  · intro h
    induction tries generalizing reads size with
    | zero =>
      rw [readLoop] at h
      cases answer : fw.read reads size with
      | delivered =>
        rw [answer] at h
        obtain ⟨rfl, -⟩ := Prod.mk.inj h
        exact .delivered answer
      | failed code =>
        rw [answer] at h
        cases h
      | bufferTooSmall requested =>
        rw [answer] at h
        cases h
    | succ tries ih =>
      rw [readLoop] at h
      cases answer : fw.read reads size with
      | delivered =>
        rw [answer] at h
        obtain ⟨rfl, -⟩ := Prod.mk.inj h
        exact .delivered answer
      | failed code =>
        rw [answer] at h
        cases h
      | bufferTooSmall requested =>
        rw [answer] at h
        exact .resized answer (ih h)
  · intro h
    induction h with
    | delivered answer => rw [readLoop, answer]
    | resized answer _ ih => rw [readLoop, answer, ← ih]

/-- A delivered entry is the first of those that the handle has yet to give. -/
theorem dirNextEntry_answered {fw : DirFirmware V D} {reads next : Nat} {info : FileInfo}
    {pending : List FileInfo} (h : readLoop fw 4 reads 256 = (next, .success)) :
    dirNextEntry fw 0 reads (info :: pending) = ⟨next, pending, .success, some info⟩ := by
  rw [dirNextEntry, h]
  rfl

theorem dirNextEntry_failed {fw : DirFirmware V D} {reads : Nat} {info : FileInfo}
    {pending : List FileInfo} (h : (readLoop fw 4 reads 256).2.isError = true) :
    (dirNextEntry fw 0 reads (info :: pending)).status.isError = true := by
  rw [dirNextEntry]
  rw [if_pos h]
  exact h

theorem readEntries_nil (fw : DirFirmware V D) (reads : Nat) : (readEntries fw reads []).entries = [] := by
  rw [readEntries]
  dsimp only
  split
  · rfl
  · rfl

theorem readEntries_answered {fw : DirFirmware V D} {reads next : Nat} {info : FileInfo}
    {pending : List FileInfo} (h : readLoop fw 4 reads 256 = (next, .success)) :
    (readEntries fw reads (info :: pending)).entries =
      info :: (readEntries fw next pending).entries := by
  rw [readEntries]
  dsimp only
  split
  · rename_i failed
    rw [dirNextEntry_answered h] at failed
    cases failed
  · split
    · rename_i none
      rw [dirNextEntry_answered h] at none
      cases none
    · rename_i got
      rw [dirNextEntry_answered h] at got ⊢
      rw [Option.some.inj got]

theorem readEntries_failed {fw : DirFirmware V D} {reads : Nat} {info : FileInfo}
    {pending : List FileInfo} (h : (readLoop fw 4 reads 256).2.isError = true) :
    (readEntries fw reads (info :: pending)).entries = [] := by
  rw [readEntries]
  rw [if_pos (dirNextEntry_failed h)]

/-- The entries that the loop gets are the first ones of the directory. -/
theorem readEntries_leading (fw : DirFirmware V D) (reads : Nat) (pending : List FileInfo) :
    (readEntries fw reads pending).entries <+: pending := by
  induction pending generalizing reads with
  | nil => exact ⟨[], (List.append_nil _).trans (readEntries_nil fw reads)⟩
  | cons info pending ih =>
    cases failed : (readLoop fw 4 reads 256).2.isError with
    | true =>
      rw [readEntries_failed failed]
      exact List.nil_prefix
    | false =>
      have read : readLoop fw 4 reads 256 = ((readLoop fw 4 reads 256).1, .success) :=
        Prod.ext rfl (ReadStatus.isError_eq_false.mp failed)
      rw [readEntries_answered read]
      exact (List.prefix_cons_inj info).mpr (ih _)

theorem readEntries_eq_iff (fw : DirFirmware V D) (reads : Nat) (pending : List FileInfo) :
    (readEntries fw reads pending).entries = pending ↔ Delivers fw reads pending := by
  constructor
  · intro all
    induction pending generalizing reads with
    | nil => exact .nil
    | cons info pending ih =>
      cases failed : (readLoop fw 4 reads 256).2.isError with
      | true =>
        rw [readEntries_failed failed] at all
        cases all
      | false =>
        have read : readLoop fw 4 reads 256 = ((readLoop fw 4 reads 256).1, .success) :=
          Prod.ext rfl (ReadStatus.isError_eq_false.mp failed)
        rw [readEntries_answered read] at all
        exact .cons ((readLoop_eq_success fw).mp read) (ih _ (List.cons.inj all).2)
  · intro delivers
    induction delivers with
    | nil => exact readEntries_nil fw _
    | cons first _ ih => rw [readEntries_answered ((readLoop_eq_success fw).mpr first), ih]

theorem drop_whole {position : Nat} {whole : List FileInfo} (h : position = 0 ∨ whole = []) :
    whole.drop position = whole := by
  obtain rfl | rfl := h
  · exact List.drop_zero
  · exact List.drop_nil

/-- Read from some entry on, the loop gets the whole directory when it starts at the first one and the
firmware delivers. -/
theorem readEntries_drop_iff (fw : DirFirmware V D) (reads position : Nat) (whole : List FileInfo) :
    (readEntries fw reads (whole.drop position)).entries = whole ↔
      (position = 0 ∨ whole = []) ∧ Delivers fw reads whole := by
  constructor
  · intro all
    have short : whole.length ≤ whole.length - position := by
      have read := (readEntries_leading fw reads (whole.drop position)).length_le
      rwa [all, List.length_drop] at read
    have start : position = 0 ∨ whole = [] := by
      by_cases empty : whole = []
      · exact .inr empty
      · have positive := List.length_pos_iff.mpr empty
        exact .inl (by omega)
    rw [drop_whole start] at all
    exact ⟨start, (readEntries_eq_iff fw reads whole).mp all⟩
  · intro ⟨start, delivers⟩
    rw [drop_whole start]
    exact (readEntries_eq_iff fw reads whole).mpr delivers

/-! ### Runs -/

/-- The iterator as the listing that it serves. -/
def ReadIter.listed (iter : ReadIter V) : DirIter V where
  cache := iter.cache
  cacheIndex := iter.cacheIndex
  volume := iter.volume
  path := iter.path
  requests := iter.requests
  answers := iter.answers

def ReadIterInv (vols : Volumes V D) (iter : ReadIter V) : Prop :=
  (∃ failure, iter.failure = some failure ∧ dirIterClose iter = failure) ∨ IterInv vols iter.listed

theorem ReadIterInv.reported {vols : Volumes V D} {iter : ReadIter V} (h : ReadIterInv vols iter) :
    Reported vols iter := by
  obtain failed | served := h
  · exact .inl failed
  · exact .inr served.answersListing.served

theorem ReadIterInv.next {vols : Volumes V D} {iter : ReadIter V} (h : ReadIterInv vols iter)
    (filter : Filter) : ReadIterInv vols (iter.next filter) := by
  obtain failed | served := h
  · exact .inl failed
  · exact .inr (dirIterNext_inv served filter)

/-- What the cache and the iterators hold of their directories. -/
structure ReadInv (vols : Volumes V D) (st : ReadState V H) : Prop where
  nodes : ∀ node ∈ st.cache, node.entries = vols.listing node.volume node.readPath
  iters : ∀ id iter, st.iters id = some iter → ReadIterInv vols iter

theorem ReadInv.allReported {vols : Volumes V D} {st : ReadState V H} (h : ReadInv vols st) :
    AllReported vols st :=
  ⟨fun id iter found => (h.iters id iter found).reported, h.nodes⟩

theorem ReadInv.update {vols : Volumes V D} {st : ReadState V H} {iter : ReadIter V}
    (h : ReadInv vols st) (id : Nat) (kept : ReadIterInv vols iter) :
    ReadInv vols { st with iters := Function.update st.iters id (some iter) } := by
  refine ⟨h.nodes, ?_⟩
  intro i other found
  obtain ⟨_, rfl⟩ | old := update_some found
  · exact kept
  · exact h.iters i other old

variable [DecidableEq H]

/-- What opening an iterator reads into the cache, when it reads. -/
theorem dirIterRead_missed {fw : DirFirmware V D} {st : ReadState V H} (id : Nat) {baseDir : H}
    {handle : RootHandle V} {path : Option Str} {directory : D}
    (missed : dirCacheFind st.cache baseDir (keyPath path) = none)
    (named : fw.directory handle.volume path = some directory) :
    ∃ node, (dirIterRead fw st id baseDir handle path).cache = node :: st.cache ∧
      node.volume = handle.volume ∧ node.readPath = path ∧
      (node.entries = fw.entries handle.volume directory ↔
        (path = none → handle.position = 0 ∨ fw.entries handle.volume directory = []) ∧
          Delivers fw st.reads (fw.entries handle.volume directory)) ∧
      ∃ iter : ReadIter V, (dirIterRead fw st id baseDir handle path).iters =
        Function.update st.iters id (some iter) ∧ iter.cache = node.entries ∧ iter.cacheIndex = 0 ∧
          iter.volume = handle.volume ∧ iter.path = path ∧ iter.requests = [] ∧ iter.answers = [] := by
  rw [dirIterRead, missed, named]
  refine ⟨_, rfl, rfl, rfl, ?_, _, rfl, rfl, rfl, rfl, rfl, rfl, rfl⟩
  cases path with
  | none =>
    refine (readEntries_drop_iff fw st.reads handle.position _).trans ?_
    exact and_congr_left' ⟨fun start _ => start, fun start => start rfl⟩
  | some path =>
    refine (readEntries_eq_iff fw st.reads _).trans ?_
    exact ⟨fun delivers => ⟨fun null => (nomatch null), delivers⟩, And.right⟩

theorem Volumes.listing_of_directory {vols : Volumes V D} {volume : V} {path : Option Str}
    {directory : D} (h : vols.directory volume path = some directory) :
    vols.listing volume path = vols.entries volume directory := by
  rw [Volumes.listing, h]

theorem dirIterRead_inv {fw : DirFirmware V D} {st : ReadState V H} (h : ReadInv fw.toVolumes st)
    (id : Nat) {baseDir : H} {handle : RootHandle V} {path : Option Str}
    (opened : st.handles baseDir = some handle)
    (ok : ReadsDelivered fw st (.iterOpen id baseDir path)) :
    ReadInv fw.toVolumes (dirIterRead fw st id baseDir handle path) := by
  cases hit : dirCacheFind st.cache baseDir (keyPath path) with
  | some node =>
    rw [dirIterRead, hit]
    apply h.update id
    exact .inr (iterInv_fresh (h.nodes node (List.mem_of_find?_eq_some hit)) rfl rfl rfl)
  | none =>
    cases named : fw.directory handle.volume path with
    | none =>
      rw [dirIterRead, hit, named]
      apply h.update id
      exact .inl ⟨_, rfl, rfl⟩
    | some directory =>
      obtain ⟨node, cache, volume, readPath, whole, iter, iters, same, index, iterVolume, iterPath,
        requests, answers⟩ := dirIterRead_missed id hit named
      have entries : node.entries = fw.listing handle.volume path := by
        rw [Volumes.listing_of_directory named]
        exact whole.mpr (ok handle directory opened hit named)
      refine ⟨?_, ?_⟩
      · intro other mem
        rw [cache] at mem
        obtain rfl | old := List.mem_cons.mp mem
        · rw [volume, readPath]
          exact entries
        · exact h.nodes other old
      · intro i other found
        rw [iters] at found
        obtain ⟨_, rfl⟩ | old := update_some found
        · refine .inr (iterInv_fresh ?_ index requests answers)
          show other.cache = fw.listing other.volume other.path
          rw [same, iterVolume, iterPath, entries]
        · exact h.iters i other old

theorem readStep_inv (fw : DirFirmware V D) (st : ReadState V H) (event : ReadEvent V H)
    (h : ReadInv fw.toVolumes st) (ok : ReadsDelivered fw st event) :
    ReadInv fw.toVolumes (readStep fw st event) := by
  cases event with
  | openRoot volume handle =>
    rw [readStep]
    split
    · exact h
    · exact ⟨h.nodes, h.iters⟩
  | closeRoot handle => exact ⟨h.nodes, h.iters⟩
  | iterOpen id baseDir path =>
    rw [readStep]
    cases opened : st.handles baseDir with
    | none => exact h
    | some handle => exact dirIterRead_inv h id opened ok
  | iterNext id filter =>
    rw [readStep]
    cases found : st.iters id with
    | none => exact h
    | some iter => exact h.update id ((h.iters id iter found).next filter)
  | iterClose id => exact ⟨h.nodes, fun i iter found => h.iters i iter (update_none found)⟩
  | clear => exact ⟨fun node mem => absurd mem List.not_mem_nil, fun _ _ found => nomatch found⟩

/-- A step that remembers no partial listing meets the condition. -/
theorem readsDelivered_of_step {fw : DirFirmware V D} {st : ReadState V H} {event : ReadEvent V H}
    (h : AllReported fw.toVolumes (readStep fw st event)) : ReadsDelivered fw st event := by
  cases event with
  | iterOpen id baseDir path =>
    intro handle directory opened missed named
    rw [readStep, opened] at h
    obtain ⟨node, cache, volume, readPath, whole, -⟩ := dirIterRead_missed id missed named
    refine whole.mp ?_
    have remembered := h.2 node (by rw [cache]; exact List.mem_cons_self)
    rw [volume, readPath] at remembered
    exact remembered.trans (Volumes.listing_of_directory named)
  | _ => trivial

/-- From an empty cache on, every failure of a run is reported and no partial listing is remembered
exactly when the firmware delivers every entry of each directory that is read, from its start. -/
theorem dirIter_reported_iff (fw : DirFirmware V D) (handles : H → Option (RootHandle V))
    (events : List (ReadEvent V H)) :
    Visits (readStep fw) (AllReported fw.toVolumes) { handles := handles } events ↔
      Along (readStep fw) (ReadsDelivered fw) { handles := handles } events := by
  refine visits_iff_along (I := ReadInv fw.toVolumes) ?_ ?_ ?_ ?_
  · exact fun st inv => inv.allReported
  · exact fun st event inv ok => readStep_inv fw st event inv ok
  · exact fun st event _ reported => readsDelivered_of_step reported
  · exact ⟨fun node mem => absurd mem List.not_mem_nil, fun _ _ found => nomatch found⟩

/-! ### A read that fails on the second entry -/

/-- One volume, whose root holds two directories; the second read of the run fails. -/
def failingSecond : DirFirmware Unit Unit where
  root := fun _ => ()
  resolve := fun _ _ => some ()
  entries := fun _ _ => [⟨['a'], true, 0⟩, ⟨['b'], true, 0⟩]
  openError := fun _ _ => 14
  read := fun reads _ => if reads = 1 then .failed 7 else .delivered

/-- The iterator ends after the first entry, and closing it returns success. -/
theorem dirIter_reported_failing :
    ¬ Visits (readStep failingSecond) (AllReported failingSecond.toVolumes)
      { handles := fun _ : Unit => none }
      [.openRoot () (), .iterOpen 0 () (some ['d']), .iterNext 0 ⟨0, none⟩, .iterNext 0 ⟨0, none⟩] := by
  intro visits
  obtain ⟨reported, _⟩ := visits.2.2.2.2
  obtain ⟨failure, failed, closed⟩ | served := reported 0 _ rfl
  · have success : failure = .success := closed.symm
    subst success
    revert failed
    decide +kernel
  · revert served
    decide +kernel

end Meridian.Storage
