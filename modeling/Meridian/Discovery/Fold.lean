import Meridian.Discovery.Scan

/-!
# Folded kernels and return entries

What a directory scan leaves in the menu: where the return entries of the submenus stand, and which
of the accepted files can still be started.
-/

namespace Meridian.Discovery

open Text Menu

variable {V : Type} {env : ScanEnv V} {volume : V}

/-! ### Added entries -/

theorem addLoaderEntry_eq_none {path : Str} {title : Option Str} {ret check : Bool}
    {options : Option Str} (refused : loaderAllowed env volume path = false) :
    addLoaderEntry env path title volume ret check options = none := by
  rw [addLoaderEntry, refused]
  rfl

/-- What an added entry starts, and what its submenu is. -/
theorem addLoaderEntry_eq_some {path : Str} (title : Option Str) (ret check : Bool)
    (options : Option Str) (allowed : loaderAllowed env volume path = true) :
    ∃ entry loaders, addLoaderEntry env path title volume ret check options = some entry ∧
      entry.target.loaderPath = some (entryPath path) ∧ entry.target.volume = some volume ∧
      LoadersOf (fun target => target.loaderPath = some (entryPath path) ∨
        target.loaderPath = some macosxDiagnostics) loaders ∧
      entry.subScreen = loaders ++ if ret then [.ret] else [] := by
  obtain ⟨loaders, all, screen⟩ := generateSubScreen_subScreen env.toSubScreenEnv
    (newLoaderEntry env path title volume check options) volume ret
  rw [addLoaderEntry, allowed]
  refine ⟨_, loaders, rfl, ?_, ?_, all, screen⟩
  · exact generateSubScreen_loaderPath ..
  · exact generateSubScreen_volume ..

theorem foldBranch_none {α : Type} {isLinux fold : Bool} {kernel : Option α}
    (apart : fold = false ∨ isLinux = false ∨ kernel = none) :
    (if isLinux && fold then kernel else none) = none := by
  obtain rfl | rfl | rfl := apart
  · rw [Bool.and_false, if_neg Bool.false_ne_true]
  · rw [Bool.false_and, if_neg Bool.false_ne_true]
  · exact ite_self _

/-- What one step of the loop does. -/
theorem scanStep_cases (env : ScanEnv V) (volume : V) (st : ScanState V) (file : LoaderFile) :
    (∃ first, env.foldLinuxKernels = true ∧ isLinuxFile env file = true ∧
      st.firstKernel = some first ∧
      scanStep env volume st file = {
        entries := st.entries.modify first (addKernelToSubmenu env file.fileName volume)
        firstKernel := some first
        isLinux := true }) ∨
    (env.foldLinuxKernels = false ∨ isLinuxFile env file = false ∨ st.firstKernel = none) ∧
      (loaderAllowed env volume file.fileName = false ∧
        scanStep env volume st file = { st with isLinux := isLinuxFile env file } ∨
      loaderAllowed env volume file.fileName = true ∧ ∃ entry loaders,
        entry.target.loaderPath = some (entryPath file.fileName) ∧
        entry.target.volume = some volume ∧
        LoadersOf (fun target => target.loaderPath = some (entryPath file.fileName) ∨
          target.loaderPath = some macosxDiagnostics) loaders ∧
        entry.subScreen = loaders ++
          (if isLinuxFile env file && env.foldLinuxKernels then [] else [.ret]) ∧
        scanStep env volume st file = {
          entries := st.entries ++ [entry]
          firstKernel := if isLinuxFile env file && st.firstKernel.isNone then
            some st.entries.length else st.firstKernel
          isLinux := isLinuxFile env file }) := by
  by_cases folds : isLinuxFile env file = true ∧ env.foldLinuxKernels = true ∧
      st.firstKernel.isSome = true
  · obtain ⟨linux, fold, some⟩ := folds
    obtain ⟨first, kernel⟩ := Option.isSome_iff_exists.mp some
    left
    refine ⟨first, fold, linux, kernel, ?_⟩
    rw [scanStep]
    simp only [linux, fold, kernel, Bool.and_true, if_true]
  · right
    have apart : env.foldLinuxKernels = false ∨ isLinuxFile env file = false ∨
        st.firstKernel = none := by
      rw [← Option.not_isSome_iff_eq_none, ← Bool.not_eq_true, ← Bool.not_eq_true]
      tauto
    have branch := foldBranch_none apart
    refine ⟨apart, ?_⟩
    rw [scanStep]
    simp only [branch]
    cases allowed : loaderAllowed env volume file.fileName with
    | false =>
      left
      rw [addLoaderEntry_eq_none allowed]
      exact ⟨rfl, rfl⟩
    | true =>
      right
      obtain ⟨entry, loaders, added, path, onVolume, all, screen⟩ := addLoaderEntry_eq_some none
        (!(isLinuxFile env file && env.foldLinuxKernels)) true none allowed
      refine ⟨rfl, entry, loaders, path, onVolume, all, ?_, ?_⟩
      · rw [screen]
        cases isLinuxFile env file && env.foldLinuxKernels with
        | false => rfl
        | true => rfl
      · rw [added]

theorem getElem?_modify_some {α : Type} {l : List α} {f : α → α} {first i : Nat} {x : α}
    (h : (l.modify first f)[i]? = some x) :
    i = first ∧ (∃ y, l[i]? = some y ∧ x = f y) ∨ i ≠ first ∧ l[i]? = some x := by
  by_cases same : first = i
  · subst same
    rw [List.getElem?_modify_eq] at h
    obtain ⟨y, found, rfl⟩ := Option.map_eq_some_iff.mp h
    exact .inl ⟨rfl, y, found, rfl⟩
  · rw [List.getElem?_modify_ne f l same] at h
    exact .inr ⟨fun equal => same equal.symm, h⟩

theorem getElem?_concat_some {α : Type} {l : List α} {i : Nat} {x y : α}
    (h : (l ++ [y])[i]? = some x) : i = l.length ∧ x = y ∨ i < l.length ∧ l[i]? = some x := by
  by_cases inside : i < l.length
  · rw [List.getElem?_append_left inside] at h
    exact .inr ⟨inside, h⟩
  · rw [List.getElem?_append_right (by omega)] at h
    obtain ⟨small, value⟩ := List.getElem?_eq_some_iff.mp h
    rw [List.length_singleton] at small
    refine .inl ⟨by omega, ?_⟩
    rw [← value, List.getElem_singleton]

/-! ### Return entries -/

/-- The submenu ends with its only return entry. -/
def EndsWithOneReturn (screen : List (SubItem V)) : Prop :=
  ∃ front, screen = front ++ [.ret] ∧ .ret ∉ front

/-- What the entries of a folded kernel start. -/
theorem kernelSubEntries_starts (target : Target V) (fileName : Str) (lines : List (List Str)) :
    LoadersOf (fun t => t.loaderPath = some (cleanUpPathNameSlashes fileName) ∧ t.volume = some volume)
      (kernelSubEntries env target fileName volume lines) := .map fun _ => ⟨rfl, rfl⟩

theorem addKernelToSubmenu_no_return {entry : LoaderEntry V} {fileName : Str}
    (h : .ret ∉ entry.subScreen) :
    .ret ∉ (addKernelToSubmenu env fileName volume entry).subScreen := by
  rw [addKernelToSubmenu]
  split
  · exact h
  · intro mem
    obtain before | after := List.mem_append.mp mem
    · obtain old | spacer := List.mem_append.mp before
      · exact h old
      · cases List.mem_singleton.mp spacer
    · exact (kernelSubEntries_starts _ _ _).no_return after

/-- A kernel that others may still be folded under waits for its return entry. -/
structure ReturnInv (env : ScanEnv V) (st : ScanState V) : Prop where
  inside : ∀ first, st.firstKernel = some first → first < st.entries.length
  waiting : ∀ i entry, st.entries[i]? = some entry → env.foldLinuxKernels = true →
    st.firstKernel = some i → .ret ∉ entry.subScreen
  done : ∀ i entry, st.entries[i]? = some entry →
    env.foldLinuxKernels = false ∨ st.firstKernel ≠ some i → EndsWithOneReturn entry.subScreen

theorem scanStep_returnInv {st : ScanState V} (h : ReturnInv env st) (file : LoaderFile) :
    ReturnInv env (scanStep env volume st file) := by
  obtain ⟨first, fold, linux, kernel, step⟩ | ⟨apart, ⟨_, step⟩ | ⟨_, entry, loaders, _, _, all, screen,
    step⟩⟩ := scanStep_cases env volume st file
  · rw [step]
    refine ⟨?_, ?_, ?_⟩
    · rintro _ ⟨⟩
      show first < (st.entries.modify _ _).length
      rw [List.length_modify]
      exact h.inside first kernel
    · intro i entry found _ here
      obtain ⟨_, old, before, rfl⟩ | ⟨other, _⟩ := getElem?_modify_some found
      · apply addKernelToSubmenu_no_return
        apply h.waiting i old before fold
        rw [kernel]
        exact here
      · exact absurd (Option.some.inj here).symm other
    · intro i entry found elsewhere
      obtain ⟨rfl, _⟩ | ⟨other, before⟩ := getElem?_modify_some found
      · obtain off | elsewhere := elsewhere
        · rw [fold] at off
          cases off
        · exact absurd rfl elsewhere
      · apply h.done i entry before
        right
        rw [kernel]
        exact fun same => other (Option.some.inj same).symm
  · rw [step]
    exact ⟨h.inside, h.waiting, h.done⟩
  · rw [step]
    refine ⟨?_, ?_, ?_⟩
    · intro first kernel
      show first < (st.entries ++ [entry]).length
      rw [List.length_append, List.length_singleton]
      dsimp only at kernel
      split at kernel
      · cases kernel
        omega
      · have bound := h.inside first kernel
        omega
    · intro i found₁ found fold here
      obtain ⟨rfl, rfl⟩ | ⟨small, before⟩ := getElem?_concat_some found
      · dsimp only at here
        split at here
        · rename_i linux
          rw [Bool.and_eq_true] at linux
          rw [screen, linux.1, fold, Bool.and_self, if_pos rfl, List.append_nil]
          exact all.no_return
        · have bound := h.inside _ here
          omega
      · apply h.waiting i found₁ before fold
        dsimp only at here
        split at here
        · cases here
          omega
        · exact here
    · intro i found₁ found elsewhere
      obtain ⟨rfl, rfl⟩ | ⟨small, before⟩ := getElem?_concat_some found
      · refine ⟨loaders, ?_, all.no_return⟩
        rw [screen, if_neg]
        intro both
        rw [Bool.and_eq_true] at both
        obtain off | elsewhere := elsewhere
        · rw [both.2] at off
          cases off
        · apply elsewhere
          have none : st.firstKernel = none := by
            obtain off | other | none := apart
            · rw [both.2] at off
              cases off
            · rw [both.1] at other
              cases other
            · exact none
          show (if isLinuxFile env file && st.firstKernel.isNone then some st.entries.length
            else st.firstKernel) = _
          rw [both.1, none]
          rfl
      · apply h.done i found₁ before
        obtain off | elsewhere := elsewhere
        · exact .inl off
        · right
          intro here
          apply elsewhere
          show (if isLinuxFile env file && st.firstKernel.isNone then some st.entries.length
            else st.firstKernel) = _
          rw [here]
          simp

theorem scanRun_returnInv (env : ScanEnv V) (volume : V) (list : List LoaderFile) :
    ReturnInv env (scanRun env volume list) := by
  induction list using List.reverseRecOn with
  | nil =>
    refine ⟨?_, ?_, ?_⟩
    · rintro _ ⟨⟩
    · intro i entry found
      cases found
    · intro i entry found
      cases found
  | append_singleton pre file ih =>
    rw [scanRun, List.foldl_append]
    exact scanStep_returnInv ih file

/-! ### The first kernel -/

/-- The file that becomes the kernel others are folded under. -/
def firstKernelOf (env : ScanEnv V) (volume : V) (list : List LoaderFile) : Option LoaderFile :=
  list.find? fun file => isLinuxFile env file && loaderAllowed env volume file.fileName

theorem addKernelToSubmenu_target (fileName : Str) (entry : LoaderEntry V) :
    (addKernelToSubmenu env fileName volume entry).target = entry.target := by
  rw [addKernelToSubmenu]
  split
  · rfl
  · rfl

/-- `FirstKernel` and `IsLinux` after some files. -/
structure KernelInv (env : ScanEnv V) (volume : V) (list : List LoaderFile) (st : ScanState V) :
    Prop where
  isLinux : st.isLinux = (list.getLast?.map (isLinuxFile env)).getD false
  none : st.firstKernel = none → firstKernelOf env volume list = none
  some : ∀ first, st.firstKernel = some first → ∃ kernel entry,
    firstKernelOf env volume list = some kernel ∧ st.entries[first]? = some entry ∧
      entry.target.loaderPath = some (entryPath kernel.fileName) ∧
      entry.target.volume = some volume

theorem firstKernelOf_concat (list : List LoaderFile) (file : LoaderFile) :
    firstKernelOf env volume (list ++ [file]) =
      (firstKernelOf env volume list).or
        (if isLinuxFile env file && loaderAllowed env volume file.fileName then some file
          else none) := by
  rw [firstKernelOf, List.find?_append, List.find?_singleton]
  rfl

theorem scanStep_kernelInv {list : List LoaderFile} {st : ScanState V}
    (h : KernelInv env volume list st) (file : LoaderFile) :
    KernelInv env volume (list ++ [file]) (scanStep env volume st file) := by
  have last : ((list ++ [file]).getLast?.map (isLinuxFile env)).getD false = isLinuxFile env file := by
    rw [List.getLast?_concat]
    rfl
  obtain ⟨first, fold, linux, kernel, step⟩ | ⟨_, ⟨refused, step⟩ | ⟨allowed, entry, loaders, path,
    onVolume, _, _, step⟩⟩ := scanStep_cases env volume st file
  · rw [step]
    refine ⟨?_, ?_, ?_⟩
    · rw [last, linux]
    · rintro ⟨⟩
    · rintro _ ⟨⟩
      obtain ⟨source, old, found, before, path, onVolume⟩ := h.some first kernel
      refine ⟨source, addKernelToSubmenu env file.fileName volume old, ?_, ?_, ?_, ?_⟩
      · rw [firstKernelOf_concat, found]
        rfl
      · show (st.entries.modify _ _)[first]? = _
        rw [List.getElem?_modify_eq, before]
        rfl
      · rw [addKernelToSubmenu_target]
        exact path
      · rw [addKernelToSubmenu_target]
        exact onVolume
  · have same : firstKernelOf env volume (list ++ [file]) = firstKernelOf env volume list := by
      rw [firstKernelOf_concat, refused, Bool.and_false, if_neg Bool.false_ne_true, Option.or_none]
    rw [step]
    refine ⟨last.symm, ?_, ?_⟩
    · rw [same]
      exact h.none
    · rw [same]
      exact h.some
  · rw [step]
    refine ⟨last.symm, ?_, ?_⟩
    · intro none
      dsimp only at none
      split at none
      · cases none
      · rename_i other
        rw [none, Option.isNone_none, Bool.and_true, Bool.not_eq_true] at other
        rw [firstKernelOf_concat, h.none none, other, Bool.false_and, if_neg Bool.false_ne_true]
        rfl
    · intro first kernel
      dsimp only at kernel
      split at kernel
      · rename_i linux
        obtain rfl := Option.some.inj kernel
        rw [Bool.and_eq_true, Option.isNone_iff_eq_none] at linux
        refine ⟨file, entry, ?_, ?_, path, onVolume⟩
        · rw [firstKernelOf_concat, h.none linux.2, linux.1, allowed, Bool.and_self, if_pos rfl]
          rfl
        · exact List.getElem?_concat_length
      · obtain ⟨source, old, found, before, rest⟩ := h.some first kernel
        refine ⟨source, old, ?_, ?_, rest⟩
        · rw [firstKernelOf_concat, found]
          rfl
        · obtain ⟨small, _⟩ := List.getElem?_eq_some_iff.mp before
          exact (List.getElem?_append_left small).trans before

theorem scanRun_kernelInv (env : ScanEnv V) (volume : V) (list : List LoaderFile) :
    KernelInv env volume list (scanRun env volume list) := by
  induction list using List.reverseRecOn with
  | nil =>
    refine ⟨rfl, fun _ => rfl, ?_⟩
    rintro _ ⟨⟩
  | append_singleton pre file ih =>
    rw [scanRun, List.foldl_append]
    exact scanStep_kernelInv ih file

/-! ### Where the return entries stand -/

/-- Folding is off, or no kernel is added, or the last loader counts as a Linux kernel. -/
def ReturnsPlaced (env : ScanEnv V) (volume : V) (list : List LoaderFile) : Prop :=
  env.foldLinuxKernels = false ∨ firstKernelOf env volume list = none ∨
    ∃ last, list.getLast? = some last ∧ isLinuxFile env last = true

theorem EndsWithOneReturn.mem {screen : List (SubItem V)} (h : EndsWithOneReturn screen) :
    .ret ∈ screen := by
  obtain ⟨front, rfl, _⟩ := h
  exact List.mem_append_right _ (List.mem_singleton.mpr rfl)

/-- Every entry that a directory scan adds has a submenu with one return entry, at its end, exactly
when folding is off, or no kernel was added, or the last loader in the list counts as Linux. -/
theorem scanLoaderDir_returns_iff (env : ScanEnv V) (volume : V) (path : Str)
    (files : List DirFile) :
    (∀ entry ∈ scanLoaderDir env volume path files, EndsWithOneReturn entry.subScreen) ↔
      env.shouldScan volume path = false ∨
        ReturnsPlaced env volume (loaderList env volume path files) := by
  rw [scanLoaderDir]
  cases scan : env.shouldScan volume path with
  | false => exact ⟨fun _ => .inl rfl, fun _ entry mem => absurd mem List.not_mem_nil⟩
  | true =>
    generalize loaderList env volume path files = list
    have returns := scanRun_returnInv env volume list
    have kernels := scanRun_kernelInv env volume list
    generalize scanRun env volume list = st at returns kernels
    rw [Bool.not_true, if_neg Bool.false_ne_true]
    dsimp only
    by_cases closed : st.isLinux = true ∧ env.foldLinuxKernels = true ∧ st.firstKernel.isSome = true
    · obtain ⟨linux, fold, some⟩ := closed
      obtain ⟨first, kernel⟩ := Option.isSome_iff_exists.mp some
      simp only [linux, fold, kernel, Bool.and_self, if_true]
      constructor
      · intro _
        right
        right
        right
        have last := kernels.isLinux
        rw [linux] at last
        cases tail : list.getLast? with
        | none =>
          rw [tail] at last
          cases last
        | some file =>
          rw [tail] at last
          exact ⟨file, rfl, last.symm⟩
      · intro _ entry mem
        obtain ⟨i, found⟩ := List.getElem?_of_mem mem
        obtain ⟨rfl, old, before, rfl⟩ | ⟨other, before⟩ := getElem?_modify_some found
        · exact ⟨old.subScreen, rfl, returns.waiting i old before fold kernel⟩
        · apply returns.done i entry before
          right
          rw [kernel]
          exact fun same => other (Option.some.inj same).symm
    · have branch : (if st.isLinux && env.foldLinuxKernels then st.firstKernel else none) = none := by
        split
        · rename_i both
          rw [Bool.and_eq_true] at both
          rw [← Option.not_isSome_iff_eq_none]
          exact fun some => closed ⟨both.1, both.2, some⟩
        · rfl
      rw [branch]
      constructor
      · intro all
        right
        by_contra placed
        rw [ReturnsPlaced, not_or, not_or] at placed
        obtain ⟨fold, some, _⟩ := placed
        rw [Bool.not_eq_false] at fold
        cases kernel : st.firstKernel with
        | none => exact some (kernels.none kernel)
        | some first =>
          obtain ⟨_, entry, _, found, _, _⟩ := kernels.some first kernel
          exact returns.waiting first entry found fold kernel
            (all entry (List.mem_of_getElem? found)).mem
      · intro placed entry mem
        obtain ⟨i, found⟩ := List.getElem?_of_mem mem
        apply returns.done i entry found
        by_contra open'
        rw [not_or, Bool.not_eq_false, not_not] at open'
        obtain ⟨fold, here⟩ := open'
        obtain impossible | off | none | ⟨last, tail, linux⟩ := placed
        · cases impossible
        · rw [fold] at off
          cases off
        · obtain ⟨_, _, found, _⟩ := kernels.some i here
          rw [none] at found
          cases found
        · apply closed
          refine ⟨?_, fold, Option.isSome_iff_exists.mpr ⟨i, here⟩⟩
          rw [kernels.isLinux, tail]
          exact linux

/-! ### A directory of two loaders -/

/-- Nothing is excluded, kernels are named with a `v`, and the options file is the given one. -/
def plainEnv (fold : Bool) (options : Option (List (List Str))) : ScanEnv Unit where
  toSubScreenEnv := plainSubScreenEnv options
  foldLinuxKernels := fold
  linuxPrefixes := [['v']]
  fallbackBasename := ['B']
  shouldScan := fun _ _ => true
  allowSymlinks := fun _ => true
  isSymbolicLink := fun _ _ _ => false
  isValidLoader := fun _ _ => true
  hasMemtest := fun _ => false
  isToolLocation := fun _ => false
  isBlsClaimedLinuxPath := fun _ _ => false
  isMemtestFile := fun _ => false
  isDontScanFile := fun _ => false
  filenameInDontScan := fun _ _ _ => false
  isBsdAuxLoader := fun _ _ => false
  isSkipName := fun _ => false
  isSelfLoader := fun _ => false
  hasSignedCounterpart := fun _ _ => false
  volumeScanAllowed := fun _ => true
  nameLoader := fun path _ => (path, '\x00')
  volumeGroupRefused := fun _ _ => false
  displayName := fun _ _ => none
  volName := fun _ => some []
  buildLoaderTitle := fun title _ _ => title
  setLoaderDefaults := fun osType _ _ _ => (osType, none, false)

def dayOf (day : Nat) : EfiTime := ⟨2024, 1, day, 0, 0, 0⟩

def twoKernels : List DirFile := [⟨['v', '1'], 1, dayOf 1⟩, ⟨['v', '2'], 1, dayOf 2⟩]

def kernelThenOther : List DirFile := [⟨['v', '1'], 1, dayOf 2⟩, ⟨['a'], 1, dayOf 1⟩]

/-- An older file that is no kernel comes last, and the kernel's submenu gets no return entry. -/
theorem scanLoaderDir_misses_return :
    ¬ ∀ entry ∈ scanLoaderDir (plainEnv true none) () ['b'] kernelThenOther,
      EndsWithOneReturn entry.subScreen := by
  intro all
  have missing : ∃ entry ∈ scanLoaderDir (plainEnv true none) () ['b'] kernelThenOther,
      .ret ∉ entry.subScreen := by decide +kernel
  obtain ⟨entry, mem, without⟩ := missing
  exact without (all entry mem).mem

end Meridian.Discovery
