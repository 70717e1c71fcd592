import Meridian.Discovery.Fold

/-!
# What a directory scan leaves bootable

An accepted file stays bootable when it gets an entry of its own, or entries in the submenu of the
kernel that it is folded under; the latter takes a line of two tokens at the head of that kernel's
options file.
-/

namespace Meridian.Discovery

open Text Menu

variable {V : Type} {env : ScanEnv V} {volume : V}

/-- The paths under which an entry keeps a loader file. -/
def Names (fileName path : Str) : Prop :=
  path = entryPath fileName ∨ path = cleanUpPathNameSlashes fileName

def Starts (volume : V) (fileName : Str) (target : Target V) : Prop :=
  target.volume = some volume ∧ ∃ path, target.loaderPath = some path ∧ Names fileName path

/-- The file is the target of a main menu entry, or of an entry in its submenu. -/
def StartedBy (volume : V) (fileName : Str) (entry : LoaderEntry V) : Prop :=
  Starts volume fileName entry.target ∨
    ∃ target, .loader target ∈ entry.subScreen ∧ Starts volume fileName target

def Bootable (volume : V) (fileName : Str) (entries : List (LoaderEntry V)) : Prop :=
  ∃ entry ∈ entries, StartedBy volume fileName entry

/-- The kernel's options file starts with a line of at least two tokens. -/
def UsableOptions (env : ScanEnv V) (volume : V) (kernel : LoaderFile) : Prop :=
  ∃ tokens lines, env.readLinuxOptionsFile (some (entryPath kernel.fileName)) volume =
    some (tokens :: lines) ∧ 2 ≤ tokens.length

/-- What it takes for a file to stay bootable, after the files before it. -/
def Kept (env : ScanEnv V) (volume : V) (before : List LoaderFile) (file : LoaderFile) : Prop :=
  match (if isLinuxFile env file && env.foldLinuxKernels then firstKernelOf env volume before
    else none) with
  | some kernel => UsableOptions env volume kernel
  | none => loaderAllowed env volume file.fileName = true

/-! ### Kept files are bootable -/

theorem addKernelToSubmenu_subScreen (fileName : Str) (entry : LoaderEntry V) :
    ∃ more, (addKernelToSubmenu env fileName volume entry).subScreen = entry.subScreen ++ more := by
  rw [addKernelToSubmenu]
  split
  · exact ⟨[], (List.append_nil _).symm⟩
  · exact ⟨_, List.append_assoc ..⟩

theorem StartedBy.extend {fileName : Str} {entry entry' : LoaderEntry V}
    (h : StartedBy volume fileName entry) (same : entry'.target = entry.target)
    (more : ∃ items, entry'.subScreen = entry.subScreen ++ items) :
    StartedBy volume fileName entry' := by
  obtain ⟨items, screen⟩ := more
  obtain main | ⟨target, mem, starts⟩ := h
  · left
    rw [same]
    exact main
  · right
    refine ⟨target, ?_, starts⟩
    rw [screen]
    exact List.mem_append_left _ mem

theorem Bootable.modify {fileName : Str} {entries : List (LoaderEntry V)}
    {f : LoaderEntry V → LoaderEntry V} (h : Bootable volume fileName entries) (first : Nat)
    (same : ∀ entry, (f entry).target = entry.target)
    (more : ∀ entry, ∃ items, (f entry).subScreen = entry.subScreen ++ items) :
    Bootable volume fileName (entries.modify first f) := by
  obtain ⟨entry, mem, started⟩ := h
  obtain ⟨i, found⟩ := List.getElem?_of_mem mem
  by_cases here : first = i
  · subst here
    refine ⟨f entry, ?_, started.extend (same entry) (more entry)⟩
    apply List.mem_of_getElem? (i := first)
    rw [List.getElem?_modify_eq, found]
    rfl
  · refine ⟨entry, ?_, started⟩
    apply List.mem_of_getElem? (i := i)
    rw [List.getElem?_modify_ne f entries here]
    exact found

theorem scanStep_keeps_bootable {fileName : Str} {st : ScanState V}
    (h : Bootable volume fileName st.entries) (file : LoaderFile) :
    Bootable volume fileName (scanStep env volume st file).entries := by
  obtain ⟨first, _, _, _, step⟩ | ⟨_, ⟨_, step⟩ | ⟨_, entry, _, _, _, _, _, step⟩⟩ :=
    scanStep_cases env volume st file
  · rw [step]
    exact h.modify first (addKernelToSubmenu_target _) (addKernelToSubmenu_subScreen _)
  · rw [step]
    exact h
  · rw [step]
    obtain ⟨old, mem, started⟩ := h
    exact ⟨old, List.mem_append_left _ mem, started⟩

/-- A usable options file gives a folded kernel an entry. -/
theorem addKernelToSubmenu_starts {fileName : Str} {entry : LoaderEntry V} {kernel : LoaderFile}
    (path : entry.target.loaderPath = some (entryPath kernel.fileName))
    (usable : UsableOptions env volume kernel) :
    StartedBy volume fileName (addKernelToSubmenu env fileName volume entry) := by
  obtain ⟨tokens, lines, file, enough⟩ := usable
  right
  rw [addKernelToSubmenu, path, file]
  dsimp only
  have first : kernelSubEntries env entry.target fileName volume (tokens :: lines) ≠ [] := by
    have head := List.takeWhile_cons_of_pos (p := fun tokens : List Str => 2 ≤ tokens.length)
      (l := lines) (decide_eq_true enough)
    rw [kernelSubEntries, head, List.map_cons]
    exact List.cons_ne_nil _ _
  obtain ⟨item, mem⟩ := List.exists_mem_of_ne_nil _ first
  obtain ⟨target, rfl, named, onVolume⟩ := kernelSubEntries_starts _ _ _ item mem
  exact ⟨target, List.mem_append_right _ mem, onVolume, _, named, .inr rfl⟩

/-- A file that is not folded is kept when it gets an entry. -/
theorem kept_of_apart {list : List LoaderFile} {st : ScanState V}
    (inv : KernelInv env volume list st) {file : LoaderFile}
    (apart : env.foldLinuxKernels = false ∨ isLinuxFile env file = false ∨ st.firstKernel = none) :
    Kept env volume list file ↔ loaderAllowed env volume file.fileName = true := by
  have unfolded : env.foldLinuxKernels = false ∨ isLinuxFile env file = false ∨
      firstKernelOf env volume list = none := apart.imp_right (.imp_right inv.none)
  rw [Kept, foldBranch_none unfolded]

/-- A folded file is kept when the first kernel's options are usable. -/
theorem kept_of_folded {list : List LoaderFile} {file kernel : LoaderFile}
    (fold : env.foldLinuxKernels = true) (linux : isLinuxFile env file = true)
    (first : firstKernelOf env volume list = some kernel) :
    Kept env volume list file ↔ UsableOptions env volume kernel := by
  rw [Kept, linux, fold, Bool.and_self, if_pos rfl, first]

theorem scanStep_boots {list : List LoaderFile} {st : ScanState V}
    (inv : KernelInv env volume list st) {file : LoaderFile} (kept : Kept env volume list file) :
    Bootable volume file.fileName (scanStep env volume st file).entries := by
  obtain ⟨first, fold, linux, kernel, step⟩ | ⟨apart, ⟨refused, _⟩ | ⟨_, entry, _, path, onVolume, _, _,
    step⟩⟩ := scanStep_cases env volume st file
  · obtain ⟨source, entry, found, here, path, _⟩ := inv.some first kernel
    rw [kept_of_folded fold linux found] at kept
    rw [step]
    refine ⟨addKernelToSubmenu env file.fileName volume entry, ?_, addKernelToSubmenu_starts path kept⟩
    apply List.mem_of_getElem? (i := first)
    rw [List.getElem?_modify_eq, here]
    rfl
  · rw [kept_of_apart inv apart, refused] at kept
    cases kept
  · rw [step]
    refine ⟨entry, List.mem_append_right _ (List.mem_singleton.mpr rfl), .inl ?_⟩
    exact ⟨onVolume, _, path, .inl rfl⟩

theorem scanRun_append (pre post : List LoaderFile) (file : LoaderFile) :
    scanRun env volume (pre ++ file :: post) =
      post.foldl (scanStep env volume) (scanStep env volume (scanRun env volume pre) file) := by
  rw [scanRun, List.foldl_append, List.foldl_cons, scanRun]

theorem scanRun_boots {pre post : List LoaderFile} {file : LoaderFile}
    (kept : Kept env volume pre file) :
    Bootable volume file.fileName (scanRun env volume (pre ++ file :: post)).entries := by
  rw [scanRun_append]
  have here := scanStep_boots (scanRun_kernelInv env volume pre) kept
  generalize scanStep env volume (scanRun env volume pre) file = st at here
  induction post generalizing st with
  | nil => exact here
  | cons next post ih => exact ih _ (scanStep_keeps_bootable here next)

/-! ### Where the targets come from -/

/-- A path that some entry keeps. -/
def Listed (path : Str) (entries : List (LoaderEntry V)) : Prop :=
  ∃ entry ∈ entries, entry.target.loaderPath = some path ∨
    ∃ target, .loader target ∈ entry.subScreen ∧ target.loaderPath = some path

theorem Bootable.listed {fileName : Str} {entries : List (LoaderEntry V)}
    (h : Bootable volume fileName entries) : ∃ path, Names fileName path ∧ Listed path entries := by
  obtain ⟨entry, mem, ⟨_, path, named, names⟩ | ⟨target, inside, _, path, named, names⟩⟩ := h
  · exact ⟨path, names, entry, mem, .inl named⟩
  · exact ⟨path, names, entry, mem, .inr ⟨target, inside, named⟩⟩

/-- Folding a file brings in its own path, and only when the options file is usable. -/
theorem addKernelToSubmenu_listed {entry : LoaderEntry V} {fileName : Str} {kernel : LoaderFile}
    (path : entry.target.loaderPath = some (entryPath kernel.fileName)) {target : Target V}
    (h : .loader target ∈ (addKernelToSubmenu env fileName volume entry).subScreen) :
    .loader target ∈ entry.subScreen ∨
      UsableOptions env volume kernel ∧
        target.loaderPath = some (cleanUpPathNameSlashes fileName) := by
  rw [addKernelToSubmenu, path] at h
  split at h
  · exact .inl h
  · rename_i lines options
    obtain front | added := List.mem_append.mp h
    · obtain earlier | spacer := List.mem_append.mp front
      · exact .inl earlier
      · cases List.mem_singleton.mp spacer
    · right
      obtain ⟨_, same, cleaned, _⟩ := kernelSubEntries_starts _ _ _ _ added
      cases same
      refine ⟨?_, cleaned⟩
      cases lines with
      | nil => cases added
      | cons tokens lines =>
        refine ⟨tokens, lines, options, ?_⟩
        by_contra short
        have head := List.takeWhile_cons_of_neg (p := fun tokens : List Str => 2 ≤ tokens.length)
          (l := lines) (by simpa using short)
        rw [kernelSubEntries, head] at added
        cases added

/-- Each path that one step brings into the menu names the step's file, if that is kept, or is the
hardware test's. -/
theorem scanStep_listed {list : List LoaderFile} {st : ScanState V}
    (inv : KernelInv env volume list st) (file : LoaderFile) {path : Str}
    (h : Listed path (scanStep env volume st file).entries) :
    Listed path st.entries ∨ Kept env volume list file ∧ Names file.fileName path ∨
      path = macosxDiagnostics := by
  obtain ⟨first, fold, linux, kernel, step⟩ | ⟨apart, ⟨_, step⟩ | ⟨allowed, entry, loaders, named, _,
    own, screen, step⟩⟩ := scanStep_cases env volume st file
  · rw [step] at h
    obtain ⟨entry, mem, started⟩ := h
    obtain ⟨i, found⟩ := List.getElem?_of_mem mem
    obtain ⟨rfl, old, before, rfl⟩ | ⟨_, before⟩ := getElem?_modify_some found
    · obtain ⟨source, old', first, here, path', _⟩ := inv.some i kernel
      obtain rfl := Option.some.inj (here.symm.trans before)
      rw [addKernelToSubmenu_target] at started
      obtain main | ⟨target, inside, named⟩ := started
      · exact .inl ⟨old', List.mem_of_getElem? before, .inl main⟩
      · obtain earlier | ⟨usable, cleaned⟩ := addKernelToSubmenu_listed path' inside
        · exact .inl ⟨old', List.mem_of_getElem? before, .inr ⟨target, earlier, named⟩⟩
        · have same := Option.some.inj (named.symm.trans cleaned)
          exact .inr (.inl ⟨(kept_of_folded fold linux first).mpr usable, .inr same⟩)
    · exact .inl ⟨entry, List.mem_of_getElem? before, started⟩
  · rw [step] at h
    exact .inl h
  · rw [step] at h
    obtain ⟨found, mem, started⟩ := h
    obtain old | new := List.mem_append.mp mem
    · exact .inl ⟨found, old, started⟩
    · obtain rfl := List.mem_singleton.mp new
      right
      have kept := (kept_of_apart inv apart).mpr allowed
      obtain main | ⟨target, inside, path'⟩ := started
      · exact .inl ⟨kept, .inl (Option.some.inj (main.symm.trans named))⟩
      · rw [screen] at inside
        obtain loader | ret := List.mem_append.mp inside
        · obtain ⟨_, same, ownPath⟩ := own _ loader
          cases same
          obtain mine | test := ownPath
          · exact .inl ⟨kept, .inl (Option.some.inj (path'.symm.trans mine))⟩
          · exact .inr (Option.some.inj (path'.symm.trans test))
        · split at ret
          · cases ret
          · cases List.mem_singleton.mp ret

theorem scanRun_listed {list : List LoaderFile} {path : Str}
    (h : Listed path (scanRun env volume list).entries) :
    (∃ pre file post, list = pre ++ file :: post ∧ Kept env volume pre file ∧
      Names file.fileName path) ∨ path = macosxDiagnostics := by
  induction list using List.reverseRecOn with
  | nil =>
    obtain ⟨entry, mem, _⟩ := h
    cases mem
  | append_singleton list file ih =>
    rw [scanRun_append] at h
    obtain old | ⟨kept, names⟩ | test := scanStep_listed (scanRun_kernelInv env volume list) file h
    · obtain ⟨pre, source, post, rfl, kept, names⟩ | test := ih old
      · refine .inl ⟨pre, source, post ++ [file], ?_, kept, names⟩
        rw [List.append_assoc, List.cons_append]
      · exact .inr test
    · exact .inl ⟨list, file, [], rfl, kept, names⟩
    · exact .inr test

/-! ### The whole scan -/

def KeepsAll (env : ScanEnv V) (volume : V) (list : List LoaderFile) : Prop :=
  ∀ pre file post, list = pre ++ file :: post → Kept env volume pre file

def AllBootable (env : ScanEnv V) (volume : V) (path : Str) (files : List DirFile) : Prop :=
  ∀ file ∈ loaderList env volume path files,
    Bootable volume file.fileName (scanLoaderDir env volume path files)

/-- The loaders of one directory have paths of their own, and none is the hardware test. -/
structure DistinctLoaders (list : List LoaderFile) : Prop where
  apart : list.Pairwise fun f g => ∀ path, Names f.fileName path → ¬ Names g.fileName path
  noTest : ∀ f ∈ list, ¬ Names f.fileName macosxDiagnostics

/-- The return entry that closes the scan changes no target. -/
theorem scanLoaderDir_entries (env : ScanEnv V) (path : Str) (files : List DirFile)
    (scan : env.shouldScan volume path = true) :
    scanLoaderDir env volume path files =
        (scanRun env volume (loaderList env volume path files)).entries ∨
      ∃ first, scanLoaderDir env volume path files =
        (scanRun env volume (loaderList env volume path files)).entries.modify first fun entry =>
          { entry with subScreen := getMenuEntryReturn entry.subScreen } := by
  rw [scanLoaderDir, scan, Bool.not_true, if_neg Bool.false_ne_true]
  generalize scanRun env volume (loaderList env volume path files) = st
  dsimp only
  generalize (if st.isLinux && env.foldLinuxKernels then st.firstKernel else none) = closing
  cases closing with
  | none => exact .inl rfl
  | some first => exact .inr ⟨first, rfl⟩

theorem scanLoaderDir_bootable {path : Str} {files : List DirFile}
    (scan : env.shouldScan volume path = true) {fileName : Str}
    (h : Bootable volume fileName
      (scanRun env volume (loaderList env volume path files)).entries) :
    Bootable volume fileName (scanLoaderDir env volume path files) := by
  obtain same | ⟨first, same⟩ := scanLoaderDir_entries env path files scan
  · rw [same]
    exact h
  · rw [same]
    exact h.modify first (fun _ => rfl) fun _ => ⟨[.ret], rfl⟩

theorem scanLoaderDir_listed {path : Str} {files : List DirFile}
    (scan : env.shouldScan volume path = true) {target : Str}
    (h : Listed target (scanLoaderDir env volume path files)) :
    Listed target (scanRun env volume (loaderList env volume path files)).entries := by
  obtain same | ⟨first, same⟩ := scanLoaderDir_entries env path files scan
  · rw [same] at h
    exact h
  · rw [same] at h
    obtain ⟨entry, mem, started⟩ := h
    obtain ⟨i, found⟩ := List.getElem?_of_mem mem
    obtain ⟨_, old, before, rfl⟩ | ⟨_, before⟩ := getElem?_modify_some found
    · refine ⟨old, List.mem_of_getElem? before, started.imp_right ?_⟩
      rintro ⟨t, inside, named⟩
      obtain earlier | ret := List.mem_append.mp inside
      · exact ⟨t, earlier, named⟩
      · cases List.mem_singleton.mp ret
    · exact ⟨entry, List.mem_of_getElem? before, started⟩

theorem allBootable_of_keepsAll {path : Str} {files : List DirFile}
    (scan : env.shouldScan volume path = true)
    (keeps : KeepsAll env volume (loaderList env volume path files)) :
    AllBootable env volume path files := by
  intro file mem
  obtain ⟨pre, post, split⟩ := List.append_of_mem mem
  apply scanLoaderDir_bootable scan
  have kept := keeps pre file post split
  rw [split]
  exact scanRun_boots kept

/-- In a list of pairwise apart elements, a name determines the position. -/
theorem position_unique {list pre post pre' post' : List LoaderFile} {f g : LoaderFile} {path : Str}
    (apart : list.Pairwise fun f g => ∀ path, Names f.fileName path → ¬ Names g.fileName path)
    (left : list = pre ++ f :: post) (right : list = pre' ++ g :: post')
    (hf : Names f.fileName path) (hg : Names g.fileName path) : pre = pre' ∧ f = g := by
  have order : ∀ (i j : Nat) (x y : LoaderFile), list[i]? = some x → list[j]? = some y → i < j →
      Names x.fileName path → ¬ Names y.fileName path := by
    intro i j x y hx hy less
    obtain ⟨hi, rfl⟩ := List.getElem?_eq_some_iff.mp hx
    obtain ⟨hj, rfl⟩ := List.getElem?_eq_some_iff.mp hy
    exact List.pairwise_iff_getElem.mp apart i j hi hj less path
  have atF : list[pre.length]? = some f := by
    rw [left, List.getElem?_append_right (Nat.le_refl _), Nat.sub_self]
    rfl
  have atG : list[pre'.length]? = some g := by
    rw [right, List.getElem?_append_right (Nat.le_refl _), Nat.sub_self]
    rfl
  obtain less | same | more := Nat.lt_trichotomy pre.length pre'.length
  · exact absurd hg (order _ _ f g atF atG less hf)
  · obtain ⟨front, rest⟩ := List.append_inj (left.symm.trans right) same
    exact ⟨front, (List.cons.inj rest).1⟩
  · exact absurd hf (order _ _ g f atG atF more hg)

theorem keepsAll_of_allBootable {path : Str} {files : List DirFile}
    (scan : env.shouldScan volume path = true)
    (distinct : DistinctLoaders (loaderList env volume path files))
    (all : AllBootable env volume path files) :
    KeepsAll env volume (loaderList env volume path files) := by
  intro pre file post split
  have mem : file ∈ loaderList env volume path files := by
    rw [split]
    exact List.mem_append_right _ List.mem_cons_self
  obtain ⟨target, names, listed⟩ := (all file mem).listed
  obtain ⟨pre', source, post', split', kept, names'⟩ | test :=
    scanRun_listed (scanLoaderDir_listed scan listed)
  · obtain ⟨rfl, rfl⟩ := position_unique distinct.apart split split' names names'
    exact kept
  · rw [test] at names
    exact absurd names (distinct.noTest file mem)

/-! ### The names of a listing -/

/-- What a directory lists: file names, each once, without the hardware test's. -/
structure Listing (files : List DirFile) : Prop where
  names : ∀ file ∈ files, IsFileName file.fileName
  nodup : (files.map (·.fileName)).Nodup
  noTest : ∀ file ∈ files, file.fileName ≠ basename macosxDiagnostics

theorem insertLoader_perm (file : LoaderFile) (list : List LoaderFile) :
    (insertLoader file list).Perm (file :: list) := by
  induction list with
  | nil => exact .refl _
  | cons current rest ih =>
    rw [insertLoader]
    split
    · exact (ih.cons current).trans (.swap file current rest)
    · split
      · exact .refl _
      · exact (ih.cons current).trans (.swap file current rest)

theorem addLoaderListEntry_perm (list : List LoaderFile) (file : LoaderFile) :
    (addLoaderListEntry list file).Perm (file :: list) := by
  rw [addLoaderListEntry]
  split
  · exact List.perm_append_singleton file list
  · exact insertLoader_perm file list

def loaderFileOf (path : Str) (file : DirFile) : LoaderFile :=
  ⟨fullNameOf path file.fileName, file.modificationTime⟩

theorem loaderList_perm (env : ScanEnv V) (volume : V) (path : Str) (files : List DirFile) :
    (loaderList env volume path files).Perm
      ((files.filter (acceptsLoader env volume path)).map (loaderFileOf path)) := by
  induction files using List.reverseRecOn with
  | nil => exact .refl _
  | append_singleton files file ih =>
    rw [loaderList, List.foldl_append, List.foldl_cons, List.foldl_nil, List.filter_append,
      List.map_append]
    cases accepted : acceptsLoader env volume path file with
    | false =>
      rw [List.filter_cons_of_neg (by rw [accepted]; exact Bool.false_ne_true), List.filter_nil,
        List.map_nil, List.append_nil]
      exact ih
    | true =>
      rw [List.filter_cons_of_pos accepted, List.filter_nil]
      apply (addLoaderListEntry_perm _ _).trans
      exact (ih.cons _).trans (List.perm_append_singleton _ _).symm

theorem names_endsIn {name path target : Str} (file : IsFileName name)
    (h : Names (fullNameOf path name) target) : EndsIn name target := by
  have full : EndsIn name (fullNameOf path name) := (EndsIn.merge (some path)).clean file
  obtain rfl | rfl := h
  · rw [entryPath]
    split
    · exact (full.clean file).backslash
    · exact full.clean file
  · exact full.clean file

theorem distinctLoaders_of_listing {path : Str} {files : List DirFile} (listing : Listing files) :
    DistinctLoaders (loaderList env volume path files) := by
  have perm := loaderList_perm env volume path files
  have named : ∀ file ∈ files, ∀ target,
      Names (loaderFileOf path file).fileName target → basename target = file.fileName :=
    fun file mem _ names => (names_endsIn (listing.names file mem) names).basename
      (listing.names file mem)
  refine ⟨?_, ?_⟩
  · have symm {f g : LoaderFile} (apart : ∀ path, Names f.fileName path → ¬ Names g.fileName path) :
        ∀ path, Names g.fileName path → ¬ Names f.fileName path :=
      fun target hg hf => apart target hf hg
    rw [perm.pairwise_iff symm, List.pairwise_map]
    have different := List.pairwise_map.mp listing.nodup
    refine (List.Pairwise.and_mem.mp different).filter _ |>.imp ?_
    rintro f g ⟨memF, memG, apart⟩ target hf hg
    exact apart ((named f memF target hf).symm.trans (named g memG target hg))
  · intro loader mem names
    obtain ⟨file, inFiles, rfl⟩ := List.mem_map.mp (perm.subset mem)
    have source := (List.mem_filter.mp inFiles).1
    exact listing.noTest file source (named file source _ names).symm

end Meridian.Discovery
