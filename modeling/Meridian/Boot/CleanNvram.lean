import Meridian.Config.MergeItems

/-!
# The search for the NVRAM cleaner

The model of the search in the `TAG_CLEAN_NVRAM` case of `boot/main.c`: loops over the tool
locations, the file names and the volumes, of which the first and the last share the variable `i`.
Allocations succeed. The loop over the locations has no result where it does not end.
-/

namespace Meridian.Boot

open Text Config

/-- The lists that are searched, and what the volumes hold. -/
structure ToolSearch (V : Type) where
  toolLocations : Option Str
  nvramCleanFiles : Str
  volumes : List V
  rootDir : V → Bool
  fileExists : V → Str → Bool

/-- The entry of the tool that was found. -/
structure ToolEntry (V : Type) where
  loaderPath : Str
  volume : V
  deriving DecidableEq, Repr

variable {V : Type} (search : ToolSearch V)

/-- The loop over the volumes, which leaves `i` where it stops. -/
def ToolSearch.volumeLoop (msgStr : Str) (i : Nat) : List V → Nat × Option V
  | [] => (i, none)
  | volume :: rest =>
    if search.rootDir volume && search.fileExists volume msgStr then (i, some volume)
    else volumeLoop msgStr (i + 1) rest

/-- The loop over the file names, from the name `k` on. -/
def ToolSearch.fileLoop (filePath : Str) (k i : Nat) : Nat → Nat × Option (ToolEntry V)
  | 0 => (i, none)
  | fuel + 1 =>
    match findCommaDelimited (some search.nvramCleanFiles) k with
    | none => (i, none)
    | some fileName =>
      match search.volumeLoop (filePath ++ '\\' :: fileName) 0 search.volumes with
      | (i, some volume) => (i, some { loaderPath := filePath ++ '\\' :: fileName, volume := volume })
      | (i, none) => fileLoop filePath (k + 1) i fuel

/-- The loop over the locations, from the location `i` on, with the tool that it ends with. -/
def ToolSearch.locationLoop : Nat → Nat → Option (Option (ToolEntry V))
  | 0, _ => none
  | fuel + 1, i =>
    match findCommaDelimited search.toolLocations i with
    | none => some none
    | some filePath =>
      match search.fileLoop filePath 0 (i + 1) (countListItems (some search.nvramCleanFiles) + 1) with
      | (_, some tool) => some (some tool)
      | (i, none) => locationLoop fuel i

/-- From the location on, the search ends with the result. -/
def ToolSearch.EndsFrom (i : Nat) (result : Option (ToolEntry V)) : Prop :=
  ∃ fuel, search.locationLoop fuel i = some result

/-! ### What is to be found -/

def ToolSearch.locations : List Str := csvItems search.toolLocations

def ToolSearch.fileNames : List Str := csvItems (some search.nvramCleanFiles)

/-- The first volume that holds the file. -/
def ToolSearch.toolNamed (filePath fileName : Str) : Option (ToolEntry V) :=
  (search.volumes.find? fun volume =>
    search.rootDir volume && search.fileExists volume (filePath ++ '\\' :: fileName)).map
      fun volume => { loaderPath := filePath ++ '\\' :: fileName, volume := volume }

/-- The first file name, then the first volume. -/
def ToolSearch.toolAt (filePath : Str) : Option (ToolEntry V) :=
  search.fileNames.findSome? (search.toolNamed filePath)

/-- The first location, then the first file name, then the first volume. -/
def ToolSearch.firstTool : Option (ToolEntry V) := search.locations.findSome? search.toolAt

theorem ToolSearch.volumeLoop_found (msgStr : Str) (i : Nat) (volumes : List V) :
    (search.volumeLoop msgStr i volumes).2 =
      volumes.find? fun volume => search.rootDir volume && search.fileExists volume msgStr := by
  induction volumes generalizing i with
  | nil => rfl
  | cons volume rest ih =>
    rw [volumeLoop, List.find?_cons]
    split
    · rename_i here
      rw [here]
    · rename_i absent
      rw [Bool.not_eq_true] at absent
      rw [absent]
      exact ih (i + 1)

theorem ToolSearch.volumeLoop_index (msgStr : Str) (i : Nat) (volumes : List V)
    (absent : (search.volumeLoop msgStr i volumes).2 = none) :
    (search.volumeLoop msgStr i volumes).1 = i + volumes.length := by
  induction volumes generalizing i with
  | nil => rfl
  | cons volume rest ih =>
    rw [volumeLoop] at absent ⊢
    split at absent
    · cases absent
    · rename_i other
      rw [if_neg other, ih (i + 1) absent, List.length_cons]
      omega

/-- The loop over the file names stops at the first tool; without one, and with a name, it leaves the
number of volumes in `i`. -/
theorem ToolSearch.fileLoop_eq (filePath : Str) (k i fuel : Nat) (enough : search.fileNames.length - k < fuel) :
    (search.fileLoop filePath k i fuel).2 = (search.fileNames.drop k).findSome? (search.toolNamed filePath) ∧
      ((search.fileLoop filePath k i fuel).2 = none →
        (search.fileLoop filePath k i fuel).1 =
          if search.fileNames.drop k = [] then i else search.volumes.length) := by
  induction fuel generalizing k i with
  | zero => exact absurd enough (Nat.not_lt_zero _)
  | succ fuel ih =>
    rw [fileLoop, findCommaDelimited_eq]
    cases found : (csvItems (some search.nvramCleanFiles))[k]? with
    | none =>
      have all : search.fileNames.drop k = [] := List.drop_eq_nil_of_le (List.getElem?_eq_none_iff.mp found)
      rw [all]
      exact ⟨rfl, fun _ => rfl⟩
    | some fileName =>
      obtain ⟨inside, same⟩ := List.getElem?_eq_some_iff.mp found
      have split : search.fileNames.drop k = fileName :: search.fileNames.drop (k + 1) := by
        rw [← same]
        exact List.drop_eq_getElem_cons inside
      have here := search.volumeLoop_found (filePath ++ '\\' :: fileName) 0 search.volumes
      have left := search.volumeLoop_index (filePath ++ '\\' :: fileName) 0 search.volumes
      have inside' : k < search.fileNames.length := inside
      rw [split, List.findSome?_cons, toolNamed, ← here]
      dsimp only
      cases answer : search.volumeLoop (filePath ++ '\\' :: fileName) 0 search.volumes with
      | mk index reply =>
        rw [answer] at left
        cases reply with
        | some volume =>
          refine ⟨rfl, fun impossible => ?_⟩
          cases impossible
        | none =>
          have behind : search.fileNames.length - (k + 1) < fuel := by omega
          obtain ⟨later, index_eq⟩ := ih (k + 1) index behind
          refine ⟨later, fun absent => ?_⟩
          rw [if_neg (List.cons_ne_nil _ _)]
          refine (index_eq absent).trans ?_
          have all : index = search.volumes.length := (left rfl).trans (Nat.zero_add _)
          rw [all, ite_self]

/-! ### The loop over the locations -/

variable {search} {i : Nat} {filePath : Str} {result : Option (ToolEntry V)}

theorem endsFrom_end (outside : search.locations.length ≤ i) : search.EndsFrom i result ↔ result = none := by
  have none : (csvItems search.toolLocations)[i]? = .none := List.getElem?_eq_none_iff.mpr outside
  constructor
  · rintro ⟨fuel, ends⟩
    cases fuel with
    | zero => cases ends
    | succ fuel =>
      rw [ToolSearch.locationLoop, findCommaDelimited_eq, none] at ends
      exact (Option.some.inj ends).symm
  · rintro rfl
    refine ⟨1, ?_⟩
    rw [ToolSearch.locationLoop, findCommaDelimited_eq, none]

/-- One round: it ends with the tool of the location, and otherwise goes on at the number of volumes. -/
theorem locationLoop_here (here : search.locations[i]? = some filePath) (fuel : Nat) :
    search.locationLoop (fuel + 1) i =
      match search.toolAt filePath with
      | some tool => some (some tool)
      | none => search.locationLoop fuel (if search.fileNames = [] then i + 1 else search.volumes.length) := by
  obtain ⟨answer, index_eq⟩ := search.fileLoop_eq filePath 0 (i + 1)
    (countListItems (some search.nvramCleanFiles) + 1) (by rw [countListItems_eq]; exact Nat.lt_succ_self _)
  rw [List.drop_zero] at answer index_eq
  have located : (csvItems search.toolLocations)[i]? = some filePath := here
  rw [ToolSearch.locationLoop, findCommaDelimited_eq, located, ToolSearch.toolAt, ← answer]
  dsimp only
  cases reply : search.fileLoop filePath 0 (i + 1) (countListItems (some search.nvramCleanFiles) + 1) with
  | mk index tool =>
    rw [reply] at index_eq
    cases tool with
    | some tool => rfl
    | none => exact congrArg (search.locationLoop fuel) (index_eq rfl)

theorem endsFrom_found {tool : ToolEntry V} (here : search.locations[i]? = some filePath)
    (found : search.toolAt filePath = some tool) : search.EndsFrom i result ↔ result = some tool := by
  have round (fuel : Nat) : search.locationLoop (fuel + 1) i = some (some tool) := by
    rw [locationLoop_here here, found]
  constructor
  · rintro ⟨fuel, ends⟩
    cases fuel with
    | zero => cases ends
    | succ fuel => exact Option.some.inj (ends.symm.trans (round fuel))
  · rintro rfl
    exact ⟨1, round 0⟩

theorem endsFrom_next (here : search.locations[i]? = some filePath) (absent : search.toolAt filePath = none) :
    search.EndsFrom i result ↔
      search.EndsFrom (if search.fileNames = [] then i + 1 else search.volumes.length) result := by
  have round (fuel : Nat) : search.locationLoop (fuel + 1) i =
      search.locationLoop fuel (if search.fileNames = [] then i + 1 else search.volumes.length) := by
    rw [locationLoop_here here, absent]
  constructor
  · rintro ⟨fuel, ends⟩
    cases fuel with
    | zero => cases ends
    | succ fuel => exact ⟨fuel, (round fuel).symm.trans ends⟩
  · rintro ⟨fuel, ends⟩
    exact ⟨fuel + 1, (round fuel).trans ends⟩

/-- The location that the number of volumes names, without a tool, is searched for ever. -/
theorem not_endsFrom (names : search.fileNames ≠ [])
    (here : search.locations[search.volumes.length]? = some filePath) (absent : search.toolAt filePath = none) :
    ¬ search.EndsFrom search.volumes.length result := by
  rintro ⟨fuel, ends⟩
  induction fuel with
  | zero => cases ends
  | succ fuel ih =>
    rw [locationLoop_here here, absent, if_neg names] at ends
    exact ih ends

/-- Without a file name, every location is passed over. -/
theorem endsFrom_unnamed (names : search.fileNames = []) : search.EndsFrom i none := by
  induction left : search.locations.length - i generalizing i with
  | zero => exact (endsFrom_end (Nat.le_of_sub_eq_zero left)).mpr rfl
  | succ left' ih =>
    have inside : i < search.locations.length := by omega
    have absent : search.toolAt search.locations[i] = none := by
      rw [ToolSearch.toolAt, names]
      rfl
    rw [endsFrom_next (List.getElem?_eq_getElem inside) absent, if_pos names]
    exact ih (by omega)

theorem firstTool_unnamed (names : search.fileNames = []) : search.firstTool = none := by
  rw [ToolSearch.firstTool, List.findSome?_eq_none_iff]
  intro filePath _
  rw [ToolSearch.toolAt, names]
  rfl

/-- There is a first tool where a location, a file name and a volume make an existing file. -/
theorem firstTool_isSome_iff (search : ToolSearch V) :
    search.firstTool.isSome = true ↔
      ∃ filePath ∈ search.locations, ∃ fileName ∈ search.fileNames, ∃ volume ∈ search.volumes,
        search.rootDir volume = true ∧ search.fileExists volume (filePath ++ '\\' :: fileName) = true := by
  simp only [ToolSearch.firstTool, List.findSome?_isSome_iff, ToolSearch.toolAt, ToolSearch.toolNamed,
    Option.isSome_map, List.find?_isSome, Bool.and_eq_true]

/-- The search ends with the first tool exactly where it never needs the location behind the first
other than by the number of volumes. -/
theorem cleanNvram_search_iff (search : ToolSearch V) :
    search.EndsFrom 0 search.firstTool ↔
      search.fileNames = [] ∨
        (∃ tool, search.firstTool = some tool ∧
          (search.locations[0]?.bind search.toolAt = some tool ∨
            search.locations[search.volumes.length]?.bind search.toolAt = some tool)) ∨
        (search.firstTool = none ∧ search.locations.length ≤ search.volumes.length) := by
  by_cases names : search.fileNames = []
  · rw [firstTool_unnamed names]
    exact iff_of_true (endsFrom_unnamed names) (.inl names)
  rw [or_iff_right names]
  cases first : search.locations[0]? with
  | none =>
    have empty : search.locations = [] := by
      rwa [List.getElem?_eq_none_iff, Nat.le_zero, List.length_eq_zero_iff] at first
    have nothing : search.firstTool = none := by
      rw [ToolSearch.firstTool, empty]
      rfl
    rw [endsFrom_end (List.getElem?_eq_none_iff.mp first), nothing, empty]
    exact iff_of_true rfl (.inr ⟨rfl, Nat.zero_le _⟩)
  | some filePath =>
    obtain ⟨rest, locations⟩ : ∃ rest, search.locations = filePath :: rest := by
      rw [← List.head?_eq_getElem?, List.head?_eq_some_iff] at first
      exact first
    cases found : search.toolAt filePath with
    | some tool =>
      have here : search.firstTool = some tool := by
        rw [ToolSearch.firstTool, locations, List.findSome?_cons, found]
      rw [endsFrom_found first found, here]
      exact iff_of_true rfl (.inl ⟨tool, rfl, .inl found⟩)
    | none =>
      rw [endsFrom_next first found, if_neg names]
      have never (tool : ToolEntry V) : (some filePath).bind search.toolAt ≠ some tool := by
        rw [Option.bind_some, found]
        exact (Option.some_ne_none tool).symm
      by_cases outside : search.locations.length ≤ search.volumes.length
      · rw [endsFrom_end outside, List.getElem?_eq_none_iff.mpr outside]
        constructor
        · exact fun nothing => .inr ⟨nothing, outside⟩
        · rintro (⟨tool, -, impossible | impossible⟩ | ⟨nothing, -⟩)
          · exact absurd impossible (never tool)
          · cases impossible
          · exact nothing
      · have next := List.getElem?_eq_getElem (Nat.lt_of_not_le outside)
        cases found' : search.toolAt search.locations[search.volumes.length] with
        | some tool =>
          rw [endsFrom_found next found', next]
          constructor
          · exact fun same => .inl ⟨tool, same, .inr found'⟩
          · rintro (⟨tool', same, impossible | other⟩ | ⟨-, impossible⟩)
            · exact absurd impossible (never tool')
            · rw [same, ← other]
              exact found'
            · exact absurd impossible outside
        | none =>
          refine iff_of_false (not_endsFrom names next found') ?_
          rw [next]
          rintro (⟨tool, -, impossible | impossible⟩ | ⟨-, impossible⟩)
          · exact absurd impossible (never tool)
          · rw [Option.bind_some, found'] at impossible
            cases impossible
          · exact absurd impossible outside

/-- Two locations, and one volume without the tool. -/
def oneVolume : ToolSearch Unit where
  toolLocations := some "EFI\\tools,EFI\\extra".toList
  nvramCleanFiles := "CleanNvram.efi,CleanNvramx64.efi,CleanNvram_x64.efi,x64_CleanNvram.efi".toList
  volumes := [()]
  rootDir := fun _ => true
  fileExists := fun _ _ => false

theorem cleanNvram_search_endless : ¬ ∃ result, oneVolume.EndsFrom 0 result := by
  rintro ⟨result, ends⟩
  have names : oneVolume.fileNames ≠ [] := by decide
  have absent (filePath : Str) : oneVolume.toolAt filePath = none := by
    rw [ToolSearch.toolAt, List.findSome?_eq_none_iff]
    exact fun _ _ => rfl
  have first : oneVolume.locations[0]? = some "EFI\\tools".toList := by decide
  have second : oneVolume.locations[oneVolume.volumes.length]? = some "EFI\\extra".toList := by decide
  rw [endsFrom_next first (absent _), if_neg names] at ends
  exact not_endsFrom names second (absent _) ends

end Meridian.Boot
