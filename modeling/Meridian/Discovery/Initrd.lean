import Meridian.Lib.Largest
import Meridian.Lib.Word
import Meridian.Storage.DirCache
import Meridian.Storage.Wildcard
import Mathlib.Data.Prod.Lex

/-!
# The initial RAM disk of a kernel

The model of `FindInitrd` and `FlavourTail` of `loaders/linux.c`, with `FindNumbers` of
`lib/str_format.c` and `MrdStrCommonPrefixLen` of `lib/str_compare.c`. The loop over the candidates
is the maximum of the flavour shared with the kernel, and of the shortness, in this order:
`findInitrd_eq`. Allocations succeed.
-/

namespace Meridian.Discovery

open Text Storage Lib.Glob Lib.Word Lib.Largest

/-- The part of the name behind its first dash; without a dash, the name. -/
def flavourTail (name : Str) : Str :=
  match name.dropWhile (· ≠ '-') with
  | _ :: tail => tail
  | [] => name

def mrdStrCommonPrefixLen : Str → Str → Nat
  | c :: string₁, d :: string₂ => if c = d then mrdStrCommonPrefixLen string₁ string₂ + 1 else 0
  | _, _ => 0

/-- The element that `FindNumbers` starts from: the first of the extra version strings that the name
holds. Without one, it starts behind the name and ends at 0. -/
def extraElement (extraKernelVersionStrings : Option Str) (inString : Str) : Nat × Nat :=
  match ((extraKernelVersionStrings.map commaItems).getD []).findSome? fun lookFor =>
      (mrdStrFind inString lookFor).map fun found => (lookFor, inString.length - found.length) with
  | some (lookFor, start) => (start, sub64 (lookFor.length + start) 1)
  | none => (inString.length, 0)

/-- The loop over the characters of the name, from the index on. -/
def digitLoop (element : Nat × Nat) (i : Nat) : Str → Nat × Nat
  | [] => element
  | c :: rest =>
    if '0' ≤ c ∧ c ≤ '9' then
      digitLoop (if element.1 > i then i else element.1, if element.2 < i then i else element.2) (i + 1) rest
    else digitLoop element (i + 1) rest

def findNumbers (extraKernelVersionStrings : Option Str) (inString : Str) : Option Str :=
  let element := digitLoop (extraElement extraKernelVersionStrings inString) 0 inString
  if element.2 > 0 ∧ element.2 ≥ element.1 then
    some ((inString.drop element.1).take (u64 (element.2 - element.1 + 1)))
  else none

/-- The entries that a loop around `DirIterNext` is given, from the index on. -/
def dirIterLoop (filter : Filter) (cache : List FileInfo) (cacheIndex : Nat) : Nat → List FileInfo
  | 0 => []
  | fuel + 1 =>
    match nextLoop filter cacheIndex (cache.drop cacheIndex) with
    | (_, none) => []
    | (index, some info) => info :: dirIterLoop filter cache index fuel

def initrdFilter : Filter := { filterMode := 2, filePattern := some "init*,booster*".toList }

/-- The test of the version strings. -/
def versionsAgree (kernelVersion initrdVersion : Option Str) : Bool :=
  (kernelVersion.isSome && mrdStrEqualsCI initrdVersion kernelVersion) ||
    (kernelVersion.isNone && initrdVersion.isNone)

structure SharedInitrd where
  maxSharedChars : Nat
  maxSharedInitrd : Str
  deriving DecidableEq, Repr

/-- How much of the flavour of the kernel an initrd shares. -/
def sharedChars (kernFlavour value : Str) : Nat :=
  mrdStrCommonPrefixLen kernFlavour (flavourTail (basename value))

def sharedStep (kernFlavour : Str) (most : SharedInitrd) (value : Str) : SharedInitrd :=
  if sharedChars kernFlavour value > most.maxSharedChars ∨
      sharedChars kernFlavour value = most.maxSharedChars ∧
        value.length < most.maxSharedInitrd.length then
    { maxSharedChars := sharedChars kernFlavour value, maxSharedInitrd := value }
  else most

/-- The path with a backslash in front. -/
def ourPath (loaderPath : Str) : Str :=
  if loaderPath.head? = some '\\' then loaderPath else '\\' :: loaderPath

/-- The directory that is read for the loader. -/
def initrdPath (loaderPath : Str) : Str :=
  if (findPath (ourPath loaderPath)).length = 0 then ['\\'] else findPath (ourPath loaderPath)

/-- The path of the directory, with a backslash behind it. -/
def initrdDir (loaderPath : Str) : Str :=
  if (initrdPath loaderPath).getLast? ≠ some '\\' then initrdPath loaderPath ++ ['\\']
  else initrdPath loaderPath

/-- The list of candidates, from what the directory holds. -/
def initrdNames (extraKernelVersionStrings : Option Str) (loaderPath : Str) (cache : List FileInfo) : List Str :=
  let kernelVersion := findNumbers extraKernelVersionStrings (basename (ourPath loaderPath))
  let entries := dirIterLoop initrdFilter cache 0 (cache.length + 1)
  (entries.filter fun info =>
    versionsAgree kernelVersion (findNumbers extraKernelVersionStrings info.fileName)).map
      fun info => initrdDir loaderPath ++ info.fileName

/-- `FindInitrd`, with what the iterator that is opened for a path of the volume goes through. -/
def findInitrd (extraKernelVersionStrings : Option Str) (directory : Str → List FileInfo)
    (loaderPath : Str) : Option Str :=
  match initrdNames extraKernelVersionStrings loaderPath (directory (initrdPath loaderPath)) with
  | [] => none
  | [value] => some value
  | first :: second :: rest =>
    some ((first :: second :: rest).foldl (sharedStep (flavourTail (basename (ourPath loaderPath))))
      { maxSharedChars := 0, maxSharedInitrd := first }).maxSharedInitrd

/-! ### The candidates -/

/-- Two version strings are one up to the case of their letters, or both are missing. -/
def SameVersion (version₁ version₂ : Option Str) : Prop :=
  version₁.map (List.map lowerChar) = version₂.map (List.map lowerChar)

/-- What is a candidate for the loader. -/
structure InitrdFor (extraKernelVersionStrings : Option Str) (loaderPath : Str) (info : FileInfo) : Prop where
  file : info.directory = false
  named : info.fileName ∈ globWords "init*".toList ∨ info.fileName ∈ globWords "booster*".toList
  version : SameVersion (findNumbers extraKernelVersionStrings info.fileName)
    (findNumbers extraKernelVersionStrings (basename (ourPath loaderPath)))

theorem dirIterLoop_eq (filter : Filter) (cache : List FileInfo) (cacheIndex fuel : Nat)
    (enough : (cache.drop cacheIndex).length < fuel) :
    dirIterLoop filter cache cacheIndex fuel = (cache.drop cacheIndex).filter filter.accepts := by
  induction fuel generalizing cacheIndex with
  | zero => exact absurd enough (Nat.not_lt_zero _)
  | succ fuel ih =>
    obtain ⟨found, left⟩ := nextLoop_eq filter cacheIndex cache _ rfl
    have split := Lib.Cursor.filter_next filter.accepts (cache.drop cacheIndex)
    rw [dirIterLoop, split]
    cases answer : nextLoop filter cacheIndex (cache.drop cacheIndex) with
    | mk index reply =>
      rw [answer] at found left
      rw [← found, ← left]
      cases reply with
      | none =>
        rw [left, Lib.Cursor.next_exhausted found.symm]
        rfl
      | some info =>
        have shorter : (cache.drop index).length < (cache.drop cacheIndex).length := by
          rw [left]
          exact Lib.Cursor.next_shorter found.symm
        exact congrArg (info :: ·) (ih index (by omega))

theorem initrdFilter_accepts (info : FileInfo) :
    initrdFilter.accepts info = true ↔
      info.directory = false ∧
        (info.fileName ∈ globWords "init*".toList ∨ info.fileName ∈ globWords "booster*".toList) := by
  have items : commaItems "init*,booster*".toList = ["init*".toList, "booster*".toList] := by decide
  unfold Filter.accepts initrdFilter
  cases kind : info.directory with
  | true => simp
  | false =>
    simp only [items, List.any_cons, List.any_nil, wildcardMatch_eq]
    simp [meridianWildcardMatch_iff]

theorem versionsAgree_iff (kernelVersion initrdVersion : Option Str) :
    versionsAgree kernelVersion initrdVersion = true ↔ SameVersion initrdVersion kernelVersion := by
  unfold versionsAgree SameVersion
  cases kernelVersion with
  | none => cases initrdVersion <;> simp [mrdStrEqualsCI]
  | some kernel => cases initrdVersion <;> simp [mrdStrEqualsCI, equalsCI_iff]

theorem mem_initrdNames (extraKernelVersionStrings : Option Str) (loaderPath value : Str)
    (cache : List FileInfo) :
    value ∈ initrdNames extraKernelVersionStrings loaderPath cache ↔
      ∃ info ∈ cache, InitrdFor extraKernelVersionStrings loaderPath info ∧
        initrdDir loaderPath ++ info.fileName = value := by
  have whole := dirIterLoop_eq initrdFilter cache 0 (cache.length + 1) (Nat.lt_succ_self _)
  simp only [initrdNames, whole, List.drop_zero, List.mem_map, List.mem_filter, initrdFilter_accepts,
    versionsAgree_iff]
  constructor
  · rintro ⟨info, ⟨⟨mem, file, named⟩, version⟩, same⟩
    exact ⟨info, mem, ⟨file, named, version⟩, same⟩
  · rintro ⟨info, mem, initrd, same⟩
    exact ⟨info, ⟨⟨mem, initrd.file, initrd.named⟩, initrd.version⟩, same⟩

/-! ### The choice -/

/-- What the loop compares: the shared part of the flavour first, and then the shortness. -/
def initrdScore (kernFlavour value : Str) : ℕ ×ₗ ℕᵒᵈ :=
  toLex (sharedChars kernFlavour value, OrderDual.toDual value.length)

theorem initrdScore_lt (kernFlavour value₁ value₂ : Str) :
    initrdScore kernFlavour value₁ < initrdScore kernFlavour value₂ ↔
      sharedChars kernFlavour value₁ < sharedChars kernFlavour value₂ ∨
        sharedChars kernFlavour value₁ = sharedChars kernFlavour value₂ ∧
          value₂.length < value₁.length := by
  rw [initrdScore, initrdScore, Prod.Lex.toLex_lt_toLex, OrderDual.toDual_lt_toDual]

theorem initrdScore_le (kernFlavour value₁ value₂ : Str) :
    initrdScore kernFlavour value₁ ≤ initrdScore kernFlavour value₂ ↔
      sharedChars kernFlavour value₁ < sharedChars kernFlavour value₂ ∨
        sharedChars kernFlavour value₁ = sharedChars kernFlavour value₂ ∧
          value₂.length ≤ value₁.length := by
  rw [initrdScore, initrdScore, Prod.Lex.toLex_le_toLex, OrderDual.toDual_le_toDual]

theorem initrdScore_eq (kernFlavour value₁ value₂ : Str) :
    initrdScore kernFlavour value₁ = initrdScore kernFlavour value₂ ↔
      sharedChars kernFlavour value₁ = sharedChars kernFlavour value₂ ∧
        value₁.length = value₂.length := by
  rw [initrdScore, initrdScore, toLex_inj, Prod.mk.injEq, OrderDual.toDual_inj]

/-- One round keeps the first of the largest. -/
theorem sharedStep_kept (kernFlavour kept value : Str) :
    sharedStep kernFlavour { maxSharedChars := sharedChars kernFlavour kept, maxSharedInitrd := kept } value =
      if initrdScore kernFlavour kept < initrdScore kernFlavour value then
        { maxSharedChars := sharedChars kernFlavour value, maxSharedInitrd := value }
      else { maxSharedChars := sharedChars kernFlavour kept, maxSharedInitrd := kept } := by
  have swap : (sharedChars kernFlavour value = sharedChars kernFlavour kept) ↔
      sharedChars kernFlavour kept = sharedChars kernFlavour value := eq_comm
  simp only [sharedStep, initrdScore_lt, gt_iff_lt, swap]

/-- The loop starts from a score of zero, which the first candidate has at least. -/
theorem sharedStep_first (kernFlavour first : Str) :
    sharedStep kernFlavour { maxSharedChars := 0, maxSharedInitrd := first } first =
      { maxSharedChars := sharedChars kernFlavour first, maxSharedInitrd := first } := by
  unfold sharedStep
  split
  · rfl
  · rename_i refused
    have zero : sharedChars kernFlavour first = 0 := by
      rw [not_or] at refused
      exact Nat.eq_zero_of_not_pos refused.1
    rw [zero]

theorem sharedLoop_argmax (kernFlavour first : Str) (rest : List Str) :
    ∃ best, (first :: rest).argmax (initrdScore kernFlavour) = some best ∧
      (first :: rest).foldl (sharedStep kernFlavour) { maxSharedChars := 0, maxSharedInitrd := first } =
        { maxSharedChars := sharedChars kernFlavour best, maxSharedInitrd := best } := by
  induction rest using List.reverseRecOn with
  | nil =>
    refine ⟨first, List.argmax_singleton, ?_⟩
    rw [List.foldl_cons, List.foldl_nil, sharedStep_first]
  | append_singleton rest value ih =>
    obtain ⟨best, most, kept⟩ := ih
    have next := List.argmax_concat (initrdScore kernFlavour) value (first :: rest)
    rw [most] at next
    rw [← List.cons_append, next, List.foldl_append, kept, List.foldl_cons, List.foldl_nil, sharedStep_kept]
    dsimp only
    split
    · exact ⟨value, rfl, rfl⟩
    · exact ⟨best, rfl, rfl⟩

theorem findInitrd_eq (extraKernelVersionStrings : Option Str) (directory : Str → List FileInfo)
    (loaderPath : Str) :
    findInitrd extraKernelVersionStrings directory loaderPath =
      (initrdNames extraKernelVersionStrings loaderPath (directory (initrdPath loaderPath))).argmax
        (initrdScore (flavourTail (basename (ourPath loaderPath)))) := by
  unfold findInitrd
  cases initrdNames extraKernelVersionStrings loaderPath (directory (initrdPath loaderPath)) with
  | nil => rfl
  | cons first rest =>
    cases rest with
    | nil => rfl
    | cons second rest =>
      obtain ⟨best, most, kept⟩ :=
        sharedLoop_argmax (flavourTail (basename (ourPath loaderPath))) first (second :: rest)
      dsimp only
      rw [most, kept]

theorem initrdNames_perm (extraKernelVersionStrings : Option Str) (loaderPath : Str)
    {cache cache' : List FileInfo} (perm : cache.Perm cache') :
    (initrdNames extraKernelVersionStrings loaderPath cache).Perm
      (initrdNames extraKernelVersionStrings loaderPath cache') := by
  have whole := dirIterLoop_eq initrdFilter cache 0 (cache.length + 1) (Nat.lt_succ_self _)
  have whole' := dirIterLoop_eq initrdFilter cache' 0 (cache'.length + 1) (Nat.lt_succ_self _)
  simp only [initrdNames, whole, whole', List.drop_zero]
  exact ((perm.filter _).filter _).map _

/-! ### The flavours -/

/-- The prefixes that two strings share are those of their first so many characters. -/
theorem shared_prefix_iff (part string₁ string₂ : Str) :
    part <+: string₁ ∧ part <+: string₂ ↔ part <+: string₁.take (mrdStrCommonPrefixLen string₁ string₂) := by
  induction part generalizing string₁ string₂ with
  | nil => simp
  | cons a part ih =>
    cases string₁ with
    | nil => simp
    | cons c string₁ =>
      cases string₂ with
      | nil => simp [mrdStrCommonPrefixLen]
      | cons d string₂ =>
        rw [mrdStrCommonPrefixLen, List.cons_prefix_cons, List.cons_prefix_cons]
        split
        · rename_i same
          rw [List.take_succ_cons, List.cons_prefix_cons, ← ih, same]
          tauto
        · rename_i other
          refine iff_of_false ?_ (fun impossible => ?_)
          · rintro ⟨⟨left, -⟩, right, -⟩
            exact other (left.symm.trans right)
          · cases List.prefix_nil.mp impossible

/-- How much of the flavour of the loader a file shares. -/
def flavourShared (loaderPath : Str) (info : FileInfo) : Nat :=
  sharedChars (flavourTail (basename (ourPath loaderPath))) (initrdDir loaderPath ++ info.fileName)

theorem initrdDir_ends (loaderPath : Str) : ∃ dir, initrdDir loaderPath = dir ++ ['\\'] := by
  unfold initrdDir
  split
  · exact ⟨_, rfl⟩
  · rename_i ends
    exact List.getLast?_eq_some_iff.mp (not_not.mp ends)

/-- The file's part in this is the flavour of its own name, where the name holds no separator. -/
theorem flavourShared_name (loaderPath : Str) {info : FileInfo} (plain : IsFileName info.fileName) :
    flavourShared loaderPath info =
      mrdStrCommonPrefixLen (flavourTail (basename (ourPath loaderPath))) (flavourTail info.fileName) := by
  obtain ⟨dir, ends⟩ := initrdDir_ends loaderPath
  have base : basename (initrdDir loaderPath ++ info.fileName) = info.fileName :=
    EndsIn.basename plain ⟨_, rfl, .inr ⟨dir, '\\', ends, rfl⟩⟩
  rw [flavourShared, sharedChars, base]

/-- The answer is a best candidate, and it is one whatever the order of the directory is. -/
theorem findInitrd_best (extraKernelVersionStrings : Option Str) (directory : Str → List FileInfo)
    (loaderPath : Str) :
    (findInitrd extraKernelVersionStrings directory loaderPath = none ↔
      ∀ info ∈ directory (initrdPath loaderPath), ¬ InitrdFor extraKernelVersionStrings loaderPath info) ∧
    (∀ value, findInitrd extraKernelVersionStrings directory loaderPath = some value →
      ∃ info ∈ directory (initrdPath loaderPath), InitrdFor extraKernelVersionStrings loaderPath info ∧
        value = initrdDir loaderPath ++ info.fileName ∧
        ∀ other ∈ directory (initrdPath loaderPath), InitrdFor extraKernelVersionStrings loaderPath other →
          flavourShared loaderPath other < flavourShared loaderPath info ∨
            flavourShared loaderPath other = flavourShared loaderPath info ∧
              info.fileName.length ≤ other.fileName.length) ∧
    (∀ reordered : Str → List FileInfo,
      (directory (initrdPath loaderPath)).Perm (reordered (initrdPath loaderPath)) →
      (∀ info ∈ directory (initrdPath loaderPath), InitrdFor extraKernelVersionStrings loaderPath info →
        ∀ other ∈ directory (initrdPath loaderPath), InitrdFor extraKernelVersionStrings loaderPath other →
          info.fileName ≠ other.fileName →
            ¬(flavourShared loaderPath info = flavourShared loaderPath other ∧
              info.fileName.length = other.fileName.length)) →
      findInitrd extraKernelVersionStrings reordered loaderPath =
        findInitrd extraKernelVersionStrings directory loaderPath) := by
  simp only [findInitrd_eq]
  refine ⟨?_, ?_, ?_⟩
  · rw [List.argmax_eq_none, List.eq_nil_iff_forall_not_mem]
    constructor
    · intro empty info mem initrd
      exact empty _ ((mem_initrdNames _ _ _ _).mpr ⟨info, mem, initrd, rfl⟩)
    · intro empty value mem
      obtain ⟨info, inside, initrd, -⟩ := (mem_initrdNames _ _ _ _).mp mem
      exact empty info inside initrd
  · intro value most
    obtain ⟨info, mem, initrd, rfl⟩ := (mem_initrdNames _ _ _ _).mp (List.argmax_mem most)
    refine ⟨info, mem, initrd, rfl, ?_⟩
    intro other inside another
    have listed := (mem_initrdNames _ _ _ _).mpr ⟨other, inside, another, rfl⟩
    have below := (initrdScore_le _ _ _).mp (List.le_of_mem_argmax listed most)
    rwa [List.length_append, List.length_append, Nat.add_le_add_iff_left] at below
  · intro reordered perm apart
    refine (argmax_perm (initrdNames_perm extraKernelVersionStrings loaderPath perm) ?_).symm
    intro value mem value' mem' tie
    obtain ⟨info, inside, initrd, rfl⟩ := (mem_initrdNames _ _ _ _).mp mem
    obtain ⟨other, inside', another, rfl⟩ := (mem_initrdNames _ _ _ _).mp mem'
    have both := (initrdScore_eq _ _ _).mp tie
    rw [List.length_append, List.length_append, Nat.add_left_cancel_iff] at both
    by_cases same : info.fileName = other.fileName
    · rw [same]
    · exact absurd both (apart info inside initrd other inside' another same)

end Meridian.Discovery
