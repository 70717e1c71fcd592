import Meridian.Storage.PathNames
import Mathlib.Data.List.Infix

/-!
# Clean paths and their parts

A path is cleaned to a form without slashes, doubled backslashes or backslashes at its ends, with the same
components, and cleaning that form leaves it as it is. `SplitPathName` takes a path apart into parts that give
its clean form again.
-/

namespace Meridian.Storage

open Text Config Discovery

/-! ### The clean form -/

/-- The names between the slashes of a path. -/
def components (path : Str) : List Str := (path.splitOnP isSlash).filter (· ≠ [])

structure CleanPath (path : Str) : Prop where
  noSlash : '/' ∉ path
  single : ¬['\\', '\\'] <:+: path
  ends : path = ['\\'] ∨ path.head? ≠ some '\\' ∧ path.getLast? ≠ some '\\'

theorem components_append_cons (a b : Str) {c : Char} (slash : isSlash c = true) :
    components (a ++ c :: b) = components a ++ components b := by
  rw [components, List.splitOnP_append_cons _ _ slash, List.filter_append]
  rfl

theorem components_nil : components [] = [] := rfl

theorem components_slash (b : Str) {c : Char} (slash : isSlash c = true) : components (c :: b) = components b :=
  components_append_cons [] b slash

theorem components_trail (a : Str) {c : Char} (slash : isSlash c = true) :
    components (a ++ [c]) = components a := by
  rw [components_append_cons a [] slash, components_nil, List.append_nil]

theorem double_cons (c : Char) (path : Str) :
    ['\\', '\\'] <:+: c :: path ↔ c = '\\' ∧ path.head? = some '\\' ∨ ['\\', '\\'] <:+: path := by
  rw [List.infix_cons_iff, List.cons_prefix_cons, List.singleton_prefix_iff_head?_eq_some, eq_comm (a := '\\')]

/-- What the loop has written, last character first. -/
structure Written (out : Str) : Prop where
  noSlash : '/' ∉ out
  single : ¬['\\', '\\'] <:+: out
  start : out.getLast? ≠ some '\\'

theorem isSlash_cases {c : Char} (slash : isSlash c = true) : c = '/' ∨ c = '\\' := by
  rw [isSlash, Bool.or_eq_true, decide_eq_true_iff, decide_eq_true_iff] at slash
  exact slash

theorem Written.backslash {out : Str} (h : Written out) (present : out ≠ []) (single : out.head? ≠ some '\\') :
    Written ('\\' :: out) := by
  refine ⟨List.not_mem_cons_of_ne_of_not_mem (by decide) h.noSlash, ?_, ?_⟩
  · rw [double_cons]
    rintro (both | inner)
    · exact single both.2
    · exact h.single inner
  · rw [List.getLast?_cons_of_ne_nil present]
    exact h.start

theorem Written.other {out : Str} (h : Written out) {c : Char} (plain : isSlash c = false) :
    Written (c :: out) := by
  have notSlash : c ≠ '/' := by
    rintro rfl
    cases plain
  have notBackslash : c ≠ '\\' := by
    rintro rfl
    cases plain
  refine ⟨List.not_mem_cons_of_ne_of_not_mem notSlash.symm h.noSlash, ?_, ?_⟩
  · rw [double_cons]
    rintro (both | inner)
    · exact notBackslash both.1
    · exact h.single inner
  · cases out with
    | nil => exact fun last => notBackslash (Option.some.inj last)
    | cons d out =>
      rw [List.getLast?_cons_of_ne_nil (List.cons_ne_nil d out)]
      exact h.start

/-- The loop keeps its form, and the components of what is written and of what is still to be read. -/
theorem cleanLoop_written {out : Str} (h : Written out) (path : Str) :
    Written (cleanLoop out path) ∧ components (cleanLoop out path).reverse = components (out.reverse ++ path) := by
  induction path generalizing out with
  | nil =>
    rw [List.append_nil]
    exact ⟨h, rfl⟩
  | cons c path ih =>
    rw [cleanLoop]
    cases slash : isSlash c with
    | true =>
      rw [if_pos rfl, components_append_cons _ _ slash]
      split
      · rename_i passed
        obtain ⟨written, same⟩ := ih h
        refine ⟨written, same.trans ?_⟩
        rcases passed with rfl | trail
        · rfl
        · obtain ⟨front, rfl⟩ := List.head?_eq_some_iff.mp trail
          rw [List.reverse_cons, List.append_assoc, List.singleton_append, components_append_cons _ _ rfl,
            components_trail _ rfl]
      · rename_i kept
        obtain ⟨present, single⟩ := not_or.mp kept
        obtain ⟨written, same⟩ := ih (h.backslash present single)
        refine ⟨written, same.trans ?_⟩
        rw [List.reverse_cons, List.append_assoc, List.singleton_append, components_append_cons _ _ rfl]
    | false =>
      rw [if_neg Bool.false_ne_true]
      obtain ⟨written, same⟩ := ih (h.other slash)
      refine ⟨written, same.trans ?_⟩
      rw [List.reverse_cons, List.append_assoc, List.singleton_append]

theorem Written.nil : Written [] := ⟨List.not_mem_nil, fun inner => (nomatch List.infix_nil.mp inner), nofun⟩

/-- Without the backslash at the end, what is written is clean. -/
theorem Written.clean {out : Str} (h : Written out) (last : out.head? ≠ some '\\') : CleanPath out.reverse := by
  refine ⟨fun mem => h.noSlash (List.mem_reverse.mp mem), fun inner => ?_, Or.inr ⟨?_, ?_⟩⟩
  · have mirrored := List.reverse_infix.mpr inner
    rw [List.reverse_reverse] at mirrored
    exact h.single mirrored
  · rw [List.head?_reverse]
    exact h.start
  · rw [List.getLast?_reverse]
    exact last

theorem Written.tail {out : Str} (h : Written ('\\' :: out)) : Written out ∧ out.head? ≠ some '\\' := by
  have single := fun first => h.single ((double_cons _ _).mpr (Or.inl ⟨rfl, first⟩))
  refine ⟨⟨fun mem => h.noSlash (List.mem_cons_of_mem _ mem),
    fun inner => h.single ((double_cons _ _).mpr (Or.inr inner)), fun last => ?_⟩, single⟩
  cases out with
  | nil => cases last
  | cons d out =>
    have start := h.start
    rw [List.getLast?_cons_of_ne_nil (List.cons_ne_nil d out)] at start
    exact start last

theorem cleanPath_root : CleanPath ['\\'] := by
  refine ⟨by decide, ?_, Or.inl rfl⟩
  rw [double_cons]
  rintro (both | inner)
  · cases both.2
  · exact Written.nil.single inner

theorem cleanPath_nil : CleanPath [] := Written.nil.clean nofun

/-- A cleaned path is clean and has the components of the path. -/
theorem cleanUpPathNameSlashes_clean (path : Str) :
    CleanPath (cleanUpPathNameSlashes path) ∧ components (cleanUpPathNameSlashes path) = components path := by
  rw [cleanUpPathNameSlashes]
  by_cases empty : path = []
  · rw [if_pos empty, empty]
    exact ⟨cleanPath_nil, rfl⟩
  · obtain ⟨written, same⟩ := cleanLoop_written Written.nil path
    rw [List.reverse_nil, List.nil_append] at same
    rw [if_neg empty]
    dsimp only
    generalize cleanLoop [] path = out at written same
    -- The path without the backslash at its end.
    obtain ⟨text, strip, clean, kept⟩ : ∃ text, (if out.head? = some '\\' then out.tail else out) = text ∧
        CleanPath text.reverse ∧ components text.reverse = components path := by
      by_cases trail : out.head? = some '\\'
      · obtain ⟨front, rfl⟩ := List.head?_eq_some_iff.mp trail
        obtain ⟨before, last⟩ := written.tail
        refine ⟨front, if_pos trail, before.clean last, ?_⟩
        rw [← same, List.reverse_cons, components_trail _ rfl]
      · exact ⟨out, if_neg trail, written.clean trail, same⟩
    rw [strip]
    by_cases root : text = []
    · rw [if_pos root]
      rw [root] at kept
      exact ⟨cleanPath_root, kept⟩
    · rw [if_neg root]
      exact ⟨clean, kept⟩

/-- Of a clean path the loop writes each character. -/
theorem cleanLoop_clean {out path : Str} (noSlash : '/' ∉ path) (single : ¬['\\', '\\'] <:+: path)
    (start : out = [] ∨ out.head? = some '\\' → path.head? ≠ some '\\') :
    cleanLoop out path = path.reverse ++ out := by
  induction path generalizing out with
  | nil => rfl
  | cons c path ih =>
    have noSlash' : '/' ∉ path := fun mem => noSlash (List.mem_cons_of_mem c mem)
    have single' : ¬['\\', '\\'] <:+: path := fun inner => single ((double_cons c path).mpr (Or.inr inner))
    rw [cleanLoop, List.reverse_cons, List.append_assoc]
    cases slash : isSlash c with
    | true =>
      rcases isSlash_cases slash with rfl | rfl
      · exact absurd List.mem_cons_self noSlash
      · have kept : ¬(out = [] ∨ out.head? = some '\\') := fun skipped => start skipped rfl
        rw [if_pos rfl, if_neg kept, ih noSlash' single' fun _ first =>
          single ((double_cons _ path).mpr (Or.inl ⟨rfl, first⟩))]
        rfl
    | false =>
      have start' : c :: out = [] ∨ (c :: out).head? = some '\\' → path.head? ≠ some '\\' := by
        rintro (none | trail)
        · exact absurd none (List.cons_ne_nil c out)
        · obtain rfl := Option.some.inj trail
          cases slash
      rw [if_neg Bool.false_ne_true, ih noSlash' single' start']
      rfl

theorem CleanPath.fixed {path : Str} (h : CleanPath path) : cleanUpPathNameSlashes path = path := by
  rcases h.ends with rfl | ⟨start, last⟩
  · rfl
  · by_cases empty : path = []
    · rw [cleanUpPathNameSlashes, if_pos empty]
    · have reversed : path.reverse ≠ [] := mt List.reverse_eq_nil_iff.mp empty
      have trail : path.reverse.head? ≠ some '\\' := by rwa [List.head?_reverse]
      rw [cleanUpPathNameSlashes, if_neg empty, cleanLoop_clean h.noSlash h.single fun _ => start, List.append_nil]
      dsimp only
      rw [if_neg trail, if_neg reversed, List.reverse_reverse]

/-! ### The loops of the split -/

theorem lt_append_cons (front rest : Str) (c : Char) : front.length < (front ++ c :: rest).length := by
  rw [List.length_append, List.length_cons]
  omega

theorem colonFrom_eq (front rest : Str) :
    colonFrom (front ++ rest) front.length = front.length + (rest.takeWhile (· ≠ ':')).length := by
  induction rest generalizing front with
  | nil =>
    rw [colonFrom, if_neg fun more => absurd more.1 (by rw [List.append_nil]; exact Nat.lt_irrefl _)]
    rfl
  | cons c rest ih =>
    have inside := lt_append_cons front rest c
    rw [colonFrom, cell_here]
    by_cases colon : c = ':'
    · rw [if_neg fun more => more.2 (congrArg some colon), List.takeWhile_cons_of_neg (by simpa using colon)]
      rfl
    · have next := ih (front ++ [c])
      rw [List.length_append, List.length_singleton, ← List.append_cons] at next
      rw [if_pos ⟨inside, fun same => colon (Option.some.inj same)⟩,
        List.takeWhile_cons_of_pos (by simpa using colon), next, List.length_cons]
      omega

theorem splitAtColon_eq (path : Str) : splitAtColon path = splitVolumeAndFilename path := by
  have stop : colonFrom path 0 = (path.takeWhile (· ≠ ':')).length := by
    have whole := colonFrom_eq [] path
    rwa [List.nil_append, List.length_nil, Nat.zero_add] at whole
  have split := List.takeWhile_append_dropWhile (p := fun c => decide (c ≠ ':')) (l := path)
  rw [splitAtColon, splitVolumeAndFilename, stop]
  generalize path.takeWhile (· ≠ ':') = volume at split
  generalize path.dropWhile (· ≠ ':') = behind at split
  subst split
  cases behind with
  | nil =>
    rw [List.append_nil]
    exact if_pos (Nat.le_refl _)
  | cons c filename =>
    dsimp only
    rw [if_neg (Nat.not_le.mpr (lt_append_cons volume filename c)), List.take_left, ← List.drop_drop,
      List.drop_left]
    rfl

theorem lastBackslash_none {rest : Str} (none : '\\' ∉ rest) (front : Str) (last : Nat) :
    lastBackslash (front ++ rest) last front.length = last := by
  induction rest generalizing front with
  | nil => rw [lastBackslash, if_neg (by rw [List.append_nil]; exact Nat.lt_irrefl _)]
  | cons c rest ih =>
    have inside := lt_append_cons front rest c
    have other : some c ≠ some '\\' := fun same => none (Option.some.inj same ▸ List.mem_cons_self)
    have next := ih (fun mem => none (List.mem_cons_of_mem c mem)) (front ++ [c])
    rw [List.length_append, List.length_singleton, ← List.append_cons] at next
    rw [lastBackslash, if_pos inside, cell_here, if_neg other, next]

theorem lastBackslash_last {name : Str} (none : '\\' ∉ name) (front dir : Str) (last : Nat) :
    lastBackslash (front ++ (dir ++ '\\' :: name)) last front.length = front.length + dir.length := by
  induction dir generalizing front last with
  | nil =>
    have inside := lt_append_cons front name '\\'
    have next := lastBackslash_none none (front ++ ['\\']) front.length
    rw [List.length_append, List.length_singleton, ← List.append_cons] at next
    rw [List.nil_append, lastBackslash, if_pos inside, cell_here, if_pos rfl, next]
    rfl
  | cons c dir ih =>
    have inside : front.length < (front ++ (c :: dir ++ '\\' :: name)).length := lt_append_cons front _ c
    have next := ih (front ++ [c]) (if some c = some '\\' then front.length else last)
    rw [List.length_append, List.length_singleton, ← List.append_cons] at next
    rw [lastBackslash, if_pos inside, List.cons_append, cell_here, next, List.length_cons]
    omega

/-- The name behind the last backslash. -/
theorem exists_last {path : Str} (mem : '\\' ∈ path) : ∃ dir name, path = dir ++ '\\' :: name ∧ '\\' ∉ name := by
  obtain ⟨before, behind, split, first⟩ := List.eq_append_cons_of_mem (List.mem_reverse.mpr mem)
  refine ⟨behind.reverse, before.reverse, ?_, fun inside => first (List.mem_reverse.mp inside)⟩
  rw [← List.reverse_reverse path, split, List.reverse_append, List.reverse_cons, List.append_assoc]
  rfl

theorem findPath_last {name : Str} (none : '\\' ∉ name) (dir : Str) : findPath (dir ++ '\\' :: name) = dir := by
  have passed : ∀ c ∈ name.reverse, decide (c ≠ '\\') = true :=
    fun c mem => decide_eq_true fun same => none (same ▸ List.mem_reverse.mp mem)
  rw [findPath, List.reverse_append, List.reverse_cons, List.append_assoc, List.dropWhile_append_of_pos passed]
  exact List.reverse_reverse dir

theorem findPath_none {path : Str} (none : '\\' ∉ path) : findPath path = [] := by
  have passed : path.reverse.dropWhile (· ≠ '\\') = [] :=
    List.dropWhile_eq_nil_iff.mpr fun c mem => decide_eq_true fun same => none (same ▸ List.mem_reverse.mp mem)
  rw [findPath, passed]
  rfl

theorem pathOnly_eq (path : Str) : pathOnly path = findPath path := by
  rw [pathOnly]
  by_cases mem : '\\' ∈ path
  · obtain ⟨dir, name, rfl, none⟩ := exists_last mem
    have last := lastBackslash_last none [] dir 0
    rw [List.nil_append, List.length_nil, Nat.zero_add] at last
    rw [last, List.take_left, findPath_last none]
  · have last := lastBackslash_none mem [] 0
    rw [List.nil_append, List.length_nil] at last
    rw [last, List.take_zero, findPath_none mem]

theorem cleanUpPathNameSlashes_noNull {path : Str} (noNull : '\x00' ∉ path) :
    '\x00' ∉ cleanUpPathNameSlashes path := by
  have out := @cleanLoop_noNull [] _ noNull List.not_mem_nil
  have ended : ∀ text : Str, '\x00' ∉ text → '\x00' ∉ if text = [] then ['\\'] else text.reverse := by
    intro text absent
    split
    · decide
    · exact fun mem => absent (List.mem_reverse.mp mem)
  rw [cleanUpPathNameSlashes]
  by_cases empty : path = []
  · rw [if_pos empty]
    exact noNull
  · rw [if_neg empty]
    apply ended
    split
    · exact fun mem => out (List.mem_of_mem_tail mem)
    · exact out

theorem cleanedCopy_eq {path : Str} (noNull : '\x00' ∉ path) :
    cleanedCopy path = some (cleanUpPathNameSlashes path) := by
  obtain ⟨cells, clean, text⟩ := cleanUpPathNameCells_ok noNull []
  rw [cleanedCopy, clean]
  exact text

/-- The cells hold what the split of whole texts gives. -/
theorem splitPathNameCells_eq {inPath : Str} (noNull : '\x00' ∉ inPath) :
    splitPathNameCells inPath = some (splitPathName inPath) := by
  have rest : '\x00' ∉ (splitVolumeAndFilename inPath).2 := by
    rw [splitVolumeAndFilename]
    split
    · exact noNull
    · rename_i filename behind
      have inside := (List.dropWhile_sublist (l := inPath) (· ≠ ':')).subset
      rw [behind] at inside
      exact fun mem => noNull (inside (List.mem_cons_of_mem _ mem))
  have name : '\x00' ∉ (cleanUpPathNameSlashes (splitVolumeAndFilename inPath).2).drop
      (findPath (cleanUpPathNameSlashes (splitVolumeAndFilename inPath).2)).length :=
    fun mem => cleanUpPathNameSlashes_noNull rest (List.mem_of_mem_drop mem)
  rw [splitPathNameCells, splitAtColon_eq]
  dsimp only
  rw [cleanedCopy_eq rest, Option.bind_eq_bind, Option.bind_some, pathOnly_eq, cleanedCopy_eq name]
  rfl

/-! ### The parts -/

/-- What is behind the first colon, or the path where there is none. -/
def behindColon (path : Str) : Str := if ':' ∈ path then (path.dropWhile (· ≠ ':')).tail else path

/-- Two parts with a backslash between them. -/
def joined : Option Str → Option Str → Str
  | some directory, some filename => directory ++ '\\' :: filename
  | directory, filename => directory.getD [] ++ filename.getD []

structure PartsOf (path : Str) (parts : PathParts) : Prop where
  volume : parts.volName = if ':' ∈ path then some (path.takeWhile (· ≠ ':')) else none
  joined : cleanedCopy (behindColon path) = some (joined parts.path parts.filename)
  name : ∀ filename ∈ parts.filename, '\\' ∈ filename → filename = ['\\']

theorem splitVolumeAndFilename_eq (path : Str) :
    splitVolumeAndFilename path =
      (if ':' ∈ path then some (path.takeWhile (· ≠ ':')) else none, behindColon path) := by
  rw [splitVolumeAndFilename, behindColon]
  by_cases colon : ':' ∈ path
  · rw [if_pos colon, if_pos colon]
    cases behind : path.dropWhile (· ≠ ':') with
    | nil =>
      have all := List.dropWhile_eq_nil_iff.mp behind ':' colon
      exact absurd rfl (of_decide_eq_true all)
    | cons c filename => rfl
  · have behind : path.dropWhile (· ≠ ':') = [] :=
      List.dropWhile_eq_nil_iff.mpr fun c mem => decide_eq_true fun same => colon (same ▸ mem)
    rw [if_neg colon, if_neg colon, behind]

theorem cleanUpPathNameSlashes_slash {name : Str} (present : name ≠ []) :
    cleanUpPathNameSlashes ('\\' :: name) = cleanUpPathNameSlashes name := by
  have loop : cleanLoop [] ('\\' :: name) = cleanLoop [] name :=
    @cleanLoop_pass [] ['\\'] name (List.forall_mem_singleton.mpr rfl) (Or.inl rfl)
  rw [cleanUpPathNameSlashes, if_neg (List.cons_ne_nil _ _), loop, cleanUpPathNameSlashes, if_neg present]

theorem joined_name {filename : Str} : joined none (unlessEmpty filename) = filename := by
  rw [unlessEmpty]
  split
  · rename_i empty
    exact (List.length_eq_zero_iff.mp empty).symm
  · rfl

theorem unlessEmpty_some {text : Str} (present : text ≠ []) : unlessEmpty text = some text :=
  if_neg (mt List.length_eq_zero_iff.mp present)

/-- The two parts of a clean path. -/
theorem CleanPath.joined {path : Str} (h : CleanPath path) :
    let filename := cleanUpPathNameSlashes (path.drop (findPath path).length)
    Storage.joined (unlessEmpty (findPath path)) (unlessEmpty filename) = path ∧
      ('\\' ∈ filename → filename = ['\\']) := by
  dsimp only
  by_cases mem : '\\' ∈ path
  · obtain ⟨dir, name, rfl, none⟩ := exists_last mem
    rw [findPath_last none, List.drop_left]
    rcases h.ends with root | ⟨start, last⟩
    · obtain ⟨rfl, _, rfl⟩ : dir = [] ∧ True ∧ name = [] := by
        cases dir with
        | nil => exact ⟨rfl, trivial, (List.cons.inj root).2⟩
        | cons c dir =>
          have rest := (List.cons.inj root).2
          exact absurd rest (List.append_ne_nil_of_right_ne_nil dir (List.cons_ne_nil _ _))
      exact ⟨rfl, fun _ => rfl⟩
    · have dirSome : dir ≠ [] := by
        rintro rfl
        exact start rfl
      have nameSome : name ≠ [] := by
        rintro rfl
        exact last (List.getLast?_concat ..)
      have inside : name <:+: dir ++ '\\' :: name := (List.suffix_append_of_suffix (List.suffix_cons _ _)).isInfix
      have clean : CleanPath name := by
        refine ⟨fun slash => h.noSlash (inside.subset slash), fun inner => h.single (inner.trans inside),
          Or.inr ⟨?_, ?_⟩⟩
        · exact fun first => none (List.mem_of_head? first)
        · exact fun final => none (List.mem_of_getLast? final)
      rw [cleanUpPathNameSlashes_slash nameSome, clean.fixed, unlessEmpty_some dirSome, unlessEmpty_some nameSome]
      exact ⟨rfl, fun backslash => absurd backslash none⟩
  · rw [findPath_none mem, List.length_nil, List.drop_zero, h.fixed]
    exact ⟨joined_name, fun backslash => absurd backslash mem⟩

theorem splitPathName_parts {path : Str} (noNull : '\x00' ∉ path) : PartsOf path (splitPathName path) := by
  have split := splitVolumeAndFilename_eq path
  have rest : '\x00' ∉ behindColon path := by
    rw [behindColon]
    split
    · exact fun mem => noNull ((List.dropWhile_sublist _).subset (List.mem_of_mem_tail mem))
    · exact noNull
  obtain ⟨clean, _⟩ := cleanUpPathNameSlashes_clean (behindColon path)
  obtain ⟨whole, name⟩ := clean.joined
  refine ⟨?_, ?_, ?_⟩
  · rw [splitPathName, split]
  · rw [splitPathName, split, cleanedCopy_eq rest]
    exact congrArg some whole.symm
  · intro filename given backslash
    rw [splitPathName, split] at given
    dsimp only at given
    split at given
    · cases given
    · obtain rfl := Option.some.inj given
      exact name backslash

/-- A buffer that holds a string is the string, its null and what is behind. -/
theorem stringAt_some {cells : Cells} {text : Str} (h : stringAt cells 0 = some text) :
    ∃ slack, cells = text ++ '\x00' :: slack ∧ '\x00' ∉ text := by
  rw [stringAt, List.drop_zero] at h
  split at h
  · rename_i ends
    obtain rfl := Option.some.inj h
    obtain ⟨text, slack, rfl, first⟩ := List.eq_append_cons_of_mem ends
    have each : ∀ c ∈ text, decide (c ≠ '\x00') = true :=
      fun c mem => decide_eq_true fun same => first (same ▸ mem)
    refine ⟨slack, ?_, ?_⟩
    · rw [List.takeWhile_append_of_pos each, List.takeWhile_cons_of_neg (by decide), List.append_nil]
    · rwa [List.takeWhile_append_of_pos each, List.takeWhile_cons_of_neg (by decide), List.append_nil]
  · cases h

/-- The buffer of a path is cleaned, without an access outside of it, to a clean path with the same components,
and cleaned again that stays; and a path is split into its volume and the two parts of its clean rest. -/
theorem pathNames_right {path : Str} (noNull : '\x00' ∉ path) (slack : Str) :
    (∃ cells cleaned, cleanUpPathNameCells (path ++ '\x00' :: slack) = some cells ∧
      stringAt cells 0 = some cleaned ∧ CleanPath cleaned ∧ components cleaned = components path ∧
      ∃ again, cleanUpPathNameCells cells = some again ∧ stringAt again 0 = some cleaned) ∧
    ∃ parts, splitPathNameCells path = some parts ∧ PartsOf path parts := by
  refine ⟨?_, splitPathName path, splitPathNameCells_eq noNull, splitPathName_parts noNull⟩
  obtain ⟨cells, run, text⟩ := cleanUpPathNameCells_ok noNull slack
  obtain ⟨clean, kept⟩ := cleanUpPathNameSlashes_clean path
  obtain ⟨left, rfl, noNull'⟩ := stringAt_some text
  obtain ⟨again, rerun, text'⟩ := cleanUpPathNameCells_ok noNull' left
  rw [clean.fixed] at text'
  exact ⟨_, _, run, text, clean, kept, again, rerun, text'⟩

theorem pathNames_right_volume :
    ∃ parts, splitPathNameCells "EFI:/efi//boot\\x.efi/".toList = some parts ∧
      PartsOf "EFI:/efi//boot\\x.efi/".toList parts :=
  (pathNames_right (by decide) []).2

end Meridian.Storage
