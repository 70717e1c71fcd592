import Meridian.Config.TokenCells
import Meridian.Discovery.DontScan

/-!
# Path names

`CleanUpPathNameSlashes` of `lib/lib.c` as it works on the cells of a buffer, in place and with a position
to read and one to write, and `SplitVolumeAndFilename`, `FindPath` and `SplitPathName` of
`storage/file_io.c` over it. A read or a write past the cells has no result. Allocations succeed.
-/

namespace Meridian.Storage

open Text Config Discovery

/-! ### Cleaning in place -/

/-- The buffer, with the positions `Source` and `Dest`. -/
structure PathClean where
  cells : Cells
  source : Nat
  dest : Nat
  deriving DecidableEq, Repr

/-- `do Source++; while`, for so many rounds at most. -/
def passSlashes (cells : Cells) : Nat → Nat → Option Nat
  | 0, _ => none
  | rounds + 1, source => do
    let c ← cells[source + 1]?
    if isSlash c then passSlashes cells rounds (source + 1) else some (source + 1)

/-- The outer loop, for so many rounds at most. -/
def cleanCells : Nat → PathClean → Option PathClean
  | 0, _ => none
  | rounds + 1, s => do
    let c ← s.cells[s.source]?
    if c = '\x00' then some s
    else if isSlash c then
      if s.dest = 0 then cleanCells rounds { s with source := s.source + 1 }
      else
        let cells ← putCell s.cells s.dest '\\'
        let source ← passSlashes cells cells.length s.source
        cleanCells rounds { cells := cells, source := source, dest := s.dest + 1 }
    else
      let cells ← putCell s.cells s.dest c
      cleanCells rounds { cells := cells, source := s.source + 1, dest := s.dest + 1 }

/-- `if ((Dest > 0) && (PathName[Dest - 1] == L'\\')) Dest--;` -/
def withoutTrail (s : PathClean) : Option Nat :=
  if s.dest = 0 then some 0
  else do
    let last ← s.cells[s.dest - 1]?
    some (if last = '\\' then s.dest - 1 else s.dest)

/-- The string is ended, and the root is written where nothing is left. -/
def endPath (cells : Cells) (dest : Nat) : Option Cells := do
  let cells ← putCell cells dest '\x00'
  let first ← cells[0]?
  if first = '\x00' then
    let cells ← putCell cells 0 '\\'
    putCell cells 1 '\x00'
  else some cells

/-- `CleanUpPathNameSlashes`, on the buffer. -/
def cleanUpPathNameCells (cells : Cells) : Option Cells := do
  let first ← cells[0]?
  if first = '\x00' then some cells
  else
    let s ← cleanCells cells.length { cells := cells, source := 0, dest := 0 }
    let dest ← withoutTrail s
    endPath s.cells dest

/-! ### Splitting -/

/-- `CleanUpPathNameSlashes`, on a copy that `StrDuplicate` made. -/
def cleanedCopy (path : Str) : Option Str := do
  let cells ← cleanUpPathNameCells (path ++ ['\x00'])
  stringAt cells 0

/-- `while ((i < Length) && ((*Path)[i] != L':')) i++;` -/
def colonFrom (path : Str) (i : Nat) : Nat :=
  if i < path.length ∧ path[i]? ≠ some ':' then colonFrom path (i + 1) else i
termination_by path.length - i

/-- `SplitVolumeAndFilename`: the volume, and what is left of the path. -/
def splitAtColon (path : Str) : Option Str × Str :=
  let i := colonFrom path 0
  if i ≥ path.length then (none, path) else (some (path.take i), path.drop (i + 1))

/-- The loop of `FindPath`. -/
def lastBackslash (fullPath : Str) (last i : Nat) : Nat :=
  if i < fullPath.length then
    lastBackslash fullPath (if fullPath[i]? = some '\\' then i else last) (i + 1)
  else last
termination_by fullPath.length - i

def pathOnly (fullPath : Str) : Str := fullPath.take (lastBackslash fullPath 0 0)

/-- A string, or null where it is empty. -/
def unlessEmpty (text : Str) : Option Str := if text.length = 0 then none else some text

/-- `SplitPathName`. -/
def splitPathNameCells (inPath : Str) : Option PathParts := do
  let (volName, rest) := splitAtColon inPath
  let temp ← cleanedCopy rest
  let path := pathOnly temp
  let filename ← cleanedCopy (temp.drop path.length)
  some { volName := volName, path := unlessEmpty path, filename := unlessEmpty filename }

/-! ### The cells hold the clean path -/

theorem passSlashes_ok {cells : Cells} {slashes rest : Str} (all : ∀ c ∈ slashes, isSlash c = true)
    (stops : ∀ c ∈ rest.head?, isSlash c = false) (more : rest ≠ []) {source rounds : Nat}
    (here : cells.drop (source + 1) = slashes ++ rest) (enough : slashes.length < rounds) :
    passSlashes cells rounds source = some (source + 1 + slashes.length) := by
  induction slashes generalizing source rounds with
  | nil =>
    obtain ⟨rounds, rfl⟩ : ∃ n, rounds = n + 1 := ⟨rounds - 1, by rw [List.length_nil] at enough; omega⟩
    obtain ⟨c, rest, rfl⟩ := List.exists_cons_of_ne_nil more
    have read : cells[source + 1]? = some c := by
      rw [← List.head?_drop, here]
      rfl
    rw [passSlashes, read, Option.bind_eq_bind, Option.bind_some, stops c rfl, if_neg Bool.false_ne_true]
    rfl
  | cons d slashes ih =>
    rw [List.length_cons] at enough ⊢
    obtain ⟨rounds, rfl⟩ : ∃ n, rounds = n + 1 := ⟨rounds - 1, by omega⟩
    have read : cells[source + 1]? = some d := by
      rw [← List.head?_drop, here]
      rfl
    have next : cells.drop (source + 1 + 1) = slashes ++ rest := by
      rw [← List.drop_drop, here]
      rfl
    rw [passSlashes, read, Option.bind_eq_bind, Option.bind_some, all d List.mem_cons_self, if_pos rfl,
      ih (fun c mem => all c (List.mem_cons_of_mem d mem)) next (by omega)]
    congr 1
    omega

/-- A write behind what was written, with cells between the two positions. -/
theorem putCell_gap (done gap rest : Str) (c d : Char) :
    ∃ gap', gap'.length = gap.length ∧ putCell (done ++ (gap ++ c :: rest)) done.length d =
      some ((done ++ [d]) ++ (gap' ++ rest)) := by
  cases gap with
  | nil =>
    refine ⟨[], rfl, ?_⟩
    rw [List.nil_append, putCell_here, List.append_assoc]
    rfl
  | cons g gap =>
    refine ⟨gap ++ [c], ?_, ?_⟩
    · rw [List.length_append]
      rfl
    · rw [List.cons_append, putCell_here, List.append_assoc, List.append_assoc]
      rfl

theorem cleanLoop_pass {out slashes rest : Str} (all : ∀ c ∈ slashes, isSlash c = true)
    (skips : out = [] ∨ out.head? = some '\\') : cleanLoop out (slashes ++ rest) = cleanLoop out rest := by
  induction slashes with
  | nil => rfl
  | cons c slashes ih =>
    rw [List.cons_append, cleanLoop, all c List.mem_cons_self, if_pos rfl, if_pos skips,
      ih fun d mem => all d (List.mem_cons_of_mem c mem)]

/-- The cells when the loop has written the path that `cleanLoop` gives, and the cells it has left behind. -/
def Cleaned (slack : Str) (total : Nat) (out : Str) (s : PathClean) : Prop :=
  ∃ gap, s = { cells := out.reverse ++ (gap ++ '\x00' :: slack), source := total, dest := out.length } ∧
    out.length + gap.length = total

theorem cleanCells_ok {rounds source : Nat} {done gap rest slack : Str} (place : source = done.length + gap.length)
    (noNull : '\x00' ∉ rest) (enough : rest.length < rounds)
    (separated : done.getLast? = some '\\' → ∀ c ∈ rest.head?, isSlash c = false) :
    ∃ s, cleanCells rounds ⟨done ++ (gap ++ (rest ++ '\x00' :: slack)), source, done.length⟩ = some s ∧
      Cleaned slack (source + rest.length) (cleanLoop done.reverse rest) s := by
  induction rounds generalizing source done gap rest with
  | zero => omega
  | succ rounds ih =>
    have cell (c : Char) (later : Str) : (done ++ (gap ++ c :: later))[source]? = some c := by
      rw [← List.append_assoc, place, ← List.length_append]
      exact cell_here (done ++ gap) c later
    cases rest with
    | nil =>
      refine ⟨_, ?_, gap, rfl, ?_⟩
      · rw [cleanCells]
        dsimp only
        rw [List.nil_append, cell, Option.bind_eq_bind, Option.bind_some, if_pos rfl, cleanLoop,
          List.reverse_reverse, List.length_reverse]
        rfl
      · rw [cleanLoop, List.length_reverse]
        exact place.symm
    | cons c rest =>
      have notNull : c ≠ '\x00' := fun same => noNull (same ▸ List.mem_cons_self)
      have noNull' : '\x00' ∉ rest := fun mem => noNull (List.mem_cons_of_mem c mem)
      have total : source + (c :: rest).length = source + 1 + rest.length := by
        rw [List.length_cons]
        omega
      rw [List.length_cons] at enough
      rw [cleanCells]
      dsimp only
      rw [List.cons_append, cell, Option.bind_eq_bind, Option.bind_some, if_neg notNull, cleanLoop, total]
      cases slash : isSlash c with
      | true =>
        rw [if_pos rfl, if_pos rfl]
        rcases eq_or_ne done [] with rfl | present
        · -- A slash at the start is passed over, and its cell is left behind.
          have place' : source + 1 = ([] : Str).length + (gap ++ [c]).length := by
            rw [place, List.length_append, List.length_singleton, Nat.add_assoc]
          obtain ⟨s, loop, written⟩ := ih place' noNull' (by omega) (by rintro ⟨⟩)
          rw [List.append_assoc] at loop
          rw [if_pos List.length_nil, if_pos (Or.inl List.reverse_nil)]
          exact ⟨s, loop, written⟩
        · -- A backslash is written, and the slashes behind it are passed over.
          obtain ⟨gap', same, put⟩ := putCell_gap done gap (rest ++ '\x00' :: slack) c '\\'
          have kept : ¬(done.reverse = [] ∨ done.reverse.head? = some '\\') := by
            rintro (none | trail)
            · exact present (List.reverse_eq_nil_iff.mp none)
            · rw [List.head?_reverse] at trail
              have plain := separated trail c rfl
              rw [slash] at plain
              cases plain
          have whole := List.takeWhile_append_dropWhile (p := isSlash) (l := rest)
          have all : ∀ e ∈ rest.takeWhile isSlash, isSlash e = true := fun e mem => List.mem_takeWhile_imp mem
          have stops : ∀ e ∈ (rest.dropWhile isSlash).head?, isSlash e = false := by
            intro e first
            have found := List.head?_dropWhile_not isSlash rest
            rw [Option.mem_def.mp first] at found
            exact found
          generalize rest.takeWhile isSlash = slashes at whole all
          generalize rest.dropWhile isSlash = later at whole stops
          subst whole
          rw [List.length_append] at enough ⊢
          have size : (done ++ ['\\']).length = done.length + 1 := List.length_append
          have behind : (done ++ ['\\'] ++ (gap' ++ (slashes ++ later ++ '\x00' :: slack))).drop (source + 1) =
              slashes ++ (later ++ '\x00' :: slack) := by
            rw [← List.append_assoc (done ++ ['\\']) gap', List.append_assoc slashes]
            apply List.drop_left'
            rw [List.length_append]
            omega
          have noStop : ∀ e ∈ (later ++ '\x00' :: slack).head?, isSlash e = false := by
            intro e first
            cases later with
            | nil =>
              obtain rfl := Option.some.inj first
              rfl
            | cons f later => exact stops e first
          have long :
              slashes.length < (done ++ ['\\'] ++ (gap' ++ (slashes ++ later ++ '\x00' :: slack))).length := by
            simp only [List.length_append, List.length_cons]
            omega
          have passed := passSlashes_ok all noStop
            (List.append_ne_nil_of_right_ne_nil _ (List.cons_ne_nil _ _)) behind long
          have place' : source + 1 + slashes.length = (done ++ ['\\']).length + (gap' ++ slashes).length := by
            rw [size, List.length_append]
            omega
          obtain ⟨s, loop, written⟩ :=
            ih place' (fun mem => noNull' (List.mem_append_right slashes mem)) (by omega)
            fun _ => stops
          rw [if_neg (mt List.length_eq_zero_iff.mp present), put, Option.bind_eq_bind, Option.bind_some, passed,
            Option.bind_eq_bind, Option.bind_some, if_neg kept, cleanLoop_pass all (Or.inr rfl),
            ← Nat.add_assoc (source + 1),
            List.append_assoc slashes]
          rw [List.reverse_append] at written
          rw [size, List.append_assoc gap' slashes] at loop
          exact ⟨s, loop, written⟩
      | false =>
        rw [if_neg Bool.false_ne_true, if_neg Bool.false_ne_true]
        obtain ⟨gap', same, put⟩ := putCell_gap done gap (rest ++ '\x00' :: slack) c c
        have notTrail : (done ++ [c]).getLast? = some '\\' → ∀ d ∈ rest.head?, isSlash d = false := by
          intro last
          rw [List.getLast?_append_of_ne_nil _ (List.cons_ne_nil c [])] at last
          obtain rfl := Option.some.inj last
          cases slash
        have size : (done ++ [c]).length = done.length + 1 := List.length_append
        have place' : source + 1 = (done ++ [c]).length + gap'.length := by omega
        obtain ⟨s, loop, written⟩ := ih place' noNull' (by omega) notTrail
        rw [put, Option.bind_eq_bind, Option.bind_some]
        rw [List.reverse_append] at written
        rw [size] at loop
        exact ⟨s, loop, written⟩

theorem endPath_ok {text rest : Str} (noNull : '\x00' ∉ text) (more : rest ≠ [])
    (room : 2 ≤ text.length + rest.length) :
    ∃ cells, endPath (text ++ rest) text.length = some cells ∧
      stringAt cells 0 = some (if text = [] then ['\\'] else text) := by
  obtain ⟨c, rest, rfl⟩ := List.exists_cons_of_ne_nil more
  rw [endPath, putCell_here, Option.bind_eq_bind, Option.bind_some]
  cases text with
  | nil =>
    obtain ⟨d, rest, rfl⟩ : ∃ d later, rest = d :: later :=
      List.exists_cons_of_ne_nil fun none => by
        rw [none] at room
        contradiction
    exact ⟨'\\' :: '\x00' :: rest, rfl, @stringAt_here [] ['\\'] (by decide) rest⟩
  | cons e text =>
    have first : e ≠ '\x00' := fun same => noNull (same ▸ List.mem_cons_self)
    refine ⟨e :: text ++ '\x00' :: rest, ?_, ?_⟩
    · exact if_neg first
    · rw [if_neg (List.cons_ne_nil e text)]
      exact stringAt_here [] noNull rest

theorem cleanLoop_noNull {out path : Str} (noNull : '\x00' ∉ path) (noNullOut : '\x00' ∉ out) :
    '\x00' ∉ cleanLoop out path := by
  induction path generalizing out with
  | nil => exact noNullOut
  | cons c path ih =>
    have later : '\x00' ∉ path := fun mem => noNull (List.mem_cons_of_mem c mem)
    rw [cleanLoop]
    split
    · split
      · exact ih later noNullOut
      · exact ih later (List.not_mem_cons_of_ne_of_not_mem (by decide) noNullOut)
    · have other : '\x00' ≠ c := fun same => noNull (same ▸ List.mem_cons_self)
      exact ih later (List.not_mem_cons_of_ne_of_not_mem other noNullOut)

theorem withoutTrail_ok {out gap slack : Str} {total : Nat} (noNull : '\x00' ∉ out)
    (room : 1 ≤ out.length + gap.length) :
    ∃ dest cells, withoutTrail ⟨out.reverse ++ (gap ++ '\x00' :: slack), total, out.length⟩ = some dest ∧
      endPath (out.reverse ++ (gap ++ '\x00' :: slack)) dest = some cells ∧
      stringAt cells 0 =
        some (if (if out.head? = some '\\' then out.tail else out) = [] then ['\\']
          else (if out.head? = some '\\' then out.tail else out).reverse) := by
  have more : gap ++ '\x00' :: slack ≠ [] := List.append_ne_nil_of_right_ne_nil gap (List.cons_ne_nil _ _)
  have size : (gap ++ '\x00' :: slack).length = gap.length + slack.length + 1 := List.length_append
  cases out with
  | nil =>
    rw [List.length_nil] at room
    obtain ⟨cells, ended, text⟩ := @endPath_ok [] _ List.not_mem_nil more (by rw [List.length_nil]; omega)
    exact ⟨0, cells, rfl, ended, text⟩
  | cons x out =>
    have noNull' : '\x00' ∉ out := fun mem => noNull (List.mem_cons_of_mem x mem)
    have split : (x :: out).reverse ++ (gap ++ '\x00' :: slack) =
        out.reverse ++ x :: (gap ++ '\x00' :: slack) := by
      rw [List.reverse_cons, List.append_assoc]
      rfl
    have last : ((x :: out).reverse ++ (gap ++ '\x00' :: slack))[(x :: out).length - 1]? = some x := by
      rw [split, List.length_cons, Nat.add_sub_cancel, ← List.length_reverse]
      exact cell_here out.reverse x _
    have present : (x :: out).length ≠ 0 := Nat.succ_ne_zero out.length
    rw [withoutTrail]
    dsimp only
    rw [if_neg present, last, Option.bind_eq_bind, Option.bind_some, List.head?_cons]
    by_cases trail : x = '\\'
    · obtain ⟨cells, ended, text⟩ := @endPath_ok out.reverse (x :: (gap ++ '\x00' :: slack))
        (fun mem => noNull' (List.mem_reverse.mp mem)) (List.cons_ne_nil _ _) (by rw [List.length_cons]; omega)
      rw [List.length_reverse] at ended
      rw [if_pos trail, if_pos (congrArg some trail), split]
      refine ⟨out.length, cells, rfl, ended, ?_⟩
      rw [text, List.tail_cons]
      simp only [List.reverse_eq_nil_iff]
    · obtain ⟨cells, ended, text⟩ := @endPath_ok (x :: out).reverse _
        (fun mem => noNull (List.mem_reverse.mp mem)) more (by rw [List.length_reverse, List.length_cons]; omega)
      rw [List.length_reverse] at ended
      rw [if_neg trail, if_neg fun same => trail (Option.some.inj same)]
      refine ⟨_, cells, rfl, ended, ?_⟩
      rw [text]
      simp only [List.reverse_eq_nil_iff]

/-- In a buffer that holds a path, no access leaves the buffer, and the clean path is left in it. -/
theorem cleanUpPathNameCells_ok {path : Str} (noNull : '\x00' ∉ path) (slack : Str) :
    ∃ cells, cleanUpPathNameCells (path ++ '\x00' :: slack) = some cells ∧
      stringAt cells 0 = some (cleanUpPathNameSlashes path) := by
  cases path with
  | nil => exact ⟨'\x00' :: slack, rfl, @stringAt_here [] [] List.not_mem_nil slack⟩
  | cons c path =>
    have first : c ≠ '\x00' := fun same => noNull (same ▸ List.mem_cons_self)
    have enough : (c :: path).length < (c :: path ++ '\x00' :: slack).length := by
      rw [List.length_append, List.length_cons (a := '\x00')]
      omega
    have place : 0 = ([] : Str).length + ([] : Str).length := rfl
    obtain ⟨s, loop, gap, rfl, total⟩ := @cleanCells_ok _ _ _ _ _ slack place noNull enough (by rintro ⟨⟩)
    have outNoNull := @cleanLoop_noNull [] _ noNull List.not_mem_nil
    rw [List.reverse_nil] at loop total
    rw [List.nil_append, List.nil_append, List.length_nil] at loop
    have room : 1 ≤ (cleanLoop [] (c :: path)).length + gap.length := by
      rw [total, List.length_cons]
      omega
    obtain ⟨dest, cells, trail, ended, text⟩ := @withoutTrail_ok _ _ slack (0 + (c :: path).length)
      outNoNull room
    refine ⟨cells, ?_, ?_⟩
    · rw [cleanUpPathNameCells, List.cons_append]
      dsimp only [List.getElem?_cons_zero, Option.bind_eq_bind, Option.bind_some]
      rw [if_neg first]
      rw [List.cons_append] at loop
      rw [loop]
      dsimp only [Option.bind_some]
      rw [trail]
      exact ended
    · rw [text, cleanUpPathNameSlashes, if_neg (List.cons_ne_nil c path)]

end Meridian.Storage
