import Meridian.Config.Tokens
import Mathlib.Data.List.TakeWhile

/-!
# The line that is read in place

`ReadTokenLine` of `config/config_file.c` and `KeepReading` of `config/config_handlers.c` as they work on
the cells of a line's buffer, up to the terminating null. A read or a write past it has no result. Allocations
succeed; a copy by `StrCpyS` is made unless the library refuses the size of its destination, and nobody looks
at its status.
-/

namespace Meridian.Config

open Text

abbrev Cells := List Char

/-- The string at the pointer. -/
def stringAt (cells : Cells) (p : Nat) : Option Str :=
  if '\x00' ∈ cells.drop p then some ((cells.drop p).takeWhile (· ≠ '\x00')) else none

def putCell (cells : Cells) (p : Nat) (c : Char) : Option Cells :=
  if p < cells.length then some (cells.set p c) else none

/-- `StrCpyS`, for a source that is a string of its own. -/
def strCpyS (copies : Nat → Bool) (cells : Cells) (dest destMax : Nat) (source : Str) : Option Cells :=
  if copies destMax && source.length < destMax then
    if dest + source.length < cells.length then
      some (cells.take dest ++ (source ++ '\x00' :: cells.drop (dest + source.length + 1)))
    else none
  else some cells

/-- `KeepReading`: its answer, the quoting, and the cells. -/
def keepReadingAt (copies : Nat → Bool) (cells : Cells) (p : Nat) (isQuoted : Bool) :
    Option (Bool × Bool × Cells) := do
  let c ← cells[p]?
  if c = '\x00' then some (false, isQuoted, cells)
  else if c = '"' then
    let next ← cells[p + 1]?
    if next ≠ '"' then some (false, !isQuoted, cells)
    else
      let temp ← stringAt cells (p + 1)
      let inString ← stringAt cells p
      let cells ← strCpyS copies cells p (inString.length + 1) temp
      some (true, isQuoted, cells)
  else some (isQuoted || !(isBetween c || c = '#'), isQuoted, cells)

/-- `while (KeepReading(p, &IsQuoted))`: the quoting, the cells and the pointer behind it. -/
def tokenLoopAt (copies : Nat → Bool) : Nat → Cells → Nat → Bool → Option (Bool × Cells × Nat)
  | 0, _, _, _ => none
  | fuel + 1, cells, p, isQuoted => do
    let (more, isQuoted, cells) ← keepReadingAt copies cells p isQuoted
    if more then
      let c ← cells[p]?
      let cells ← if c = '/' && !isQuoted then putCell cells p '\\' else some cells
      tokenLoopAt copies fuel cells (p + 1) isQuoted
    else some (isQuoted, cells, p)

/-- The pointer behind what is between tokens. -/
def skipAt (cells : Cells) : Nat → Nat → Option Nat
  | 0, _ => none
  | fuel + 1, p => do
    let c ← cells[p]?
    if isBetween c then skipAt cells fuel (p + 1) else some p

def startAt (cells : Cells) (p : Nat) (isQuoted : Bool) : Option Nat :=
  if isQuoted then some p else skipAt cells (cells.length + 1) p

/-- The loop over one line: its tokens, and the quoting behind them. -/
def lineLoopAt (copies : Nat → Bool) : Nat → Cells → Nat → Bool → Option (List Str × Bool)
  | 0, _, _, _ => none
  | fuel + 1, cells, p, isQuoted => do
    let p ← startAt cells p isQuoted
    let c ← cells[p]?
    if c = '\x00' || c = '#' then some ([], isQuoted)
    else
      let (isQuoted, p) := if c = '"' then (!isQuoted, p + 1) else (isQuoted, p)
      let token := p
      let (isQuoted, cells, p) ← tokenLoopAt copies (cells.length + 1) cells p isQuoted
      let c ← cells[p]?
      let lineFinished := c = '\x00' || c = '#'
      let cells ← putCell cells p '\x00'
      let text ← stringAt cells token
      if lineFinished then some ([text], isQuoted)
      else
        let (tokens, isQuoted) ← lineLoopAt copies fuel cells (p + 1) isQuoted
        some (text :: tokens, isQuoted)

/-- The loop over a line that was read into a buffer. -/
def lineAt (copies : Nat → Bool) (isQuoted : Bool) (line : Str) : Option (List Str × Bool) :=
  let cells := cString line ++ ['\x00']
  lineLoopAt copies (cells.length + 1) cells 0 isQuoted

example : lineAt (fun _ => true) false "a=\"b \"\"c\"\"\" /d # e".toList =
    some ([['a'], "b \"c\"".toList, "\\d".toList], false) := by decide +kernel

/-! ### The line as a text -/

/-- What is read of a token. The first of two quotes goes only where the copy is made. -/
def tokenLoopWith (copies : Nat → Bool) (isQuoted : Bool) : Str → TokenRead
  | [] => { token := [], isQuoted := isQuoted, buffer := [] }
  | c :: rest =>
    if c = '"' then
      match rest with
      | [] => { token := [], isQuoted := !isQuoted, buffer := [c] }
      | d :: more =>
        if d ≠ '"' then { token := [], isQuoted := !isQuoted, buffer := c :: d :: more }
        else if copies (more.length + 3) then (tokenLoopWith copies isQuoted more).cons '"'
        else (tokenLoopWith copies isQuoted (d :: more)).cons '"'
    else if isQuoted then (tokenLoopWith copies isQuoted rest).cons c
    else if isBetween c || c = '#' then { token := [], isQuoted := isQuoted, buffer := c :: rest }
    else (tokenLoopWith copies isQuoted rest).cons (unquotedChar c)

theorem tokenLoopWith_length (copies : Nat → Bool) (isQuoted : Bool) (buffer : Str) :
    (tokenLoopWith copies isQuoted buffer).buffer.length ≤ buffer.length := by
  fun_induction tokenLoopWith copies isQuoted buffer with
  | case1 => exact Nat.le_refl 0
  | case2 => exact Nat.le_refl 1
  | case3 => exact Nat.le_refl _
  | case4 _ more _ _ ih => exact Nat.le_trans ih (Nat.le_add_right _ 2)
  | case5 _ more _ _ ih => exact Nat.le_succ_of_le ih
  | case6 c rest _ _ ih => exact Nat.le_succ_of_le ih
  | case7 => exact Nat.le_refl _
  | case8 c rest _ _ _ ih => exact Nat.le_succ_of_le ih

/-- Where the copies are made, the quotes are read as the program means them. -/
theorem tokenLoopWith_eq {copies : Nat → Bool} (isQuoted : Bool) {buffer : Str}
    (made : ∀ size ≤ buffer.length + 1, copies size = true) :
    tokenLoopWith copies isQuoted buffer = tokenLoop isQuoted buffer := by
  fun_induction tokenLoopWith copies isQuoted buffer with
  | case1 => exact (tokenLoop_nil isQuoted).symm
  | case2 => exact (@tokenLoop_quote isQuoted [] (by decide)).symm
  | case3 d more single =>
    have other : (d :: more).head? ≠ some '"' := fun same => single (Option.some.inj same)
    exact (tokenLoop_quote isQuoted other).symm
  | case4 d more double _ ih =>
    obtain rfl := not_not.mp double
    rw [tokenLoop_double, ih fun size le => made size (Nat.le_add_right_of_le (Nat.le_add_right_of_le le))]
  | case5 d more _ refused => exact absurd (made (more.length + 3) (Nat.le_refl _)) refused
  | case6 c rest other quoted ih =>
    rw [quoted, tokenLoop_quoted other, ← quoted, ih fun size le => made size (Nat.le_add_right_of_le le)]
  | case7 c rest other unquoted stops =>
    rw [Bool.eq_false_iff.mpr unquoted, tokenLoop_stop other stops]
  | case8 c rest other unquoted inside ih =>
    have plain := Bool.eq_false_iff.mpr unquoted
    rw [plain] at ih ⊢
    rw [tokenLoop_plain other (Bool.eq_false_iff.mpr inside),
      ih fun size le => made size (Nat.le_add_right_of_le le)]

def nextTokenWith (copies : Nat → Bool) (isQuoted : Bool) (buffer : Str) : TokenRead :=
  tokenLoopWith copies (openToken isQuoted buffer).1 (openToken isQuoted buffer).2

theorem nextTokenWith_length (copies : Nat → Bool) (isQuoted : Bool) (buffer : Str) :
    (nextTokenWith copies isQuoted buffer).buffer.length ≤ buffer.length :=
  Nat.le_trans (tokenLoopWith_length _ _ _) (openToken_length _ _)

theorem rest_lt {copies : Nat → Bool} {isQuoted : Bool} {buffer : Str}
    (goesOn : ¬atLineEnd (nextTokenWith copies isQuoted (skipBetween isQuoted buffer)).buffer = true) :
    (nextTokenWith copies isQuoted (skipBetween isQuoted buffer)).buffer.tail.length < buffer.length := by
  have skipped := skipBetween_length isQuoted buffer
  have read := nextTokenWith_length copies isQuoted (skipBetween isQuoted buffer)
  have rest : 0 < (nextTokenWith copies isQuoted (skipBetween isQuoted buffer)).buffer.length := by
    apply List.length_pos_iff.mpr
    intro empty
    exact goesOn (by rw [empty]; rfl)
  rw [List.length_tail]
  omega

/-- The tokens of a line, and the quoting behind them. -/
def lineLoopWith (copies : Nat → Bool) (isQuoted : Bool) (buffer : Str) : List Str × Bool :=
  let start := skipBetween isQuoted buffer
  if atLineEnd start then ([], isQuoted)
  else
    let found := nextTokenWith copies isQuoted start
    if _ends : atLineEnd found.buffer = true then ([found.token], found.isQuoted)
    else
      let later := lineLoopWith copies found.isQuoted found.buffer.tail
      (found.token :: later.1, later.2)
termination_by buffer.length
decreasing_by exact rest_lt _ends

theorem lineLoopWith_eq {copies : Nat → Bool} (isQuoted : Bool) (buffer : Str)
    (made : ∀ size ≤ buffer.length + 1, copies size = true) :
    lineLoopWith copies isQuoted buffer = lineLoop isQuoted buffer := by
  have next : ∀ {isQuoted : Bool} {buffer : Str}, (∀ size ≤ buffer.length + 1, copies size = true) →
      nextTokenWith copies isQuoted (skipBetween isQuoted buffer) =
        nextToken isQuoted (skipBetween isQuoted buffer) := by
    intro isQuoted buffer made
    refine tokenLoopWith_eq _ fun size le => made size (Nat.le_trans le (Nat.succ_le_succ ?_))
    exact Nat.le_trans (openToken_length _ _) (skipBetween_length _ _)
  fun_induction lineLoopWith copies isQuoted buffer with
  | case1 isQuoted buffer start ends =>
    rw [lineLoop]
    exact (if_pos ends).symm
  | case2 isQuoted buffer start more found ends =>
    have same : found = nextToken isQuoted start := next made
    rw [same] at ends ⊢
    conv_rhs =>
      rw [lineLoop, if_neg more]
      dsimp only
      rw [dif_pos ends]
  | case3 isQuoted buffer start more found goesOn later ih =>
    have same : found = nextToken isQuoted start := next made
    have rest : later = lineLoop found.isQuoted found.buffer.tail :=
      ih fun size le => made size (Nat.le_trans le (Nat.succ_le_succ (Nat.le_of_lt (rest_lt goesOn))))
    rw [rest, same]
    rw [same] at goesOn
    conv_rhs =>
      rw [lineLoop, if_neg more]
      dsimp only
      rw [dif_neg goesOn]

/-! ### The cells hold the text -/

section
variable (copies : Nat → Bool) (before : Str)

theorem cell_here (c : Char) (rest : Cells) : (before ++ c :: rest)[before.length]? = some c := by
  rw [List.getElem?_append_right (Nat.le_refl _), Nat.sub_self]
  rfl

theorem cell_next (c d : Char) (rest : Cells) : (before ++ c :: d :: rest)[before.length + 1]? = some d := by
  rw [List.getElem?_append_right (Nat.le_add_right _ _), Nat.add_sub_cancel_left]
  rfl

theorem putCell_here (c d : Char) (rest : Cells) :
    putCell (before ++ c :: rest) before.length d = some (before ++ d :: rest) := by
  have inside : before.length < (before ++ c :: rest).length := by
    rw [List.length_append, List.length_cons]
    omega
  rw [putCell, if_pos inside, List.set_append_right _ _ (Nat.le_refl _), Nat.sub_self]
  rfl

theorem stringAt_drop {cells : Cells} {p : Nat} {text : Str} {junk : Cells}
    (here : cells.drop p = text ++ '\x00' :: junk) (noNull : '\x00' ∉ text) : stringAt cells p = some text := by
  have ends : '\x00' ∈ text ++ '\x00' :: junk := List.mem_append_right text List.mem_cons_self
  have whole : (text ++ '\x00' :: junk).takeWhile (· ≠ '\x00') = text := by
    have each : ∀ c ∈ text, decide (c ≠ '\x00') = true := by
      intro c mem
      refine decide_eq_true ?_
      rintro rfl
      exact noNull mem
    rw [List.takeWhile_append_of_pos each, List.takeWhile_cons_of_neg (by decide), List.append_nil]
  rw [stringAt, here, if_pos ends, whole]

theorem stringAt_here {text : Str} (noNull : '\x00' ∉ text) (junk : Cells) :
    stringAt (before ++ (text ++ '\x00' :: junk)) before.length = some text :=
  stringAt_drop (List.drop_left' rfl) noNull

theorem keepReadingAt_end (isQuoted : Bool) (junk : Cells) :
    keepReadingAt copies (before ++ '\x00' :: junk) before.length isQuoted =
      some (false, isQuoted, before ++ '\x00' :: junk) := by
  rw [keepReadingAt, cell_here]
  rfl

theorem keepReadingAt_other {c : Char} (notNull : c ≠ '\x00') (other : c ≠ '"') (isQuoted : Bool) (rest : Cells) :
    keepReadingAt copies (before ++ c :: rest) before.length isQuoted =
      some (isQuoted || !(isBetween c || c = '#'), isQuoted, before ++ c :: rest) := by
  rw [keepReadingAt, cell_here]
  dsimp only [Option.bind_eq_bind, Option.bind_some]
  rw [if_neg notNull, if_neg other]

theorem keepReadingAt_quote {d : Char} (single : d ≠ '"') (isQuoted : Bool) (rest : Cells) :
    keepReadingAt copies (before ++ '"' :: d :: rest) before.length isQuoted =
      some (false, !isQuoted, before ++ '"' :: d :: rest) := by
  rw [keepReadingAt, cell_here]
  dsimp only [Option.bind_eq_bind, Option.bind_some]
  rw [if_neg (by decide), if_pos rfl, cell_next]
  dsimp only [Option.bind_some]
  rw [if_pos single]

/-- Two quotes: what follows moves on over the first one, if the copy is made. -/
theorem keepReadingAt_double {more : Str} (noNull : '\x00' ∉ more) (isQuoted : Bool) (junk : Cells) :
    ∃ junk', keepReadingAt copies (before ++ '"' :: '"' :: (more ++ '\x00' :: junk)) before.length isQuoted =
      some (true, isQuoted, before ++ '"' ::
        ((if copies (more.length + 3) then more else '"' :: more) ++ '\x00' :: junk')) := by
  have noNullNext : '\x00' ∉ '"' :: more := List.not_mem_cons_of_ne_of_not_mem (by decide) noNull
  have noNullAll : '\x00' ∉ '"' :: '"' :: more := List.not_mem_cons_of_ne_of_not_mem (by decide) noNullNext
  have inString : stringAt (before ++ '"' :: '"' :: (more ++ '\x00' :: junk)) before.length =
      some ('"' :: '"' :: more) := stringAt_here before noNullAll junk
  have temp : stringAt (before ++ '"' :: '"' :: (more ++ '\x00' :: junk)) (before.length + 1) =
      some ('"' :: more) := by
    refine @stringAt_drop _ _ _ junk ?_ noNullNext
    rw [← List.drop_drop, List.drop_left' rfl]
    rfl
  rw [keepReadingAt, cell_here]
  dsimp only [Option.bind_eq_bind, Option.bind_some]
  rw [if_neg (by decide), if_pos rfl, cell_next]
  dsimp only [Option.bind_some]
  rw [if_neg (not_not.mpr rfl), temp]
  dsimp only [Option.bind_some]
  rw [inString]
  dsimp only [Option.bind_some]
  rw [strCpyS]
  have fits : ('"' :: more).length < ('"' :: '"' :: more).length + 1 := by
    rw [List.length_cons, List.length_cons, List.length_cons]
    omega
  have size : ('"' :: '"' :: more).length + 1 = more.length + 3 := rfl
  rw [decide_eq_true fits, Bool.and_true, size]
  cases copies (more.length + 3) with
  | false => exact ⟨junk, rfl⟩
  | true =>
    have inside : before.length + ('"' :: more).length <
        (before ++ '"' :: '"' :: (more ++ '\x00' :: junk)).length := by
      simp only [List.length_append, List.length_cons]
      omega
    have left : (before ++ '"' :: '"' :: (more ++ '\x00' :: junk)).drop
        (before.length + ('"' :: more).length + 1) = '\x00' :: junk := by
      rw [Nat.add_assoc, ← List.drop_drop, List.drop_left' rfl]
      have behind : ('"' :: '"' :: more ++ '\x00' :: junk).drop ('"' :: '"' :: more).length = '\x00' :: junk :=
        List.drop_left' rfl
      exact behind
    refine ⟨'\x00' :: junk, ?_⟩
    rw [if_pos rfl, if_pos inside, List.take_left' rfl, left]
    rfl

/-- The loop over a token ends within the string, with this token and what follows it. -/
def ReadsToken (fuel : Nat) (cells : Cells) (isQuoted : Bool) (read : TokenRead) : Prop :=
  ∃ junk, tokenLoopAt copies fuel cells before.length isQuoted =
    some (read.isQuoted, before ++ read.token ++ (read.buffer ++ '\x00' :: junk), (before ++ read.token).length)

variable {copies before}

theorem readsToken_cons {fuel : Nat} {cells rest : Cells} {isQuoted quoted : Bool} {c d : Char}
    (kept : keepReadingAt copies cells before.length isQuoted = some (true, quoted, before ++ c :: rest))
    (stored : (if c = '/' && !quoted then '\\' else c) = d) {read : TokenRead}
    (later : ReadsToken copies (before ++ [d]) fuel (before ++ [d] ++ rest) quoted read) :
    ReadsToken copies before (fuel + 1) cells isQuoted (read.cons d) := by
  obtain ⟨junk, later⟩ := later
  refine ⟨junk, ?_⟩
  have next : tokenLoopAt copies (fuel + 1) cells before.length isQuoted =
      tokenLoopAt copies fuel (before ++ [d] ++ rest) (before ++ [d]).length quoted := by
    rw [tokenLoopAt, kept, ← stored]
    dsimp only [Option.bind_eq_bind, Option.bind_some]
    rw [if_pos rfl, cell_here]
    dsimp only [Option.bind_some]
    rw [List.append_assoc, List.length_append]
    split
    · rw [putCell_here]
      rfl
    · rfl
  rw [next, later, TokenRead.cons]
  dsimp only
  rw [List.append_assoc before, List.singleton_append]

theorem readsToken_stop {fuel : Nat} {cells junk : Cells} {isQuoted quoted : Bool} {buffer : Str}
    (kept : keepReadingAt copies cells before.length isQuoted =
      some (false, quoted, before ++ (buffer ++ '\x00' :: junk))) :
    ReadsToken copies before (fuel + 1) cells isQuoted { token := [], isQuoted := quoted, buffer := buffer } := by
  refine ⟨junk, ?_⟩
  rw [tokenLoopAt, kept, List.append_nil]
  rfl

end

theorem fuel_left {c : Char} {rest : Str} {fuel : Nat} (enough : (c :: rest).length ≤ fuel) :
    ∃ less, fuel = less + 1 ∧ rest.length ≤ less := by
  rw [List.length_cons] at enough
  exact ⟨fuel - 1, by omega, by omega⟩

theorem tokenLoopAt_eq (copies : Nat → Bool) (isQuoted : Bool) {buffer : Str} (noNull : '\x00' ∉ buffer)
    {fuel : Nat} (enough : buffer.length ≤ fuel) (before : Str) (junk : Cells) :
    ReadsToken copies before (fuel + 1) (before ++ (buffer ++ '\x00' :: junk)) isQuoted
      (tokenLoopWith copies isQuoted buffer) := by
  fun_induction tokenLoopWith copies isQuoted buffer generalizing fuel before junk with
  | case1 => exact readsToken_stop (keepReadingAt_end copies before isQuoted junk)
  | case2 =>
    have kept := keepReadingAt_quote copies before (show '\x00' ≠ '"' by decide) isQuoted junk
    exact @readsToken_stop _ _ _ _ _ _ _ ['"'] kept
  | case3 d more single =>
    have kept := keepReadingAt_quote copies before single isQuoted (more ++ '\x00' :: junk)
    exact @readsToken_stop _ _ _ _ _ _ _ ('"' :: d :: more) kept
  | case4 d more double made ih =>
    obtain rfl := not_not.mp double
    have later := List.not_mem_of_not_mem_cons (List.not_mem_of_not_mem_cons noNull)
    obtain ⟨junk', kept⟩ := keepReadingAt_double copies before later isQuoted junk
    rw [if_pos made] at kept
    obtain ⟨fuel, rfl, left⟩ := fuel_left enough
    exact readsToken_cons kept rfl (ih later (Nat.le_of_succ_le left) (before ++ ['"']) junk')
  | case5 d more double refused ih =>
    obtain rfl := not_not.mp double
    have next := List.not_mem_of_not_mem_cons noNull
    obtain ⟨junk', kept⟩ :=
      keepReadingAt_double copies before (List.not_mem_of_not_mem_cons next) isQuoted junk
    rw [if_neg refused] at kept
    obtain ⟨fuel, rfl, left⟩ := fuel_left enough
    exact readsToken_cons kept rfl (ih next left (before ++ ['"']) junk')
  | case6 c rest other quoted ih =>
    obtain ⟨fuel, rfl, left⟩ := fuel_left enough
    have kept := keepReadingAt_other copies before (Ne.symm (List.ne_of_not_mem_cons noNull)) other isQuoted
      (rest ++ '\x00' :: junk)
    rw [quoted, Bool.true_or] at kept
    rw [quoted] at ih ⊢
    refine readsToken_cons kept ?_ (ih (List.not_mem_of_not_mem_cons noNull) left (before ++ [c]) junk)
    rw [Bool.not_true, Bool.and_false]
    rfl
  | case7 c rest other unquoted stops =>
    have kept := keepReadingAt_other copies before (Ne.symm (List.ne_of_not_mem_cons noNull)) other isQuoted
      (rest ++ '\x00' :: junk)
    rw [Bool.eq_false_iff.mpr unquoted, stops] at kept
    rw [Bool.eq_false_iff.mpr unquoted]
    exact @readsToken_stop _ _ _ _ _ _ _ (c :: rest) kept
  | case8 c rest other unquoted inside ih =>
    obtain ⟨fuel, rfl, left⟩ := fuel_left enough
    have kept := keepReadingAt_other copies before (Ne.symm (List.ne_of_not_mem_cons noNull)) other isQuoted
      (rest ++ '\x00' :: junk)
    rw [Bool.eq_false_iff.mpr inside, Bool.not_false, Bool.or_true] at kept
    rw [Bool.eq_false_iff.mpr unquoted] at kept ih ⊢
    have later := ih (List.not_mem_of_not_mem_cons noNull) left (before ++ [unquotedChar c]) junk
    refine readsToken_cons kept ?_ later
    rw [unquotedChar, Bool.not_false, Bool.and_true]
    simp only [decide_eq_true_eq]

/-! ### A whole line -/

theorem tokenLoopWith_all {P : Char → Prop} (slash : P '\\') (copies : Nat → Bool) (isQuoted : Bool) {buffer : Str}
    (all : ∀ c ∈ buffer, P c) :
    (∀ c ∈ (tokenLoopWith copies isQuoted buffer).token, P c) ∧
      ∀ c ∈ (tokenLoopWith copies isQuoted buffer).buffer, P c := by
  fun_induction tokenLoopWith copies isQuoted buffer with
  | case1 => exact ⟨all, all⟩
  | case2 => exact ⟨fun c mem => (nomatch mem), all⟩
  | case3 d more single => exact ⟨fun c mem => (nomatch mem), all⟩
  | case4 d more double made ih =>
    obtain ⟨quote, rest⟩ := List.forall_mem_cons.mp all
    obtain ⟨token, behind⟩ := ih (List.forall_mem_cons.mp rest).2
    exact ⟨List.forall_mem_cons.mpr ⟨quote, token⟩, behind⟩
  | case5 d more double refused ih =>
    obtain ⟨quote, rest⟩ := List.forall_mem_cons.mp all
    obtain ⟨token, behind⟩ := ih rest
    exact ⟨List.forall_mem_cons.mpr ⟨quote, token⟩, behind⟩
  | case6 c rest other quoted ih =>
    obtain ⟨first, rest⟩ := List.forall_mem_cons.mp all
    obtain ⟨token, behind⟩ := ih rest
    exact ⟨List.forall_mem_cons.mpr ⟨first, token⟩, behind⟩
  | case7 c rest other unquoted stops => exact ⟨fun c mem => (nomatch mem), all⟩
  | case8 c rest other unquoted inside ih =>
    obtain ⟨first, rest⟩ := List.forall_mem_cons.mp all
    obtain ⟨token, behind⟩ := ih rest
    refine ⟨List.forall_mem_cons.mpr ⟨?_, token⟩, behind⟩
    rw [unquotedChar]
    split
    · exact slash
    · exact first

section
variable (before : Str) {buffer : Str} (junk : Cells)

theorem cell_head : (before ++ (buffer ++ '\x00' :: junk))[before.length]? = some (buffer.headD '\x00') := by
  cases buffer with
  | nil => exact cell_here before _ _
  | cons c rest => exact cell_here before _ _

theorem lineEnd_head (noNull : '\x00' ∉ buffer) :
    (buffer.headD '\x00' = '\x00' || buffer.headD '\x00' = '#') = atLineEnd buffer := by
  cases buffer with
  | nil => rfl
  | cons c rest =>
    have other : c ≠ '\x00' := Ne.symm (List.ne_of_not_mem_cons noNull)
    rw [List.headD_cons, decide_eq_false other, Bool.false_or, atLineEnd, List.isEmpty_cons, Bool.false_or,
      List.head?_cons]
    exact decide_eq_decide.mpr (Option.some_inj).symm

/-- The token ends at the pointer. -/
theorem putCell_end : ∃ junk', putCell (before ++ (buffer ++ '\x00' :: junk)) before.length '\x00' =
    some (before ++ '\x00' :: (buffer.tail ++ junk')) ∧ (buffer ≠ [] → junk' = '\x00' :: junk) := by
  cases buffer with
  | nil => exact ⟨junk, putCell_here before _ _ _, fun some => absurd rfl some⟩
  | cons c rest => exact ⟨'\x00' :: junk, putCell_here before _ _ _, fun _ => rfl⟩

theorem skipAt_eq (noNull : '\x00' ∉ buffer) {fuel : Nat} (enough : buffer.length ≤ fuel) :
    skipAt (before ++ (buffer ++ '\x00' :: junk)) (fuel + 1) before.length =
      some (before ++ buffer.takeWhile isBetween).length := by
  induction buffer generalizing before fuel with
  | nil =>
    rw [skipAt, List.nil_append, cell_here, List.takeWhile_nil, List.append_nil]
    rfl
  | cons c rest ih =>
    rw [skipAt, List.cons_append, cell_here]
    dsimp only [Option.bind_eq_bind, Option.bind_some]
    split
    · rename_i between
      obtain ⟨fuel, rfl, left⟩ := fuel_left enough
      rw [List.takeWhile_cons_of_pos between]
      have later := ih (before ++ [c]) (List.not_mem_of_not_mem_cons noNull) left
      rw [List.append_assoc, List.append_assoc, List.length_append] at later
      exact later
    · rename_i stops
      rw [List.takeWhile_cons_of_neg stops, List.append_nil]

end

theorem startAt_eq (before : Str) {buffer : Str} (noNull : '\x00' ∉ buffer) (isQuoted : Bool) (junk : Cells) :
    ∃ passed, before ++ (buffer ++ '\x00' :: junk) = passed ++ (skipBetween isQuoted buffer ++ '\x00' :: junk) ∧
      startAt (before ++ (buffer ++ '\x00' :: junk)) before.length isQuoted = some passed.length := by
  cases isQuoted with
  | true => exact ⟨before, rfl, rfl⟩
  | false =>
    have enough : buffer.length ≤ (before ++ (buffer ++ '\x00' :: junk)).length := by
      rw [List.length_append, List.length_append]
      omega
    refine ⟨before ++ buffer.takeWhile isBetween, ?_, skipAt_eq before junk noNull enough⟩
    have cut : buffer = buffer.takeWhile isBetween ++ skipBetween false buffer :=
      List.takeWhile_append_dropWhile.symm
    conv_lhs => rw [cut]
    rw [List.append_assoc, List.append_assoc]

theorem openToken_subset (isQuoted : Bool) (buffer : Str) : (openToken isQuoted buffer).2 ⊆ buffer := by
  cases buffer with
  | nil => exact List.Subset.refl _
  | cons c rest =>
    rw [openToken]
    split
    · exact List.subset_cons_self c rest
    · exact List.Subset.refl _

theorem opened_at (passed start : Str) (isQuoted : Bool) (junk : Cells) :
    ∃ before, passed ++ (start ++ '\x00' :: junk) = before ++ ((openToken isQuoted start).2 ++ '\x00' :: junk) ∧
      (if start.headD '\x00' = '"' then (!isQuoted, passed.length + 1) else (isQuoted, passed.length)) =
        ((openToken isQuoted start).1, before.length) := by
  cases start with
  | nil => exact ⟨passed, rfl, rfl⟩
  | cons c rest =>
    rw [List.headD_cons, openToken]
    split
    · refine ⟨passed ++ [c], ?_, ?_⟩
      · rw [List.append_assoc]
        rfl
      · rw [List.length_append]
        rfl
    · exact ⟨passed, rfl, rfl⟩

/-- Every line is read to its end, and within its buffer. -/
theorem lineLoopAt_eq (copies : Nat → Bool) (isQuoted : Bool) {buffer : Str} (noNull : '\x00' ∉ buffer)
    {fuel : Nat} (enough : buffer.length ≤ fuel) (before : Str) (junk : Cells) :
    lineLoopAt copies (fuel + 1) (before ++ (buffer ++ '\x00' :: junk)) before.length isQuoted =
      some (lineLoopWith copies isQuoted buffer) := by
  induction h : buffer.length using Nat.strongRecOn generalizing isQuoted buffer fuel before junk with
  | ind n ih =>
    subst h
    obtain ⟨passed, cells, started⟩ := startAt_eq before noNull isQuoted junk
    have noNullStart : '\x00' ∉ skipBetween isQuoted buffer := fun mem =>
      noNull (skipBetween_all (P := (· ∈ buffer)) isQuoted (fun c => id) _ mem)
    have noNullOpened : '\x00' ∉ (openToken isQuoted (skipBetween isQuoted buffer)).2 := fun mem =>
      noNullStart (openToken_subset isQuoted _ mem)
    rw [lineLoopAt, started, cells]
    dsimp only [Option.bind_eq_bind, Option.bind_some]
    rw [cell_head]
    dsimp only [Option.bind_some]
    rw [lineEnd_head noNullStart, lineLoopWith]
    by_cases ends : atLineEnd (skipBetween isQuoted buffer) = true
    · rw [if_pos ends, if_pos ends]
    rw [if_neg ends, if_neg ends]
    obtain ⟨start, cells, opened⟩ := opened_at passed (skipBetween isQuoted buffer) isQuoted junk
    rw [opened, cells]
    dsimp only
    have room : (openToken isQuoted (skipBetween isQuoted buffer)).2.length ≤
        (start ++ ((openToken isQuoted (skipBetween isQuoted buffer)).2 ++ '\x00' :: junk)).length := by
      rw [List.length_append, List.length_append]
      omega
    obtain ⟨junk', token⟩ := tokenLoopAt_eq copies (openToken isQuoted (skipBetween isQuoted buffer)).1
      noNullOpened room start junk
    rw [token, ← nextTokenWith]
    set found := nextTokenWith copies isQuoted (skipBetween isQuoted buffer) with foundEq
    have other : ∀ c ∈ (openToken isQuoted (skipBetween isQuoted buffer)).2, c ≠ '\x00' := by
      rintro c mem rfl
      exact noNullOpened mem
    obtain ⟨tokenChars, restChars⟩ := tokenLoopWith_all (by decide) copies
      (openToken isQuoted (skipBetween isQuoted buffer)).1 other
    have noNullToken : '\x00' ∉ found.token := fun mem => tokenChars _ mem rfl
    have noNullRest : '\x00' ∉ found.buffer := fun mem => restChars _ mem rfl
    obtain ⟨left, put, leftEq⟩ := @putCell_end (start ++ found.token) found.buffer junk'
    dsimp only [Option.bind_some]
    rw [cell_head]
    dsimp only [Option.bind_some]
    rw [put]
    dsimp only [Option.bind_some]
    have text : stringAt (start ++ found.token ++ '\x00' :: (found.buffer.tail ++ left)) start.length =
        some found.token := by
      rw [List.append_assoc]
      exact stringAt_here start noNullToken _
    rw [text]
    dsimp only [Option.bind_some]
    rw [lineEnd_head noNullRest]
    by_cases finished : atLineEnd found.buffer = true
    · rw [if_pos finished, dif_pos finished]
    rw [if_neg finished, dif_neg finished]
    have some : found.buffer ≠ [] := by
      intro empty
      exact finished (by rw [empty]; rfl)
    have shorter : found.buffer.tail.length < buffer.length := rest_lt finished
    obtain ⟨fuel, rfl⟩ : ∃ less, fuel = less + 1 := ⟨fuel - 1, by omega⟩
    have later := ih _ shorter found.isQuoted (fun mem => noNullRest (List.mem_of_mem_tail mem))
      (Nat.le_of_lt_succ (Nat.lt_of_lt_of_le shorter enough)) (start ++ found.token ++ ['\x00']) junk' rfl
    have same : start ++ found.token ++ ['\x00'] ++ (found.buffer.tail ++ '\x00' :: junk') =
        start ++ found.token ++ '\x00' :: (found.buffer.tail ++ '\x00' :: junk') := List.append_assoc ..
    have place : (start ++ found.token ++ ['\x00']).length = (start ++ found.token).length + 1 :=
      List.length_append ..
    rw [same, place] at later
    rw [leftEq some, later]
    rfl

theorem lineAt_eq (copies : Nat → Bool) (isQuoted : Bool) (line : Str) :
    lineAt copies isQuoted line = some (lineLoopWith copies isQuoted (cString line)) := by
  have noNull : '\x00' ∉ cString line := by
    intro mem
    have notNull := List.mem_takeWhile_imp (p := fun c => decide (c ≠ '\x00')) mem
    exact of_decide_eq_true notNull rfl
  have room : (cString line).length ≤ (cString line ++ ['\x00']).length := by
    rw [List.length_append]
    omega
  exact lineLoopAt_eq copies isQuoted noNull room [] []

end Meridian.Config
