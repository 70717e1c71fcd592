import Meridian.Text
import Mathlib.Data.List.Basic

/-!
# The tokens of a line

The model of `ReadTokenLine` and of the macros of `config/config_file.c`, and of `KeepReading` of
`config/config_handlers.c`. A file is the lines that `ReadLine` gives of it. A buffer is what it holds
from the pointer on, up to the terminating null. Allocations and copies succeed.
-/

namespace Meridian.Config

open Text

/-! ### Tokens -/

/-- The characters between tokens. -/
def isBetween (c : Char) : Bool := c = ' ' || c = '\t' || c = '=' || c = ','

/-- What a read leaves: its characters, the quoting, and the buffer from the pointer on. -/
structure TokenRead where
  token : Str
  isQuoted : Bool
  buffer : Str
  deriving DecidableEq, Repr

/-- `KeepReading`: its answer, the quoting, and the buffer. The first of two quotes is overwritten with
what follows it. -/
def keepReading (isQuoted : Bool) : Str → Bool × Bool × Str
  | [] => (false, isQuoted, [])
  | c :: rest =>
    if c = '"' then
      if rest.head? ≠ some '"' then (false, !isQuoted, c :: rest) else (true, isQuoted, rest)
    else (isQuoted || !(isBetween c || c = '#'), isQuoted, c :: rest)

theorem keepReading_length (isQuoted : Bool) (buffer : Str) :
    (keepReading isQuoted buffer).2.2.length ≤ buffer.length := by
  cases buffer with
  | nil => exact Nat.le_refl 0
  | cons c rest =>
    rw [keepReading]
    split
    · split
      · exact Nat.le_refl _
      · exact Nat.le_succ _
    · exact Nat.le_refl _

theorem keepReading_tail {isQuoted : Bool} {buffer : Str}
    (more : (keepReading isQuoted buffer).1 = true) :
    (keepReading isQuoted buffer).2.2.tail.length < buffer.length := by
  have kept := keepReading_length isQuoted buffer
  cases buffer with
  | nil => cases more
  | cons c rest =>
    rw [List.length_tail]
    rw [List.length_cons] at kept ⊢
    omega

/-- The loop that reads one token. -/
def tokenLoop (isQuoted : Bool) (buffer : Str) : TokenRead :=
  let kept := keepReading isQuoted buffer
  if _more : kept.1 = true then
    let p := kept.2.2.headD '\x00'
    let found := tokenLoop kept.2.1 kept.2.2.tail
    { found with token := (if p = '/' && !kept.2.1 then '\\' else p) :: found.token }
  else { token := [], isQuoted := kept.2.1, buffer := kept.2.2 }
termination_by buffer.length
decreasing_by exact keepReading_tail _more

theorem tokenLoop_length (isQuoted : Bool) (buffer : Str) :
    (tokenLoop isQuoted buffer).buffer.length ≤ buffer.length := by
  fun_induction tokenLoop isQuoted buffer with
  | case1 isQuoted buffer kept more p found ih =>
    exact Nat.le_trans ih (Nat.le_of_lt (keepReading_tail more))
  | case2 isQuoted buffer kept stops => exact keepReading_length isQuoted buffer

/-- A quote before a token is passed over. -/
def openToken (isQuoted : Bool) : Str → Bool × Str
  | [] => (isQuoted, [])
  | c :: rest => if c = '"' then (!isQuoted, rest) else (isQuoted, c :: rest)

theorem openToken_length (isQuoted : Bool) (buffer : Str) :
    (openToken isQuoted buffer).2.length ≤ buffer.length := by
  cases buffer with
  | nil => exact Nat.le_refl 0
  | cons c rest =>
    rw [openToken]
    split
    · exact Nat.le_succ _
    · exact Nat.le_refl _

/-- The token at the pointer. -/
def nextToken (isQuoted : Bool) (buffer : Str) : TokenRead :=
  tokenLoop (openToken isQuoted buffer).1 (openToken isQuoted buffer).2

theorem nextToken_length (isQuoted : Bool) (buffer : Str) :
    (nextToken isQuoted buffer).buffer.length ≤ buffer.length :=
  Nat.le_trans (tokenLoop_length _ _) (openToken_length _ _)

/-- Where a token starts: behind what is between tokens. -/
def skipBetween (isQuoted : Bool) (buffer : Str) : Str :=
  if isQuoted then buffer else buffer.dropWhile isBetween

theorem skipBetween_length (isQuoted : Bool) (buffer : Str) :
    (skipBetween isQuoted buffer).length ≤ buffer.length := by
  rw [skipBetween]
  split
  · exact Nat.le_refl _
  · exact (List.dropWhile_sublist _).length_le

/-- The line ends at the pointer, or a comment starts there. -/
def atLineEnd (buffer : Str) : Bool := buffer.isEmpty || buffer.head? = some '#'

/-- The loop over one line: its tokens, and the quoting behind them. -/
def lineLoop (isQuoted : Bool) (buffer : Str) : List Str × Bool :=
  let start := skipBetween isQuoted buffer
  if atLineEnd start then ([], isQuoted)
  else
    let found := nextToken isQuoted start
    if _ends : atLineEnd found.buffer = true then ([found.token], found.isQuoted)
    else
      let later := lineLoop found.isQuoted found.buffer.tail
      (found.token :: later.1, later.2)
termination_by buffer.length
decreasing_by
  have skipped := skipBetween_length isQuoted buffer
  have read := nextToken_length isQuoted (skipBetween isQuoted buffer)
  have rest : 0 < (nextToken isQuoted (skipBetween isQuoted buffer)).buffer.length := by
    apply List.length_pos_iff.mpr
    intro empty
    exact _ends (by dsimp only [found, start]; rw [empty]; rfl)
  rw [List.length_tail]
  omega

/-! ### Characters of a token -/

def TokenRead.cons (c : Char) (read : TokenRead) : TokenRead := { read with token := c :: read.token }

/-- A slash outside quotes becomes a backslash. -/
def unquotedChar (c : Char) : Char := if c = '/' then '\\' else c

theorem tokenLoop_nil (isQuoted : Bool) : tokenLoop isQuoted [] = ⟨[], isQuoted, []⟩ := by
  rw [tokenLoop]
  rfl

theorem tokenLoop_double (isQuoted : Bool) (rest : Str) :
    tokenLoop isQuoted ('"' :: '"' :: rest) = (tokenLoop isQuoted rest).cons '"' := by
  rw [tokenLoop]
  rfl

theorem tokenLoop_quote (isQuoted : Bool) {rest : Str} (single : rest.head? ≠ some '"') :
    tokenLoop isQuoted ('"' :: rest) = ⟨[], !isQuoted, '"' :: rest⟩ := by
  have kept : keepReading isQuoted ('"' :: rest) = (false, !isQuoted, '"' :: rest) := by
    rw [keepReading, if_pos rfl, if_pos single]
  rw [tokenLoop, kept]
  rfl

theorem tokenLoop_quoted {c : Char} (other : c ≠ '"') (rest : Str) :
    tokenLoop true (c :: rest) = (tokenLoop true rest).cons c := by
  have kept : keepReading true (c :: rest) = (true, true, c :: rest) := by
    rw [keepReading, if_neg other, Bool.true_or]
  rw [tokenLoop, kept]
  dsimp only
  rw [dif_pos rfl, Bool.not_true, Bool.and_false, if_neg Bool.false_ne_true]
  rfl

theorem tokenLoop_stop {c : Char} (other : c ≠ '"') (stops : (isBetween c || c = '#') = true) (rest : Str) :
    tokenLoop false (c :: rest) = ⟨[], false, c :: rest⟩ := by
  have kept : keepReading false (c :: rest) = (false, false, c :: rest) := by
    rw [keepReading, if_neg other, stops]
    rfl
  rw [tokenLoop, kept]
  rfl

theorem tokenLoop_plain {c : Char} (other : c ≠ '"') (inside : (isBetween c || c = '#') = false) (rest : Str) :
    tokenLoop false (c :: rest) = (tokenLoop false rest).cons (unquotedChar c) := by
  have kept : keepReading false (c :: rest) = (true, false, c :: rest) := by
    rw [keepReading, if_neg other, inside]
    rfl
  rw [tokenLoop, kept]
  dsimp only
  rw [dif_pos rfl, Bool.not_false, Bool.and_true, unquotedChar]
  simp only [decide_eq_true_eq]
  rfl

/-! ### Tokens in quotes -/

/-- The text with every quote doubled. -/
def doubleQuotes (text : Str) : Str := text.flatMap fun c => if c = '"' then ['"', '"'] else [c]

theorem doubleQuotes_of_not_mem {text : Str} (none : '"' ∉ text) : doubleQuotes text = text := by
  induction text with
  | nil => rfl
  | cons c text ih =>
    obtain ⟨other, rest⟩ := not_or.mp (mt List.mem_cons.mpr none)
    rw [doubleQuotes, List.flatMap_cons, if_neg (Ne.symm other), ← doubleQuotes, ih rest]
    rfl

theorem tokenLoop_doubleQuotes (text : Str) {rest : Str} (single : rest.head? ≠ some '"') :
    tokenLoop true (doubleQuotes text ++ '"' :: rest) = ⟨text, false, '"' :: rest⟩ := by
  induction text with
  | nil => exact tokenLoop_quote true single
  | cons c text ih =>
    rw [doubleQuotes, List.flatMap_cons, ← doubleQuotes]
    by_cases quote : c = '"'
    · rw [if_pos quote, quote, List.append_assoc]
      exact (tokenLoop_double true _).trans (congrArg (TokenRead.cons '"') ih)
    · rw [if_neg quote, List.append_assoc]
      exact (tokenLoop_quoted quote _).trans (congrArg (TokenRead.cons c) ih)

def quoteToken (token : Str) : Str := '"' :: (doubleQuotes token ++ ['"'])

/-- A token in quotes is read back whole. -/
theorem lineLoop_quoteToken (token : Str) {rest : Str} (single : rest.head? ≠ some '"') :
    lineLoop false (quoteToken token ++ rest) = (token :: (lineLoop false rest).1, (lineLoop false rest).2) := by
  have start : skipBetween false (quoteToken token ++ rest) = quoteToken token ++ rest := rfl
  have found : nextToken false (quoteToken token ++ rest) = ⟨token, false, '"' :: rest⟩ := by
    rw [nextToken, quoteToken, List.cons_append, List.append_assoc, List.singleton_append]
    exact tokenLoop_doubleQuotes token single
  rw [lineLoop, start, found]
  rfl

theorem lineLoop_nil (isQuoted : Bool) : lineLoop isQuoted [] = ([], isQuoted) := by
  rw [lineLoop]
  cases isQuoted <;> rfl

theorem lineLoop_between {c : Char} (between : isBetween c = true) (rest : Str) :
    lineLoop false (c :: rest) = lineLoop false rest := by
  have skipped : skipBetween false (c :: rest) = skipBetween false rest := by
    rw [skipBetween, skipBetween, if_neg Bool.false_ne_true, if_neg Bool.false_ne_true,
      List.dropWhile_cons_of_pos between]
  rw [lineLoop, lineLoop, skipped]

/-! ### Lines without quotes -/

/-- The characters of a token that is read outside quotes. -/
def PlainChar (buffer : Str) (c : Char) : Prop :=
  isBetween c = false ∧ c ≠ '"' ∧ (c ∈ buffer ∨ c = '\\')

theorem PlainChar.mono {buffer line : Str} (sub : buffer ⊆ line) {c : Char} (h : PlainChar buffer c) :
    PlainChar line c :=
  ⟨h.1, h.2.1, h.2.2.imp (fun mem => sub mem) id⟩

theorem plainChar_unquoted {c : Char} (other : c ≠ '"') (inside : (isBetween c || c = '#') = false)
    (rest : Str) : PlainChar (c :: rest) (unquotedChar c) := by
  obtain ⟨between, -⟩ := Bool.or_eq_false_iff.mp inside
  rw [unquotedChar]
  split
  · exact ⟨by decide, by decide, Or.inr rfl⟩
  · exact ⟨between, other, Or.inl List.mem_cons_self⟩

theorem tokenLoop_noQuote {buffer : Str} (none : '"' ∉ buffer) :
    (tokenLoop false buffer).isQuoted = false ∧
      (∀ c ∈ (tokenLoop false buffer).token, PlainChar buffer c) ∧
      (tokenLoop false buffer).buffer <:+ buffer := by
  induction buffer with
  | nil =>
    rw [tokenLoop_nil]
    exact ⟨rfl, fun c mem => (nomatch mem), List.suffix_rfl⟩
  | cons c rest ih =>
    obtain ⟨other, later⟩ := not_or.mp (mt List.mem_cons.mpr none)
    cases stops : (isBetween c || c = '#') with
    | true =>
      rw [tokenLoop_stop (Ne.symm other) stops]
      exact ⟨rfl, fun c mem => (nomatch mem), List.suffix_rfl⟩
    | false =>
      obtain ⟨unquoted, chars, suffix⟩ := ih later
      rw [tokenLoop_plain (Ne.symm other) stops]
      refine ⟨unquoted, ?_, suffix.trans (List.suffix_cons c rest)⟩
      intro d mem
      rcases List.mem_cons.mp mem with rfl | mem
      · exact plainChar_unquoted (Ne.symm other) stops rest
      · exact (chars d mem).mono (List.subset_cons_self c rest)

theorem lineLoop_noQuote {buffer : Str} (none : '"' ∉ buffer) :
    (lineLoop false buffer).2 = false ∧
      ∀ token ∈ (lineLoop false buffer).1, ∀ c ∈ token, PlainChar buffer c := by
  induction h : buffer.length using Nat.strongRecOn generalizing buffer with
  | ind n ih =>
    subst h
    rw [lineLoop]
    set start := skipBetween false buffer with startEq
    have part : start <:+ buffer := List.dropWhile_suffix _
    split
    · exact ⟨rfl, fun token mem => (nomatch mem)⟩
    · rename_i more
      have noneStart : '"' ∉ start := fun mem => none (part.subset mem)
      have opened : nextToken false start = tokenLoop false start := by
        rw [nextToken]
        cases startIs : start with
        | nil => rfl
        | cons c rest =>
          have other : c ≠ '"' := by
            rintro rfl
            exact noneStart (startIs ▸ List.mem_cons_self)
          rw [openToken, if_neg other]
      obtain ⟨unquoted, chars, suffix⟩ := tokenLoop_noQuote noneStart
      rw [← opened] at unquoted chars suffix
      have here : ∀ c ∈ (nextToken false start).token, PlainChar buffer c :=
        fun c mem => (chars c mem).mono part.subset
      dsimp only
      split
      · refine ⟨unquoted, ?_⟩
        intro token mem
        rw [List.mem_singleton.mp mem]
        exact here
      · rename_i goesOn
        have rest : (nextToken false start).buffer ≠ [] := by
          intro empty
          exact goesOn (by rw [empty]; rfl)
        have later : (nextToken false start).buffer.tail <:+ buffer :=
          ((List.tail_suffix _).trans suffix).trans part
        have shorter : (nextToken false start).buffer.tail.length < buffer.length := by
          have whole := (suffix.trans part).length_le
          have positive := List.length_pos_iff.mpr rest
          rw [List.length_tail]
          omega
        obtain ⟨last, all⟩ := ih _ shorter (fun mem => none (later.subset mem)) rfl
        rw [unquoted]
        refine ⟨last, ?_⟩
        intro token mem
        rcases List.mem_cons.mp mem with rfl | mem
        · exact here
        · exact fun c inToken => (all token mem c inToken).mono later.subset

/-! ### Nothing is made up -/

theorem keepReading_subset (isQuoted : Bool) (buffer : Str) : (keepReading isQuoted buffer).2.2 ⊆ buffer := by
  cases buffer with
  | nil => exact List.Subset.refl _
  | cons c rest =>
    rw [keepReading]
    split
    · split
      · exact List.Subset.refl _
      · exact List.subset_cons_self c rest
    · exact List.Subset.refl _

theorem keepReading_head {isQuoted : Bool} {buffer : Str} (more : (keepReading isQuoted buffer).1 = true) :
    (keepReading isQuoted buffer).2.2.headD '\x00' ∈ (keepReading isQuoted buffer).2.2 := by
  cases buffer with
  | nil => cases more
  | cons c rest =>
    rw [keepReading] at more ⊢
    split
    · rename_i quote
      rw [if_pos quote] at more
      split
      · exact List.mem_cons_self
      · rename_i double
        obtain ⟨behind, rfl⟩ := List.head?_eq_some_iff.mp (not_not.mp double)
        exact List.mem_cons_self
    · exact List.mem_cons_self

/-- A token has no other characters than the buffer, beside the backslash. -/
theorem tokenLoop_all {P : Char → Prop} (slash : P '\\') (isQuoted : Bool) {buffer : Str}
    (all : ∀ c ∈ buffer, P c) :
    (∀ c ∈ (tokenLoop isQuoted buffer).token, P c) ∧ ∀ c ∈ (tokenLoop isQuoted buffer).buffer, P c := by
  induction h : buffer.length using Nat.strongRecOn generalizing isQuoted buffer with
  | ind n ih =>
    subst h
    have kept : ∀ c ∈ (keepReading isQuoted buffer).2.2, P c :=
      fun c mem => all c (keepReading_subset isQuoted buffer mem)
    rw [tokenLoop]
    split
    · rename_i more
      have rest : ∀ c ∈ (keepReading isQuoted buffer).2.2.tail, P c :=
        fun c mem => kept c (List.mem_of_mem_tail mem)
      obtain ⟨token, behind⟩ := ih _ (keepReading_tail more) (keepReading isQuoted buffer).2.1 rest rfl
      refine ⟨List.forall_mem_cons.mpr ⟨?_, token⟩, behind⟩
      split
      · exact slash
      · exact kept _ (keepReading_head more)
    · exact ⟨fun c mem => (nomatch mem), kept⟩

theorem nextToken_all {P : Char → Prop} (slash : P '\\') (isQuoted : Bool) {buffer : Str}
    (all : ∀ c ∈ buffer, P c) :
    (∀ c ∈ (nextToken isQuoted buffer).token, P c) ∧ ∀ c ∈ (nextToken isQuoted buffer).buffer, P c := by
  refine tokenLoop_all slash _ ?_
  cases buffer with
  | nil => exact all
  | cons c rest =>
    rw [openToken]
    split
    · exact (List.forall_mem_cons.mp all).2
    · exact all

theorem skipBetween_all {P : Char → Prop} (isQuoted : Bool) {buffer : Str} (all : ∀ c ∈ buffer, P c) :
    ∀ c ∈ skipBetween isQuoted buffer, P c := by
  rw [skipBetween]
  split
  · exact all
  · exact fun c mem => all c ((List.dropWhile_sublist _).subset mem)

theorem lineLoop_all {P : Char → Prop} (slash : P '\\') (isQuoted : Bool) (buffer : Str)
    (all : ∀ c ∈ buffer, P c) : ∀ token ∈ (lineLoop isQuoted buffer).1, ∀ c ∈ token, P c := by
  fun_induction lineLoop isQuoted buffer with
  | case1 isQuoted buffer start ends => exact fun token mem => (nomatch mem)
  | case2 isQuoted buffer start more found ends =>
    exact List.forall_mem_singleton.mpr (nextToken_all slash isQuoted (skipBetween_all isQuoted all)).1
  | case3 isQuoted buffer start more found goesOn later ih =>
    obtain ⟨token, behind⟩ := nextToken_all slash isQuoted (skipBetween_all isQuoted all)
    exact List.forall_mem_cons.mpr ⟨token, ih fun c mem => behind c (List.mem_of_mem_tail mem)⟩

/-! ### Macros -/

/-- The names that are defined by the build. -/
structure BuildNames where
  arch : Str
  fwType : Str

/-- `gMacroName` and `gMacroValue`. -/
abbrev Macros := List (Str × Str)

def maxMacros : Nat := 64

def lookupConfigMacro (build : BuildNames) (macros : Macros) (name : Str) : Option Str :=
  if equalsCI name "ARCH".toList then some build.arch
  else if equalsCI name "FW_TYPE".toList then some build.fwType
  else (macros.find? fun entry => equalsCI entry.1 name).map Prod.snd

def setConfigMacro : Macros → Str → Str → Macros
  | macros, name, value =>
    if macros.any fun entry => equalsCI entry.1 name then
      macros.modify (macros.findIdx fun entry => equalsCI entry.1 name) fun entry => (entry.1, value)
    else if macros.length ≥ maxMacros then macros
    else macros ++ [(name, value)]

def macroDefName (token : Str) : Option Str :=
  if token.length < 4 ∨ token[0]? ≠ some '$' ∨ token[1]? ≠ some '\x7b' ∨ token.getLast? ≠ some '\x7d' then
    none
  else some ((token.drop 2).take (token.length - 3))

theorem length_behind_brace (c : Char) (rest : Str) :
    (rest.tail.dropWhile (· ≠ '\x7d')).tail.length < (c :: rest).length := by
  have shorter := (List.dropWhile_sublist (l := rest.tail) (· ≠ '\x7d')).length_le
  simp only [List.length_tail, List.length_cons] at shorter ⊢
  omega

/-- The loop of `ExpandConfigMacros`: a name in braces behind a dollar sign gives its value. -/
def expandConfigMacros (build : BuildNames) (macros : Macros) : Str → Str
  | [] => []
  | c :: rest =>
    if c = '$' ∧ rest.head? = some '\x7b' then
      let name := rest.tail.takeWhile (· ≠ '\x7d')
      let stop := rest.tail.dropWhile (· ≠ '\x7d')
      if stop ≠ [] then
        (lookupConfigMacro build macros name).getD [] ++ expandConfigMacros build macros stop.tail
      else c :: expandConfigMacros build macros rest
    else c :: expandConfigMacros build macros rest
termination_by text => text.length
decreasing_by
  · exact length_behind_brace c rest
  · exact Nat.lt_succ_self _
  · exact Nat.lt_succ_self _

theorem expandConfigMacros_of_not_infix {build : BuildNames} {macros : Macros} {text : Str}
    (none : ¬ ['$', '\x7b'] <:+: text) : expandConfigMacros build macros text = text := by
  induction text with
  | nil => rw [expandConfigMacros]
  | cons c rest ih =>
    have here : ¬(c = '$' ∧ rest.head? = some '\x7b') := by
      rintro ⟨rfl, opens⟩
      obtain ⟨behind, rfl⟩ := List.head?_eq_some_iff.mp opens
      exact none ⟨[], behind, rfl⟩
    rw [expandConfigMacros, if_neg here, ih fun later => none (later.trans (List.suffix_cons c rest).isInfix)]

theorem expandConfigMacros_of_not_mem {build : BuildNames} {macros : Macros} {text : Str}
    (none : '$' ∉ text) : expandConfigMacros build macros text = text :=
  expandConfigMacros_of_not_infix fun inner => none (inner.subset List.mem_cons_self)

theorem macroDefName_of_not_mem {token : Str} (absent : '$' ∉ token) : macroDefName token = none := by
  have other : token[0]? ≠ some '$' := fun first => absent (List.mem_of_getElem? first)
  rw [macroDefName, if_pos (Or.inr (Or.inl other))]

/-! ### Lines of a file -/

/-- The string that is stored in the line's buffer. -/
def cString (line : Str) : Str := line.takeWhile (· ≠ '\x00')

/-- What reading a line does: the macros that it defines, the quoting behind it, and its tokens. -/
structure LineRead where
  macros : Macros
  isQuoted : Bool
  tokens : List Str
  deriving DecidableEq, Repr

/-- The body of the outer loop of `ReadTokenLine`. -/
def readTokens (build : BuildNames) (macros : Macros) (isQuoted : Bool) (line : Str) : LineRead :=
  let found := lineLoop isQuoted (cString line)
  match found.1 with
  | first :: second :: more =>
    match macroDefName first with
    | some name =>
      { macros := setConfigMacro macros name (expandConfigMacros build macros second)
        isQuoted := found.2
        tokens := [] }
    | none =>
      { macros := macros
        isQuoted := found.2
        tokens := (first :: second :: more).map (expandConfigMacros build macros) }
  | tokens =>
    { macros := macros, isQuoted := found.2, tokens := tokens.map (expandConfigMacros build macros) }

/-! ### Calls over lines -/

section
variable (body : Macros → Bool → Str → LineRead)

/-- A call that goes on until a line gives tokens. -/
def callBy (macros : Macros) (isQuoted : Bool) : List Str → Macros × List Str × List Str
  | [] => (macros, [], [])
  | line :: rest =>
    let read := body macros isQuoted line
    if read.tokens = [] then callBy read.macros read.isQuoted rest else (read.macros, read.tokens, rest)

variable {body} in
theorem callBy_length {macros : Macros} {isQuoted : Bool} {lines : List Str}
    (some : (callBy body macros isQuoted lines).2.1 ≠ []) :
    (callBy body macros isQuoted lines).2.2.length < lines.length := by
  induction lines generalizing macros isQuoted with
  | nil => exact absurd rfl some
  | cons line rest ih =>
    rw [callBy] at some ⊢
    split
    · rename_i none
      rw [if_pos none] at some
      exact Nat.lt_succ_of_lt (ih some)
    · exact Nat.lt_succ_self _

/-- Calls until one gives no tokens. -/
def callsBy (macros : Macros) (lines : List Str) : Macros × List (List Str) :=
  let call := callBy body macros false lines
  if _some : call.2.1 ≠ [] then
    let later := callsBy call.1 call.2.2
    (later.1, call.2.1 :: later.2)
  else (call.1, [])
termination_by lines.length
decreasing_by exact callBy_length _some

/-- What is read of each line. The quoting goes from a line without tokens to the next. -/
def readsBy (macros : Macros) (isQuoted : Bool) : List Str → List LineRead
  | [] => []
  | line :: rest =>
    let read := body macros isQuoted line
    read :: readsBy read.macros (decide (read.tokens = []) && read.isQuoted) rest

end

def endMacros (macros : Macros) (reads : List LineRead) : Macros :=
  (reads.getLast?.map LineRead.macros).getD macros

theorem endMacros_cons (macros : Macros) (read : LineRead) (reads : List LineRead) :
    endMacros macros (read :: reads) = endMacros read.macros reads := by
  rw [endMacros, endMacros, List.getLast?_cons, Option.map_some, Option.getD_some]
  cases reads.getLast? <;> rfl

section
variable (body : Macros → Bool → Str → LineRead)

theorem callBy_reads (macros : Macros) (isQuoted : Bool) (lines : List Str) :
    let call := callBy body macros isQuoted lines
    let reads := readsBy body macros isQuoted lines
    ((reads.map LineRead.tokens).filter (· ≠ []) =
        if call.2.1 = [] then []
        else call.2.1 :: ((readsBy body call.1 false call.2.2).map LineRead.tokens).filter (· ≠ [])) ∧
      endMacros macros reads =
        if call.2.1 = [] then call.1 else endMacros call.1 (readsBy body call.1 false call.2.2) := by
  induction lines generalizing macros isQuoted with
  | nil => exact ⟨rfl, rfl⟩
  | cons line rest ih =>
    dsimp only
    rw [readsBy, callBy, endMacros_cons, List.map_cons]
    by_cases none : (body macros isQuoted line).tokens = []
    · rw [if_pos none, decide_eq_true none, Bool.true_and, List.filter_cons_of_neg (by simpa using none)]
      exact ih _ _
    · rw [if_neg none, decide_eq_false none, Bool.false_and, List.filter_cons_of_pos (by simpa using none),
        if_neg none, if_neg none]
      exact ⟨rfl, rfl⟩

/-- The calls give the tokens of the lines that have some. -/
theorem callsBy_eq (macros : Macros) (lines : List Str) :
    callsBy body macros lines = (endMacros macros (readsBy body macros false lines),
      ((readsBy body macros false lines).map LineRead.tokens).filter (· ≠ [])) := by
  fun_induction callsBy body macros lines with
  | case1 macros lines call some later ih =>
    obtain ⟨tokens, ends⟩ := callBy_reads body macros false lines
    rw [if_neg some] at tokens ends
    rw [tokens, ends]
    have same : later = _ := ih
    rw [same]
  | case2 macros lines call none =>
    obtain ⟨tokens, ends⟩ := callBy_reads body macros false lines
    rw [if_pos (not_not.mp none)] at tokens ends
    rw [tokens, ends]

end

/-- `ReadTokenLine`: the macros, the tokens, and the lines that are still to be read. -/
def readTokenLine (build : BuildNames) (macros : Macros) (isQuoted : Bool) :
    List Str → Macros × List Str × List Str
  | [] => (macros, [], [])
  | line :: rest =>
    let read := readTokens build macros isQuoted line
    if read.tokens = [] then readTokenLine build read.macros read.isQuoted rest
    else (read.macros, read.tokens, rest)

theorem readTokenLine_eq (build : BuildNames) (macros : Macros) (isQuoted : Bool) (lines : List Str) :
    readTokenLine build macros isQuoted lines = callBy (readTokens build) macros isQuoted lines := by
  induction lines generalizing macros isQuoted with
  | nil => rfl
  | cons line rest ih =>
    rw [readTokenLine, callBy, ih]

theorem readTokenLine_length {build : BuildNames} {macros : Macros} {isQuoted : Bool} {lines : List Str}
    (some : (readTokenLine build macros isQuoted lines).2.1 ≠ []) :
    (readTokenLine build macros isQuoted lines).2.2.length < lines.length := by
  rw [readTokenLine_eq] at some ⊢
  exact callBy_length some

/-- The token lines of a file, by calls until there is none, and the macros at the end. -/
def tokenLines (build : BuildNames) (macros : Macros) (lines : List Str) : Macros × List (List Str) :=
  let read := readTokenLine build macros false lines
  if _some : read.2.1 ≠ [] then
    let later := tokenLines build read.1 read.2.2
    (later.1, read.2.1 :: later.2)
  else (read.1, [])
termination_by lines.length
decreasing_by exact readTokenLine_length _some

/-! ### One line after the other -/

/-- What is read of each line of a file. The quoting goes from a line without tokens to the next. -/
def lineReads (build : BuildNames) (macros : Macros) (isQuoted : Bool) : List Str → List LineRead
  | [] => []
  | line :: rest =>
    let read := readTokens build macros isQuoted line
    read :: lineReads build read.macros (decide (read.tokens = []) && read.isQuoted) rest

theorem lineReads_eq (build : BuildNames) (macros : Macros) (isQuoted : Bool) (lines : List Str) :
    lineReads build macros isQuoted lines = readsBy (readTokens build) macros isQuoted lines := by
  induction lines generalizing macros isQuoted with
  | nil => rfl
  | cons line rest ih =>
    rw [lineReads, readsBy, ih]

theorem tokenLines_eq (build : BuildNames) (macros : Macros) (lines : List Str) :
    tokenLines build macros lines = (endMacros macros (lineReads build macros false lines),
      ((lineReads build macros false lines).map LineRead.tokens).filter (· ≠ [])) := by
  have calls : tokenLines build macros lines = callsBy (readTokens build) macros lines := by
    fun_induction tokenLines build macros lines with
    | case1 macros lines read some later ih =>
      have same : later = _ := ih
      have call : read = callBy (readTokens build) macros false lines := readTokenLine_eq build macros false lines
      rw [call] at some same ⊢
      rw [same]
      conv_rhs =>
        rw [callsBy]
        dsimp only
        rw [dif_pos some]
    | case2 macros lines read none =>
      have call : read = callBy (readTokens build) macros false lines := readTokenLine_eq build macros false lines
      rw [call] at none ⊢
      conv_rhs =>
        rw [callsBy]
        dsimp only
        rw [dif_neg none]
  rw [calls, callsBy_eq, lineReads_eq]

end Meridian.Config
