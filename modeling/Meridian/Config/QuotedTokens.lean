import Meridian.Config.TextFiles
import Meridian.Config.TokenCells
import Mathlib.Data.List.Chain

/-!
# Tokens that are written in quotes

Tokens in quotes, with their quotes doubled and a space between them, are read back by `ReadTokenLine` as they
are exactly when every copy by `StrCpyS` is made: `KeepReading` does not look at its status, and where the rest
of the line is longer than the library copies, both quotes stay.
-/

namespace Meridian.Config

open Text Lib.Pieces

/-! ### Calls on a buffer -/

/-- The body of the outer loop of `ReadTokenLine`. -/
def readTokensAt (copies : Nat → Bool) (build : BuildNames) (macros : Macros) (isQuoted : Bool) (line : Str) :
    Option LineRead := do
  let (tokens, isQuoted) ← lineAt copies isQuoted line
  match tokens with
  | first :: second :: more =>
    match macroDefName first with
    | some name =>
      some
        { macros := setConfigMacro macros name (expandConfigMacros build macros second)
          isQuoted := isQuoted
          tokens := [] }
    | none =>
      some
        { macros := macros
          isQuoted := isQuoted
          tokens := (first :: second :: more).map (expandConfigMacros build macros) }
  | tokens =>
    some { macros := macros, isQuoted := isQuoted, tokens := tokens.map (expandConfigMacros build macros) }

/-- `ReadTokenLine`: the macros, the tokens, and the lines that are still to be read. -/
def readTokenLineAt (copies : Nat → Bool) (build : BuildNames) (macros : Macros) (isQuoted : Bool) :
    List Str → Option (Macros × List Str × List Str)
  | [] => some (macros, [], [])
  | line :: rest => do
    let read ← readTokensAt copies build macros isQuoted line
    if read.tokens = [] then readTokenLineAt copies build read.macros read.isQuoted rest
    else some (read.macros, read.tokens, rest)

section
variable (copies : Nat → Bool) (build : BuildNames) (macros : Macros)

theorem readTokensAt_isSome (isQuoted : Bool) (line : Str) :
    (readTokensAt copies build macros isQuoted line).isSome = true := by
  rw [readTokensAt, lineAt_eq]
  dsimp only [Option.bind_eq_bind, Option.bind_some]
  split
  · split <;> rfl
  · rfl

/-- Every file is read without a read or a write past a line's end. -/
theorem readTokenLineAt_isSome (isQuoted : Bool) (lines : List Str) :
    (readTokenLineAt copies build macros isQuoted lines).isSome = true := by
  induction lines generalizing macros isQuoted with
  | nil => rfl
  | cons line rest ih =>
    obtain ⟨read, found⟩ := Option.isSome_iff_exists.mp (readTokensAt_isSome copies build macros isQuoted line)
    rw [readTokenLineAt, found]
    dsimp only [Option.bind_eq_bind, Option.bind_some]
    split
    · exact ih _ _
    · rfl

/-- Where the copies are made, this is what the reader of whole texts gives. -/
theorem readTokenLineAt_eq (made : ∀ size, copies size = true) (isQuoted : Bool) (lines : List Str) :
    readTokenLineAt copies build macros isQuoted lines = some (readTokenLine build macros isQuoted lines) := by
  induction lines generalizing macros isQuoted with
  | nil => rfl
  | cons line rest ih =>
    have read : readTokensAt copies build macros isQuoted line = some (readTokens build macros isQuoted line) := by
      rw [readTokensAt, lineAt_eq, lineLoopWith_eq isQuoted _ fun size _ => made size, readTokens]
      rcases lineLoop isQuoted (cString line) with ⟨_ | ⟨first, _ | ⟨second, more⟩⟩, quoted⟩
      · rfl
      · rfl
      · dsimp only [Option.bind_eq_bind, Option.bind_some]
        cases macroDefName first <;> rfl
    rw [readTokenLineAt, readTokenLine, read]
    dsimp only [Option.bind_eq_bind, Option.bind_some]
    split
    · exact ih _ _
    · rfl

end

/-! ### Copies that are made -/

/-- The tokens in quotes, on one line. -/
def quoteLine (tokens : List Str) : Str := [' '].intercalate (tokens.map quoteToken)

/-- What stands behind a token. -/
def behindToken (more : List Str) : Str := if more = [] then [] else ' ' :: quoteLine more

/-- At every quote of the token, `StrCpyS` takes the size of the rest of the line. -/
def TokenCollapses (copies : Nat → Bool) : Str → Str → Prop
  | [], _ => True
  | c :: token, after =>
    (c = '"' → copies ((doubleQuotes (c :: token) ++ '"' :: after).length + 1) = true) ∧
      TokenCollapses copies token after

/-- At every quote in a token, `StrCpyS` takes the size of the rest of the line. -/
def LineCollapses (copies : Nat → Bool) : List Str → Prop
  | [] => True
  | token :: more => TokenCollapses copies token (behindToken more) ∧ LineCollapses copies more

instance decidableTokenCollapses (copies : Nat → Bool) : (token after : Str) →
    Decidable (TokenCollapses copies token after)
  | [], _ => isTrue trivial
  | _ :: token, after =>
    have := decidableTokenCollapses copies token after
    inferInstanceAs (Decidable (_ ∧ _))

instance decidableLineCollapses (copies : Nat → Bool) : (tokens : List Str) →
    Decidable (LineCollapses copies tokens)
  | [] => isTrue trivial
  | _ :: more =>
    have := decidableLineCollapses copies more
    inferInstanceAs (Decidable (_ ∧ _))

theorem quoteLine_cons (token : Str) (more : List Str) :
    quoteLine (token :: more) = quoteToken token ++ behindToken more := by
  rw [quoteLine, behindToken]
  cases more with
  | nil => rw [if_pos rfl, List.map_cons, List.map_nil, List.intercalate_singleton, List.append_nil]
  | cons second more =>
    rw [if_neg (List.cons_ne_nil _ _), List.map_cons, List.map_cons, List.intercalate_cons_cons, quoteLine,
      List.map_cons]
    exact List.append_assoc ..

theorem doubleQuotes_quote (text : Str) : doubleQuotes ('"' :: text) = '"' :: '"' :: doubleQuotes text := rfl

theorem doubleQuotes_other {c : Char} (other : c ≠ '"') (text : Str) :
    doubleQuotes (c :: text) = c :: doubleQuotes text := by
  rw [doubleQuotes, List.flatMap_cons, if_neg other]
  rfl

section
variable {copies : Nat → Bool}

theorem tokenLoopWith_quote (isQuoted : Bool) {rest : Str} (single : rest.head? ≠ some '"') :
    tokenLoopWith copies isQuoted ('"' :: rest) = ⟨[], !isQuoted, '"' :: rest⟩ := by
  cases rest with
  | nil => rfl
  | cons d more =>
    have other : d ≠ '"' := fun same => single (congrArg some same)
    rw [tokenLoopWith, if_pos rfl, if_pos other]

theorem tokenLoopWith_double (isQuoted : Bool) (more : Str) :
    tokenLoopWith copies isQuoted ('"' :: '"' :: more) =
      (tokenLoopWith copies isQuoted (if copies (more.length + 3) then more else '"' :: more)).cons '"' := by
  rw [tokenLoopWith, if_pos rfl, if_neg (not_not.mpr rfl)]
  split <;> rfl

theorem tokenLoopWith_other {c : Char} (other : c ≠ '"') (rest : Str) :
    tokenLoopWith copies true (c :: rest) = (tokenLoopWith copies true rest).cons c := by
  rw [tokenLoopWith.eq_def]
  dsimp only
  rw [if_neg other, if_pos rfl]

theorem tokenLoopWith_collapses {token rest : Str} (single : rest.head? ≠ some '"')
    (collapses : TokenCollapses copies token rest) :
    tokenLoopWith copies true (doubleQuotes token ++ '"' :: rest) = ⟨token, false, '"' :: rest⟩ := by
  induction token with
  | nil => exact tokenLoopWith_quote true single
  | cons c token ih =>
    obtain ⟨here, later⟩ := collapses
    by_cases quote : c = '"'
    · obtain rfl := quote
      have made : copies ((doubleQuotes token ++ '"' :: rest).length + 3) = true := here rfl
      rw [doubleQuotes_quote, List.cons_append, List.cons_append, tokenLoopWith_double, if_pos made, ih later]
      rfl
    · rw [doubleQuotes_other quote, List.cons_append, tokenLoopWith_other quote, ih later]
      rfl

theorem replicate_quote (n : Nat) (text : Str) :
    List.replicate n '"' ++ '"' :: text = List.replicate (n + 1) '"' ++ text := by
  rw [List.replicate_succ', List.append_assoc, List.singleton_append]

/-- A quote too many becomes a part of the token, or ends it. -/
theorem tokenLoopWith_extra (n : Nat) (token rest : Str) :
    (tokenLoopWith copies true
      (List.replicate (n + 1) '"' ++ (doubleQuotes token ++ '"' :: rest))).token ≠ token := by
  induction token generalizing n with
  | nil =>
    have shape : List.replicate (n + 1) '"' ++ (doubleQuotes [] ++ '"' :: rest) =
        '"' :: '"' :: (List.replicate n '"' ++ rest) := replicate_quote (n + 1) rest
    rw [shape, tokenLoopWith_double]
    exact List.cons_ne_nil _ _
  | cons c token ih =>
    by_cases quote : c = '"'
    · obtain rfl := quote
      have shape : List.replicate (n + 1) '"' ++ (doubleQuotes ('"' :: token) ++ '"' :: rest) =
          '"' :: '"' :: (List.replicate (n + 1) '"' ++ (doubleQuotes token ++ '"' :: rest)) := by
        rw [doubleQuotes_quote, List.cons_append, List.cons_append, replicate_quote, replicate_quote]
        rfl
      rw [shape, tokenLoopWith_double]
      intro same
      split at same
      · exact ih n (List.cons.inj same).2
      · exact ih (n + 1) (List.cons.inj same).2
    · rw [doubleQuotes_other quote]
      cases n with
      | zero =>
        have single : (c :: (doubleQuotes token ++ '"' :: rest)).head? ≠ some '"' :=
          fun same => quote (Option.some.inj same)
        rw [List.cons_append, List.replicate_one, List.singleton_append, tokenLoopWith_quote true single]
        exact (List.cons_ne_nil _ _).symm
      | succ n =>
        rw [List.replicate_succ, List.replicate_succ, List.cons_append, List.cons_append, tokenLoopWith_double]
        intro same
        exact quote (List.cons.inj same).1.symm

/-- Where a copy is not made, the token is read as another one. -/
theorem tokenLoopWith_refused {token rest : Str} (refused : ¬TokenCollapses copies token rest) :
    (tokenLoopWith copies true (doubleQuotes token ++ '"' :: rest)).token ≠ token := by
  induction token with
  | nil => exact absurd trivial refused
  | cons c token ih =>
    by_cases quote : c = '"'
    · obtain rfl := quote
      rw [doubleQuotes_quote, List.cons_append, List.cons_append, tokenLoopWith_double]
      intro same
      split at same
      · rename_i made
        exact ih (fun later => refused ⟨fun _ => made, later⟩) (List.cons.inj same).2
      · exact tokenLoopWith_extra 0 token rest (List.cons.inj same).2
    · rw [doubleQuotes_other quote, List.cons_append, tokenLoopWith_other quote]
      intro same
      exact ih (fun later => refused ⟨fun is => absurd is quote, later⟩) (List.cons.inj same).2

/-! ### Whole lines -/

theorem atLineEnd_quote (rest : Str) : atLineEnd ('"' :: rest) = false := rfl

theorem lineLoopWith_quoteToken (token rest : Str) :
    lineLoopWith copies false (quoteToken token ++ rest) =
      let found := tokenLoopWith copies true (doubleQuotes token ++ '"' :: rest)
      if atLineEnd found.buffer then ([found.token], found.isQuoted)
      else
        (found.token :: (lineLoopWith copies found.isQuoted found.buffer.tail).1,
          (lineLoopWith copies found.isQuoted found.buffer.tail).2) := by
  have shape : quoteToken token ++ rest = '"' :: (doubleQuotes token ++ '"' :: rest) := by
    rw [quoteToken, List.cons_append, List.append_assoc, List.singleton_append]
  have found : nextTokenWith copies false ('"' :: (doubleQuotes token ++ '"' :: rest)) =
      tokenLoopWith copies true (doubleQuotes token ++ '"' :: rest) := rfl
  have start : skipBetween false ('"' :: (doubleQuotes token ++ '"' :: rest)) =
      '"' :: (doubleQuotes token ++ '"' :: rest) := rfl
  rw [shape, lineLoopWith, start, found, atLineEnd_quote, if_neg Bool.false_ne_true]
  dsimp only
  by_cases ends : atLineEnd (tokenLoopWith copies true (doubleQuotes token ++ '"' :: rest)).buffer = true
  · rw [dif_pos ends, if_pos ends]
  · rw [dif_neg ends, if_neg ends]

theorem lineLoopWith_behind (more : List Str) :
    lineLoopWith copies false (behindToken more) = lineLoopWith copies false (quoteLine more) := by
  rw [behindToken]
  split
  · rename_i none
    rw [none]
    rfl
  · have skipped : skipBetween false (' ' :: quoteLine more) = skipBetween false (quoteLine more) := rfl
    rw [lineLoopWith, lineLoopWith.eq_def _ _ (quoteLine more), skipped]

theorem behindToken_single (more : List Str) : (behindToken more).head? ≠ some '"' := by
  rw [behindToken]
  split
  · rintro ⟨⟩
  · exact fun same => absurd (Option.some.inj same) (by decide)

theorem lineLoopWith_collapses {tokens : List Str} (collapses : LineCollapses copies tokens) :
    lineLoopWith copies false (quoteLine tokens) = (tokens, false) := by
  induction tokens with
  | nil =>
    rw [lineLoopWith]
    rfl
  | cons token more ih =>
    obtain ⟨here, later⟩ := collapses
    rw [quoteLine_cons, lineLoopWith_quoteToken, tokenLoopWith_collapses (behindToken_single more) here]
    dsimp only
    rw [atLineEnd_quote, if_neg Bool.false_ne_true, List.tail_cons, lineLoopWith_behind, ih later]

/-! ### No macro comes up -/

/-- There is no dollar sign with a brace behind it. -/
def NoMacro (text : Str) : Prop := text.IsChain fun a b => ¬(a = '$' ∧ b = '\x7b')

theorem noMacro_iff (text : Str) : NoMacro text ↔ ¬['$', '\x7b'] <:+: text := by
  rw [NoMacro, List.isChain_iff_forall_rel_of_append_cons_cons]
  constructor
  · rintro all ⟨before, behind, rfl⟩
    exact all (List.append_assoc before ['$', '\x7b'] behind) ⟨rfl, rfl⟩
  · rintro none a b before behind rfl ⟨rfl, rfl⟩
    exact none ⟨before, behind, List.append_assoc ..⟩

theorem noMacro_cons {c : Char} {text : Str} :
    NoMacro (c :: text) ↔ (∀ d ∈ text.head?, ¬(c = '$' ∧ d = '\x7b')) ∧ NoMacro text := List.isChain_cons

theorem noMacro_quote {text : Str} : NoMacro ('"' :: text) ↔ NoMacro text := by
  rw [noMacro_cons, and_iff_right]
  rintro d - ⟨impossible, -⟩
  exact absurd impossible (by decide)

theorem tokenLoopWith_head {isQuoted : Bool} (quoted : isQuoted = true) (buffer : Str) {c : Char} :
    c ∈ (tokenLoopWith copies isQuoted buffer).token.head? → c = '"' ∨ c ∈ buffer.head? := by
  fun_cases tokenLoopWith copies isQuoted buffer with
  | case1 => rintro ⟨⟩
  | case2 => rintro ⟨⟩
  | case3 => rintro ⟨⟩
  | case4 => exact fun first => Or.inl (Option.some.inj first).symm
  | case5 => exact fun first => Or.inl (Option.some.inj first).symm
  | case6 => exact Or.inr
  | case7 => rintro ⟨⟩
  | case8 c rest other unquoted => exact absurd quoted unquoted

/-- A token that is read in quotes has the pairs of its text. -/
theorem tokenLoopWith_noMacro (isQuoted : Bool) {buffer : Str} (none : NoMacro buffer) (quoted : isQuoted = true) :
    NoMacro (tokenLoopWith copies isQuoted buffer).token := by
  fun_induction tokenLoopWith copies isQuoted buffer with
  | case1 => exact none
  | case2 => exact List.isChain_nil
  | case3 => exact List.isChain_nil
  | case4 d more double made ih =>
    exact noMacro_quote.mpr (ih (noMacro_cons.mp (noMacro_quote.mp none)).2)
  | case5 d more double refused ih => exact noMacro_quote.mpr (ih (noMacro_quote.mp none))
  | case6 c rest other _ ih =>
    obtain ⟨first, later⟩ := noMacro_cons.mp none
    refine noMacro_cons.mpr ⟨?_, ih later⟩
    rintro d mem ⟨dollar, brace⟩
    rcases tokenLoopWith_head quoted rest mem with quote | head
    · exact absurd (quote.symm.trans brace) (by decide)
    · exact first d head ⟨dollar, brace⟩
  | case7 c rest other unquoted => exact absurd quoted unquoted
  | case8 c rest other unquoted => exact absurd quoted unquoted

theorem doubleQuotes_head (token : Str) : (doubleQuotes token).head? = token.head? := by
  cases token with
  | nil => rfl
  | cons c token =>
    by_cases quote : c = '"'
    · rw [quote]
      rfl
    · rw [doubleQuotes_other quote]
      rfl

/-- Quotes stand between the tokens of a line, so nothing comes together there. -/
theorem quoted_noMacro {token rest : Str} (none : NoMacro token) (noneRest : NoMacro rest) :
    NoMacro (doubleQuotes token ++ '"' :: rest) := by
  induction token with
  | nil => exact noMacro_quote.mpr noneRest
  | cons c token ih =>
    obtain ⟨first, later⟩ := noMacro_cons.mp none
    by_cases quote : c = '"'
    · rw [quote, doubleQuotes_quote, List.cons_append, List.cons_append]
      exact noMacro_quote.mpr (noMacro_quote.mpr (ih later))
    · rw [doubleQuotes_other quote, List.cons_append]
      refine noMacro_cons.mpr ⟨?_, ih later⟩
      rintro d mem ⟨dollar, brace⟩
      rw [List.head?_append, doubleQuotes_head] at mem
      cases head : token.head? with
      | none =>
        rw [head] at mem
        cases mem
        exact absurd brace (by decide)
      | some e =>
        rw [head] at mem
        cases mem
        exact first _ head ⟨dollar, brace⟩

theorem behindToken_noMacro {more : List Str} (none : ∀ token ∈ more, NoMacro token) :
    NoMacro (behindToken more) := by
  induction more with
  | nil => exact List.isChain_nil
  | cons token more ih =>
    obtain ⟨first, later⟩ := List.forall_mem_cons.mp none
    rw [behindToken, if_neg (List.cons_ne_nil _ _), quoteLine_cons, quoteToken, List.cons_append,
      List.append_assoc, List.singleton_append]
    refine noMacro_cons.mpr ⟨?_, noMacro_quote.mpr (quoted_noMacro first (ih later))⟩
    rintro d - ⟨impossible, -⟩
    exact absurd impossible (by decide)

/-- Where a copy is not made, the first token concerned is read as another one. -/
theorem lineLoopWith_refused {tokens : List Str} (none : ∀ token ∈ tokens, NoMacro token)
    (refused : ¬LineCollapses copies tokens) :
    ∃ before token later read rest, tokens = before ++ token :: later ∧
      (lineLoopWith copies false (quoteLine tokens)).1 = before ++ read :: rest ∧ read ≠ token ∧ NoMacro read := by
  induction tokens with
  | nil => exact absurd trivial refused
  | cons token more ih =>
    obtain ⟨first, later⟩ := List.forall_mem_cons.mp none
    rw [quoteLine_cons, lineLoopWith_quoteToken]
    by_cases here : TokenCollapses copies token (behindToken more)
    · obtain ⟨before, other, behind, read, rest, split, found, differs, clean⟩ :=
        ih later fun both => refused ⟨here, both⟩
      rw [tokenLoopWith_collapses (behindToken_single more) here]
      refine ⟨token :: before, other, behind, read, rest, by rw [split]; rfl, ?_, differs, clean⟩
      dsimp only
      rw [atLineEnd_quote, if_neg Bool.false_ne_true, List.tail_cons, lineLoopWith_behind, found]
      rfl
    · have clean := @tokenLoopWith_noMacro copies true _ (quoted_noMacro first (behindToken_noMacro later)) rfl
      dsimp only
      split
      · exact ⟨[], token, more, _, [], rfl, rfl, tokenLoopWith_refused here, clean⟩
      · exact ⟨[], token, more, _, _, rfl, rfl, tokenLoopWith_refused here, clean⟩

/-! ### The line in a file -/

/-- The tokens that are written: no null, no line end, and no macro. -/
structure Quotable (token : Str) : Prop where
  noNull : '\x00' ∉ token
  oneLine : ∀ c ∈ token, endsLine c = false
  noMacro : ¬['$', '\x7b'] <:+: token

theorem quoteLine_all {P : Char → Prop} (quote : P '"') (space : P ' ') {tokens : List Str}
    (all : ∀ token ∈ tokens, ∀ c ∈ token, P c) : ∀ c ∈ quoteLine tokens, P c := by
  have doubled : ∀ token ∈ tokens, ∀ c ∈ doubleQuotes token, P c := by
    intro token mem c inside
    obtain ⟨d, inToken, is⟩ := List.mem_flatMap.mp inside
    split at is
    · simp only [List.mem_cons, List.not_mem_nil, or_false, or_self] at is
      exact is ▸ quote
    · exact List.mem_singleton.mp is ▸ all token mem d inToken
  induction tokens with
  | nil => exact fun c mem => absurd mem List.not_mem_nil
  | cons token more ih =>
    obtain ⟨here, later⟩ := List.forall_mem_cons.mp doubled
    have rest := ih (fun token mem => all token (List.mem_cons_of_mem _ mem)) later
    rw [quoteLine_cons, quoteToken]
    refine List.forall_mem_append.mpr ⟨List.forall_mem_cons.mpr ⟨quote, ?_⟩, ?_⟩
    · exact List.forall_mem_append.mpr ⟨here, List.forall_mem_singleton.mpr quote⟩
    · rw [behindToken]
      split
      · exact fun c mem => absurd mem List.not_mem_nil
      · exact List.forall_mem_cons.mpr ⟨space, rest⟩

theorem quoteLine_ne_nil {tokens : List Str} (some : tokens ≠ []) : quoteLine tokens ≠ [] := by
  obtain ⟨token, more, rfl⟩ := List.exists_cons_of_ne_nil some
  rw [quoteLine_cons]
  exact List.cons_ne_nil _ _

theorem cString_quoteLine {tokens : List Str} (quotable : ∀ token ∈ tokens, Quotable token) :
    cString (quoteLine tokens) = quoteLine tokens := by
  have notNull : ∀ c ∈ quoteLine tokens, c ≠ '\x00' := by
    refine quoteLine_all (by decide) (by decide) ?_
    rintro token mem c inside rfl
    exact (quotable token mem).noNull inside
  exact List.takeWhile_eq_self_iff.mpr fun c mem => decide_eq_true (notNull c mem)

/-- Tokens that hold no macro stay as they are. -/
theorem map_expandConfigMacros {build : BuildNames} {macros : Macros} {tokens : List Str}
    (none : ∀ token ∈ tokens, NoMacro token) : tokens.map (expandConfigMacros build macros) = tokens := by
  have each : ∀ token ∈ tokens, expandConfigMacros build macros token = token :=
    fun token mem => expandConfigMacros_of_not_infix ((noMacro_iff token).mp (none token mem))
  rw [List.map_congr_left each, List.map_id']

theorem macroDefName_of_noMacro {token : Str} (none : NoMacro token) : macroDefName token = .none := by
  rw [macroDefName, if_pos]
  by_contra named
  simp only [not_or, not_not] at named
  obtain ⟨-, dollar, brace, -⟩ := named
  rcases token with _ | ⟨c, _ | ⟨d, rest⟩⟩
  · cases dollar
  · cases brace
  · exact (noMacro_cons.mp none).1 d rfl ⟨Option.some.inj dollar, Option.some.inj brace⟩

/-- A line whose first token defines no macro gives its tokens. -/
theorem readTokensAt_eq {build : BuildNames} {macros : Macros} {isQuoted : Bool} {line : Str}
    {found : List Str × Bool} (read : lineLoopWith copies isQuoted (cString line) = found)
    (plain : ∀ first ∈ found.1.head?, NoMacro first) :
    readTokensAt copies build macros isQuoted line =
      some ⟨macros, found.2, found.1.map (expandConfigMacros build macros)⟩ := by
  rw [readTokensAt, lineAt_eq, read]
  rcases found with ⟨_ | ⟨first, _ | ⟨second, more⟩⟩, quoted⟩
  · rfl
  · rfl
  · dsimp only [Option.bind_eq_bind, Option.bind_some]
    rw [macroDefName_of_noMacro (plain first rfl)]

theorem readTokenLineAt_first {build : BuildNames} {macros : Macros} {isQuoted : Bool} {line : Str}
    {read : LineRead} (found : readTokensAt copies build macros isQuoted line = some read)
    (some : read.tokens ≠ []) (rest : List Str) :
    readTokenLineAt copies build macros isQuoted (line :: rest) = .some (read.macros, read.tokens, rest) := by
  rw [readTokenLineAt, found]
  exact if_neg some

end

section
variable {copies : Nat → Bool} (build : BuildNames) (macros : Macros) {tokens : List Str}
  (quotable : ∀ token ∈ tokens, Quotable token)

include quotable

theorem tokens_noMacro : ∀ token ∈ tokens, NoMacro token := fun token mem =>
  (noMacro_iff token).mpr (quotable token mem).noMacro

theorem quoteLine_single (some : tokens ≠ []) : pieces endsLine (quoteLine tokens) = [quoteLine tokens] := by
  have inner : ∀ c ∈ quoteLine tokens, endsLine c = false :=
    quoteLine_all (P := fun c => endsLine c = false) rfl rfl fun token mem => (quotable token mem).oneLine
  exact pieces_single ⟨quoteLine_ne_nil some, inner⟩

theorem readTokenLineAt_collapses (some : tokens ≠ []) (collapses : LineCollapses copies tokens)
    (rest : List Str) :
    readTokenLineAt copies build macros false (quoteLine tokens :: rest) = .some (macros, tokens, rest) := by
  have noMacro := tokens_noMacro quotable
  have found := lineLoopWith_collapses collapses
  rw [← cString_quoteLine quotable] at found
  have line := @readTokensAt_eq copies build macros _ _ _ found fun first mem =>
    noMacro first (List.mem_of_mem_head? mem)
  rw [map_expandConfigMacros noMacro] at line
  exact readTokenLineAt_first line some rest

theorem readTokenLineAt_refused (refused : ¬LineCollapses copies tokens) (rest : List Str) :
    (readTokenLineAt copies build macros false (quoteLine tokens :: rest)).map (·.2.1) ≠ some tokens := by
  have noMacro := tokens_noMacro quotable
  obtain ⟨before, token, later, read, more, split, found, differs, clean⟩ := lineLoopWith_refused noMacro refused
  have plain : ∀ first ∈ (lineLoopWith copies false (quoteLine tokens)).1.head?, NoMacro first := by
    rw [found]
    cases before with
    | nil =>
      rintro first ⟨⟩
      exact clean
    | cons first before =>
      rintro first ⟨⟩
      exact noMacro _ (split ▸ List.mem_cons_self)
  have line := @readTokensAt_eq copies build macros _ _ _ (congrArg _ (cString_quoteLine quotable)) plain
  rw [found] at line
  have notNone : (before ++ read :: more).map (expandConfigMacros build macros) ≠ [] := by
    rw [List.map_append, List.map_cons]
    exact List.append_ne_nil_of_right_ne_nil _ (List.cons_ne_nil _ _)
  intro same
  rw [readTokenLineAt_first line notNone rest] at same
  have equal := Option.some.inj same
  dsimp only at equal
  rw [split, List.map_append, List.map_cons] at equal
  have pairs := List.append_inj_right equal (List.length_map ..)
  have expanded : expandConfigMacros build macros read = read :=
    expandConfigMacros_of_not_infix ((noMacro_iff read).mp clean)
  exact differs (expanded.symm.trans (List.cons.inj pairs).1)

/-- The tokens are one line, which is read back exactly when every copy is made; and no line is read or written
past its end. -/
theorem readTokenLine_quoteLine_iff (copies : Nat → Bool) (some : tokens ≠ []) (rest : List Str) :
    pieces endsLine (quoteLine tokens) = [quoteLine tokens] ∧
      ((readTokenLineAt copies build macros false (quoteLine tokens :: rest)).map (·.2.1) = .some tokens ↔
        LineCollapses copies tokens) ∧
      ∀ (macros : Macros) (isQuoted : Bool) (lines : List Str),
        (readTokenLineAt copies build macros isQuoted lines).isSome = true := by
  refine ⟨quoteLine_single quotable some, ⟨fun same => ?_, fun collapses => ?_⟩,
    fun macros => readTokenLineAt_isSome copies build macros⟩
  · by_contra refused
    exact readTokenLineAt_refused build macros quotable refused rest same
  · rw [readTokenLineAt_collapses build macros quotable some collapses rest]
    rfl

end

/-- `StrCpyS` refuses strings of more than a million characters. -/
def libraryCopies (size : Nat) : Bool := size ≤ 1000000

def plainBuild : BuildNames := ⟨"x86_64".toList, "uefi".toList⟩

theorem noMacro_of_not_mem {token : Str} (absent : '$' ∉ token) : ¬['$', '\x7b'] <:+: token := fun inner =>
  absent (inner.subset List.mem_cons_self)

theorem oneLine_of_all {token : Str} (all : token.all (!endsLine ·) = true) : ∀ c ∈ token, endsLine c = false := by
  intro c mem
  have plain := List.all_eq_true.mp all c mem
  rwa [Bool.not_eq_true'] at plain

theorem readTokenLine_quoteLine_marks :
    (readTokenLineAt libraryCopies plainBuild [] false
      [quoteLine ["a=b, #c".toList, "\"".toList, []]]).map (·.2.1) = some ["a=b, #c".toList, "\"".toList, []] := by
  have quotable : ∀ token ∈ ["a=b, #c".toList, "\"".toList, []], Quotable token := by
    intro token mem
    simp only [List.mem_cons, List.not_mem_nil, or_false] at mem
    rcases mem with rfl | rfl | rfl
    · exact ⟨by decide, oneLine_of_all rfl, noMacro_of_not_mem (by decide)⟩
    · exact ⟨by decide, oneLine_of_all rfl, noMacro_of_not_mem (by decide)⟩
    · exact ⟨by decide, oneLine_of_all rfl, noMacro_of_not_mem (by decide)⟩
  exact (readTokenLine_quoteLine_iff plainBuild [] quotable libraryCopies (List.cons_ne_nil _ _) []).2.1.mpr
    (by decide +kernel)

/-- A token of a quote and a text of this length. -/
def longToken (n : Nat) : Str := '"' :: List.replicate n 'a'

theorem longToken_refused {n : Nat} (long : 1000000 ≤ n) :
    (∀ token ∈ [longToken n], Quotable token) ∧
      (readTokenLineAt libraryCopies plainBuild [] false [quoteLine [longToken n]]).map (·.2.1) ≠
        some [longToken n] := by
  have chars : ∀ c ∈ longToken n, c = '"' ∨ c = 'a' := by
    intro c mem
    exact (List.mem_cons.mp mem).imp id List.eq_of_mem_replicate
  have quotable : Quotable (longToken n) := by
    refine ⟨fun mem => ?_, fun c mem => ?_, noMacro_of_not_mem fun mem => ?_⟩
    · exact absurd (chars _ mem) (by decide)
    · rcases chars c mem with rfl | rfl <;> rfl
    · exact absurd (chars _ mem) (by decide)
  have all := List.forall_mem_singleton.mpr quotable
  refine ⟨all, readTokenLineAt_refused plainBuild [] all ?_ []⟩
  rintro ⟨⟨made, -⟩, -⟩
  have size := of_decide_eq_true (made rfl)
  have noQuote : '"' ∉ List.replicate n 'a' := fun mem => absurd (List.eq_of_mem_replicate mem) (by decide)
  rw [doubleQuotes_quote, doubleQuotes_of_not_mem noQuote] at size
  simp only [List.length_append, List.length_cons, List.length_replicate] at size
  omega

theorem readTokenLine_quoteLine_long :
    (∀ token ∈ [longToken 1000000], Quotable token) ∧
      (readTokenLineAt libraryCopies plainBuild [] false [quoteLine [longToken 1000000]]).map (·.2.1) ≠
        some [longToken 1000000] := longToken_refused (Nat.le_refl _)

end Meridian.Config
