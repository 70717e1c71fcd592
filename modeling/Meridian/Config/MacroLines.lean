import Meridian.Config.MacroText
import Meridian.Config.TokenCells
import Mathlib.Data.List.Dedup
import Mathlib.Data.List.Perm.Subperm

/-!
# The macros of a configuration file

The calls of `ReadTokenLine` of `config/config_file.c` over a whole file, with the table of `SetConfigMacro` and
`LookupConfigMacro`, and what is meant: each reference gives the value of the latest definition
on an earlier line. `MacroDefName` looks only at the ends of a token, so that a token like
`${a}${b}` in front of others is taken for a name.
-/

namespace Meridian.Config

open Text

/-! ### The lines that are read -/

/-- The body of the outer loop of `ReadTokenLine`, with the copies and the merges of the library. -/
def readTokensMerging (copies takes : Nat → Bool) (build : BuildNames) (macros : Macros) (isQuoted : Bool)
    (line : Str) : LineRead :=
  let found := lineLoopWith copies isQuoted (cString line)
  let expand := expandMerging takes (lookupConfigMacro build macros)
  match found.1 with
  | first :: second :: more =>
    match macroDefName first with
    | some name =>
      { macros := setConfigMacro macros name (expand second), isQuoted := found.2, tokens := [] }
    | none => { macros := macros, isQuoted := found.2, tokens := (first :: second :: more).map expand }
  | tokens => { macros := macros, isQuoted := found.2, tokens := tokens.map expand }

/-- Where the library takes all sizes, a line is read as by `readTokens`. -/
theorem readTokensMerging_eq {copies takes : Nat → Bool} (copied : ∀ size, copies size = true)
    (taken : ∀ size, takes size = true) : readTokensMerging copies takes = readTokens := by
  funext build macros isQuoted line
  have expand : expandMerging takes (lookupConfigMacro build macros) = expandConfigMacros build macros := by
    funext text
    rw [expandMerging_eq taken, expandConfigMacros_eq]
  rw [readTokensMerging, lineLoopWith_eq isQuoted _ fun size _ => copied size, expand]
  rfl

/-! ### The lines that are meant -/

/-- The name in a token of the form of a definition. It has no brace. -/
def definedName (token : Str) : Option Str := (macroDefName token).filter fun name => '\x7d' ∉ name

/-- What a name stands for: the names of the build go first, then the latest definition. -/
def latestValue (build : BuildNames) (defs : Macros) (name : Str) : Option Str :=
  if equalsCI name "ARCH".toList then some build.arch
  else if equalsCI name "FW_TYPE".toList then some build.fwType
  else (defs.find? fun d => equalsCI d.1 name).map Prod.snd

/-- A line as it is meant, with the latest definition in front of the others. -/
def replaceTokens (copies : Nat → Bool) (build : BuildNames) (defs : Macros) (isQuoted : Bool) (line : Str) :
    LineRead :=
  let found := lineLoopWith copies isQuoted (cString line)
  let replace := replaceMacros (latestValue build defs)
  match found.1 with
  | first :: second :: more =>
    match definedName first with
    | some name => { macros := (name, replace second) :: defs, isQuoted := found.2, tokens := [] }
    | none => { macros := defs, isQuoted := found.2, tokens := (first :: second :: more).map replace }
  | tokens => { macros := defs, isQuoted := found.2, tokens := tokens.map replace }

/-- The names of a table, without their case. -/
def macroKeys (macros : Macros) : List Str := macros.map fun entry => entry.1.map lowerChar

/-! ### The lines that come out whole -/

/-- A definition: its name, and the value that is meant. -/
structure MacroDef where
  name : Str
  value : Meant
  deriving DecidableEq, Repr

def meantValue (build : BuildNames) (defs : List MacroDef) (name : Str) : Option Meant :=
  if equalsCI name "ARCH".toList then some { text := build.arch, whole := true }
  else if equalsCI name "FW_TYPE".toList then some { text := build.fwType, whole := true }
  else (defs.find? fun d => equalsCI d.name name).map MacroDef.value

/-- What a line is meant to do: the definitions behind it, the quoting, and the tokens. -/
structure MeantRead where
  defs : List MacroDef
  isQuoted : Bool
  tokens : List Meant
  deriving DecidableEq, Repr

def meantRead (copies takes : Nat → Bool) (build : BuildNames) (defs : List MacroDef) (isQuoted : Bool)
    (line : Str) : MeantRead :=
  let found := lineLoopWith copies isQuoted (cString line)
  let meant := meantMacros takes (meantValue build defs)
  match found.1 with
  | first :: second :: more =>
    match definedName first with
    | some name => { defs := { name := name, value := meant second } :: defs, isQuoted := found.2, tokens := [] }
    | none => { defs := defs, isQuoted := found.2, tokens := (first :: second :: more).map meant }
  | tokens => { defs := defs, isQuoted := found.2, tokens := tokens.map meant }

/-- The first of two tokens is no name that has a brace inside, and the tokens that are given come out whole. -/
def LineOk (copies takes : Nat → Bool) (build : BuildNames) (defs : List MacroDef) (isQuoted : Bool)
    (line : Str) : Prop :=
  (∀ first second more name, (lineLoopWith copies isQuoted (cString line)).1 = first :: second :: more →
    macroDefName first = some name → '\x7d' ∉ name) ∧
  ∀ meant ∈ (meantRead copies takes build defs isQuoted line).tokens, meant.whole = true

/-- All lines are as `LineOk` says, each behind the definitions before it. -/
def LinesOk (copies takes : Nat → Bool) (build : BuildNames) (defs : List MacroDef) (isQuoted : Bool) :
    List Str → Prop
  | [] => True
  | line :: rest =>
    let read := meantRead copies takes build defs isQuoted line
    LineOk copies takes build defs isQuoted line ∧
      LinesOk copies takes build read.defs (decide (read.tokens = []) && read.isQuoted) rest

def definitionTexts (defs : List MacroDef) : Macros := defs.map fun d => (d.name, d.value.text)

theorem latestValue_texts (build : BuildNames) (defs : List MacroDef) :
    latestValue build (definitionTexts defs) = fun name => (meantValue build defs name).map Meant.text := by
  funext name
  rw [latestValue, meantValue]
  split
  · rfl
  · split
    · rfl
    · rw [definitionTexts, List.find?_map, Option.map_map, Option.map_map]
      rfl

/-- The texts of what is meant are those of the replaced lines. -/
theorem replaceTokens_texts (copies takes : Nat → Bool) (build : BuildNames) (defs : List MacroDef)
    (isQuoted : Bool) (line : Str) :
    replaceTokens copies build (definitionTexts defs) isQuoted line =
      { macros := definitionTexts (meantRead copies takes build defs isQuoted line).defs
        isQuoted := (meantRead copies takes build defs isQuoted line).isQuoted
        tokens := (meantRead copies takes build defs isQuoted line).tokens.map Meant.text } := by
  have replaced (text : Str) : replaceMacros (latestValue build (definitionTexts defs)) text =
      (meantMacros takes (meantValue build defs) text).text := by
    rw [latestValue_texts, meantMacros_text]
  have all (tokens : List Str) : tokens.map (replaceMacros (latestValue build (definitionTexts defs))) =
      (tokens.map (meantMacros takes (meantValue build defs))).map Meant.text := by
    rw [List.map_map]
    exact List.map_congr_left fun text _ => replaced text
  rw [replaceTokens, meantRead]
  generalize lineLoopWith copies isQuoted (cString line) = found
  rcases found with ⟨_ | ⟨first, _ | ⟨second, more⟩⟩, quoted⟩
  · rfl
  · exact congrArg (LineRead.mk _ _) (all [first])
  · dsimp only
    cases definedName first with
    | none => exact congrArg (LineRead.mk _ _) (all _)
    | some name =>
      dsimp only
      rw [replaced]
      rfl

/-! ### The form of a definition -/

theorem length_opened (name : Str) (last : Char) :
    ('$' :: '\x7b' :: (name ++ [last])).length = name.length + 3 := by
  rw [List.length_cons, List.length_cons, List.length_append, List.length_singleton]

theorem getLast?_opened (name : Str) (last : Char) :
    ('$' :: '\x7b' :: (name ++ [last])).getLast? = some last := by
  rw [← List.cons_append, ← List.cons_append]
  exact List.getLast?_concat

theorem macroDefName_eq_some {token name : Str} :
    macroDefName token = some name ↔ name ≠ [] ∧ token = referenceTo name := by
  rw [macroDefName, referenceTo]
  constructor
  · intro found
    rw [ite_eq_iff] at found
    rcases found with ⟨_, impossible⟩ | ⟨shape, inner⟩
    · cases impossible
    · obtain ⟨long, dollar, brace, closes⟩ : 4 ≤ token.length ∧ token[0]? = some '$' ∧ token[1]? = some '\x7b' ∧
          token.getLast? = some '\x7d' := by
        simpa only [not_or, not_lt, ne_eq, not_not] using shape
      rcases token with _ | ⟨a, _ | ⟨b, rest⟩⟩
      · cases dollar
      · cases brace
      · obtain rfl := Option.some.inj dollar
        obtain rfl := Option.some.inj brace
        rcases List.eq_nil_or_concat rest with rfl | ⟨body, last, rfl⟩
        · exact absurd long (by decide)
        · rw [List.concat_eq_append] at *
          have ends : last = '\x7d' := Option.some.inj ((getLast?_opened body last).symm.trans closes)
          rw [length_opened] at long inner
          have same : name = body := by
            rw [← Option.some.inj inner]
            exact List.take_left' rfl
          rw [same, ends]
          exact ⟨List.ne_nil_of_length_pos (by omega), rfl⟩
  · rintro ⟨some, rfl⟩
    have positive := List.length_pos_iff.mpr some
    rw [if_neg, length_opened]
    · exact congrArg Option.some (List.take_left' rfl)
    · rw [length_opened]
      rintro (short | dollar | brace | closes)
      · omega
      · exact dollar rfl
      · exact brace rfl
      · exact closes (getLast?_opened name '\x7d')

/-- The tokens that define: a name without a brace between `${` and `}`. -/
theorem definedName_eq_some {token name : Str} :
    definedName token = some name ↔ name ≠ [] ∧ '\x7d' ∉ name ∧ token = referenceTo name := by
  rw [definedName, Option.filter_eq_some_iff, macroDefName_eq_some, decide_eq_true_iff]
  constructor
  · rintro ⟨⟨some, shape⟩, free⟩
    exact ⟨some, free, shape⟩
  · rintro ⟨some, free, shape⟩
    exact ⟨⟨some, shape⟩, free⟩

/-! ### The table -/

theorem any_equalsCI {macros : Macros} {name : Str} :
    (macros.any fun entry => equalsCI entry.1 name) = true ↔ name.map lowerChar ∈ macroKeys macros := by
  rw [List.any_eq_true, macroKeys, List.mem_map]
  exact exists_congr fun entry => and_congr_right fun _ => equalsCI_iff entry.1 name

theorem equalsCI_congr {a b : Str} (same : equalsCI a b = true) (c : Str) : equalsCI a c = equalsCI b c := by
  rw [Bool.eq_iff_iff, equalsCI_iff, equalsCI_iff, (equalsCI_iff a b).mp same]

/-- The entry of a name is overwritten where it is; the other names keep their values. -/
theorem find?_overwritten {macros : Macros} {name : Str} (value : Str)
    (present : (macros.any fun entry => equalsCI entry.1 name) = true) (other : Str) :
    ((macros.modify (macros.findIdx fun entry => equalsCI entry.1 name) fun entry => (entry.1, value)).find?
        fun entry => equalsCI entry.1 other).map Prod.snd =
      if equalsCI name other then some value
      else (macros.find? fun entry => equalsCI entry.1 other).map Prod.snd := by
  induction macros with
  | nil => cases present
  | cons entry macros ih =>
    rw [List.findIdx_cons, List.find?_cons]
    cases here : equalsCI entry.1 name with
    | true =>
      have modified :
          (entry :: macros).modify 0 (fun entry => (entry.1, value)) = (entry.1, value) :: macros := rfl
      rw [cond_true, modified, List.find?_cons]
      dsimp only
      rw [equalsCI_congr here other]
      cases equalsCI name other <;> rfl
    | false =>
      rw [List.any_cons, here, Bool.false_or] at present
      rw [cond_false, List.modify_succ_cons, List.find?_cons]
      cases wanted : equalsCI entry.1 other with
      | false => exact ih present
      | true =>
        have different : equalsCI name other ≠ true := by
          intro same
          rw [equalsCI_iff] at wanted same
          rw [(equalsCI_iff _ _).mpr (wanted.trans same.symm)] at here
          cases here
        rw [if_neg different]

theorem macroKeys_overwritten (macros : Macros) (i : Nat) (value : Str) :
    macroKeys (macros.modify i fun entry => (entry.1, value)) = macroKeys macros := by
  rw [macroKeys, macroKeys]
  induction macros generalizing i with
  | nil => rw [List.modify_nil]
  | cons entry macros ih =>
    cases i with
    | zero => rfl
    | succ i => rw [List.modify_succ_cons, List.map_cons, ih, List.map_cons]

section
variable {macros : Macros} {name : Str} (value : Str)
  (room : name.map lowerChar ∉ macroKeys macros → macros.length < maxMacros)
include room

/-- With room for a new name, the value that is set is found under the name, and no other value changes. -/
theorem setConfigMacro_find? (other : Str) :
    ((setConfigMacro macros name value).find? fun entry => equalsCI entry.1 other).map Prod.snd =
      if equalsCI name other then some value
      else (macros.find? fun entry => equalsCI entry.1 other).map Prod.snd := by
  rw [setConfigMacro]
  by_cases present : (macros.any fun entry => equalsCI entry.1 name) = true
  · rw [if_pos present]
    exact find?_overwritten value present other
  · have absent := mt any_equalsCI.mpr present
    rw [if_neg present, if_neg (Nat.not_le.mpr (room absent)), List.find?_append, List.find?_singleton]
    dsimp only
    by_cases same : equalsCI name other = true
    · have unknown : (macros.find? fun entry => equalsCI entry.1 other) = none := by
        rw [List.find?_eq_none]
        intro entry mem found
        rw [equalsCI_iff] at found same
        exact absent (List.mem_map.mpr ⟨entry, mem, found.trans same.symm⟩)
      rw [unknown, if_pos same, if_pos same]
      rfl
    · rw [if_neg same, if_neg same, Option.or_none]

theorem macroKeys_set : macroKeys (setConfigMacro macros name value) =
    if name.map lowerChar ∈ macroKeys macros then macroKeys macros
    else macroKeys macros ++ [name.map lowerChar] := by
  rw [setConfigMacro]
  by_cases present : (macros.any fun entry => equalsCI entry.1 name) = true
  · rw [if_pos present, if_pos (any_equalsCI.mp present), macroKeys_overwritten]
  · have absent := mt any_equalsCI.mpr present
    rw [if_neg present, if_neg (Nat.not_le.mpr (room absent)), if_neg absent]
    exact List.map_append

end

theorem macroKeys_definition (d : MacroDef) (defs : List MacroDef) :
    macroKeys (definitionTexts (d :: defs)) = d.name.map lowerChar :: macroKeys (definitionTexts defs) := rfl

/-- What the table holds of the definitions: what comes out for each value, and each name once. -/
structure TableHolds (build : BuildNames) (defs : List MacroDef) (macros : Macros) : Prop where
  values : ∀ name, Option.Rel Meant.Gives (meantValue build defs name) (lookupConfigMacro build macros name)
  once : (macroKeys macros).Nodup
  defined : macroKeys macros ⊆ macroKeys (definitionTexts defs)

theorem tableHolds_empty (build : BuildNames) : TableHolds build [] [] where
  values name := by
    rw [meantValue, lookupConfigMacro]
    split
    · exact .some rfl
    · split
      · exact .some rfl
      · exact .none
  once := List.nodup_nil
  defined := List.Subset.refl _

/-- There is room for a name as long as there are not too many. -/
theorem TableHolds.room {build : BuildNames} {defs : List MacroDef} {macros : Macros}
    (h : TableHolds build defs macros) {d : MacroDef}
    (few : (macroKeys (definitionTexts (d :: defs))).dedup.length ≤ maxMacros)
    (absent : d.name.map lowerChar ∉ macroKeys macros) : macros.length < maxMacros := by
  have once : (d.name.map lowerChar :: macroKeys macros).Nodup := List.nodup_cons.mpr ⟨absent, h.once⟩
  have among : d.name.map lowerChar :: macroKeys macros ⊆ (macroKeys (definitionTexts (d :: defs))).dedup := by
    intro name mem
    rw [List.mem_dedup, macroKeys_definition]
    exact List.cons_subset_cons _ h.defined mem
  have bound := (List.Nodup.subperm once among).length_le
  rw [List.length_cons, macroKeys, List.length_map] at bound
  omega

/-- A definition takes its place in the table. -/
theorem TableHolds.set {build : BuildNames} {defs : List MacroDef} {macros : Macros}
    (h : TableHolds build defs macros) {d : MacroDef} {value : Str} (gives : d.value.Gives value)
    (few : (macroKeys (definitionTexts (d :: defs))).dedup.length ≤ maxMacros) :
    TableHolds build (d :: defs) (setConfigMacro macros d.name value) := by
  have room := h.room few
  have keys := macroKeys_set value room
  refine ⟨fun name => ?_, ?_, ?_⟩
  · have before := h.values name
    rw [meantValue, lookupConfigMacro] at before ⊢
    split
    · exact .some rfl
    · rename_i notArch
      split
      · exact .some rfl
      · rename_i notType
        rw [if_neg notArch, if_neg notType, if_neg notArch, if_neg notType] at before
        rw [setConfigMacro_find? value room, List.find?_cons]
        cases equalsCI d.name name with
        | true => exact .some gives
        | false => exact before
  · rw [keys]
    split
    · exact h.once
    · rename_i absent
      exact List.nodup_append_comm.mp (List.nodup_cons.mpr ⟨absent, h.once⟩)
  · have later := List.Subset.trans h.defined (List.subset_cons_self (d.name.map lowerChar) _)
    rw [macroKeys_definition, keys]
    split
    · exact later
    · exact List.append_subset.mpr ⟨later, List.cons_subset.mpr ⟨List.mem_cons_self, List.nil_subset _⟩⟩

/-! ### A line -/

section
variable {copies takes : Nat → Bool} {build : BuildNames} {defs : List MacroDef} {macros : Macros}

theorem tokens_meant (h : TableHolds build defs macros) (tokens : List Str) :
    tokens.map (expandMerging takes (lookupConfigMacro build macros)) =
        (tokens.map (meantMacros takes (meantValue build defs))).map Meant.text ↔
      ∀ meant ∈ tokens.map (meantMacros takes (meantValue build defs)), meant.whole = true := by
  rw [List.map_map, List.forall_mem_map, List.map_inj_left]
  exact forall₂_congr fun token _ => Meant.gives_iff (expandMerging_gives takes h.values token)

/-- A line gives what is meant exactly if it is as `LineOk` says, and then the table holds its definition. -/
theorem readTokensMerging_line (h : TableHolds build defs macros) (isQuoted : Bool) (line : Str)
    (few : (macroKeys
      (definitionTexts (meantRead copies takes build defs isQuoted line).defs)).dedup.length ≤ maxMacros) :
    ((readTokensMerging copies takes build macros isQuoted line).tokens =
        (meantRead copies takes build defs isQuoted line).tokens.map Meant.text ↔
      LineOk copies takes build defs isQuoted line) ∧
    (LineOk copies takes build defs isQuoted line →
      (readTokensMerging copies takes build macros isQuoted line).isQuoted =
          (meantRead copies takes build defs isQuoted line).isQuoted ∧
        TableHolds build (meantRead copies takes build defs isQuoted line).defs
          (readTokensMerging copies takes build macros isQuoted line).macros) := by
  unfold LineOk
  unfold meantRead at few ⊢
  unfold readTokensMerging
  generalize lineLoopWith copies isQuoted (cString line) = found at few ⊢
  rcases found with ⟨_ | ⟨first, _ | ⟨second, more⟩⟩, quoted⟩
  · refine ⟨iff_of_true rfl ⟨?_, fun _ mem => absurd mem List.not_mem_nil⟩, fun _ => ⟨rfl, h⟩⟩
    rintro _ _ _ _ ⟨⟩
  · refine ⟨(tokens_meant h [first]).trans (iff_and_self.mpr fun _ => ?_), fun _ => ⟨rfl, h⟩⟩
    rintro _ _ _ _ ⟨⟩
  · dsimp only at few ⊢
    have names : (∀ a b c name, first :: second :: more = a :: b :: c → macroDefName a = some name →
        '\x7d' ∉ name) ↔ ∀ name, macroDefName first = some name → '\x7d' ∉ name :=
      ⟨fun all name => all _ _ _ name rfl, fun all _ _ _ name shape => (List.cons.inj shape).1 ▸ all name⟩
    rw [names]
    cases named : macroDefName first with
    | none =>
      have undefined : definedName first = none := by rw [definedName, named]; rfl
      rw [undefined]
      refine ⟨(tokens_meant h _).trans (iff_and_self.mpr fun _ => ?_), fun _ => ⟨rfl, h⟩⟩
      rintro _ ⟨⟩
    | some name =>
      by_cases free : '\x7d' ∉ name
      · have defined : definedName first = some name := by
          rw [definedName, named, Option.filter_some, if_pos (decide_eq_true free)]
        rw [defined] at few ⊢
        refine ⟨iff_of_true rfl ⟨?_, fun _ mem => absurd mem List.not_mem_nil⟩, fun _ => ⟨rfl, ?_⟩⟩
        · rintro _ ⟨⟩
          exact free
        · exact h.set (expandMerging_gives takes h.values second) few
      · have undefined : definedName first = none := by
          rw [definedName, named, Option.filter_some, if_neg (mt of_decide_eq_true free)]
        rw [undefined]
        refine ⟨iff_of_false (fun same => ?_) fun ok => free (ok.1 name rfl),
          fun ok => absurd (ok.1 name rfl) free⟩
        exact List.cons_ne_nil _ _ same.symm

end

/-! ### A file -/

/-- The definitions before a line are still there at the end. -/
theorem macroKeys_subset_end (copies : Nat → Bool) (build : BuildNames) (defs : Macros) (isQuoted : Bool)
    (lines : List Str) :
    macroKeys defs ⊆ macroKeys (endMacros defs (readsBy (replaceTokens copies build) defs isQuoted lines)) := by
  induction lines generalizing defs isQuoted with
  | nil => exact List.Subset.refl _
  | cons line rest ih =>
    have step : macroKeys defs ⊆ macroKeys (replaceTokens copies build defs isQuoted line).macros := by
      rw [replaceTokens]
      split
      · split
        · exact List.subset_cons_self _ _
        · exact List.Subset.refl _
      · exact List.Subset.refl _
    rw [readsBy, endMacros_cons]
    exact List.Subset.trans step (ih _ _)

/-- What is read of each line is what is meant, exactly as long as the lines are as `LineOk` says. -/
theorem reads_tokens_iff {copies takes : Nat → Bool} {build : BuildNames} {defs : List MacroDef}
    {macros : Macros} (h : TableHolds build defs macros) (isQuoted : Bool) (lines : List Str)
    (few : (macroKeys (endMacros (definitionTexts defs)
      (readsBy (replaceTokens copies build) (definitionTexts defs) isQuoted lines))).dedup.length ≤ maxMacros) :
    (readsBy (readTokensMerging copies takes build) macros isQuoted lines).map LineRead.tokens =
        (readsBy (replaceTokens copies build) (definitionTexts defs) isQuoted lines).map LineRead.tokens ↔
      LinesOk copies takes build defs isQuoted lines := by
  induction lines generalizing defs macros isQuoted with
  | nil => exact iff_of_true rfl trivial
  | cons line rest ih =>
    rw [readsBy, endMacros_cons, replaceTokens_texts copies takes] at few
    have fewHere : (macroKeys (definitionTexts
        (meantRead copies takes build defs isQuoted line).defs)).dedup.length ≤ maxMacros :=
      Nat.le_trans (List.Nodup.subperm (List.nodup_dedup _) fun name mem => List.mem_dedup.mpr
        (macroKeys_subset_end copies build _ _ rest (List.mem_dedup.mp mem))).length_le few
    obtain ⟨here, kept⟩ := readTokensMerging_line h isQuoted line fewHere
    rw [readsBy, readsBy, List.map_cons, List.map_cons, List.cons.injEq, LinesOk,
      replaceTokens_texts copies takes, here]
    refine and_congr_right fun ok => ?_
    obtain ⟨quoting, holds⟩ := kept ok
    rw [here.mpr ok, quoting]
    dsimp only
    have none : decide ((meantRead copies takes build defs isQuoted line).tokens.map Meant.text = []) =
        decide ((meantRead copies takes build defs isQuoted line).tokens = []) :=
      decide_eq_decide.mpr List.map_eq_nil_iff
    rw [none] at few ⊢
    exact ih holds _ few

/-- The calls give the tokens of the lines that have some, and these are the replaced ones exactly for the files
in which no token that is read as a name has a brace inside and no merge is refused. -/
theorem macroTokens_right_iff (copies takes : Nat → Bool) (build : BuildNames) (lines : List Str)
    (few : (macroKeys
      (endMacros [] (readsBy (replaceTokens copies build) [] false lines))).dedup.length ≤ maxMacros) :
    (callsBy (readTokensMerging copies takes build) [] lines).2 =
        ((readsBy (readTokensMerging copies takes build) [] false lines).map LineRead.tokens).filter (· ≠ []) ∧
      ((readsBy (readTokensMerging copies takes build) [] false lines).map LineRead.tokens =
          (readsBy (replaceTokens copies build) [] false lines).map LineRead.tokens ↔
        LinesOk copies takes build [] false lines) :=
  ⟨congrArg Prod.snd (callsBy_eq _ [] lines), reads_tokens_iff (tableHolds_empty build) false lines few⟩

def someNames : BuildNames := ⟨"x64".toList, "efi".toList⟩

theorem macroTokens_right_iff_defined :
    ∃ (build : BuildNames) (lines : List Str),
      (callsBy (readTokensMerging (fun _ => true) (fun _ => true) build) [] lines).2 =
          ((readsBy (readTokensMerging (fun _ => true) (fun _ => true) build) [] false lines).map
            LineRead.tokens).filter (· ≠ []) ∧
        ((readsBy (readTokensMerging (fun _ => true) (fun _ => true) build) [] false lines).map LineRead.tokens =
            (readsBy (replaceTokens (fun _ => true) build) [] false lines).map LineRead.tokens ↔
          LinesOk (fun _ => true) (fun _ => true) build [] false lines) :=
  ⟨someNames, [referenceTo ['a'] ++ " x".toList,
    referenceTo ['A'] ++ " y".toList ++ referenceTo ['a'], referenceTo ['a'] ++ referenceTo "ARCH".toList],
    macroTokens_right_iff _ _ _ _ (by decide +kernel)⟩

/-- Two definitions, and a line that starts with both references. -/
def referringLines : List Str :=
  [referenceTo ['a'] ++ " x".toList, referenceTo ['b'] ++ " y".toList,
    referenceTo ['a'] ++ referenceTo ['b'] ++ " z".toList]

/-- The third line is read as a definition of the two names and what is between them, and its tokens are lost. -/
theorem macroTokens_swallowed :
    ¬∀ (copies takes : Nat → Bool) (build : BuildNames) (lines : List Str),
      (macroKeys (endMacros [] (readsBy (replaceTokens copies build) [] false lines))).dedup.length ≤ maxMacros →
      (readsBy (readTokensMerging copies takes build) [] false lines).map LineRead.tokens =
        (readsBy (replaceTokens copies build) [] false lines).map LineRead.tokens := by
  intro all
  have same := all (fun _ => true) (fun _ => true) someNames referringLines (by decide +kernel)
  have swallowed : (readsBy (readTokensMerging (fun _ => true) (fun _ => true) someNames) [] false
      referringLines).map LineRead.tokens = [[], [], []] := by decide +kernel
  have wanted : (readsBy (replaceTokens (fun _ => true) someNames) [] false referringLines).map LineRead.tokens =
      [[], [], ["xy".toList, "z".toList]] := by decide +kernel
  rw [swallowed, wanted] at same
  exact absurd same (by decide)

end Meridian.Config
