import Meridian.Config.MergeItems
import Meridian.Config.Tokens
import Mathlib.Data.List.TakeWhile

/-!
# The expansion of macros in a token

`ExpandConfigMacros` of `config/config_file.c` over the `MergeStrings` of `lib/str_merge.c`, which puts its
output together piece by piece, and the replacement of references that it is meant to be. A merge whose size the
library refuses loses what was merged; otherwise the output is the replaced text.
-/

namespace Meridian.Config

open Text

/-! ### The loop -/

/-- The loop over `HasMacro`. -/
def hasMacro : Str → Bool
  | [] => false
  | c :: rest => (c = '$' && rest.head? = some '\x7b') || hasMacro rest

/-- `MergeStrings(&Out, Val, 0)`. -/
def mergeOut (takes : Nat → Bool) (out : Option Str) (val : Str) : Option Str :=
  mergeStringsHelper takes out (some val) none false

/-- The second loop of `ExpandConfigMacros`, over what `LookupConfigMacro` gives. -/
def expandLoop (takes : Nat → Bool) (lookup : Str → Option Str) (out : Option Str) : Str → Option Str
  | [] => out
  | c :: rest =>
    if c = '$' ∧ rest.head? = some '\x7b' then
      let name := rest.tail.takeWhile (· ≠ '\x7d')
      let stop := rest.tail.dropWhile (· ≠ '\x7d')
      if stop ≠ [] then
        let out := match lookup name with
          | some val => mergeOut takes out val
          | none => out
        expandLoop takes lookup out stop.tail
      else expandLoop takes lookup (mergeOut takes out [c]) rest
    else expandLoop takes lookup (mergeOut takes out [c]) rest
termination_by text => text.length
decreasing_by
  · exact length_behind_brace c rest
  · exact Nat.lt_succ_self _
  · exact Nat.lt_succ_self _

def expandMerging (takes : Nat → Bool) (lookup : Str → Option Str) (text : Str) : Str :=
  if hasMacro text then (expandLoop takes lookup none text).getD [] else text

/-! ### References -/

inductive MacroPiece where
  | char (c : Char)
  | reference (name : Str)
  deriving DecidableEq, Repr

def referenceTo (name : Str) : Str := '$' :: '\x7b' :: (name ++ ['\x7d'])

/-- The characters and the references of a text, from left to right. -/
def macroPieces : Str → List MacroPiece
  | [] => []
  | c :: rest =>
    if c = '$' ∧ rest.head? = some '\x7b' ∧ '\x7d' ∈ rest.tail then
      .reference (rest.tail.takeWhile (· ≠ '\x7d')) :: macroPieces (rest.tail.dropWhile (· ≠ '\x7d')).tail
    else .char c :: macroPieces rest
termination_by text => text.length
decreasing_by
  · exact length_behind_brace c rest
  · exact Nat.lt_succ_self _

theorem macroPieces_nil : macroPieces [] = [] := by rw [macroPieces]

/-- A name runs to the next brace. -/
theorem macroPieces_reference {name : Str} (closed : '\x7d' ∉ name) (rest : Str) :
    macroPieces (referenceTo name ++ rest) = .reference name :: macroPieces rest := by
  have inside : ∀ c ∈ name, decide (c ≠ '\x7d') = true :=
    fun c mem => decide_eq_true fun same => closed (same ▸ mem)
  have shape : referenceTo name ++ rest = '$' :: '\x7b' :: (name ++ '\x7d' :: rest) := by
    rw [referenceTo, List.cons_append, List.cons_append, List.append_assoc]
    rfl
  rw [shape, macroPieces, if_pos ⟨rfl, rfl, List.mem_append_right name List.mem_cons_self⟩, List.tail_cons,
    List.takeWhile_append_of_pos inside, List.dropWhile_append_of_pos inside,
    List.takeWhile_cons_of_neg (by decide), List.dropWhile_cons_of_neg (by decide), List.append_nil]
  rfl

theorem macroPieces_char {c : Char} {rest : Str} (other : ¬['$', '\x7b'] <+: c :: rest) :
    macroPieces (c :: rest) = .char c :: macroPieces rest := by
  rw [macroPieces, if_neg]
  rintro ⟨rfl, opens, _⟩
  obtain ⟨behind, rfl⟩ := List.head?_eq_some_iff.mp opens
  exact other ⟨behind, rfl⟩

/-- What is opened and never closed is kept. -/
theorem macroPieces_unterminated {text : Str} (opened : '\x7d' ∉ text) : macroPieces text = text.map .char := by
  induction text with
  | nil => exact macroPieces_nil
  | cons c rest ih =>
    have later : '\x7d' ∉ rest := fun mem => opened (List.mem_cons_of_mem c mem)
    rw [macroPieces, if_neg fun all => later (List.mem_of_mem_tail all.2.2), ih later]
    rfl

def MacroPiece.text (value : Str → Option Str) : MacroPiece → Option Str
  | .char c => some [c]
  | .reference name => value name

/-- The text with each reference replaced by its value, or by nothing. -/
def replaceMacros (value : Str → Option Str) (text : Str) : Str :=
  ((macroPieces text).filterMap (MacroPiece.text value)).flatten

theorem macroPieces_of_not_hasMacro {text : Str} (none : hasMacro text = false) :
    macroPieces text = text.map .char := by
  induction text with
  | nil => exact macroPieces_nil
  | cons c rest ih =>
    rw [hasMacro, Bool.or_eq_false_iff] at none
    have other : ¬(c = '$' ∧ rest.head? = some '\x7b' ∧ '\x7d' ∈ rest.tail) := by
      rintro ⟨rfl, opens, _⟩
      have here := none.1
      rw [opens] at here
      cases here
    rw [macroPieces, if_neg other, ih none.2]
    rfl

theorem flatten_chars (value : Str → Option Str) (text : Str) :
    ((text.map MacroPiece.char).filterMap (MacroPiece.text value)).flatten = text := by
  induction text with
  | nil => rfl
  | cons c rest ih => exact congrArg (c :: ·) ih

theorem replaceMacros_of_not_hasMacro (value : Str → Option Str) {text : Str} (none : hasMacro text = false) :
    replaceMacros value text = text := by
  rw [replaceMacros, macroPieces_of_not_hasMacro none, flatten_chars]

theorem dropWhile_ne_nil_iff {c : Char} {text : Str} : text.dropWhile (· ≠ c) ≠ [] ↔ c ∈ text := by
  rw [ne_eq, List.dropWhile_eq_nil_iff]
  constructor
  · intro some
    by_contra absent
    exact some fun d mem => decide_eq_true fun same => absent (same ▸ mem)
  · intro mem all
    exact of_decide_eq_true (all c mem) rfl

/-- The loop merges the texts of the pieces. -/
theorem expandLoop_eq (takes : Nat → Bool) (lookup : Str → Option Str) (out : Option Str) (text : Str) :
    expandLoop takes lookup out text =
      ((macroPieces text).filterMap (MacroPiece.text lookup)).foldl (mergeOut takes) out := by
  fun_induction expandLoop takes lookup out text with
  | case1 out =>
    rw [macroPieces_nil]
    rfl
  | case2 out c rest opens name stop closed out' ih =>
    have mem : '\x7d' ∈ rest.tail := dropWhile_ne_nil_iff.mp closed
    rw [macroPieces, if_pos ⟨opens.1, opens.2, mem⟩, List.filterMap_cons, MacroPiece.text, ih]
    dsimp only [out', name, stop]
    cases lookup (rest.tail.takeWhile (· ≠ '\x7d')) <;> rfl
  | case3 out c rest opens stop never ih =>
    have noMem : '\x7d' ∉ rest.tail := mt dropWhile_ne_nil_iff.mpr never
    rw [macroPieces, if_neg fun all => noMem all.2.2, ih]
    rfl
  | case4 out c rest other ih =>
    rw [macroPieces, if_neg fun all => other ⟨all.1, all.2.1⟩, ih]
    rfl

/-! ### What comes out of the merges -/

/-- A text as it is meant to be, and whether it comes out whole. -/
structure Meant where
  text : Str
  whole : Bool
  deriving DecidableEq, Repr

/-- What comes out for a text that is meant: this text, or else a shorter one. -/
def Meant.Gives (t : Meant) (out : Str) : Prop := if t.whole then out = t.text else out.length < t.text.length

theorem Meant.gives_iff {t : Meant} {out : Str} (h : t.Gives out) : out = t.text ↔ t.whole = true := by
  rw [Meant.Gives] at h
  cases whole : t.whole with
  | true =>
    rw [whole, if_pos rfl] at h
    exact iff_of_true h rfl
  | false =>
    rw [whole, if_neg Bool.false_ne_true] at h
    exact iff_of_false (fun same => absurd (congrArg List.length same) (Nat.ne_of_lt h)) Bool.false_ne_true

/-- A merge comes out whole if its texts do, and the library takes its size. -/
def Meant.merge (takes : Nat → Bool) (first second : Meant) : Meant where
  text := first.text ++ second.text
  whole := first.whole && second.whole &&
    ((first.text ++ second.text).isEmpty || takes (first.text.length + second.text.length + 2))

def mergeAll (takes : Nat → Bool) : List Meant → Meant
  | [] => { text := [], whole := true }
  | first :: more => more.foldl (Meant.merge takes) first

theorem mergeOut_eq (takes : Nat → Bool) (first val : Str) :
    mergeOut takes (some first) val =
      some (if takes (first.length + val.length + 2) then first ++ val else []) := by
  have shape : mergeOut takes (some first) val = some (safeStrCat takes (first.length + val.length + 2)
      (if first.length = 0 then [] else safeStrCat takes (first.length + val.length + 2)
        (safeStrCat takes (first.length + val.length + 2) [] first) []) val) := rfl
  rw [shape]
  by_cases taken : takes (first.length + val.length + 2) = true
  · have copied := @safeStrCat_room takes _ [] first taken (by rw [List.length_nil]; omega)
    have same := @safeStrCat_room takes _ first [] taken (by rw [List.length_nil]; omega)
    have cat := @safeStrCat_room takes _ first val taken (by omega)
    rw [List.nil_append] at copied
    rw [List.append_nil] at same
    rw [if_pos taken, copied, same]
    by_cases empty : first.length = 0
    · rw [if_pos empty, ← List.length_eq_zero_iff.mp empty, cat]
    · rw [if_neg empty, cat]
  · have refused := Bool.eq_false_iff.mpr taken
    rw [if_neg taken, safeStrCat_refused refused, safeStrCat_refused refused, safeStrCat_refused refused, ite_self]

theorem Meant.merge_gives (takes : Nat → Bool) {first second : Meant} {out val : Str} (h : first.Gives out)
    (h' : second.Gives val) :
    ∃ merged, mergeOut takes (some out) val = some merged ∧ (first.merge takes second).Gives merged := by
  refine ⟨_, mergeOut_eq takes out val, ?_⟩
  rw [Meant.Gives] at h h' ⊢
  rw [Meant.merge]
  dsimp only
  by_cases both : first.whole = true ∧ second.whole = true
  · rw [if_pos both.1] at h
    rw [if_pos both.2] at h'
    rw [h, h', both.1, both.2, Bool.true_and, Bool.true_and]
    by_cases taken : takes (first.text.length + second.text.length + 2) = true
    · rw [if_pos taken, taken, Bool.or_true, if_pos rfl]
    · rw [if_neg taken, Bool.eq_false_iff.mpr taken, Bool.or_false]
      cases first.text ++ second.text with
      | nil => rfl
      | cons c text => exact Nat.succ_pos _
  · have short : out.length + val.length < (first.text ++ second.text).length := by
      have upper : out.length ≤ first.text.length ∧ val.length ≤ second.text.length := by
        constructor
        · split at h
          · exact Nat.le_of_eq (congrArg List.length h)
          · exact Nat.le_of_lt h
        · split at h'
          · exact Nat.le_of_eq (congrArg List.length h')
          · exact Nat.le_of_lt h'
      rw [List.length_append]
      rcases not_and_or.mp both with cut | cut
      · rw [if_neg cut] at h
        omega
      · rw [if_neg cut] at h'
        omega
    have notWhole : (first.whole && second.whole) = false := by
      rw [Bool.eq_false_iff, ne_eq, Bool.and_eq_true]
      exact both
    rw [notWhole, Bool.false_and, if_neg Bool.false_ne_true]
    split
    · rwa [List.length_append]
    · exact Nat.lt_of_le_of_lt (Nat.zero_le _) short

theorem foldl_merge_gives (takes : Nat → Bool) {more : List Meant} {vals : List Str}
    (each : List.Forall₂ Meant.Gives more vals) {first : Meant} {out : Str} (h : first.Gives out) :
    ∃ merged, vals.foldl (mergeOut takes) (some out) = some merged ∧
      (more.foldl (Meant.merge takes) first).Gives merged := by
  induction each generalizing first out with
  | nil => exact ⟨out, rfl, h⟩
  | cons here _ ih =>
    obtain ⟨merged, step, gives⟩ := Meant.merge_gives takes h here
    obtain ⟨final, run, gives'⟩ := ih gives
    refine ⟨final, ?_, gives'⟩
    rw [List.foldl_cons, step, run]

theorem mergeAll_gives (takes : Nat → Bool) {ts : List Meant} {vals : List Str}
    (each : List.Forall₂ Meant.Gives ts vals) :
    (mergeAll takes ts).Gives ((vals.foldl (mergeOut takes) none).getD []) := by
  cases each with
  | nil => rfl
  | cons first more =>
    obtain ⟨merged, run, gives⟩ := foldl_merge_gives takes more first
    have same : (_ :: _ : List Str).foldl (mergeOut takes) none = some merged := run
    rw [same]
    exact gives

theorem mergeAll_text (takes : Nat → Bool) (ts : List Meant) :
    (mergeAll takes ts).text = (ts.map Meant.text).flatten := by
  cases ts with
  | nil => rfl
  | cons first more =>
    rw [mergeAll, List.map_cons, List.flatten_cons]
    induction more generalizing first with
    | nil => exact (List.append_nil _).symm
    | cons second more ih =>
      rw [List.foldl_cons, ih, List.map_cons, List.flatten_cons, Meant.merge]
      exact List.append_assoc ..

/-! ### Texts with references -/

def MacroPiece.meant (value : Str → Option Meant) : MacroPiece → Option Meant
  | .char c => some { text := [c], whole := true }
  | .reference name => value name

/-- The text that is meant for a token. -/
def meantMacros (takes : Nat → Bool) (value : Str → Option Meant) (text : Str) : Meant :=
  if hasMacro text then mergeAll takes ((macroPieces text).filterMap (MacroPiece.meant value))
  else { text := text, whole := true }

theorem meantMacros_text (takes : Nat → Bool) (value : Str → Option Meant) (text : Str) :
    (meantMacros takes value text).text = replaceMacros (fun name => (value name).map Meant.text) text := by
  rw [meantMacros]
  cases found : hasMacro text with
  | true =>
    have pieces (ps : List MacroPiece) : (ps.filterMap (MacroPiece.meant value)).map Meant.text =
        ps.filterMap (MacroPiece.text fun name => (value name).map Meant.text) := by
      rw [List.map_filterMap]
      refine congrArg (ps.filterMap ·) (funext fun piece => ?_)
      cases piece <;> rfl
    rw [if_pos rfl, mergeAll_text, pieces]
    rfl
  | false => rw [if_neg Bool.false_ne_true, replaceMacros_of_not_hasMacro _ found]

/-- What comes out for a token is what is meant, if what comes out for each value is. -/
theorem expandMerging_gives (takes : Nat → Bool) {value : Str → Option Meant} {lookup : Str → Option Str}
    (values : ∀ name, Option.Rel Meant.Gives (value name) (lookup name)) (text : Str) :
    (meantMacros takes value text).Gives (expandMerging takes lookup text) := by
  rw [meantMacros, expandMerging]
  cases hasMacro text with
  | true =>
    have each (ps : List MacroPiece) : List.Forall₂ Meant.Gives (ps.filterMap (MacroPiece.meant value))
        (ps.filterMap (MacroPiece.text lookup)) := by
      induction ps with
      | nil => exact .nil
      | cons piece ps ih =>
        cases piece with
        | char c => exact .cons rfl ih
        | reference name =>
          have here := values name
          rw [List.filterMap_cons, List.filterMap_cons, MacroPiece.meant, MacroPiece.text]
          generalize value name = meant at here ⊢
          generalize lookup name = val at here ⊢
          cases here with
          | some gives => exact .cons gives ih
          | none => exact ih
    rw [if_pos rfl, if_pos rfl, expandLoop_eq]
    exact mergeAll_gives takes (each _)
  | false => rfl

/-! ### Where the library takes every merge -/

section
variable {takes : Nat → Bool} (taken : ∀ size, takes size = true)
include taken

theorem mergeAll_whole {ts : List Meant} (whole : ∀ t ∈ ts, t.whole = true) :
    (mergeAll takes ts).whole = true := by
  cases ts with
  | nil => rfl
  | cons first more =>
    rw [mergeAll]
    induction more generalizing first with
    | nil => exact whole first List.mem_cons_self
    | cons second more ih =>
      obtain ⟨here, next, later⟩ := List.forall_mem_cons.mp whole |>.imp_right List.forall_mem_cons.mp
      refine ih (first.merge takes second) (List.forall_mem_cons.mpr ⟨?_, later⟩)
      rw [Meant.merge, here, next, taken, Bool.or_true]
      rfl

theorem meantMacros_whole {value : Str → Option Meant}
    (whole : ∀ name, ∀ meant ∈ value name, meant.whole = true) (text : Str) :
    (meantMacros takes value text).whole = true := by
  rw [meantMacros]
  split
  · refine mergeAll_whole taken fun t mem => ?_
    obtain ⟨piece, _, found⟩ := List.mem_filterMap.mp mem
    cases piece with
    | char c => exact Option.some.inj found ▸ rfl
    | reference name => exact whole name t found
  · rfl

/-- The merges give the replaced text. -/
theorem expandMerging_eq (lookup : Str → Option Str) (text : Str) :
    expandMerging takes lookup text = replaceMacros lookup text := by
  have values (name : Str) :
      Option.Rel Meant.Gives ((lookup name).map fun val => { text := val, whole := true }) (lookup name) := by
    cases lookup name with
    | none => exact .none
    | some val => exact .some rfl
  have whole (name : Str) : ∀ meant ∈ (lookup name).map fun val => { text := val, whole := true : Meant },
      meant.whole = true := by
    intro meant found
    obtain ⟨val, _, rfl⟩ := Option.map_eq_some_iff.mp found
    rfl
  rw [(Meant.gives_iff (expandMerging_gives takes values text)).mpr (meantMacros_whole taken whole text),
    meantMacros_text]
  refine congrArg (replaceMacros · text) (funext fun name => ?_)
  cases lookup name <;> rfl

end

/-- The tokens of the model without merges. -/
theorem expandConfigMacros_eq (build : BuildNames) (macros : Macros) (text : Str) :
    expandConfigMacros build macros text = replaceMacros (lookupConfigMacro build macros) text := by
  rw [replaceMacros]
  fun_induction expandConfigMacros build macros text with
  | case1 => rw [macroPieces_nil]; rfl
  | case2 c rest opens name stop closed ih =>
    have mem : '\x7d' ∈ rest.tail := dropWhile_ne_nil_iff.mp closed
    rw [macroPieces, if_pos ⟨opens.1, opens.2, mem⟩, List.filterMap_cons, MacroPiece.text, ih]
    dsimp only [name, stop]
    cases lookupConfigMacro build macros (rest.tail.takeWhile (· ≠ '\x7d')) <;> rfl
  | case3 c rest opens stop never ih =>
    have noMem : '\x7d' ∉ rest.tail := mt dropWhile_ne_nil_iff.mpr never
    rw [macroPieces, if_neg fun all => noMem all.2.2, ih]
    rfl
  | case4 c rest other ih =>
    rw [macroPieces, if_neg fun all => other ⟨all.1, all.2.1⟩, ih]
    rfl

end Meridian.Config
