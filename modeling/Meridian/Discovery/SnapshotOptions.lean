import Meridian.Lib.Words
import Meridian.Text

/-!
# The options of a snapshot

The model of `HasOptionToken` and `SnapshotLoadOptions` of `discovery/btrfs_snapshots.c`. Allocations
succeed.
-/

namespace Meridian.Discovery

open Text Lib.Search Lib.Words

/-- The token stands at the start of the rest of the options. -/
def startsWord (token rest : Str) : Bool :=
  token.isPrefixOf rest && (rest.drop token.length).head?.all (· = ' ')

/-- The loops of `HasOptionToken`, between two words or inside one. -/
def hasOptionLoop (token : Str) : Bool → Str → Bool
  | _, [] => false
  | between, c :: rest =>
    if c = ' ' then hasOptionLoop token true rest
    else if between && startsWord token (c :: rest) then true
    else hasOptionLoop token false rest

def hasOptionToken (options token : Str) : Bool := hasOptionLoop token true options

def subvolMarker : Str := "rootflags=subvol=".toList

/-- The options before the check for `ro` and `rw`. -/
def subvolOptions (base subvolPath : Str) : Str :=
  match mrdStrFind base subvolMarker with
  | none => base ++ ' ' :: (subvolMarker ++ subvolPath)
  | some found =>
    base.take (base.length - found.length) ++ (subvolMarker ++ subvolPath) ++ found.dropWhile (· ≠ ' ')

def snapshotLoadOptions (baseOptions : Option Str) (subvolPath : Str) : Str :=
  match baseOptions with
  | none => "ro ".toList ++ (subvolMarker ++ subvolPath)
  | some base =>
    let result := subvolOptions base subvolPath
    if !hasOptionToken result "ro".toList && !hasOptionToken result "rw".toList then
      "ro ".toList ++ result
    else result

/-! ### Tokens and mount options -/

abbrev tokens (options : Str) : List Str := words ' ' options

def rootflagsName : Str := "rootflags=".toList

def isRootflags (token : Str) : Bool := rootflagsName.isPrefixOf token

def rootflagsTokens (options : Str) : List Str := (tokens options).filter isRootflags

def subvolName : Str := "subvol=".toList

def isSubvol (option : Str) : Bool := subvolName.isPrefixOf option

/-- The mount options that stand in a part of a token. -/
def subvols (part : Str) : List Str := (words ',' part).filter isSubvol

def otherMounts (part : Str) : List Str := (words ',' part).filter fun option => !isSubvol option

def mountPart (token : Str) : Str := token.drop rootflagsName.length

/-- The options that the snapshot is to be started with. -/
structure StartsSnapshot (base : Str) (subvolPath result : Str) : Prop where
  kept : ((tokens base).filter fun token => !isRootflags token).Sublist (tokens result)
  once : ∃ token, rootflagsTokens result = [token] ∧
    subvols (mountPart token) = [subvolName ++ subvolPath] ∧
    otherMounts (mountPart token) =
      (rootflagsTokens base).flatMap fun token => otherMounts (mountPart token)
  mode : "ro".toList ∈ tokens result ∨ "rw".toList ∈ tokens result
  added : "ro".toList ∈ tokens base ∨ "rw".toList ∈ tokens base →
    (tokens result).count "ro".toList = (tokens base).count "ro".toList

/-! ### Where the marker stands -/

/-- The first occurrence of the marker: in a token, behind some of its text, with a value up to the end
of the token. -/
structure MarkerAt (base before text value behind : Str) : Prop where
  whole : base = before ++ (text ++ subvolMarker ++ value) ++ behind
  first : FirstAt subvolMarker (before ++ text) (subvolMarker ++ value ++ behind)
  begins : Begins ' ' before
  ends : Ends ' ' behind
  plainText : ' ' ∉ text
  plainValue : ' ' ∉ value

theorem startsWord_iff {token rest : Str} (whole : ' ' ∉ token) :
    startsWord token rest = true ↔ token = rest.takeWhile (· ≠ ' ') := by
  rw [startsWord, Bool.and_eq_true, List.isPrefixOf_iff_prefix]
  constructor
  · rintro ⟨⟨behind, rfl⟩, ends⟩
    rw [List.drop_left] at ends
    have inside : ∀ c ∈ token, decide (c ≠ ' ') = true := by
      intro c mem
      apply decide_eq_true
      rintro rfl
      exact whole mem
    rw [List.takeWhile_append_of_pos inside]
    cases behind with
    | nil => exact (List.append_nil token).symm
    | cons c behind =>
      have blank : c = ' ' := of_decide_eq_true ends
      rw [List.takeWhile_cons_of_neg (by rw [blank]; decide), List.append_nil]
  · intro same
    have split := List.takeWhile_append_dropWhile (p := (· ≠ ' ')) (l := rest)
    rw [← same] at split
    refine ⟨⟨_, split⟩, ?_⟩
    rw [← split, List.drop_left, Option.all_eq_true]
    exact fun c first => decide_eq_true (ends_dropWhile rest c first)

theorem hasOptionLoop_iff {token : Str} (whole : ' ' ∉ token) (between : Bool)
    (rest : Str) : hasOptionLoop token between rest = true ↔
      token ∈ tokens (if between then rest else rest.dropWhile (· ≠ ' ')) := by
  induction rest generalizing between with
  | nil =>
    have none : (if between then [] else List.dropWhile (· ≠ ' ') ([] : Str)) = [] := by
      cases between <;> rfl
    rw [none, tokens, words_nil]
    exact iff_of_false Bool.false_ne_true List.not_mem_nil
  | cons c rest ih =>
    rw [hasOptionLoop]
    by_cases blank : c = ' '
    · subst blank
      have here : (if between then ' ' :: rest else (' ' :: rest).dropWhile (· ≠ ' ')) = ' ' :: rest := by
        cases between <;> rfl
      rw [if_pos rfl, ih, here, if_pos rfl, tokens, tokens, words_cons]
    · rw [if_neg blank]
      have skipped : (c :: rest).dropWhile (· ≠ ' ') = rest.dropWhile (· ≠ ' ') :=
        List.dropWhile_cons_of_pos (decide_eq_true blank)
      cases between with
      | false =>
        rw [Bool.false_and, if_neg Bool.false_ne_true, ih, if_neg Bool.false_ne_true,
          if_neg Bool.false_ne_true, skipped]
      | true =>
        have word : (c :: rest).takeWhile (· ≠ ' ') = c :: rest.takeWhile (· ≠ ' ') :=
          List.takeWhile_cons_of_pos (decide_eq_true blank)
        rw [Bool.true_and, if_pos rfl, tokens, words_cons_ne blank, List.mem_cons, ← word]
        by_cases starts : startsWord token (c :: rest) = true
        · rw [if_pos starts]
          exact iff_of_true rfl (.inl ((startsWord_iff whole).mp starts))
        · rw [if_neg starts, ih, or_iff_right (mt (startsWord_iff whole).mpr starts)]
          rfl

theorem hasOptionToken_iff {token : Str} (whole : ' ' ∉ token) (options : Str) :
    hasOptionToken options token = true ↔ token ∈ tokens options :=
  hasOptionLoop_iff whole true options

theorem exists_markerAt {base found : Str} (place : mrdStrFind base subvolMarker = some found) :
    ∃ before text value behind, MarkerAt base before text value behind ∧
      found = subvolMarker ++ value ++ behind := by
  obtain ⟨front, rfl, first⟩ := find_append place
  obtain ⟨before, text, rfl, begins, plainText⟩ := exists_begins ' ' front
  obtain ⟨more, rfl⟩ := first.starts
  refine ⟨before, text, more.takeWhile (· ≠ ' '), more.dropWhile (· ≠ ' '), ?_, ?_⟩
  · refine ⟨?_, ?_, begins, ends_dropWhile more, plainText, not_mem_takeWhile more⟩
    · simp [List.takeWhile_append_dropWhile]
    · rw [List.append_assoc, List.takeWhile_append_dropWhile]
      exact first
  · rw [List.append_assoc, List.takeWhile_append_dropWhile]

/-! ### The tokens of the result -/

theorem mem_marker {c : Char} (h : c ∈ subvolMarker) : c ≠ ' ' ∧ c ≠ ',' := by
  have all : subvolMarker.all (fun c => c ≠ ' ' && c ≠ ',') = true := by decide
  have differs := List.all_eq_true.mp all c h
  rw [Bool.and_eq_true] at differs
  exact ⟨of_decide_eq_true differs.1, of_decide_eq_true differs.2⟩

/-- The tokens before the place that is written, those that stood there, what is written, and the
tokens behind. -/
structure Rewritten (base subvolPath : Str) (before old : List Str) (new : Str) (behind : List Str) :
    Prop where
  was : tokens base = before ++ old ++ behind
  result : tokens (subvolOptions base subvolPath) = before ++ new :: behind
  marked : ∀ token ∈ new :: old, subvolMarker.length ≤ token.length

theorem rewritten_absent {base subvolPath : Str} (absent : mrdStrFind base subvolMarker = none)
    (plain : ' ' ∉ subvolPath) :
    Rewritten base subvolPath (tokens base) [] (subvolMarker ++ subvolPath) [] := by
  refine ⟨?_, ?_, ?_⟩
  · rw [List.append_nil, List.append_nil]
  · have whole : ' ' ∉ subvolMarker ++ subvolPath := by
      rw [List.mem_append, not_or]
      exact ⟨fun mem => (mem_marker mem).1 rfl, plain⟩
    rw [subvolOptions, absent, tokens, words_append_cons, words_word _ whole]
    rintro ⟨⟩
  · intro token mem
    obtain rfl := List.mem_singleton.mp mem
    rw [List.length_append]
    exact Nat.le_add_right _ _

theorem MarkerAt.split {base before text value behind : Str}
    (h : MarkerAt base before text value behind) :
    base = before ++ text ++ (subvolMarker ++ value ++ behind) := by
  rw [h.whole]
  simp

theorem MarkerAt.place {base before text value behind : Str}
    (h : MarkerAt base before text value behind) :
    mrdStrFind base subvolMarker = some (subvolMarker ++ value ++ behind) := by
  rw [h.split]
  exact find_eq_some h.first

theorem rewritten_marked {base subvolPath before text value behind : Str}
    (h : MarkerAt base before text value behind) (plain : ' ' ∉ subvolPath) :
    Rewritten base subvolPath (tokens before) [text ++ subvolMarker ++ value]
      (text ++ subvolMarker ++ subvolPath) (tokens behind) := by
  have token {more : Str} (plain : ' ' ∉ more) : text ++ subvolMarker ++ more ≠ [] ∧
      ' ' ∉ text ++ subvolMarker ++ more := by
    refine ⟨?_, ?_⟩
    · intro empty
      have lengths := congrArg List.length empty
      rw [List.length_append, List.length_append] at lengths
      have marker : subvolMarker.length = 17 := rfl
      rw [List.length_nil] at lengths
      omega
    · rw [List.mem_append, List.mem_append, not_or, not_or]
      exact ⟨⟨h.plainText, fun mem => (mem_marker mem).1 rfl⟩, plain⟩
  have result : subvolOptions base subvolPath =
      before ++ (text ++ subvolMarker ++ subvolPath) ++ behind := by
    have front : base.take (base.length - (subvolMarker ++ value ++ behind).length) = before ++ text := by
      rw [h.split, List.length_append, Nat.add_sub_cancel, List.take_left]
    have back : (subvolMarker ++ value ++ behind).dropWhile (· ≠ ' ') = behind := by
      rw [List.dropWhile_append_of_pos]
      · cases behind with
        | nil => rfl
        | cons c behind =>
          obtain rfl := h.ends c rfl
          rfl
      · intro c mem
        apply decide_eq_true
        rintro rfl
        obtain inMarker | inValue := List.mem_append.mp mem
        · exact (mem_marker inMarker).1 rfl
        · exact h.plainValue inValue
    rw [subvolOptions, h.place]
    dsimp only
    rw [front, back]
    simp
  refine ⟨?_, ?_, ?_⟩
  · obtain ⟨nonempty, whole⟩ := token h.plainValue
    rw [tokens, h.whole, words_between h.begins nonempty whole h.ends]
    exact List.append_cons ..
  · obtain ⟨nonempty, whole⟩ := token plain
    rw [tokens, result, words_between h.begins nonempty whole h.ends]
  · intro token mem
    obtain rfl | mem := List.mem_cons.mp mem
    · simp only [List.length_append]
      omega
    · obtain rfl := List.mem_singleton.mp mem
      simp only [List.length_append]
      omega

/-- A short token is in the result when it is in the base options. -/
theorem Rewritten.mem_iff {base subvolPath new : Str} {before old behind : List Str}
    (h : Rewritten base subvolPath before old new behind) {token : Str}
    (short : token.length < subvolMarker.length) :
    token ∈ tokens (subvolOptions base subvolPath) ↔ token ∈ tokens base := by
  have other : token ∉ new :: old := fun mem => absurd (h.marked token mem) (Nat.not_le_of_lt short)
  rw [List.mem_cons, not_or] at other
  rw [h.was, h.result, List.mem_append, List.mem_cons, List.mem_append, List.mem_append,
    or_iff_right other.1, or_iff_left other.2]

/-- The mode that is put in front of the options. -/
def addedMode (base : Str) : List Str :=
  if "ro".toList ∈ tokens base ∨ "rw".toList ∈ tokens base then [] else ["ro".toList]

theorem Rewritten.tokens_eq {base subvolPath new : Str} {before old behind : List Str}
    (h : Rewritten base subvolPath before old new behind) :
    tokens (snapshotLoadOptions (some base) subvolPath) =
      addedMode base ++ (before ++ new :: behind) := by
  have ro : hasOptionToken (subvolOptions base subvolPath) "ro".toList = true ↔
      "ro".toList ∈ tokens base :=
    (hasOptionToken_iff (by decide) _).trans (h.mem_iff (by decide))
  have rw' : hasOptionToken (subvolOptions base subvolPath) "rw".toList = true ↔
      "rw".toList ∈ tokens base :=
    (hasOptionToken_iff (by decide) _).trans (h.mem_iff (by decide))
  rw [snapshotLoadOptions, addedMode]
  by_cases mode : "ro".toList ∈ tokens base ∨ "rw".toList ∈ tokens base
  · rw [if_pos mode, if_neg, List.nil_append, h.result]
    rw [Bool.and_eq_true, Bool.not_eq_true', Bool.not_eq_true']
    intro ⟨noRo, noRw⟩
    obtain inBase | inBase := mode
    · cases noRo.symm.trans (ro.mpr inBase)
    · cases noRw.symm.trans (rw'.mpr inBase)
  · have noRo := Bool.eq_false_iff.mpr (mt ro.mp fun mem => mode (.inl mem))
    have noRw := Bool.eq_false_iff.mpr (mt rw'.mp fun mem => mode (.inr mem))
    have blank : Ends ' ' (' ' :: subvolOptions base subvolPath) := fun c first =>
      (Option.some.inj first).symm
    have added := words_ends (w := ['r', 'o']) (List.cons_ne_nil _ _) (by decide) blank
    rw [words_cons] at added
    rw [if_neg mode, noRo, noRw, ← h.result]
    exact added

/-! ### The property on the tokens -/

theorem isRootflags_marked_iff (text more : Str) :
    isRootflags (text ++ subvolMarker ++ more) = true ↔ text = [] ∨ isRootflags text = true := by
  have start : rootflagsName <+: subvolMarker := by decide
  -- no later character of the name is its first one
  have inside : ∀ k < rootflagsName.length, k ≠ 0 → (rootflagsName.drop k).head? ≠ some 'r' := by
    decide
  rw [isRootflags, isRootflags, List.isPrefixOf_iff_prefix, List.isPrefixOf_iff_prefix, List.append_assoc]
  constructor
  · intro flag
    by_cases longer : rootflagsName.length ≤ text.length
    · exact .inr (List.prefix_of_prefix_length_le flag (List.prefix_append _ _) longer)
    · left
      rw [Nat.not_le] at longer
      obtain ⟨rest, whole⟩ :=
        List.prefix_of_prefix_length_le (List.prefix_append text _) flag (Nat.le_of_lt longer)
      have dropped : rootflagsName.drop text.length = rest := by rw [← whole, List.drop_left]
      rw [← whole, List.prefix_append_right_inj] at flag
      have head : rest.head? = some 'r' := by
        have short := congrArg List.length whole
        rw [List.length_append] at short
        obtain ⟨c, rest, rfl⟩ := List.exists_cons_of_length_pos (by omega : 0 < rest.length)
        rw [show subvolMarker ++ more = 'r' :: (subvolMarker.tail ++ more) from rfl,
          List.cons_prefix_cons] at flag
        rw [flag.1]
        rfl
      by_contra nonempty
      refine inside text.length longer (mt List.length_eq_zero_iff.mp nonempty) ?_
      rw [dropped, head]
  · intro flag
    obtain rfl | flag := flag
    · exact start.trans (List.prefix_append _ _)
    · exact flag.trans (List.prefix_append _ _)

/-- What the rewrite of one place has to be. -/
structure TokensRewritten (subvolPath : Str) (before old : List Str) (new : Str) (behind : List Str) :
    Prop where
  kept : ∀ token ∈ old, isRootflags token = false → token = new
  once : ∃ token, (before ++ new :: behind).filter isRootflags = [token] ∧
    subvols (mountPart token) = [subvolName ++ subvolPath] ∧
    otherMounts (mountPart token) =
      ((before ++ old ++ behind).filter isRootflags).flatMap fun token => otherMounts (mountPart token)

theorem filter_addedMode (base : Str) : (addedMode base).filter isRootflags = [] := by
  rw [addedMode]
  split
  · rfl
  · rfl

theorem not_mem_addedMode {base : Str} {token : Str} (mem : token ∈ tokens base) :
    token ∉ addedMode base := by
  rw [addedMode]
  split
  · exact List.not_mem_nil
  · rename_i neither
    intro same
    obtain rfl := List.mem_singleton.mp same
    exact neither (.inl mem)

/-- A sublist of the tokens and the added mode is one of the tokens. -/
theorem sublist_of_addedMode {base : Str} {l l' : List Str} (h : l.Sublist (addedMode base ++ l'))
    (inside : ∀ token ∈ l, token ∈ tokens base) : l.Sublist l' := by
  obtain ⟨l₁, l₂, rfl, added, rest⟩ := List.sublist_append_iff.mp h
  cases l₁ with
  | nil => exact rest
  | cons token l₁ =>
    exact absurd (added.subset List.mem_cons_self) (not_mem_addedMode (inside token List.mem_cons_self))

/-- Of two tokens in one place, the kept one is the other. -/
theorem eq_of_sublist {l₁ l₂ : List Str} {token new : Str}
    (h : (l₁ ++ token :: l₂).Sublist (l₁ ++ ([new].filter fun token => !isRootflags token) ++ l₂)) :
    token = new := by
  cases flag : isRootflags new with
  | true =>
    rw [List.filter_cons_of_neg (by rw [flag]; decide)] at h
    have shorter := h.length_le
    simp only [List.length_append, List.length_cons, List.filter_nil, List.length_nil] at shorter
    omega
  | false =>
    rw [List.filter_cons_of_pos (by rw [flag]; rfl), List.filter_nil, List.append_assoc] at h
    have same := h.eq_of_length (by simp)
    exact (List.cons.inj (List.append_cancel_left same)).1

theorem Rewritten.startsSnapshot_iff {base subvolPath new : Str} {before old behind : List Str}
    (h : Rewritten base subvolPath before old new behind) (one : old = [] ∨ ∃ token, old = [token]) :
    StartsSnapshot base subvolPath (snapshotLoadOptions (some base) subvolPath) ↔
      TokensRewritten subvolPath before old new behind := by
  have flags : rootflagsTokens (snapshotLoadOptions (some base) subvolPath) =
      (before ++ new :: behind).filter isRootflags := by
    rw [rootflagsTokens, h.tokens_eq, List.filter_append, filter_addedMode, List.nil_append]
  have flags' : rootflagsTokens base = (before ++ old ++ behind).filter isRootflags := by
    rw [rootflagsTokens, h.was]
  constructor
  · intro starts
    refine ⟨?_, by rw [← flags, ← flags']; exact starts.once⟩
    intro token mem other
    obtain rfl | ⟨token, rfl⟩ := one
    · cases mem
    obtain rfl := List.mem_singleton.mp mem
    have kept := starts.kept
    rw [h.tokens_eq] at kept
    have kept := (sublist_of_addedMode kept fun token mem => (List.mem_filter.mp mem).1).filter
      fun token => !isRootflags token
    rw [List.filter_filter, h.was, List.append_assoc, List.singleton_append] at kept
    simp only [Bool.and_self] at kept
    rw [List.filter_append, List.filter_append, List.filter_cons_of_pos (by rw [other]; rfl),
      ← List.singleton_append (l := behind), List.filter_append, ← List.append_assoc] at kept
    exact eq_of_sublist kept
  · intro rewritten
    have ro : "ro".toList.length < subvolMarker.length := by decide
    have rw' : "rw".toList.length < subvolMarker.length := by decide
    refine ⟨?_, by rw [flags, flags']; exact rewritten.once, ?_, ?_⟩
    · rw [h.tokens_eq, h.was]
      refine List.Sublist.trans ?_ (List.sublist_append_right _ _)
      have rest : (before ++ behind).Sublist (before ++ new :: behind) :=
        List.Sublist.append_left (List.sublist_cons_self new behind) before
      obtain rfl | ⟨token, rfl⟩ := one
      · rw [List.append_nil]
        exact List.filter_sublist.trans rest
      · cases flag : isRootflags token with
        | false =>
          rw [rewritten.kept token List.mem_cons_self flag, List.append_assoc]
          exact List.filter_sublist
        | true =>
          rw [List.filter_append, List.filter_append, List.filter_cons_of_neg (by rw [flag]; decide),
            List.filter_nil, List.append_nil, ← List.filter_append]
          exact List.filter_sublist.trans rest
    · rw [h.tokens_eq, ← h.result, List.mem_append, List.mem_append, h.mem_iff ro, h.mem_iff rw']
      by_cases mode : "ro".toList ∈ tokens base ∨ "rw".toList ∈ tokens base
      · exact mode.imp .inr .inr
      · rw [addedMode, if_neg mode]
        exact .inl (.inl List.mem_cons_self)
    · intro mode
      have other : "ro".toList ∉ new :: old := fun mem => Nat.not_le_of_lt ro (h.marked _ mem)
      rw [List.mem_cons, not_or] at other
      rw [h.tokens_eq, h.was, addedMode, if_pos mode, List.nil_append, List.count_append,
        List.count_append, List.count_append, List.count_eq_zero_of_not_mem other.2,
        List.count_cons_of_ne (Ne.symm other.1), Nat.add_zero]

/-! ### Mount options -/

theorem mountPart_rootflags (part : Str) : mountPart (rootflagsName ++ part) = part := List.drop_left

theorem mountPart_marker (value : Str) : mountPart (subvolMarker ++ value) = subvolName ++ value := by
  rw [show subvolMarker ++ value = rootflagsName ++ (subvolName ++ value) from rfl, mountPart_rootflags]

theorem not_mem_of_subvols {part subvolPath : Str} (h : subvols part = [subvolName ++ subvolPath]) :
    ',' ∉ subvolPath := by
  have mem : subvolName ++ subvolPath ∈ subvols part := by
    rw [h]
    exact List.mem_cons_self
  have whole := not_mem_of_mem_words part (List.mem_filter.mp mem).1
  exact fun comma => whole (List.mem_append_right _ comma)

theorem isSubvol_append (path : Str) : isSubvol (subvolName ++ path) = true :=
  List.isPrefixOf_iff_prefix.mpr (List.prefix_append _ _)

theorem words_subvol {subvolPath : Str} (plain : ',' ∉ subvolPath) :
    words ',' (subvolName ++ subvolPath) = [subvolName ++ subvolPath] := by
  apply words_word
  · intro empty
    cases (List.append_eq_nil_iff.mp empty).1
  · rw [List.mem_append, not_or]
    exact ⟨by decide, plain⟩

theorem subvols_path {subvolPath : Str} (plain : ',' ∉ subvolPath) :
    subvols (subvolName ++ subvolPath) = [subvolName ++ subvolPath] ∧
      otherMounts (subvolName ++ subvolPath) = [] := by
  rw [subvols, otherMounts, words_subvol plain, List.filter_cons_of_pos (isSubvol_append _),
    List.filter_cons_of_neg (by rw [isSubvol_append]; decide)]
  exact ⟨rfl, rfl⟩

/-- The marker stands in a mount option behind the one of the subvolume, which names the path already,
as what is behind the marker does. -/
structure LaterMount (subvolPath part value : Str) : Prop where
  named : (words ',' (part ++ subvolMarker)).dropLast.filter isSubvol = [subvolName ++ subvolPath]
  other : ∀ mount ∈ (words ',' (part ++ subvolMarker)).getLast?, isSubvol mount = false
  same : value.takeWhile (· ≠ ',') = subvolPath
  rest : otherMounts (value.dropWhile (· ≠ ',')) = []

theorem isSubvol_marked (text more : Str) :
    isSubvol (text ++ subvolMarker ++ more) = isSubvol (text ++ subvolMarker) := by
  have long : subvolName.length ≤ (text ++ subvolMarker).length := by
    rw [List.length_append]
    exact Nat.le_add_left_of_le (by decide)
  rw [Bool.eq_iff_iff, isSubvol, isSubvol, List.isPrefixOf_iff_prefix, List.isPrefixOf_iff_prefix]
  constructor
  · exact fun flag => List.prefix_of_prefix_length_le flag (List.prefix_append _ _) long
  · exact fun flag => flag.trans (List.prefix_append _ _)

theorem words_marked {front last more behind : Str} (begins : Begins ',' front) (plain : ',' ∉ last)
    (plain' : ',' ∉ more) (ends : Ends ',' behind) :
    words ',' (front ++ (last ++ subvolMarker ++ more) ++ behind) =
      words ',' front ++ (last ++ subvolMarker ++ more) :: words ',' behind := by
  apply words_between begins _ _ ends
  · intro empty
    have lengths := congrArg List.length empty
    rw [List.length_append, List.length_append, show subvolMarker.length = 17 from rfl,
      List.length_nil] at lengths
    omega
  · rw [List.mem_append, List.mem_append, not_or, not_or]
    exact ⟨⟨plain, fun mem => (mem_marker mem).2 rfl⟩, plain'⟩

theorem append_cons_eq_singleton {α : Type} {l₁ l₂ : List α} {x y : α} :
    l₁ ++ x :: l₂ = [y] ↔ l₁ = [] ∧ l₂ = [] ∧ x = y := by
  constructor
  · intro same
    have lengths := congrArg List.length same
    simp only [List.length_append, List.length_cons, List.length_nil] at lengths
    obtain rfl : l₁ = [] := List.length_eq_zero_iff.mp (by omega)
    obtain ⟨rfl, rest⟩ := List.cons.inj same
    exact ⟨rfl, rest, rfl⟩
  · rintro ⟨rfl, rfl, rfl⟩
    rfl

/-- A marker behind other mount options. -/
theorem laterMount_iff (subvolPath part value : Str) :
    (subvols (part ++ subvolMarker ++ subvolPath) = [subvolName ++ subvolPath] ∧
        otherMounts (part ++ subvolMarker ++ subvolPath) = otherMounts (part ++ subvolMarker ++ value)) ↔
      ',' ∉ subvolPath ∧ LaterMount subvolPath part value := by
  obtain ⟨front, last, rfl, begins, plain⟩ := exists_begins ',' part
  have none : Ends ',' ([] : Str) := by
    rintro _ ⟨⟩
  have bare : words ',' (front ++ last ++ subvolMarker) = words ',' front ++ [last ++ subvolMarker] := by
    have whole := words_marked begins plain (List.not_mem_nil (a := ',')) none
    rwa [List.append_nil, List.append_nil, ← List.append_assoc, words_nil] at whole
  have old : words ',' (front ++ last ++ subvolMarker ++ value) = words ',' front ++
      (last ++ subvolMarker ++ value.takeWhile (· ≠ ',')) :: words ',' (value.dropWhile (· ≠ ',')) := by
    rw [← words_marked begins plain (not_mem_takeWhile value) (ends_dropWhile value)]
    simp [List.takeWhile_append_dropWhile]
  have new (plainPath : ',' ∉ subvolPath) : words ',' (front ++ last ++ subvolMarker ++ subvolPath) =
      words ',' front ++ [last ++ subvolMarker ++ subvolPath] := by
    have whole := words_marked begins plain plainPath none
    rwa [List.append_nil, ← List.append_assoc, ← List.append_assoc, words_nil] at whole
  have flag := isSubvol_marked last
  constructor
  · intro ⟨named, others⟩
    have plainPath := not_mem_of_subvols named
    rw [subvols, new plainPath, List.filter_append] at named
    rw [otherMounts, otherMounts, new plainPath, old, List.filter_append, List.filter_append] at others
    cases subvol : isSubvol (last ++ subvolMarker) with
    | true =>
      rw [List.filter_cons_of_pos ((flag subvolPath).trans subvol)] at named
      have lengths := congrArg List.length (append_cons_eq_singleton.mp named).2.2
      simp only [List.length_append] at lengths
      have name : subvolName.length = 7 := rfl
      have marker : subvolMarker.length = 17 := rfl
      omega
    | false =>
      rw [List.filter_cons_of_neg (by rw [flag, subvol]; decide), List.filter_nil,
        List.append_nil] at named
      rw [List.filter_cons_of_pos (by rw [flag, subvol]; rfl),
        List.filter_cons_of_pos (by rw [flag, subvol]; rfl)] at others
      obtain ⟨same, rest⟩ := List.cons.inj (List.append_cancel_left others)
      refine ⟨plainPath, ?_, ?_, (List.append_cancel_left same).symm, rest.symm⟩
      · rw [bare, List.dropLast_concat]
        exact named
      · intro mount mem
        rw [bare, List.getLast?_concat] at mem
        obtain rfl := Option.some.inj mem
        exact subvol
  · intro ⟨plainPath, later⟩
    have named := later.named
    have subvol : isSubvol (last ++ subvolMarker) = false := by
      apply later.other
      rw [bare, List.getLast?_concat]
      rfl
    rw [bare, List.dropLast_concat] at named
    rw [subvols, otherMounts, otherMounts, new plainPath, old, List.filter_append, List.filter_append,
      List.filter_append, List.filter_cons_of_neg (by rw [flag, subvol]; decide),
      List.filter_cons_of_pos (by rw [flag, subvol]; rfl),
      List.filter_cons_of_pos (by rw [flag, subvol]; rfl), named, later.same]
    refine ⟨List.append_nil _, ?_⟩
    have rest : (words ',' (value.dropWhile (· ≠ ','))).filter (fun option => !isSubvol option) = [] :=
      later.rest
    rw [rest, List.filter_nil]

/-! ### The rewrite -/

/-- There is one `rootflags` token. The marker begins it and it gives no other mount option, or the
rewrite changes nothing in it that it should not. -/
def TokenRewritable (base subvolPath text value : Str) : Prop :=
  ∃ token, rootflagsTokens base = [token] ∧
    if text = [] then otherMounts (mountPart token) = []
    else if isRootflags text then LaterMount subvolPath (mountPart text) value
    else value = subvolPath ∧ subvols (mountPart token) = [subvolName ++ subvolPath]

/-- The path has no comma, and the base options have no `rootflags` token when they have no marker;
else the token with the first marker can be rewritten. -/
def SubvolRewritable (baseOptions : Option Str) (subvolPath : Str) : Prop :=
  ',' ∉ subvolPath ∧ ∀ base, baseOptions = some base →
    (mrdStrFind base subvolMarker = none → rootflagsTokens base = []) ∧
    ∀ before text value behind, MarkerAt base before text value behind →
      TokenRewritable base subvolPath text value

theorem tokensRewritten_absent_iff (subvolPath : Str) (before : List Str) :
    TokensRewritten subvolPath before [] (subvolMarker ++ subvolPath) [] ↔
      ',' ∉ subvolPath ∧ before.filter isRootflags = [] := by
  have flag : isRootflags (subvolMarker ++ subvolPath) = true :=
    (isRootflags_marked_iff [] subvolPath).mpr (.inl rfl)
  have once : (before ++ [subvolMarker ++ subvolPath]).filter isRootflags =
      before.filter isRootflags ++ [subvolMarker ++ subvolPath] := by
    rw [List.filter_append, List.filter_cons_of_pos flag, List.filter_nil]
  constructor
  · intro rewritten
    obtain ⟨token, only, named, _⟩ := rewritten.once
    rw [once] at only
    exact ⟨not_mem_of_subvols named, (append_cons_eq_singleton.mp only).1⟩
  · rintro ⟨plain, absent⟩
    refine ⟨fun token mem => absurd mem List.not_mem_nil, subvolMarker ++ subvolPath, ?_, ?_, ?_⟩
    · rw [once, absent]
      rfl
    · rw [mountPart_marker]
      exact (subvols_path plain).1
    · rw [mountPart_marker, (subvols_path plain).2, List.append_nil, List.append_nil, absent]
      rfl

section

variable {base before text value behind subvolPath : Str}

/-- The tokens with a mark in front, or in a `rootflags` token. -/
theorem tokensRewritten_flag_iff (flag : text = [] ∨ isRootflags text = true) {l₁ l₂ : List Str} :
    TokensRewritten subvolPath l₁ [text ++ subvolMarker ++ value] (text ++ subvolMarker ++ subvolPath) l₂ ↔
      (l₁.filter isRootflags = [] ∧ l₂.filter isRootflags = []) ∧
        subvols (mountPart (text ++ subvolMarker ++ subvolPath)) = [subvolName ++ subvolPath] ∧
        otherMounts (mountPart (text ++ subvolMarker ++ subvolPath)) =
          otherMounts (mountPart (text ++ subvolMarker ++ value)) := by
  have new := (isRootflags_marked_iff text subvolPath).mpr flag
  have old := (isRootflags_marked_iff text value).mpr flag
  have once : (l₁ ++ (text ++ subvolMarker ++ subvolPath) :: l₂).filter isRootflags =
      l₁.filter isRootflags ++ (text ++ subvolMarker ++ subvolPath) :: l₂.filter isRootflags := by
    rw [List.filter_append, List.filter_cons_of_pos new]
  have was : (l₁ ++ [text ++ subvolMarker ++ value] ++ l₂).filter isRootflags =
      l₁.filter isRootflags ++ (text ++ subvolMarker ++ value) :: l₂.filter isRootflags := by
    rw [List.append_assoc, List.singleton_append, List.filter_append, List.filter_cons_of_pos old]
  constructor
  · intro rewritten
    obtain ⟨token, only, named, others⟩ := rewritten.once
    rw [once] at only
    obtain ⟨none₁, none₂, rfl⟩ := append_cons_eq_singleton.mp only
    rw [was, none₁, none₂] at others
    refine ⟨⟨none₁, none₂⟩, named, others.trans ?_⟩
    exact List.append_nil _
  · intro ⟨⟨none₁, none₂⟩, named, others⟩
    refine ⟨?_, text ++ subvolMarker ++ subvolPath, ?_, named, ?_⟩
    · intro token mem other
      obtain rfl := List.mem_singleton.mp mem
      cases old.symm.trans other
    · rw [once, none₁, none₂]
      rfl
    · rw [was, none₁, none₂, others]
      exact (List.append_nil _).symm

/-- The token is another one, whose text must not change. -/
theorem tokensRewritten_plain_iff (flag : ¬ (text = [] ∨ isRootflags text = true)) {l₁ l₂ : List Str} :
    TokensRewritten subvolPath l₁ [text ++ subvolMarker ++ value] (text ++ subvolMarker ++ subvolPath) l₂ ↔
      value = subvolPath ∧ ∃ token, l₁.filter isRootflags ++ l₂.filter isRootflags = [token] ∧
        subvols (mountPart token) = [subvolName ++ subvolPath] := by
  have new := Bool.eq_false_iff.mpr (mt (isRootflags_marked_iff text subvolPath).mp flag)
  have old := Bool.eq_false_iff.mpr (mt (isRootflags_marked_iff text value).mp flag)
  have once : (l₁ ++ (text ++ subvolMarker ++ subvolPath) :: l₂).filter isRootflags =
      l₁.filter isRootflags ++ l₂.filter isRootflags := by
    rw [List.filter_append, List.filter_cons_of_neg (by rw [new]; decide)]
  have was : (l₁ ++ [text ++ subvolMarker ++ value] ++ l₂).filter isRootflags =
      l₁.filter isRootflags ++ l₂.filter isRootflags := by
    rw [List.filter_append, List.filter_append, List.filter_cons_of_neg (by rw [old]; decide),
      List.filter_nil, List.append_nil]
  constructor
  · intro rewritten
    obtain ⟨token, only, named, _⟩ := rewritten.once
    rw [once] at only
    exact ⟨List.append_cancel_left (rewritten.kept _ List.mem_cons_self old), token, only, named⟩
  · intro ⟨same, token, only, named⟩
    refine ⟨?_, token, once.trans only, named, ?_⟩
    · intro token mem _
      rw [List.mem_singleton.mp mem, same]
    · rw [was, only]
      exact (List.append_nil _).symm

theorem rootflagsTokens_marked (h : MarkerAt base before text value behind) (plain : ' ' ∉ subvolPath) :
    rootflagsTokens base = (tokens before).filter isRootflags ++
      [text ++ subvolMarker ++ value].filter isRootflags ++ (tokens behind).filter isRootflags := by
  rw [rootflagsTokens, (rewritten_marked h plain).was, List.filter_append, List.filter_append]

theorem tokensRewritten_marked_iff (h : MarkerAt base before text value behind) (plain : ' ' ∉ subvolPath) :
    TokensRewritten subvolPath (tokens before) [text ++ subvolMarker ++ value]
        (text ++ subvolMarker ++ subvolPath) (tokens behind) ↔
      ',' ∉ subvolPath ∧ TokenRewritable base subvolPath text value := by
  have flags := rootflagsTokens_marked h plain
  by_cases flag : text = [] ∨ isRootflags text = true
  · rw [List.filter_cons_of_pos ((isRootflags_marked_iff text value).mpr flag), List.filter_nil,
      ← List.append_cons] at flags
    have one (P : Str → Prop) : (∃ token, rootflagsTokens base = [token] ∧ P token) ↔
        ((tokens before).filter isRootflags = [] ∧ (tokens behind).filter isRootflags = []) ∧
          P (text ++ subvolMarker ++ value) := by
      rw [flags]
      constructor
      · intro ⟨token, only, holds⟩
        obtain ⟨none₁, none₂, rfl⟩ := append_cons_eq_singleton.mp only
        exact ⟨⟨none₁, none₂⟩, holds⟩
      · intro ⟨⟨none₁, none₂⟩, holds⟩
        exact ⟨_, append_cons_eq_singleton.mpr ⟨none₁, none₂, rfl⟩, holds⟩
    rw [tokensRewritten_flag_iff flag, TokenRewritable, one]
    refine Iff.trans (and_congr_right fun _ => ?_) and_left_comm
    by_cases empty : text = []
    · rw [if_pos empty, empty, List.nil_append, mountPart_marker, mountPart_marker]
      constructor
      · intro ⟨named, others⟩
        have plainPath := not_mem_of_subvols named
        rw [(subvols_path plainPath).2] at others
        exact ⟨plainPath, others.symm⟩
      · intro ⟨plainPath, others⟩
        rw [(subvols_path plainPath).2]
        exact ⟨(subvols_path plainPath).1, others.symm⟩
    · have rootflags := flag.resolve_left empty
      rw [if_neg empty, if_pos rootflags]
      obtain ⟨part, rfl⟩ := List.isPrefixOf_iff_prefix.mp rootflags
      rw [List.append_assoc rootflagsName, List.append_assoc rootflagsName,
        List.append_assoc rootflagsName, mountPart_rootflags, mountPart_rootflags, mountPart_rootflags]
      exact laterMount_iff subvolPath part value
  · rw [List.filter_cons_of_neg (mt (isRootflags_marked_iff text value).mp flag), List.filter_nil,
      List.append_nil] at flags
    rw [not_or] at flag
    rw [tokensRewritten_plain_iff (not_or.mpr flag), TokenRewritable, flags]
    simp only [if_neg flag.1, if_neg flag.2]
    constructor
    · intro ⟨same, token, only, named⟩
      exact ⟨not_mem_of_subvols named, token, only, same, named⟩
    · intro ⟨_, token, only, same, named⟩
      exact ⟨same, token, only, named⟩

end

theorem StartsSnapshot.congr {base subvolPath result result' : Str} (same : tokens result = tokens result')
    (h : StartsSnapshot base subvolPath result) : StartsSnapshot base subvolPath result' := by
  refine ⟨same ▸ h.kept, ?_, same ▸ h.mode, same ▸ h.added⟩
  have once := h.once
  rw [rootflagsTokens, same] at once
  exact once

theorem tokens_nullOptions {subvolPath : Str} (plain : ' ' ∉ subvolPath) :
    tokens (snapshotLoadOptions none subvolPath) = tokens (snapshotLoadOptions (some []) subvolPath) := by
  have whole : ' ' ∉ subvolMarker ++ subvolPath := by
    rw [List.mem_append, not_or]
    exact ⟨fun mem => (mem_marker mem).1 rfl, plain⟩
  have absent : mrdStrFind [] subvolMarker = none := rfl
  have rewritten := (rewritten_absent absent plain).tokens_eq
  rw [rewritten, tokens, snapshotLoadOptions]
  have word := words_word (List.append_ne_nil_of_left_ne_nil (by decide) _) whole
  have both := words_ends (w := ['r', 'o']) (b := ' ' :: (subvolMarker ++ subvolPath))
    (List.cons_ne_nil _ _) (by decide) fun c first => (Option.some.inj first).symm
  rw [words_cons, word] at both
  exact both

theorem startsSnapshot_absent_iff {base subvolPath : Str}
    (absent : mrdStrFind base subvolMarker = none) (plain : ' ' ∉ subvolPath) :
    StartsSnapshot base subvolPath (snapshotLoadOptions (some base) subvolPath) ↔
      ',' ∉ subvolPath ∧ rootflagsTokens base = [] :=
  ((rewritten_absent absent plain).startsSnapshot_iff (.inl rfl)).trans (tokensRewritten_absent_iff _ _)

theorem startsSnapshot_marked_iff {base subvolPath before text value behind : Str}
    (h : MarkerAt base before text value behind) (plain : ' ' ∉ subvolPath) :
    StartsSnapshot base subvolPath (snapshotLoadOptions (some base) subvolPath) ↔
      ',' ∉ subvolPath ∧ TokenRewritable base subvolPath text value :=
  ((rewritten_marked h plain).startsSnapshot_iff (.inr ⟨_, rfl⟩)).trans (tokensRewritten_marked_iff h plain)

/-- The options start the snapshot exactly when the path has no comma and the base options can be
rewritten in the place of the first marker. -/
theorem snapshotLoadOptions_iff (baseOptions : Option Str) (subvolPath : Str) (plain : ' ' ∉ subvolPath) :
    StartsSnapshot (baseOptions.getD []) subvolPath (snapshotLoadOptions baseOptions subvolPath) ↔
      SubvolRewritable baseOptions subvolPath := by
  cases baseOptions with
  | none =>
    have same := tokens_nullOptions plain
    have absent : mrdStrFind [] subvolMarker = none := rfl
    have iff := startsSnapshot_absent_iff absent plain
    constructor
    · intro starts
      refine ⟨(iff.mp (starts.congr same)).1, ?_⟩
      rintro base ⟨⟩
    · rintro ⟨plainPath, _⟩
      exact (iff.mpr ⟨plainPath, rfl⟩).congr same.symm
  | some base =>
    show StartsSnapshot base subvolPath _ ↔ _
    constructor
    · intro starts
      have plainPath : ',' ∉ subvolPath := by
        obtain ⟨token, _, named, _⟩ := starts.once
        exact not_mem_of_subvols named
      refine ⟨plainPath, ?_⟩
      intro base' same
      obtain rfl := Option.some.inj same
      refine ⟨fun absent => ((startsSnapshot_absent_iff absent plain).mp starts).2, ?_⟩
      intro before text value behind here
      exact ((startsSnapshot_marked_iff here plain).mp starts).2
    · rintro ⟨plainPath, rewritable⟩
      obtain ⟨absent, marked⟩ := rewritable base rfl
      cases place : mrdStrFind base subvolMarker with
      | none => exact (startsSnapshot_absent_iff place plain).mpr ⟨plainPath, absent place⟩
      | some found =>
        obtain ⟨before, text, value, behind, here, -⟩ := exists_markerAt place
        exact (startsSnapshot_marked_iff here plain).mpr ⟨plainPath, marked _ _ _ _ here⟩

theorem snapshotLoadOptions_plain : StartsSnapshot "quiet rw".toList "@.snapshots/7/snapshot".toList
    (snapshotLoadOptions (some "quiet rw".toList) "@.snapshots/7/snapshot".toList) := by
  have absent : mrdStrFind "quiet rw".toList subvolMarker = none := by decide +kernel
  refine (snapshotLoadOptions_iff (some "quiet rw".toList) _ (by decide +kernel)).mpr ⟨?_, ?_⟩
  · decide +kernel
  · intro base same
    obtain rfl := Option.some.inj same
    refine ⟨fun _ => by decide +kernel, ?_⟩
    intro before text value behind here
    cases absent.symm.trans here.place

/-! ### Mount options behind the subvolume -/

/-- The compression of the base options is lost. -/
theorem snapshotLoadOptions_dropsMount :
    ¬ StartsSnapshot "rw rootflags=subvol=@,compress=zstd".toList "@.snapshots/7/snapshot".toList
      (snapshotLoadOptions (some "rw rootflags=subvol=@,compress=zstd".toList)
        "@.snapshots/7/snapshot".toList) := by
  intro starts
  obtain ⟨token, only, _, others⟩ := starts.once
  have result : rootflagsTokens (snapshotLoadOptions (some "rw rootflags=subvol=@,compress=zstd".toList)
      "@.snapshots/7/snapshot".toList) = ["rootflags=subvol=@.snapshots/7/snapshot".toList] := by
    decide +kernel
  obtain rfl := (List.cons.inj (result.symm.trans only)).1
  revert others
  decide +kernel

end Meridian.Discovery
