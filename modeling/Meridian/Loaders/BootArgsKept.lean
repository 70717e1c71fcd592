import Meridian.Loaders.BootArgs
import Mathlib.Data.List.Infix
import Mathlib.Data.List.Nodup
import Mathlib.Data.List.Perm.Basic

/-!
# What the fixes append to the boot arguments

Every template is the value that is there with options behind it. Which options these are, and when they are the
right ones behind a base.
-/

namespace Meridian.Loaders

open Text Lib.Words

/-! ### Finding a key -/

theorem startsCI_append {big small : Str} (starts : startsCI big small = true) (more : Str) :
    startsCI (big ++ more) small = true := by
  induction small generalizing big with
  | nil => cases big <;> cases more <;> rfl
  | cons c small ih =>
    cases big with
    | nil => cases starts
    | cons b big =>
      rw [startsCI, Bool.and_eq_true] at starts
      rw [List.cons_append, startsCI, Bool.and_eq_true]
      exact ⟨starts.1, ih starts.2⟩

theorem startsCI_self (small more : Str) : startsCI (small ++ more) small = true := by
  induction small with
  | nil => cases more <;> rfl
  | cons c small ih =>
    rw [List.cons_append, startsCI, Bool.and_eq_true]
    exact ⟨decide_eq_true rfl, ih⟩

theorem includesCI_iff {big small : Str} (nonempty : small ≠ []) :
    mrdStrIncludesCI big small = true ↔ ∃ tail, tail <:+ big ∧ startsCI tail small = true := by
  have some : ¬ (big = [] ∧ small = []) := fun both => nonempty both.2
  rw [mrdStrIncludesCI, if_neg some]
  by_cases empty : big = []
  · subst empty
    rw [if_pos (.inl rfl)]
    refine iff_of_false Bool.false_ne_true ?_
    rintro ⟨tail, suffix, starts⟩
    rw [List.suffix_nil.mp suffix] at starts
    cases small with
    | nil => exact nonempty rfl
    | cons c small => cases starts
  · rw [if_neg (not_or.mpr ⟨empty, nonempty⟩), List.any_eq_true]
    exact exists_congr fun tail => and_congr_left' (List.mem_tails tail big)

theorem includesCI_append {big small : Str} (nonempty : small ≠ []) (inside : mrdStrIncludesCI big small = true)
    (more : Str) : mrdStrIncludesCI (big ++ more) small = true := by
  obtain ⟨tail, ⟨front, rfl⟩, starts⟩ := (includesCI_iff nonempty).mp inside
  refine (includesCI_iff nonempty).mpr ⟨tail ++ more, ⟨front, ?_⟩, startsCI_append starts more⟩
  rw [List.append_assoc]

theorem includesCI_of_infix {big small : Str} (nonempty : small ≠ []) (inside : small <:+: big) :
    mrdStrIncludesCI big small = true := by
  obtain ⟨front, back, rfl⟩ := inside
  refine (includesCI_iff nonempty).mpr ⟨small ++ back, ⟨front, ?_⟩, startsCI_self small back⟩
  rw [List.append_assoc]

theorem BootFix.key_ne_nil (fix : BootFix) : fix.key ≠ [] := by
  cases fix <;> decide

theorem BootFix.names_option (fix other : BootFix) : fix.names other.option = decide (other = fix) := by
  cases fix <;> cases other <;> decide

theorem BootFix.mem_all (fix : BootFix) : fix ∈ BootFix.all := by
  cases fix <;> decide

/-- A token with the key stands in the string. -/
theorem key_infix_of_named {args : Str} {fix : BootFix} (named : Named (tokens args) fix) : fix.key <:+: args := by
  obtain ⟨token, mem, names⟩ := named
  have key : token.takeWhile (· ≠ '=') = fix.key := of_decide_eq_true names
  have inside : token <:+: args := infix_of_mem_words args mem
  rw [← key]
  exact (List.takeWhile_prefix _).isInfix.trans inside

theorem includesCI_of_named {args : Str} {fix : BootFix} (named : Named (tokens args) fix) :
    mrdStrIncludesCI args fix.key = true :=
  includesCI_of_infix fix.key_ne_nil (key_infix_of_named named)

/-! ### Options appended -/

/-- Every template is the value with some of the options behind it. -/
def withOptions (args : Str) (fixes : List BootFix) : Str := args ++ fixes.flatMap fun fix => ' ' :: fix.option

theorem tokens_withOptions (args : Str) (fixes : List BootFix) :
    tokens (withOptions args fixes) = tokens args ++ fixes.map BootFix.option := by
  have word (fix : BootFix) : tokens fix.option = [fix.option] := by
    cases fix <;> decide
  induction fixes generalizing args with
  | nil =>
    rw [withOptions, List.flatMap_nil, List.append_nil, List.map_nil, List.append_nil]
  | cons fix fixes ih =>
    have step : withOptions args (fix :: fixes) = withOptions (args ++ ' ' :: fix.option) fixes := by
      rw [withOptions, withOptions, List.flatMap_cons, List.append_assoc]
    rw [step, ih, tokens, words_append_cons, List.map_cons]
    rw [← tokens, ← tokens, word, List.append_assoc, List.singleton_append]

/-- The fix is flagged, and its key is not found in the value. -/
def lacks (flags : FixFlags) (held : Str) (fix : BootFix) : Bool := flags.has fix && !mrdStrIncludesCI held fix.key

/-- The option is appended: the fix for AMFI does not look for the key of the compatibility check. -/
def appends (flags : FixFlags) (held : Str) (fix : BootFix) : Bool :=
  lacks flags held fix || fix = .compat && flags.varNoCheckCompat && lacks flags held .amfi

def appended (flags : FixFlags) (held : Str) : List BootFix :=
  [.panicLog, .compat, .amfi].filter (appends flags held)

theorem mem_appended {flags : FixFlags} {held : Str} {fix : BootFix} :
    fix ∈ appended flags held ↔ appends flags held fix = true := by
  rw [appended, List.mem_filter]
  exact and_iff_right (by cases fix <;> decide)

theorem appended_nodup (flags : FixFlags) (held : Str) : (appended flags held).Nodup :=
  List.Nodup.filter _ (by decide)

theorem appends_has {flags : FixFlags} {held : Str} {fix : BootFix} (appends' : appends flags held fix = true) :
    flags.has fix = true := by
  rw [appends, Bool.or_eq_true, lacks, Bool.and_eq_true, Bool.and_eq_true, Bool.and_eq_true,
    decide_eq_true_eq] at appends'
  obtain lacks | ⟨⟨rfl, flagged⟩, -⟩ := appends'
  · exact lacks.1
  · exact flagged

/-! ### Right arguments -/

section Right

variable {base : List Str} {requested : BootFix → Bool} {fixes : List BootFix}

theorem countP_options (nodup : fixes.Nodup) (fix : BootFix) :
    (fixes.map BootFix.option).countP fix.names = if fix ∈ fixes then 1 else 0 := by
  have same : (fix.names ∘ BootFix.option) = fun other => other == fix := by
    funext other
    rw [Function.comp_apply, BootFix.names_option, beq_eq_decide]
  rw [List.countP_map, same, ← List.count_eq_countP, List.Nodup.count nodup]

theorem countP_named (once : NamedOnce base) (fix : BootFix) :
    base.countP fix.names = if Named base fix then 1 else 0 := by
  have positive : 0 < base.countP fix.names ↔ Named base fix := List.countP_pos_iff
  have few := once fix
  split
  · rename_i named
    have := positive.mpr named
    omega
  · rename_i absent
    have := mt positive.mp absent
    omega

theorem mem_missing {fix : BootFix} :
    (fix ∈ BootFix.all.filter fun fix => requested fix && !decide (Named base fix)) ↔
      requested fix = true ∧ ¬ Named base fix := by
  rw [List.mem_filter, and_iff_right fix.mem_all, Bool.and_eq_true, Bool.not_eq_true', decide_eq_false_iff_not]

theorem missing_nodup : (BootFix.all.filter fun fix => requested fix && !decide (Named base fix)).Nodup :=
  List.Nodup.filter _ (by decide)

/-- Requested options behind the base are right exactly when they are those that it does not name. -/
theorem rightArgs_append_iff (once : NamedOnce base) (nodup : fixes.Nodup)
    (asked : ∀ fix ∈ fixes, requested fix = true) :
    RightArgs base requested (base ++ fixes.map BootFix.option) ↔
      ∀ fix, requested fix = true → (fix ∈ fixes ↔ ¬ Named base fix) := by
  have count (fix : BootFix) : (base ++ fixes.map BootFix.option).countP fix.names =
      (if Named base fix then 1 else 0) + if fix ∈ fixes then 1 else 0 := by
    rw [List.countP_append, countP_named once, countP_options nodup]
  constructor
  · intro right fix wanted
    have one := right.once fix wanted
    rw [count] at one
    by_cases named : Named base fix <;> by_cases added : fix ∈ fixes <;> simp [named, added] at one ⊢
  · intro all
    refine ⟨List.sublist_append_left _ _, List.Perm.append_left _ (List.Perm.map _ ?_), fun fix wanted => ?_⟩
    · refine (List.perm_ext_iff_of_nodup nodup missing_nodup).mpr fun fix => ?_
      rw [mem_missing]
      exact ⟨fun added => ⟨asked fix added, (all fix (asked fix added)).mp added⟩,
        fun both => (all fix both.1).mpr both.2⟩
    · rw [count]
      by_cases named : Named base fix
      · rw [if_pos named, if_neg fun added => (all fix wanted).mp added named]
      · rw [if_neg named, if_pos ((all fix wanted).mpr named)]

/-- Options that the base does not name, behind something else, are right exactly when that is right without
them. -/
theorem rightArgs_behind_iff {held : List Str} (nodup : fixes.Nodup)
    (asked : ∀ fix ∈ fixes, requested fix = true) (absent : ∀ fix ∈ fixes, ¬ Named base fix) :
    RightArgs base requested (held ++ fixes.map BootFix.option) ↔
      RightArgs base (fun fix => requested fix && !decide (fix ∈ fixes)) held := by
  have count (fix : BootFix) : (held ++ fixes.map BootFix.option).countP fix.names =
      held.countP fix.names + if fix ∈ fixes then 1 else 0 := by
    rw [List.countP_append, countP_options nodup]
  have split : (BootFix.all.filter fun fix => requested fix && !decide (Named base fix)).Perm
      ((BootFix.all.filter fun fix =>
        (requested fix && !decide (fix ∈ fixes)) && !decide (Named base fix)) ++ fixes) := by
    refine (List.perm_ext_iff_of_nodup missing_nodup ?_).mpr fun fix => ?_
    · refine List.Nodup.append (List.Nodup.filter _ (by decide)) nodup fun fix left right => ?_
      have out := (List.mem_filter.mp left).2
      rw [decide_eq_true right, Bool.not_true, Bool.and_false, Bool.false_and] at out
      cases out
    · rw [mem_missing, List.mem_append, List.mem_filter, and_iff_right fix.mem_all]
      by_cases added : fix ∈ fixes
      · exact iff_of_true ⟨asked fix added, absent fix added⟩ (.inr added)
      · simp [added]
  have tails : (held ++ fixes.map BootFix.option).Perm
      (base ++ (BootFix.all.filter fun fix => requested fix && !decide (Named base fix)).map BootFix.option) ↔
      held.Perm (base ++ (BootFix.all.filter fun fix =>
        (requested fix && !decide (fix ∈ fixes)) && !decide (Named base fix)).map BootFix.option) := by
    have whole := (split.map BootFix.option).append_left base
    rw [List.map_append, ← List.append_assoc] at whole
    exact (List.Perm.congr_right whole _).trans (List.perm_append_right_iff _)
  constructor
  · rintro ⟨order, added, once⟩
    refine ⟨?_, tails.mp added, fun fix wanted => ?_⟩
    · obtain ⟨front, back, rfl, inFront, inBack⟩ := List.sublist_append_iff.mp order
      cases back with
      | nil => rwa [List.append_nil]
      | cons token back =>
        obtain ⟨fix, mem, rfl⟩ := List.mem_map.mp (inBack.subset List.mem_cons_self)
        refine absurd ⟨fix.option, List.mem_append_right _ List.mem_cons_self, ?_⟩ (absent fix mem)
        rw [BootFix.names_option]
        exact decide_eq_true rfl
    · rw [Bool.and_eq_true, Bool.not_eq_true', decide_eq_false_iff_not] at wanted
      have one := once fix wanted.1
      rw [count, if_neg wanted.2] at one
      exact one
  · rintro ⟨order, added, once⟩
    refine ⟨order.trans (List.sublist_append_left _ _), tails.mpr added, fun fix wanted => ?_⟩
    rw [count]
    by_cases mem : fix ∈ fixes
    · have none : held.countP fix.names = 0 := by
        rw [added.countP_eq, List.countP_append, countP_options (List.Nodup.filter _ (by decide)), if_neg]
        · rw [Nat.add_zero, List.countP_eq_zero]
          exact fun token inside names => absent fix mem ⟨token, inside, names⟩
        · rw [List.mem_filter, decide_eq_true mem, Bool.not_true, Bool.and_false, Bool.false_and]
          exact fun both => Bool.false_ne_true both.2
      rw [none, if_pos mem]
    · rw [if_neg mem]
      refine once fix ?_
      rw [wanted, decide_eq_false mem]
      rfl

end Right

/-! ### The fixes, one after another -/

section Fixes

variable {flags : FixFlags} {held : Str}

theorem storeBootArgsNvram_longer (held : Str) {more : Str} (nonempty : more ≠ []) :
    storeBootArgsNvram (some held) (held ++ more) = (.success, some (held ++ more)) := by
  refine if_neg fun same => nonempty ?_
  exact List.self_eq_append_right.mp (Option.some.inj same)

/-- A fix that finds its key clears its flag; another one stores the value with options behind it. -/
theorem applyMacBootFix_some (disable : FixFlags → FixFlags) (checkArg buildNotFound : Str)
    (buildFromCurrent : FixFlags → Str → Str) {fixes : List BootFix}
    (built : mrdStrIncludesCI held checkArg = false →
      fixes ≠ [] ∧ buildFromCurrent flags held = withOptions held fixes) :
    applyMacBootFix disable checkArg buildNotFound buildFromCurrent { bootArgs := some held, flags } =
      if mrdStrIncludesCI held checkArg then { bootArgs := some held, flags := disable flags }
      else { bootArgs := some (withOptions held fixes), flags := ⟨false, false, false⟩ } := by
  unfold applyMacBootFix
  dsimp only
  cases found : mrdStrIncludesCI held checkArg with
  | true => rfl
  | false =>
    obtain ⟨nonempty, eq⟩ := built found
    have longer : (fixes.flatMap fun fix => ' ' :: fix.option) ≠ [] := by
      obtain ⟨fix, fixes, rfl⟩ := List.exists_cons_of_ne_nil nonempty
      exact List.cons_ne_nil _ _
    rw [if_neg Bool.false_ne_true, if_neg Bool.false_ne_true, eq, finishMacBootArg]
    dsimp only
    rw [withOptions, storeBootArgsNvram_longer held longer]

/-- The options in the order of the fixes. -/
def fixesOf (panicLog compat amfi : Bool) : List BootFix :=
  (if panicLog then [.panicLog] else []) ++ ((if compat then [.compat] else []) ++ if amfi then [.amfi] else [])

theorem appended_eq_fixesOf (flags : FixFlags) (held : Str) :
    appended flags held =
      fixesOf (appends flags held .panicLog) (appends flags held .compat) (appends flags held .amfi) := by
  rw [appended, List.filter_cons, List.filter_cons, List.filter_cons, List.filter_nil]
  generalize appends flags held .panicLog = panicLog
  generalize appends flags held .compat = compat
  generalize appends flags held .amfi = amfi
  cases panicLog <;> cases compat <;> cases amfi <;> rfl

theorem appends_panicLog (flags : FixFlags) (held : Str) :
    appends flags held .panicLog = lacks flags held .panicLog := Bool.or_false _

theorem appends_amfi (flags : FixFlags) (held : Str) : appends flags held .amfi = lacks flags held .amfi :=
  Bool.or_false _

theorem appends_compat (flags : FixFlags) (held : Str) :
    appends flags held .compat =
      (lacks flags held .compat || flags.varNoCheckCompat && lacks flags held .amfi) := by
  rw [appends, decide_eq_true rfl, Bool.true_and]

theorem amfiBuildFromCurrent_eq (flags : FixFlags) (found : mrdStrIncludesCI held amfiKey = false) :
    amfiBuildFromCurrent flags held =
      withOptions held (fixesOf (lacks flags held .panicLog) flags.varNoCheckCompat true) := by
  unfold amfiBuildFromCurrent withOptions lacks FixFlags.has BootFix.key
  dsimp only
  rw [List.append_assoc]
  generalize mrdStrIncludesCI held panicLogKey = log
  generalize mrdStrIncludesCI held amfiKey = inside at found
  generalize flags.varNoCheckCompat = compat
  generalize flags.varDisablePanicLog = panicLog
  subst found
  refine congrArg (held ++ ·) ?_
  revert compat panicLog log
  decide

theorem compatBuildFromCurrent_eq (flags : FixFlags) (cleared : flags.varNoCheckAMFI = false) (held : Str) :
    compatBuildFromCurrent flags held =
      withOptions held (fixesOf (lacks flags held .panicLog) true false) := by
  unfold compatBuildFromCurrent withOptions lacks FixFlags.has BootFix.key
  dsimp only
  generalize mrdStrIncludesCI held panicLogKey = log
  generalize mrdStrIncludesCI held amfiKey = found
  generalize flags.varNoCheckAMFI = amfi at cleared
  generalize flags.varDisablePanicLog = panicLog
  subst cleared
  refine congrArg (held ++ ·) ?_
  revert panicLog log found
  decide

theorem panicLogBuildFromCurrent_eq (flags : FixFlags) (cleared : flags.varNoCheckAMFI = false)
    (cleared' : flags.varNoCheckCompat = false) (held : Str) :
    panicLogBuildFromCurrent flags held = withOptions held (fixesOf true false false) := by
  unfold panicLogBuildFromCurrent withOptions
  dsimp only
  rw [List.append_assoc]
  generalize mrdStrIncludesCI held amfiKey = found
  generalize mrdStrIncludesCI held compatKey = found'
  generalize flags.varNoCheckAMFI = amfi at cleared
  generalize flags.varNoCheckCompat = compat at cleared'
  subst cleared cleared'
  refine congrArg (held ++ ·) ?_
  revert found found'
  decide

theorem noCheckAMFI_some (flags : FixFlags) (held : Str) :
    noCheckAMFI { bootArgs := some held, flags } =
      if lacks flags held .amfi then
        { bootArgs := some (withOptions held (fixesOf (lacks flags held .panicLog) flags.varNoCheckCompat true)),
          flags := ⟨false, false, false⟩ }
      else { bootArgs := some held, flags := { flags with varNoCheckAMFI := false } } := by
  unfold noCheckAMFI
  dsimp only
  rw [lacks, FixFlags.has]
  cases flagged : flags.varNoCheckAMFI with
  | false =>
    have same : { flags with varNoCheckAMFI := false } = flags := by rw [← flagged]
    rw [same]
    rfl
  | true =>
    rw [Bool.not_true, if_neg Bool.false_ne_true, applyMacBootFix_some _ _ _ _ fun found =>
      ⟨by cases lacks flags held .panicLog <;> cases flags.varNoCheckCompat <;> decide,
        amfiBuildFromCurrent_eq flags found⟩]
    rw [BootFix.key]
    cases mrdStrIncludesCI held amfiKey <;> rfl

theorem noCheckCompat_some (flags : FixFlags) (cleared : flags.varNoCheckAMFI = false) (held : Str) :
    noCheckCompat { bootArgs := some held, flags } =
      if lacks flags held .compat then
        { bootArgs := some (withOptions held (fixesOf (lacks flags held .panicLog) true false)),
          flags := ⟨false, false, false⟩ }
      else { bootArgs := some held, flags := { flags with varNoCheckCompat := false } } := by
  unfold noCheckCompat
  dsimp only
  rw [lacks, FixFlags.has]
  cases flagged : flags.varNoCheckCompat with
  | false =>
    have same : { flags with varNoCheckCompat := false } = flags := by rw [← flagged]
    rw [same]
    rfl
  | true =>
    rw [Bool.not_true, if_neg Bool.false_ne_true, applyMacBootFix_some _ _ _ _ fun found =>
      ⟨by cases lacks flags held .panicLog <;> decide, compatBuildFromCurrent_eq flags cleared held⟩]
    rw [BootFix.key]
    cases mrdStrIncludesCI held compatKey <;> rfl

theorem noNvramPanicLog_some (flags : FixFlags) (cleared : flags.varNoCheckAMFI = false)
    (cleared' : flags.varNoCheckCompat = false) (held : Str) :
    (noNvramPanicLog { bootArgs := some held, flags }).bootArgs =
      some (withOptions held (fixesOf (lacks flags held .panicLog) false false)) := by
  unfold noNvramPanicLog
  dsimp only
  rw [lacks, FixFlags.has]
  cases flagged : flags.varDisablePanicLog with
  | false => exact congrArg some (List.append_nil _).symm
  | true =>
    rw [Bool.not_true, if_neg Bool.false_ne_true, applyMacBootFix_some _ _ _ _ fun found =>
      ⟨by decide, panicLogBuildFromCurrent_eq flags cleared cleared' held⟩]
    rw [BootFix.key]
    cases mrdStrIncludesCI held panicLogKey with
    | true => exact congrArg some (List.append_nil _).symm
    | false => rfl

/-- Once the flags are cleared, no fix does anything. -/
theorem fixes_cleared (bootArgs : Option Str) :
    (noNvramPanicLog (noCheckCompat { bootArgs, flags := ⟨false, false, false⟩ })).bootArgs = bootArgs := rfl

/-- The fixes leave the value with the options behind it that are appended. -/
theorem fixes_some (flags : FixFlags) (held : Str) :
    (noNvramPanicLog (noCheckCompat (noCheckAMFI { bootArgs := some held, flags }))).bootArgs =
      some (withOptions held (appended flags held)) := by
  rw [appended_eq_fixesOf, appends_panicLog, appends_amfi, appends_compat, noCheckAMFI_some]
  cases amfi : lacks flags held .amfi with
  | true =>
    rw [if_pos rfl, fixes_cleared, Bool.and_true]
    have compat : (lacks flags held .compat || flags.varNoCheckCompat) = flags.varNoCheckCompat := by
      rw [lacks, FixFlags.has]
      cases flags.varNoCheckCompat with
      | true => exact Bool.or_true _
      | false => rfl
    rw [compat]
  | false =>
    have same (fix : BootFix) (other : fix ≠ .amfi) :
        lacks { flags with varNoCheckAMFI := false } held fix = lacks flags held fix := by
      cases fix with
      | panicLog => rfl
      | amfi => exact absurd rfl other
      | compat => rfl
    rw [if_neg Bool.false_ne_true, Bool.and_false, Bool.or_false, noCheckCompat_some _ rfl,
      same .compat (by decide), same .panicLog (by decide)]
    cases compat : lacks flags held .compat with
    | true =>
      rw [if_pos rfl]
      rfl
    | false =>
      rw [if_neg Bool.false_ne_true, noNvramPanicLog_some _ rfl rfl]
      rfl

/-- Without a value the first fix that is flagged stores its option, and the flags of all are cleared. -/
theorem fixes_none (flags : FixFlags) :
    (noNvramPanicLog (noCheckCompat (noCheckAMFI { bootArgs := none, flags }))).bootArgs =
      ([.amfi, .compat, .panicLog].find? flags.has).map BootFix.option := by
  obtain ⟨amfi, compat, panicLog⟩ := flags
  cases amfi with
  | true => rfl
  | false =>
    cases compat with
    | true => rfl
    | false => cases panicLog <;> rfl

theorem appended_eq_nil (found : ∀ fix, flags.has fix = true → mrdStrIncludesCI held fix.key = true) :
    appended flags held = [] := by
  have none (fix : BootFix) : lacks flags held fix = false := by
    rw [lacks]
    cases flagged : flags.has fix with
    | false => rfl
    | true => rw [found fix flagged, Bool.not_true, Bool.and_false]
  rw [appended_eq_fixesOf, appends_panicLog, appends_amfi, appends_compat, none, none, none, Bool.and_false]
  rfl

theorem withOptions_nil (args : Str) : withOptions args [] = args := List.append_nil args

/-- What the options are appended to is found in the result, and so are they. -/
theorem includesCI_withOptions {fixes : List BootFix} {fix : BootFix}
    (found : mrdStrIncludesCI held fix.key = true ∨ fix ∈ fixes) :
    mrdStrIncludesCI (withOptions held fixes) fix.key = true := by
  obtain before | added := found
  · exact includesCI_append fix.key_ne_nil before _
  · refine includesCI_of_named ⟨fix.option, ?_, ?_⟩
    · rw [tokens_withOptions]
      exact List.mem_append_right _ (List.mem_map_of_mem added)
    · rw [BootFix.names_option]
      exact decide_eq_true rfl

/-- The fixes do nothing more to what they leave. -/
theorem appended_again (flags : FixFlags) (held : Str) :
    appended flags (withOptions held (appended flags held)) = [] := by
  refine appended_eq_nil fun fix flagged => includesCI_withOptions ?_
  cases found : mrdStrIncludesCI held fix.key with
  | true => exact .inl rfl
  | false =>
    refine .inr (mem_appended.mpr ?_)
    rw [appends, lacks, flagged, found]
    rfl

end Fixes

end Meridian.Loaders
