import Meridian.Loaders.BootArgsKept

/-!
# Runs over the boot arguments

When the value that a run leaves is the base with the requested options that it lacked, and a second run leaves it
alone. `SetBootArgs` goes by the requests and not by what the configured string has, the fix for AMFI does not look
for the key of the compatibility check, and only one fix stores anything where there is no value.
-/

namespace Meridian.Loaders

open Text Lib.Words

/-! ### A run -/

section Run

variable {config : BootArgsConfig} {behind : List UInt8} {args held : Str} {bootArgs : Option Str}

theorem configuredArgs_eq (config : BootArgsConfig) (args : Str) :
    configuredArgs config args = withOptions args (BootFix.all.filter (requestedFlags config).has) := by
  obtain ⟨replacement, amfi, compat, panicLog⟩ := config
  have flags : requestedFlags ⟨replacement, amfi, compat, panicLog⟩ = ⟨amfi, compat, panicLog⟩ := rfl
  rw [flags]
  unfold configuredArgs withOptions
  dsimp only
  cases amfi <;> cases compat <;> cases panicLog
  · exact (List.append_nil args).symm
  all_goals exact congrArg (args ++ ·) (by decide)

theorem configuredArgs_found {fix : BootFix} (requested : (requestedFlags config).has fix = true) :
    mrdStrIncludesCI (configuredArgs config args) fix.key = true := by
  rw [configuredArgs_eq]
  exact includesCI_withOptions (.inr (List.mem_filter.mpr ⟨fix.mem_all, requested⟩))

theorem without_has {flags : FixFlags} {fix : BootFix} :
    (flags.without args).has fix = true ↔ flags.has fix = true ∧ ¬ fix.key <:+: args := by
  have absent (key : Str) : (mrdStrFind args key).isNone = true ↔ ¬ key <:+: args := by
    rw [Option.isNone_iff_eq_none]
    exact Lib.Search.find_eq_none_iff
  cases fix <;> rw [FixFlags.has, FixFlags.has, FixFlags.without, Bool.and_eq_true, absent] <;> rfl

theorem storeBootArgsNvram_stored (held : Option Str) (data : Str) :
    (storeBootArgsNvram held data).2 = some data := by
  unfold storeBootArgsNvram
  split
  · assumption
  · rfl

theorem replacement_cases (config : BootArgsConfig) :
    (config.replacement = none ∧ ∀ behind st, setBootArgs config behind st = st) ∨
      ∃ args, config.replacement = some args ∧ ∀ behind st, setBootArgs config behind st =
        if st.bootArgs.any (varDataHolds · behind (configuredArgs config args)) then
          { st with flags := st.flags.without args }
        else { bootArgs := some (configuredArgs config args), flags := st.flags.without args } := by
  unfold BootArgsConfig.replacement setBootArgs
  cases config.setBootArgs with
  | none => exact .inl ⟨rfl, fun _ _ => rfl⟩
  | some args =>
    cases args with
    | nil => exact .inl ⟨rfl, fun _ _ => rfl⟩
    | cons c args =>
      refine .inr ⟨c :: args, rfl, fun behind st => ?_⟩
      dsimp only
      rw [storeBootArgsNvram_stored]

/-- The new string is stored where it is not taken for found, and the fixes leave it. -/
theorem bootArgsAfter_stored (replacement : config.replacement = some args)
    (absent : bootArgs.any (varDataHolds · behind (configuredArgs config args)) = false) :
    bootArgsAfter config behind bootArgs = some (configuredArgs config args) := by
  obtain ⟨none, -⟩ | ⟨args', same, set⟩ := replacement_cases config
  · cases none.symm.trans replacement
  · obtain rfl := Option.some.inj (same.symm.trans replacement)
    rw [bootArgsAfter, runMacBootSupportFuncs, set]
    dsimp only
    rw [if_neg (by rw [absent]; exact Bool.false_ne_true), fixes_some, appended_eq_nil, withOptions_nil]
    intro fix flagged
    exact configuredArgs_found (without_has.mp flagged).1

/-- The old value stays where the new one is taken for found in it, for the fixes to do the rest. -/
theorem bootArgsAfter_found (replacement : config.replacement = some args)
    (found : varDataHolds held behind (configuredArgs config args) = true) :
    bootArgsAfter config behind (some held) =
      some (withOptions held (appended ((requestedFlags config).without args) held)) := by
  obtain ⟨none, -⟩ | ⟨args', same, set⟩ := replacement_cases config
  · cases none.symm.trans replacement
  · obtain rfl := Option.some.inj (same.symm.trans replacement)
    rw [bootArgsAfter, runMacBootSupportFuncs, set]
    dsimp only
    rw [Option.any_some, found, if_pos rfl, fixes_some]

theorem bootArgsAfter_held (replacement : config.replacement = none) (behind : List UInt8) (held : Str) :
    bootArgsAfter config behind (some held) = some (withOptions held (appended (requestedFlags config) held)) := by
  obtain ⟨-, set⟩ | ⟨args, same, -⟩ := replacement_cases config
  · rw [bootArgsAfter, runMacBootSupportFuncs, set, fixes_some]
  · cases same.symm.trans replacement

theorem bootArgsAfter_none (replacement : config.replacement = none) (behind : List UInt8) :
    bootArgsAfter config behind none =
      ([.amfi, .compat, .panicLog].find? (requestedFlags config).has).map BootFix.option := by
  obtain ⟨-, set⟩ | ⟨args, same, -⟩ := replacement_cases config
  · rw [bootArgsAfter, runMacBootSupportFuncs, set, fixes_none]
  · cases same.symm.trans replacement

/-! ### When a run sets what it should -/

variable {behind' : List UInt8}

theorem setsBootArgs_none_iff (replacement : config.replacement = none) :
    SetsBootArgs config behind behind' none ↔
      ∀ fix other, (requestedFlags config).has fix = true → (requestedFlags config).has other = true →
        fix = other := by
  have base : baseTokens config none = [] := by
    rw [baseTokens, replacement]
    exact words_nil
  have once : NamedOnce ([] : List Str) := fun fix => Nat.zero_le 1
  have after := bootArgsAfter_none replacement
  generalize eq : [BootFix.amfi, .compat, .panicLog].find? (requestedFlags config).has = first at after
  cases first with
  | none =>
    have idle (fix : BootFix) : (requestedFlags config).has fix ≠ true :=
      List.find?_eq_none.mp eq fix (by cases fix <;> decide)
    refine iff_of_true ⟨?_, ?_⟩ fun fix _ requested => absurd requested (idle fix)
    · rw [base, after]
      exact (rightArgs_append_iff once List.nodup_nil fun fix mem => absurd mem List.not_mem_nil).mpr
        fun fix requested => absurd requested (idle fix)
    · rw [after]
      exact after behind'
  | some first =>
    have flagged : (requestedFlags config).has first = true := List.find?_some eq
    have word : tokens first.option = [] ++ [first].map BootFix.option := by
      cases first <;> decide
    have right := rightArgs_append_iff once (List.nodup_singleton first) fun fix mem =>
      (List.mem_singleton.mp mem).symm ▸ flagged
    rw [← word] at right
    constructor
    · intro sets fix other requested requested'
      have all := sets.right
      rw [base, after] at all
      have alone (fix : BootFix) (requested : (requestedFlags config).has fix = true) : fix = first :=
        List.mem_singleton.mp ((right.mp all fix requested).mpr fun ⟨_, mem, _⟩ => absurd mem List.not_mem_nil)
      rw [alone fix requested, alone other requested']
    · intro alone
      refine ⟨?_, ?_⟩
      · rw [base, after]
        refine right.mpr fun fix requested => iff_of_true ?_ fun ⟨_, mem, _⟩ => absurd mem List.not_mem_nil
        exact List.mem_singleton.mpr (alone fix first requested flagged)
      · rw [after, Option.map_some, bootArgsAfter_held replacement, appended_eq_nil, withOptions_nil]
        intro fix requested
        obtain rfl := alone fix first requested flagged
        refine includesCI_of_named ⟨fix.option, ?_, ?_⟩
        · rw [word]
          exact List.mem_cons_self
        · rw [BootFix.names_option]
          exact decide_eq_true rfl

theorem setsBootArgs_held_iff (replacement : config.replacement = none) (once : NamedOnce (tokens held)) :
    SetsBootArgs config behind behind' (some held) ↔
      ∀ fix, (requestedFlags config).has fix = true →
        if fix = .compat ∧ lacks (requestedFlags config) held .amfi = true then ¬ Named (tokens held) fix
        else mrdStrIncludesCI held fix.key = true → Named (tokens held) fix := by
  have base : baseTokens config (some held) = tokens held := by
    rw [baseTokens, replacement]
    rfl
  have after := bootArgsAfter_held replacement behind held
  have asked : ∀ fix ∈ appended (requestedFlags config) held, (requestedFlags config).has fix = true :=
    fun fix mem => appends_has (mem_appended.mp mem)
  have again : bootArgsAfter config behind' (bootArgsAfter config behind (some held)) =
      bootArgsAfter config behind (some held) := by
    rw [after, bootArgsAfter_held replacement, appended_again, withOptions_nil]
  have right := rightArgs_append_iff once (appended_nodup _ held) asked
  rw [← tokens_withOptions] at right
  have whole : SetsBootArgs config behind behind' (some held) ↔
      RightArgs (tokens held) (requestedFlags config).has
        (tokens (withOptions held (appended (requestedFlags config) held))) := by
    constructor
    · intro sets
      have all := sets.right
      rw [base, after] at all
      exact all
    · intro all
      refine ⟨?_, again⟩
      rw [base, after]
      exact all
  rw [whole, right]
  refine forall_congr' fun fix => forall_congr' fun requested => ?_
  rw [mem_appended, appends]
  by_cases special : fix = .compat ∧ lacks (requestedFlags config) held .amfi = true
  · have flag : (requestedFlags config).varNoCheckCompat = true := by
      rw [special.1] at requested
      exact requested
    rw [if_pos special, decide_eq_true special.1, flag, special.2, Bool.and_true, Bool.and_true, Bool.or_true]
    exact ⟨fun both => both.mp rfl, fun absent => iff_of_true rfl absent⟩
  · have plain : (decide (fix = .compat) && (requestedFlags config).varNoCheckCompat &&
        lacks (requestedFlags config) held .amfi) = false := by
      rw [Bool.and_eq_false_iff, Bool.and_eq_false_iff, decide_eq_false_iff_not]
      rw [not_and_or, Bool.not_eq_true] at special
      exact special.imp_left .inl
    rw [if_neg special, plain, Bool.or_false, lacks, requested, Bool.true_and, Bool.not_eq_true',
      ← Bool.not_eq_true, not_iff_not]
    exact ⟨fun both => both.mp, fun found => ⟨found, includesCI_of_named⟩⟩

theorem setsBootArgs_stored_iff (replacement : config.replacement = some args) (once : NamedOnce (tokens args))
    (absent : bootArgs.any (varDataHolds · behind (configuredArgs config args)) = false) :
    SetsBootArgs config behind behind' bootArgs ↔
      ∀ fix, (requestedFlags config).has fix = true → ¬ Named (tokens args) fix := by
  have base : baseTokens config bootArgs = tokens args := by
    rw [baseTokens, replacement]
    rfl
  have after := bootArgsAfter_stored replacement absent
  have again : bootArgsAfter config behind' (some (configuredArgs config args)) =
      some (configuredArgs config args) := by
    cases found : varDataHolds (configuredArgs config args) behind' (configuredArgs config args) with
    | false => exact bootArgsAfter_stored replacement found
    | true =>
      rw [bootArgsAfter_found replacement found, appended_eq_nil, withOptions_nil]
      exact fun fix flagged => configuredArgs_found (without_has.mp flagged).1
  have nodup : BootFix.all.Nodup := by decide
  have right := rightArgs_append_iff once (nodup.filter (requestedFlags config).has) fun fix mem =>
    (List.mem_filter.mp mem).2
  rw [← tokens_withOptions, ← configuredArgs_eq] at right
  have asked (fix : BootFix) (requested : (requestedFlags config).has fix = true) :
      (fix ∈ BootFix.all.filter (requestedFlags config).has ↔ ¬ Named (tokens args) fix) ↔
        ¬ Named (tokens args) fix := by
    have mem : fix ∈ BootFix.all.filter (requestedFlags config).has :=
      List.mem_filter.mpr ⟨fix.mem_all, requested⟩
    exact ⟨fun both => both.mp mem, fun holds => iff_of_true mem holds⟩
  rw [← forall_congr' fun fix => forall_congr' (asked fix), ← right]
  constructor
  · intro sets
    have all := sets.right
    rw [base, after] at all
    exact all
  · intro all
    refine ⟨?_, ?_⟩
    · rw [base, after]
      exact all
    · rw [after]
      exact again

theorem setsBootArgs_found_iff (replacement : config.replacement = some args)
    (found : varDataHolds held behind (configuredArgs config args) = true) :
    let fixes := appended ((requestedFlags config).without args) held
    SetsBootArgs config behind behind' (some held) ↔
      RightArgs (tokens args) (fun fix => (requestedFlags config).has fix && !decide (fix ∈ fixes)) (tokens held) ∧
        (withOptions held fixes = configuredArgs config args ∨
          varDataHolds (withOptions held fixes) behind' (configuredArgs config args) = true) := by
  intro fixes
  have base : baseTokens config (some held) = tokens args := by
    rw [baseTokens, replacement]
    rfl
  have after : bootArgsAfter config behind (some held) = some (withOptions held fixes) :=
    bootArgsAfter_found replacement found
  have flagged (fix : BootFix) (mem : fix ∈ fixes) :
      (requestedFlags config).has fix = true ∧ ¬ fix.key <:+: args :=
    without_has.mp (appends_has (mem_appended.mp mem))
  have right : RightArgs (tokens args) (requestedFlags config).has (tokens held ++ fixes.map BootFix.option) ↔ _ :=
    rightArgs_behind_iff (appended_nodup _ _) (fun fix mem => (flagged fix mem).1) fun fix mem named =>
      (flagged fix mem).2 (key_infix_of_named named)
  rw [← tokens_withOptions] at right
  have again : bootArgsAfter config behind' (some (withOptions held fixes)) = some (withOptions held fixes) ↔
      withOptions held fixes = configuredArgs config args ∨
        varDataHolds (withOptions held fixes) behind' (configuredArgs config args) = true := by
    cases later : varDataHolds (withOptions held fixes) behind' (configuredArgs config args) with
    | true =>
      refine iff_of_true ?_ (.inr rfl)
      rw [bootArgsAfter_found replacement later, appended_again, withOptions_nil]
    | false =>
      have absent : (some (withOptions held fixes)).any
          (varDataHolds · behind' (configuredArgs config args)) = false := later
      rw [bootArgsAfter_stored replacement absent]
      exact ⟨fun same => .inl (Option.some.inj same).symm,
        fun either => congrArg some (either.resolve_right Bool.false_ne_true).symm⟩
  constructor
  · rintro ⟨all, same⟩
    rw [base, after] at all
    rw [after] at same
    exact ⟨right.mp all, again.mp same⟩
  · rintro ⟨all, same⟩
    refine ⟨?_, ?_⟩
    · rw [base, after]
      exact right.mpr all
    · rw [after]
      exact again.mpr same

end Run

/-- Without a configured string: an absent value and one request at most, or a value in which a key is found only
as that of a token, and that does not name the option of the compatibility check where the fix for AMFI appends
it. With one: it names no requested option; or, where the search takes it for found in the old value and what is
behind it in memory, the old value is right but for what the fixes append, and stays. -/
def BootArgsFit (config : BootArgsConfig) (behind behind' : List UInt8) (bootArgs : Option Str) : Prop :=
  match config.replacement, bootArgs with
  | none, none =>
    ∀ fix other, (requestedFlags config).has fix = true → (requestedFlags config).has other = true → fix = other
  | none, some held => ∀ fix, (requestedFlags config).has fix = true →
    if fix = .compat ∧ lacks (requestedFlags config) held .amfi = true then ¬ Named (tokens held) fix
    else mrdStrIncludesCI held fix.key = true → Named (tokens held) fix
  | some args, bootArgs =>
    match bootArgs.filter (varDataHolds · behind (configuredArgs config args)) with
    | none => ∀ fix, (requestedFlags config).has fix = true → ¬ Named (tokens args) fix
    | some held =>
      let fixes := appended ((requestedFlags config).without args) held
      RightArgs (tokens args) (fun fix => (requestedFlags config).has fix && !decide (fix ∈ fixes)) (tokens held) ∧
        (withOptions held fixes = configuredArgs config args ∨
          varDataHolds (withOptions held fixes) behind' (configuredArgs config args) = true)

theorem setsBootArgs_iff (config : BootArgsConfig) (behind behind' : List UInt8) (bootArgs : Option Str)
    (once : NamedOnce (baseTokens config bootArgs)) :
    SetsBootArgs config behind behind' bootArgs ↔ BootArgsFit config behind behind' bootArgs := by
  unfold BootArgsFit
  cases replacement : config.replacement with
  | none =>
    cases bootArgs with
    | none => exact setsBootArgs_none_iff replacement
    | some held =>
      rw [baseTokens, replacement] at once
      exact setsBootArgs_held_iff replacement once
  | some args =>
    rw [baseTokens, replacement] at once
    dsimp only
    cases bootArgs with
    | none => exact setsBootArgs_stored_iff replacement once rfl
    | some held =>
      rw [Option.filter_some]
      cases found : varDataHolds held behind (configuredArgs config args) with
      | false => exact setsBootArgs_stored_iff replacement once found
      | true => exact setsBootArgs_found_iff replacement found

/-- One request, and a value with other tokens. -/
theorem setsBootArgs_verbose :
    SetsBootArgs ⟨none, true, false, false⟩ [] [] (some "-v keepsyms=1".toList) ↔
      BootArgsFit ⟨none, true, false, false⟩ [] [] (some "-v keepsyms=1".toList) := by
  refine setsBootArgs_iff _ _ _ _ fun fix => ?_
  cases fix <;> decide +kernel

/-- The option of the compatibility check is there, and comes a second time with that for AMFI. -/
theorem setsBootArgs_twice :
    ¬ SetsBootArgs ⟨none, true, true, false⟩ [] [] (some "-no_compat_check".toList) := by
  intro sets
  have once := sets.right.once .compat rfl
  revert once
  decide +kernel

end Meridian.Loaders
