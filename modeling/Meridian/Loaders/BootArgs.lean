import Meridian.Text
import Meridian.Lib.Words

/-!
# The boot arguments of macOS

The model of what `RunMacBootSupportFuncs` of `loaders/macos_boot.c` does to `boot-args`, with
`StoreBootArgsNvram` of `policy/nvram_helpers.c`: `SetBootArgs` and the three fixes. The other functions that it
calls leave the variable alone. The strings are of ASCII characters, one byte each in the variable and a NUL
behind them; variable operations and allocations succeed.
-/

namespace Meridian.Loaders

open Text Lib.Words

structure BootArgsConfig where
  setBootArgs : Option Str
  disableCheckAMFI : Bool
  disableCheckCompat : Bool
  disableNvramPanicLog : Bool
  deriving DecidableEq, Repr

structure FixFlags where
  varNoCheckAMFI : Bool
  varNoCheckCompat : Bool
  varDisablePanicLog : Bool
  deriving DecidableEq, Repr

structure MacBoot where
  bootArgs : Option Str
  flags : FixFlags
  deriving DecidableEq, Repr

def amfiKey : Str := "amfi_get_out_of_my_way".toList

def compatKey : Str := "-no_compat_check".toList

def panicLogKey : Str := "nvram_paniclog".toList

inductive StoreStatus where
  | success | alreadyStarted
  deriving DecidableEq, Repr

def storeBootArgsNvram (held : Option Str) (data : Str) : StoreStatus × Option Str :=
  if held = some data then (.alreadyStarted, held) else (.success, some data)

/-! ### The configured arguments -/

/-- `BootArg`: the template goes by the requests. -/
def configuredArgs (config : BootArgsConfig) (args : Str) : Str :=
  if config.disableCheckAMFI ∧ config.disableCheckCompat ∧ config.disableNvramPanicLog then
    args ++ " nvram_paniclog=0 amfi_get_out_of_my_way=1 -no_compat_check".toList
  else if config.disableCheckAMFI ∧ config.disableNvramPanicLog then
    args ++ " nvram_paniclog=0 amfi_get_out_of_my_way=1".toList
  else if config.disableCheckCompat ∧ config.disableNvramPanicLog then
    args ++ " nvram_paniclog=0 -no_compat_check".toList
  else if config.disableCheckAMFI ∧ config.disableCheckCompat then
    args ++ " amfi_get_out_of_my_way=1 -no_compat_check".toList
  else if config.disableNvramPanicLog then args ++ " nvram_paniclog=0".toList
  else if config.disableCheckAMFI then args ++ " amfi_get_out_of_my_way=1".toList
  else if config.disableCheckCompat then args ++ " -no_compat_check".toList
  else args

/-- Bytes as the characters of a `CHAR16` string. -/
def char16s : List Nat → List Nat
  | lo :: hi :: rest => (lo + 256 * hi) :: char16s rest
  | _ => []

/-- `MrdStrFind(VarData, BootArg)`: the bytes of the variable are read as a `CHAR16` string, which goes on in the
memory behind them up to a null character. -/
def varDataHolds (held : Str) (behind : List UInt8) (bootArg : Str) : Bool :=
  let varData := (char16s (held.map Char.toNat ++ 0 :: behind.map UInt8.toNat)).takeWhile (· ≠ 0)
  (Lib.Search.find (bootArg.map Char.toNat) varData).isSome

/-- The flags are cleared of what the configured arguments hold. -/
def FixFlags.without (flags : FixFlags) (args : Str) : FixFlags where
  varNoCheckAMFI := flags.varNoCheckAMFI && (mrdStrFind args amfiKey).isNone
  varNoCheckCompat := flags.varNoCheckCompat && (mrdStrFind args compatKey).isNone
  varDisablePanicLog := flags.varDisablePanicLog && (mrdStrFind args panicLogKey).isNone

def setBootArgs (config : BootArgsConfig) (behind : List UInt8) (st : MacBoot) : MacBoot :=
  match config.setBootArgs with
  | none => st
  | some [] => st
  | some args =>
    let bootArg := configuredArgs config args
    let flags := st.flags.without args
    if st.bootArgs.any (varDataHolds · behind bootArg) then { st with flags }
    else { bootArgs := (storeBootArgsNvram st.bootArgs bootArg).2, flags }

/-! ### The fixes -/

/-- `StoreArgs` and `HandleArgs`; `disable` clears the flag of the fix. -/
def finishMacBootArg (disable : FixFlags → FixFlags) (bootArg : Str) (st : MacBoot) : MacBoot :=
  match storeBootArgsNvram st.bootArgs bootArg with
  | (.success, bootArgs) => { bootArgs, flags := ⟨false, false, false⟩ }
  | (.alreadyStarted, bootArgs) => { bootArgs, flags := disable st.flags }

def applyMacBootFix (disable : FixFlags → FixFlags) (checkArg : Str) (buildNotFound : Str)
    (buildFromCurrent : FixFlags → Str → Str) (st : MacBoot) : MacBoot :=
  match st.bootArgs with
  | none => finishMacBootArg disable buildNotFound st
  | some curArgs =>
    if mrdStrIncludesCI curArgs checkArg then { st with flags := disable st.flags }
    else finishMacBootArg disable (buildFromCurrent st.flags curArgs) st

def amfiBuildFromCurrent (flags : FixFlags) (curArgs : Str) : Str :=
  let argData := amfiKey
  let argData :=
    if flags.varNoCheckCompat ∧ !mrdStrIncludesCI curArgs amfiKey then
      "-no_compat_check amfi_get_out_of_my_way".toList
    else argData
  let argData :=
    if flags.varDisablePanicLog ∧ !mrdStrIncludesCI curArgs panicLogKey then
      if flags.varNoCheckCompat then "nvram_paniclog=0 -no_compat_check amfi_get_out_of_my_way".toList
      else "nvram_paniclog=0 amfi_get_out_of_my_way".toList
    else argData
  curArgs ++ ' ' :: argData ++ "=1".toList

def noCheckAMFI (st : MacBoot) : MacBoot :=
  if !st.flags.varNoCheckAMFI then st
  else applyMacBootFix (fun flags => { flags with varNoCheckAMFI := false }) amfiKey
    "amfi_get_out_of_my_way=1".toList amfiBuildFromCurrent st

def compatBuildFromCurrent (flags : FixFlags) (curArgs : Str) : Str :=
  let argData := compatKey
  let argData :=
    if flags.varNoCheckAMFI ∧ !mrdStrIncludesCI curArgs amfiKey then
      "amfi_get_out_of_my_way=1 -no_compat_check".toList
    else argData
  let argData :=
    if flags.varDisablePanicLog ∧ !mrdStrIncludesCI curArgs panicLogKey then
      if flags.varNoCheckAMFI then "nvram_paniclog=0 amfi_get_out_of_my_way=1 -no_compat_check".toList
      else "nvram_paniclog=0 -no_compat_check".toList
    else argData
  curArgs ++ ' ' :: argData

def noCheckCompat (st : MacBoot) : MacBoot :=
  if !st.flags.varNoCheckCompat then st
  else applyMacBootFix (fun flags => { flags with varNoCheckCompat := false }) compatKey
    compatKey compatBuildFromCurrent st

def panicLogBuildFromCurrent (flags : FixFlags) (curArgs : Str) : Str :=
  let argData := panicLogKey
  let argData :=
    if flags.varNoCheckAMFI ∧ !mrdStrIncludesCI curArgs amfiKey then
      "amfi_get_out_of_my_way=1 nvram_paniclog".toList
    else argData
  let argData :=
    if flags.varNoCheckCompat ∧ !mrdStrIncludesCI curArgs compatKey then
      if flags.varNoCheckAMFI then "-no_compat_check amfi_get_out_of_my_way=1 nvram_paniclog".toList
      else "-no_compat_check nvram_paniclog".toList
    else argData
  curArgs ++ ' ' :: argData ++ "=0".toList

def noNvramPanicLog (st : MacBoot) : MacBoot :=
  if !st.flags.varDisablePanicLog then st
  else applyMacBootFix (fun flags => { flags with varDisablePanicLog := false }) panicLogKey
    "nvram_paniclog=0".toList panicLogBuildFromCurrent st

def runMacBootSupportFuncs (config : BootArgsConfig) (behind : List UInt8) (st : MacBoot) : MacBoot :=
  noNvramPanicLog (noCheckCompat (noCheckAMFI (setBootArgs config behind st)))

/-- The flags as a start of the program sets them. -/
def requestedFlags (config : BootArgsConfig) : FixFlags where
  varNoCheckAMFI := config.disableCheckAMFI
  varNoCheckCompat := config.disableCheckCompat
  varDisablePanicLog := config.disableNvramPanicLog

/-- `boot-args` after a run. -/
def bootArgsAfter (config : BootArgsConfig) (behind : List UInt8) (bootArgs : Option Str) : Option Str :=
  (runMacBootSupportFuncs config behind { bootArgs, flags := requestedFlags config }).bootArgs

/-! ### What the run is for -/

/-- The three options, in the order that a template has them. -/
inductive BootFix where
  | panicLog | amfi | compat
  deriving DecidableEq, Repr

def BootFix.all : List BootFix := [.panicLog, .amfi, .compat]

def BootFix.key : BootFix → Str
  | .panicLog => panicLogKey
  | .amfi => amfiKey
  | .compat => compatKey

def BootFix.option : BootFix → Str
  | .panicLog => "nvram_paniclog=0".toList
  | .amfi => "amfi_get_out_of_my_way=1".toList
  | .compat => "-no_compat_check".toList

def FixFlags.has (flags : FixFlags) : BootFix → Bool
  | .panicLog => flags.varDisablePanicLog
  | .amfi => flags.varNoCheckAMFI
  | .compat => flags.varNoCheckCompat

def tokens (args : Str) : List Str := words ' ' args

/-- The part before an equals sign is the key. -/
def BootFix.names (fix : BootFix) (token : Str) : Bool := token.takeWhile (· ≠ '=') = fix.key

/-- One of the tokens names the option. -/
def Named (base : List Str) (fix : BootFix) : Prop := ∃ token ∈ base, fix.names token = true

instance (base : List Str) (fix : BootFix) : Decidable (Named base fix) :=
  inferInstanceAs (Decidable (∃ token ∈ base, fix.names token = true))

def NamedOnce (base : List Str) : Prop := ∀ fix : BootFix, base.countP fix.names ≤ 1

/-- The configured string, if there is one. -/
def BootArgsConfig.replacement (config : BootArgsConfig) : Option Str := config.setBootArgs.filter (· ≠ [])

def baseTokens (config : BootArgsConfig) (bootArgs : Option Str) : List Str :=
  tokens ((config.replacement.or bootArgs).getD [])

/-- The tokens of the base in their order, and each requested option that none of them names; no requested
option is named twice. -/
structure RightArgs (base : List Str) (requested : BootFix → Bool) (after : List Str) : Prop where
  order : base.Sublist after
  added : after.Perm
    (base ++ (BootFix.all.filter fun fix => requested fix && !decide (Named base fix)).map BootFix.option)
  once : ∀ fix, requested fix = true → after.countP fix.names = 1

/-- The run sets what it should, and a second run changes nothing. -/
structure SetsBootArgs (config : BootArgsConfig) (behind behind' : List UInt8) (bootArgs : Option Str) : Prop where
  right : RightArgs (baseTokens config bootArgs) (requestedFlags config).has
    (tokens ((bootArgsAfter config behind bootArgs).getD []))
  again : bootArgsAfter config behind' (bootArgsAfter config behind bootArgs) =
    bootArgsAfter config behind bootArgs

end Meridian.Loaders
