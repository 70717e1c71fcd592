import Meridian.Text
import Mathlib.Data.List.Basic

/-!
# The reader of manual stanzas

The model of `GetIsDisabled` and `GetStanzaVolume` of `config/config_stanza.c`. A configuration file
is the token lines that `ReadTokenLine` gives of it, and a position in it is the lines that are still
to be read.
-/

namespace Meridian.Config

open Text

abbrev Line := List Str

abbrev Lines := List Line

/-- The first token of the line is this word, in any case. -/
def isToken (line : Line) (word : String) : Bool := equalsCI (line.headD []) word.toList

/-- The loop of `GetIsDisabled`: the mark, and the position behind the stanza. -/
def disabledLoop (subMenus : Nat) (isDisabled : Bool) : Lines → Bool × Lines
  | [] => (isDisabled, [])
  | line :: rest =>
    if isToken line "disabled" then disabledLoop subMenus true rest
    else if isToken line "submenuentry" then disabledLoop (subMenus + 1) isDisabled rest
    else if isToken line "\x7d" then
      if subMenus < 1 then (isDisabled, rest) else disabledLoop (subMenus - 1) isDisabled rest
    else disabledLoop subMenus isDisabled rest

/-- The position stays behind the stanza only when the mark is set. -/
def getIsDisabled (lines : Lines) : Bool × Lines :=
  let found := disabledLoop 0 false lines
  if found.1 then (true, found.2) else (false, lines)

/-- The volumes that a stanza may name. -/
structure VolumeEnv (V : Type) where
  /-- `ResolveUriToken` and `FindVolume`, for the token behind `volume`. -/
  findVolume : Option Str → Option V
  /-- The volume has a root directory and can be read. -/
  usable : V → Bool

variable {V : Type}

/-- The loop of `GetStanzaVolume`: the volume, or the position at which the stanza is given up. -/
def stanzaVolumeLoop (env : VolumeEnv V) (subMenus : Nat) (checkedVolume : Bool) (subject : V) :
    Lines → Except Lines V
  | [] => .ok subject
  | line :: rest =>
    if isToken line "\x7d" then
      if subMenus < 1 then .ok subject
      else stanzaVolumeLoop env (subMenus - 1) checkedVolume subject rest
    else if isToken line "submenuentry" then
      stanzaVolumeLoop env (subMenus + 1) checkedVolume subject rest
    else if subMenus > 0 then stanzaVolumeLoop env subMenus checkedVolume subject rest
    else if isToken line "disabled" then .error rest
    else if !isToken line "volume" || checkedVolume then
      stanzaVolumeLoop env subMenus checkedVolume subject rest
    else
      let disabled := getIsDisabled rest
      if disabled.1 then .error disabled.2
      else
        match env.findVolume (line)[1]? with
        | some found =>
          if env.usable found then stanzaVolumeLoop env subMenus true found rest
          else stanzaVolumeLoop env subMenus false subject rest
        | none => stanzaVolumeLoop env subMenus false subject rest

/-- The volume and the position as they are before the stanza's lines, or a position further on when
the stanza is disabled. -/
def getStanzaVolume (env : VolumeEnv V) (lines : Lines) (volume : V) : Option V × Lines :=
  match stanzaVolumeLoop env 0 false volume lines with
  | .ok subject => (some subject, lines)
  | .error rest => (none, rest)

/-! ### The position only moves on -/

theorem disabledLoop_length (subMenus : Nat) (isDisabled : Bool) (lines : Lines) :
    (disabledLoop subMenus isDisabled lines).2.length ≤ lines.length := by
  induction lines generalizing subMenus isDisabled with
  | nil => exact Nat.le_refl 0
  | cons line rest ih =>
    rw [disabledLoop, List.length_cons]
    split
    · exact Nat.le_succ_of_le (ih ..)
    · split
      · exact Nat.le_succ_of_le (ih ..)
      · split
        · split
          · exact Nat.le_succ _
          · exact Nat.le_succ_of_le (ih ..)
        · exact Nat.le_succ_of_le (ih ..)

theorem getIsDisabled_length (lines : Lines) : (getIsDisabled lines).2.length ≤ lines.length := by
  rw [getIsDisabled]
  split
  · exact disabledLoop_length 0 false lines
  · exact Nat.le_refl _

theorem stanzaVolumeLoop_length {env : VolumeEnv V} {subMenus : Nat} {checkedVolume : Bool}
    {subject : V} {lines rest : Lines}
    (h : stanzaVolumeLoop env subMenus checkedVolume subject lines = .error rest) :
    rest.length ≤ lines.length := by
  induction lines generalizing subMenus checkedVolume subject with
  | nil => cases h
  | cons line lines ih =>
    rw [stanzaVolumeLoop] at h
    rw [List.length_cons]
    split at h
    · split at h
      · cases h
      · exact Nat.le_succ_of_le (ih h)
    · split at h
      · exact Nat.le_succ_of_le (ih h)
      · split at h
        · exact Nat.le_succ_of_le (ih h)
        · split at h
          · cases h
            exact Nat.le_succ _
          · split at h
            · exact Nat.le_succ_of_le (ih h)
            · dsimp only at h
              split at h
              · cases h
                exact Nat.le_succ_of_le (getIsDisabled_length lines)
              · split at h
                · split at h
                  · exact Nat.le_succ_of_le (ih h)
                  · exact Nat.le_succ_of_le (ih h)
                · exact Nat.le_succ_of_le (ih h)

theorem getStanzaVolume_length (env : VolumeEnv V) (lines : Lines) (volume : V) :
    (getStanzaVolume env lines volume).2.length ≤ lines.length := by
  rw [getStanzaVolume]
  split
  · exact Nat.le_refl _
  · rename_i rest disabled
    exact stanzaVolumeLoop_length disabled

end Meridian.Config
