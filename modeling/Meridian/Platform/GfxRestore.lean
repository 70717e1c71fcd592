import Meridian.Lib.Codec
import Mathlib.Data.List.Basic

/-!
# Healing the saved graphics configuration

The model of `BufferHasSavedConfig` and `HandleAppleGfxRestore` of `platform/apple.c` over the three
variables that they use, and the history of a machine: boots, and the firmware writing the path
properties. A read returns what is stored. A write or a delete that reports success has taken effect,
and one that reports an error may have.
-/

namespace Meridian.Platform

open Lib.Codec

abbrev Bytes := List UInt8

inductive ReadError where
  | notFound | bufferTooSmall
  deriving DecidableEq, Repr

inductive WriteOutcome where
  | done | lost | failedButDone
  deriving DecidableEq, Repr

def WriteOutcome.reported (outcome : WriteOutcome) : Bool := outcome = .done

/-- What the variable holds behind a write to it. -/
def WriteOutcome.stored (outcome : WriteOutcome) (old new : Option Bytes) : Option Bytes :=
  match outcome with
  | .done | .failedButDone => new
  | .lost => old

/-- `AAPL,PathProperties0000`, `MeridianGfxRestorePass` and `MeridianGfxRestoreCount`. -/
structure Vars where
  pathProperties : Option Bytes
  restorePass : Option Bytes
  restoreCount : Option Bytes
  deriving DecidableEq, Repr

/-- The writes of one boot. -/
structure Writes where
  savePass : WriteOutcome
  clearPass : WriteOutcome
  deletePathProperties : WriteOutcome
  saveCount : WriteOutcome
  deriving DecidableEq, Repr

/-- `gRT->GetVariable` into a buffer of `size` bytes. -/
def getVariable (size : Nat) (held : Option Bytes) : Except ReadError Bytes :=
  match held with
  | none => .error .notFound
  | some bytes => if bytes.length ≤ size then .ok bytes else .error .bufferTooSmall

/-- A variable that a buffer of no bytes is not too small for is not found. -/
def efivarGetRaw (held : Option Bytes) : Except ReadError Bytes :=
  match getVariable 0 held with
  | .error .bufferTooSmall => getVariable (held.getD []).length held
  | _ => .error .notFound

/-- `saved-config`, two bytes a character. -/
def needle : Bytes := "saved-config".toList.flatMap fun c => [UInt8.ofNat c.toNat, 0]

def bufferHasSavedConfig (buffer : Bytes) : Bool :=
  if buffer.length < needle.length then false
  else (List.range (buffer.length - needle.length + 1)).any fun i => needle.isPrefixOf (buffer.drop i)

def savedConfigRead (held : Option Bytes) : Bool :=
  match efivarGetRaw held with
  | .ok buffer => bufferHasSavedConfig buffer
  | .error _ => false

/-- What is read again behind the delete is not there or has no saved configuration. -/
def clearedRead (held : Option Bytes) : Bool :=
  match efivarGetRaw held with
  | .error .notFound => true
  | .error _ => false
  | .ok buffer => !bufferHasSavedConfig buffer

def guardSet (vars : Vars) : Bool := (getVariable 1 vars.restorePass).isOk

/-- `HealCount`, zero where the variable cannot be read. -/
def healCount (vars : Vars) : UInt32 :=
  match getVariable 4 vars.restoreCount with
  | .ok bytes => .ofNat (ofLe bytes)
  | .error _ => 0

/-- Whether the machine is reset, and the variables. -/
def handleAppleGfxRestore (appleFirmware : Bool) (writes : Writes) (vars : Vars) : Bool × Vars :=
  if !appleFirmware then (false, vars)
  else if !savedConfigRead vars.pathProperties then
    if guardSet vars then
      (false, { vars with restorePass := writes.clearPass.stored vars.restorePass none })
    else (false, vars)
  else if guardSet vars then
    (false, { vars with restorePass := writes.clearPass.stored vars.restorePass none })
  else
    let vars := { vars with restorePass := writes.savePass.stored vars.restorePass (some [1]) }
    let guardSaved := writes.savePass.reported
    let vars := { vars with
      pathProperties := writes.deletePathProperties.stored vars.pathProperties none }
    let poisonCleared :=
      (writes.deletePathProperties.reported || !guardSaved) && clearedRead vars.pathProperties
    if !guardSaved && !poisonCleared then (false, vars)
    else
      let count := toLe 4 (healCount vars + 1).toNat
      (true, { vars with restoreCount := writes.saveCount.stored vars.restoreCount (some count) })

/-- A boot, or the firmware writing the path properties or deleting them. -/
inductive Event where
  | boot (writes : Writes)
  | firmware (content : Option Bytes)

def step (appleFirmware : Bool) (vars : Vars) : Event → Vars
  | .boot writes => (handleAppleGfxRestore appleFirmware writes vars).2
  | .firmware content => { vars with pathProperties := content }

def resets (appleFirmware : Bool) (vars : Vars) (writes : Writes) : Bool :=
  (handleAppleGfxRestore appleFirmware writes vars).1

/-! ### The saved configuration -/

/-- The path properties are there, and they hold the name somewhere. -/
def HasSavedConfig (held : Option Bytes) : Prop := ∃ bytes, held = some bytes ∧ needle <:+: bytes

theorem needle_ne_nil : needle ≠ [] := by decide

theorem bufferHasSavedConfig_iff (buffer : Bytes) :
    bufferHasSavedConfig buffer = true ↔ needle <:+: buffer := by
  rw [bufferHasSavedConfig]
  split
  · rename_i short
    refine iff_of_false Bool.false_ne_true fun found => ?_
    exact Nat.not_lt_of_le found.length_le short
  · rename_i enough
    rw [List.any_eq_true]
    constructor
    · rintro ⟨i, -, starts⟩
      obtain ⟨rest, eq⟩ := List.isPrefixOf_iff_prefix.mp starts
      refine ⟨buffer.take i, rest, ?_⟩
      rw [List.append_assoc, eq, List.take_append_drop]
    · rintro ⟨front, rest, rfl⟩
      refine ⟨front.length, List.mem_range.mpr ?_, ?_⟩
      · rw [List.length_append, List.length_append]
        omega
      · rw [List.append_assoc, List.drop_left]
        exact List.isPrefixOf_iff_prefix.mpr (List.prefix_append needle rest)

theorem efivarGetRaw_none : efivarGetRaw none = .error .notFound := rfl

theorem efivarGetRaw_nil : efivarGetRaw (some []) = .error .notFound := rfl

theorem efivarGetRaw_cons (b : UInt8) (rest : Bytes) : efivarGetRaw (some (b :: rest)) = .ok (b :: rest) := by
  rw [efivarGetRaw, getVariable, if_neg (by simp), Option.getD_some, getVariable, if_pos (Nat.le_refl _)]

/-- The read finds the saved configuration that is stored. -/
theorem savedConfigRead_iff (held : Option Bytes) : savedConfigRead held = true ↔ HasSavedConfig held := by
  rw [savedConfigRead]
  cases held with
  | none => exact iff_of_false Bool.false_ne_true fun ⟨_, absent, _⟩ => nomatch absent
  | some bytes =>
    cases bytes with
    | nil =>
      refine iff_of_false Bool.false_ne_true fun ⟨_, eq, found⟩ => ?_
      cases eq
      exact needle_ne_nil (List.infix_nil.mp found)
    | cons b rest =>
      rw [efivarGetRaw_cons]
      exact (bufferHasSavedConfig_iff _).trans
        ⟨fun found => ⟨_, rfl, found⟩, fun ⟨_, eq, found⟩ => Option.some.inj eq ▸ found⟩

theorem clearedRead_eq (held : Option Bytes) : clearedRead held = !savedConfigRead held := by
  cases held with
  | none => rfl
  | some bytes =>
    cases bytes with
    | nil => rfl
    | cons b rest => rw [clearedRead, savedConfigRead, efivarGetRaw_cons]

/-! ### Boots behind a reset -/

/-- The next boot does not reset: it aborts on the guard, or it finds nothing to heal. -/
def Settled (vars : Vars) : Prop := guardSet vars = true ∨ ¬ HasSavedConfig vars.pathProperties

variable {appleFirmware : Bool} {writes : Writes} {vars : Vars}

/-- What a boot has done that resets. -/
theorem resets_cases (reset : resets appleFirmware vars writes = true) :
    HasSavedConfig vars.pathProperties ∧ guardSet vars = false ∧
      (step appleFirmware vars (.boot writes)).restorePass =
        writes.savePass.stored vars.restorePass (some [1]) ∧
      (step appleFirmware vars (.boot writes)).pathProperties =
        writes.deletePathProperties.stored vars.pathProperties none ∧
      (writes.savePass.reported = true ∨
        ¬ HasSavedConfig (step appleFirmware vars (.boot writes)).pathProperties) := by
  rw [← savedConfigRead_iff, ← savedConfigRead_iff]
  unfold resets at reset
  rw [step]
  unfold handleAppleGfxRestore at reset ⊢
  split at reset
  · cases reset
  rename_i apple
  rw [if_neg apple]
  split at reset
  · split at reset <;> cases reset
  rename_i saved
  rw [if_neg saved]
  split at reset
  · cases reset
  rename_i unguarded
  rw [if_neg unguarded]
  dsimp only at reset ⊢
  split at reset
  · cases reset
  rename_i goes
  rw [if_neg goes]
  refine ⟨by simpa using saved, by simpa using unguarded, rfl, rfl, ?_⟩
  rw [clearedRead_eq] at goes
  cases passed : writes.savePass.reported with
  | true => exact Or.inl rfl
  | false =>
    rw [passed] at goes
    exact Or.inr (by simpa using goes)

theorem WriteOutcome.stored_of_reported {outcome : WriteOutcome} (success : outcome.reported = true)
    (old new : Option Bytes) : outcome.stored old new = new := by
  obtain rfl := of_decide_eq_true success
  rfl

/-- A reset leaves the guard set, or the saved configuration gone. -/
theorem resets_settles (reset : resets appleFirmware vars writes = true) :
    Settled (step appleFirmware vars (.boot writes)) := by
  obtain ⟨-, -, pass, -, saved | gone⟩ := resets_cases reset
  · refine Or.inl ?_
    rw [guardSet, pass, WriteOutcome.stored_of_reported saved]
    rfl
  · exact Or.inr gone

theorem Settled.no_reset (settled : Settled vars) : resets appleFirmware vars writes = false := by
  cases reset : resets appleFirmware vars writes with
  | false => rfl
  | true =>
    obtain ⟨saved, unguarded, -⟩ := resets_cases reset
    obtain guarded | gone := settled
    · rw [guarded] at unguarded
      cases unguarded
    · exact absurd saved gone

theorem Settled.firmware {content : Option Bytes} (settled : Settled vars) (other : ¬ HasSavedConfig content) :
    Settled (step appleFirmware vars (.firmware content)) := by
  obtain guarded | - := settled
  · exact Or.inl guarded
  · exact Or.inr other

theorem Settled.firmwares (settled : Settled vars) {between : List (Option Bytes)}
    (others : ∀ content ∈ between, ¬ HasSavedConfig content) :
    Settled ((between.map Event.firmware).foldl (step appleFirmware) vars) := by
  rw [List.foldl_map]
  exact List.foldlRecOn between _ settled fun vars settled content mem => settled.firmware (others content mem)

/-- Whatever came before, two boots that both reset and have no boot between them have a saved
configuration between them that the firmware wrote. -/
theorem resets_twice (appleFirmware : Bool) (start : Vars) (history : List Event) (first second : Writes)
    (between : List (Option Bytes))
    (reset : resets appleFirmware (history.foldl (step appleFirmware) start) first = true)
    (again : resets appleFirmware
      ((history ++ .boot first :: between.map Event.firmware).foldl (step appleFirmware) start) second = true) :
    ∃ content ∈ between, HasSavedConfig content := by
  by_contra none_
  have others : ∀ content ∈ between, ¬ HasSavedConfig content :=
    fun content mem saved => none_ ⟨content, mem, saved⟩
  rw [List.foldl_append, List.foldl_cons, ((resets_settles reset).firmwares others).no_reset] at again
  cases again

/-- The guard could not be written, and the firmware brings the configuration back behind the reset. -/
theorem resets_twice_rewritten : ∃ content ∈ [some needle], HasSavedConfig content :=
  resets_twice true { pathProperties := some needle, restorePass := none, restoreCount := none } []
    { savePass := .lost, clearPass := .done, deletePathProperties := .done, saveCount := .done }
    { savePass := .done, clearPass := .done, deletePathProperties := .done, saveCount := .done }
    [some needle] (by decide) (by decide)

end Meridian.Platform
