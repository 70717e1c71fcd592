import Meridian.Policy.Csr

/-!
# The flag of a normalising call

The model of the users of `NormaliseCall` in `platform/apple.c`, with the faults of every read and write of
`csr-active-config`, and of `FilterCSR` of `loaders/macos_boot.c`.
-/

namespace Meridian.Platform.Csr

open Policy (CsrConfig CsrState csrBytes csrValue csrStatusText targetCsr)

inductive EfiStatus where
  | success | notFound | outOfResources | deviceError | badBufferSize | alreadyStarted | notStarted
  deriving DecidableEq, Repr

/-- What goes wrong in `EfivarGetRaw` with a variable that is there: the question for its size, the buffer, or
the read itself. -/
inductive ReadFault where
  | size | memory | data
  deriving DecidableEq, Repr

/-- The faults of one call: in its read, in the read before its write, and whether the write is granted. -/
structure Faults where
  read : Option ReadFault
  compare : Option ReadFault
  granted : Bool
  deriving DecidableEq, Repr

def efivarGetRaw (fault : Option ReadFault) (held : Option (List UInt8)) : Except EfiStatus (List UInt8) :=
  match held, fault with
  | none, _ => .error .notFound
  | some [], _ => .error .notFound
  | some _, some .size => .error .notFound
  | some _, some .memory => .error .outOfResources
  | some _, some .data => .error .deviceError
  | some bytes, none => .ok bytes

/-- `gRT->SetVariable`; no bytes delete the variable. -/
def setVariable (granted : Bool) (bytes : List UInt8) (st : CsrState) : EfiStatus × CsrState :=
  if !granted then (.deviceError, st)
  else if bytes = [] then
    if st.csrActiveConfig = none then (.notFound, st) else (.success, { st with csrActiveConfig := none })
  else (.success, { st with csrActiveConfig := some bytes })

def efivarSetRaw (faults : Faults) (bytes : List UInt8) (st : CsrState) : EfiStatus × CsrState :=
  if efivarGetRaw faults.compare st.csrActiveConfig = .ok bytes then (.alreadyStarted, st)
  else setVariable faults.granted bytes st

def recordgCsrStatus (csr : UInt32) (st : CsrState) : CsrState := { st with gCsrStatus := csrStatusText csr }

def getCsrStatus (faults : Faults) (st : CsrState) : EfiStatus × Option UInt32 × CsrState :=
  match efivarGetRaw faults.read st.csrActiveConfig with
  | .error .notFound =>
    (if st.normaliseCall then .notFound else .success, some 0,
      { st with gCsrStatus := "CSR Enabled (Cleared/Empty)" })
  | .error status => (status, none, { st with gCsrStatus := "CSR Retrieval Error" })
  | .ok bytes =>
    if bytes.length ≠ 4 then (.badBufferSize, none, { st with gCsrStatus := "CSR Storage Error" })
    else (.success, some (csrValue bytes), recordgCsrStatus (csrValue bytes) st)

def csrAllowAppleInternal : UInt32 := 0x10

/-- What `RotateCsrValue` does once the value is written. -/
def endRotation (config : CsrConfig) (unsetDynamic : Bool) (target : UInt32) (st : CsrState) : CsrState :=
  let (target, st) :=
    if unsetDynamic || !config.normaliseCSR then (target, { st with normaliseCall := false })
    else if target &&& csrAllowAppleInternal ≠ 0 then
      (target &&& ~~~csrAllowAppleInternal, { st with normaliseCall := true })
    else (target, st)
  let st := { recordgCsrStatus target st with normaliseCall := false }
  if unsetDynamic then { st with dynamicCSR := 0 } else st

def rotateCsrValue (config : CsrConfig) (unsetDynamic : Bool) (faults : Faults) (st : CsrState) : CsrState :=
  match config.csrValues with
  | [] => { st with gCsrStatus := "CSR Values *NOT* Configured" }
  | first :: rest =>
    match getCsrStatus faults st with
    | (.success, some currentValue, st) =>
      let target := targetCsr first ((first :: rest).dropWhile (· ≠ currentValue))
      match (if target ≠ 0 then efivarSetRaw faults (csrBytes target) st
        else setVariable faults.granted [] st) with
      | (.success, st) => endRotation config unsetDynamic target st
      | (_, st) => { st with gCsrStatus := "Error While Setting SIP/SSV" }
    | (_, _, st) => { st with gCsrStatus := "Could *NOT* Retrieve SIP/SSV Status" }

def normaliseCSR (faults : Faults) (st : CsrState) : EfiStatus × CsrState :=
  match getCsrStatus faults { st with normaliseCall := true } with
  | (.success, some ourCSR, st) =>
    if ourCSR &&& csrAllowAppleInternal = 0 then (.alreadyStarted, st)
    else
      let ourCSR := ourCSR &&& ~~~csrAllowAppleInternal
      let (_, st) := efivarSetRaw faults (csrBytes ourCSR) (recordgCsrStatus ourCSR st)
      (.success, { st with normaliseCall := false })
  | (.notFound, _, st) => (.alreadyStarted, st)
  | (status, _, st) => (status, st)

def filterCSR (config : CsrConfig) (faults : Faults) (st : CsrState) : EfiStatus × CsrState :=
  if !config.normaliseCSR then (.notStarted, st) else normaliseCSR faults st

/-! ### Runs -/

/-- The calls, and what other code stores in the variable and in `DynamicCSR` between them. -/
inductive Call where
  | normaliseCSR (faults : Faults)
  | filterCSR (config : CsrConfig) (faults : Faults)
  | rotateCsrValue (config : CsrConfig) (unsetDynamic : Bool) (faults : Faults)
  | getCsrStatus (faults : Faults)
  | recordgCsrStatus (csr : UInt32)
  | store (csrActiveConfig : Option (List UInt8)) (dynamicCSR : Int)

def Call.run (st : CsrState) : Call → CsrState
  | .normaliseCSR faults => (Csr.normaliseCSR faults st).2
  | .filterCSR config faults => (Csr.filterCSR config faults st).2
  | .rotateCsrValue config unsetDynamic faults => Csr.rotateCsrValue config unsetDynamic faults st
  | .getCsrStatus faults => (Csr.getCsrStatus faults st).2.2
  | .recordgCsrStatus csr => Csr.recordgCsrStatus csr st
  | .store csrActiveConfig dynamicCSR => { st with csrActiveConfig, dynamicCSR }

def runCalls (st : CsrState) (calls : List Call) : CsrState := calls.foldl Call.run st

/-- Before any call. -/
def freshState (csrActiveConfig : Option (List UInt8)) (dynamicCSR : Int) : CsrState :=
  { csrActiveConfig, normaliseCall := false, gCsrStatus := "", dynamicCSR }

/-- The flag is FALSE, and on a machine without the variable its value is read as in a fresh state. -/
structure Cleared (st : CsrState) : Prop where
  flag : st.normaliseCall = false
  absent : ∀ faults dynamicCSR,
    let read := getCsrStatus faults { st with csrActiveConfig := none }
    let fresh := getCsrStatus faults (freshState none dynamicCSR)
    read.1 = fresh.1 ∧ read.2.1 = fresh.2.1 ∧ read.2.2.gCsrStatus = fresh.2.2.gCsrStatus

/-- The value is read, and has the bit to be cleared. -/
def HasInternal (faults : Faults) (st : CsrState) : Prop :=
  ∃ bytes, efivarGetRaw faults.read st.csrActiveConfig = .ok bytes ∧ bytes.length = 4 ∧
    csrValue bytes &&& csrAllowAppleInternal ≠ 0

/-- A call that normalises finds something to normalise. -/
def Call.Clears (st : CsrState) : Call → Prop
  | .normaliseCSR faults => HasInternal faults st
  | .filterCSR config faults => config.normaliseCSR = true → HasInternal faults st
  | _ => True

/-! ### One call -/

variable {st : CsrState} {faults : Faults}

@[simp] theorem setVariable_flag (granted : Bool) (bytes : List UInt8) (st : CsrState) :
    (setVariable granted bytes st).2.normaliseCall = st.normaliseCall := by
  unfold setVariable
  split
  · rfl
  split
  · split <;> rfl
  · rfl

@[simp] theorem efivarSetRaw_flag (faults : Faults) (bytes : List UInt8) (st : CsrState) :
    (efivarSetRaw faults bytes st).2.normaliseCall = st.normaliseCall := by
  unfold efivarSetRaw
  split
  · rfl
  · exact setVariable_flag _ _ _

@[simp] theorem getCsrStatus_flag (faults : Faults) (st : CsrState) :
    (getCsrStatus faults st).2.2.normaliseCall = st.normaliseCall := by
  unfold getCsrStatus
  split
  · rfl
  · rfl
  · split <;> rfl

theorem cleared_iff : Cleared st ↔ st.normaliseCall = false := by
  refine ⟨Cleared.flag, fun flag => ⟨flag, fun faults dynamicCSR => ?_⟩⟩
  unfold getCsrStatus
  dsimp only
  rw [flag]
  exact ⟨rfl, rfl, rfl⟩

theorem endRotation_flag (config : CsrConfig) (unsetDynamic : Bool) (target : UInt32) (st : CsrState) :
    (endRotation config unsetDynamic target st).normaliseCall = false := by
  unfold endRotation
  cases unsetDynamic <;> rfl

/-- The early returns leave the flag, and the last one clears it. -/
theorem rotateCsrValue_flag (config : CsrConfig) (unsetDynamic : Bool) (faults : Faults)
    (cleared : st.normaliseCall = false) :
    (rotateCsrValue config unsetDynamic faults st).normaliseCall = false := by
  unfold rotateCsrValue
  split
  · exact cleared
  rename_i first rest values
  have kept := getCsrStatus_flag faults st
  rw [cleared] at kept
  split
  · rename_i currentValue st' read
    rw [read] at kept
    generalize targetCsr first ((first :: rest).dropWhile (· ≠ currentValue)) = target
    have written : (if target ≠ 0 then efivarSetRaw faults (csrBytes target) st'
        else setVariable faults.granted [] st').2.normaliseCall = false := by
      split
      · rw [efivarSetRaw_flag]
        exact kept
      · rw [setVariable_flag]
        exact kept
    dsimp only
    split
    · exact endRotation_flag _ _ _ _
    · rename_i eq
      rw [eq] at written
      exact written
  · rename_i read
    rw [read] at kept
    exact kept

theorem getCsrStatus_read {bytes : List UInt8}
    (read : efivarGetRaw faults.read st.csrActiveConfig = .ok bytes) (size : bytes.length = 4) :
    getCsrStatus faults st = (.success, some (csrValue bytes), recordgCsrStatus (csrValue bytes) st) := by
  unfold getCsrStatus
  rw [read]
  exact if_neg (not_not.mpr size)

/-- Without a value of four bytes there is no success, where the flag is set. -/
theorem getCsrStatus_unread (flag : st.normaliseCall = true)
    (unread : ¬ ∃ bytes, efivarGetRaw faults.read st.csrActiveConfig = .ok bytes ∧ bytes.length = 4) :
    (getCsrStatus faults st).1 ≠ .success := by
  unfold getCsrStatus
  split
  · rw [flag, if_pos rfl]
    exact fun same => nomatch same
  · rename_i status _ failed
    rintro rfl
    unfold efivarGetRaw at failed
    split at failed <;> cases failed
  · rename_i bytes read
    split
    · exact fun same => nomatch same
    · rename_i size
      exact absurd ⟨bytes, read, not_not.mp size⟩ unread

/-- Only the way through to the end of the function clears the flag. -/
theorem normaliseCSR_flag_iff (faults : Faults) (st : CsrState) :
    (normaliseCSR faults st).2.normaliseCall = false ↔ HasInternal faults st := by
  have set : ({ st with normaliseCall := true } : CsrState).normaliseCall = true := rfl
  have kept := getCsrStatus_flag faults { st with normaliseCall := true }
  unfold normaliseCSR
  by_cases readable : ∃ bytes, efivarGetRaw faults.read st.csrActiveConfig = .ok bytes ∧ bytes.length = 4
  · obtain ⟨bytes, read, size⟩ := readable
    have only : HasInternal faults st ↔ csrValue bytes &&& csrAllowAppleInternal ≠ 0 := by
      refine ⟨fun ⟨bytes', read', _, bit⟩ => ?_, fun bit => ⟨bytes, read, size, bit⟩⟩
      obtain rfl := Except.ok.inj (read.symm.trans read')
      exact bit
    have value : getCsrStatus faults { st with normaliseCall := true } = _ := getCsrStatus_read read size
    rw [value, only]
    dsimp only
    split
    · rename_i zero
      exact iff_of_false (fun same => nomatch same) (not_not.mpr zero)
    · rename_i nonzero
      exact iff_of_true rfl nonzero
  · have failed := getCsrStatus_unread set readable
    refine iff_of_false ?_ fun ⟨bytes, read, size, _⟩ => readable ⟨bytes, read, size⟩
    generalize getCsrStatus faults { st with normaliseCall := true } = outcome at kept failed
    obtain ⟨status, value, st'⟩ := outcome
    have kept : st'.normaliseCall = true := kept
    split
    · rename_i eq
      cases eq
      exact absurd rfl failed
    · rename_i eq
      cases eq
      rw [kept]
      exact fun same => nomatch same
    · rename_i eq
      cases eq
      rw [kept]
      exact fun same => nomatch same

/-- A call leaves the flag cleared exactly when, if it normalises, it finds something to normalise. -/
theorem call_flag_iff (cleared : st.normaliseCall = false) (call : Call) :
    (call.run st).normaliseCall = false ↔ call.Clears st := by
  cases call with
  | normaliseCSR faults => exact normaliseCSR_flag_iff faults st
  | filterCSR config faults =>
    cases normalise : config.normaliseCSR with
    | false =>
      rw [Call.run, filterCSR, normalise]
      exact iff_of_true cleared fun impossible => nomatch normalise.symm.trans impossible
    | true =>
      rw [Call.run, filterCSR, normalise, Call.Clears, normalise]
      exact (normaliseCSR_flag_iff faults st).trans ⟨fun has _ => has, fun has => has rfl⟩
  | rotateCsrValue config unsetDynamic faults =>
    exact iff_of_true (rotateCsrValue_flag config unsetDynamic faults cleared) trivial
  | getCsrStatus faults => exact iff_of_true ((getCsrStatus_flag faults st).trans cleared) trivial
  | recordgCsrStatus csr => exact iff_of_true cleared trivial
  | store csrActiveConfig dynamicCSR => exact iff_of_true cleared trivial

/-! ### All of a run -/

theorem runCalls_flag_iff (calls : List Call) (cleared : st.normaliseCall = false) :
    (∀ front, front <+: calls → (runCalls st front).normaliseCall = false) ↔
      ∀ front call, front ++ [call] <+: calls → call.Clears (runCalls st front) := by
  induction calls generalizing st with
  | nil =>
    refine iff_of_true (fun front short => ?_) fun front call short => ?_
    · rw [List.prefix_nil.mp short]
      exact cleared
    · cases front <;> cases List.prefix_nil.mp short
  | cons call calls ih =>
    constructor
    · intro all
      have next : (call.run st).normaliseCall = false := all [call] ⟨calls, rfl⟩
      have later := (ih next).mp fun front short => all (call :: front) (List.cons_prefix_cons.mpr ⟨rfl, short⟩)
      intro front call' short
      cases front with
      | nil =>
        obtain ⟨rfl, -⟩ := List.cons_prefix_cons.mp short
        exact (call_flag_iff cleared _).mp next
      | cons first front =>
        obtain ⟨rfl, inner⟩ := List.cons_prefix_cons.mp short
        exact later front call' inner
    · intro all front short
      have next := (call_flag_iff cleared call).mpr (all [] call ⟨calls, rfl⟩)
      cases front with
      | nil => exact cleared
      | cons first front =>
        obtain ⟨rfl, inner⟩ := List.cons_prefix_cons.mp short
        refine (ih next).mpr (fun front' call' short' => ?_) front inner
        exact all (_ :: front') call' (List.cons_prefix_cons.mpr ⟨rfl, short'⟩)

/-- From a fresh state, the flag is cleared whenever a call has returned exactly when every call that normalises
finds something to normalise. -/
theorem normaliseCall_cleared_iff (csrActiveConfig : Option (List UInt8)) (dynamicCSR : Int) (calls : List Call) :
    (∀ front, front <+: calls → Cleared (runCalls (freshState csrActiveConfig dynamicCSR) front)) ↔
      ∀ front call, front ++ [call] <+: calls →
        call.Clears (runCalls (freshState csrActiveConfig dynamicCSR) front) := by
  rw [← runCalls_flag_iff calls rfl]
  exact forall_congr' fun front => forall_congr' fun _ => cleared_iff

/-- With no variable to normalise the flag stays, and a later call fails for a reason that is none. -/
theorem normaliseCall_leaks :
    ¬ Cleared (runCalls (freshState none 0)
      [.filterCSR { csrValues := [0x10], normaliseCSR := true }
        { read := none, compare := none, granted := true }]) := by
  intro cleared
  have read := (cleared.absent { read := none, compare := none, granted := true } 0).1
  revert read
  decide

end Meridian.Platform.Csr
