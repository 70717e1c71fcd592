import Meridian.Lib.Codec
import Mathlib.Data.List.Basic

/-!
# The CSR value and its rotation

The model of `GetCsrStatus`, `RecordgCsrStatus`, `FlagNoCSR` and `RotateCsrValue` of
`platform/apple.c`, `ConfirmRotate` of `ui/menu_dialogs.c`, `InitRotateCSR` of
`policy/nvram_helpers.c` and, for a variable of the hardware, `EfivarGetRaw` and `EfivarSetRaw` of
`lib/lib.c`. The firmware keeps `csr-active-config` as a variable does: it stores the bytes it is
given, and none of them deletes it.
-/

namespace Meridian.Policy

open Lib.Codec

inductive EfiStatus where
  | success | notFound | badBufferSize | alreadyStarted
  deriving DecidableEq, Repr

structure CsrConfig where
  csrValues : List UInt32
  normaliseCSR : Bool

structure CsrState where
  /-- The bytes of `csr-active-config`, when the variable is there. -/
  csrActiveConfig : Option (List UInt8)
  normaliseCall : Bool
  gCsrStatus : String
  dynamicCSR : Int

/-! ### The variable -/

def efivarGetRaw (st : CsrState) : Except EfiStatus (List UInt8) :=
  match st.csrActiveConfig with
  | none => .error .notFound
  | some bytes => .ok bytes

/-- `gRT->SetVariable`. -/
def setVariable (st : CsrState) (bytes : List UInt8) : EfiStatus × CsrState :=
  if bytes = [] then
    match st.csrActiveConfig with
    | none => (.notFound, st)
    | some _ => (.success, { st with csrActiveConfig := none })
  else (.success, { st with csrActiveConfig := some bytes })

def efivarSetRaw (st : CsrState) (bytes : List UInt8) : EfiStatus × CsrState :=
  if bytes ≠ [] ∧ efivarGetRaw st = .ok bytes then (.alreadyStarted, st) else setVariable st bytes

/-- The bytes of a `UINT32`. -/
def csrBytes (value : UInt32) : List UInt8 := toLe 4 value.toNat

def csrValue (bytes : List UInt8) : UInt32 := UInt32.ofNat (ofLe bytes)

/-! ### What is displayed -/

/-- `%04x`. -/
def hex04 (value : UInt32) : String :=
  let digits := Nat.toDigits 16 value.toNat
  String.ofList (List.replicate (4 - digits.length) '0' ++ digits)

/-- The text that `RecordgCsrStatus` records: the value and the name of its group. -/
def csrStatusText (csr : UInt32) : String :=
  if csr = 0x0000 then "0x0000 - SIP/SSV Enabled (Cleared/Empty)"
  else
    let group :=
      if csr = 0x0010 then "SIP/SSV Enabled"
      else if csr ∈ [0x0002, 0x0012] then "SIP Enabled (Sans FileSys Limits)"
      else if csr ∈ [0x0040, 0x0050] then "SIP Enabled (Sans nvRAM Limits)"
      else if csr ∈ [0x0201, 0x0211] then "SIP Enabled (Sans Kext Limits)"
      else if csr ∈ [0x0042, 0x0052] then "SIP Enabled (Sans FileSys/nvRAM Limits)"
      else if csr ∈ [0x0203, 0x0213] then "SIP Enabled (Sans FileSys/Kext Limits)"
      else if csr ∈ [0x0241, 0x0251] then "SIP Enabled (Sans nvRAM/Kext Limits)"
      else if csr ∈ [0x0243, 0x0253] then "SIP Enabled (Sans FileSys/nvRAM/Kext Limits)"
      else if csr ∈ [0x0077, 0x007f, 0x0067, 0x006f, 0x0267, 0x026f] then "SIP Disabled"
      else if csr ∈ [0x0877, 0x087f, 0x086f] then "SIP/SSV Disabled"
      else if csr ∈ [0x0977, 0x0a7f, 0x097f] then "SIP/SSV Semi Disabled (Known Custom Setting)"
      else if csr ∈ [0x0fef, 0x0fff] then "SIP/SSV Totally Disabled"
      else "SIP/SSV Semi Disabled (Unknown Custom Setting)"
    "0x" ++ hex04 csr ++ " - " ++ group

/-- The status and, unless the variable could not be read, the value. -/
def getCsrStatus (st : CsrState) : EfiStatus × Option UInt32 × CsrState :=
  match efivarGetRaw st with
  | .error .notFound =>
    (if st.normaliseCall then .notFound else .success, some 0,
      { st with gCsrStatus := "CSR Enabled (Cleared/Empty)" })
  | .error status => (status, none, { st with gCsrStatus := "CSR Retrieval Error" })
  | .ok bytes =>
    if bytes.length ≠ 4 then (.badBufferSize, none, { st with gCsrStatus := "CSR Storage Error" })
    else (.success, some (csrValue bytes), { st with gCsrStatus := csrStatusText (csrValue bytes) })

/-! ### The rotation -/

/-- The value behind the first one of what is left of the list, or else the list's first. -/
def targetCsr (first : UInt32) : List UInt32 → UInt32
  | _ :: next :: _ => next
  | _ => first

def rotateCsrValue (config : CsrConfig) (unsetDynamic : Bool) (st : CsrState) : CsrState :=
  match config.csrValues with
  | [] => { st with gCsrStatus := "CSR Values *NOT* Configured" }
  | first :: rest =>
    match getCsrStatus st with
    | (.success, some currentValue, st) =>
      let target := targetCsr first ((first :: rest).dropWhile (· ≠ currentValue))
      match (if target ≠ 0 then efivarSetRaw st (csrBytes target) else setVariable st []) with
      | (.success, st) =>
        let normalised := !(unsetDynamic || !config.normaliseCSR) && target &&& 0x10 != 0
        { st with
          gCsrStatus := csrStatusText (if normalised then target &&& ~~~0x10 else target)
          normaliseCall := false
          dynamicCSR := if unsetDynamic then 0 else st.dynamicCSR }
      | (_, st) => { st with gCsrStatus := "Error While Setting SIP/SSV" }
    | (_, _, st) => { st with gCsrStatus := "Could *NOT* Retrieve SIP/SSV Status" }

/-- The menu of `ConfirmRotate`: there is memory for it, its entries are made, and the choice. -/
structure ConfirmMenu where
  memory : Bool
  entries : Bool
  yes : Bool
  /-- What `CurrentCsr` is when it was not set. -/
  unset : UInt32

/-- What the dialog shows: a value to go from and one to go to, with their lines of text. -/
structure RotateDialog where
  currentCsr : UInt32
  targetCsr : UInt32
  infoLines : List String

def confirmRotate (config : CsrConfig) (menu : ConfirmMenu) (st : CsrState) :
    Bool × Option RotateDialog × CsrState :=
  match config.csrValues with
  | [] => (false, none, st)
  | first :: rest =>
    if !menu.memory then (true, none, st)
    else
      let (_, value, st) := getCsrStatus st
      let currentCsr := value.getD menu.unset
      let emptySIP := currentCsr = 0
      let listItem := if emptySIP then first :: rest else (first :: rest).dropWhile (· ≠ currentCsr)
      let target := targetCsr first listItem
      let dialog : RotateDialog := {
        currentCsr
        targetCsr := target
        infoLines := ["From : " ++ csrStatusText currentCsr, "To   : " ++ csrStatusText target, ""] }
      let st := { st with gCsrStatus := csrStatusText currentCsr }
      if !menu.entries then (false, none, st)
      else if !menu.yes then (false, some dialog, st)
      else (true, some dialog, if emptySIP then (efivarSetRaw st (csrBytes first)).2 else st)

/-- `InitRotateCSR`, with the dialog that was shown. -/
def initRotateCSR (config : CsrConfig) (menu : ConfirmMenu) (st : CsrState) :
    Option RotateDialog × CsrState :=
  match confirmRotate config menu st with
  | (false, dialog, st) => (dialog, st)
  | (true, dialog, st) => (dialog, rotateCsrValue config true st)

end Meridian.Policy
