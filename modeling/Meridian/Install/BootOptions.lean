import Meridian.Discovery.Guids
import Mathlib.Logic.Function.Basic
import Mathlib.Tactic.Linarith

/-!
# The boot option of an installation

The model of `FindBootNum`, `SetBootDefault` and `CreateNvramEntry` of `install/install.c`, with
`EfivarGetRaw` and `EfivarSetRaw` of `lib/lib.c` and `GetHardwareNvramVariable` and
`SetHardwareNvramVariable` of `policy/nvram_helpers.c` for a variable of the hardware. A variable is known
by the number that `Boot%04x` prints; the ones from `0x10000` on are not boot options.
-/

namespace Meridian.Install

open Text Discovery

/-- A variable has at least one byte. -/
structure Contents where
  bytes : List UInt8
  nonempty : bytes ≠ []
  deriving DecidableEq, Repr

inductive EfiStatus where
  | success | notFound | outOfResources | deviceError | loadError | alreadyStarted
  deriving DecidableEq, Repr

/-- What goes wrong in reading a variable that is there: the question for its size, the buffer, or the
read itself. -/
inductive ReadFault where
  | size | memory | data
  deriving DecidableEq, Repr

section Hardware

variable {α : Type} [DecidableEq α]

def efivarGetRaw (held : Option α) (fault : Option ReadFault) : Except EfiStatus α :=
  match held, fault with
  | none, _ => .error .notFound
  | some _, some .size => .error .notFound
  | some _, some .memory => .error .outOfResources
  | some _, some .data => .error .deviceError
  | some contents, none => .ok contents

def getHardwareNvramVariable (held : Option α) (fault : Option ReadFault) : Except EfiStatus α :=
  match efivarGetRaw held fault with
  | .error .deviceError => .error .loadError
  | read => read

/-- `gRT->SetVariable`, which the firmware grants or not. -/
def setVariable (held : Option α) (granted : Bool) (contents : α) : EfiStatus × Option α :=
  if granted then (.success, some contents) else (.deviceError, held)

def efivarSetRaw (held : Option α) (fault : Option ReadFault) (granted : Bool) (contents : α) :
    EfiStatus × Option α :=
  if efivarGetRaw held fault = .ok contents then (.alreadyStarted, held) else setVariable held granted contents

def setHardwareNvramVariable (held : Option α) (fault : Option ReadFault) (granted : Bool) (contents : α) :
    EfiStatus × Option α :=
  match getHardwareNvramVariable held fault with
  | .error .notFound => setVariable held granted contents
  | .error status => (status, held)
  | .ok old => if old = contents then (.alreadyStarted, held) else setVariable held granted contents

end Hardware

/-- The variables by number, each with the fault that it is read with; there are none from `size` on. -/
structure BootVars where
  contents : Nat → Option Contents
  fault : Nat → Option ReadFault
  size : Nat
  absent : ∀ n, size ≤ n → contents n = none

namespace BootVars

def read (vars : BootVars) (n : Nat) : Except EfiStatus Contents := efivarGetRaw (vars.contents n) (vars.fault n)

theorem contents_of_read {vars : BootVars} {n : Nat} {contents : Contents} (read : vars.read n = .ok contents) :
    vars.contents n = some contents := by
  unfold BootVars.read at read
  cases held : vars.contents n with
  | none =>
    rw [held] at read
    cases read
  | some old =>
    rw [held] at read
    cases fault : vars.fault n with
    | none =>
      rw [fault] at read
      cases read
      rfl
    | some fault' =>
      rw [fault] at read
      cases fault' <;> cases read

theorem lt_size_of_read {vars : BootVars} {n : Nat} {contents : Contents} (read : vars.read n = .ok contents) :
    n < vars.size := by
  by_contra beyond
  have nothing := vars.absent n (Nat.le_of_not_lt beyond)
  rw [contents_of_read read] at nothing
  cases nothing

def set (vars : BootVars) (n : Nat) (held : Option Contents) : BootVars where
  contents := Function.update vars.contents n held
  fault := vars.fault
  size := max vars.size (n + 1)
  absent m beyond := by
    rw [Function.update_of_ne (by omega)]
    exact vars.absent m (by omega)

end BootVars

/-- The second loop: it goes on over what reads as something else. -/
def scanFrom (vars : BootVars) (entry : Contents) (index : Nat) : Nat × Bool :=
  match read : vars.read index with
  | .error _ => (index, false)
  | .ok contents => if contents = entry then (index, true) else scanFrom vars entry (index + 1)
termination_by vars.size - index
decreasing_by
  have := BootVars.lt_size_of_read read
  omega

/-- The number, and whether it already exists. -/
def findBootNum (vars : BootVars) (entry : Contents) : Nat × Bool :=
  match (List.range' 80 10).find? fun index => vars.read index = .ok entry with
  | some index => (index, true)
  | none =>
    let (index, alreadyExists) := scanFrom vars entry 0
    (if index + 1 > 0x10000 then 0x10000 - 1 else index, alreadyExists)

structure Nvram where
  boot : BootVars
  bootOrder : Option (List UInt16)
  bootNext : Option UInt16

/-- What the firmware does in one run: the writes that it grants, the faults in reading `BootOrder` and
`BootNext`, and whether there is memory for a new order. -/
structure Outcomes where
  bootSet : Bool
  orderFault : Option ReadFault
  orderMemory : Bool
  orderSet : Bool
  nextFault : Option ReadFault
  nextSet : Bool

def setBootDefault (bootNum : Nat) (outcomes : Outcomes) (bootOrder : Option (List UInt16)) :
    EfiStatus × Option (List UInt16) :=
  match efivarGetRaw bootOrder outcomes.orderFault with
  | .error status => (status, bootOrder)
  | .ok order =>
    if order.head?.any (·.toNat = bootNum) then (.success, bootOrder)
    else if !outcomes.orderMemory then (.success, bootOrder)
    else
      efivarSetRaw bootOrder outcomes.orderFault outcomes.orderSet
        (.ofNat bootNum :: order.filter (·.toNat ≠ bootNum))

/-- The number that goes into `BootNext`: it is printed by `%d` and read by `StrToHex`. -/
def efiBootNum (bootNum : Nat) : UInt16 := .ofNat (strToHex (Nat.toDigits 10 bootNum) 0 16)

/-- The write of the entry, which is left out where it already exists. -/
def writeEntry (boot : BootVars) (bootNum : Nat) (alreadyExists granted : Bool) (entry : Contents) :
    EfiStatus × BootVars :=
  if !alreadyExists then
    let (status, held) :=
      setHardwareNvramVariable (boot.contents bootNum) (boot.fault bootNum) granted entry
    (status, boot.set bootNum held)
  else (.success, boot)

/-- `CreateNvramEntry`, with what `ConstructBootEntry` gives. -/
def createNvramEntry (constructed : Except EfiStatus Contents) (makeDefault : Bool) (outcomes : Outcomes)
    (nvram : Nvram) : EfiStatus × Nvram :=
  match constructed with
  | .error status => (status, nvram)
  | .ok entry =>
    let (bootNum, alreadyExists) := findBootNum nvram.boot entry
    let (status, boot) := writeEntry nvram.boot bootNum alreadyExists outcomes.bootSet entry
    let nvram := { nvram with boot }
    if status ≠ .success then (status, nvram)
    else if makeDefault then
      let (status, bootOrder) := setBootDefault bootNum outcomes nvram.bootOrder
      (status, { nvram with bootOrder })
    else
      let (status, bootNext) :=
        setHardwareNvramVariable nvram.bootNext outcomes.nextFault outcomes.nextSet (efiBootNum bootNum)
      (status, { nvram with bootNext })

/-! ### The number that is found -/

variable {vars : BootVars} {entry : Contents} {n : Nat}

/-- What is read under the number is not the entry. -/
def Other (vars : BootVars) (entry : Contents) (n : Nat) : Prop :=
  ∃ contents, vars.read n = .ok contents ∧ contents ≠ entry

/-- One of the numbers that the first loop tries. -/
def Tried (n : Nat) : Prop := 80 ≤ n ∧ n ≤ 89

/-- The first number tried that reads as the entry, or else the first number of all that does not read as
something else. -/
def EndsAt (vars : BootVars) (entry : Contents) (n : Nat) : Prop :=
  (Tried n ∧ vars.read n = .ok entry ∧ ∀ m < n, Tried m → vars.read m ≠ .ok entry) ∨
    ((∀ m, Tried m → vars.read m ≠ .ok entry) ∧ (∀ m < n, Other vars entry m) ∧ ¬ Other vars entry n)

theorem not_other_of_read (equal : vars.read n = .ok entry) : ¬ Other vars entry n := by
  rintro ⟨contents, read, differs⟩
  rw [equal] at read
  exact differs (Except.ok.inj read).symm

theorem EndsAt.unique {n' : Nat} (ends : EndsAt vars entry n) (ends' : EndsAt vars entry n') : n = n' := by
  obtain ⟨tried, equal, first⟩ | ⟨nowhere, before, stops⟩ := ends <;>
    obtain ⟨tried', equal', first'⟩ | ⟨nowhere', before', stops'⟩ := ends'
  · obtain less | same | more := Nat.lt_trichotomy n n'
    · exact absurd equal (first' n less tried)
    · exact same
    · exact absurd equal' (first n' more tried')
  · exact absurd equal (nowhere' n tried)
  · exact absurd equal' (nowhere n' tried')
  · obtain less | same | more := Nat.lt_trichotomy n n'
    · exact absurd (before' n less) stops
    · exact same
    · exact absurd (before n' more) stops'

/-- The second loop stops, and everything that it passed reads as something else. -/
theorem scanFrom_stops (vars : BootVars) (entry : Contents) (index : Nat) :
    ∃ n, index ≤ n ∧ (∀ m, index ≤ m → m < n → Other vars entry m) ∧ ¬ Other vars entry n ∧
      scanFrom vars entry index = (n, decide (vars.read n = .ok entry)) := by
  fun_induction scanFrom vars entry index with
  | case1 index status read =>
    refine ⟨index, Nat.le_refl _, fun m low high => by omega, ?_, ?_⟩
    · rintro ⟨contents, read', -⟩
      rw [read] at read'
      cases read'
    · rw [read]
      rfl
  | case2 index read =>
    refine ⟨index, Nat.le_refl _, fun m low high => by omega, not_other_of_read read, ?_⟩
    rw [decide_eq_true read]
  | case3 index contents read differs ih =>
    obtain ⟨n, above, passed, stops, eq⟩ := ih
    refine ⟨n, Nat.le_of_succ_le above, fun m low high => ?_, stops, eq⟩
    obtain here | later := Nat.eq_or_lt_of_le low
    · exact here ▸ ⟨contents, read, differs⟩
    · exact passed m later high

theorem findBootNum_stops (vars : BootVars) (entry : Contents) :
    ∃ n, EndsAt vars entry n ∧
      findBootNum vars entry = (min n 0xFFFF, decide (vars.read n = .ok entry)) := by
  have tried : ∀ m, m ∈ List.range' 80 10 ↔ Tried m := by
    intro m
    rw [List.mem_range'_1]
    unfold Tried
    omega
  rw [findBootNum]
  cases search : (List.range' 80 10).find? fun index => vars.read index = .ok entry with
  | some index =>
    obtain ⟨equal, front, back, split, before⟩ := List.find?_eq_some_iff_append.mp search
    have equal : vars.read index = .ok entry := of_decide_eq_true equal
    have inside : Tried index := (tried index).mp (split ▸ List.mem_append_cons_self)
    refine ⟨index, Or.inl ⟨inside, equal, fun m less tried' equal' => ?_⟩, ?_⟩
    · have sorted : (front ++ index :: back).Pairwise (· < ·) := split ▸ List.pairwise_lt_range'
      obtain early | late := List.mem_append.mp (split ▸ (tried m).mpr tried')
      · exact absurd (decide_eq_true equal') (by simpa using before m early)
      · obtain rfl | late := List.mem_cons.mp late
        · exact Nat.lt_irrefl _ less
        · have more := (List.pairwise_cons.mp (List.pairwise_append.mp sorted).2.1).1 m late
          omega
    · rw [decide_eq_true equal, Nat.min_eq_left (Nat.le_trans inside.2 (by decide))]
  | none =>
    have nowhere : ∀ m, Tried m → vars.read m ≠ .ok entry := by
      intro m tried' equal
      exact List.find?_eq_none.mp search m ((tried m).mpr tried') (decide_eq_true equal)
    obtain ⟨n, -, passed, stops, eq⟩ := scanFrom_stops vars entry 0
    refine ⟨n, Or.inr ⟨nowhere, fun m less => passed m (Nat.zero_le m) less, stops⟩, ?_⟩
    rw [eq]
    dsimp only
    congr 1
    split <;> omega

theorem EndsAt.findBootNum (ends : EndsAt vars entry n) :
    findBootNum vars entry = (min n 0xFFFF, decide (vars.read n = .ok entry)) := by
  obtain ⟨n', ends', eq⟩ := findBootNum_stops vars entry
  rw [ends.unique ends']
  exact eq

/-! ### The number for the next boot -/

theorem strToHex_toDigits {n : Nat} (fits : n < 0x10000) :
    strToHex (Nat.toDigits 10 n) 0 16 = hexValue (Nat.toDigits 10 n) := by
  have short : (Nat.toDigits 10 n).length ≤ 16 :=
    (Nat.length_toDigits_le_iff (by decide) (by decide)).mpr (Nat.lt_of_lt_of_le fits (by decide))
  have absent : 'x' ∉ Nat.toDigits 10 n := fun mem => absurd (allHex_toDigits n 'x' mem) (by decide)
  rw [strToHex_absent absent 0 (by decide), List.drop_zero, hexLoop_take (allHex_toDigits n),
    List.take_of_length_le short]

/-- The digits are worth too little more as hexadecimal ones to make up for the first digit, and a multiple
of six. -/
theorem eq_zero_of_gap {a b c d : Nat} (digits : b < 10 ∧ c < 10 ∧ d < 10)
    (gap : 3096 * b + 156 * c + 6 * d = 10000 * a) : a = 0 := by
  have bound : 3096 * b + 156 * c + 6 * d < 30000 := by omega
  rw [gap] at bound
  have few : a < 3 := by
    clear gap
    omega
  match a, few with
  | 0, _ => rfl
  | 1, _ => omega
  | 2, _ => omega

theorem efiBootNum_eq_iff {n : Nat} (fits : n < 0x10000) : (efiBootNum n).toNat = n ↔ n < 10 := by
  have read : (efiBootNum n).toNat = hexValue (Nat.toDigits 10 n) % 0x10000 := by
    rw [efiBootNum, strToHex_toDigits fits]
    rfl
  have zero : hexValue (Nat.toDigits 10 (n / 10 / 10 / 10 / 10 / 10)) = 0 := by
    have none : n / 10 / 10 / 10 / 10 / 10 = 0 := by omega
    rw [none]
    rfl
  rw [read, hexValue_toDigits, hexValue_toDigits (n / 10), hexValue_toDigits (n / 10 / 10),
    hexValue_toDigits (n / 10 / 10 / 10), hexValue_toDigits (n / 10 / 10 / 10 / 10), zero]
  -- the five digits: the first of them falls out of the sixteen bits
  obtain ⟨a, eqA⟩ : ∃ a, a = n / 10 / 10 / 10 / 10 := ⟨_, rfl⟩
  obtain ⟨b, eqB⟩ : ∃ b, b = n / 10 / 10 / 10 % 10 := ⟨_, rfl⟩
  obtain ⟨c, eqC⟩ : ∃ c, c = n / 10 / 10 % 10 := ⟨_, rfl⟩
  obtain ⟨d, eqD⟩ : ∃ d, d = n / 10 % 10 := ⟨_, rfl⟩
  obtain ⟨e, eqE⟩ : ∃ e, e = n % 10 := ⟨_, rfl⟩
  have number : n = 10000 * a + 1000 * b + 100 * c + 10 * d + e := by omega
  have digits : b < 10 ∧ c < 10 ∧ d < 10 := by
    rw [eqB, eqC, eqD]
    exact ⟨Nat.mod_lt _ (by decide), Nat.mod_lt _ (by decide), Nat.mod_lt _ (by decide)⟩
  have last : e < 10 := eqE ▸ Nat.mod_lt n (by decide)
  have first : a % 10 = a := by omega
  rw [← eqA, ← eqB, ← eqC, ← eqD, ← eqE, first]
  clear eqA eqB eqC eqD eqE first zero read fits
  have low : (((((0 * 16 + a) * 16 + b) * 16 + c) * 16 + d) * 16 + e) % 0x10000 =
      4096 * b + 256 * c + 16 * d + e := by
    clear number
    omega
  rw [low]
  constructor
  · intro same
    have gap : 3096 * b + 156 * c + 6 * d = 10000 * a := by linarith only [same, number]
    obtain rfl := eq_zero_of_gap digits gap
    clear same low
    omega
  · intro small
    omega

end Meridian.Install
