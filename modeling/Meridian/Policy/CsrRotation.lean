import Meridian.Policy.Csr
import Mathlib.Data.List.Cycle
import Mathlib.Data.List.Rotate

/-!
# Rotating through the CSR values

The dialog and the writer always agree on the value to go to. It is the one behind the value in force
but where that is zero: the dialog takes the second of the list then, whichever place zero has in it.
-/

namespace Meridian.Policy

open Lib.Codec

/-! ### One rotation -/

variable {config : CsrConfig} {menu : ConfirmMenu} {st : CsrState} {first : UInt32} {rest : List UInt32}

/-- The value in force: an absent variable is zero. -/
def inForce (st : CsrState) : UInt32 :=
  match st.csrActiveConfig with
  | none => 0
  | some bytes => csrValue bytes

/-- The variable holds a value, or is absent. -/
def HoldsValue (st : CsrState) : Prop := ∀ bytes ∈ st.csrActiveConfig, bytes.length = 4

/-- The dialog is shown and answered with yes. -/
structure ConfirmMenu.Confirmed (menu : ConfirmMenu) : Prop where
  memory : menu.memory = true
  entries : menu.entries = true
  yes : menu.yes = true

@[simp] theorem csrValue_csrBytes (value : UInt32) : csrValue (csrBytes value) = value := by
  have small : value.toNat < 256 ^ 4 := value.toNat_lt
  rw [csrValue, csrBytes, ofLe_toLe small, UInt32.ofNat_toNat]

@[simp] theorem length_csrBytes (value : UInt32) : (csrBytes value).length = 4 := length_toLe 4 _

theorem csrBytes_ne_nil (value : UInt32) : csrBytes value ≠ [] := by
  rw [← List.length_pos_iff, length_csrBytes]
  decide

/-- Whether it was already there or is stored now, the value is in the variable. -/
theorem efivarSetRaw_stored (st : CsrState) (value : UInt32) :
    (efivarSetRaw st (csrBytes value)).2.csrActiveConfig = some (csrBytes value) := by
  unfold efivarSetRaw
  split
  · rename_i same
    unfold efivarGetRaw at same
    cases held : st.csrActiveConfig with
    | none => simp [held] at same
    | some bytes =>
      rw [held] at same
      exact congrArg some (Except.ok.inj same.2)
  · rw [setVariable, if_neg (csrBytes_ne_nil value)]

theorem setVariable_deleted (st : CsrState) : (setVariable st []).2.csrActiveConfig = none := by
  rw [setVariable, if_pos rfl]
  split
  · assumption
  · rfl

/-- The writer's target, for a variable with a value in it. -/
theorem rotateCsrValue_inForce {bytes : List UInt8} (values : config.csrValues = first :: rest)
    (held : st.csrActiveConfig = some bytes) (size : bytes.length = 4) :
    inForce (rotateCsrValue config true st) =
        targetCsr first ((first :: rest).dropWhile (· ≠ csrValue bytes)) ∧
      HoldsValue (rotateCsrValue config true st) := by
  have read : getCsrStatus st =
      (.success, some (csrValue bytes), { st with gCsrStatus := csrStatusText (csrValue bytes) }) := by
    rw [getCsrStatus, efivarGetRaw, held]
    dsimp only
    rw [if_neg (not_not.mpr size)]
  unfold rotateCsrValue
  rw [values, read]
  dsimp only
  generalize targetCsr first ((first :: rest).dropWhile (· ≠ csrValue bytes)) = target
  generalize ({ st with gCsrStatus := csrStatusText (csrValue bytes) } : CsrState) = st
  have set : (if target ≠ 0 then efivarSetRaw st (csrBytes target) else setVariable st []).2.csrActiveConfig =
      if target ≠ 0 then some (csrBytes target) else none := by
    split
    · exact efivarSetRaw_stored st target
    · exact setVariable_deleted st
  have kept : ∀ st' : CsrState, st'.csrActiveConfig = (if target ≠ 0 then some (csrBytes target) else none) →
      inForce st' = target ∧ HoldsValue st' := by
    intro st' eq
    rw [inForce, HoldsValue, eq]
    by_cases zero : target = 0
    · subst zero
      exact ⟨rfl, nofun⟩
    · rw [if_pos zero]
      exact ⟨csrValue_csrBytes target, fun bytes mem => by obtain rfl := Option.some.inj mem; simp⟩
  generalize (if target ≠ 0 then efivarSetRaw st (csrBytes target) else setVariable st []) = outcome at set ⊢
  obtain ⟨status, st'⟩ := outcome
  split
  · rename_i eq
    cases eq
    exact kept _ set
  · rename_i eq
    cases eq
    exact kept _ set

/-- The value that the dialog announces: zero is not looked for in the list. -/
def announced (first : UInt32) (rest : List UInt32) (current : UInt32) : UInt32 :=
  targetCsr first (if current = 0 then first :: rest else (first :: rest).dropWhile (· ≠ current))

/-- After a confirmed rotation the value that the dialog announced is in force. -/
theorem initRotateCSR_confirmed (values : config.csrValues = first :: rest) (confirmed : menu.Confirmed)
    (holds : HoldsValue st) :
    ∃ dialog, (initRotateCSR config menu st).1 = some dialog ∧
      dialog.targetCsr = announced first rest (inForce st) ∧
      inForce (initRotateCSR config menu st).2 = announced first rest (inForce st) ∧
      HoldsValue (initRotateCSR config menu st).2 := by
  have read : ∃ status st', getCsrStatus st = (status, some (inForce st), st') ∧
      st'.csrActiveConfig = st.csrActiveConfig := by
    unfold getCsrStatus efivarGetRaw inForce
    cases held : st.csrActiveConfig with
    | none => exact ⟨_, _, rfl, rfl⟩
    | some bytes =>
      dsimp only
      rw [if_neg (not_not.mpr (holds bytes held))]
      exact ⟨_, _, rfl, rfl⟩
  obtain ⟨status, st', read, same⟩ := read
  have dialog : (confirmRotate config menu st).1 = true ∧ (confirmRotate config menu st).2.1 = some {
        currentCsr := inForce st
        targetCsr := announced first rest (inForce st)
        infoLines := ["From : " ++ csrStatusText (inForce st),
          "To   : " ++ csrStatusText (announced first rest (inForce st)), ""] } ∧
      (confirmRotate config menu st).2.2.csrActiveConfig =
        if inForce st = 0 then some (csrBytes first) else st.csrActiveConfig := by
    unfold confirmRotate
    rw [values, confirmed.memory, confirmed.entries, confirmed.yes, read]
    refine ⟨rfl, ?_, ?_⟩
    · simp [announced]
    · simp only [Bool.not_true, Bool.false_eq_true, if_false, Option.getD_some]
      split
      · exact efivarSetRaw_stored _ first
      · exact same
  rw [initRotateCSR]
  generalize confirmRotate config menu st = outcome at dialog ⊢
  obtain ⟨yes, shown, st''⟩ := outcome
  obtain ⟨rfl, rfl, variable_⟩ := dialog
  refine ⟨_, rfl, rfl, ?_⟩
  rw [announced]
  by_cases empty : inForce st = 0
  · rw [if_pos empty] at variable_
    have rotated := rotateCsrValue_inForce values variable_ (length_csrBytes first)
    rw [csrValue_csrBytes, List.dropWhile_cons_of_neg (by simp)] at rotated
    rw [if_pos empty]
    exact rotated
  · rw [if_neg empty] at variable_ ⊢
    cases held : st.csrActiveConfig with
    | none => exact absurd (by rw [inForce, held]) empty
    | some bytes =>
      have value : csrValue bytes = inForce st := by rw [inForce, held]
      rw [← value]
      exact rotateCsrValue_inForce values (variable_.trans held) (holds bytes held)

/-! ### The list as a cycle -/

/-- The value behind the current one in the cyclic list; the first one when it is not in the list. -/
def following (values : List UInt32) (current : UInt32) : UInt32 :=
  if mem : current ∈ values then values.next current mem else values.headD 0

theorem dropWhile_ne_eq_drop (values : List UInt32) (current : UInt32) :
    values.dropWhile (· ≠ current) = values.drop (values.idxOf current) := by
  induction values with
  | nil => rfl
  | cons value values ih =>
    by_cases here : value = current
    · subst here
      rw [List.dropWhile_cons_of_neg (by simp), List.idxOf_cons_self, List.drop_zero]
    · rw [List.dropWhile_cons_of_pos (by simpa using here), ih, List.idxOf_cons_ne _ here,
        List.drop_succ_cons]

/-- The place behind one in the cycle. -/
def behind {n : Nat} (i : Fin n) : Fin n := ⟨(i + 1) % n, Nat.mod_lt _ i.pos⟩

theorem behind_of_lt {n : Nat} {i : Fin n} (inner : i.val + 1 < n) : behind i = ⟨i + 1, inner⟩ :=
  Fin.ext (Nat.mod_eq_of_lt inner)

theorem behind_of_eq {n : Nat} {i : Fin n} (last : i.val + 1 = n) : (behind i).val = 0 := by
  rw [behind]
  simp only [last, Nat.mod_self]

theorem behind_injective {n : Nat} {i j : Fin n} (same : behind i = behind j) : i = j := by
  rcases Nat.lt_or_eq_of_le (Nat.succ_le_of_lt i.isLt) with inner | last
  · rcases Nat.lt_or_eq_of_le (Nat.succ_le_of_lt j.isLt) with inner' | last'
    · rw [behind_of_lt inner, behind_of_lt inner', Fin.mk.injEq] at same
      exact Fin.ext (Nat.succ.inj same)
    · have zero := congrArg Fin.val same
      rw [behind_of_lt inner, behind_of_eq last'] at zero
      cases zero
  · rcases Nat.lt_or_eq_of_le (Nat.succ_le_of_lt j.isLt) with inner' | last'
    · have zero := congrArg Fin.val same
      rw [behind_of_lt inner', behind_of_eq last] at zero
      cases zero
    · exact Fin.ext (Nat.succ.inj (last.trans last'.symm))

theorem targetCsr_drop {values : List UInt32} (i : Fin values.length) :
    targetCsr (values.headD 0) (values.drop i) = values.get (behind i) := by
  rw [List.drop_eq_getElem_cons i.isLt]
  rcases Nat.lt_or_eq_of_le (Nat.succ_le_of_lt i.isLt) with inner | last
  · rw [List.drop_eq_getElem_cons inner, targetCsr, behind_of_lt inner]
    rfl
  · have start : behind i = ⟨0, i.pos⟩ := Fin.ext (behind_of_eq last)
    rw [List.drop_eq_nil_of_le (Nat.le_of_eq last.symm), start]
    cases values with
    | nil => exact i.elim0
    | cons first rest => rfl

theorem targetCsr_following (first : UInt32) (rest : List UInt32) (current : UInt32) :
    targetCsr first ((first :: rest).dropWhile (· ≠ current)) = following (first :: rest) current := by
  rw [following, dropWhile_ne_eq_drop]
  split
  · rename_i mem
    rw [List.next_eq_getElem]
    exact targetCsr_drop ⟨_, List.idxOf_lt_length_of_mem mem⟩
  · rename_i absent
    rw [List.idxOf_of_notMem absent, List.drop_length]
    rfl

theorem following_get {values : List UInt32} (distinct : values.Nodup) (i : Fin values.length) :
    following values (values.get i) = values.get (behind i) := by
  rw [following, dif_pos (List.get_mem values i)]
  exact List.next_getElem values distinct i i.isLt

theorem following_mem {values : List UInt32} (some : values ≠ []) (current : UInt32) :
    following values current ∈ values := by
  rw [following]
  split
  · exact List.next_mem _ _ _
  · cases values with
    | nil => exact absurd rfl some
    | cons first rest => exact List.mem_cons_self

/-! ### What is announced for zero -/

theorem announced_nonzero {current : UInt32} (nonzero : current ≠ 0) :
    announced first rest current = following (first :: rest) current := by
  rw [announced, if_neg nonzero, targetCsr_following]

theorem announced_zero (first : UInt32) (rest : List UInt32) :
    announced first rest 0 = (first :: rest).get (behind ⟨0, Nat.succ_pos _⟩) := by
  rw [announced, if_pos rfl]
  have second := @targetCsr_drop (first :: rest) ⟨0, Nat.succ_pos _⟩
  exact second

/-- The list starts with zero, or has one value. -/
def ZeroFirst (values : List UInt32) : Prop := values.length = 1 ∨ values.head? = some 0

theorem announced_mem (first : UInt32) (rest : List UInt32) (current : UInt32) :
    announced first rest current ∈ first :: rest := by
  by_cases zero : current = 0
  · rw [zero, announced_zero]
    exact List.get_mem _ _
  · rw [announced_nonzero zero]
    exact following_mem (List.cons_ne_nil _ _) current

theorem announced_eq_following (distinct : (first :: rest).Nodup) (right : ZeroFirst (first :: rest))
    (current : UInt32) : announced first rest current = following (first :: rest) current := by
  by_cases zero : current = 0
  swap
  · exact announced_nonzero zero
  rcases right with single | head
  · obtain rfl := List.length_eq_zero_iff.mp (Nat.succ.inj single)
    have only := announced_mem first [] current
    have only' := following_mem (List.cons_ne_nil first []) current
    rw [List.mem_singleton] at only only'
    rw [only, only']
  · obtain rfl : first = 0 := Option.some.inj head
    rw [zero, announced_zero]
    exact (@following_get (0 :: rest) distinct ⟨0, Nat.succ_pos _⟩).symm

/-- Where zero is neither first nor alone, the second value is announced for it and for the first one:
no value is announced for the one behind zero. -/
theorem announced_ne_behind (distinct : (first :: rest).Nodup) (wrong : ¬ZeroFirst (first :: rest))
    {j : Fin (first :: rest).length} (zero : (first :: rest).get j = 0) {current : UInt32}
    (mem : current ∈ first :: rest) : announced first rest current ≠ (first :: rest).get (behind j) := by
  intro same
  by_cases isZero : current = 0
  · rw [isZero, announced_zero, distinct.get_inj_iff] at same
    obtain rfl := behind_injective same
    exact wrong (Or.inr (congrArg some zero))
  · rw [announced_nonzero isZero] at same
    obtain ⟨i, rfl⟩ := List.get_of_mem mem
    rw [following_get distinct, distinct.get_inj_iff] at same
    obtain rfl := behind_injective same
    exact isZero zero

theorem announced_zero_ne (distinct : (first :: rest).Nodup) (wrong : ¬ZeroFirst (first :: rest)) :
    announced first rest 0 ≠ following (first :: rest) 0 := by
  by_cases mem : 0 ∈ first :: rest
  · obtain ⟨j, zero⟩ := List.get_of_mem mem
    have behind := announced_ne_behind distinct wrong zero mem
    rw [← following_get distinct, zero] at behind
    exact behind
  · intro same
    have second : 1 < (first :: rest).length := by
      have single : (first :: rest).length ≠ 1 := fun h => wrong (Or.inl h)
      have positive : 0 < (first :: rest).length := Nat.succ_pos _
      omega
    have start : following (first :: rest) 0 = (first :: rest).get ⟨0, Nat.succ_pos _⟩ := by
      rw [following, dif_neg mem]
      rfl
    rw [announced_zero, start, distinct.get_inj_iff, behind_of_lt second] at same
    cases same

/-! ### Rotating again and again -/

/-- The state after so many confirmed rotations. -/
def rotated (config : CsrConfig) (menu : ConfirmMenu) (n : Nat) (st : CsrState) : CsrState :=
  (fun st => (initRotateCSR config menu st).2)^[n] st

theorem inForce_rotated (values : config.csrValues = first :: rest) (confirmed : menu.Confirmed)
    (holds : HoldsValue st) (n : Nat) :
    inForce (rotated config menu n st) = (announced first rest)^[n] (inForce st) ∧
      HoldsValue (rotated config menu n st) := by
  induction n with
  | zero => exact ⟨rfl, holds⟩
  | succ n ih =>
    obtain ⟨_, _, _, value, holds'⟩ := initRotateCSR_confirmed values confirmed ih.2
    rw [rotated, Function.iterate_succ_apply', Function.iterate_succ_apply', ← ih.1]
    exact ⟨value, holds'⟩

/-- As far as the value behind each one is announced, the values in force go through the list. -/
theorem iterate_announced (distinct : (first :: rest).Nodup)
    (right : ∀ value ∈ first :: rest, announced first rest value = following (first :: rest) value)
    (i : Fin (first :: rest).length) (n : Nat) :
    (announced first rest)^[n] ((first :: rest).get i) =
      (first :: rest).get ⟨(i + n) % (first :: rest).length, Nat.mod_lt _ i.pos⟩ := by
  induction n with
  | zero => simp only [Function.iterate_zero_apply, Nat.add_zero, Nat.mod_eq_of_lt i.isLt]
  | succ n ih =>
    rw [Function.iterate_succ_apply', ih, right _ (List.get_mem _ _), following_get distinct, behind]
    simp only [Nat.mod_add_mod, Nat.add_assoc]

/-- Every value of the list once, and then the start. -/
def PassesThrough (values : List UInt32) (current : UInt32) (after : Nat → UInt32) : Prop :=
  ((List.range values.length).map fun k => after (k + 1)).Perm values ∧ after values.length = current

theorem passesThrough_announced (distinct : (first :: rest).Nodup)
    (right : ∀ value ∈ first :: rest, announced first rest value = following (first :: rest) value)
    {current : UInt32} (mem : current ∈ first :: rest) :
    PassesThrough (first :: rest) current fun n => (announced first rest)^[n] current := by
  obtain ⟨i, rfl⟩ := List.get_of_mem mem
  have steps := iterate_announced distinct right i
  constructor
  · have order : ((List.range (first :: rest).length).map fun k =>
        (announced first rest)^[k + 1] ((first :: rest).get i)) = (first :: rest).rotate (i + 1) := by
      apply List.ext_getElem
      · rw [List.length_map, List.length_range, List.length_rotate]
      · intro k below below'
        rw [List.getElem_map, List.getElem_range, steps, List.getElem_rotate, List.get_eq_getElem]
        simp only [Nat.add_left_comm]
    rw [order]
    exact List.rotate_perm _ _
  · have back := steps (first :: rest).length
    simp only [Nat.add_mod_right, Nat.mod_eq_of_lt i.isLt] at back
    exact back

theorem not_passesThrough_announced (distinct : (first :: rest).Nodup) (wrong : ¬ZeroFirst (first :: rest))
    (zero : 0 ∈ first :: rest) {current : UInt32} (mem : current ∈ first :: rest) :
    ¬PassesThrough (first :: rest) current fun n => (announced first rest)^[n] current := by
  rintro ⟨all, _⟩
  obtain ⟨j, here⟩ := List.get_of_mem zero
  obtain ⟨k, _, reached⟩ := List.mem_map.mp (all.mem_iff.mpr (List.get_mem (first :: rest) (behind j)))
  have before : (announced first rest)^[k] current ∈ first :: rest := by
    cases k with
    | zero => exact mem
    | succ k =>
      rw [Function.iterate_succ_apply']
      exact announced_mem first rest _
  dsimp only at reached
  rw [Function.iterate_succ_apply'] at reached
  exact announced_ne_behind distinct wrong here before reached

/-! ### What a rotation is for -/

/-- The dialog announces what is in force afterwards, which is the next value in the cycle, and as many
rotations as there are values go through all of them. -/
structure Rotates (config : CsrConfig) (menu : ConfirmMenu) (st : CsrState) : Prop where
  announced : ∃ dialog, (initRotateCSR config menu st).1 = some dialog ∧
    inForce (initRotateCSR config menu st).2 = dialog.targetCsr
  next : inForce (initRotateCSR config menu st).2 = following config.csrValues (inForce st)
  cycle : inForce st ∈ config.csrValues →
    PassesThrough config.csrValues (inForce st) fun n => inForce (rotated config menu n st)

theorem rotates_iff_announced (values : config.csrValues = first :: rest) (confirmed : menu.Confirmed)
    (holds : HoldsValue st) :
    Rotates config menu st ↔
      announced first rest (inForce st) = following (first :: rest) (inForce st) ∧
      (inForce st ∈ first :: rest →
        PassesThrough (first :: rest) (inForce st) fun n => (announced first rest)^[n] (inForce st)) := by
  obtain ⟨dialog, shown, target, value, _⟩ := initRotateCSR_confirmed values confirmed holds
  have runs : (fun n => inForce (rotated config menu n st)) =
      fun n => (announced first rest)^[n] (inForce st) :=
    funext fun n => (inForce_rotated values confirmed holds n).1
  constructor
  · intro rotates
    refine ⟨value.symm.trans (values ▸ rotates.next), fun mem => ?_⟩
    have cycle := rotates.cycle (values ▸ mem)
    rw [runs, values] at cycle
    exact cycle
  · rintro ⟨next, cycle⟩
    refine ⟨⟨dialog, shown, value.trans target.symm⟩, values ▸ value.trans next, fun mem => ?_⟩
    rw [runs, values]
    exact cycle (values ▸ mem)

/-- The rotation goes to the next value of the cycle, all the way round, just when zero has the first
place in the list or the list has one value, or when the value in force is not zero and zero is not ahead. -/
theorem csrRotation_iff (distinct : config.csrValues.Nodup) (configured : config.csrValues ≠ [])
    (confirmed : menu.Confirmed) (holds : HoldsValue st) :
    Rotates config menu st ↔
      ZeroFirst config.csrValues ∨
        inForce st ≠ 0 ∧ (inForce st ∈ config.csrValues → 0 ∉ config.csrValues) := by
  obtain ⟨first, rest, values⟩ := List.exists_cons_of_ne_nil configured
  rw [rotates_iff_announced values confirmed holds, values]
  rw [values] at distinct
  by_cases right : ZeroFirst (first :: rest)
  · refine iff_of_true ⟨announced_eq_following distinct right _, ?_⟩ (Or.inl right)
    exact passesThrough_announced distinct fun value _ => announced_eq_following distinct right value
  constructor
  · rintro ⟨next, cycle⟩
    refine Or.inr ⟨?_, fun mem zero => ?_⟩
    · intro zero
      rw [zero] at next
      exact announced_zero_ne distinct right next
    · exact not_passesThrough_announced distinct right zero mem (cycle mem)
  · rintro (single | ⟨nonzero, ahead⟩)
    · exact absurd single right
    refine ⟨announced_nonzero nonzero, fun mem => passesThrough_announced distinct (fun value inList => ?_) mem⟩
    have nonzero' : value ≠ 0 := by
      intro zero
      exact ahead mem (zero ▸ inList)
    exact announced_nonzero nonzero'

/-! ### A list without zero -/

/-- Two values with an absent variable, and with the second of the values in it. -/
def twoValues : CsrConfig := { csrValues := [0x10, 0x77], normaliseCSR := false }

def yesMenu : ConfirmMenu := { memory := true, entries := true, yes := true, unset := 0 }

def absentCsr : CsrState :=
  { csrActiveConfig := none, normaliseCall := false, gCsrStatus := "", dynamicCSR := 1 }

def secondCsr : CsrState := { absentCsr with csrActiveConfig := some (csrBytes 0x77) }

theorem yesMenu_confirmed : yesMenu.Confirmed := ⟨rfl, rfl, rfl⟩

theorem csrRotation_second : Rotates twoValues yesMenu secondCsr := by
  have holds : HoldsValue secondCsr := by
    intro bytes mem
    obtain rfl := Option.some.inj mem
    rfl
  refine (csrRotation_iff (by decide) (by decide) yesMenu_confirmed holds).mpr (Or.inr ⟨?_, fun _ => ?_⟩)
  · decide
  · decide

/-- The variable is absent and zero is not in the list: the second value goes in force, not the first. -/
theorem csrRotation_absent : ¬Rotates twoValues yesMenu absentCsr := by
  intro rotates
  have next := rotates.next
  have holds : HoldsValue absentCsr := by
    intro bytes mem
    cases mem
  rw [(initRotateCSR_confirmed rfl yesMenu_confirmed holds).choose_spec.2.2.1] at next
  revert next
  decide

end Meridian.Policy
