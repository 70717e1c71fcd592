import Meridian.Install.BootOptions

/-!
# The edits of the boot order

What `SetBootDefault` and `DeleteInvalidBootEntries` of `install/install.c` make of `BootOrder`. An absent
`BootOrder` counts as the empty list.
-/

namespace Meridian.Install

/-- What the firmware does while the list is cleaned: the faults in reading `BootOrder`, first and when it is
compared, the fault in the read of each round, the memory for the new list, and whether its write is granted. -/
structure CleanupOutcomes where
  orderFault : Option ReadFault
  orderMemory : Bool
  entryFaults : Nat → Option ReadFault
  compareFault : Option ReadFault
  orderSet : Bool

/-- The loop over the listed numbers, from round `i` on. -/
def readableFrom (contents : Nat → Option Contents) (faults : Nat → Option ReadFault) (i : Nat) :
    List UInt16 → List UInt16
  | [] => []
  | n :: rest =>
    match efivarGetRaw (contents n.toNat) (faults i) with
    | .ok _ => n :: readableFrom contents faults (i + 1) rest
    | .error _ => readableFrom contents faults (i + 1) rest

/-- `EfivarSetRaw` for a list that may be empty: then nothing is compared, and the firmware deletes the
variable. -/
def efivarSetOrder (held : Option (List UInt16)) (fault : Option ReadFault) (granted : Bool)
    (order : List UInt16) : EfiStatus × Option (List UInt16) :=
  if order = [] then if granted then (.success, none) else (.deviceError, held)
  else efivarSetRaw held fault granted order

/-- There is no result where a number is written through the null pointer. -/
def deleteInvalidBootEntries (contents : Nat → Option Contents) (outcomes : CleanupOutcomes)
    (bootOrder : Option (List UInt16)) : Option (EfiStatus × Option (List UInt16)) :=
  match efivarGetRaw bootOrder outcomes.orderFault with
  | .error status => some (status, bootOrder)
  | .ok order =>
    let newBootOrder := readableFrom contents outcomes.entryFaults 0 order
    if !outcomes.orderMemory && !newBootOrder.isEmpty then none
    else some (efivarSetOrder bootOrder outcomes.compareFault outcomes.orderSet newBootOrder)

/-! ### What the edits are for -/

/-- An error and no change, or the number first and the other ones behind it as they were. -/
def DefaultSet (n : Nat) (before : Option (List UInt16)) (result : EfiStatus × Option (List UInt16)) : Prop :=
  (result.1 ≠ .success ∧ result.2 = before) ∨
    ∃ first : UInt16, first.toNat = n ∧ result.2 = some (first :: (before.getD []).filter (· ≠ first))

/-- No change, or the numbers are left whose variable exists. -/
def Cleaned (contents : Nat → Option Contents) (before : Option (List UInt16))
    (result : Option (EfiStatus × Option (List UInt16))) : Prop :=
  ∃ status after, result = some (status, after) ∧
    (after = before ∨ after.getD [] = (before.getD []).filter fun n => (contents n.toNat).isSome)

/-! ### Reading a variable -/

section Hardware

variable {α : Type} {held : Option α} {fault : Option ReadFault}

theorem efivarGetRaw_error {status : EfiStatus} (failed : efivarGetRaw held fault = .error status) :
    status ≠ .success := by
  rintro rfl
  cases held with
  | none => cases failed
  | some contents =>
    cases fault with
    | none => cases failed
    | some fault => cases fault <;> cases failed

theorem efivarGetRaw_ok {contents : α} :
    efivarGetRaw held fault = .ok contents ↔ held = some contents ∧ fault = none := by
  constructor
  · intro read
    cases held with
    | none => cases read
    | some contents =>
      cases fault with
      | none => exact ⟨congrArg some (Except.ok.inj read), rfl⟩
      | some fault => cases fault <;> cases read
  · rintro ⟨rfl, rfl⟩
    rfl

theorem forall_eq_ok {contents : α} {P : α → Prop} :
    (∀ contents', (Except.ok contents : Except EfiStatus α) = .ok contents' → P contents') ↔ P contents :=
  ⟨fun all => all contents rfl, fun holds _ same => Except.ok.inj same ▸ holds⟩

/-- A write of something else ends with it stored, or with an error and no change. -/
theorem efivarSetRaw_changed [DecidableEq α] {contents : α} (changed : held ≠ some contents) (granted : Bool) :
    efivarSetRaw held fault granted contents = setVariable held granted contents := by
  refine if_neg fun same => ?_
  exact changed (efivarGetRaw_ok.mp same).1

end Hardware

/-! ### The default -/

section Default

variable {n : Nat} {order : List UInt16}

theorem defaultSet_unchanged (status : EfiStatus) (succeeded : status = .success) :
    DefaultSet n (some order) (status, some order) ↔
      order.head?.any (·.toNat = n) ∧ n ∉ order.tail.map UInt16.toNat := by
  subst succeeded
  constructor
  · rintro (⟨failed, -⟩ | ⟨first, rfl, same⟩)
    · exact absurd rfl failed
    · have same : order = first :: order.filter (· ≠ first) := Option.some.inj same
      have tail : order.tail = order.filter (· ≠ first) := congrArg List.tail same
      refine ⟨?_, fun again => ?_⟩
      · rw [same]
        exact decide_eq_true rfl
      · rw [tail] at again
        obtain ⟨m, listed, equal⟩ := List.mem_map.mp again
        exact of_decide_eq_true (List.mem_filter.mp listed).2 (UInt16.toNat_inj.mp equal)
  · rintro ⟨isFirst, once⟩
    cases order with
    | nil => cases isFirst
    | cons first rest =>
      refine Or.inr ⟨first, of_decide_eq_true isFirst, congrArg some ?_⟩
      have others : (first :: rest).filter (· ≠ first) = rest := by
        rw [List.filter_cons_of_neg (by simp), List.filter_eq_self]
        rintro m listed
        refine decide_eq_true fun same => once ?_
        rw [← of_decide_eq_true isFirst, ← same]
        exact List.mem_map_of_mem listed
      exact congrArg (first :: ·) others.symm

theorem defaultSet_written (n : Nat) (order : List UInt16) :
    DefaultSet n (some order) (.success, some (.ofNat n :: order.filter (·.toNat ≠ n))) ↔ n < 0x10000 := by
  constructor
  · rintro (⟨failed, -⟩ | ⟨first, rfl, -⟩)
    · exact absurd rfl failed
    · exact first.toNat_lt
  · intro fits
    have value : (UInt16.ofNat n).toNat = n := UInt16.toNat_ofNat_of_lt' fits
    refine Or.inr ⟨.ofNat n, value, congrArg (fun rest => some (UInt16.ofNat n :: rest)) ?_⟩
    refine List.filter_congr fun m listed => ?_
    rw [decide_eq_decide, not_iff_not, ← UInt16.toNat_inj, value]

/-- The list is written in any case where the number is not first already. -/
theorem setBootDefault_written {outcomes : Outcomes} (memory : outcomes.orderMemory = true)
    (notFirst : order.head?.any (·.toNat = n) = false) (readable : outcomes.orderFault = none) :
    setBootDefault n outcomes (some order) =
      setVariable (some order) outcomes.orderSet (.ofNat n :: order.filter (·.toNat ≠ n)) := by
  have read : efivarGetRaw (some order) outcomes.orderFault = .ok order := efivarGetRaw_ok.mpr ⟨rfl, readable⟩
  have changed : some order ≠ some (UInt16.ofNat n :: order.filter (·.toNat ≠ n)) := by
    intro same
    have same : order = UInt16.ofNat n :: order.filter (·.toNat ≠ n) := Option.some.inj same
    -- a list that is its own filter with one number more would be longer than itself
    have first : ¬ (UInt16.ofNat n).toNat = n := by
      rw [same] at notFirst
      exact of_decide_eq_false notFirst
    have all : order.filter (·.toNat ≠ n) = order := by
      refine List.filter_eq_self.mpr fun m listed => decide_eq_true ?_
      rw [same] at listed
      obtain rfl | listed := List.mem_cons.mp listed
      · exact first
      · exact of_decide_eq_true (List.mem_filter.mp listed).2
    rw [all] at same
    exact List.cons_ne_self _ _ same.symm
  rw [setBootDefault, read]
  dsimp only
  rw [notFirst, if_neg Bool.false_ne_true, memory, Bool.not_true, if_neg Bool.false_ne_true,
    efivarSetRaw_changed changed]

/-- The number goes first exactly where it is not listed again behind the first place, or is not first yet,
there is memory, and a write that is granted is of a number of sixteen bits. -/
theorem defaultSet_iff (n : Nat) (outcomes : Outcomes) (before : Option (List UInt16)) :
    DefaultSet n before (setBootDefault n outcomes before) ↔
      ∀ order, efivarGetRaw before outcomes.orderFault = .ok order →
        if order.head?.any (·.toNat = n) then n ∉ order.tail.map UInt16.toNat
        else outcomes.orderMemory ∧ (outcomes.orderSet → n < 0x10000) := by
  cases read : efivarGetRaw before outcomes.orderFault with
  | error status =>
    have stopped : setBootDefault n outcomes before = (status, before) := by
      rw [setBootDefault, read]
    rw [stopped]
    refine iff_of_true (Or.inl ⟨efivarGetRaw_error read, rfl⟩) ?_
    intro order impossible
    cases impossible
  | ok order =>
    obtain ⟨rfl, readable⟩ := efivarGetRaw_ok.mp read
    rw [forall_eq_ok]
    cases isFirst : order.head?.any (·.toNat = n) with
    | true =>
      have kept : setBootDefault n outcomes (some order) = (.success, some order) := by
        rw [setBootDefault, read]
        exact if_pos isFirst
      rw [kept, defaultSet_unchanged .success rfl, isFirst, if_pos rfl, and_iff_right rfl]
    | false =>
      rw [if_neg Bool.false_ne_true]
      cases memory : outcomes.orderMemory with
      | false =>
        have kept : setBootDefault n outcomes (some order) = (.success, some order) := by
          rw [setBootDefault, read]
          dsimp only
          rw [isFirst, if_neg Bool.false_ne_true, memory, Bool.not_false, if_pos rfl]
        rw [kept, defaultSet_unchanged .success rfl, isFirst]
        exact iff_of_false (fun both => Bool.false_ne_true both.1) fun both => Bool.false_ne_true both.1
      | true =>
        rw [setBootDefault_written memory isFirst readable, and_iff_right rfl]
        cases outcomes.orderSet with
        | false =>
          refine iff_of_true (Or.inl ⟨fun same => ?_, rfl⟩) fun granted => nomatch granted
          cases same
        | true =>
          rw [setVariable, if_pos rfl, defaultSet_written]
          exact ⟨fun fits _ => fits, fun fits => fits rfl⟩

end Default

/-! ### The cleanup -/

section Cleanup

variable {contents : Nat → Option Contents} {order : List UInt16}

/-- What holds of each listed number with the round that it is read in. -/
def EachFrom (P : Nat → UInt16 → Prop) (i : Nat) (order : List UInt16) : Prop :=
  ∀ k n, order[k]? = some n → P (i + k) n

theorem eachFrom_nil (P : Nat → UInt16 → Prop) (i : Nat) : EachFrom P i [] := fun _ _ listed => nomatch listed

theorem eachFrom_cons {P : Nat → UInt16 → Prop} {i : Nat} {n : UInt16} {rest : List UInt16} :
    EachFrom P i (n :: rest) ↔ P i n ∧ EachFrom P (i + 1) rest := by
  constructor
  · intro all
    refine ⟨all 0 n rfl, fun k m listed => ?_⟩
    rw [Nat.add_assoc, Nat.add_comm 1]
    exact all (k + 1) m listed
  · rintro ⟨here, later⟩ k m listed
    cases k with
    | zero =>
      obtain rfl := Option.some.inj listed
      exact here
    | succ k =>
      rw [← Nat.add_assoc, Nat.add_right_comm]
      exact later k m listed

/-- Every listed variable that exists is read. -/
def ReadsFrom (contents : Nat → Option Contents) (faults : Nat → Option ReadFault) : Nat → List UInt16 → Prop :=
  EachFrom fun i n => (contents n.toNat).isSome → faults i = none

/-- No listed variable that exists is read. -/
def ReadsNoneFrom (contents : Nat → Option Contents) (faults : Nat → Option ReadFault) :
    Nat → List UInt16 → Prop :=
  EachFrom fun i n => (contents n.toNat).isSome → faults i ≠ none

theorem readableFrom_sublist (contents : Nat → Option Contents) (faults : Nat → Option ReadFault) (i : Nat)
    (order : List UInt16) :
    (readableFrom contents faults i order).Sublist (order.filter fun n => (contents n.toNat).isSome) := by
  induction order generalizing i with
  | nil => exact List.Sublist.slnil
  | cons n rest ih =>
    rw [readableFrom]
    cases held : contents n.toNat with
    | none =>
      rw [List.filter_cons_of_neg (by rw [held]; exact Bool.false_ne_true)]
      exact ih (i + 1)
    | some old =>
      rw [List.filter_cons_of_pos (by rw [held]; rfl)]
      cases efivarGetRaw (some old) (faults i) with
      | ok _ => exact (ih (i + 1)).cons_cons n
      | error _ => exact (ih (i + 1)).cons n

theorem readableFrom_eq_filter_iff (contents : Nat → Option Contents) (faults : Nat → Option ReadFault) (i : Nat)
    (order : List UInt16) :
    readableFrom contents faults i order = (order.filter fun n => (contents n.toNat).isSome) ↔
      ReadsFrom contents faults i order := by
  induction order generalizing i with
  | nil => exact iff_of_true rfl (eachFrom_nil _ i)
  | cons n rest ih =>
    rw [readableFrom, ReadsFrom, eachFrom_cons, ← ReadsFrom, ← ih (i + 1)]
    cases held : contents n.toNat with
    | none =>
      rw [List.filter_cons_of_neg (by rw [held]; exact Bool.false_ne_true)]
      exact (and_iff_right fun exist => nomatch exist).symm
    | some old =>
      rw [List.filter_cons_of_pos (by rw [held]; rfl)]
      cases fault : faults i with
      | none => exact ⟨fun same => ⟨fun _ => rfl, List.tail_eq_of_cons_eq same⟩, fun both => by rw [both.2]; rfl⟩
      | some fault' =>
        refine iff_of_false (fun same => ?_) fun both => nomatch both.1 rfl
        -- the number is lost, so the list is too short
        have short := (readableFrom_sublist contents faults (i + 1) rest).length_le
        have kept : readableFrom contents faults (i + 1) rest =
            n :: rest.filter fun n => (contents n.toNat).isSome := by
          cases fault' <;> exact same
        rw [kept, List.length_cons] at short
        exact Nat.not_succ_le_self _ short

/-- A write of the list that is left: where it is granted, it stands there. -/
theorem efivarSetOrder_cases (before : Option (List UInt16)) (fault : Option ReadFault) (granted : Bool)
    (kept : List UInt16) :
    ∃ status after, efivarSetOrder before fault granted kept = (status, after) ∧
      (granted = true → after.getD [] = kept) ∧ (granted = false → after = before) := by
  unfold efivarSetOrder
  split
  · rename_i empty
    cases granted with
    | true => exact ⟨_, _, rfl, fun _ => empty.symm, fun impossible => nomatch impossible⟩
    | false => exact ⟨_, _, rfl, fun impossible => (nomatch impossible), fun _ => rfl⟩
  · unfold efivarSetRaw
    split
    · rename_i same
      obtain ⟨rfl, -⟩ := efivarGetRaw_ok.mp same
      exact ⟨_, _, rfl, fun _ => rfl, fun _ => rfl⟩
    · cases granted with
      | true => exact ⟨_, _, rfl, fun _ => rfl, fun impossible => nomatch impossible⟩
      | false => exact ⟨_, _, rfl, fun impossible => (nomatch impossible), fun _ => rfl⟩

theorem readableFrom_eq_nil_iff (contents : Nat → Option Contents) (faults : Nat → Option ReadFault) (i : Nat)
    (order : List UInt16) :
    readableFrom contents faults i order = [] ↔ ReadsNoneFrom contents faults i order := by
  induction order generalizing i with
  | nil => exact iff_of_true rfl (eachFrom_nil _ i)
  | cons n rest ih =>
    rw [readableFrom, ReadsNoneFrom, eachFrom_cons, ← ReadsNoneFrom, ← ih (i + 1)]
    cases held : contents n.toNat with
    | none => exact (and_iff_right fun exist => nomatch exist).symm
    | some old =>
      cases fault : faults i with
      | none => exact iff_of_false (List.cons_ne_nil _ _) fun both => both.1 rfl rfl
      | some fault' =>
        rw [and_iff_right fun _ impossible => nomatch impossible]
        cases fault' <;> exact Iff.rfl

/-- The list is cleaned exactly where there is memory for what is left of it, and before a write that is
granted every listed variable that exists is read. -/
theorem cleaned_iff (contents : Nat → Option Contents) (outcomes : CleanupOutcomes)
    (before : Option (List UInt16)) :
    Cleaned contents before (deleteInvalidBootEntries contents outcomes before) ↔
      ∀ order, efivarGetRaw before outcomes.orderFault = .ok order →
        (outcomes.orderMemory ∨ ReadsNoneFrom contents outcomes.entryFaults 0 order) ∧
          (outcomes.orderSet → ReadsFrom contents outcomes.entryFaults 0 order) := by
  cases read : efivarGetRaw before outcomes.orderFault with
  | error status =>
    rw [deleteInvalidBootEntries, read]
    refine iff_of_true ⟨status, before, rfl, Or.inl rfl⟩ ?_
    intro order impossible
    cases impossible
  | ok order =>
    obtain ⟨rfl, -⟩ := efivarGetRaw_ok.mp read
    rw [forall_eq_ok, deleteInvalidBootEntries, read]
    dsimp only
    rw [← readableFrom_eq_nil_iff, ← readableFrom_eq_filter_iff]
    have part := readableFrom_sublist contents outcomes.entryFaults 0 order
    generalize readableFrom contents outcomes.entryFaults 0 order = kept at part ⊢
    by_cases room : outcomes.orderMemory = true ∨ kept = []
    · have fits : ¬ (!outcomes.orderMemory && !kept.isEmpty) = true := by
        obtain memory | rfl := room
        · rw [memory]
          exact Bool.false_ne_true
        · rw [List.isEmpty_nil, Bool.not_true, Bool.and_false]
          exact Bool.false_ne_true
      rw [if_neg fits, and_iff_right room]
      obtain ⟨status, after, eq, stored, refused⟩ :=
        efivarSetOrder_cases (some order) outcomes.compareFault outcomes.orderSet kept
      rw [eq]
      cases granted : outcomes.orderSet with
      | false =>
        refine iff_of_true ⟨status, after, rfl, Or.inl (refused granted)⟩ fun impossible => ?_
        cases impossible
      | true =>
        have left := stored granted
        constructor
        · rintro ⟨status', after', same, result⟩ -
          cases same
          obtain rfl | cleaned := result
          · have all : order = kept := left
            subst all
            exact part.antisymm List.filter_sublist
          · rw [← left]
            exact cleaned
        · intro cleaned
          exact ⟨status, after, rfl, Or.inr (left.trans (cleaned rfl))⟩
    · have faults : (!outcomes.orderMemory && !kept.isEmpty) = true := by
        rw [not_or, Bool.not_eq_true, ← List.isEmpty_iff, Bool.not_eq_true] at room
        rw [room.1, room.2]
        rfl
      rw [if_pos faults]
      refine iff_of_false ?_ fun both => room both.1
      rintro ⟨status, after, impossible, -⟩
      cases impossible

end Cleanup

/-! ### Both edits -/

theorem orderEdits_iff (before : Option (List UInt16)) :
    (∀ (n : Nat) (outcomes : Outcomes), DefaultSet n before (setBootDefault n outcomes before) ↔
        ∀ order, efivarGetRaw before outcomes.orderFault = .ok order →
          if order.head?.any (·.toNat = n) then n ∉ order.tail.map UInt16.toNat
          else outcomes.orderMemory ∧ (outcomes.orderSet → n < 0x10000)) ∧
      ∀ (contents : Nat → Option Contents) (outcomes : CleanupOutcomes),
        Cleaned contents before (deleteInvalidBootEntries contents outcomes before) ↔
          ∀ order, efivarGetRaw before outcomes.orderFault = .ok order →
            (outcomes.orderMemory ∨ ReadsNoneFrom contents outcomes.entryFaults 0 order) ∧
              (outcomes.orderSet → ReadsFrom contents outcomes.entryFaults 0 order) :=
  ⟨fun n outcomes => defaultSet_iff n outcomes before,
    fun contents outcomes => cleaned_iff contents outcomes before⟩

/-- A number behind the first one goes missing with the read of its variable, and a default that there was no
memory for is reported as set. -/
theorem orderEdits_lose :
    ¬ Cleaned (fun n => if n = 1 ∨ n = 2 then some ⟨[1], by decide⟩ else none) (some [1, 2])
        (deleteInvalidBootEntries (fun n => if n = 1 ∨ n = 2 then some ⟨[1], by decide⟩ else none)
          { orderFault := none, orderMemory := true, entryFaults := fun i => if i = 1 then some .data else none,
            compareFault := none, orderSet := true }
          (some [1, 2])) ∧
      ¬ DefaultSet 2 (some [1])
        (setBootDefault 2
          { bootSet := true, orderFault := none, orderMemory := false, orderSet := true, nextFault := none,
            nextSet := true }
          (some [1])) := by
  constructor
  · rintro ⟨status, after, same, result⟩
    cases same
    obtain unchanged | cleaned := result
    · exact absurd unchanged (by decide)
    · exact absurd cleaned (by decide)
  · rintro (⟨failed, -⟩ | ⟨first, two, same⟩)
    · exact failed rfl
    · have one : (1 : UInt16) = first := (List.cons.inj (Option.some.inj same)).1
      subst one
      exact absurd two (by decide)

end Meridian.Install
