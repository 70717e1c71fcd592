import Meridian.Install.BootOptions

/-!
# Runs that create a boot option

What a run of `CreateNvramEntry` writes, and when the options of the firmware are kept: where the search for
the number ends decides it, whatever the firmware grants.
-/

namespace Meridian.Install

variable {vars : BootVars} {entry : Contents} {n : Nat}

/-! ### One run -/

section Run

variable {α : Type}

theorem getHardwareNvramVariable_error {held : Option α} {fault : Option ReadFault} {status : EfiStatus}
    (failed : getHardwareNvramVariable held fault = .error status) : status ≠ .success := by
  rintro rfl
  unfold getHardwareNvramVariable efivarGetRaw at failed
  cases held with
  | none => cases failed
  | some contents =>
    cases fault with
    | none => cases failed
    | some fault => cases fault <;> cases failed

theorem setVariable_cases (held : Option α) (granted : Bool) (contents : α) :
    setVariable held granted contents = (.success, some contents) ∨
      ∃ status ≠ .success, setVariable held granted contents = (status, held) := by
  cases granted with
  | true => exact Or.inl rfl
  | false => exact Or.inr ⟨.deviceError, by decide, rfl⟩

/-- The write succeeds, or nothing changes. -/
theorem setHardwareNvramVariable_cases [DecidableEq α] (held : Option α) (fault : Option ReadFault)
    (granted : Bool) (contents : α) :
    setHardwareNvramVariable held fault granted contents = (.success, some contents) ∨
      ∃ status ≠ .success, setHardwareNvramVariable held fault granted contents = (status, held) := by
  unfold setHardwareNvramVariable
  split
  · exact setVariable_cases held granted contents
  · rename_i status _ failed
    exact Or.inr ⟨status, getHardwareNvramVariable_error failed, rfl⟩
  · split
    · exact Or.inr ⟨.alreadyStarted, by decide, rfl⟩
    · exact setVariable_cases held granted contents

end Run

/-- The order stays, or the number is put first. -/
theorem setBootDefault_cases (bootNum : Nat) (outcomes : Outcomes) (bootOrder : Option (List UInt16)) :
    (setBootDefault bootNum outcomes bootOrder).2 = bootOrder ∨
      ∃ rest, (setBootDefault bootNum outcomes bootOrder).2 = some (.ofNat bootNum :: rest) := by
  unfold setBootDefault
  split
  · exact Or.inl rfl
  split
  · exact Or.inl rfl
  split
  · exact Or.inl rfl
  unfold efivarSetRaw
  split
  · exact Or.inl rfl
  obtain written | ⟨status, -, kept⟩ := setVariable_cases bootOrder outcomes.orderSet
    (.ofNat bootNum :: _ : List UInt16)
  · rw [written]
    exact Or.inr ⟨_, rfl⟩
  · rw [kept]
    exact Or.inl rfl

theorem writeEntry_cases (boot : BootVars) (n : Nat) (granted : Bool) (entry : Contents) :
    (∃ after, writeEntry boot n (boot.read n = .ok entry) granted entry = (.success, after) ∧
        after.fault = boot.fault ∧ after.contents = Function.update boot.contents n (some entry)) ∨
      ∃ status ≠ .success, ∃ after, writeEntry boot n (boot.read n = .ok entry) granted entry = (status, after) ∧
        after.fault = boot.fault ∧ after.contents = boot.contents := by
  unfold writeEntry
  by_cases equal : boot.read n = .ok entry
  · rw [decide_eq_true equal]
    refine Or.inl ⟨boot, rfl, rfl, ?_⟩
    rw [← BootVars.contents_of_read equal, Function.update_eq_self]
  · rw [decide_eq_false equal, Bool.not_false, if_pos rfl]
    obtain done | ⟨status, failed, kept⟩ :=
      setHardwareNvramVariable_cases (boot.contents n) (boot.fault n) granted entry
    · rw [done]
      exact Or.inl ⟨_, rfl, rfl, rfl⟩
    · rw [kept]
      exact Or.inr ⟨status, failed, _, rfl, rfl, Function.update_eq_self n boot.contents⟩

variable {makeDefault : Bool} {nvram : Nvram}

/-- Nothing changes, or the variable with the number holds the entry and the number is used. -/
theorem createNvramEntry_cases (makeDefault : Bool) (outcomes : Outcomes) (ends : EndsAt nvram.boot entry n)
    (fits : n < 0x10000) :
    ∃ status after, createNvramEntry (.ok entry) makeDefault outcomes nvram = (status, after) ∧
      after.boot.fault = nvram.boot.fault ∧
      ((after.boot.contents = nvram.boot.contents ∧ after.bootOrder = nvram.bootOrder ∧
          after.bootNext = nvram.bootNext) ∨
        (after.boot.contents = Function.update nvram.boot.contents n (some entry) ∧
          (after.bootOrder = nvram.bootOrder ∨ ∃ rest, after.bootOrder = some (.ofNat n :: rest)) ∧
          (after.bootNext = nvram.bootNext ∨ makeDefault = false ∧ after.bootNext = some (efiBootNum n)))) := by
  have number : min n 0xFFFF = n := Nat.min_eq_left (Nat.le_of_lt_succ fits)
  have written := writeEntry_cases nvram.boot n outcomes.bootSet entry
  unfold createNvramEntry
  dsimp only
  rw [ends.findBootNum, number]
  dsimp only
  obtain ⟨boot, eq, fault, contents⟩ | ⟨status, failed, boot, eq, fault, contents⟩ := written
  · rw [eq]
    dsimp only
    rw [if_neg (not_not.mpr rfl)]
    cases makeDefault with
    | true =>
      exact ⟨_, _, rfl, fault, Or.inr ⟨contents, setBootDefault_cases n outcomes nvram.bootOrder, Or.inl rfl⟩⟩
    | false =>
      refine ⟨_, _, rfl, fault, Or.inr ⟨contents, Or.inl rfl, ?_⟩⟩
      obtain next | ⟨status, -, next⟩ :=
        setHardwareNvramVariable_cases nvram.bootNext outcomes.nextFault outcomes.nextSet (efiBootNum n)
      · exact Or.inr ⟨rfl, congrArg Prod.snd next⟩
      · exact Or.inl (congrArg Prod.snd next)
  · rw [eq]
    dsimp only
    rw [if_pos failed]
    exact ⟨_, _, rfl, fault, Or.inl ⟨contents, rfl, rfl⟩⟩

/-! ### The options of the firmware -/

/-- The nvram behind a run for the entry. -/
def afterRun (entry : Contents) (makeDefault : Bool) (nvram : Nvram) (outcomes : Outcomes) : Nvram :=
  (createNvramEntry (.ok entry) makeDefault outcomes nvram).2

/-- What is found holds the entry or is free; no option is overwritten, two runs make no two options the
same, and a number that is put first or next is that of an option with the entry, whatever the firmware
grants and whatever it had in `BootOrder` and in `BootNext`. -/
structure KeepsOptions (vars : BootVars) (entry : Contents) (makeDefault : Bool) : Prop where
  found : vars.contents (findBootNum vars entry).1 = if (findBootNum vars entry).2 then some entry else none
  kept : ∀ outcomes bootOrder bootNext m contents, vars.contents m = some contents →
    (afterRun entry makeDefault ⟨vars, bootOrder, bootNext⟩ outcomes).boot.contents m = some contents
  single : ∀ outcomes outcomes' bootOrder bootNext, ∀ m < 0x10000, ∀ m' < 0x10000, m ≠ m' → ∀ contents,
    let between := afterRun entry makeDefault ⟨vars, bootOrder, bootNext⟩ outcomes
    let after := afterRun entry makeDefault between outcomes'
    after.boot.contents m = some contents → after.boot.contents m' = some contents →
      vars.contents m = some contents ∧ vars.contents m' = some contents
  first : ∀ outcomes bootOrder bootNext,
    let after := afterRun entry makeDefault ⟨vars, bootOrder, bootNext⟩ outcomes
    after.bootOrder = bootOrder ∨
      ∃ number rest, after.bootOrder = some (number :: rest) ∧ after.boot.contents number.toNat = some entry
  next : ∀ outcomes bootOrder bootNext,
    let after := afterRun entry makeDefault ⟨vars, bootOrder, bootNext⟩ outcomes
    after.bootNext = bootNext ∨
      ∃ number, after.bootNext = some number ∧ after.boot.contents number.toNat = some entry

/-- Where the search ends is a boot option that reads as the entry, or a free number while no option holds
the entry; for `BootNext` it has one digit, or its digits lead to an option with the entry. -/
def EndsWell (vars : BootVars) (entry : Contents) (makeDefault : Bool) : Prop :=
  ∃ n < 0x10000, EndsAt vars entry n ∧
    (vars.read n = .ok entry ∨ (vars.contents n = none ∧ ∀ m < 0x10000, vars.contents m ≠ some entry)) ∧
    (makeDefault = false → n < 10 ∨ vars.contents (efiBootNum n).toNat = some entry)

/-- The firmware grants every write. -/
def grantsAll : Outcomes where
  bootSet := true
  orderFault := none
  orderMemory := true
  orderSet := true
  nextFault := none
  nextSet := true

theorem afterRun_cases (makeDefault : Bool) (outcomes : Outcomes) (ends : EndsAt nvram.boot entry n)
    (fits : n < 0x10000) :
    (afterRun entry makeDefault nvram outcomes).boot.fault = nvram.boot.fault ∧
      ((afterRun entry makeDefault nvram outcomes).boot.contents = nvram.boot.contents ∨
        (afterRun entry makeDefault nvram outcomes).boot.contents =
          Function.update nvram.boot.contents n (some entry)) := by
  obtain ⟨status, after, eq, fault, ⟨same, -⟩ | ⟨written, -⟩⟩ :=
    createNvramEntry_cases makeDefault outcomes ends fits
  · rw [afterRun, eq]
    exact ⟨fault, Or.inl same⟩
  · rw [afterRun, eq]
    exact ⟨fault, Or.inr written⟩

theorem read_congr {vars vars' : BootVars} (fault : vars'.fault = vars.fault)
    (same : vars'.contents n = vars.contents n) : vars'.read n = vars.read n := by
  rw [BootVars.read, BootVars.read, fault, same]

/-- Writing the entry to the free number where the search ended does not move the end. -/
theorem EndsAt.written {vars' : BootVars} (ends : EndsAt vars entry n) (fault : vars'.fault = vars.fault)
    (contents : vars'.contents = Function.update vars.contents n (some entry)) : EndsAt vars' entry n := by
  have apart {m : Nat} (differs : m ≠ n) : vars'.read m = vars.read m :=
    read_congr fault (by rw [contents, Function.update_of_ne differs])
  have here : vars'.read n = efivarGetRaw (some entry) (vars.fault n) := by
    rw [BootVars.read, contents, fault, Function.update_self]
  have stays : vars'.read n = .ok entry ∨ ∃ status, vars'.read n = .error status := by
    rw [here]
    cases vars.fault n with
    | none => exact Or.inl rfl
    | some fault => cases fault <;> exact Or.inr ⟨_, rfl⟩
  have stops : ¬ Other vars' entry n := by
    obtain equal | ⟨status, failed⟩ := stays
    · exact not_other_of_read equal
    · rintro ⟨old, read, -⟩
      rw [failed] at read
      cases read
  obtain ⟨tried, equal, first⟩ | ⟨nowhere, before, -⟩ := ends
  · refine Or.inl ⟨tried, ?_, fun m less tried' => ?_⟩
    · have held : vars.contents n = some entry := BootVars.contents_of_read equal
      rw [read_congr fault (by rw [contents, Function.update_self, held]), equal]
    · rw [apart (Nat.ne_of_lt less)]
      exact first m less tried'
  · by_cases early : Tried n ∧ vars'.read n = .ok entry
    · refine Or.inl ⟨early.1, early.2, fun m less tried' => ?_⟩
      rw [apart (Nat.ne_of_lt less)]
      exact nowhere m tried'
    · refine Or.inr ⟨fun m tried' equal => ?_, fun m less => ?_, stops⟩
      · by_cases same : m = n
        · exact early ⟨same ▸ tried', same ▸ equal⟩
        · rw [apart same] at equal
          exact nowhere m tried' equal
      · obtain ⟨old, read, differs⟩ := before m less
        exact ⟨old, (apart (Nat.ne_of_lt less)).trans read, differs⟩

/-- A second run behind one that wrote the entry leaves it at that. -/
theorem afterRun_again (makeDefault : Bool) {outcomes : Outcomes} (outcomes' : Outcomes)
    (ends : EndsAt nvram.boot entry n) (fits : n < 0x10000)
    (written : (afterRun entry makeDefault nvram outcomes).boot.contents =
      Function.update nvram.boot.contents n (some entry)) :
    (afterRun entry makeDefault (afterRun entry makeDefault nvram outcomes) outcomes').boot.contents =
      Function.update nvram.boot.contents n (some entry) := by
  obtain ⟨fault, -⟩ := afterRun_cases makeDefault outcomes ends fits
  obtain ⟨-, again⟩ := afterRun_cases makeDefault outcomes' (ends.written fault written) fits
  rw [written, Function.update_idem] at again
  exact again.elim id id

/-- Two runs write no other number either. -/
theorem afterRun_twice (makeDefault : Bool) (outcomes outcomes' : Outcomes) (ends : EndsAt nvram.boot entry n)
    (fits : n < 0x10000) :
    let after := afterRun entry makeDefault (afterRun entry makeDefault nvram outcomes) outcomes'
    after.boot.contents = nvram.boot.contents ∨
      after.boot.contents = Function.update nvram.boot.contents n (some entry) := by
  obtain ⟨fault, same | written⟩ := afterRun_cases makeDefault outcomes ends fits
  · have ends' : EndsAt (afterRun entry makeDefault nvram outcomes).boot entry n := by
      have reads : (afterRun entry makeDefault nvram outcomes).boot.read = nvram.boot.read :=
        funext fun m => read_congr fault (congrFun same m)
      unfold EndsAt Other at ends ⊢
      rwa [reads]
    obtain ⟨-, again⟩ := afterRun_cases makeDefault outcomes' ends' fits
    rwa [same] at again
  · exact Or.inr (afterRun_again makeDefault outcomes' ends fits written)

/-- With every write granted the entry is written, and its digits go into `BootNext`. -/
theorem afterRun_granted (makeDefault : Bool) (ends : EndsAt nvram.boot entry n) (fits : n < 0x10000)
    (usable : nvram.boot.read n = .ok entry ∨ nvram.boot.contents n = none) (noNext : nvram.bootNext = none) :
    (afterRun entry makeDefault nvram grantsAll).boot.contents =
        Function.update nvram.boot.contents n (some entry) ∧
      (makeDefault = false → (afterRun entry makeDefault nvram grantsAll).bootNext = some (efiBootNum n)) := by
  have number : min n 0xFFFF = n := Nat.min_eq_left (Nat.le_of_lt_succ fits)
  have write : ∃ boot,
      writeEntry nvram.boot n (nvram.boot.read n = .ok entry) grantsAll.bootSet entry = (.success, boot) ∧
      boot.contents = Function.update nvram.boot.contents n (some entry) := by
    unfold writeEntry
    by_cases equal : nvram.boot.read n = .ok entry
    · rw [decide_eq_true equal]
      refine ⟨_, rfl, ?_⟩
      rw [← BootVars.contents_of_read equal, Function.update_eq_self]
    · rw [decide_eq_false equal, usable.resolve_left equal]
      exact ⟨_, rfl, rfl⟩
  obtain ⟨boot, eq, contents⟩ := write
  unfold afterRun createNvramEntry
  dsimp only
  rw [ends.findBootNum, number]
  dsimp only
  rw [eq]
  dsimp only
  rw [if_neg (not_not.mpr rfl)]
  cases makeDefault with
  | true => exact ⟨contents, nofun⟩
  | false => exact ⟨contents, fun _ => by rw [noNext]; rfl⟩

/-- The end of the search, where the options are kept. -/
theorem KeepsOptions.endsWell (keeps : KeepsOptions vars entry makeDefault) : EndsWell vars entry makeDefault := by
  obtain ⟨n, ends, eq⟩ := findBootNum_stops vars entry
  have found := keeps.found
  rw [eq] at found
  dsimp only at found
  have fits : n < 0x10000 := by
    by_contra beyond
    have last : min n 0xFFFF = 0xFFFF := by omega
    obtain ⟨tried, -, -⟩ | ⟨-, before, -⟩ := ends
    · have := tried.2
      omega
    obtain ⟨other, read, differs⟩ := before 0xFFFF (by omega)
    rw [last, BootVars.contents_of_read read] at found
    split at found
    · exact differs (Option.some.inj found)
    · cases found
  have number : min n 0xFFFF = n := by omega
  rw [number] at found
  have usable : vars.read n = .ok entry ∨ vars.contents n = none := by
    by_cases equal : vars.read n = .ok entry
    · exact Or.inl equal
    · rw [decide_eq_false equal] at found
      exact Or.inr found
  obtain ⟨contents, bootNext⟩ := @afterRun_granted entry n ⟨vars, none, none⟩ makeDefault ends fits usable rfl
  have held : (afterRun entry makeDefault ⟨vars, none, none⟩ grantsAll).boot.contents n = some entry := by
    rw [contents, Function.update_self]
  -- no other option holds the entry, or the first run has made a second one
  have alone : vars.contents n = none → ∀ m < 0x10000, vars.contents m ≠ some entry := by
    intro free m small same
    have apart : m ≠ n := by
      rintro rfl
      rw [free] at same
      cases same
    have twice := afterRun_again makeDefault grantsAll ends fits contents
    have pair := keeps.single grantsAll grantsAll none none n fits m small apart.symm entry
      (by rw [twice, Function.update_self]) (by rw [twice, Function.update_of_ne apart, same])
    rw [free] at pair
    cases pair.1
  refine ⟨n, fits, ends, usable.imp_right fun free => ⟨free, alone free⟩, fun nextOnly => ?_⟩
  obtain unchanged | ⟨number, put, holds⟩ := keeps.next grantsAll none none
  · rw [bootNext nextOnly] at unchanged
    cases unchanged
  · rw [bootNext nextOnly] at put
    obtain rfl := Option.some.inj put
    rw [contents] at holds
    by_cases same : (efiBootNum n).toNat = n
    · exact Or.inl ((efiBootNum_eq_iff fits).mp same)
    · rw [Function.update_of_ne same] at holds
      exact Or.inr holds

theorem EndsWell.keepsOptions (well : EndsWell vars entry makeDefault) : KeepsOptions vars entry makeDefault := by
  obtain ⟨n, fits, ends, usable, nextOnly⟩ := well
  have number : min n 0xFFFF = n := Nat.min_eq_left (Nat.le_of_lt_succ fits)
  -- an option with contents keeps them when the entry is written
  have kept : ∀ m contents, vars.contents m = some contents →
      Function.update vars.contents n (some entry) m = some contents := by
    intro m contents held
    by_cases same : m = n
    · subst same
      obtain equal | ⟨free, -⟩ := usable
      · rw [Function.update_self, ← held, BootVars.contents_of_read equal]
      · rw [free] at held
        cases held
    · rw [Function.update_of_ne same, held]
  refine ⟨?_, fun outcomes bootOrder bootNext m contents held => ?_,
    fun outcomes outcomes' bootOrder bootNext m small m' small' apart contents => ?_,
    fun outcomes bootOrder bootNext => ?_, fun outcomes bootOrder bootNext => ?_⟩
  · rw [ends.findBootNum, number]
    dsimp only
    by_cases equal : vars.read n = .ok entry
    · rw [decide_eq_true equal, if_pos rfl, BootVars.contents_of_read equal]
    · rw [decide_eq_false equal, if_neg Bool.false_ne_true]
      exact (usable.resolve_left equal).1
  · obtain ⟨-, same | written⟩ :=
      @afterRun_cases entry n ⟨vars, bootOrder, bootNext⟩ makeDefault outcomes ends fits
    · rw [same]
      exact held
    · rw [written]
      exact kept m contents held
  · intro between after here there
    obtain same | written :=
      @afterRun_twice entry n ⟨vars, bootOrder, bootNext⟩ makeDefault outcomes outcomes' ends fits
    · rw [same] at here there
      exact ⟨here, there⟩
    · rw [written] at here there
      obtain equal | ⟨free, alone⟩ := usable
      · rw [← BootVars.contents_of_read equal, Function.update_eq_self] at here there
        exact ⟨here, there⟩
      · by_cases same : m = n
        · subst same
          rw [Function.update_self] at here
          rw [Function.update_of_ne apart.symm, ← here] at there
          exact absurd there (alone m' small')
        · rw [Function.update_of_ne same] at here
          by_cases same' : m' = n
          · subst same'
            rw [Function.update_self] at there
            rw [← there] at here
            exact absurd here (alone m small)
          · rw [Function.update_of_ne same'] at there
            exact ⟨here, there⟩
  · obtain ⟨status, after, eq, -, ⟨-, order, -⟩ | ⟨written, order, -⟩⟩ :=
      @createNvramEntry_cases entry n ⟨vars, bootOrder, bootNext⟩ makeDefault outcomes ends fits
    · rw [afterRun, eq]
      exact Or.inl order
    · rw [afterRun, eq]
      refine order.imp_right fun ⟨rest, put⟩ => ⟨.ofNat n, rest, put, ?_⟩
      rw [written, UInt16.toNat_ofNat_of_lt' fits, Function.update_self]
  · obtain ⟨status, after, eq, -, ⟨-, -, next⟩ | ⟨written, -, next⟩⟩ :=
      @createNvramEntry_cases entry n ⟨vars, bootOrder, bootNext⟩ makeDefault outcomes ends fits
    · rw [afterRun, eq]
      exact Or.inl next
    · rw [afterRun, eq]
      refine next.imp_right fun ⟨notDefault, put⟩ => ⟨efiBootNum n, put, ?_⟩
      rw [written]
      obtain small | holds := nextOnly notDefault
      · rw [(efiBootNum_eq_iff fits).mpr small, Function.update_self]
      · exact kept _ _ holds

/-- The options are kept exactly where the search ends well. -/
theorem createNvramEntry_iff (vars : BootVars) (entry : Contents) (makeDefault : Bool) :
    KeepsOptions vars entry makeDefault ↔ EndsWell vars entry makeDefault :=
  ⟨KeepsOptions.endsWell, EndsWell.keepsOptions⟩

/-- Only `Boot0001` is there, and it holds the entry. -/
def secondOnly (entry : Contents) : BootVars where
  contents n := if n = 1 then some entry else none
  fault _ := none
  size := 2
  absent n beyond := if_neg (by omega)

def oneByte : Contents := ⟨[1], by decide⟩

theorem endsAt_secondOnly (entry : Contents) : EndsAt (secondOnly entry) entry 0 := by
  have read {m : Nat} (other : m ≠ 1) : (secondOnly entry).read m = .error .notFound := by
    unfold BootVars.read secondOnly
    dsimp only
    rw [if_neg other]
    rfl
  refine Or.inr ⟨fun m tried equal => ?_, fun m less => absurd less (Nat.not_lt_zero m), ?_⟩
  · have low := tried.1
    rw [read (by omega)] at equal
    cases equal
  · rintro ⟨contents, equal, -⟩
    rw [read (by decide)] at equal
    cases equal

/-- A second option with the entry is made in front of it. -/
theorem createNvramEntry_gap : ¬ KeepsOptions (secondOnly oneByte) oneByte true := by
  intro keeps
  have ends := endsAt_secondOnly oneByte
  obtain ⟨contents, -⟩ := @afterRun_granted oneByte 0 ⟨secondOnly oneByte, none, none⟩ true ends (by decide)
    (Or.inr rfl) rfl
  have twice := afterRun_again true grantsAll ends (by decide) contents
  have pair := keeps.single grantsAll grantsAll none none 0 (by decide) 1 (by decide) (by decide) oneByte
    (by rw [twice]; rfl) (by rw [twice]; rfl)
  cases pair.1

end Meridian.Install
