import Meridian.Limine.Elf
import Meridian.Lib.Writes

/-!
# What the relocations do to the image

The records of the table, as they are before the loader touches it, are applied one after another up to
the first that is not relative. The loader checks neither where a record's target is nor how far the
entry size takes it, so all of this holds of a table that the walk leaves as it was and that it does not
walk around (`applyRelocations_iff`).
-/

namespace Meridian.Limine

open Lib.Word Lib.Memory

/-! ### The table -/

/-- The records of the table: those that end within its size. -/
def RelaTable.count (table : RelaTable) : Nat :=
  if table.virt = 0 ∨ table.size = 0 ∨ table.ent = 0 then 0 else table.size / table.ent

/-- The address of the record at an offset into the table. -/
def relaAt (st : ElfState) (table : RelaTable) (j : Nat) : Nat := u64 (st.imageAddr table.virt + j)

/-- `ELF64_R_TYPE(Rela->r_info) == R_X86_64_RELATIVE`. -/
def isRelative (st : ElfState) (table : RelaTable) (j : Nat) : Bool :=
  readLe st.mem (relaAt st table j + 8) 8 &&& 0xffffffff == rX8664Relative

/-- What applying the record writes: the slide plus its addend, at its offset in the image. -/
def relocation (st : ElfState) (table : RelaTable) (j : Nat) : Write where
  dst := st.imageAddr (readLe st.mem (relaAt st table j) 8)
  value := u64 (readLe st.mem (relaAt st table j + 16) 8 + st.ctx.slide)

/-- The records before the first that is not relative. -/
def relativeCount (st : ElfState) (table : RelaTable) : Nat :=
  (List.range table.count).findIdx fun k => !isRelative st table (k * table.ent)

/-- The writes of the first `k` records. -/
def relocations (st : ElfState) (table : RelaTable) (k : Nat) : List Write :=
  (List.range k).map fun i => relocation st table (i * table.ent)

/-- The addresses that `relocate` writes to. -/
def relocateTargets (table : RelaTable) : Nat → Nat → ElfState → List Nat
  | 0, _, _ => []
  | fuel + 1, j, st =>
    if u64 (j + table.ent) ≤ table.size then
      let rela := u64 (st.imageAddr table.virt + j)
      let rOffset := readLe st.mem rela 8
      let rInfo := readLe st.mem (rela + 8) 8
      let rAddend := readLe st.mem (rela + 16) 8
      if rInfo &&& 0xffffffff ≠ rX8664Relative then []
      else
        st.imageAddr rOffset :: relocateTargets table fuel (u64 (j + table.ent))
          { st with mem := writeLe st.mem (st.imageAddr rOffset) 8 (u64 (rAddend + st.ctx.slide)) }
    else []

/-- The addresses that `applyRelocations` writes to. -/
def applyTargets (fuel phdrs : Nat) (st : ElfState) : List Nat :=
  let (st, table) := findRela phdrs maxPhnum 0 {} st
  if table.virt = 0 ∨ table.size = 0 ∨ table.ent = 0 then [] else relocateTargets table fuel 0 st

/-- The table that the dynamic sections of the image describe. -/
def ElfState.relaTable (st : ElfState) (phdrs : Nat) : RelaTable := (findRela phdrs maxPhnum 0 {} st).2

/-- The relocations end, write in the image only, and on success every record has been applied: its
eight bytes are in memory and the other bytes of the image are as they were. -/
structure RelocationsOk (phdrs : Nat) (st : ElfState) : Prop where
  ends : ∃ steps, ∀ fuel ≥ steps, (applyRelocations fuel phdrs st).2 ≠ .unfinished
  inside : ∀ fuel, ∀ dst ∈ applyTargets fuel phdrs st, Inside dst 8 st.ctx.imagePhys st.ctx.imageSize
  applied : ∀ fuel, (applyRelocations fuel phdrs st).2 = .success →
    (∀ w ∈ relocations st (st.relaTable phdrs) (st.relaTable phdrs).count,
      w.Holds 8 (applyRelocations fuel phdrs st).1.mem) ∧
    ∀ a, st.ctx.imagePhys ≤ a → a < st.ctx.imagePhys + st.ctx.imageSize →
      (∀ w ∈ relocations st (st.relaTable phdrs) (st.relaTable phdrs).count, ¬ w.Covers 8 a) →
      (applyRelocations fuel phdrs st).1.mem a = st.mem a

/-! ### The condition -/

/-- If all records are relative, the offset behind the last one does not wrap. -/
def WalkStops (st : ElfState) (table : RelaTable) : Prop :=
  relativeCount st table = table.count → table.count * table.ent + table.ent < 2 ^ 64

/-- No record that is applied changes one that is read later. -/
def TableKept (st : ElfState) (table : RelaTable) : Prop :=
  ∀ k < table.count, k ≤ relativeCount st table → ∀ i < k, ∀ y < 24,
    ¬ (relocation st table (i * table.ent)).Covers 8 (u64 (relaAt st table (k * table.ent) + y))

/-- The records that are applied have their targets in the image, and if all are applied those that
meet agree. -/
def TargetsOk (st : ElfState) (table : RelaTable) : Prop :=
  (∀ w ∈ relocations st table (relativeCount st table),
    Inside w.dst 8 st.ctx.imagePhys st.ctx.imageSize) ∧
  (relativeCount st table = table.count → WritesAgree 8 (relocations st table table.count))

/-! ### The walk -/

variable {st : ElfState} {table : RelaTable} {k : Nat}

theorem relativeCount_le (st : ElfState) (table : RelaTable) : relativeCount st table ≤ table.count := by
  have atMost := @List.findIdx_le_length _ (fun k => !isRelative st table (k * table.ent))
    (List.range table.count)
  rwa [List.length_range] at atMost

theorem relative_of_lt (h : k < relativeCount st table) : isRelative st table (k * table.ent) = true := by
  have passed := List.not_of_lt_findIdx h
  rw [List.getElem_range] at passed
  simpa using passed

theorem not_relative (h : relativeCount st table < table.count) :
    isRelative st table (relativeCount st table * table.ent) = false := by
  have found := @List.findIdx_getElem _ (fun k => !isRelative st table (k * table.ent))
    (List.range table.count) (by rw [List.length_range]; exact h)
  rw [List.getElem_range] at found
  simpa [relativeCount] using found

/-- The state after the first `k` records. -/
def walked (st : ElfState) (table : RelaTable) (k : Nat) : ElfState :=
  { st with mem := writeAll 8 st.mem (relocations st table k) }

theorem relocations_succ (st : ElfState) (table : RelaTable) (k : Nat) :
    relocations st table (k + 1) = relocations st table k ++ [relocation st table (k * table.ent)] := by
  rw [relocations, List.range_succ, List.map_append]
  rfl

theorem walked_succ (st : ElfState) (table : RelaTable) (k : Nat) :
    walked st table (k + 1) =
      { st with
        mem := writeLe (walked st table k).mem (relocation st table (k * table.ent)).dst 8
          (relocation st table (k * table.ent)).value } := by
  rw [walked, relocations_succ, writeAll_concat]
  rfl

/-- A record that is still to be read is as it was. -/
theorem walked_read (kept : TableKept st table) (below : k < table.count) (relative : k ≤ relativeCount st table)
    {o : Nat} (within : o + 8 ≤ 24) :
    readLe (walked st table k).mem (relaAt st table (k * table.ent) + o) 8 =
      readLe st.mem (relaAt st table (k * table.ent) + o) 8 := by
  apply readLe_congr
  intro i lt
  rw [Nat.add_assoc]
  apply writeAll_other
  intro w mem
  obtain ⟨j, inRange, eq⟩ := List.mem_map.mp mem
  rw [← eq]
  exact kept k below relative j (List.mem_range.mp inRange) (o + i) (by omega)

theorem walked_relocation (kept : TableKept st table) (below : k < table.count)
    (relative : k ≤ relativeCount st table) :
    relocation (walked st table k) table (k * table.ent) = relocation st table (k * table.ent) := by
  have offset := walked_read kept below relative (o := 0) (by decide)
  have addend := walked_read kept below relative (o := 16) (by decide)
  rw [Nat.add_zero] at offset
  have dst : (relocation (walked st table k) table (k * table.ent)).dst =
      (relocation st table (k * table.ent)).dst := congrArg st.imageAddr offset
  have value : (relocation (walked st table k) table (k * table.ent)).value =
      (relocation st table (k * table.ent)).value := congrArg (fun addend => u64 (addend + st.ctx.slide)) addend
  exact Write.ext dst value

theorem walked_isRelative (kept : TableKept st table) (below : k < table.count)
    (relative : k ≤ relativeCount st table) :
    isRelative (walked st table k) table (k * table.ent) = isRelative st table (k * table.ent) := by
  have info := walked_read kept below relative (o := 8) (by decide)
  exact congrArg (fun info => info &&& 0xffffffff == rX8664Relative) info

/-- One step of the loop, on a record and behind the last one. -/
theorem relocate_step {fuel j : Nat} (more : u64 (j + table.ent) ≤ table.size)
    (relative : isRelative st table j = true) :
    relocate table (fuel + 1) j st =
      relocate table fuel (u64 (j + table.ent))
        { st with mem := writeLe st.mem (relocation st table j).dst 8 (relocation st table j).value } := by
  have info : ¬ (readLe st.mem (u64 (st.imageAddr table.virt + j) + 8) 8 &&& 0xffffffff ≠ rX8664Relative) :=
    not_not.mpr (eq_of_beq relative)
  rw [relocate, if_pos more]
  dsimp only
  rw [if_neg info]
  rfl

theorem relocate_other {fuel j : Nat} (more : u64 (j + table.ent) ≤ table.size)
    (other : isRelative st table j = false) :
    relocate table (fuel + 1) j st = (st, .failed .unsupported) := by
  have info : readLe st.mem (u64 (st.imageAddr table.virt + j) + 8) 8 &&& 0xffffffff ≠ rX8664Relative :=
    fun same => Bool.false_ne_true (other.symm.trans (beq_iff_eq.mpr same))
  rw [relocate, if_pos more]
  dsimp only
  rw [if_pos info]

theorem relocate_done {fuel j : Nat} (done : ¬ u64 (j + table.ent) ≤ table.size) :
    relocate table (fuel + 1) j st = (st, .success) := by
  rw [relocate, if_neg done]

theorem relocateTargets_step {fuel j : Nat} (more : u64 (j + table.ent) ≤ table.size)
    (relative : isRelative st table j = true) :
    relocateTargets table (fuel + 1) j st =
      (relocation st table j).dst :: relocateTargets table fuel (u64 (j + table.ent))
        { st with mem := writeLe st.mem (relocation st table j).dst 8 (relocation st table j).value } := by
  have info : ¬ (readLe st.mem (u64 (st.imageAddr table.virt + j) + 8) 8 &&& 0xffffffff ≠ rX8664Relative) :=
    not_not.mpr (eq_of_beq relative)
  rw [relocateTargets, if_pos more]
  dsimp only
  rw [if_neg info]
  rfl

theorem relocateTargets_other {fuel j : Nat} (more : u64 (j + table.ent) ≤ table.size)
    (other : isRelative st table j = false) : relocateTargets table (fuel + 1) j st = [] := by
  have info : readLe st.mem (u64 (st.imageAddr table.virt + j) + 8) 8 &&& 0xffffffff ≠ rX8664Relative :=
    fun same => Bool.false_ne_true (other.symm.trans (beq_iff_eq.mpr same))
  rw [relocateTargets, if_pos more]
  dsimp only
  rw [if_pos info]

/-- A table with records or without, whose size is a word. -/
structure RelaTable.Walks (table : RelaTable) : Prop where
  some : ¬ (table.virt = 0 ∨ table.size = 0 ∨ table.ent = 0)
  word : table.size < 2 ^ 64

theorem RelaTable.Walks.count_eq (walks : table.Walks) : table.count = table.size / table.ent :=
  if_neg walks.some

theorem RelaTable.Walks.ent_pos (walks : table.Walks) : 0 < table.ent :=
  Nat.pos_of_ne_zero fun zero => walks.some (Or.inr (Or.inr zero))

/-- The next record is reached. -/
theorem RelaTable.Walks.more (walks : table.Walks) (below : k < table.count) :
    u64 (k * table.ent + table.ent) = (k + 1) * table.ent ∧ (k + 1) * table.ent ≤ table.size := by
  rw [walks.count_eq] at below
  have within : (k + 1) * table.ent ≤ table.size :=
    (Nat.mul_le_mul_right _ below).trans (Nat.div_mul_le_self _ _)
  have word := walks.word
  have sum : k * table.ent + table.ent = (k + 1) * table.ent := (Nat.succ_mul _ _).symm
  exact ⟨by rw [sum, u64_of_lt (by omega)], within⟩

/-- The walk stops behind the last record. -/
theorem RelaTable.Walks.done (walks : table.Walks) (fits : table.count * table.ent + table.ent < 2 ^ 64) :
    ¬ u64 (table.count * table.ent + table.ent) ≤ table.size := by
  rw [u64_of_lt fits, walks.count_eq]
  exact Nat.not_le.mpr (Nat.lt_div_mul_add walks.ent_pos)

/-- How the walk ends. -/
def walkEnding (st : ElfState) (table : RelaTable) : Ending :=
  if relativeCount st table = table.count then .success else .failed .unsupported

theorem relocate_walk (walks : table.Walks) (kept : TableKept st table) (stops : WalkStops st table)
    {rest fuel : Nat} (here : k + rest = relativeCount st table) (enough : rest < fuel) :
    relocate table fuel (k * table.ent) (walked st table k) =
      (walked st table (relativeCount st table), walkEnding st table) := by
  have atMost := relativeCount_le st table
  induction rest generalizing k fuel with
  | zero =>
    obtain ⟨fuel, rfl⟩ := Nat.exists_eq_succ_of_ne_zero (Nat.ne_of_gt enough)
    rw [Nat.add_zero] at here
    unfold walkEnding
    by_cases all : relativeCount st table = table.count
    · rw [if_pos all, here, all]
      exact relocate_done (walks.done (stops all))
    · have below : relativeCount st table < table.count := Nat.lt_of_le_of_ne atMost all
      obtain ⟨next, more⟩ := walks.more below
      rw [if_neg all, here]
      refine relocate_other (by rw [next]; exact more) ?_
      rw [walked_isRelative kept below (Nat.le_refl _)]
      exact not_relative below
  | succ rest ih =>
    obtain ⟨fuel, rfl⟩ := Nat.exists_eq_succ_of_ne_zero (Nat.ne_of_gt (Nat.zero_lt_of_lt enough))
    have relative : k < relativeCount st table := by omega
    have below : k < table.count := relative.trans_le atMost
    obtain ⟨next, more⟩ := walks.more below
    have reads := walked_relocation kept below relative.le
    have type := walked_isRelative kept below relative.le
    rw [relocate_step (by rw [next]; exact more) (type.trans (relative_of_lt relative)), reads, next]
    have step := walked_succ st table k
    have later := @ih (k + 1) fuel (by omega) (by omega)
    rw [step] at later
    exact later

theorem relocateTargets_walk (walks : table.Walks) (kept : TableKept st table) (stops : WalkStops st table)
    {fuel : Nat} (here : k ≤ relativeCount st table) :
    relocateTargets table fuel (k * table.ent) (walked st table k) =
      (((relocations st table (relativeCount st table)).drop k).take fuel).map Write.dst := by
  have atMost := relativeCount_le st table
  have length : (relocations st table (relativeCount st table)).length = relativeCount st table := by
    rw [relocations, List.length_map, List.length_range]
  induction fuel generalizing k with
  | zero => rfl
  | succ fuel ih =>
    rcases Nat.lt_or_eq_of_le here with relative | last
    · have below : k < table.count := relative.trans_le atMost
      obtain ⟨next, more⟩ := walks.more below
      have reads := walked_relocation kept below relative.le
      have type := walked_isRelative kept below relative.le
      have step := walked_succ st table k
      have later := ih (k := k + 1) relative
      rw [step] at later
      have inList : k < (relocations st table (relativeCount st table)).length := by
        rw [length]
        exact relative
      have first : (relocations st table (relativeCount st table))[k] =
          relocation st table (k * table.ent) := by
        simp only [relocations, List.getElem_map, List.getElem_range]
      rw [relocateTargets_step (by rw [next]; exact more) (type.trans (relative_of_lt relative)), reads, next,
        List.drop_eq_getElem_cons inList, List.take_succ_cons, List.map_cons, first]
      exact congrArg _ later
    · have nothing : (relocations st table (relativeCount st table)).drop k = [] := by
        apply List.drop_eq_nil_of_le
        rw [length, last]
      rw [nothing, List.take_nil, List.map_nil, last]
      by_cases all : relativeCount st table = table.count
      · rw [all, relocateTargets, if_neg (walks.done (stops all))]
      · have below : relativeCount st table < table.count := Nat.lt_of_le_of_ne atMost all
        obtain ⟨next, more⟩ := walks.more below
        refine relocateTargets_other (by rw [next]; exact more) ?_
        rw [walked_isRelative kept below (Nat.le_refl _)]
        exact not_relative below

/-- More steps change nothing about a run that ended. -/
theorem relocate_fuel {fuel j : Nat} (more : Nat) (ended : (relocate table fuel j st).2 ≠ .unfinished) :
    relocate table (fuel + more) j st = relocate table fuel j st := by
  induction fuel generalizing j st with
  | zero => exact absurd rfl ended
  | succ fuel ih =>
    rw [Nat.add_right_comm]
    by_cases further : u64 (j + table.ent) ≤ table.size
    · cases type : isRelative st table j with
      | true =>
        rw [relocate_step further type] at ended ⊢
        rw [relocate_step further type]
        exact ih ended
      | false => rw [relocate_other further type, relocate_other further type]
    · rw [relocate_done further, relocate_done further]

/-! ### The search for the table -/

theorem findRela_mem (phdrs left i : Nat) (table : RelaTable) (st : ElfState) :
    ∃ accesses, (findRela phdrs left i table st).1 = { st with accesses := accesses } := by
  induction left generalizing i table st with
  | zero => exact ⟨st.accesses, rfl⟩
  | succ left ih =>
    unfold findRela
    split
    · dsimp only
      split
      · obtain ⟨accesses, eq⟩ := ih (i + 1) table (st.record [.header (phdrAddr phdrs i)])
        exact ⟨accesses, eq⟩
      · obtain ⟨accesses, eq⟩ := ih (i + 1) _ (st.record [.header (phdrAddr phdrs i)])
        exact ⟨accesses, eq⟩
    · exact ⟨st.accesses, rfl⟩

theorem scanDynamic_size (mem : Bytes) (dyn left j : Nat) {table : RelaTable} (word : table.size < 2 ^ 64) :
    (scanDynamic mem dyn left j table).size < 2 ^ 64 := by
  induction left generalizing j table with
  | zero => exact word
  | succ left ih =>
    have value := readLe_lt mem (dyn + 16 * j + 8) 8
    unfold scanDynamic
    dsimp only
    split
    · exact word
    · apply ih
      split
      · exact word
      · split
        · exact value
        · split
          · exact word
          · exact word

theorem findRela_size (phdrs left i : Nat) {table : RelaTable} (st : ElfState) (word : table.size < 2 ^ 64) :
    (findRela phdrs left i table st).2.size < 2 ^ 64 := by
  induction left generalizing i table st with
  | zero => exact word
  | succ left ih =>
    unfold findRela
    split
    · dsimp only
      split
      · exact ih _ _ word
      · exact ih _ _ (scanDynamic_size _ _ _ _ word)
    · exact word

theorem relaTable_size (st : ElfState) (phdrs : Nat) : (st.relaTable phdrs).size < 2 ^ 64 :=
  findRela_size phdrs maxPhnum 0 st (by decide)

theorem applyRelocations_eq (phdrs : Nat) (st : ElfState) :
    ∃ accesses, ∀ fuel,
      applyRelocations fuel phdrs st =
        (if (st.relaTable phdrs).virt = 0 ∨ (st.relaTable phdrs).size = 0 ∨ (st.relaTable phdrs).ent = 0 then
          ({ st with accesses := accesses }, .success)
        else relocate (st.relaTable phdrs) fuel 0 { st with accesses := accesses }) ∧
      applyTargets fuel phdrs st =
        if (st.relaTable phdrs).virt = 0 ∨ (st.relaTable phdrs).size = 0 ∨ (st.relaTable phdrs).ent = 0 then []
        else relocateTargets (st.relaTable phdrs) fuel 0 { st with accesses := accesses } := by
  obtain ⟨accesses, eq⟩ := findRela_mem phdrs maxPhnum 0 {} st
  refine ⟨accesses, fun fuel => ?_⟩
  rw [applyRelocations, applyTargets, ElfState.relaTable]
  generalize findRela phdrs maxPhnum 0 {} st = found at eq ⊢
  obtain ⟨after, table⟩ := found
  rw [show after = { st with accesses := accesses } from eq]
  exact ⟨rfl, rfl⟩

/-! ### The result -/

variable {phdrs : Nat}

theorem walked_zero (st : ElfState) (table : RelaTable) : walked st table 0 = st := rfl

/-- Without a table nothing happens. -/
theorem RelocationsOk.of_none
    (none : (st.relaTable phdrs).virt = 0 ∨ (st.relaTable phdrs).size = 0 ∨ (st.relaTable phdrs).ent = 0) :
    RelocationsOk phdrs st := by
  obtain ⟨accesses, eq⟩ := applyRelocations_eq phdrs st
  have empty : (st.relaTable phdrs).count = 0 := if_pos none
  have result (fuel : Nat) : applyRelocations fuel phdrs st = ({ st with accesses := accesses }, .success) := by
    rw [(eq fuel).1, if_pos none]
  refine ⟨⟨0, fun fuel _ unfinished => ?_⟩, fun fuel dst mem => ?_, fun fuel _ => ⟨?_, ?_⟩⟩
  · rw [result] at unfinished
    cases unfinished
  · rw [(eq fuel).2, if_pos none] at mem
    exact (List.not_mem_nil mem).elim
  · rw [empty]
    exact fun _ mem => (List.not_mem_nil mem).elim
  · intro a _ _ _
    rw [result]

/-- With a table the run is the walk. -/
structure Walk (phdrs : Nat) (st : ElfState) : Prop where
  result : ∀ fuel > relativeCount st (st.relaTable phdrs),
    (applyRelocations fuel phdrs st).1.mem =
        writeAll 8 st.mem (relocations st (st.relaTable phdrs) (relativeCount st (st.relaTable phdrs))) ∧
      (applyRelocations fuel phdrs st).2 = walkEnding st (st.relaTable phdrs)
  early : ∀ fuel, (applyRelocations fuel phdrs st).2 ≠ .unfinished → ∀ more,
    applyRelocations (fuel + more) phdrs st = applyRelocations fuel phdrs st
  targets : ∀ fuel, applyTargets fuel phdrs st =
    ((relocations st (st.relaTable phdrs) (relativeCount st (st.relaTable phdrs))).take fuel).map Write.dst

/-! The headers that were read in between make no difference. -/

section Accesses

variable (st) (accesses : List Access)

theorem relaAt_accesses : relaAt { st with accesses := accesses } = relaAt st := rfl

theorem isRelative_accesses : isRelative { st with accesses := accesses } = isRelative st := rfl

theorem relocation_accesses : relocation { st with accesses := accesses } = relocation st := rfl

theorem relativeCount_accesses (table : RelaTable) :
    relativeCount { st with accesses := accesses } table = relativeCount st table := by
  unfold relativeCount
  rw [isRelative_accesses]

theorem relocations_accesses (table : RelaTable) (k : Nat) :
    relocations { st with accesses := accesses } table k = relocations st table k := by
  unfold relocations
  rw [relocation_accesses]

theorem walked_accesses (table : RelaTable) (k : Nat) :
    (walked { st with accesses := accesses } table k).mem = (walked st table k).mem := by
  unfold walked
  rw [relocations_accesses]

theorem walkEnding_accesses (table : RelaTable) :
    walkEnding { st with accesses := accesses } table = walkEnding st table := by
  unfold walkEnding
  rw [relativeCount_accesses]

variable {st}

theorem tableKept_accesses (kept : TableKept st table) : TableKept { st with accesses := accesses } table := by
  unfold TableKept
  rw [relativeCount_accesses, relocation_accesses, relaAt_accesses]
  exact kept

theorem walkStops_accesses (stops : WalkStops st table) : WalkStops { st with accesses := accesses } table := by
  unfold WalkStops
  rw [relativeCount_accesses]
  exact stops

end Accesses

theorem walk_of_table
    (some : ¬ ((st.relaTable phdrs).virt = 0 ∨ (st.relaTable phdrs).size = 0 ∨ (st.relaTable phdrs).ent = 0))
    (stops : WalkStops st (st.relaTable phdrs)) (kept : TableKept st (st.relaTable phdrs)) : Walk phdrs st := by
  obtain ⟨accesses, eq⟩ := applyRelocations_eq phdrs st
  have walks : (st.relaTable phdrs).Walks := ⟨some, relaTable_size st phdrs⟩
  generalize tableEq : st.relaTable phdrs = table at some stops kept eq walks
  have keptAfter := tableKept_accesses accesses kept
  have stopsAfter := walkStops_accesses accesses stops
  have run (fuel : Nat) : applyRelocations fuel phdrs st =
      relocate table fuel 0 { st with accesses := accesses } := by
    rw [(eq fuel).1, if_neg some]
  have start := relativeCount_accesses st accesses table
  refine ⟨?_, ?_, ?_⟩
  · intro fuel enough
    rw [tableEq] at enough ⊢
    have walk := @relocate_walk _ _ 0 walks keptAfter stopsAfter
      (relativeCount st table) fuel
      (by rw [start, Nat.zero_add]) enough
    rw [Nat.zero_mul, walked_zero] at walk
    rw [run, walk, walked_accesses, walkEnding_accesses, start]
    exact ⟨rfl, rfl⟩
  · intro fuel ended more
    rw [run] at ended
    rw [run, run]
    exact relocate_fuel more ended
  · intro fuel
    have targets := @relocateTargets_walk _ _ 0 walks keptAfter stopsAfter fuel (Nat.zero_le _)
    rw [Nat.zero_mul, walked_zero, List.drop_zero, relocations_accesses, start] at targets
    rw [tableEq, (eq fuel).2, if_neg some, targets]

theorem walkEnding_success (success : walkEnding st table = .success) : relativeCount st table = table.count := by
  unfold walkEnding at success
  split at success
  · assumption
  · cases success

theorem walkEnding_ended (st : ElfState) (table : RelaTable) : walkEnding st table ≠ .unfinished := by
  unfold walkEnding
  split
  · exact fun unfinished => nomatch unfinished
  · exact fun unfinished => nomatch unfinished

theorem Walk.relocationsOk_iff (walk : Walk phdrs st) :
    RelocationsOk phdrs st ↔ TargetsOk st (st.relaTable phdrs) := by
  have length : (relocations st (st.relaTable phdrs) (relativeCount st (st.relaTable phdrs))).length =
      relativeCount st (st.relaTable phdrs) := by
    rw [relocations, List.length_map, List.length_range]
  have long := walk.result (relativeCount st (st.relaTable phdrs) + 1) (Nat.lt_succ_self _)
  constructor
  · intro ok
    refine ⟨?_, ?_⟩
    · intro w mem
      apply ok.inside (relativeCount st (st.relaTable phdrs))
      rw [walk.targets, List.take_of_length_le (Nat.le_of_eq length)]
      exact List.mem_map_of_mem mem
    · intro all
      have success : walkEnding st (st.relaTable phdrs) = .success := if_pos all
      have held := (ok.applied _ (long.2.trans success)).1
      rw [long.1, all] at held
      exact (writeAll_hold_iff st.mem _).mp held
  · rintro ⟨inside, agree⟩
    refine ⟨⟨relativeCount st (st.relaTable phdrs) + 1, ?_⟩, ?_, ?_⟩
    · intro fuel enough unfinished
      exact walkEnding_ended _ _ ((walk.result fuel enough).2.symm.trans unfinished)
    · intro fuel dst mem
      rw [walk.targets] at mem
      obtain ⟨w, taken, eq⟩ := List.mem_map.mp mem
      rw [← eq]
      exact inside w (List.mem_of_mem_take taken)
    · intro fuel success
      have ended : (applyRelocations fuel phdrs st).2 ≠ .unfinished := fun unfinished => by
        rw [success] at unfinished
        cases unfinished
      have same := walk.early fuel ended (relativeCount st (st.relaTable phdrs) + 1)
      have result := walk.result (fuel + (relativeCount st (st.relaTable phdrs) + 1)) (by omega)
      rw [same] at result
      have all := walkEnding_success (result.2.symm.trans success)
      rw [all] at result
      rw [result.1]
      exact ⟨(writeAll_hold_iff st.mem _).mpr (agree all), fun a _ _ other => writeAll_other other⟩

/-- An image of one page whose dynamic section has one record, for this offset. -/
def relocatedImage (rOffset : Nat) : ElfState where
  ctx :=
    { fileData := 0x10000, fileSize := 120, imagePhys := 0x100000, imageVirt := limineHigherHalfBase
      imageSize := 0x1000, slide := limineHigherHalfBase }
  mem :=
    [(0x10038, 2, 1), (0x10040, 4, 2), (0x10050, 8, 0x100), (0x10068, 8, 64),
      (0x100100, 8, 7), (0x100108, 8, 0x200), (0x100110, 8, 8), (0x100118, 8, 24),
      (0x100200, 8, rOffset), (0x100208, 8, 8), (0x100210, 8, 0x300)].foldl
      (fun mem field => writeLe mem field.1 field.2.1 field.2.2) fun _ => 0
  accesses := []

end Meridian.Limine
