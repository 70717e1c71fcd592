import Meridian.Lib.Codec
import Meridian.Lib.Reader

/-!
# Boot options, written and read

The model of the bytes that `ConstructBootEntry` of `install/install.c` builds, and of `FindBootOrderEntries`,
which reads the options that `BootOrder` lists. A read outside the variable's data stops. Allocations succeed.
-/

namespace Meridian.Install

open Lib.Codec Lib.Reader Lib.Result

/-- A label has no NUL inside; the NUL at its end is written with it. -/
def labelBytes (label : List UInt16) : List UInt8 := (label ++ [0]).flatMap fun c : UInt16 => toLe 2 c.toNat

def loadOptionActive : Nat := 1

/-- `ConstructBootEntry`. -/
def constructBootEntry (label : List UInt16) (devicePath : List UInt8) : List UInt8 :=
  toLe 4 loadOptionActive ++ toLe 2 devicePath.length ++ labelBytes label ++ devicePath

structure BootEntry where
  bootNum : UInt16
  options : UInt32
  size : UInt16
  label : List UInt16
  devPath : List UInt8
  deriving DecidableEq, Repr

/-- `Contents[index]`. -/
def char16At (contents : List UInt8) (index : Nat) : Except Stop UInt16 := do
  let bytes ← slice contents (2 * index) 2
  pure (.ofNat (ofLe bytes))

/-- The label that `StrDuplicate` reads from here on. -/
def labelOf : List UInt8 → Except Stop (List UInt16)
  | lo :: hi :: rest =>
    if ofLe [lo, hi] = 0 then .ok []
    else do
      let label ← labelOf rest
      pure (.ofNat (ofLe [lo, hi]) :: label)
  | _ => .error .outOfBounds

/-- One round of the loop, for a variable that was read. -/
def readBootOption (bootNum : UInt16) (contents : List UInt8) : Except Stop BootEntry := do
  let options ← char16At contents 0
  let size ← char16At contents 2
  let label ← labelOf (contents.drop 6)
  let devPath ← slice contents (2 * (3 + (label.length + 1))) size.toNat
  pure { bootNum, options := options.toUInt32, size, label, devPath }

/-- The loop over the indices of the list. -/
def entriesFrom (vars : UInt16 → Option (List UInt8)) (bootOrder : List UInt8) :
    List Nat → Except Stop (List BootEntry)
  | [] => .ok []
  | i :: rest => do
    let bootNum ← char16At bootOrder i
    match vars bootNum with
    | none => entriesFrom vars bootOrder rest
    | some contents => do
      let entry ← readBootOption bootNum contents
      let entries ← entriesFrom vars bootOrder rest
      pure (entry :: entries)

/-- `FindBootOrderEntries`, with the variables that can be read. -/
def findBootOrderEntries (vars : UInt16 → Option (List UInt8)) (bootOrder : Option (List UInt8)) :
    Except Stop (List BootEntry) :=
  match bootOrder with
  | none => .ok []
  | some order => entriesFrom vars order (List.range (order.length / 2))

/-! ### The label -/

theorem labelBytes_nil : labelBytes [] = [0, 0] := by decide

theorem labelBytes_cons (c : UInt16) (label : List UInt16) :
    labelBytes (c :: label) = UInt8.ofNat c.toNat :: UInt8.ofNat (c.toNat / 256) :: labelBytes label := rfl

theorem labelBytes_length (label : List UInt16) : (labelBytes label).length = 2 * (label.length + 1) := by
  induction label with
  | nil => rfl
  | cons c label ih =>
    rw [labelBytes_cons, List.length_cons, List.length_cons, ih, List.length_cons]
    omega

theorem ofLe_char16 (c : UInt16) : ofLe [UInt8.ofNat c.toNat, UInt8.ofNat (c.toNat / 256)] = c.toNat :=
  @ofLe_toLe 2 c.toNat c.toNat_lt

theorem char16_toNat (lo hi : UInt8) : (UInt16.ofNat (ofLe [lo, hi])).toNat = ofLe [lo, hi] := by
  have small : ofLe [lo, hi] < 256 ^ 2 := ofLe_lt [lo, hi]
  exact UInt16.toNat_ofNat_of_lt' small

theorem labelBytes_read (lo hi : UInt8) (label : List UInt16) :
    labelBytes (UInt16.ofNat (ofLe [lo, hi]) :: label) = lo :: hi :: labelBytes label := by
  have bytes : [UInt8.ofNat (ofLe [lo, hi]), UInt8.ofNat (ofLe [lo, hi] / 256)] = [lo, hi] := toLe_ofLe [lo, hi]
  rw [labelBytes_cons, char16_toNat, (List.cons.inj bytes).1, (List.cons.inj (List.cons.inj bytes).2).1]

theorem ofLe_pair_eq_zero {lo hi : UInt8} : ofLe [lo, hi] = 0 ↔ lo = 0 ∧ hi = 0 := by
  have value : ofLe [lo, hi] = lo.toNat + 256 * (hi.toNat + 256 * 0) := rfl
  rw [value, ← UInt8.toNat_inj, ← UInt8.toNat_inj]
  have zero : (0 : UInt8).toNat = 0 := rfl
  omega

/-- The label that is read is the one that is written there, with its NUL. -/
theorem labelOf_eq_ok {bytes : List UInt8} {label : List UInt16} :
    labelOf bytes = .ok label ↔ 0 ∉ label ∧ labelBytes label <+: bytes := by
  induction bytes using labelOf.induct generalizing label with
  | case1 lo hi rest zero =>
    rw [labelOf, if_pos zero]
    constructor
    · intro same
      obtain rfl := Except.ok.inj same
      obtain ⟨rfl, rfl⟩ := ofLe_pair_eq_zero.mp zero
      exact ⟨List.not_mem_nil, rest, rfl⟩
    · rintro ⟨noNul, tail, eq⟩
      cases label with
      | nil => rfl
      | cons c label =>
        rw [labelBytes_cons, List.cons_append, List.cons_append] at eq
        rw [← (List.cons.inj eq).1, ← (List.cons.inj (List.cons.inj eq).2).1, ofLe_char16] at zero
        have nul : c = 0 := UInt16.toNat_inj.mp zero
        exact absurd (nul ▸ List.mem_cons_self) noNul
  | case2 lo hi rest nonzero ih =>
    rw [labelOf, if_neg nonzero, bind_eq_ok]
    constructor
    · rintro ⟨label', read, same⟩
      cases same
      obtain ⟨noNul, tail, rfl⟩ := ih.mp read
      refine ⟨fun mem => ?_, tail, ?_⟩
      · obtain nul | later := List.mem_cons.mp mem
        · have value := char16_toNat lo hi
          rw [← nul] at value
          exact nonzero value.symm
        · exact noNul later
      · rw [labelBytes_read, List.cons_append, List.cons_append]
    · rintro ⟨noNul, tail, eq⟩
      cases label with
      | nil =>
        rw [labelBytes_nil, List.cons_append, List.cons_append] at eq
        exact absurd (ofLe_pair_eq_zero.mpr
          ⟨(List.cons.inj eq).1.symm, (List.cons.inj (List.cons.inj eq).2).1.symm⟩) nonzero
      | cons c label =>
        rw [labelBytes_cons, List.cons_append, List.cons_append] at eq
        have inner := List.cons.inj (List.cons.inj eq).2
        refine ⟨label, ih.mpr ⟨fun mem => noNul (List.mem_cons_of_mem _ mem), tail, inner.2⟩, ?_⟩
        rw [← (List.cons.inj eq).1, ← inner.1, ofLe_char16, UInt16.ofNat_toNat]
        rfl
  | case3 bytes short =>
    have few : bytes.length < 2 := by
      match bytes, short with
      | [], _ => exact Nat.two_pos
      | [_], _ => exact Nat.one_lt_two
      | lo :: hi :: rest, short => exact absurd rfl (short lo hi rest)
    refine iff_of_false (fun read => ?_) fun both => ?_
    · rw [labelOf] at read
      · cases read
      · exact short
    · have length := both.2.length_le
      rw [labelBytes_length] at length
      omega

/-! ### One option -/

theorem char16At_eq_ok {contents : List UInt8} {index : Nat} {c : UInt16} :
    char16At contents index = .ok c ↔
      2 * index + 2 ≤ contents.length ∧ c = .ofNat (ofLe ((contents.drop (2 * index)).take 2)) := by
  rw [char16At, bind_eq_ok]
  unfold slice
  split
  · rename_i inside
    rw [and_iff_right inside]
    constructor
    · rintro ⟨bytes, same, result⟩
      cases same
      cases result
      rfl
    · rintro rfl
      exact ⟨_, rfl, rfl⟩
  · rename_i outside
    refine iff_of_false ?_ fun both => outside both.1
    rintro ⟨bytes, impossible, -⟩
    cases impossible

/-- The size that the field for it holds. -/
def pathSize (contents : List UInt8) : Nat := ofLe ((contents.drop 4).take 2)

/-- The label ends inside the data, and the device path behind it does. -/
def Whole (contents : List UInt8) : Prop :=
  ∃ label, 0 ∉ label ∧ labelBytes label <+: contents.drop 6 ∧
    6 + 2 * (label.length + 1) + pathSize contents ≤ contents.length

theorem pathSize_lt (contents : List UInt8) : pathSize contents < 65536 := by
  refine Nat.lt_of_lt_of_le (ofLe_lt _) (Nat.pow_le_pow_right (n := 256) (by decide) ?_ : _ ≤ 256 ^ 2)
  rw [List.length_take]
  exact Nat.min_le_left _ _

theorem readBootOption_eq_ok {bootNum : UInt16} {contents : List UInt8} {entry : BootEntry} :
    readBootOption bootNum contents = .ok entry ↔
      ∃ label, 0 ∉ label ∧ labelBytes label <+: contents.drop 6 ∧
        6 + 2 * (label.length + 1) + pathSize contents ≤ contents.length ∧
        entry = {
          bootNum
          options := (UInt16.ofNat (ofLe (contents.take 2))).toUInt32
          size := .ofNat (pathSize contents)
          label
          devPath := (contents.drop (6 + 2 * (label.length + 1))).take (pathSize contents) } := by
  have size : (UInt16.ofNat (pathSize contents)).toNat = pathSize contents :=
    UInt16.toNat_ofNat_of_lt' (pathSize_lt contents)
  have field : ofLe ((contents.drop (2 * 2)).take 2) = pathSize contents := rfl
  unfold readBootOption
  simp only [bind_eq_ok, char16At_eq_ok, labelOf_eq_ok, field]
  constructor
  · rintro ⟨options, ⟨-, rfl⟩, _, ⟨inside, rfl⟩, label, ⟨noNul, written⟩, devPath, path, result⟩
    rw [size, slice] at path
    split at path
    · rename_i fits
      cases path
      cases result
      refine ⟨label, noNul, written, by omega, ?_⟩
      have behind : 2 * (3 + (label.length + 1)) = 6 + 2 * (label.length + 1) := by omega
      rw [behind, Nat.mul_zero, List.drop_zero]
    · cases path
  · rintro ⟨label, noNul, written, fits, rfl⟩
    have length := written.length_le
    rw [labelBytes_length, List.length_drop] at length
    refine ⟨_, ⟨by omega, rfl⟩, _, ⟨by omega, rfl⟩, label, ⟨noNul, written⟩,
      (contents.drop (6 + 2 * (label.length + 1))).take (pathSize contents), ?_, ?_⟩
    · have behind : 2 * (3 + (label.length + 1)) = 6 + 2 * (label.length + 1) := by omega
      rw [size, behind, slice, if_pos (by omega)]
    · rw [Nat.mul_zero, List.drop_zero]
      rfl

theorem readBootOption_isOk {bootNum : UInt16} {contents : List UInt8} :
    (∃ entry, readBootOption bootNum contents = .ok entry) ↔ Whole contents := by
  constructor
  · rintro ⟨entry, read⟩
    obtain ⟨label, noNul, written, fits, -⟩ := readBootOption_eq_ok.mp read
    exact ⟨label, noNul, written, fits⟩
  · rintro ⟨label, noNul, written, fits⟩
    exact ⟨_, readBootOption_eq_ok.mpr ⟨label, noNul, written, fits, rfl⟩⟩

/-- What was written is read back. -/
theorem readBootOption_constructBootEntry (bootNum : UInt16) {label : List UInt16} {devicePath : List UInt8}
    (noNul : 0 ∉ label) (fits : (constructBootEntry label devicePath).length ≤ 0x10000) :
    readBootOption bootNum (constructBootEntry label devicePath) =
      .ok { bootNum, options := 1, size := .ofNat devicePath.length, label, devPath := devicePath } := by
  have length : (constructBootEntry label devicePath).length = 6 + 2 * (label.length + 1) + devicePath.length := by
    rw [constructBootEntry, List.length_append, List.length_append, List.length_append, length_toLe, length_toLe,
      labelBytes_length]
  have small : devicePath.length < 256 ^ 2 := by omega
  have size : pathSize (constructBootEntry label devicePath) = devicePath.length := by
    rw [pathSize, constructBootEntry, List.append_assoc, List.append_assoc,
      List.drop_left' (length_toLe 4 _), List.take_left' (length_toLe 2 _), ofLe_toLe small]
  have behind : (constructBootEntry label devicePath).drop 6 = labelBytes label ++ devicePath := by
    rw [constructBootEntry, List.append_assoc]
    exact List.drop_left' (by rw [List.length_append, length_toLe, length_toLe])
  have path : (constructBootEntry label devicePath).drop (6 + 2 * (label.length + 1)) = devicePath := by
    rw [← List.drop_drop, behind]
    exact List.drop_left' (labelBytes_length label)
  refine readBootOption_eq_ok.mpr ⟨label, noNul, behind ▸ List.prefix_append _ _, by rw [size, length], ?_⟩
  rw [size, path, List.take_length]
  have options : (constructBootEntry label devicePath).take 2 = [1, 0] := rfl
  rw [options]
  rfl

/-! ### The list -/

/-- The number in the list. -/
def numberAt (order : List UInt8) (i : Nat) : UInt16 := .ofNat (ofLe ((order.drop (2 * i)).take 2))

/-- The numbers that `BootOrder` lists. -/
def listed (order : List UInt8) : List UInt16 := (List.range (order.length / 2)).map (numberAt order)

variable {vars : UInt16 → Option (List UInt8)} {order : List UInt8} {entries : List BootEntry}

theorem entriesFrom_cons {i : Nat} (inside : 2 * i + 2 ≤ order.length) (rest : List Nat) :
    entriesFrom vars order (i :: rest) =
      match vars (numberAt order i) with
      | none => entriesFrom vars order rest
      | some contents =>
        readBootOption (numberAt order i) contents >>= fun entry =>
          entriesFrom vars order rest >>= fun entries => .ok (entry :: entries) := by
  have number : char16At order i = .ok (numberAt order i) := char16At_eq_ok.mpr ⟨inside, rfl⟩
  rw [entriesFrom, number, ok_bind]
  rfl

/-- The loop stays inside the data where all the options that it reads are whole. -/
theorem entriesFrom_isOk {is : List Nat} (inside : ∀ i ∈ is, 2 * i + 2 ≤ order.length) :
    (∃ entries, entriesFrom vars order is = .ok entries) ↔
      ∀ i ∈ is, ∀ contents, vars (numberAt order i) = some contents → Whole contents := by
  induction is with
  | nil => exact iff_of_true ⟨[], rfl⟩ fun i mem => absurd mem List.not_mem_nil
  | cons i rest ih =>
    rw [List.forall_mem_cons] at inside ⊢
    rw [entriesFrom_cons inside.1, ← ih inside.2]
    cases held : vars (numberAt order i) with
    | none => exact (and_iff_right fun contents impossible => nomatch impossible).symm
    | some contents =>
      simp only [bind_eq_ok]
      constructor
      · rintro ⟨entries, entry, read, later, rest, -⟩
        refine ⟨fun contents' same => ?_, later, rest⟩
        obtain rfl := Option.some.inj same
        exact readBootOption_isOk.mp ⟨entry, read⟩
      · rintro ⟨whole, later, rest⟩
        obtain ⟨entry, read⟩ := readBootOption_isOk.mpr (whole contents rfl)
        exact ⟨entry :: later, entry, read, later, rest, rfl⟩

theorem entriesFrom_mem {is : List Nat} (inside : ∀ i ∈ is, 2 * i + 2 ≤ order.length)
    (all : entriesFrom vars order is = .ok entries) {i : Nat} (mem : i ∈ is) {contents : List UInt8}
    (held : vars (numberAt order i) = some contents) {entry : BootEntry}
    (read : readBootOption (numberAt order i) contents = .ok entry) : entry ∈ entries := by
  induction is generalizing entries with
  | nil => exact absurd mem List.not_mem_nil
  | cons j rest ih =>
    rw [List.forall_mem_cons] at inside
    rw [entriesFrom_cons inside.1] at all
    obtain rfl | later := List.mem_cons.mp mem
    · rw [held] at all
      obtain ⟨entry', read', all⟩ := bind_eq_ok.mp all
      obtain ⟨entries', -, result⟩ := bind_eq_ok.mp all
      obtain rfl : entry' = entry := Except.ok.inj (read'.symm.trans read)
      cases result
      exact List.mem_cons_self
    · cases other : vars (numberAt order j) with
      | none =>
        rw [other] at all
        exact ih inside.2 all later
      | some contents' =>
        rw [other] at all
        obtain ⟨entry', -, all⟩ := bind_eq_ok.mp all
        obtain ⟨entries', rest, result⟩ := bind_eq_ok.mp all
        cases result
        exact List.mem_cons_of_mem _ (ih inside.2 rest later)

/-- No byte outside a variable's data is read, and an option that was written is read back. -/
structure ReadsEntries (vars : UInt16 → Option (List UInt8)) (bootOrder : Option (List UInt8)) : Prop where
  inside : ∃ entries, findBootOrderEntries vars bootOrder = .ok entries
  same : ∀ bootNum ∈ listed (bootOrder.getD []), ∀ label devicePath, 0 ∉ label →
    (constructBootEntry label devicePath).length ≤ 0x10000 →
    vars bootNum = some (constructBootEntry label devicePath) →
    ∃ entries, findBootOrderEntries vars bootOrder = .ok entries ∧
      { bootNum, options := 1, size := .ofNat devicePath.length, label, devPath := devicePath } ∈ entries

/-- The options are read so exactly where all that are listed are whole. -/
theorem findBootOrderEntries_iff (vars : UInt16 → Option (List UInt8)) (bootOrder : Option (List UInt8)) :
    ReadsEntries vars bootOrder ↔
      ∀ bootNum ∈ listed (bootOrder.getD []), ∀ contents, vars bootNum = some contents → Whole contents := by
  cases bootOrder with
  | none =>
    refine iff_of_true ⟨⟨[], rfl⟩, fun bootNum mem => ?_⟩ fun bootNum mem => ?_
    · exact absurd mem List.not_mem_nil
    · exact absurd mem List.not_mem_nil
  | some order =>
    have inside : ∀ i ∈ List.range (order.length / 2), 2 * i + 2 ≤ order.length := by
      intro i mem
      have := List.mem_range.mp mem
      omega
    rw [Option.getD_some, listed]
    simp only [List.forall_mem_map]
    rw [← entriesFrom_isOk inside]
    constructor
    · exact fun reads => reads.inside
    · rintro ⟨entries, all⟩
      refine ⟨⟨entries, all⟩, fun bootNum mem label devicePath noNul fits held => ⟨entries, all, ?_⟩⟩
      obtain ⟨i, here, rfl⟩ := List.mem_map.mp mem
      exact entriesFrom_mem inside all here held (readBootOption_constructBootEntry _ noNul fits)

/-- An option with a label that has no NUL. -/
theorem findBootOrderEntries_outside :
    ¬ ReadsEntries (fun _ => some [1, 0, 0, 0, 4, 0, 65, 0]) (some [0, 0]) := by
  rintro ⟨⟨entries, all⟩, -⟩
  cases all

end Meridian.Install
