import Meridian.Fsw.Bcache
import Mathlib.Data.List.Count

/-!
# Runs of the block cache

A slot with references stays where it is, with its number, its buffer and the content of the block. That
holds along every run in which no call asks for the number of the empty slots, no count of references
overflows and the table does not reach 2³² slots.
-/

namespace Meridian.Fsw.Bcache

open Lib.Run

variable {disk : UInt64 → List UInt8} {host : Host} {vol : Volume} {physBno : UInt64} {cacheLevel : UInt32}

/-! ### What a call does -/

theorem findIdx?_getElem? {α : Type} {p : α → Bool} {xs : List α} {i : Nat} (found : xs.findIdx? p = some i) :
    ∃ x, xs[i]? = some x ∧ p x = true := by
  obtain ⟨lt, here, _⟩ := List.findIdx?_eq_some_iff_getElem.mp found
  exact ⟨xs[i], List.getElem?_eq_getElem lt, here⟩

theorem freeSlot_free {bcache : List FswBlockcache} {i : Nat} (found : freeSlot bcache = some i) :
    ∃ slot, bcache[i]? = some slot ∧ (slot.physBno = fswInvalidBno ∨ slot.refcount = 0) := by
  unfold freeSlot at found
  split at found
  · rename_i j empty
    obtain rfl := Option.some.inj found
    obtain ⟨slot, here, number⟩ := findIdx?_getElem? empty
    exact ⟨slot, here, Or.inl (of_decide_eq_true number)⟩
  · obtain ⟨level, _, discarded⟩ := List.exists_of_findSome?_eq_some found
    obtain ⟨slot, here, unused⟩ := findIdx?_getElem? discarded
    exact ⟨slot, here, Or.inr (of_decide_eq_true unused).1⟩

/-- The table with some empty slots behind it. -/
def Volume.padded (vol : Volume) (k : Nat) : Volume :=
  { vol with bcache := vol.bcache ++ List.replicate k emptySlot }

@[simp] theorem padded_zero (vol : Volume) : vol.padded 0 = vol := by simp [Volume.padded]

/-- The table is full and does not fit its size in twice as many slots. -/
def Overflows (host : Host) (vol : Volume) : Prop :=
  freeSlot vol.bcache = none ∧ host.table = true ∧ newBcacheSize vol.bcache.length < vol.bcache.length

/-- A get takes one more reference to the slot that has the block, or fills a slot without references,
which may be a new one, or it finds no memory for a larger table. -/
theorem fswBlockGet_cases (disk : UInt64 → List UInt8) (cacheLevel : UInt32)
    (fits : vol.bcache.findIdx? (·.physBno = physBno) = none → ¬Overflows host vol) :
    (∃ i slot level, vol.bcache[i]? = some slot ∧ slot.physBno = physBno ∧
      fswBlockGet disk host vol physBno cacheLevel =
        (.ok slot.data, vol.setSlot i { slot with cacheLevel := level, refcount := slot.refcount + 1 })) ∨
    (∀ slot ∈ vol.bcache, slot.physBno ≠ physBno) ∧
      (fswBlockGet disk host vol physBno cacheLevel = (fail .outOfMemory, vol) ∨
      ∃ k i slot level, (vol.padded k).bcache[i]? = some slot ∧
        (slot.physBno = fswInvalidBno ∨ slot.refcount = 0) ∧
        fswBlockGet disk host vol physBno cacheLevel = fillSlot disk host (vol.padded k) i physBno level) := by
  unfold fswBlockGet
  generalize (if cacheLevel > maxCacheLevel then maxCacheLevel else cacheLevel) = level
  dsimp only
  cases found : vol.bcache.findIdx? (·.physBno = physBno) with
  | some i =>
    obtain ⟨slot, here, number⟩ := findIdx?_getElem? found
    refine Or.inl ⟨i, slot, if slot.cacheLevel < level then level else slot.cacheLevel, here,
      of_decide_eq_true number, ?_⟩
    simp only [here, Option.bind_some, Volume.setSlot]
    rw [List.modify_eq_set_getElem?, here]
    rfl
  | none =>
    have missing : ∀ slot ∈ vol.bcache, slot.physBno ≠ physBno := by
      intro slot mem
      have differs := List.findIdx?_eq_none_iff.mp found slot mem
      exact of_decide_eq_false differs
    refine Or.inr ⟨missing, ?_⟩
    cases free : freeSlot vol.bcache with
    | some i =>
      obtain ⟨slot, here, unused⟩ := freeSlot_free free
      exact Or.inr ⟨0, i, slot, level, by rwa [padded_zero], unused, by rw [padded_zero]⟩
    | none =>
      cases memory : host.table with
      | false => exact Or.inl rfl
      | true =>
        have large : vol.bcache.length ≤ newBcacheSize vol.bcache.length :=
          Nat.le_of_not_lt fun small => fits found ⟨free, memory, small⟩
        have room : 0 < newBcacheSize vol.bcache.length - vol.bcache.length := by
          unfold newBcacheSize u32 at large ⊢
          split at large <;> split <;> omega
        simp only [Bool.not_true, Bool.false_eq_true, if_false, if_neg (Nat.not_lt.mpr large)]
        refine Or.inr ⟨_, vol.bcache.length, emptySlot, level, ?_, Or.inl rfl, rfl⟩
        rw [Volume.padded, List.getElem?_append_right (Nat.le_refl _), Nat.sub_self,
          List.getElem?_replicate_of_lt room]

/-! ### The table -/

/-- Only empty slots share a number, none share a buffer, and the others hold their blocks. -/
structure TableOk (disk : UInt64 → List UInt8) (vol : Volume) : Prop where
  distinct : ∀ {i j : Nat} {a b : FswBlockcache}, vol.bcache[i]? = some a → vol.bcache[j]? = some b →
    a.physBno = b.physBno → a.physBno ≠ fswInvalidBno → i = j
  buffers : ∀ {i j : Nat} {a b : FswBlockcache} {buffer : Addr}, vol.bcache[i]? = some a →
    vol.bcache[j]? = some b → a.data = some buffer → b.data = some buffer → i = j
  filled : ∀ {i : Nat} {slot : FswBlockcache}, vol.bcache[i]? = some slot → slot.physBno ≠ fswInvalidBno →
    ∃ buffer, slot.data = some buffer ∧ vol.pool buffer = disk slot.physBno

theorem padded_slot {k i : Nat} {slot : FswBlockcache} (here : (vol.padded k).bcache[i]? = some slot) :
    vol.bcache[i]? = some slot ∨ slot = emptySlot := by
  rw [Volume.padded, List.getElem?_append] at here
  split at here
  · exact Or.inl here
  · exact Or.inr (List.eq_of_mem_replicate (List.mem_of_getElem? here))

theorem padded_of_slot {k i : Nat} {slot : FswBlockcache} (here : vol.bcache[i]? = some slot) :
    (vol.padded k).bcache[i]? = some slot := by
  rw [Volume.padded, List.getElem?_append_left (List.getElem?_eq_some_iff.mp here).1, here]

theorem TableOk.padded (ok : TableOk disk vol) (k : Nat) : TableOk disk (vol.padded k) := by
  constructor
  · intro i j a b here there same valid
    rcases padded_slot here with here | rfl
    · rcases padded_slot there with there | rfl
      · exact ok.distinct here there same valid
      · exact absurd same valid
    · exact absurd rfl valid
  · intro i j a b buffer here there ours theirs
    rcases padded_slot here with here | rfl
    · rcases padded_slot there with there | rfl
      · exact ok.buffers here there ours theirs
      · cases theirs
    · cases ours
  · intro i slot here valid
    rcases padded_slot here with here | rfl
    · exact ok.filled here valid
    · exact absurd rfl valid

/-- The table after one slot was written, with the buffers that may have changed on the way. -/
def Volume.replaced (vol : Volume) (i : Nat) (slot : FswBlockcache) (pool : Addr → List UInt8) : Volume :=
  { bcache := vol.bcache.set i slot, pool }

theorem replaced_here {i : Nat} {slot slot' : FswBlockcache} {pool : Addr → List UInt8}
    (here : vol.bcache[i]? = some slot) : (vol.replaced i slot' pool).bcache[i]? = some slot' := by
  rw [Volume.replaced, List.getElem?_set_self (List.getElem?_eq_some_iff.mp here).1]

theorem replaced_other {i j : Nat} {slot' : FswBlockcache} {pool : Addr → List UInt8} (other : j ≠ i) :
    (vol.replaced i slot' pool).bcache[j]? = vol.bcache[j]? := by
  rw [Volume.replaced, List.getElem?_set_ne other.symm]

/-- The slot was written over, or is another one. -/
theorem replaced_slot {i j : Nat} {slot slot' found : FswBlockcache} {pool : Addr → List UInt8}
    (here : vol.bcache[i]? = some slot) (at_ : (vol.replaced i slot' pool).bcache[j]? = some found) :
    j = i ∧ found = slot' ∨ j ≠ i ∧ vol.bcache[j]? = some found := by
  by_cases same : j = i
  · subst same
    rw [replaced_here here] at at_
    exact Or.inl ⟨rfl, (Option.some.inj at_).symm⟩
  · rw [replaced_other same] at at_
    exact Or.inr ⟨same, at_⟩

/-- What the new slot must keep to. -/
structure Replaces (disk : UInt64 → List UInt8) (vol : Volume) (i : Nat) (slot : FswBlockcache)
    (pool : Addr → List UInt8) : Prop where
  number : ∀ {j : Nat} {other : FswBlockcache}, j ≠ i → vol.bcache[j]? = some other →
    other.physBno = slot.physBno → slot.physBno = fswInvalidBno
  buffer : ∀ {j : Nat} {other : FswBlockcache} {buffer : Addr}, j ≠ i → vol.bcache[j]? = some other →
    slot.data = some buffer → other.data ≠ some buffer
  content : slot.physBno ≠ fswInvalidBno →
    ∃ buffer, slot.data = some buffer ∧ pool buffer = disk slot.physBno
  kept : ∀ {j : Nat} {other : FswBlockcache} {buffer : Addr}, j ≠ i → vol.bcache[j]? = some other →
    other.data = some buffer → pool buffer = vol.pool buffer

theorem TableOk.replaced {i : Nat} {slot slot' : FswBlockcache} {pool : Addr → List UInt8}
    (ok : TableOk disk vol) (here : vol.bcache[i]? = some slot) (new : Replaces disk vol i slot' pool) :
    TableOk disk (vol.replaced i slot' pool) := by
  constructor
  · intro j k a b atJ atK same valid
    rcases replaced_slot here atJ with ⟨rfl, rfl⟩ | ⟨otherJ, oldJ⟩
    · rcases replaced_slot here atK with ⟨rfl, rfl⟩ | ⟨otherK, oldK⟩
      · rfl
      · exact absurd (new.number otherK oldK same.symm) valid
    · rcases replaced_slot here atK with ⟨rfl, rfl⟩ | ⟨otherK, oldK⟩
      · exact absurd (same.trans (new.number otherJ oldJ same)) valid
      · exact ok.distinct oldJ oldK same valid
  · intro j k a b buffer atJ atK ours theirs
    rcases replaced_slot here atJ with ⟨rfl, rfl⟩ | ⟨otherJ, oldJ⟩
    · rcases replaced_slot here atK with ⟨rfl, rfl⟩ | ⟨otherK, oldK⟩
      · rfl
      · exact absurd theirs (new.buffer otherK oldK ours)
    · rcases replaced_slot here atK with ⟨rfl, rfl⟩ | ⟨otherK, oldK⟩
      · exact absurd ours (new.buffer otherJ oldJ theirs)
      · exact ok.buffers oldJ oldK ours theirs
  · intro j found atJ valid
    rcases replaced_slot here atJ with ⟨rfl, rfl⟩ | ⟨otherJ, oldJ⟩
    · exact new.content valid
    · obtain ⟨buffer, data, held⟩ := ok.filled oldJ valid
      exact ⟨buffer, data, (new.kept otherJ oldJ data).trans held⟩

/-! ### The references -/

/-- How many references to a block are out. -/
def outstanding (references : List (UInt64 × Option Addr)) (physBno : UInt64) : Nat :=
  references.countP (·.1 = physBno)

theorem outstanding_pos {references : List (UInt64 × Option Addr)} {ref : UInt64 × Option Addr}
    (mem : ref ∈ references) : 0 < outstanding references ref.1 :=
  List.countP_pos_iff.mpr ⟨ref, mem, decide_eq_true rfl⟩

theorem outstanding_eq_zero {references : List (UInt64 × Option Addr)}
    (none_ : ∀ ref ∈ references, ref.1 ≠ physBno) : outstanding references physBno = 0 :=
  List.countP_eq_zero.mpr fun ref mem => by simpa using none_ ref mem

theorem outstanding_cons_same (references : List (UInt64 × Option Addr)) (buffer : Option Addr) :
    outstanding ((physBno, buffer) :: references) physBno = outstanding references physBno + 1 := by
  simp [outstanding]

theorem outstanding_cons_other {other : UInt64} (references : List (UInt64 × Option Addr))
    (buffer : Option Addr) (differs : other ≠ physBno) :
    outstanding ((physBno, buffer) :: references) other = outstanding references other := by
  simp [outstanding, differs.symm]

/-- The counts of the slots are those of the references, each of which has its slot. -/
structure RefsOk (vol : Volume) (references : List (UInt64 × Option Addr)) : Prop where
  counted : ∀ {i : Nat} {slot : FswBlockcache}, vol.bcache[i]? = some slot →
    slot.refcount.toNat = outstanding references slot.physBno
  pinned : ∀ {ref : UInt64 × Option Addr}, ref ∈ references →
    ∃ (i : Nat) (slot : FswBlockcache), vol.bcache[i]? = some slot ∧ slot.physBno = ref.1 ∧ slot.data = ref.2
  numbers : ∀ {ref : UInt64 × Option Addr}, ref ∈ references → ref.1 ≠ fswInvalidBno

variable {references : List (UInt64 × Option Addr)}

theorem RefsOk.invalid (ok : RefsOk vol references) : outstanding references fswInvalidBno = 0 :=
  outstanding_eq_zero fun _ mem => ok.numbers mem

/-- A reference is not to a slot without references. -/
theorem RefsOk.pinned_other (ok : RefsOk vol references) {i : Nat} {slot : FswBlockcache}
    (here : vol.bcache[i]? = some slot) (unused : slot.refcount.toNat = 0) {ref : UInt64 × Option Addr}
    (mem : ref ∈ references) : ∃ (j : Nat) (other : FswBlockcache), j ≠ i ∧ vol.bcache[j]? = some other ∧
      other.physBno = ref.1 ∧ other.data = ref.2 := by
  obtain ⟨j, other, there, number, data⟩ := ok.pinned mem
  refine ⟨j, other, ?_, there, number, data⟩
  intro same
  subst same
  obtain rfl := Option.some.inj (here.symm.trans there)
  have positive := outstanding_pos mem
  rw [ok.counted here, number] at unused
  omega

theorem RefsOk.padded (ok : RefsOk vol references) (k : Nat) : RefsOk (vol.padded k) references := by
  constructor
  · intro i slot here
    rcases padded_slot here with here | rfl
    · exact ok.counted here
    · exact ok.invalid.symm
  · intro ref mem
    obtain ⟨i, slot, here, number, data⟩ := ok.pinned mem
    exact ⟨i, slot, padded_of_slot here, number, data⟩
  · exact ok.numbers

/-- A slot without references is emptied. -/
theorem RefsOk.emptied (ok : RefsOk vol references) {i : Nat} {slot : FswBlockcache}
    (here : vol.bcache[i]? = some slot) (unused : slot.refcount.toNat = 0) (data : Option Addr)
    (pool : Addr → List UInt8) :
    RefsOk (vol.replaced i { slot with physBno := fswInvalidBno, data } pool) references := by
  constructor
  · intro j found there
    rcases replaced_slot here there with ⟨rfl, rfl⟩ | ⟨_, there⟩
    · exact unused.trans ok.invalid.symm
    · exact ok.counted there
  · intro ref mem
    obtain ⟨j, other, differs, there, number, data⟩ := ok.pinned_other here unused mem
    exact ⟨j, other, by rwa [replaced_other differs], number, data⟩
  · exact ok.numbers

/-- One more reference is taken to a slot, which had references only under the same number and buffer. -/
theorem RefsOk.taken (ok : RefsOk vol references) {i : Nat} {slot : FswBlockcache}
    (here : vol.bcache[i]? = some slot) (slot' : FswBlockcache) (valid : slot'.physBno ≠ fswInvalidBno)
    (count : slot'.refcount.toNat = outstanding references slot'.physBno + 1)
    (alone : ∀ {j : Nat} {other : FswBlockcache}, j ≠ i → vol.bcache[j]? = some other →
      other.physBno ≠ slot'.physBno)
    (kept : slot.refcount.toNat = 0 ∨ slot'.physBno = slot.physBno ∧ slot'.data = slot.data)
    (pool : Addr → List UInt8) :
    RefsOk (vol.replaced i slot' pool) ((slot'.physBno, slot'.data) :: references) := by
  constructor
  · intro j found there
    rcases replaced_slot here there with ⟨rfl, rfl⟩ | ⟨differs, there⟩
    · rw [outstanding_cons_same, count]
    · rw [outstanding_cons_other _ _ (alone differs there)]
      exact ok.counted there
  · intro ref mem
    rcases List.mem_cons.mp mem with rfl | mem
    · exact ⟨i, slot', replaced_here here, rfl, rfl⟩
    obtain ⟨j, other, there, number, data⟩ := ok.pinned mem
    by_cases same : j = i
    · subst same
      obtain rfl := Option.some.inj (here.symm.trans there)
      rcases kept with unused | ⟨number', data'⟩
      · have positive := outstanding_pos mem
        rw [ok.counted here, number] at unused
        omega
      · exact ⟨j, slot', replaced_here here, number'.trans number, data'.trans data⟩
    · exact ⟨j, other, by rwa [replaced_other same], number, data⟩
  · intro ref mem
    rcases List.mem_cons.mp mem with rfl | mem
    · exact valid
    · exact ok.numbers mem

/-! ### What a get keeps -/

/-- A slot with references keeps its place, its number and its buffer, and the buffer its content. -/
def Pinned (vol vol' : Volume) : Prop :=
  ∀ {i : Nat} {slot : FswBlockcache}, vol.bcache[i]? = some slot → 0 < slot.refcount.toNat →
    ∃ slot', vol'.bcache[i]? = some slot' ∧ slot'.physBno = slot.physBno ∧ slot'.data = slot.data ∧
      ∀ buffer, slot.data = some buffer → vol'.pool buffer = vol.pool buffer

/-- All slots but one, and what is in their buffers, are as before. -/
def OthersKept (vol vol' : Volume) : Prop :=
  ∃ i, ∀ {j : Nat} {slot : FswBlockcache}, j ≠ i → vol.bcache[j]? = some slot →
    vol'.bcache[j]? = some slot ∧ ∀ buffer, slot.data = some buffer → vol'.pool buffer = vol.pool buffer

structure GetKept (disk : UInt64 → List UInt8) (vol : Volume) (physBno : UInt64)
    (outcome : FswM (Option Addr) × Volume) : Prop where
  delivered : ∀ buffer, outcome.1 = .ok buffer →
    ∃ address, buffer = some address ∧ outcome.2.pool address = disk physBno
  pinned : Pinned vol outcome.2
  others : ∀ fault, outcome.1 = .error fault → OthersKept vol outcome.2
  inBounds : outcome.1 ≠ .error .outOfBounds

theorem OthersKept.refl (vol : Volume) : OthersKept vol vol :=
  ⟨0, fun _ here => ⟨here, fun _ _ => rfl⟩⟩

theorem Pinned.refl (vol : Volume) : Pinned vol vol :=
  fun {_ slot} here _ => ⟨slot, here, rfl, rfl, fun _ _ => rfl⟩

theorem OthersKept.replaced {i : Nat} {slot' : FswBlockcache} {pool : Addr → List UInt8}
    (kept : ∀ {j : Nat} {other : FswBlockcache} {buffer : Addr}, j ≠ i → vol.bcache[j]? = some other →
      other.data = some buffer → pool buffer = vol.pool buffer) :
    OthersKept vol (vol.replaced i slot' pool) :=
  ⟨i, fun differs here => ⟨(replaced_other differs).trans here, fun _ data => kept differs here data⟩⟩

theorem Pinned.replaced {i : Nat} {slot slot' : FswBlockcache} {pool : Addr → List UInt8}
    (here : vol.bcache[i]? = some slot) (unused : slot.refcount.toNat = 0)
    (kept : ∀ {j : Nat} {other : FswBlockcache} {buffer : Addr}, j ≠ i → vol.bcache[j]? = some other →
      other.data = some buffer → pool buffer = vol.pool buffer) :
    Pinned vol (vol.replaced i slot' pool) := by
  intro j other there referenced
  by_cases same : j = i
  · subst same
    obtain rfl := Option.some.inj (here.symm.trans there)
    omega
  · exact ⟨other, (replaced_other same).trans there, rfl, rfl, fun _ data => kept same there data⟩

/-- Empty slots behind the table are of no account. -/
theorem GetKept.of_padded {k : Nat} {outcome : FswM (Option Addr) × Volume}
    (kept : GetKept disk (vol.padded k) physBno outcome) : GetKept disk vol physBno outcome where
  delivered := kept.delivered
  pinned := fun here referenced => kept.pinned (padded_of_slot here) referenced
  others := by
    intro fault failed
    obtain ⟨i, same⟩ := kept.others fault failed
    exact ⟨i, fun differs here => same differs (padded_of_slot here)⟩
  inBounds := kept.inBounds

/-! ### Filling a slot -/

/-- The buffer that the host hands out belongs to no slot. -/
def Fresh (host : Host) (vol : Volume) : Prop :=
  ∀ buffer ∈ host.buffer, ∀ slot ∈ vol.bcache, slot.data ≠ some buffer

/-- The buffer that a slot is filled in belongs to no other slot. -/
theorem own_buffer (table : TableOk disk vol) (fresh : Fresh host vol) {i j : Nat} {slot other : FswBlockcache}
    {buffer : Addr} (here : vol.bcache[i]? = some slot) (own : slot.data.or host.buffer = some buffer)
    (differs : j ≠ i) (there : vol.bcache[j]? = some other) : other.data ≠ some buffer := by
  intro same
  cases data : slot.data with
  | some held =>
    rw [data] at own
    obtain rfl := Option.some.inj own
    exact differs (table.buffers there here same data)
  | none =>
    rw [data] at own
    exact fresh buffer own other (List.mem_of_getElem? there) same

/-- What a call of `fsw_block_get` does to a volume in good order. -/
structure GetOk (disk : UInt64 → List UInt8) (vol : Volume) (references : List (UInt64 × Option Addr))
    (physBno : UInt64) (outcome : FswM (Option Addr) × Volume) : Prop where
  table : TableOk disk outcome.2
  refs : RefsOk outcome.2 (gotten references physBno outcome.1)
  kept : GetKept disk vol physBno outcome

theorem GetOk.failed (table : TableOk disk vol) (refs : RefsOk vol references) {i : Nat} {slot : FswBlockcache}
    (here : vol.bcache[i]? = some slot) (unused : slot.refcount.toNat = 0) (status : FswStatus)
    {data : Option Addr} {pool : Addr → List UInt8}
    (own : ∀ {j : Nat} {other : FswBlockcache} {buffer : Addr}, j ≠ i → vol.bcache[j]? = some other →
      data = some buffer → other.data ≠ some buffer)
    (kept : ∀ {j : Nat} {other : FswBlockcache} {buffer : Addr}, j ≠ i → vol.bcache[j]? = some other →
      other.data = some buffer → pool buffer = vol.pool buffer) :
    GetOk disk vol references physBno
      (fail status, vol.replaced i { slot with physBno := fswInvalidBno, data := data } pool) := by
  refine ⟨table.replaced here ⟨fun _ _ _ => rfl, own, fun h => absurd rfl h, kept⟩, ?_, ?_⟩
  · exact refs.emptied here unused data pool
  · exact ⟨nofun, Pinned.replaced here unused kept, fun _ _ => OthersKept.replaced kept, nofun⟩

theorem GetOk.filled (table : TableOk disk vol) (refs : RefsOk vol references) {i : Nat} {slot : FswBlockcache}
    (here : vol.bcache[i]? = some slot) (unused : slot.refcount.toNat = 0) (valid : physBno ≠ fswInvalidBno)
    (missing : ∀ {j : Nat} {other : FswBlockcache}, vol.bcache[j]? = some other → other.physBno ≠ physBno)
    {buffer : Addr} {pool : Addr → List UInt8} (content : pool buffer = disk physBno)
    (own : ∀ {j : Nat} {other : FswBlockcache}, j ≠ i → vol.bcache[j]? = some other → other.data ≠ some buffer)
    (kept : ∀ {j : Nat} {other : FswBlockcache} {buffer : Addr}, j ≠ i → vol.bcache[j]? = some other →
      other.data = some buffer → pool buffer = vol.pool buffer) :
    GetOk disk vol references physBno
      (.ok (some buffer), vol.replaced i { refcount := 1, cacheLevel, physBno, data := some buffer } pool) := by
  have count : outstanding references physBno = 0 := by
    apply outstanding_eq_zero
    intro ref mem same
    obtain ⟨j, other, there, number, _⟩ := refs.pinned mem
    exact missing there (number.trans same)
  refine ⟨table.replaced here ⟨fun _ there same => absurd same (missing there), ?_, fun _ => ⟨buffer, rfl, content⟩,
    kept⟩, ?_, ⟨?_, Pinned.replaced here unused kept, nofun, nofun⟩⟩
  · intro j other held differs there same
    exact Option.some.inj same ▸ own differs there
  · refine refs.taken here { refcount := 1, cacheLevel, physBno, data := some buffer } valid ?_
      (fun _ there => missing there) (Or.inl unused) pool
    rw [count]
    rfl
  · intro got same
    obtain rfl := Except.ok.inj same
    exact ⟨buffer, rfl, content⟩

theorem fillSlot_ok (table : TableOk disk vol) (refs : RefsOk vol references) (fresh : Fresh host vol) {i : Nat}
    {slot : FswBlockcache} (here : vol.bcache[i]? = some slot) (unused : slot.refcount.toNat = 0)
    (valid : physBno ≠ fswInvalidBno)
    (missing : ∀ {j : Nat} {other : FswBlockcache}, vol.bcache[j]? = some other → other.physBno ≠ physBno) :
    GetOk disk vol references physBno (fillSlot disk host vol i physBno cacheLevel) := by
  unfold fillSlot
  rw [here]
  dsimp only
  cases own : slot.data.or host.buffer with
  | none =>
    have noData : slot.data = none := (Option.or_eq_none_iff.mp own).1
    refine GetOk.failed table refs here unused .outOfMemory ?_ fun _ _ _ => rfl
    intro j other buffer _ _ ours
    rw [noData] at ours
    cases ours
  | some buffer =>
    have others : ∀ {j : Nat} {other : FswBlockcache}, j ≠ i → vol.bcache[j]? = some other →
        other.data ≠ some buffer := fun differs there => own_buffer table fresh here own differs there
    have kept : ∀ (content : List UInt8) {j : Nat} {other : FswBlockcache} {held : Addr}, j ≠ i →
        vol.bcache[j]? = some other → other.data = some held →
        Function.update vol.pool buffer content held = vol.pool held := by
      intro content j other held differs there data
      have apart : held ≠ buffer := fun same => others differs there (same ▸ data)
      exact Function.update_of_ne apart _ _
    cases host.readError with
    | some status =>
      refine GetOk.failed table refs here unused status ?_ (kept host.residue)
      intro j other held differs there same
      exact Option.some.inj same ▸ others differs there
    | none =>
      exact GetOk.filled table refs here unused valid missing (Function.update_self ..) others (kept (disk physBno))

/-! ### A get -/

theorem GetOk.hit (table : TableOk disk vol) (refs : RefsOk vol references) {i : Nat} {slot : FswBlockcache}
    (here : vol.bcache[i]? = some slot) (valid : slot.physBno ≠ fswInvalidBno)
    (few : outstanding references slot.physBno < 2 ^ 32 - 1) (level : UInt32) :
    GetOk disk vol references slot.physBno
      (.ok slot.data,
        vol.replaced i { slot with cacheLevel := level, refcount := slot.refcount + 1 } vol.pool) := by
  have count : (slot.refcount + 1).toNat = slot.refcount.toNat + 1 := by
    rw [← refs.counted here] at few
    rw [UInt32.toNat_add]
    exact Nat.mod_eq_of_lt (Nat.add_lt_of_lt_sub few)
  have alone : ∀ {j : Nat} {other : FswBlockcache}, j ≠ i → vol.bcache[j]? = some other →
      other.physBno ≠ slot.physBno := by
    intro j other differs there same
    exact differs (table.distinct there here same (same ▸ valid))
  obtain ⟨buffer, data, held⟩ := table.filled here valid
  refine ⟨table.replaced here ⟨fun differs there same => absurd same (alone differs there), ?_,
    fun _ => ⟨buffer, data, held⟩, fun _ _ _ => rfl⟩, ?_, ⟨?_, ?_, nofun, nofun⟩⟩
  · intro j other buffer differs there ours theirs
    exact differs (table.buffers there here theirs ours)
  · refine refs.taken here { slot with cacheLevel := level, refcount := slot.refcount + 1 } valid ?_ alone
      (Or.inr ⟨rfl, rfl⟩) vol.pool
    rw [count, refs.counted here]
  · intro got same
    obtain rfl := Except.ok.inj same
    exact ⟨buffer, data, held⟩
  · intro j other there _
    by_cases same : j = i
    · subst same
      obtain rfl := Option.some.inj (here.symm.trans there)
      exact ⟨_, replaced_here here, rfl, rfl, fun _ _ => rfl⟩
    · exact ⟨other, (replaced_other same).trans there, rfl, rfl, fun _ _ => rfl⟩

theorem fswBlockGet_ok (table : TableOk disk vol) (refs : RefsOk vol references) (fresh : Fresh host vol)
    (valid : physBno ≠ fswInvalidBno) (few : outstanding references physBno < 2 ^ 32 - 1)
    (fits : vol.bcache.findIdx? (·.physBno = physBno) = none → ¬Overflows host vol) :
    GetOk disk vol references physBno (fswBlockGet disk host vol physBno cacheLevel) := by
  rcases fswBlockGet_cases disk cacheLevel fits with ⟨i, slot, level, here, rfl, eq⟩ | ⟨missing, eq | filled⟩
  · rw [eq]
    exact GetOk.hit table refs here valid few level
  · rw [eq]
    exact ⟨table, refs, nofun, Pinned.refl vol, fun _ _ => OthersKept.refl vol, nofun⟩
  · obtain ⟨k, i, slot, level, here, free, eq⟩ := filled
    rw [eq]
    have unused : slot.refcount.toNat = 0 := by
      rcases free with empty | zero
      · rw [(refs.padded k).counted here, empty, refs.invalid]
      · rw [zero]
        rfl
    have missing' : ∀ {j : Nat} {other : FswBlockcache}, (vol.padded k).bcache[j]? = some other →
        other.physBno ≠ physBno := by
      intro j other there
      rcases padded_slot there with there | rfl
      · exact missing other (List.mem_of_getElem? there)
      · exact valid.symm
    have fresh' : Fresh host (vol.padded k) := by
      intro buffer handed other mem
      rcases List.mem_append.mp mem with mem | mem
      · exact fresh buffer handed other mem
      · obtain rfl := List.eq_of_mem_replicate mem
        nofun
    have filled : GetOk disk (vol.padded k) references physBno (fillSlot disk host (vol.padded k) i physBno level) :=
      fillSlot_ok (table.padded k) (refs.padded k) fresh' here unused valid missing'
    exact ⟨filled.table, filled.refs, filled.kept.of_padded⟩

/-! ### A release -/

theorem released_slot (physBno : UInt64) {i : Nat} {slot : FswBlockcache} (here : vol.bcache[i]? = some slot) :
    ∃ slot', (fswBlockRelease vol physBno).bcache[i]? = some slot' ∧ slot'.physBno = slot.physBno ∧
      slot'.data = slot.data ∧ slot'.refcount.toNat =
        if slot.physBno = physBno then slot.refcount.toNat - 1 else slot.refcount.toNat := by
  rw [fswBlockRelease, List.getElem?_map, here]
  refine ⟨_, rfl, ?_⟩
  dsimp only
  by_cases both : slot.refcount > 0 ∧ slot.physBno = physBno
  · have positive : (1 : UInt32) ≤ slot.refcount :=
      UInt32.le_iff_toNat_le.mpr (UInt32.lt_iff_toNat_lt.mp both.1)
    rw [if_pos both, if_pos both.2]
    exact ⟨rfl, rfl, UInt32.toNat_sub_of_le _ _ positive⟩
  · rw [if_neg both]
    refine ⟨rfl, rfl, ?_⟩
    split
    · rename_i number
      have zero : slot.refcount.toNat = 0 := by
        by_contra positive
        exact both ⟨UInt32.lt_iff_toNat_lt.mpr (Nat.pos_of_ne_zero positive), number⟩
      rw [zero]
    · rfl

theorem slot_of_released {i : Nat} {slot' : FswBlockcache}
    (here : (fswBlockRelease vol physBno).bcache[i]? = some slot') :
    ∃ slot, vol.bcache[i]? = some slot ∧ slot'.physBno = slot.physBno ∧ slot'.data = slot.data ∧
      slot'.refcount.toNat = if slot.physBno = physBno then slot.refcount.toNat - 1 else slot.refcount.toNat := by
  cases there : vol.bcache[i]? with
  | none =>
    rw [fswBlockRelease, List.getElem?_map, there] at here
    cases here
  | some slot =>
    obtain ⟨found, at_, kept⟩ := released_slot physBno there
    obtain rfl := Option.some.inj (here.symm.trans at_)
    exact ⟨slot, rfl, kept⟩

theorem TableOk.released (ok : TableOk disk vol) : TableOk disk (fswBlockRelease vol physBno) := by
  constructor
  · intro i j a b here there same valid
    obtain ⟨a', here, numberA, _, _⟩ := slot_of_released here
    obtain ⟨b', there, numberB, _, _⟩ := slot_of_released there
    rw [numberA] at same valid
    exact ok.distinct here there (same.trans numberB) valid
  · intro i j a b buffer here there ours theirs
    obtain ⟨a', here, _, dataA, _⟩ := slot_of_released here
    obtain ⟨b', there, _, dataB, _⟩ := slot_of_released there
    exact ok.buffers here there (dataA.symm.trans ours) (dataB.symm.trans theirs)
  · intro i slot here valid
    obtain ⟨slot', here, number, data, _⟩ := slot_of_released here
    rw [number] at valid ⊢
    rw [data]
    exact ok.filled here valid

theorem outstanding_erase {buffer : Option Addr} (mem : (physBno, buffer) ∈ references) (other : UInt64) :
    outstanding (references.erase (physBno, buffer)) other =
      if other = physBno then outstanding references other - 1 else outstanding references other := by
  rw [outstanding, List.countP_erase]
  by_cases same : other = physBno
  · subst same
    simp [mem, outstanding]
  · have differs : physBno ≠ other := fun h => same h.symm
    simp [mem, same, differs, outstanding]

theorem RefsOk.released (ok : RefsOk vol references) {buffer : Option Addr}
    (mem : (physBno, buffer) ∈ references) :
    RefsOk (fswBlockRelease vol physBno) (references.erase (physBno, buffer)) := by
  constructor
  · intro i slot' here
    obtain ⟨slot, here, number, _, count⟩ := slot_of_released here
    rw [number, count, outstanding_erase mem, ok.counted here]
  · intro ref mem'
    obtain ⟨i, slot, here, number, data⟩ := ok.pinned (List.mem_of_mem_erase mem')
    obtain ⟨slot', there, number', data', _⟩ := released_slot physBno here
    exact ⟨i, slot', there, number'.trans number, data'.trans data⟩
  · intro ref mem'
    exact ok.numbers (List.mem_of_mem_erase mem')

theorem Pinned.released (vol : Volume) (physBno : UInt64) : Pinned vol (fswBlockRelease vol physBno) := by
  intro i slot here _
  obtain ⟨slot', there, number, data, _⟩ := released_slot physBno here
  exact ⟨slot', there, number, data, fun _ _ => rfl⟩

/-! ### Runs -/

/-- A release follows a get of its own, and a buffer that is handed out is not in use. -/
def Matched (st : Used) : Call → Prop
  | .get _ _ host => Fresh host st.vol
  | .release physBno buffer => (physBno, buffer) ∈ st.references

/-- The number is not that of the empty slots, the count of references has room for one more, and so has
the size of the table when it must grow. -/
def InRange (st : Used) : Call → Prop
  | .get physBno _ host =>
    physBno ≠ fswInvalidBno ∧ outstanding st.references physBno < 2 ^ 32 - 1 ∧
      (st.vol.bcache.findIdx? (·.physBno = physBno) = none → ¬Overflows host st.vol)
  | .release _ _ => True

instance (host : Host) (vol : Volume) : Decidable (Fresh host vol) := by
  unfold Fresh
  infer_instance

instance (host : Host) (vol : Volume) : Decidable (Overflows host vol) := by
  unfold Overflows
  infer_instance

instance (st : Used) : ∀ call, Decidable (Matched st call)
  | .get _ _ host => inferInstanceAs (Decidable (Fresh host st.vol))
  | .release physBno buffer => inferInstanceAs (Decidable ((physBno, buffer) ∈ st.references))

instance (st : Used) : ∀ call, Decidable (InRange st call)
  | .get physBno _ host => inferInstanceAs (Decidable (physBno ≠ fswInvalidBno ∧
      outstanding st.references physBno < 2 ^ 32 - 1 ∧
      (st.vol.bcache.findIdx? (·.physBno = physBno) = none → ¬Overflows host st.vol)))
  | .release _ _ => inferInstanceAs (Decidable True)

/-- No two slots have one valid number, and each reference is to a buffer with the block, in a slot that
counts as many references as are out. -/
structure Consistent (disk : UInt64 → List UInt8) (st : Used) : Prop where
  distinct : ∀ {i j : Nat} {a b : FswBlockcache}, st.vol.bcache[i]? = some a → st.vol.bcache[j]? = some b →
    a.physBno = b.physBno → a.physBno ≠ fswInvalidBno → i = j
  referenced : ∀ {ref : UInt64 × Option Addr}, ref ∈ st.references →
    ∃ (i : Nat) (slot : FswBlockcache) (buffer : Addr), st.vol.bcache[i]? = some slot ∧ slot.physBno = ref.1 ∧
      slot.data = some buffer ∧ ref.2 = some buffer ∧ st.vol.pool buffer = disk ref.1 ∧
      slot.refcount.toNat = outstanding st.references ref.1

/-- What the call leaves of the volume. -/
def Kept (disk : UInt64 → List UInt8) (st : Used) : Call → Prop
  | .get physBno cacheLevel host => GetKept disk st.vol physBno (fswBlockGet disk host st.vol physBno cacheLevel)
  | .release physBno _ => Pinned st.vol (fswBlockRelease st.vol physBno)

def CacheOk (disk : UInt64 → List UInt8) (st : Used) : Prop := TableOk disk st.vol ∧ RefsOk st.vol st.references

theorem CacheOk.consistent {st : Used} (ok : CacheOk disk st) : Consistent disk st := by
  obtain ⟨table, refs⟩ := ok
  refine ⟨table.distinct, fun {ref} mem => ?_⟩
  obtain ⟨i, slot, here, number, data⟩ := refs.pinned mem
  obtain ⟨buffer, data', held⟩ := table.filled here (number ▸ refs.numbers mem)
  rw [number] at held
  exact ⟨i, slot, buffer, here, number, data', data.symm.trans data', held, number ▸ refs.counted here⟩

theorem step_ok {st : Used} {call : Call} (ok : CacheOk disk st) (matched : Matched st call)
    (inRange : InRange st call) : CacheOk disk (st.step disk call) ∧ Kept disk st call := by
  cases call with
  | get physBno cacheLevel host =>
    obtain ⟨valid, few, fits⟩ := inRange
    have got : GetOk disk st.vol st.references physBno (fswBlockGet disk host st.vol physBno cacheLevel) :=
      fswBlockGet_ok ok.1 ok.2 matched valid few fits
    exact ⟨⟨got.table, got.refs⟩, got.kept⟩
  | release physBno buffer =>
    exact ⟨⟨ok.1.released, ok.2.released matched⟩, Pinned.released st.vol physBno⟩

/-- A volume as `fsw_mount` leaves it, without slots. -/
def mounted (pool : Addr → List UInt8) : Used := { vol := { bcache := [], pool }, references := [] }

theorem mounted_ok (pool : Addr → List UInt8) : CacheOk disk (mounted pool) :=
  ⟨⟨nofun, nofun, nofun⟩, ⟨nofun, nofun, nofun⟩⟩

/-- Along every run of calls in range the cache is consistent, and every call keeps what it must. -/
theorem fswBlock_run {pool : Addr → List UInt8} {calls : List Call}
    (steps : Along (Used.step disk) (fun st call => Matched st call ∧ InRange st call) (mounted pool) calls) :
    Visits (Used.step disk) (Consistent disk) (mounted pool) calls ∧
      Along (Used.step disk) (Kept disk) (mounted pool) calls := by
  have keep : ∀ st call, CacheOk disk st → Matched st call ∧ InRange st call → CacheOk disk (st.step disk call) :=
    fun _ _ ok met => (step_ok ok met.1 met.2).1
  constructor
  · exact (visits_of_along keep (mounted_ok pool) steps).weaken fun _ ok => ok.consistent
  · exact along_of_invariant keep (fun _ _ ok met => (step_ok ok met.1 met.2).2) (mounted_ok pool) steps

/-- The disk where each block is its number, which fits a byte. -/
def numbered (physBno : UInt64) : List UInt8 := [physBno.toUInt8]

/-- Two references to one block, a read that fails and a release. -/
def someCalls : List Call :=
  let host : Host := { table := true, buffer := some 1, readError := none, residue := [] }
  [.get 5 0 host, .get 5 2 { host with buffer := none },
    .get 6 1 { host with buffer := some 2, readError := some .ioError }, .release 5 (some 1)]

theorem fswBlock_run_some : Visits (Used.step numbered) (Consistent numbered) (mounted fun _ => []) someCalls ∧
    Along (Used.step numbered) (Kept numbered) (mounted fun _ => []) someCalls :=
  fswBlock_run (by decide)

/-- The number of the empty slots is found in the first one of them, which has no buffer. -/
theorem fswBlock_run_invalid : ∃ calls,
    Along (Used.step numbered) Matched (mounted fun _ => []) calls ∧
      ¬Along (Used.step numbered) (Kept numbered) (mounted fun _ => []) calls := by
  let host : Host := { table := true, buffer := some 1, readError := none, residue := [] }
  refine ⟨[.get 5 0 host, .get fswInvalidBno 0 { host with buffer := none }], by decide, ?_⟩
  rintro ⟨_, kept, _⟩
  obtain ⟨address, here, _⟩ := GetKept.delivered kept none (by decide)
  cases here

end Meridian.Fsw.Bcache
