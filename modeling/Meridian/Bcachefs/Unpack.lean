import Meridian.Bcachefs.InBounds
import Meridian.Lib.TopBits

/-!
# Unpacking a key

A packed key is a number of a few words with the six fields at its top. The walk of
`bcachefs_unpack_key` takes each field off the top bits that are left, over the end of a word too,
and so returns the fields of every key that fits its format.
-/

namespace Meridian.Bcachefs

open Fsw Lib.Codec Lib.Result Lib.TopBits
open Lib.Word (sub64)

/-! ### One field -/

variable {V n l r bits : Nat} {words : List Nat} {st : BitState}

/-- The words of a number, lowest first. -/
def WordsOf (words : List Nat) (V : Nat) : Prop :=
  ∀ n < words.length, words.getD n 0 = V / 2 ^ (64 * n) % 2 ^ 64

/-- The variables with all words below word `n` left, and the low `l` bits of that one. -/
def stateAt (V n l : Nat) : BitState where
  word := n
  w := V / 2 ^ (64 * n) % 2 ^ l * 2 ^ (64 - l)
  bitsLeft := l

/-- The variables with `r` bits left. -/
inductive Left (V : Nat) : Nat → BitState → Prop where
  | done : Left V 0 { word := -1, w := 0, bitsLeft := 64 }
  | within {n l : Nat} (some : 0 < l) (most : l ≤ 64) : Left V (64 * n + l) (stateAt V n l)

theorem top_word (le : bits ≤ l) :
    top V (64 * n + l) bits = V / 2 ^ (64 * n) % 2 ^ l / 2 ^ (l - bits) := by
  rw [top, show 64 * n + l - bits = 64 * n + (l - bits) by omega, Nat.pow_add, Nat.pow_add,
    ← Nat.div_div_eq_div_mul, Nat.mod_mul_right_div_self]

/-- The bits that the shift gives are the top ones of the word. -/
theorem shift_word (le : bits ≤ l) (most : l ≤ 64) :
    (stateAt V n l).w >>> (64 - bits) = top V (64 * n + l) bits := by
  have factor : 2 ^ (64 - bits) = 2 ^ (l - bits) * 2 ^ (64 - l) := by
    rw [← Nat.pow_add, show l - bits + (64 - l) = 64 - bits by omega]
  rw [stateAt, Nat.shiftRight_eq_div_pow, factor,
    Nat.mul_div_mul_right _ _ (Nat.two_pow_pos _), top_word le]

/-- A field wider than what is left of the word takes all of it. -/
theorem shift_all (le : l ≤ bits) (most : bits ≤ 64) :
    (stateAt V n l).w >>> (64 - bits) = top V (64 * n + l) l * 2 ^ (bits - l) := by
  have factor : 2 ^ (64 - l) = 2 ^ (bits - l) * 2 ^ (64 - bits) := by
    rw [← Nat.pow_add, show bits - l + (64 - bits) = 64 - l by omega]
  rw [stateAt, Nat.shiftRight_eq_div_pow, factor, ← Nat.mul_assoc,
    Nat.mul_div_cancel _ (Nat.two_pow_pos _), top_word (Nat.le_refl l), Nat.sub_self, Nat.pow_zero,
    Nat.div_one]

theorem stateAt_shift (lt : bits < l) (most : l ≤ 64) :
    { stateAt V n l with w := u64 ((stateAt V n l).w <<< bits), bitsLeft := l - bits } =
      stateAt V n (l - bits) := by
  have factor : 2 ^ 64 = 2 ^ (l - bits) * 2 ^ (64 - (l - bits)) := by
    rw [← Nat.pow_add, Nat.add_sub_cancel' (by omega)]
  have moved : 2 ^ (64 - l) * 2 ^ bits = 2 ^ (64 - (l - bits)) := by
    rw [← Nat.pow_add, show 64 - l + bits = 64 - (l - bits) by omega]
  simp only [stateAt, BitState.mk.injEq, true_and, and_true]
  rw [u64, Nat.shiftLeft_eq, Nat.mul_assoc, moved, factor, Nat.mul_mod_mul_right,
    Nat.mod_mod_of_dvd _ (Nat.pow_dvd_pow 2 (Nat.sub_le l bits))]

theorem stateAt_next (wordsOf : WordsOf words V) (within : n < words.length) :
    { word := n, w := wordAt words n, bitsLeft := 64 : BitState } = stateAt V n 64 := by
  rw [stateAt, wordAt, if_pos (Int.natCast_nonneg n), Int.toNat_natCast, wordsOf n within,
    Nat.sub_self, Nat.pow_zero, Nat.mul_one]

/-- The second half of the step: the top bits of a word of which more is left. -/
theorem lower_bits (v : Nat) (lt : bits < l) (most : l ≤ 64) :
    v * 2 ^ bits ||| ((stateAt V n l).w >>> 1) >>> (63 - bits) =
      v * 2 ^ bits + top V (64 * n + l) bits := by
  have once : ((stateAt V n l).w >>> 1) >>> (63 - bits) = (stateAt V n l).w >>> (64 - bits) := by
    rw [← Nat.shiftRight_add, show 1 + (63 - bits) = 64 - bits by omega]
  rw [once, shift_word (Nat.le_of_lt lt) most]
  exact Lib.Word.or_low (Nat.mul_mod_left _ _) (top_lt (by omega))

/-- The second half of a step, with the bits still to take at the top of the word. -/
def fromWord (v : Nat) (st : BitState) (bits offset : Nat) : Nat × BitState :=
  if bits ≠ 0 then
    (u64 ((v ||| (st.w >>> 1) >>> (63 - bits)) + offset),
      { st with w := u64 (st.w <<< bits), bitsLeft := st.bitsLeft - bits })
  else (u64 (v + offset), st)

theorem unpackField_lt (lt : bits < st.bitsLeft) (offset : Nat) :
    unpackField words st bits offset = fromWord 0 st bits offset := by
  rw [unpackField, if_neg (Nat.not_le_of_lt lt), fromWord]
  dsimp only
  split <;> rfl

theorem unpackField_ge (some : bits ≠ 0) (ge : st.bitsLeft ≤ bits) (offset : Nat) :
    unpackField words st bits offset =
      fromWord (st.w >>> (64 - bits))
        { word := st.word - 1, w := wordAt words (st.word - 1), bitsLeft := 64 } (bits - st.bitsLeft) offset := by
  rw [unpackField, if_pos ge, if_pos some, fromWord]
  dsimp only
  split <;> rfl

theorem fromWord_stateAt (v offset : Nat) (lt : bits < l) (most : l ≤ 64) :
    fromWord (v * 2 ^ bits) (stateAt V n l) bits offset =
      (u64 (v * 2 ^ bits + top V (64 * n + l) bits + offset), stateAt V n (l - bits)) := by
  rw [fromWord]
  by_cases none : bits = 0
  · subst none
    rw [if_neg (not_not.mpr rfl), top_zero, Nat.add_zero, Nat.sub_zero]
  · rw [if_pos none, lower_bits v lt most]
    exact congrArg (Prod.mk _) (stateAt_shift lt most)

/-- A step takes the field off the bits that are left. -/
theorem unpackField_left (wordsOf : WordsOf words V) (left : Left V r st) (inside : r ≤ 64 * words.length)
    (offset : Nat) (narrow : bits ≤ 64) (le : bits ≤ r) :
    ∃ next, unpackField words st bits offset = (u64 (top V r bits + offset), next) ∧ Left V (r - bits) next := by
  cases left with
  | done =>
    obtain rfl := Nat.le_zero.mp le
    refine ⟨_, ?_, .done⟩
    rw [top_zero]
    rfl
  | @within n l some most =>
    by_cases lt : bits < l
    · refine ⟨stateAt V n (l - bits), ?_, ?_⟩
      · have taken := fromWord_stateAt (V := V) (n := n) 0 offset lt most
        rw [Nat.zero_mul, Nat.zero_add] at taken
        rw [unpackField_lt lt, taken]
      · rw [show 64 * n + l - bits = 64 * n + (l - bits) by omega]
        exact .within (by omega) (by omega)
    have ge : l ≤ bits := Nat.le_of_not_lt lt
    have step : unpackField words (stateAt V n l) bits offset =
        fromWord (top V (64 * n + l) l * 2 ^ (bits - l))
          { word := (n : Int) - 1, w := wordAt words (n - 1), bitsLeft := 64 } (bits - l) offset := by
      rw [← shift_all ge narrow]
      exact unpackField_ge (by omega) ge offset
    cases n with
    | zero =>
      -- The last word ends with this field.
      obtain rfl : bits = l := by omega
      rw [show 64 * 0 + bits - bits = 0 by omega]
      refine ⟨_, ?_, .done⟩
      rw [step, Nat.sub_self, fromWord, if_neg (not_not.mpr rfl), Nat.pow_zero, Nat.mul_one]
      rfl
    | succ n =>
      have next := stateAt_next (n := n) wordsOf (by omega)
      rw [show ((n + 1 : Nat) : Int) - 1 = n by omega, next] at step
      have upper : top V (64 * (n + 1) + l) bits =
          top V (64 * (n + 1) + l) l * 2 ^ (bits - l) + top V (64 * n + 64) (bits - l) := by
        have sum := top_add (n := V) (r := 64 * (n + 1) + l) (b := l) (c := bits - l) (by omega)
        rwa [Nat.add_sub_cancel' ge, Nat.add_sub_cancel, Nat.mul_add] at sum
      refine ⟨stateAt V n (64 - (bits - l)), ?_, ?_⟩
      · rw [step, fromWord_stateAt _ _ (by omega) (Nat.le_refl 64), upper]
      · rw [show 64 * (n + 1) + l - bits = 64 * n + (64 - (bits - l)) by omega]
        exact .within (by omega) (by omega)

/-! ### The walk -/

/-- The fields that are packed: each value less its offset, by the width that the format gives it. -/
def packedFields (bits offsets fields : List Nat) : List (Nat × Nat) :=
  bits.zip (List.zipWith sub64 fields offsets)

theorem u64_sub64 {field offset : Nat} (small : field < 2 ^ 64) (small' : offset < 2 ^ 64) :
    u64 (sub64 field offset + offset) = field := by
  rw [u64, sub64]
  omega

theorem unpackFields_left {bits offsets fields : List Nat} (wordsOf : WordsOf words V) (left : Left V r st)
    (inside : r ≤ 64 * words.length) (sizes : bits.length = offsets.length)
    (sizes' : fields.length = offsets.length) (narrow : ∀ b ∈ bits, b ≤ 64)
    (offsetsFit : ∀ offset ∈ offsets, offset < 2 ^ 64) (fieldsFit : ∀ field ∈ fields, field < 2 ^ 64)
    (fit : Fit (packedFields bits offsets fields)) (room : width (packedFields bits offsets fields) ≤ r)
    (stored : top V r (width (packedFields bits offsets fields)) = join (packedFields bits offsets fields)) :
    unpackFields words st (bits.zip offsets) = .ok fields := by
  induction bits generalizing offsets fields r st with
  | nil =>
    obtain rfl := List.length_eq_zero_iff.mp sizes.symm
    obtain rfl := List.length_eq_zero_iff.mp sizes'
    rfl
  | cons b bits ih =>
    obtain ⟨offset, offsets, rfl⟩ := List.exists_cons_of_length_eq_add_one sizes.symm
    obtain ⟨field, fields, rfl⟩ := List.exists_cons_of_length_eq_add_one sizes'
    obtain ⟨first, rest⟩ := (top_cons fit room).mp stored
    have space := room
    rw [packedFields, List.zipWith_cons_cons, List.zip_cons_cons, width_cons] at space
    have most := narrow b List.mem_cons_self
    obtain ⟨next, taken, left'⟩ := unpackField_left wordsOf left inside offset most (by omega)
    have value := u64_sub64 (fieldsFit field List.mem_cons_self) (offsetsFit offset List.mem_cons_self)
    rw [first, value] at taken
    have later := ih left' (by omega) (Nat.succ.inj sizes) (Nat.succ.inj sizes')
      (fun b mem => narrow b (List.mem_cons_of_mem _ mem))
      (fun o mem => offsetsFit o (List.mem_cons_of_mem _ mem))
      (fun f mem => fieldsFit f (List.mem_cons_of_mem _ mem))
      (fun f mem => fit f (List.mem_cons_of_mem _ mem)) (by rw [packedFields]; omega) rest
    rw [List.zip_cons_cons, unpackFields, if_neg (Nat.not_lt_of_le most), taken]
    dsimp only
    rw [later]
    rfl

/-- The words that the walk reads after the one it starts with. -/
def wordsRead (words : List Nat) (st : BitState) : List (Nat × Nat) → List Nat
  | [] => []
  | (bits, offset) :: fields =>
    if bits > 64 then []
    else (if bits ≥ st.bitsLeft ∧ st.word - 1 ≥ 0 then [(st.word - 1).toNat] else []) ++
      wordsRead words (unpackField words st bits offset).2 fields

theorem unpackField_word (words : List Nat) (st : BitState) (bits offset : Nat) :
    (unpackField words st bits offset).2.word ≤ st.word := by
  rw [unpackField]
  dsimp only
  split <;> dsimp only <;> split <;> dsimp only <;> omega

/-- The walk goes down from the word that it starts with, whatever the format says. -/
theorem wordsRead_below {st : BitState} {limit : Nat} (below : st.word < limit) (fields : List (Nat × Nat)) :
    ∀ n ∈ wordsRead words st fields, n < limit := by
  induction fields generalizing st with
  | nil => exact nofun
  | cons field fields ih =>
    obtain ⟨bits, offset⟩ := field
    rw [wordsRead]
    split
    · exact nofun
    have later := ih ((unpackField_word words st bits offset).trans_lt below)
    intro n mem
    rcases List.mem_append.mp mem with here | after
    · split at here
      · obtain rfl := List.mem_singleton.mp here
        omega
      · cases here
    · exact later n after

/-! ### The words of a key -/

variable {buf : List UInt8} {p fin : Nat}

theorem le_take {pos size : Nat} (inside : pos + size ≤ fin) (bounded : fin ≤ buf.length) :
    le (buf.take fin) pos size = .ok (ofLe ((buf.drop pos).take size)) := by
  rw [le, bytesAt_ok (by rw [List.length_take]; omega), List.drop_take, List.take_take,
    Nat.min_eq_left (by omega)]

/-- The first words from a position on. -/
def wordsAt (buf : List UInt8) (p k : Nat) : List Nat :=
  (List.range k).map fun i => ofLe ((buf.drop (p + i * 8)).take 8)

theorem length_wordsAt (buf : List UInt8) (p k : Nat) : (wordsAt buf p k).length = k := by
  simp [wordsAt]

theorem readWords {k : Nat} (inside : p + k * 8 ≤ fin) (bounded : fin ≤ buf.length) :
    ((List.range k).mapM fun i => le (buf.take fin) (p + i * 8) 8) = .ok (wordsAt buf p k) := by
  apply mapM_ok
  intro i mem
  have below := List.mem_range.mp mem
  exact le_take (by omega) bounded

theorem wordsAt_wordsOf (buf : List UInt8) (p k : Nat) :
    WordsOf (wordsAt buf p k) (ofLe ((buf.drop p).take (k * 8))) := by
  intro n below
  rw [length_wordsAt] at below
  have word : ((((buf.drop p).take (k * 8)).drop (8 * n)).take 8) = (buf.drop (p + n * 8)).take 8 := by
    rw [List.drop_take, List.take_take, List.drop_drop, Nat.min_eq_left (by omega), Nat.mul_comm 8 n]
  rw [wordsAt, List.getD_eq_getElem?_getD, List.getElem?_map, List.getElem?_range below, Option.map_some,
    Option.getD_some, ← word, ofLe_take, ofLe_drop, show 256 = 2 ^ 8 from rfl, ← Nat.pow_mul,
    ← Nat.pow_mul, ← Nat.mul_assoc]

/-- A key with all its fields. -/
structure Bkey where
  inode : Nat
  offset : Nat
  snapshot : Nat
  size : Nat
  versionHi : Nat
  versionLo : Nat
  inode_lt : inode < 2 ^ 64
  offset_lt : offset < 2 ^ 64
  snapshot_lt : snapshot < 2 ^ 32
  size_lt : size < 2 ^ 32
  versionHi_lt : versionHi < 2 ^ 32
  versionLo_lt : versionLo < 2 ^ 64

/-- The fields in the order of `bits_per_field`. -/
def Bkey.fields (key : Bkey) : List Nat :=
  [key.inode, key.offset, key.snapshot, key.size, key.versionHi, key.versionLo]

def BkeyFormat.packed (format : BkeyFormat) (key : Bkey) : List (Nat × Nat) :=
  packedFields format.bitsPerField format.fieldOffset key.fields

/-- A key of this format at a position of a node: the fields are the top bits of its words. -/
structure PackedKey (buf : List UInt8) (p fin : Nat) (format : BkeyFormat) (key : Bkey) : Prop where
  bounded : fin ≤ buf.length
  positive : 0 < format.keyU64s
  most : format.keyU64s ≤ 8
  six : format.nrFields = 6
  bits : format.bitsPerField.length = 6
  offsets : format.fieldOffset.length = 6
  narrow : ∀ b ∈ format.bitsPerField, b ≤ 64
  offsetsFit : ∀ offset ∈ format.fieldOffset, offset < 2 ^ 64
  fit : Fit (format.packed key)
  room : width (format.packed key) ≤ 64 * format.keyU64s
  units : format.keyU64s ≤ ofLe ((buf.drop p).take 1)
  inside : p + ofLe ((buf.drop p).take 1) * 8 ≤ fin
  isLocal : ofLe ((buf.drop (p + 1)).take 1) % 128 = keyFormatLocal
  stored : top (ofLe ((buf.drop p).take (format.keyU64s * 8))) (64 * format.keyU64s)
    (width (format.packed key)) = join (format.packed key)

variable {format : BkeyFormat} {key : Bkey}

theorem Bkey.fields_lt (key : Bkey) : ∀ field ∈ key.fields, field < 2 ^ 64 := by
  have snapshot := key.snapshot_lt
  have size := key.size_lt
  have version := key.versionHi_lt
  simp only [Bkey.fields, List.forall_mem_cons, List.not_mem_nil, false_implies, implies_true, and_true]
  exact ⟨key.inode_lt, key.offset_lt, by omega, by omega, by omega, key.versionLo_lt⟩

/-- The variables before the first field. -/
def walkStart (format : BkeyFormat) (words : List Nat) : BitState where
  word := (format.keyU64s - 1 : Nat)
  w := wordAt words (format.keyU64s - 1 : Nat)
  bitsLeft := 64

/-- The walk over a packed key gives its six fields. -/
theorem PackedKey.walk (packed : PackedKey buf p fin format key) :
    unpackFields (wordsAt buf p format.keyU64s) (walkStart format (wordsAt buf p format.keyU64s))
      (format.bitsPerField.zip format.fieldOffset) = .ok key.fields := by
  have positive := packed.positive
  have wordsOf := wordsAt_wordsOf buf p format.keyU64s
  have count := length_wordsAt buf p format.keyU64s
  generalize wordsAt buf p format.keyU64s = words at wordsOf count ⊢
  have stored := packed.stored
  generalize ofLe ((buf.drop p).take (format.keyU64s * 8)) = V at wordsOf stored
  have start : walkStart format words = stateAt V (format.keyU64s - 1) 64 :=
    stateAt_next wordsOf (by omega)
  have all : 64 * (format.keyU64s - 1) + 64 = 64 * format.keyU64s := by omega
  have left : Left V (64 * format.keyU64s) (walkStart format words) := by
    rw [start, ← all]
    exact .within (by decide) (Nat.le_refl 64)
  exact unpackFields_left wordsOf left (by rw [count]) (packed.bits.trans packed.offsets.symm)
    packed.offsets.symm packed.narrow packed.offsetsFit key.fields_lt packed.fit packed.room stored

/-- The key that `bcachefs_unpack_key` returns has these fields, and no version. -/
theorem PackedKey.unpack (packed : PackedKey buf p fin format key) :
    bcachefsUnpackKey buf p format fin = .ok ({
      u64s := ofLe ((buf.drop p).take 1)
      format := keyFormatLocal
      type := ofLe ((buf.drop (p + 2)).take 1)
      size := key.size
      p := { inode := key.inode, offset := key.offset, snapshot := key.snapshot } }, format.keyU64s * 8) := by
  have walk := packed.walk
  have positive := packed.positive
  have most := packed.most
  have inside := packed.inside
  have units := packed.units
  have bounded := packed.bounded
  have six := packed.six
  have form := packed.isLocal
  have other : keyFormatLocal ≠ keyFormatCurrent := by decide
  rw [bcachefsUnpackKey, if_neg (by omega)]
  dsimp only
  rw [le_take (by omega) bounded, ok_bind, le_take (by omega) bounded, ok_bind, le_take (by omega) bounded,
    ok_bind, if_neg (by omega), form, if_neg other, if_neg (by omega), readWords (by omega) bounded, ok_bind]
  rw [walkStart] at walk
  rw [walk, ok_bind]
  have snapshot : u32 key.snapshot = key.snapshot := Nat.mod_eq_of_lt key.snapshot_lt
  have size : u32 key.size = key.size := Nat.mod_eq_of_lt key.size_lt
  simp [Bkey.fields, snapshot, size]
  rfl

/-- Nothing behind the last unit of a key has a part in what is read of it. -/
theorem unpackKey_limit {u64s : Nat} (format : BkeyFormat) (bounded : fin ≤ buf.length)
    (read : ofLe ((buf.drop p).take 1) = u64s) (some : 0 < u64s) (inside : p + u64s * 8 ≤ fin) :
    bcachefsUnpackKey buf p format (p + u64s * 8) = bcachefsUnpackKey buf p format fin := by
  have bounded' : p + u64s * 8 ≤ buf.length := inside.trans bounded
  have same : ∀ pos size, pos + size ≤ p + u64s * 8 →
      le (buf.take (p + u64s * 8)) pos size = le (buf.take fin) pos size := fun pos size within => by
    rw [le_take within bounded', le_take (within.trans inside) bounded]
  rw [bcachefsUnpackKey, bcachefsUnpackKey, if_neg (by omega), if_neg (by omega)]
  dsimp only
  rw [same p 1 (by omega), same (p + 1) 1 (by omega), same (p + 2) 1 (by omega), le_take (by omega) bounded,
    read, ok_bind, ok_bind]
  congr 1
  funext formatByte
  congr 1
  funext type
  refine ite_congr (by simp [some.ne', inside]) (fun _ => rfl) fun _ => ?_
  refine ite_congr rfl (fun _ => ite_congr rfl (fun _ => rfl) fun current => ?_)
    fun _ => ite_congr rfl (fun _ => rfl) fun units => ?_
  · have five : bkeyU64s = 5 := rfl
    rw [same (p + 16) 4 (by omega), same (p + 20) 4 (by omega), same (p + 24) 8 (by omega),
      same (p + 32) 8 (by omega)]
  · rw [readWords (by omega) bounded', readWords (by omega) bounded]

/-- Unpacking a key that fits its format gives all of the key but its version, and no format and no
bytes lead it outside the key. -/
theorem unpackKey_fields :
    (∀ {buf : List UInt8} {p fin : Nat} {format : BkeyFormat} {key : Bkey}, PackedKey buf p fin format key →
      unpackFields (wordsAt buf p format.keyU64s) (walkStart format (wordsAt buf p format.keyU64s))
        (format.bitsPerField.zip format.fieldOffset) = .ok key.fields ∧
      bcachefsUnpackKey buf p format fin = .ok ({
        u64s := ofLe ((buf.drop p).take 1)
        format := keyFormatLocal
        type := ofLe ((buf.drop (p + 2)).take 1)
        size := key.size
        p := { inode := key.inode, offset := key.offset, snapshot := key.snapshot } }, format.keyU64s * 8)) ∧
    ∀ (buf : List UInt8) (p fin : Nat) (format : BkeyFormat), fin ≤ buf.length →
      Safe (bcachefsUnpackKey buf p format fin) ∧
      (∀ {u64s : Nat}, ofLe ((buf.drop p).take 1) = u64s → 0 < u64s → p + u64s * 8 ≤ fin →
        Safe (bcachefsUnpackKey buf p format (p + u64s * 8)) ∧
        bcachefsUnpackKey buf p format (p + u64s * 8) = bcachefsUnpackKey buf p format fin) ∧
      ∀ words fields, 0 < format.keyU64s →
        ∀ n ∈ wordsRead words (walkStart format words) fields, n < format.keyU64s := by
  refine ⟨fun packed => ⟨packed.walk, packed.unpack⟩, fun buf p fin format bounded =>
    ⟨unpackKey_safe format p bounded, fun read some inside =>
      ⟨unpackKey_safe format p (inside.trans bounded), unpackKey_limit format bounded read some inside⟩, ?_⟩⟩
  intro words fields positive
  apply wordsRead_below
  rw [walkStart]
  dsimp only
  omega

/-- Two words: a 24-bit inode, a 32-bit offset and 16 bits of each version field, after 24 bits of header. -/
def narrowFormat : BkeyFormat where
  keyU64s := 2
  nrFields := 6
  bitsPerField := [24, 32, 0, 0, 16, 16]
  fieldOffset := [4096, 0, 4294967295, 0, 0, 0]

def narrowKey (version : Nat) (h : version < 2 ^ 16) : Bkey where
  inode := 4098
  offset := 7
  snapshot := 4294967295
  size := 0
  versionHi := 0
  versionLo := version
  inode_lt := by decide
  offset_lt := by decide
  snapshot_lt := by decide
  size_lt := by decide
  versionHi_lt := by decide
  versionLo_lt := h.trans (by decide)

/-- The inode less its offset is two and the snapshot takes no bits. -/
def narrowBytes (version : UInt8) : List UInt8 :=
  [2, 0, keyTypeDirent.toUInt8, 0, 0, version, 0, 0, 0, 7, 0, 0, 0, 2, 0, 0]

theorem narrow_packed (version : UInt8) :
    PackedKey (narrowBytes version) 0 16 narrowFormat
      (narrowKey version.toNat (version.toNat_lt.trans (by decide))) := by
  have small := version.toNat_lt
  have fields : narrowFormat.packed (narrowKey version.toNat (small.trans (by decide))) =
      [(24, 2), (32, 7), (0, 0), (0, 0), (16, 0), (16, version.toNat)] := by
    simp [BkeyFormat.packed, packedFields, narrowFormat, narrowKey, Bkey.fields, sub64]
  refine ⟨by rfl, by decide, by decide, rfl, rfl, rfl, by decide, by decide, ?_, ?_, ?_, ?_, ?_, ?_⟩
  · rw [fields]
    simp [Fit]
    omega
  · rw [fields]
    exact (by decide : 88 ≤ 128)
  · exact (by decide : 2 ≤ 2)
  · exact (by decide : 16 ≤ 16)
  · exact (by decide : 0 = 0)
  · rw [fields]
    simp [top, width, join, narrowFormat, narrowBytes, ofLe]
    omega

/-- A packed key that the walk reads over the end of a word. -/
theorem unpackKey_fields_narrow :
    PackedKey (narrowBytes 3) 0 16 narrowFormat (narrowKey 3 (by decide)) ∧
      bcachefsUnpackKey (narrowBytes 3) 0 narrowFormat 16 = .ok ({
        u64s := 2
        format := keyFormatLocal
        type := keyTypeDirent
        size := 0
        p := { inode := 4098, offset := 7, snapshot := 4294967295 } }, 16) ∧
      Safe (bcachefsUnpackKey (narrowBytes 3) 0 narrowFormat 16) :=
  ⟨narrow_packed 3, (unpackKey_fields.1 (narrow_packed 3)).2,
    (unpackKey_fields.2 (narrowBytes 3) 0 16 narrowFormat (Nat.le_refl 16)).1⟩

/-- Two keys that differ in the version are unpacked to the same key. -/
theorem unpackKey_no_version :
    PackedKey (narrowBytes 1) 0 16 narrowFormat (narrowKey 1 (by decide)) ∧
      PackedKey (narrowBytes 2) 0 16 narrowFormat (narrowKey 2 (by decide)) ∧
      (narrowKey 1 (by decide)).versionLo ≠ (narrowKey 2 (by decide)).versionLo ∧
      bcachefsUnpackKey (narrowBytes 1) 0 narrowFormat 16 =
        bcachefsUnpackKey (narrowBytes 2) 0 narrowFormat 16 :=
  ⟨narrow_packed 1, narrow_packed 2, by decide,
    (narrow_packed 1).unpack.trans (narrow_packed 2).unpack.symm⟩

end Meridian.Bcachefs
