import Meridian.Cache.Format
import Mathlib.Data.List.TakeWhile
import Mathlib.Tactic.NormNum

/-!
# Writing the menu cache and reading it back

The reader of a record is exact for the bytes that `SerializeRecords` appends, and the file's header
reads back as it was written.
-/

namespace Meridian.Cache

open Lib.Codec Lib.Reader Lib.Result

variable {buf : List UInt8} {live : Prop}

/-! ### Raw bytes and numbers -/

theorem readRaw_exact (n : Nat) :
    Exact buf live (readRaw buf n) id (fun bytes => bytes.length = n) fun _ => True where
  safe := by
    intro c within stop
    unfold Cursor.Within at within
    rw [readRaw] at stop
    split at stop
    · cases stop
    · rw [copyOut, slice, if_pos (by omega)] at stop
      cases stop
  sound := by
    intro c bytes c' within run
    have total := within
    unfold Cursor.Within at total
    rw [readRaw] at run
    split at run
    · cases run
    · rw [copyOut, slice, if_pos (by omega)] at run
      cases run
      refine ⟨?_, trivial, ?_, ?_⟩
      · show c.cur + n + (c.remaining - n) = buf.length
        omega
      · rw [List.length_take, List.length_drop]
        omega
      · show buf.drop c.cur = (buf.drop c.cur).take n ++ buf.drop (c.cur + n)
        rw [← List.drop_drop, List.take_append_drop]
  complete := by
    intro _ c bytes tail within _ length rest
    have total := within
    unfold Cursor.Within at total
    have fits : n ≤ c.remaining := by
      have lengths := congrArg List.length rest
      rw [within.length_rest, List.length_append] at lengths
      obtain rfl : bytes.length = n := length
      show bytes.length ≤ c.remaining
      have same : (id bytes).length = bytes.length := rfl
      omega
    refine ⟨⟨c.cur + n, c.remaining - n⟩, ?_, ?_, ?_⟩
    · have front : (buf.drop c.cur).take n = bytes := by
        show (c.rest buf).take n = bytes
        rw [rest, ← length]
        exact List.take_left
      rw [readRaw, if_neg (by omega), copyOut, slice, if_pos (by omega), front]
    · show c.cur + n + (c.remaining - n) = buf.length
      omega
    · show buf.drop (c.cur + n) = tail
      rw [← List.drop_drop]
      show (c.rest buf).drop n = tail
      rw [rest, ← length]
      exact List.drop_left

/-- A value that is read as a fixed count of bytes. -/
theorem readFixed_exact {α : Type} {n : Nat} {f : List UInt8 → α} {encode : α → List UInt8}
    (length : ∀ a, (encode a).length = n)
    (inverse : ∀ bytes : List UInt8, bytes.length = n → ∀ a, encode a = bytes ↔ a = f bytes) :
    Exact buf live (readRaw buf n >>= fun bytes => pure (f bytes)) encode (fun _ => True)
      fun _ => True := by
  have raw : Exact buf live (readRaw buf n) id (fun bytes => bytes.length = n) fun _ => True :=
    readRaw_exact n
  have both := Exact.bind (fun _ => True) encode raw fun bytes size =>
    Exact.pure (a := f bytes) fun a => by rw [true_and, inverse bytes size]
  apply both.congr
  · intro a
    exact List.append_nil _
  · intro a
    exact ⟨fun _ => trivial, fun _ => ⟨length a, trivial⟩⟩
  · intro a
    exact Iff.rfl

theorem toLe_eq_iff {n value : Nat} {bytes : List UInt8} (size : bytes.length = n)
    (small : value < 256 ^ n) : toLe n value = bytes ↔ value = ofLe bytes := by
  constructor
  · rintro rfl
    exact (ofLe_toLe small).symm
  · rintro rfl
    rw [← size]
    exact toLe_ofLe bytes

theorem readU8_exact :
    Exact buf live (readU8 buf) (fun v => toLe 1 v.toNat) (fun _ => True) fun _ => True := by
  have length (v : UInt8) := length_toLe 1 v.toNat
  apply readFixed_exact length
  intro bytes size v
  have bound : ofLe bytes < 256 ^ 1 := size ▸ ofLe_lt bytes
  rw [toLe_eq_iff size v.toNat_lt, ← UInt8.toNat_inj, UInt8.toNat_ofNat_of_lt' bound]

theorem readU32_exact :
    Exact buf live (readU32 buf) (fun v => toLe 4 v.toNat) (fun _ => True) fun _ => True := by
  have length (v : UInt32) := length_toLe 4 v.toNat
  apply readFixed_exact length
  intro bytes size v
  have bound : ofLe bytes < 256 ^ 4 := size ▸ ofLe_lt bytes
  rw [toLe_eq_iff size v.toNat_lt, ← UInt32.toNat_inj, UInt32.toNat_ofNat_of_lt' bound]

theorem readU64_exact :
    Exact buf live (readU64 buf) (fun v => toLe 8 v.toNat) (fun _ => True) fun _ => True := by
  have length (v : UInt64) := length_toLe 8 v.toNat
  apply readFixed_exact length
  intro bytes size v
  have wide : (256 : Nat) ^ 8 = 2 ^ 64 := by norm_num
  have bound : ofLe bytes < 2 ^ 64 := by
    rw [← wide, ← size]
    exact ofLe_lt bytes
  rw [toLe_eq_iff size (by rw [wide]; exact v.toNat_lt), ← UInt64.toNat_inj,
    UInt64.toNat_ofNat_of_lt' bound]

theorem readGuid_exact :
    Exact buf live (readGuid buf) (fun v => v.bytes) (fun _ => True) fun _ => True := by
  have raw : Exact buf live (readRaw buf 16) id (fun bytes => bytes.length = 16) fun _ => True :=
    readRaw_exact 16
  have rest : ∀ bytes : List UInt8, bytes.length = 16 →
      Exact buf live (if size : bytes.length = 16 then pure ⟨bytes, size⟩ else refuse)
        (fun _ : Guid => []) (fun _ => True) fun v => True ∧ v.bytes = bytes := by
    intro bytes size
    rw [dif_pos size]
    apply Exact.pure
    intro v
    cases v
    simp
  have both := Exact.bind (fun _ => True) Guid.bytes raw rest
  apply both.congr
  · intro v
    exact List.append_nil _
  · intro v
    exact ⟨fun _ => trivial, fun _ => ⟨v.size, trivial⟩⟩
  · intro v
    exact Iff.rfl

/-! ### Strings -/

theorem length_charBytes (str : List UInt16) : (charBytes str).length = 2 * str.length := by
  induction str with
  | nil => rfl
  | cons ch str ih =>
    rw [charBytes, List.flatMap_cons, List.length_append, length_toLe, List.length_cons]
    have rest : (str.flatMap fun ch => toLe 2 ch.toNat).length = 2 * str.length := ih
    omega

theorem toChars_charBytes (str : List UInt16) : toChars (charBytes str) = str := by
  induction str with
  | nil => rfl
  | cons ch str ih =>
    have bound := ch.toNat_lt
    have low : (UInt8.ofNat ch.toNat).toNat = ch.toNat % 256 := UInt8.toNat_ofNat
    have high : (UInt8.ofNat (ch.toNat / 256)).toNat = ch.toNat / 256 % 256 := UInt8.toNat_ofNat
    show UInt16.ofNat ((UInt8.ofNat ch.toNat).toNat + 256 * (UInt8.ofNat (ch.toNat / 256)).toNat) ::
      toChars (charBytes str) = ch :: str
    have head : ch.toNat % 256 + 256 * (ch.toNat / 256 % 256) = ch.toNat := by omega
    rw [low, high, head, ih, UInt16.ofNat_toNat]

theorem charBytes_toChars {n : Nat} {bytes : List UInt8} (size : bytes.length = 2 * n) :
    charBytes (toChars bytes) = bytes ∧ (toChars bytes).length = n := by
  induction n generalizing bytes with
  | zero =>
    obtain rfl := List.length_eq_zero_iff.mp size
    exact ⟨rfl, rfl⟩
  | succ n ih =>
    obtain ⟨low, bytes, rfl⟩ := List.exists_cons_of_length_eq_add_one size
    have size : bytes.length = 2 * n + 1 := by
      rw [List.length_cons] at size
      omega
    obtain ⟨high, bytes, rfl⟩ := List.exists_cons_of_length_eq_add_one size
    have size : bytes.length = 2 * n := by
      rw [List.length_cons] at size
      omega
    obtain ⟨same, length⟩ := ih size
    have lowBound := low.toNat_lt
    have highBound := high.toNat_lt
    have value : (UInt16.ofNat (low.toNat + 256 * high.toNat)).toNat =
        low.toNat + 256 * high.toNat := UInt16.toNat_ofNat_of_lt' (by
          show low.toNat + 256 * high.toNat < 65536
          omega)
    have pair : toLe 2 (low.toNat + 256 * high.toNat) = [low, high] := by
      have both := toLe_ofLe [low, high]
      have sum : ofLe [low, high] = low.toNat + 256 * high.toNat := by
        rw [ofLe, ofLe, ofLe, Nat.mul_zero, Nat.add_zero]
      rwa [sum] at both
    refine ⟨?_, by rw [toChars, List.length_cons, length]⟩
    show toLe 2 (UInt16.ofNat (low.toNat + 256 * high.toNat)).toNat ++ charBytes (toChars bytes) = _
    rw [value, pair, same]
    rfl

/-- What stands for a string in the file. -/
def encodeStr : Option (List UInt16) → List UInt8
  | none => toLe 4 0
  | some str => toLe 4 (2 * str.length) ++ charBytes str

/-- A string that the file can hold; an empty one is held as an absent one. -/
def StrFits : Option (List UInt16) → Prop
  | none => True
  | some str => str ≠ [] ∧ 2 * str.length < 2 ^ 32

theorem readChars_exact {alloc : Nat → Bool} (byteLen : Nat) (small : byteLen < 2 ^ 32) :
    Exact buf (∀ n, alloc n = true) (readChars buf alloc byteLen)
      (fun str => charBytes (str.getD [])) StrFits
      fun str => 2 * (str.getD []).length = byteLen where
  safe := by
    intro c within stop
    unfold Cursor.Within at within
    rw [readChars] at stop
    split at stop
    · cases stop
    split at stop
    · cases stop
    split at stop
    · cases stop
    · rename_i room _
      rw [copyOut, slice, if_pos (by omega)] at stop
      cases stop
  sound := by
    intro c str c' within run
    rw [readChars] at run
    split at run
    · rename_i empty
      cases run
      exact ⟨within, empty.symm, trivial, rfl⟩
    split at run
    · cases run
    split at run
    · cases run
    · rename_i nonzero bounded _
      have room : ¬ c.remaining < byteLen := by omega
      have raw := (readRaw_exact byteLen : Exact buf True (readRaw buf byteLen) id
        (fun bytes => bytes.length = byteLen) fun _ => True).sound c
      rw [readRaw, if_neg room] at raw
      split at run
      · rename_i bytes c₁ copied
        cases run
        obtain ⟨within', _, size, rest⟩ := raw bytes c' within copied
        have even : bytes.length = 2 * (byteLen / 2) := by
          show (bytes.length : Nat) = _
          have size : bytes.length = byteLen := size
          omega
        obtain ⟨same, length⟩ := charBytes_toChars even
        have total : 2 * (toChars bytes).length = byteLen := by omega
        refine ⟨within', total, ⟨?_, by omega⟩, ?_⟩
        · intro none
          rw [none, List.length_nil] at total
          omega
        · show c.rest buf = charBytes (toChars bytes) ++ c'.rest buf
          rw [same]
          exact rest
      · cases run
  complete := by
    intro alive c str tail within length fits rest
    cases str with
    | none =>
      obtain rfl : byteLen = 0 := length.symm
      refine ⟨c, ?_, within, rest⟩
      rw [readChars, if_pos rfl]
    | some str =>
      obtain ⟨nonempty, _⟩ := fits
      have positive := List.length_pos_iff.mpr nonempty
      have length : 2 * str.length = byteLen := length
      have size : (charBytes str).length = byteLen := (length_charBytes str).trans length
      have raw : Exact buf True (readRaw buf byteLen) id (fun bytes => bytes.length = byteLen)
          fun _ => True := readRaw_exact byteLen
      obtain ⟨c', run, within', rest'⟩ :=
        raw.complete trivial c (charBytes str) tail within trivial size rest
      refine ⟨c', ?_, within', rest'⟩
      rw [readRaw] at run
      split at run
      · cases run
      · rw [readChars, if_neg (by omega), if_neg (by omega), alive, if_neg (by simp), run]
        show Except.ok (some (toChars (charBytes str)), c') = _
        rw [toChars_charBytes]

theorem readStr_exact {alloc : Nat → Bool} :
    Exact buf (∀ n, alloc n = true) (readStr buf alloc) encodeStr StrFits fun _ => True := by
  have raw : Exact buf (∀ n, alloc n = true) (readRaw buf 4) id (fun bytes => bytes.length = 4)
      fun _ => True := readRaw_exact 4
  have rest : ∀ bytes : List UInt8, bytes.length = 4 →
      Exact buf (∀ n, alloc n = true) (readChars buf alloc (ofLe bytes))
        (fun str => charBytes (str.getD []))
        (fun str => StrFits str ∧ 2 * (str.getD []).length < 2 ^ 32)
        fun str => True ∧ toLe 4 (2 * (str.getD []).length) = bytes := by
    intro bytes size
    have bound : ofLe bytes < 256 ^ 4 := size ▸ ofLe_lt bytes
    have chars : Exact buf (∀ n, alloc n = true) (readChars buf alloc (ofLe bytes))
        (fun str => charBytes (str.getD [])) StrFits
        fun str => 2 * (str.getD []).length = ofLe bytes := readChars_exact (ofLe bytes) bound
    refine ⟨chars.safe, ?_, ?_⟩
    · intro c str c' within run
      obtain ⟨within', length, fits, rest⟩ := chars.sound c str c' within run
      have small : 2 * (str.getD []).length < 256 ^ 4 := by
        rw [length]
        exact bound
      exact ⟨within', ⟨trivial, (toLe_eq_iff size small).mpr length⟩, ⟨fits, small⟩, rest⟩
    · intro alive c str tail within given fits rest
      have length := (toLe_eq_iff size fits.2).mp given.2
      exact chars.complete alive c str tail within length fits.1 rest
  have both := Exact.bind (fun _ => True) (fun str : Option (List UInt16) =>
    toLe 4 (2 * (str.getD []).length)) raw rest
  apply both.congr
  · intro str
    cases str with
    | none => exact List.append_nil _
    | some str => rfl
  · intro str
    constructor
    · exact fun all => all.2.1
    · intro fits
      refine ⟨length_toLe 4 _, fits, ?_⟩
      cases str with
      | none => exact Nat.two_pow_pos 32
      | some str => exact fits.2
  · intro str
    exact Iff.rfl

/-! ### Records -/

/-- What stands for a record in the file. -/
def encodeRecord (record : CacheRecord) : List UInt8 :=
  toLe 1 record.osType.toNat ++ (toLe 4 record.tag.toNat ++ (toLe 4 record.row.toNat ++
    (record.partGuid.bytes ++ (record.volUuid.bytes ++ (encodeStr record.title ++
      (encodeStr record.loaderPath ++ (encodeStr record.loadOptions ++
        (encodeStr record.initrdPath ++ (toLe 8 record.loaderSize.toNat ++
          (toLe 8 record.loaderMtime.toNat ++ (toLe 8 record.initrdSize.toNat ++
            toLe 8 record.initrdMtime.toNat)))))))))))

structure CacheRecord.Fits (record : CacheRecord) : Prop where
  title : StrFits record.title
  loaderPath : StrFits record.loaderPath
  loadOptions : StrFits record.loadOptions
  initrdPath : StrFits record.initrdPath

theorem readRecord_exact (buf : List UInt8) (alloc : Nat → Bool) :
    Exact buf (∀ n, alloc n = true) (readRecord buf alloc) encodeRecord CacheRecord.Fits
      fun _ => True := by
  have str : Exact buf (∀ n, alloc n = true) (readStr buf alloc) encodeStr StrFits fun _ => True :=
    readStr_exact
  have fields := Exact.bind (fun _ => True) CacheRecord.osType readU8_exact fun osType _ =>
    Exact.bind _ CacheRecord.tag readU32_exact fun tag _ =>
    Exact.bind _ CacheRecord.row readU32_exact fun row _ =>
    Exact.bind _ CacheRecord.partGuid readGuid_exact fun partGuid _ =>
    Exact.bind _ CacheRecord.volUuid readGuid_exact fun volUuid _ =>
    Exact.bind _ CacheRecord.title str fun title _ =>
    Exact.bind _ CacheRecord.loaderPath str fun loaderPath _ =>
    Exact.bind _ CacheRecord.loadOptions str fun loadOptions _ =>
    Exact.bind _ CacheRecord.initrdPath str fun initrdPath _ =>
    Exact.bind _ CacheRecord.loaderSize readU64_exact fun loaderSize _ =>
    Exact.bind _ CacheRecord.loaderMtime readU64_exact fun loaderMtime _ =>
    Exact.bind _ CacheRecord.initrdSize readU64_exact fun initrdSize _ =>
    Exact.bind _ CacheRecord.initrdMtime readU64_exact fun initrdMtime _ =>
    Exact.pure (a := CacheRecord.mk osType tag row partGuid volUuid title loaderPath loadOptions
      initrdPath loaderSize loaderMtime initrdSize initrdMtime) fun record => by
        cases record
        simp only [CacheRecord.mk.injEq, true_and, and_assoc]
  apply fields.congr
  · intro record
    simp only [encodeRecord, List.append_nil]
  · intro record
    constructor
    · rintro ⟨_, _, _, _, _, title, loaderPath, loadOptions, initrdPath, _⟩
      exact ⟨title, loaderPath, loadOptions, initrdPath⟩
    · rintro ⟨title, loaderPath, loadOptions, initrdPath⟩
      exact ⟨trivial, trivial, trivial, trivial, trivial, title, loaderPath, loadOptions, initrdPath,
        trivial, trivial, trivial, trivial, trivial⟩
  · intro record
    exact Iff.rfl

/-- How a string comes back: an empty one is absent. -/
def strAsRead : Option (List UInt16) → Option (List UInt16)
  | some [] => none
  | str => str

def CacheRecord.asRead (record : CacheRecord) : CacheRecord :=
  { record with
    title := strAsRead record.title
    loaderPath := strAsRead record.loaderPath
    loadOptions := strAsRead record.loadOptions
    initrdPath := strAsRead record.initrdPath }

/-- What is kept of a string: its byte length is cut to 32 bits. -/
def strStored : Option (List UInt16) → Option (List UInt16)
  | none => none
  | some str => if 2 * str.length % 2 ^ 32 = 0 then none else some (str.take (str.length % 2 ^ 31))

def CacheRecord.stored (record : CacheRecord) : CacheRecord :=
  { record with
    title := strStored record.title
    loaderPath := strStored record.loaderPath
    loadOptions := strStored record.loadOptions
    initrdPath := strStored record.initrdPath }

/-- Every character is one before the terminating null. -/
def StrNonnull (str : Option (List UInt16)) : Prop := ∀ s, str = some s → ∀ ch ∈ s, ch ≠ 0

def StrShort (str : Option (List UInt16)) : Prop := ∀ s, str = some s → 2 * s.length < 2 ^ 32

structure CacheRecord.Nonnull (record : CacheRecord) : Prop where
  title : StrNonnull record.title
  loaderPath : StrNonnull record.loaderPath
  loadOptions : StrNonnull record.loadOptions
  initrdPath : StrNonnull record.initrdPath

structure CacheRecord.Short (record : CacheRecord) : Prop where
  title : StrShort record.title
  loaderPath : StrShort record.loaderPath
  loadOptions : StrShort record.loadOptions
  initrdPath : StrShort record.initrdPath

/-- The strings are terminated by their first null, and their byte lengths fit 32 bits. -/
def CacheRecord.Storable (record : CacheRecord) : Prop := record.Nonnull ∧ record.Short

theorem strStored_fits (str : Option (List UInt16)) : StrFits (strStored str) := by
  cases str with
  | none => exact trivial
  | some s =>
    rw [strStored]
    split
    · exact trivial
    · have length : (s.take (s.length % 2 ^ 31)).length = s.length % 2 ^ 31 := by
        rw [List.length_take, Nat.min_eq_left (Nat.mod_le _ _)]
      constructor
      · intro empty
        rw [empty, List.length_nil] at length
        omega
      · rw [length]
        omega

theorem CacheRecord.stored_fits (record : CacheRecord) : record.stored.Fits where
  title := strStored_fits record.title
  loaderPath := strStored_fits record.loaderPath
  loadOptions := strStored_fits record.loadOptions
  initrdPath := strStored_fits record.initrdPath

/-- A string comes back as it was when it is short, and only then is it one the file can hold. -/
theorem strStored_eq_iff (str : Option (List UInt16)) :
    strStored str = strAsRead str ↔ StrShort str := by
  match str with
  | none =>
    refine ⟨fun _ s h => ?_, fun _ => rfl⟩
    cases h
  | some [] =>
    refine ⟨fun _ s h => ?_, fun _ => rfl⟩
    cases h
    exact Nat.two_pow_pos 32
  | some (ch :: s) =>
    constructor
    · intro same s' h
      cases h
      have fits := strStored_fits (some (ch :: s))
      rw [same] at fits
      exact fits.2
    · intro short
      have bound : 2 * (ch :: s).length < 2 ^ 32 := short _ rfl
      have positive : (ch :: s).length = s.length + 1 := List.length_cons
      rw [strStored, if_neg (by omega), List.take_of_length_le (by omega)]
      rfl

theorem CacheRecord.stored_eq_iff (record : CacheRecord) :
    record.stored = record.asRead ↔ record.Short := by
  have parts : record.stored = record.asRead ↔ strStored record.title = strAsRead record.title ∧
      strStored record.loaderPath = strAsRead record.loaderPath ∧
      strStored record.loadOptions = strAsRead record.loadOptions ∧
      strStored record.initrdPath = strAsRead record.initrdPath := by
    simp only [CacheRecord.stored, CacheRecord.asRead, CacheRecord.mk.injEq, true_and, and_true]
  rw [parts]
  simp only [strStored_eq_iff]
  constructor
  · rintro ⟨title, loaderPath, loadOptions, initrdPath⟩
    exact ⟨title, loaderPath, loadOptions, initrdPath⟩
  · rintro ⟨title, loaderPath, loadOptions, initrdPath⟩
    exact ⟨title, loaderPath, loadOptions, initrdPath⟩

theorem map_stored_eq_iff (records : List CacheRecord) :
    records.map CacheRecord.stored = records.map CacheRecord.asRead ↔ ∀ r ∈ records, r.Short := by
  rw [List.map_inj_left]
  simp only [CacheRecord.stored_eq_iff]

theorem charBytes_take (str : List UInt16) (n : Nat) :
    (charBytes str).take (2 * n) = charBytes (str.take n) := by
  induction n generalizing str with
  | zero => rfl
  | succ n ih =>
    cases str with
    | nil => rfl
    | cons ch str =>
      have pair : charBytes (ch :: str) = toLe 2 ch.toNat ++ charBytes str := List.flatMap_cons
      have front : (toLe 2 ch.toNat).take (2 * (n + 1)) = toLe 2 ch.toNat :=
        List.take_of_length_le (by rw [length_toLe]; omega)
      have back : 2 * (n + 1) - (toLe 2 ch.toNat).length = 2 * n := by
        rw [length_toLe]
        omega
      rw [pair, List.take_append, front, back, ih, List.take_succ_cons]
      rfl

theorem appendStr_eq {str : Option (List UInt16)} (nonnull : StrNonnull str) (body : List UInt8) :
    appendStr body str = body ++ encodeStr (strStored str) := by
  cases str with
  | none => rfl
  | some s =>
    have length : strLen s = s.length := by
      rw [strLen, List.takeWhile_eq_self_iff.mpr]
      intro x mem
      exact decide_eq_true (nonnull s rfl x mem)
    have byteLen : strLen s * 2 % 2 ^ 32 = 2 * (s.length % 2 ^ 31) := by
      rw [length]
      omega
    show (if strLen s * 2 % 2 ^ 32 > 0 then
        appendBytes (appendU32 body (strLen s * 2 % 2 ^ 32))
          ((charBytes s).take (strLen s * 2 % 2 ^ 32))
      else appendU32 body (strLen s * 2 % 2 ^ 32)) = _
    rw [byteLen, strStored]
    by_cases empty : 2 * s.length % 2 ^ 32 = 0
    · have zero : 2 * (s.length % 2 ^ 31) = 0 := by omega
      rw [if_pos empty, zero, if_neg (Nat.lt_irrefl 0)]
      rfl
    · have kept : (s.take (s.length % 2 ^ 31)).length = s.length % 2 ^ 31 := by
        rw [List.length_take, Nat.min_eq_left (Nat.mod_le _ _)]
      rw [if_neg empty, if_pos (by omega), charBytes_take]
      show body ++ toLe 4 _ ++ charBytes _ = body ++ (toLe 4 (2 * List.length _) ++ charBytes _)
      rw [kept]
      exact List.append_assoc body _ _

theorem appendRecord_eq {record : CacheRecord} (h : record.Nonnull) (body : List UInt8) :
    appendRecord body record = body ++ encodeRecord record.stored := by
  have byte : toLe 1 record.osType.toNat = [record.osType] := by
    rw [toLe, toLe, UInt8.ofNat_toNat]
  simp only [appendRecord, appendStr_eq h.title, appendStr_eq h.loaderPath,
    appendStr_eq h.loadOptions, appendStr_eq h.initrdPath, appendBytes, appendU32, appendU64,
    encodeRecord, CacheRecord.stored, byte, List.append_assoc]

theorem appendRecords_eq {records : List CacheRecord} (h : ∀ r ∈ records, r.Nonnull)
    (body : List UInt8) :
    records.foldl appendRecord body =
      body ++ (records.map CacheRecord.stored).flatMap encodeRecord := by
  induction records generalizing body with
  | nil => exact (List.append_nil body).symm
  | cons r records ih =>
    obtain ⟨first, rest⟩ := List.forall_mem_cons.mp h
    rw [List.foldl_cons, ih rest, appendRecord_eq first, List.map_cons, List.flatMap_cons,
      List.append_assoc]

/-! ### The header -/

/-- The fields fit the header's widths. -/
structure CacheFileHeader.Fits (header : CacheFileHeader) : Prop where
  magic : header.magic < 256 ^ 8
  formatVersion : header.formatVersion < 256 ^ 4
  fingerprint : header.fingerprint < 256 ^ 4
  buildId : header.buildId < 256 ^ 4
  entryCount : header.entryCount < 256 ^ 4
  flags : header.flags < 256 ^ 4
  headerCrc32 : header.headerCrc32 < 256 ^ 4
  bodyCrc32 : header.bodyCrc32 < 256 ^ 4

theorem CacheFileHeader.length_bytes (header : CacheFileHeader) :
    header.bytes.length = cacheHeaderSize := by
  simp only [CacheFileHeader.bytes, List.length_append, length_toLe, cacheHeaderSize]

theorem CacheFileHeader.ofBytes_bytes {header : CacheFileHeader} (h : header.Fits) :
    CacheFileHeader.ofBytes header.bytes = header := by
  cases header
  simp [CacheFileHeader.ofBytes, CacheFileHeader.bytes, List.drop_append, List.take_of_length_le,
    List.drop_of_length_le, ofLe_toLe h.magic, ofLe_toLe h.formatVersion, ofLe_toLe h.fingerprint,
    ofLe_toLe h.buildId, ofLe_toLe h.entryCount, ofLe_toLe h.flags, ofLe_toLe h.headerCrc32,
    ofLe_toLe h.bodyCrc32]

/-! ### The file -/

variable {crc : List UInt8 → UInt32} {fingerprint buildId : UInt32}

/-- The header of a file that `ParseBuffer` takes for its own. -/
structure Accepted (crc : List UInt8 → UInt32) (buf : List UInt8) (fingerprint buildId : UInt32) :
    Prop where
  size : cacheHeaderSize ≤ buf.length
  magic : (CacheFileHeader.ofBytes (buf.take cacheHeaderSize)).magic = cacheMagic
  formatVersion : (CacheFileHeader.ofBytes (buf.take cacheHeaderSize)).formatVersion = cacheVersion
  headerCrc32 : (CacheFileHeader.ofBytes (buf.take cacheHeaderSize)).headerCrc32 =
    (crc ((buf.take cacheHeaderSize).take cacheHeaderCrcLen)).toNat
  buildId : (CacheFileHeader.ofBytes (buf.take cacheHeaderSize)).buildId = buildId.toNat
  bodyCrc32 : (CacheFileHeader.ofBytes (buf.take cacheHeaderSize)).bodyCrc32 =
    bodyCrcOf crc (buf.drop cacheHeaderSize)
  fingerprint : (CacheFileHeader.ofBytes (buf.take cacheHeaderSize)).fingerprint = fingerprint.toNat
  nonempty : (CacheFileHeader.ofBytes (buf.take cacheHeaderSize)).entryCount ≠ 0

/-- An error leaves no records and a zero count. -/
def Parsed.Failed (parsed : Parsed) : Prop :=
  parsed.status ≠ .success ∧ parsed.records = [] ∧ parsed.count = 0

theorem Parsed.fail_failed {reason : String} {status : CacheStatus} (h : status ≠ .success) :
    (Parsed.fail reason status).Failed :=
  ⟨h, rfl, rfl⟩

/-- The record loop's outcome, once the header was accepted. -/
def parseRecords (alloc : Nat → Bool) (buf : List UInt8) (count : Nat) : Except Stop Parsed :=
  match readMany (readRecord buf alloc) count ⟨cacheHeaderSize, buf.length - cacheHeaderSize⟩ with
  | .ok (records, _) => .ok { status := .success, records, count }
  | .error .refused => .ok (.fail "corrupt record" .crcError)
  | .error .outOfBounds => .error .outOfBounds

/-- A check that fails ends the parse, and what it failed for does not hold. -/
theorem check_cases {bad taken accepted : Prop} [Decidable bad] {rest loop : Except Stop Parsed}
    {reason : String} {status : CacheStatus} (error : status ≠ .success) (refused : bad → ¬taken)
    (passed : ¬bad → (∃ parsed, rest = .ok parsed ∧ parsed.Failed ∧ ¬taken) ∨ (accepted ∧ rest = loop)) :
    (∃ parsed, (if bad then pure (Parsed.fail reason status) else rest) = .ok parsed ∧ parsed.Failed ∧ ¬taken) ∨
      (accepted ∧ (if bad then pure (Parsed.fail reason status) else rest) = loop) := by
  by_cases failed : bad
  · rw [if_pos failed]
    exact .inl ⟨_, rfl, Parsed.fail_failed error, refused failed⟩
  · rw [if_neg failed]
    exact passed failed

/-- Either one of the checks fails, or the header is accepted and the loop decides. -/
theorem parseBuffer_cases (crc : List UInt8 → UInt32) (alloc : Nat → Bool) (buf : List UInt8)
    (fingerprint buildId : UInt32) :
    (∃ parsed, parseBuffer crc alloc (some buf) fingerprint buildId = .ok parsed ∧ parsed.Failed ∧
      ¬ (Accepted crc buf fingerprint buildId ∧ ∀ n, alloc n = true)) ∨
    (Accepted crc buf fingerprint buildId ∧
      parseBuffer crc alloc (some buf) fingerprint buildId = parseRecords alloc buf
        (CacheFileHeader.ofBytes (buf.take cacheHeaderSize)).entryCount) := by
  by_cases size : buf.length < cacheHeaderSize
  · left
    refine ⟨_, if_pos size, Parsed.fail_failed (by decide), ?_⟩
    rintro ⟨accepted, _⟩
    exact absurd accepted.size (by omega)
  have fits : cacheHeaderSize ≤ buf.length := by omega
  have head : slice buf 0 cacheHeaderSize = .ok (buf.take cacheHeaderSize) := by
    rw [slice, if_pos (by omega), List.drop_zero]
  have body : slice buf cacheHeaderSize (buf.length - cacheHeaderSize) =
      .ok (buf.drop cacheHeaderSize) := by
    rw [slice, if_pos (by omega), List.take_of_length_le (by rw [List.length_drop])]
  have entry : parseBuffer crc alloc (some buf) fingerprint buildId =
      parseFile crc alloc buf fingerprint buildId := if_neg size
  rw [entry, parseFile, head]
  simp only [bind, Except.bind, body]
  refine check_cases (by decide) (fun bad h => bad h.1.magic) fun magic => ?_
  refine check_cases (by decide) (fun bad h => bad h.1.formatVersion) fun version => ?_
  refine check_cases (by decide) (fun bad h => bad h.1.headerCrc32) fun headerCrc => ?_
  refine check_cases (by decide) (fun bad h => bad h.1.buildId) fun build => ?_
  refine check_cases (by decide) (fun bad h => bad h.1.bodyCrc32) fun bodyCrc => ?_
  refine check_cases (by decide) (fun bad h => bad h.1.fingerprint) fun fp => ?_
  refine check_cases (by decide) (fun bad h => h.1.nonempty bad) fun empty => ?_
  refine check_cases (by decide) (fun bad h => ?_) fun room => ?_
  · rw [h.2] at bad
    exact absurd bad (by decide)
  · right
    refine ⟨⟨fits, ?_, ?_, ?_, ?_, ?_, ?_, empty⟩, rfl⟩
    · exact not_not.mp magic
    · exact not_not.mp version
    · exact not_not.mp headerCrc
    · exact not_not.mp build
    · exact not_not.mp bodyCrc
    · exact not_not.mp fp

/-- The records of a parsed file are all that its header counts, decoded from the bytes after it. -/
structure Parsed.Complete (parsed : Parsed) (buf : List UInt8) : Prop where
  status : parsed.status = .success
  count : parsed.count = (CacheFileHeader.ofBytes (buf.take cacheHeaderSize)).entryCount
  length : parsed.records.length = parsed.count
  fits : ∀ r ∈ parsed.records, r.Fits
  decoded : ∃ rest, buf.drop cacheHeaderSize = parsed.records.flatMap encodeRecord ++ rest

theorem bodyCursor_within {buf : List UInt8} (size : cacheHeaderSize ≤ buf.length) :
    Cursor.Within ⟨cacheHeaderSize, buf.length - cacheHeaderSize⟩ buf := by
  show cacheHeaderSize + (buf.length - cacheHeaderSize) = buf.length
  omega

/-- Whatever the buffer, the parser stays inside it, and returns all of the records or none. -/
theorem parseBuffer_total (crc : List UInt8 → UInt32) (alloc : Nat → Bool)
    (buf : Option (List UInt8)) (fingerprint buildId : UInt32) :
    ∃ parsed, parseBuffer crc alloc buf fingerprint buildId = .ok parsed ∧
      (parsed.Failed ∨ ∃ bytes, buf = some bytes ∧ parsed.Complete bytes) := by
  cases buf with
  | none => exact ⟨_, rfl, .inl (Parsed.fail_failed (by decide))⟩
  | some buf =>
    obtain ⟨parsed, run, failed, _⟩ | ⟨accepted, run⟩ :=
      parseBuffer_cases crc alloc buf fingerprint buildId
    · exact ⟨parsed, run, .inl failed⟩
    have within := bodyCursor_within accepted.size
    have many := readMany_exact (readRecord_exact buf alloc)
      (CacheFileHeader.ofBytes (buf.take cacheHeaderSize)).entryCount
    rw [run, parseRecords]
    split
    · rename_i records c' read
      obtain ⟨_, length, fits, bytes⟩ := many.sound _ records c' within read
      exact ⟨_, rfl, .inr ⟨buf, rfl, rfl, rfl, length, fits, _, bytes⟩⟩
    · exact ⟨_, rfl, .inl (Parsed.fail_failed (by decide))⟩
    · rename_i stopped
      exact absurd stopped (many.safe _ within)

theorem CacheFileHeader.take_bytes (header : CacheFileHeader) :
    header.bytes.take cacheHeaderCrcLen = toLe 8 header.magic ++ (toLe 4 header.formatVersion ++
      (toLe 4 header.fingerprint ++ (toLe 4 header.buildId ++ (toLe 4 header.entryCount ++
        toLe 4 header.flags)))) := by
  simp [CacheFileHeader.bytes, cacheHeaderCrcLen, List.take_append, List.take_of_length_le]

/-- The header of a written file. -/
structure CacheFileHeader.WrittenFor (header : CacheFileHeader) (crc : List UInt8 → UInt32)
    (body : List UInt8) (count : Nat) (fingerprint buildId : UInt32) : Prop where
  fits : header.Fits
  magic : header.magic = cacheMagic
  formatVersion : header.formatVersion = cacheVersion
  headerCrc32 : header.headerCrc32 = (crc (header.bytes.take cacheHeaderCrcLen)).toNat
  buildId : header.buildId = buildId.toNat
  bodyCrc32 : header.bodyCrc32 = bodyCrcOf crc body
  fingerprint : header.fingerprint = fingerprint.toNat
  entryCount : header.entryCount = count % 2 ^ 32

theorem bodyCrcOf_lt (crc : List UInt8 → UInt32) (body : List UInt8) :
    bodyCrcOf crc body < 2 ^ 32 := by
  rw [bodyCrcOf]
  split
  · exact (crc body).toNat_lt
  · exact Nat.two_pow_pos 32

/-- The bytes after the header. -/
def storedBody (records : List CacheRecord) : List UInt8 :=
  (records.map CacheRecord.stored).flatMap encodeRecord

theorem serializeRecords_ok {records : List CacheRecord} (nonnull : ∀ r ∈ records, r.Nonnull)
    (crc : List UInt8 → UInt32) (alloc : Nat → Bool) (fingerprint buildId : UInt32) :
    ∃ header : CacheFileHeader, header.WrittenFor crc (storedBody records) records.length fingerprint
        buildId ∧
      serializeRecords crc alloc records fingerprint buildId =
        if alloc (cacheHeaderSize + (storedBody records).length) then
          .ok (header.bytes ++ storedBody records)
        else .error .outOfResources := by
  have body : records.foldl appendRecord [] = storedBody records := by
    rw [appendRecords_eq nonnull, List.nil_append, storedBody]
  rw [serializeRecords, body]
  refine ⟨_, ?_, rfl⟩
  refine ⟨⟨?_, ?_, ?_, ?_, ?_, ?_, ?_, ?_⟩, rfl, rfl, ?_, rfl, rfl, rfl, rfl⟩
  · show cacheMagic < 256 ^ 8
    decide
  · show cacheVersion < 256 ^ 4
    decide
  · exact fingerprint.toNat_lt
  · exact buildId.toNat_lt
  · exact Nat.mod_lt _ (Nat.two_pow_pos 32)
  · exact Nat.two_pow_pos 32
  · exact (crc _).toNat_lt
  · exact bodyCrcOf_lt crc _
  · rw [CacheFileHeader.take_bytes, CacheFileHeader.take_bytes]

variable {header : CacheFileHeader} {body body' : List UInt8} {count : Nat}
  {records : List CacheRecord}

theorem take_header (header : CacheFileHeader) (body : List UInt8) :
    (header.bytes ++ body).take cacheHeaderSize = header.bytes := by
  rw [← header.length_bytes, List.take_left]

theorem drop_header (header : CacheFileHeader) (body : List UInt8) :
    (header.bytes ++ body).drop cacheHeaderSize = body := by
  rw [← header.length_bytes, List.drop_left]

/-- When the parser accepts a written header, in front of any bytes. -/
theorem accepted_iff {fingerprint' buildId' : UInt32}
    (written : header.WrittenFor crc body count fingerprint buildId) (body' : List UInt8) :
    Accepted crc (header.bytes ++ body') fingerprint' buildId' ↔
      fingerprint' = fingerprint ∧ buildId' = buildId ∧ count % 2 ^ 32 ≠ 0 ∧
        bodyCrcOf crc body' = bodyCrcOf crc body := by
  constructor
  · intro accepted
    have fp := accepted.fingerprint
    have build := accepted.buildId
    have nonempty := accepted.nonempty
    have sum := accepted.bodyCrc32
    rw [drop_header] at sum
    rw [take_header, CacheFileHeader.ofBytes_bytes written.fits] at fp build nonempty sum
    rw [written.fingerprint] at fp
    rw [written.buildId] at build
    rw [written.entryCount] at nonempty
    rw [written.bodyCrc32] at sum
    exact ⟨UInt32.toNat_inj.mp fp.symm, UInt32.toNat_inj.mp build.symm, nonempty, sum.symm⟩
  · rintro ⟨rfl, rfl, nonempty, sum⟩
    refine ⟨?_, ?_, ?_, ?_, ?_, ?_, ?_, ?_⟩
    · rw [List.length_append, header.length_bytes]
      exact Nat.le_add_right _ _
    all_goals rw [take_header, CacheFileHeader.ofBytes_bytes written.fits]
    · exact written.magic
    · exact written.formatVersion
    · exact written.headerCrc32
    · exact written.buildId
    · rw [drop_header, sum]
      exact written.bodyCrc32
    · exact written.fingerprint
    · rw [written.entryCount]
      exact nonempty

theorem parseBuffer_rejects {fingerprint' buildId' : UInt32} {buf : List UInt8}
    (rejected : ¬ Accepted crc buf fingerprint' buildId') (alloc : Nat → Bool) :
    ∃ parsed, parseBuffer crc alloc (some buf) fingerprint' buildId' = .ok parsed ∧
      parsed.Failed := by
  obtain ⟨parsed, run, failed, _⟩ | ⟨accepted, _⟩ :=
    parseBuffer_cases crc alloc buf fingerprint' buildId'
  · exact ⟨parsed, run, failed⟩
  · exact absurd accepted rejected

/-- Behind an accepted header, the records are read back, whatever follows them. -/
theorem parseBuffer_reads {tail : List UInt8} {fingerprint' buildId' : UInt32}
    (fits : ∀ r ∈ records, r.Fits)
    (written : header.WrittenFor crc body records.length fingerprint buildId)
    (accepted : Accepted crc (header.bytes ++ (records.flatMap encodeRecord ++ tail)) fingerprint'
      buildId')
    (few : records.length < 2 ^ 32) {alloc : Nat → Bool} (room : ∀ n, alloc n = true) :
    parseBuffer crc alloc (some (header.bytes ++ (records.flatMap encodeRecord ++ tail))) fingerprint'
      buildId' = .ok { status := .success, records, count := records.length } := by
  obtain ⟨_, _, _, refused⟩ | ⟨_, run⟩ := parseBuffer_cases crc alloc
    (header.bytes ++ (records.flatMap encodeRecord ++ tail)) fingerprint' buildId'
  · exact absurd ⟨accepted, room⟩ refused
  rw [take_header, CacheFileHeader.ofBytes_bytes written.fits, written.entryCount,
    Nat.mod_eq_of_lt few] at run
  have many := readMany_exact
    (readRecord_exact (header.bytes ++ (records.flatMap encodeRecord ++ tail)) alloc) records.length
  obtain ⟨c', read, _, _⟩ := many.complete room _ records tail (bodyCursor_within accepted.size) rfl
    fits (drop_header header _)
  rw [run, parseRecords, read]

/-- Fewer than 2^32 records are read back as they were written, except that an empty string comes
back absent; another build id or fingerprint is rejected; and no buffer whatsoever makes the parser
read outside it or return part of the records. -/
theorem parseBuffer_serializeRecords (crc : List UInt8 → UInt32) (fingerprint buildId : UInt32) :
    (∀ alloc records, (∀ n, alloc n = true) → records ≠ [] → records.length < 2 ^ 32 →
      (∀ r ∈ records, CacheRecord.Storable r) →
      ∃ buf, serializeRecords crc alloc records fingerprint buildId = .ok buf ∧
        parseBuffer crc alloc (some buf) fingerprint buildId = .ok {
          status := .success, records := records.map CacheRecord.asRead, count := records.length } ∧
        ∀ fingerprint' buildId', ¬ (fingerprint' = fingerprint ∧ buildId' = buildId) →
          ∃ parsed, parseBuffer crc alloc (some buf) fingerprint' buildId' = .ok parsed ∧
            parsed.Failed) ∧
    ∀ alloc buf, ∃ parsed, parseBuffer crc alloc buf fingerprint buildId = .ok parsed ∧
      (parsed.Failed ∨ ∃ bytes, buf = some bytes ∧ parsed.Complete bytes) := by
  constructor
  · intro alloc records room nonempty few storable
    have nonnull : ∀ r ∈ records, r.Nonnull := fun r mem => (storable r mem).1
    have short := (map_stored_eq_iff records).mpr fun r mem => (storable r mem).2
    obtain ⟨header, written, run⟩ := serializeRecords_ok nonnull crc alloc fingerprint buildId
    rw [if_pos (room _)] at run
    have length : (records.map CacheRecord.stored).length = records.length := List.length_map _
    have fits : ∀ r ∈ records.map CacheRecord.stored, r.Fits := by
      intro r mem
      obtain ⟨source, _, rfl⟩ := List.mem_map.mp mem
      exact source.stored_fits
    refine ⟨_, run, ?_, ?_⟩
    · have positive := List.length_pos_iff.mpr nonempty
      have counted : records.length % 2 ^ 32 ≠ 0 := by
        rw [Nat.mod_eq_of_lt few]
        omega
      have accepted := (accepted_iff written (storedBody records)).mpr ⟨rfl, rfl, counted, rfl⟩
      rw [← length] at written few ⊢
      rw [← short]
      have bytes : storedBody records = (records.map CacheRecord.stored).flatMap encodeRecord ++ [] :=
        (List.append_nil _).symm
      rw [bytes] at accepted ⊢
      exact parseBuffer_reads fits written accepted few room
    · intro fingerprint' buildId' other
      apply parseBuffer_rejects
      intro accepted
      obtain ⟨fp, build, _⟩ := (accepted_iff written _).mp accepted
      exact other ⟨fp, build⟩
  · intro alloc buf
    exact parseBuffer_total crc alloc buf fingerprint buildId

/-- A record with an empty title, a loader path and no other strings. -/
def sampleRecord : CacheRecord where
  osType := 76
  tag := 1
  row := 0
  partGuid := zeroGuid
  volUuid := zeroGuid
  title := some []
  loaderPath := some [92, 108]
  loadOptions := none
  initrdPath := none
  loaderSize := 5
  loaderMtime := 6
  initrdSize := 0
  initrdMtime := 0

theorem sampleRecord_nonnull : sampleRecord.Nonnull where
  title := by
    rintro s ⟨⟩ ch mem
    exact absurd mem List.not_mem_nil
  loaderPath := by
    rintro s ⟨⟩ ch mem
    rcases List.mem_cons.mp mem with rfl | mem
    · decide
    · rcases List.mem_cons.mp mem with rfl | mem
      · decide
      · exact absurd mem List.not_mem_nil
  loadOptions := by rintro s ⟨⟩
  initrdPath := by rintro s ⟨⟩

theorem sampleRecord_short : sampleRecord.Short where
  title := by
    rintro s ⟨⟩
    decide
  loaderPath := by
    rintro s ⟨⟩
    decide
  loadOptions := by rintro s ⟨⟩
  initrdPath := by rintro s ⟨⟩

theorem parseBuffer_serializeRecords_sample :
    ∃ buf, serializeRecords (fun _ => 7) (fun _ => true) [sampleRecord] 1 2 = .ok buf ∧
      parseBuffer (fun _ => 7) (fun _ => true) (some buf) 1 2 = .ok {
        status := .success, records := [sampleRecord.asRead], count := 1 } := by
  obtain ⟨buf, written, read, _⟩ := (parseBuffer_serializeRecords (fun _ => 7) 1 2).1 (fun _ => true)
    [sampleRecord] (fun _ => rfl) (List.cons_ne_nil _ _) (by decide)
    (List.forall_mem_singleton.mpr ⟨sampleRecord_nonnull, sampleRecord_short⟩)
  exact ⟨buf, written, read⟩

/-- The header's count has 32 bits, so that 2^32 records are written as none. -/
theorem parseBuffer_entryCount_wraps :
    ¬ ∃ buf, serializeRecords (fun _ => 7) (fun _ => true) (List.replicate (2 ^ 32) sampleRecord) 1 2 =
        .ok buf ∧
      parseBuffer (fun _ => 7) (fun _ => true) (some buf) 1 2 = .ok {
        status := .success
        records := (List.replicate (2 ^ 32) sampleRecord).map CacheRecord.asRead
        count := (List.replicate (2 ^ 32) sampleRecord).length } := by
  rintro ⟨buf, run, read⟩
  have nonnull : ∀ r ∈ List.replicate (2 ^ 32) sampleRecord, r.Nonnull := by
    intro r mem
    rw [List.eq_of_mem_replicate mem]
    exact sampleRecord_nonnull
  obtain ⟨header, written, run'⟩ := serializeRecords_ok nonnull (fun _ => 7) (fun _ => true) 1 2
  rw [if_pos rfl] at run'
  obtain rfl := Except.ok.inj (run'.symm.trans run)
  rw [List.length_replicate] at written
  have rejected : ¬ Accepted (fun _ => 7)
      (header.bytes ++ storedBody (List.replicate (2 ^ 32) sampleRecord)) 1 2 := by
    intro accepted
    obtain ⟨_, _, counted, _⟩ := (accepted_iff written _).mp accepted
    exact counted (Nat.mod_self _)
  obtain ⟨parsed, failed, error, _, _⟩ := parseBuffer_rejects rejected fun _ => true
  have same := Except.ok.inj (failed.symm.trans read)
  exact error (congrArg Parsed.status same)

end Meridian.Cache
