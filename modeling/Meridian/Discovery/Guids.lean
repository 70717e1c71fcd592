import Meridian.Discovery.HexDigits

/-!
# GUIDs as strings

The model of `GuidAsString` of `lib/str_guid.c`, against `StringAsGuid` and `IsGuid`, and what follows
for `VolumeMatchesDescription`. Whether the conversion `%x` of the library writes capitals is a
parameter. Allocations succeed.
-/

namespace Meridian.Discovery

open Text

/-- `GuidAsString`; the array has eight bytes. -/
def guidAsString (upper : Bool) (guid : EfiGuid) : Str :=
  hexField upper 8 guid.data1.toNat ++ '-' :: (hexField upper 4 guid.data2.toNat ++
    '-' :: (hexField upper 4 guid.data3.toNat ++
      '-' :: ((guid.data4.take 2).flatMap fun byte => hexField upper 2 byte.toNat) ++
        '-' :: (guid.data4.drop 2).flatMap fun byte => hexField upper 2 byte.toNat))

/-- The strings of 8-4-4-4-12 hexadecimal digits. -/
def GuidFormat (s : Str) : Prop :=
  ∃ a b c d e, s = a ++ '-' :: (b ++ '-' :: (c ++ '-' :: (d ++ '-' :: e))) ∧
    [a, b, c, d, e].map List.length = [8, 4, 4, 4, 12] ∧ ∀ part ∈ [a, b, c, d, e], AllHex part

/-! ### The layout -/

/-- The fields that `StringAsGuid` reads. -/
structure GuidFields where
  a : Str
  b : Str
  c : Str
  bytes : List Str

def GuidFields.text (f : GuidFields) : Str :=
  f.a ++ '-' :: (f.b ++ '-' :: (f.c ++ '-' :: ((f.bytes.take 2).flatten ++ '-' :: (f.bytes.drop 2).flatten)))

def GuidFields.guid (f : GuidFields) : EfiGuid where
  data1 := .ofNat (hexValue f.a)
  data2 := .ofNat (hexValue f.b)
  data3 := .ofNat (hexValue f.c)
  data4 := f.bytes.map fun byte => .ofNat (hexValue byte)

/-- The fields have their lengths and consist of digits. -/
structure GuidFields.Proper (f : GuidFields) : Prop where
  a : f.a.length = 8 ∧ AllHex f.a
  b : f.b.length = 4 ∧ AllHex f.b
  c : f.c.length = 4 ∧ AllHex f.c
  eight : f.bytes.length = 8
  bytes : ∀ byte ∈ f.bytes, byte.length = 2 ∧ AllHex byte

theorem drop_behind {s part rest : Str} {p n k : Nat} (here : s.drop p = part ++ rest) (length : part.length = n) :
    s.drop (p + (n + k)) = rest.drop k := by
  rw [← List.drop_drop, here, ← length, List.drop_length_add_append]

theorem getSubStrAfter_absent {s : Str} (absent : 'x' ∉ s) : getSubStrAfter "0x".toList s = s := by
  have nowhere : mrdStrFind s "0x".toList = none := by
    rw [mrdStrFind, Lib.Search.find_eq_none_iff]
    exact fun inside => absent (inside.subset (by decide))
  rw [getSubStrAfter, getDelimiter_of_visible (by decide), nowhere]

theorem strToHex_absent {s : Str} (absent : 'x' ∉ s) (pos : Nat) {n : Nat} (few : 0 < n ∧ n ≤ 16) :
    strToHex s pos n = hexLoop n 0 (s.drop pos) := by
  rw [strToHex, getSubStrAfter_absent absent, if_neg (by omega)]

theorem read_field {s part rest : Str} {pos n : Nat} (absent : 'x' ∉ s) (few : 0 < n ∧ n ≤ 16)
    (here : s.drop pos = part ++ rest) (proper : part.length = n ∧ AllHex part) :
    strToHex s pos n = hexValue part := by
  rw [strToHex_absent absent pos few, here, hexLoop_field proper.2 proper.1]

theorem GuidFields.Proper.chars {f : GuidFields} (proper : f.Proper) :
    ∀ c ∈ f.text, c = '-' ∨ (hexDigit c).isSome = true := by
  intro c mem
  have byte (l : List Str) (sub : l ⊆ f.bytes) (inside : c ∈ l.flatten) : (hexDigit c).isSome = true := by
    obtain ⟨part, listed, here⟩ := List.mem_flatten.mp inside
    exact (proper.bytes part (sub listed)).2 c here
  simp only [GuidFields.text, List.mem_append, List.mem_cons] at mem
  obtain inside | dash | inside | dash | inside | dash | inside | dash | inside := mem
  · exact .inr (proper.a.2 c inside)
  · exact .inl dash
  · exact .inr (proper.b.2 c inside)
  · exact .inl dash
  · exact .inr (proper.c.2 c inside)
  · exact .inl dash
  · exact .inr (byte _ (List.take_subset _ _) inside)
  · exact .inl dash
  · exact .inr (byte _ (List.drop_subset _ _) inside)

theorem GuidFields.Proper.noX {f : GuidFields} (proper : f.Proper) : 'x' ∉ f.text := by
  intro mem
  obtain dash | digit := proper.chars 'x' mem
  · exact absurd dash (by decide)
  · exact absurd digit (by decide)

theorem isGuid_iff (s : Str) :
    isGuid s = true ↔ s.length = 36 ∧ ∀ i ∈ [8, 13, 18, 23], s[i]? = some '-' := by
  rw [isGuid, Bool.and_eq_true, List.all_eq_true, decide_eq_true_iff]
  simp only [decide_eq_true_iff]

theorem eight_items {α : Type} {l : List α} (h : l.length = 8) :
    ∃ b0 b1 b2 b3 b4 b5 b6 b7, l = [b0, b1, b2, b3, b4, b5, b6, b7] := by
  match l, h with
  | [b0, b1, b2, b3, b4, b5, b6, b7], _ => exact ⟨b0, b1, b2, b3, b4, b5, b6, b7, rfl⟩

/-- The strings that consist of proper fields are accepted, and every field is read where it is. -/
theorem stringAsGuid_text {f : GuidFields} (proper : f.Proper) :
    isGuid f.text = true ∧ stringAsGuid f.text = f.guid := by
  have noX := proper.noX
  obtain ⟨a, b, c, bytes⟩ := f
  obtain ⟨aProper, bProper, cProper, eight, pairs⟩ := proper
  obtain ⟨b0, b1, b2, b3, b4, b5, b6, b7, rfl⟩ := eight_items eight
  simp only [List.forall_mem_cons] at pairs
  obtain ⟨p0, p1, p2, p3, p4, p5, p6, p7, -⟩ := pairs
  have at0 : (GuidFields.text ⟨a, b, c, [b0, b1, b2, b3, b4, b5, b6, b7]⟩).drop 0 =
      a ++ '-' :: (b ++ '-' :: (c ++ '-' :: (b0 ++ (b1 ++
        '-' :: (b2 ++ (b3 ++ (b4 ++ (b5 ++ (b6 ++ (b7 ++ [])))))))))) := by
    simp [GuidFields.text]
  generalize GuidFields.text ⟨a, b, c, [b0, b1, b2, b3, b4, b5, b6, b7]⟩ = s at noX at0 ⊢
  have at8 := drop_behind (k := 0) at0 aProper.1
  have at9 := drop_behind (k := 1) at0 aProper.1
  have at13 := drop_behind (k := 0) at9 bProper.1
  have at14 := drop_behind (k := 1) at9 bProper.1
  have at18 := drop_behind (k := 0) at14 cProper.1
  have at19 := drop_behind (k := 1) at14 cProper.1
  have at21 := drop_behind (k := 0) at19 p0.1
  have at23 := drop_behind (k := 0) at21 p1.1
  have at24 := drop_behind (k := 1) at21 p1.1
  have at26 := drop_behind (k := 0) at24 p2.1
  have at28 := drop_behind (k := 0) at26 p3.1
  have at30 := drop_behind (k := 0) at28 p4.1
  have at32 := drop_behind (k := 0) at30 p5.1
  have at34 := drop_behind (k := 0) at32 p6.1
  have at36 := drop_behind (k := 0) at34 p7.1
  have guid : isGuid s = true := by
    rw [isGuid_iff]
    refine ⟨?_, ?_⟩
    · have length := congrArg List.length at34
      simp only [List.drop_zero, List.length_drop, List.length_append, List.length_nil, p7.1] at length
      omega
    · intro i mem
      simp only [List.mem_cons, List.not_mem_nil, or_false] at mem
      rw [← List.head?_drop]
      obtain rfl | rfl | rfl | rfl := mem
      · exact congrArg List.head? at8
      · exact congrArg List.head? at13
      · exact congrArg List.head? at18
      · exact congrArg List.head? at23
  -- the third byte is read from the dash before it on
  have read23 : strToHex s 23 2 = hexValue b2 := by
    have dash : hexDigit '-' = none := by decide
    have here : s.drop 23 = '-' :: (b2 ++ (b3 ++ (b4 ++ (b5 ++ (b6 ++ (b7 ++ [])))))) := at23
    rw [strToHex_absent noX 23 (by decide), here, hexLoop_other dash, hexLoop_field p2.2 p2.1]
  have read0 : strToHex s 0 8 = hexValue a := read_field noX (by decide) at0 aProper
  have read9 : strToHex s 9 4 = hexValue b := read_field noX (by decide) at9 bProper
  have read14 : strToHex s 14 4 = hexValue c := read_field noX (by decide) at14 cProper
  have read19 : strToHex s 19 2 = hexValue b0 := read_field noX (by decide) at19 p0
  have read21 : strToHex s 21 2 = hexValue b1 := read_field noX (by decide) at21 p1
  have read26 : strToHex s 26 2 = hexValue b3 := read_field noX (by decide) at26 p3
  have read28 : strToHex s 28 2 = hexValue b4 := read_field noX (by decide) at28 p4
  have read30 : strToHex s 30 2 = hexValue b5 := read_field noX (by decide) at30 p5
  have read32 : strToHex s 32 2 = hexValue b6 := read_field noX (by decide) at32 p6
  have read34 : strToHex s 34 2 = hexValue b7 := read_field noX (by decide) at34 p7
  refine ⟨guid, ?_⟩
  rw [stringAsGuid, guid]
  simp only [Bool.not_true, Bool.false_eq_true, ↓reduceIte, GuidFields.guid, List.map_cons, List.map_nil, read0,
    read9, read14, read19, read21, read23, read26, read28, read30, read32, read34]

/-! ### Back and forth -/

/-- The fields that a GUID is written with. -/
def fieldsOf (upper : Bool) (guid : EfiGuid) : GuidFields where
  a := hexField upper 8 guid.data1.toNat
  b := hexField upper 4 guid.data2.toNat
  c := hexField upper 4 guid.data3.toNat
  bytes := guid.data4.map fun byte => hexField upper 2 byte.toNat

theorem guidAsString_eq (upper : Bool) (guid : EfiGuid) :
    guidAsString upper guid = (fieldsOf upper guid).text := by
  simp [guidAsString, fieldsOf, GuidFields.text, List.flatMap, List.map_take, List.map_drop]

theorem fieldsOf_proper (upper : Bool) {guid : EfiGuid} (eight : guid.data4.length = 8) :
    (fieldsOf upper guid).Proper := by
  have written (width value : Nat) : (hexField upper width value).length = width ∧
      AllHex (hexField upper width value) := ⟨hexField_length .., hexField_allHex _ _ _⟩
  refine ⟨written .., written .., written .., ?_, ?_⟩
  · rw [fieldsOf, List.length_map, eight]
  · intro byte mem
    obtain ⟨value, -, rfl⟩ := List.mem_map.mp mem
    exact written ..

theorem stringAsGuid_guidAsString (upper : Bool) {guid : EfiGuid} (eight : guid.data4.length = 8) :
    stringAsGuid (guidAsString upper guid) = guid := by
  rw [guidAsString_eq, (stringAsGuid_text (fieldsOf_proper upper eight)).2]
  obtain ⟨data1, data2, data3, data4⟩ := guid
  have read1 : hexValue (hexField upper 8 data1.toNat) = data1.toNat := hexValue_hexField upper data1.toNat_lt
  have read2 (data : UInt16) : hexValue (hexField upper 4 data.toNat) = data.toNat :=
    hexValue_hexField upper data.toNat_lt
  have read4 (byte : UInt8) : hexValue (hexField upper 2 byte.toNat) = byte.toNat :=
    hexValue_hexField upper byte.toNat_lt
  simp only [GuidFields.guid, fieldsOf, read1, read2, UInt32.ofNat_toNat, UInt16.ofNat_toNat, List.map_map,
    EfiGuid.mk.injEq, true_and]
  refine (List.map_congr_left fun byte _ => ?_).trans (List.map_id data4)
  rw [Function.comp_apply, read4, UInt8.ofNat_toNat]
  rfl

theorem GuidFields.text_lower (f : GuidFields) :
    f.text.map lowerChar =
      GuidFields.text
        ⟨f.a.map lowerChar, f.b.map lowerChar, f.c.map lowerChar, f.bytes.map (List.map lowerChar)⟩ := by
  have dash : lowerChar '-' = '-' := by decide
  simp [GuidFields.text, dash, List.map_take, List.map_drop]

/-- What was read of a string is written, up to the case of the letters. -/
theorem guidAsString_guid (upper : Bool) {f : GuidFields} (proper : f.Proper) :
    (guidAsString upper f.guid).map lowerChar = f.text.map lowerChar := by
  have part {s : Str} {n : Nat} (digits : s.length = n ∧ AllHex s) :
      hexValue s < 16 ^ n ∧ (hexField upper n (hexValue s)).map lowerChar = s.map lowerChar :=
    digits.1 ▸ ⟨hexValue_lt digits.2, hexField_hexValue upper digits.2⟩
  have fitA : (UInt32.ofNat (hexValue f.a)).toNat = hexValue f.a := UInt32.toNat_ofNat_of_lt' (part proper.a).1
  have fitB : (UInt16.ofNat (hexValue f.b)).toNat = hexValue f.b := UInt16.toNat_ofNat_of_lt' (part proper.b).1
  have fitC : (UInt16.ofNat (hexValue f.c)).toNat = hexValue f.c := UInt16.toNat_ofNat_of_lt' (part proper.c).1
  rw [guidAsString_eq, GuidFields.text_lower, GuidFields.text_lower f]
  simp only [fieldsOf, GuidFields.guid, fitA, fitB, fitC, (part proper.a).2, (part proper.b).2, (part proper.c).2,
    List.map_map]
  congr 2
  refine List.map_congr_left fun byte mem => ?_
  have digits := part (proper.bytes byte mem)
  have fit : (UInt8.ofNat (hexValue byte)).toNat = hexValue byte := UInt8.toNat_ofNat_of_lt' digits.1
  simp only [Function.comp_apply, fit, digits.2]

theorem exists_pairs {s : Str} {k : Nat} (h : s.length = 2 * k) :
    ∃ bytes : List Str, bytes.length = k ∧ (∀ byte ∈ bytes, byte.length = 2) ∧ bytes.flatten = s := by
  induction k generalizing s with
  | zero => exact ⟨[], rfl, fun _ mem => absurd mem List.not_mem_nil, (List.length_eq_zero_iff.mp h).symm⟩
  | succ k ih =>
    obtain ⟨bytes, length, pairs, whole⟩ := @ih (s.drop 2) (by rw [List.length_drop, h]; omega)
    refine ⟨s.take 2 :: bytes, by rw [List.length_cons, length], ?_, ?_⟩
    · rw [List.forall_mem_cons, List.length_take]
      exact ⟨by omega, pairs⟩
    · rw [List.flatten_cons, whole, List.take_append_drop]

/-! ### The format -/

/-- The characters between the dashes. -/
def guidParts (s : Str) : List Str :=
  [(0, 8), (9, 4), (14, 4), (19, 4), (24, 12)].map fun window => (s.drop window.1).take window.2

theorem GuidFormat.fields {s : Str} (h : GuidFormat s) : ∃ f : GuidFields, f.Proper ∧ f.text = s := by
  obtain ⟨a, b, c, d, e, rfl, lengths, digits⟩ := h
  simp only [List.map_cons, List.map_nil, List.cons.injEq, and_true] at lengths
  simp only [List.forall_mem_cons] at digits
  obtain ⟨aLength, bLength, cLength, dLength, eLength⟩ := lengths
  obtain ⟨aHex, bHex, cHex, dHex, eHex, -⟩ := digits
  obtain ⟨ds, two, dPairs, rfl⟩ := exists_pairs (k := 2) dLength
  obtain ⟨es, six, ePairs, rfl⟩ := exists_pairs (k := 6) eLength
  refine ⟨⟨a, b, c, ds ++ es⟩, ⟨⟨aLength, aHex⟩, ⟨bLength, bHex⟩, ⟨cLength, cHex⟩, ?_, ?_⟩, ?_⟩
  · rw [List.length_append, two, six]
  · intro byte mem
    obtain inD | inE := List.mem_append.mp mem
    · exact ⟨dPairs byte inD, fun c inside => dHex c (List.mem_flatten.mpr ⟨byte, inD, inside⟩)⟩
    · exact ⟨ePairs byte inE, fun c inside => eHex c (List.mem_flatten.mpr ⟨byte, inE, inside⟩)⟩
  · rw [GuidFields.text, List.take_left' two, List.drop_left' two]

theorem drop_dash {s : Str} {i : Nat} (here : s[i]? = some '-') : s.drop i = '-' :: s.drop (i + 1) := by
  obtain ⟨inside, same⟩ := List.getElem?_eq_some_iff.mp here
  rw [List.drop_eq_getElem_cons inside, same]

theorem drop_window (s : Str) (p n : Nat) : s.drop p = (s.drop p).take n ++ s.drop (p + n) := by
  rw [← List.drop_drop, List.take_append_drop]

theorem guidFormat_iff (s : Str) : GuidFormat s ↔ isGuid s = true ∧ ∀ part ∈ guidParts s, AllHex part := by
  constructor
  · intro h
    refine ⟨?_, ?_⟩
    · obtain ⟨f, proper, rfl⟩ := h.fields
      exact (stringAsGuid_text proper).1
    · obtain ⟨a, b, c, d, e, whole, lengths, digits⟩ := h
      simp only [List.map_cons, List.map_nil, List.cons.injEq, and_true] at lengths
      obtain ⟨aLength, bLength, cLength, dLength, eLength⟩ := lengths
      have at9 := drop_behind (p := 0) (k := 1) whole aLength
      have at14 := drop_behind (k := 1) at9 bLength
      have at19 := drop_behind (k := 1) at14 cLength
      have at24 := drop_behind (k := 1) at19 dLength
      have window {p n : Nat} {part rest : Str} (here : s.drop p = part ++ rest) (length : part.length = n) :
          (s.drop p).take n = part := by
        rw [here, List.take_left' length]
      have at24' : s.drop 24 = e ++ [] := at24.trans (List.append_nil e).symm
      have parts : guidParts s = [a, b, c, d, e] := by
        simp only [guidParts, List.map_cons, List.map_nil, List.cons.injEq, and_true]
        exact ⟨window whole aLength, window at9 bLength, window at14 cLength, window at19 dLength,
          window at24' eLength⟩
      rw [parts]
      exact digits
  · rintro ⟨accepted, digits⟩
    obtain ⟨length, dashes⟩ := (isGuid_iff s).mp accepted
    simp only [guidParts, List.map_cons, List.map_nil, List.forall_mem_cons] at digits
    obtain ⟨aHex, bHex, cHex, dHex, eHex, -⟩ := digits
    refine ⟨s.take 8, (s.drop 9).take 4, (s.drop 14).take 4, (s.drop 19).take 4, (s.drop 24).take 12, ?_, ?_, ?_⟩
    · have dash8 := drop_dash (dashes 8 (by decide))
      have dash13 := drop_dash (dashes 13 (by decide))
      have dash18 := drop_dash (dashes 18 (by decide))
      have dash23 := drop_dash (dashes 23 (by decide))
      have last : (s.drop 24).take 12 = s.drop 24 := List.take_of_length_le (by rw [List.length_drop]; omega)
      rw [last, ← dash23, ← drop_window s 19 4, ← dash18, ← drop_window s 14 4, ← dash13, ← drop_window s 9 4,
        ← dash8, List.take_append_drop]
    · simp [length]
    · simp only [List.forall_mem_cons]
      exact ⟨aHex, bHex, cHex, dHex, eHex, fun _ impossible => nomatch impossible⟩

/-! ### The two directions together -/

/-- The comparison of a description with the names of the volume. -/
def namesMatch (volume : NamedVolume) (filtered : Str) : Bool :=
  mrdStrEqualsCI (some filtered) volume.volName || mrdStrEqualsCI (some filtered) volume.fsName ||
    mrdStrEqualsCI (some filtered) volume.partName

/-- The functions are inverse to each other, what is accepted has the format, and a description without
it is compared with the names. -/
structure GuidsInverse (upper : Bool) (s : Str) : Prop where
  read : ∀ guid : EfiGuid, guid.data4.length = 8 → stringAsGuid (guidAsString upper guid) = guid
  written : isGuid s = true → equalsCI (guidAsString upper (stringAsGuid s)) s = true
  format : isGuid s = true ↔ GuidFormat s
  compared : ∀ volume description, getSubStrAfter defaultStringDelim description = s → ¬ GuidFormat s →
    volumeMatchesDescription (some volume) (some description) = namesMatch volume s

/-- The strings for which this holds are those that are refused, and those whose other characters are
digits. -/
theorem guids_inverse_iff (upper : Bool) (s : Str) :
    GuidsInverse upper s ↔ (isGuid s = true → ∀ part ∈ guidParts s, AllHex part) := by
  constructor
  · intro inverse accepted
    exact ((guidFormat_iff s).mp (inverse.format.mp accepted)).2
  · intro digits
    have format : isGuid s = true ↔ GuidFormat s := by
      rw [guidFormat_iff]
      exact ⟨fun accepted => ⟨accepted, digits accepted⟩, And.left⟩
    refine ⟨fun guid eight => stringAsGuid_guidAsString upper eight, fun accepted => ?_, format, ?_⟩
    · obtain ⟨f, proper, rfl⟩ := (format.mp accepted).fields
      rw [equalsCI_iff, (stringAsGuid_text proper).2]
      exact guidAsString_guid upper proper
    · intro volume description filtered other
      have refused : isGuid s = false := by
        rw [Bool.eq_false_iff]
        exact fun accepted => other (format.mp accepted)
      rw [volumeMatchesDescription, filtered, refused]
      rfl

theorem guids_inverse_letters : ¬ GuidsInverse false "gggggggg-gggg-gggg-gggg-gggggggggggg".toList := by
  intro inverse
  exact absurd (inverse.written (by decide)) (by decide)

end Meridian.Discovery
