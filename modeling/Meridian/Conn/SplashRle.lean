import Meridian.Lib.RunLength
import Mathlib.Data.List.TakeDrop

/-!
# The boot splash planes

The model of `compress_rle` in `conn/tools/bake_splash.py`, which packs a coverage plane for the atlas, and
of `SplashRleExpand` in `ui/conn_bridge.c`, which expands it. A read behind the input or a write behind the
output has no result.
-/

namespace Meridian.Conn.SplashRle

open Lib.RunLength

/-! ### The baker -/

/-- `flush`, as the numbers that it lists. -/
def flush (buf : List UInt8) : List Nat :=
  if 128 < buf.length then 127 :: (buf.take 128).map UInt8.toNat ++ flush (buf.drop 128)
  else if buf ≠ [] then (buf.length - 1) :: buf.map UInt8.toNat
  else []
termination_by buf.length
decreasing_by
  rw [List.length_drop]
  omega

/-- `while n < 130 and len(raw) > n and raw[n] == c`. -/
def runLength (c : UInt8) (raw : List UInt8) (n : Nat) : Nat :=
  if n < 130 ∧ raw[n]? = some c then runLength c raw (n + 1) else n
termination_by 130 - n

theorem le_runLength (c : UInt8) (raw : List UInt8) (n : Nat) : n ≤ runLength c raw n := by
  fun_induction runLength c raw n with
  | case1 n more ih => omega
  | case2 n ends => exact Nat.le_refl n

/-- The loop of `compress_rle`, with the numbers so far and the bytes that wait to be flushed. -/
def compressLoop (comp : List Nat) (back : List UInt8) : List UInt8 → List Nat
  | c :: c₁ :: c₂ :: rest =>
    if c₁ = c ∧ c₂ = c then
      let n := runLength c (c :: c₁ :: c₂ :: rest) 3
      compressLoop (comp ++ flush back ++ [n + 125, c.toNat]) [] ((c :: c₁ :: c₂ :: rest).drop n)
    else compressLoop comp (back ++ [c]) (c₁ :: c₂ :: rest)
  | raw => comp ++ flush (back ++ raw)
termination_by raw => raw.length
decreasing_by
  · have least : 3 ≤ runLength c (c :: c₁ :: c₂ :: rest) 3 := le_runLength _ _ 3
    simp only [List.length_drop, List.length_cons]
    omega
  · exact Nat.lt_succ_self _

def compressRle (raw : List UInt8) : List Nat := compressLoop [] [] raw

/-- The numbers as they stand in the array of the header file. -/
def atlasBytes (comp : List Nat) : List UInt8 := comp.map UInt8.ofNat

/-! ### The expansion -/

/-- `i`, `o` and the output. -/
structure Expansion where
  i : Nat
  o : Nat
  out : List UInt8
  deriving DecidableEq, Repr

/-- `In[i++]`. -/
def Expansion.next (input : List UInt8) (s : Expansion) : Option (UInt8 × Expansion) :=
  input[s.i]?.map fun v => (v, { s with i := s.i + 1 })

/-- `Out[o++] = v`. -/
def Expansion.put (s : Expansion) (v : UInt8) : Option Expansion :=
  if s.o < s.out.length then some { s with o := s.o + 1, out := s.out.set s.o v } else none

/-- `while (n-- > 0 && i < InLen && o < OutLen)`. -/
def literalLoop (input : List UInt8) : Nat → Expansion → Option Expansion
  | 0, s => some s
  | n + 1, s =>
    if s.i < input.length ∧ s.o < s.out.length then do
      let (v, s) ← s.next input
      let s ← s.put v
      literalLoop input n s
    else some s

/-- `while (n-- > 0 && o < OutLen)`. -/
def runLoop (v : UInt8) : Nat → Expansion → Option Expansion
  | 0, s => some s
  | n + 1, s =>
    if s.o < s.out.length then do
      let s ← s.put v
      runLoop v n s
    else some s

/-- `while (i < InLen && o < OutLen)`, for so many rounds at most. -/
def packetLoop (input : List UInt8) : Nat → Expansion → Option Expansion
  | 0, _ => none
  | rounds + 1, s =>
    if s.i < input.length ∧ s.o < s.out.length then do
      let (m, s) ← s.next input
      if m < 128 then
        let s ← literalLoop input (m.toNat + 1) s
        packetLoop input rounds s
      else if s.i < input.length then
        let (v, s) ← s.next input
        let s ← runLoop v (m.toNat - 125) s
        packetLoop input rounds s
      else packetLoop input rounds s
    else some s

/-- `while (o < OutLen)`, for so many rounds at most. -/
def clearLoop : Nat → Expansion → Option Expansion
  | 0, _ => none
  | rounds + 1, s =>
    if s.o < s.out.length then do
      let s ← s.put 0
      clearLoop rounds s
    else some s

/-- `SplashRleExpand`, with the bytes of `In` and of `Out` up to the lengths that it is given: what it leaves
in `Out`. -/
def splashRleExpand (input out : List UInt8) : Option (List UInt8) := do
  let s ← packetLoop input (input.length + 1) { i := 0, o := 0, out := out }
  let s ← clearLoop (out.length + 1) s
  some s.out

/-! ### What is baked -/

theorem runLength_le {c : UInt8} {raw : List UInt8} {n : Nat} (h : n ≤ 130) : runLength c raw n ≤ 130 := by
  fun_induction runLength c raw n with
  | case1 n more ih => exact ih more.1
  | case2 n ends => exact h

/-- The run that is counted is one. -/
theorem take_runLength {c : UInt8} {raw : List UInt8} {n : Nat} (h : raw.take n = List.replicate n c) :
    raw.take (runLength c raw n) = List.replicate (runLength c raw n) c := by
  fun_induction runLength c raw n with
  | case1 n more ih =>
    apply ih
    rw [List.take_add_one, more.2, h, List.replicate_succ']
    rfl
  | case2 n ends => exact h

/-- Numbers that the packets are written as. -/
def Packs (comp : List Nat) (raw : List UInt8) : Prop :=
  ∃ packets, comp = (pack packets).map UInt8.toNat ∧ expand packets = raw

theorem Packs.nil : Packs [] [] := ⟨[], rfl, rfl⟩

theorem Packs.append {comp more : List Nat} {raw rest : List UInt8} (h : Packs comp raw)
    (h' : Packs more rest) : Packs (comp ++ more) (raw ++ rest) := by
  obtain ⟨packets, rfl, rfl⟩ := h
  obtain ⟨packets', rfl, rfl⟩ := h'
  exact ⟨packets ++ packets', by rw [pack_append, List.map_append], expand_append packets packets'⟩

theorem packs_literal {items : List UInt8} (nonempty : items ≠ []) (most : items.length ≤ 128) :
    Packs ((items.length - 1) :: items.map UInt8.toNat) items := by
  refine ⟨[.literal items nonempty most], ?_, List.append_nil items⟩
  have marker : (UInt8.ofNat (items.length - 1)).toNat = items.length - 1 := toNat_marker (by omega)
  rw [pack, List.flatMap_singleton, Packet.bytes, List.map_cons, marker]

theorem packs_run {count : Nat} (item : UInt8) (least : 3 ≤ count) (most : count ≤ 130) :
    Packs [count + 125, item.toNat] (List.replicate count item) := by
  refine ⟨[.run count item least most], ?_, List.append_nil _⟩
  have marker : (UInt8.ofNat (count + 125)).toNat = count + 125 := toNat_marker (by omega)
  rw [pack, List.flatMap_singleton, Packet.bytes, List.map_cons, marker]
  rfl

theorem packs_flush (buf : List UInt8) : Packs (flush buf) buf := by
  fun_induction flush buf with
  | case1 buf long ih =>
    have first : (buf.take 128).length = 128 := List.length_take_of_le (by omega)
    have nonempty : buf.take 128 ≠ [] := List.ne_nil_of_length_eq_add_one first
    have literal := packs_literal nonempty (Nat.le_of_eq first)
    rw [first] at literal
    have whole := literal.append ih
    rwa [List.take_append_drop] at whole
  | case2 buf short nonempty => exact packs_literal nonempty (Nat.le_of_not_lt short)
  | case3 buf short empty =>
    obtain rfl := not_not.mp empty
    exact Packs.nil

theorem packs_compressLoop {comp : List Nat} {done : List UInt8} (h : Packs comp done)
    (back raw : List UInt8) : Packs (compressLoop comp back raw) (done ++ (back ++ raw)) := by
  fun_induction compressLoop comp back raw generalizing done with
  | case1 comp back c c₁ c₂ rest equal n =>
    rename_i ih
    have start : (c :: c₁ :: c₂ :: rest).take 3 = List.replicate 3 c := by
      rw [equal.1, equal.2]
      rfl
    have run : Packs [n + 125, c.toNat] (List.replicate n c) :=
      packs_run c (le_runLength _ _ 3) (runLength_le (by decide))
    rw [← take_runLength start] at run
    have whole := ih ((h.append (packs_flush back)).append run)
    rwa [List.nil_append, List.append_assoc (done ++ back), List.take_append_drop,
      List.append_assoc done] at whole
  | case2 comp back c c₁ c₂ rest differ ih =>
    have whole := ih h
    rwa [List.append_assoc back [c], List.singleton_append] at whole
  | case3 comp back raw few => exact h.append (packs_flush (back ++ raw))

/-- The baker writes packets that stand for the plane. -/
theorem packs_compressRle (raw : List UInt8) : Packs (compressRle raw) raw :=
  packs_compressLoop Packs.nil [] raw

/-- Each number is a byte. -/
theorem compressRle_lt {raw : List UInt8} {n : Nat} (mem : n ∈ compressRle raw) : n < 256 := by
  obtain ⟨packets, same, _⟩ := packs_compressRle raw
  rw [same] at mem
  obtain ⟨byte, _, rfl⟩ := List.mem_map.mp mem
  exact byte.toNat_lt

theorem unpack_atlasBytes (raw : List UInt8) : unpack (atlasBytes (compressRle raw)) = raw := by
  obtain ⟨packets, same, whole⟩ := packs_compressRle raw
  have bytes : atlasBytes (compressRle raw) = pack packets := by
    have back : UInt8.ofNat ∘ UInt8.toNat = id := funext fun byte => UInt8.ofNat_toNat
    rw [atlasBytes, same, List.map_map, back, List.map_id]
  rw [bytes, unpack_pack, whole]

/-! ### What is expanded -/

/-- From one state to the other the bytes are written behind each other, as far as there is room. -/
structure Wrote (s s' : Expansion) (items : List UInt8) : Prop where
  length : s'.out.length = s.out.length
  o : s'.o = min (s.o + items.length) s.out.length
  out : s'.out.take s'.o = s.out.take s.o ++ items.take (s.out.length - s.o)

section
variable {s s' s'' : Expansion} {items more : List UInt8}

theorem Wrote.nothing (inside : s.o ≤ s.out.length) : Wrote s s [] :=
  ⟨rfl, (Nat.min_eq_left inside).symm, by rw [List.take_nil, List.append_nil]⟩

theorem Wrote.trans (h : Wrote s s' items) (h' : Wrote s' s'' more) : Wrote s s'' (items ++ more) := by
  have room : s'.out.length - s'.o = s.out.length - s.o - items.length := by
    rw [h.length, h.o]
    omega
  refine ⟨h'.length.trans h.length, ?_, ?_⟩
  · rw [h'.o, h.o, h.length, List.length_append]
    omega
  · rw [h'.out, h.out, room, List.append_assoc, List.take_append]

/-- Without room, any bytes are written as far as there is. -/
theorem Wrote.full (h : Wrote s s' items) (full : s.o = s.out.length) (more : List UInt8) :
    Wrote s s' more := by
  refine ⟨h.length, ?_, ?_⟩
  · rw [h.o, full]
    omega
  · rw [h.out, full, Nat.sub_self, List.take_zero, List.take_zero]

theorem Wrote.noRoom (inside : s.o ≤ s.out.length) (room : ¬s.o < s.out.length) (items : List UInt8) :
    Wrote s s items :=
  (Wrote.nothing inside).full (Nat.le_antisymm inside (Nat.le_of_not_lt room)) items

theorem Wrote.inside (h : Wrote s s' items) : s'.o ≤ s'.out.length := by
  rw [h.o, h.length]
  exact Nat.min_le_right _ _

/-- What was read before does not matter. -/
theorem Wrote.behind {i : Nat} (h : Wrote { s with i } s' items) : Wrote s s' items := ⟨h.length, h.o, h.out⟩

theorem put_wrote (room : s.o < s.out.length) (v : UInt8) :
    ∃ s', s.put v = some s' ∧ Wrote s s' [v] ∧ s'.i = s.i := by
  refine ⟨_, if_pos room, ⟨List.length_set, ?_, ?_⟩, rfl⟩
  · exact (Nat.min_eq_left room).symm
  · have kept : (s.out.set s.o v).take s.o = s.out.take s.o := List.take_set_of_le (Nat.le_refl _)
    have one : [v].take (s.out.length - s.o) = [v] := List.take_of_length_le (by rw [List.length_singleton]; omega)
    dsimp only
    rw [List.take_add_one, kept, List.getElem?_set_self room, one]
    rfl

end

section
variable {input : List UInt8} {s : Expansion}

theorem next_drop (more : s.i < input.length) :
    ∃ v, s.next input = some (v, { s with i := s.i + 1 }) ∧ input.drop s.i = v :: input.drop (s.i + 1) := by
  refine ⟨input[s.i], ?_, List.drop_eq_getElem_cons more⟩
  rw [Expansion.next, List.getElem?_eq_getElem more]
  rfl

/-- A literal is written as far as the input has it; it is passed where there is room. -/
theorem literalLoop_wrote (n : Nat) (inside : s.o ≤ s.out.length) :
    ∃ s', literalLoop input n s = some s' ∧ Wrote s s' ((input.drop s.i).take n) ∧ s.i ≤ s'.i ∧
      (s'.o < s'.out.length → input.drop s'.i = input.drop (s.i + n)) := by
  induction n generalizing s with
  | zero => exact ⟨s, rfl, Wrote.nothing inside, Nat.le_refl _, fun _ => rfl⟩
  | succ n ih =>
    rw [literalLoop]
    by_cases more : s.i < input.length
    · by_cases room : s.o < s.out.length
      · obtain ⟨v, next, here⟩ := next_drop more
        obtain ⟨s₁, put, one, same⟩ := put_wrote (s := { s with i := s.i + 1 }) room v
        obtain ⟨s', loop, rest, behind, passed⟩ := ih one.inside
        rw [if_pos ⟨more, room⟩, next, Option.bind_eq_bind, Option.bind_some]
        dsimp only
        rw [put, Option.bind_eq_bind, Option.bind_some]
        have position : s₁.i = s.i + 1 := same
        rw [position] at rest behind passed
        refine ⟨s', loop, ?_, by omega, fun left => ?_⟩
        · rw [here, List.take_succ_cons]
          exact one.behind.trans rest
        · rw [passed left, Nat.add_assoc, Nat.add_comm 1]
      · rw [if_neg fun both => room both.2]
        exact ⟨s, rfl, Wrote.noRoom inside room _, Nat.le_refl _, fun left => absurd left room⟩
    · rw [if_neg fun both => more both.1]
      have none : input.drop s.i = [] := List.drop_eq_nil_of_le (by omega)
      have later : input.drop (s.i + (n + 1)) = [] := List.drop_eq_nil_of_le (by omega)
      rw [none, List.take_nil, later]
      exact ⟨s, rfl, Wrote.nothing inside, Nat.le_refl _, fun _ => none⟩

theorem runLoop_wrote (v : UInt8) (n : Nat) (inside : s.o ≤ s.out.length) :
    ∃ s', runLoop v n s = some s' ∧ Wrote s s' (List.replicate n v) ∧ s'.i = s.i := by
  induction n generalizing s with
  | zero => exact ⟨s, rfl, Wrote.nothing inside, rfl⟩
  | succ n ih =>
    rw [runLoop]
    by_cases room : s.o < s.out.length
    · obtain ⟨s₁, put, one, same⟩ := put_wrote room v
      obtain ⟨s', loop, rest, same'⟩ := ih one.inside
      rw [if_pos room, put, Option.bind_eq_bind, Option.bind_some]
      exact ⟨s', loop, one.trans rest, same'.trans same⟩
    · rw [if_neg room]
      exact ⟨s, rfl, Wrote.noRoom inside room _, rfl⟩

/-- A round for each byte that is left is enough, and what the bytes stand for is written. -/
theorem packetLoop_wrote {rounds : Nat} (enough : input.length - s.i < rounds) (inside : s.o ≤ s.out.length) :
    ∃ s', packetLoop input rounds s = some s' ∧ Wrote s s' (unpack (input.drop s.i)) := by
  induction rounds generalizing s with
  | zero => omega
  | succ rounds ih =>
    rw [packetLoop]
    by_cases more : s.i < input.length
    · by_cases room : s.o < s.out.length
      · obtain ⟨m, next, here⟩ := next_drop more
        rw [if_pos ⟨more, room⟩, next, Option.bind_eq_bind, Option.bind_some, here]
        dsimp only
        by_cases low : m < 128
        · obtain ⟨s₁, literal, items, behind, passed⟩ :=
            @literalLoop_wrote input { s with i := s.i + 1 } (m.toNat + 1) inside
          have later : s.i + 1 ≤ s₁.i := behind
          obtain ⟨s', loop, rest⟩ := ih (s := s₁) (by omega) items.inside
          rw [if_pos low, literal, Option.bind_eq_bind, Option.bind_some, unpack_literal low]
          refine ⟨s', loop, items.behind.trans ?_⟩
          by_cases left : s₁.o < s₁.out.length
          · rw [passed left, ← List.drop_drop] at rest
            exact rest
          · have bound := items.inside
            exact rest.full (by omega) _
        · rw [if_neg low]
          by_cases item : s.i + 1 < input.length
          · obtain ⟨v, next', here'⟩ := next_drop (s := { s with i := s.i + 1 }) item
            obtain ⟨s₁, run, items, same⟩ :=
              runLoop_wrote (s := { s with i := s.i + 2 }) v (m.toNat - 125) inside
            have position : s₁.i = s.i + 2 := same
            obtain ⟨s', loop, rest⟩ := ih (s := s₁) (by omega) items.inside
            rw [if_pos item, next', Option.bind_eq_bind, Option.bind_some, here', unpack_run low]
            dsimp only
            rw [run, Option.bind_some]
            rw [position] at rest
            exact ⟨s', loop, items.behind.trans rest⟩
          · have none : input.drop (s.i + 1) = [] := List.drop_eq_nil_of_le (by omega)
            obtain ⟨s', loop, rest⟩ := ih (s := { s with i := s.i + 1 }) (by dsimp only; omega) inside
            rw [if_neg item, none, unpack_marker low]
            have nothing := rest.behind
            dsimp only at nothing
            rw [none, unpack_nil] at nothing
            exact ⟨s', loop, nothing⟩
      · rw [if_neg fun both => room both.2]
        exact ⟨s, rfl, Wrote.noRoom inside room _⟩
    · rw [if_neg fun both => more both.1, List.drop_eq_nil_of_le (by omega), unpack_nil]
      exact ⟨s, rfl, Wrote.nothing inside⟩

/-- The rest of the output is cleared. -/
theorem clearLoop_wrote {rounds : Nat} (enough : s.out.length < s.o + rounds) (inside : s.o ≤ s.out.length) :
    ∃ s', clearLoop rounds s = some s' ∧ Wrote s s' (List.replicate (s.out.length - s.o) 0) := by
  induction rounds generalizing s with
  | zero => omega
  | succ rounds ih =>
    rw [clearLoop]
    by_cases room : s.o < s.out.length
    · obtain ⟨s₁, put, one, _⟩ := put_wrote room 0
      have place := one.o
      have size := one.length
      rw [List.length_singleton] at place
      obtain ⟨s', loop, rest⟩ := ih (s := s₁) (by omega) one.inside
      have count : s.out.length - s.o = s₁.out.length - s₁.o + 1 := by omega
      rw [if_pos room, put, Option.bind_eq_bind, Option.bind_some, count]
      exact ⟨s', loop, one.trans rest⟩
    · rw [if_neg room, Nat.sub_eq_zero_of_le (Nat.le_of_not_lt room)]
      exact ⟨s, rfl, Wrote.nothing inside⟩

end

/-- Whatever the bytes and the lengths, the output holds what the bytes stand for, as far as it has room, and
zeros behind it. -/
theorem splashRleExpand_eq (input out : List UInt8) :
    splashRleExpand input out =
      some ((unpack input).take out.length ++ List.replicate (out.length - (unpack input).length) 0) := by
  obtain ⟨s₁, packets, items⟩ := @packetLoop_wrote input { i := 0, o := 0, out := out } (input.length + 1)
    (by dsimp only; omega) (Nat.zero_le _)
  obtain ⟨s₂, clear, zeros⟩ := @clearLoop_wrote s₁ (s₁.out.length + 1) (by omega) items.inside
  have whole := items.trans zeros
  have size : s₁.out.length = out.length := items.length
  have place : s₁.o = min (unpack input).length out.length := by
    have here := items.o
    dsimp only at here
    rwa [Nat.zero_add] at here
  have full : s₂.o = out.length := by
    have here := whole.o
    rw [List.length_append, List.length_replicate] at here
    dsimp only at here
    rw [List.drop_zero] at here
    omega
  have all : s₂.out = s₂.out.take s₂.o := by
    rw [List.take_of_length_le]
    exact Nat.le_of_eq (whole.length.trans full.symm)
  rw [size] at clear
  rw [splashRleExpand, packets, Option.bind_eq_bind, Option.bind_some, clear, Option.bind_some, all, whole.out]
  dsimp only
  rw [List.drop_zero, List.take_zero, List.nil_append, Nat.sub_zero, List.take_append, List.take_replicate, size,
    place]
  congr 4
  omega

/-- What is baked for a plane expands to it, and the expansion of any bytes ends, reads nothing behind them
and writes nothing behind the output. -/
theorem splashRleExpand_right :
    (∀ raw out : List UInt8, out.length = raw.length →
      splashRleExpand (atlasBytes (compressRle raw)) out = some raw) ∧
    ∀ input out : List UInt8, ∃ expanded, splashRleExpand input out = some expanded ∧
      expanded.length = out.length := by
  constructor
  · intro raw out size
    rw [splashRleExpand_eq, unpack_atlasBytes, size, List.take_length, Nat.sub_self, List.replicate_zero,
      List.append_nil]
  · intro input out
    refine ⟨_, splashRleExpand_eq input out, ?_⟩
    rw [List.length_append, List.length_take, List.length_replicate]
    omega

end Meridian.Conn.SplashRle
