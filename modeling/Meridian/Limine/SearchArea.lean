import Meridian.Limine.Completion

/-!
# The part of the image that is searched

The words of the image by number, the magic words that the loader looks for in it, and the part that
`NarrowSearchArea` leaves to the search: the words between the last markers that the driver sees.
-/

namespace Meridian.Limine

open Lib.Word

/-! ### The words of the image -/

/-- The image is in memory, and the whole of it is to be searched. -/
structure Loaded (ctx : LimineCtx) : Prop where
  arena : ArenaOk ctx
  present : ctx.imagePhys ≠ 0
  fits : ctx.imagePhys + ctx.imageSize < 2 ^ 64
  start : ctx.reqSearchStart = ctx.imagePhys
  stop : ctx.reqSearchEnd = u64 (ctx.imagePhys + ctx.imageSize)

def LimineCtx.words (ctx : LimineCtx) : Nat := ctx.imageSize / 8

def LimineCtx.wordAddr (ctx : LimineCtx) (i : Nat) : Nat := ctx.imagePhys + 8 * i

/-- The eight bytes are in the image. -/
def InImage (ctx : LimineCtx) (addr : Nat) : Prop :=
  ctx.imagePhys ≤ addr ∧ addr + 8 ≤ ctx.imagePhys + ctx.imageSize

instance (ctx : LimineCtx) (addr : Nat) : Decidable (InImage ctx addr) :=
  inferInstanceAs (Decidable (_ ∧ _))

theorem wordAddr_inImage {ctx : LimineCtx} {i : Nat} (lt : i < ctx.words) :
    InImage ctx (ctx.wordAddr i) := by
  rw [LimineCtx.words] at lt
  rw [InImage, LimineCtx.wordAddr]
  omega

theorem mem_candidates {start words span addr : Nat} :
    addr ∈ candidates start words span ↔ ∃ i, i + span < words ∧ addr = start + 8 * i := by
  rw [candidates, List.mem_map]
  constructor
  · rintro ⟨i, mem, rfl⟩
    have lt := List.mem_range.mp mem
    exact ⟨i, by omega, rfl⟩
  · rintro ⟨i, lt, rfl⟩
    exact ⟨i, List.mem_range.mpr (by omega), rfl⟩

/-! ### Magic words -/

def requestMagic : List Nat := [0xc7b1dd30df4c8b88, 0x0a82e883a194f07b]

def baseRevisionMagic : List Nat := [0xf9562b2d5c95a6c8, 0x6a7b384944536bdc]

def requestsStartMagic : List Nat :=
  [0xf6b8f4b39de7d1ae, 0xfab91a6940fcb9cf, 0x785c6ed015d3e316, 0x181e920a7852b9d9]

def requestsEndMagic : List Nat := [0xadc0e0531bb10d03, 0x9572709f31764c62]

/-- The words that tell the requests apart. -/
def requestIds : List Nat :=
  [0xf55038d8e2a1202f, 0x279426fcf5f59740, 0x4b161536e598651e, 0xb390ad4a2f1f303a,
    0x8c2f75d90bef28a8, 0x7045a4688eac00c3, 0x224ef0460a8e8926, 0xe1cb0fc25f46ea3d,
    0x48dcf1cb8ad2b852, 0x63984e959a98244b, 0x9d5827dcd881dd75, 0xa3148604f6fab11b,
    0x95c1a0edab0944cb, 0xa4e5cb3842f7488a, 0x67cf3d9d378a806f, 0xe304acdfc50c3c62,
    0x13d86c035a1cd3e1, 0x2b0caa89d8f3026a, 0xad97e90e83f1ed67, 0x31eb5d1c5ff23b69,
    0x3e7e279702be32af, 0xca1c4f3bd1280cee, 0xc5e77b6b397e7b43, 0x27637845accdcf3c,
    0x9e9046f11e095391, 0xaa4a520fefbde5ee, 0x5ceba5163eaaf6d6, 0x0a6981610cf65fcc,
    0x7df62a431d6872d5, 0xa4fcdfb3e57306c8, 0x71ba76863cc55f63, 0xb2644a48c516a487,
    0x502746e184c088aa, 0xfbc5ec83e6327893, 0x95a67b819a1b857e, 0xa0b61b723b6a73e0]

/-- The words that the search looks for, but for those of the base revision. -/
def searchMagic : List Nat := requestMagic ++ requestsStartMagic ++ requestsEndMagic ++ requestIds

theorem requestKind_ids {id2 id3 : Nat} {kind : LimineRequestKind} (found : requestKind id2 id3 = some kind) :
    id2 ∈ requestIds ∧ id3 ∈ requestIds := by
  unfold requestKind at found
  split at found <;> first | cases found; done | decide

/-- A response in the arena is at an address that no magic word has. -/
theorem searchMagic_lt : ∀ magic ∈ searchMagic, magic < limineHhdmBase := by decide

variable {st st' : LimineState} {addr : Nat}

/-- The memories differ in words only that the search does not look for. -/
def SameMagic (st st' : LimineState) : Prop :=
  ∀ addr, st'.word addr = st.word addr ∨ (st.word addr ∉ searchMagic ∧ st'.word addr ∉ searchMagic)

theorem SameMagic.eq_iff (same : SameMagic st st') {magic : Nat} (known : magic ∈ searchMagic) (addr : Nat) :
    st'.word addr = magic ↔ st.word addr = magic := by
  rcases same addr with eq | ⟨before, after⟩
  · rw [eq]
  · constructor
    · rintro rfl
      exact absurd known after
    · rintro rfl
      exact absurd known before

theorem SameMagic.requestKind_eq (same : SameMagic st st') (first second : Nat) :
    requestKind (st'.word first) (st'.word second) = requestKind (st.word first) (st.word second) := by
  have known : ∀ {id}, id ∈ requestIds → id ∈ searchMagic := fun mem => List.mem_append_right _ mem
  have none : ∀ {a b : Nat}, a ∉ searchMagic ∨ b ∉ searchMagic → requestKind a b = none := by
    intro a b other
    refine Option.eq_none_iff_forall_ne_some.mpr fun kind found => ?_
    have ids := requestKind_ids found
    exact other.elim (fun h => h (known ids.1)) fun h => h (known ids.2)
  rcases same first with eq | ⟨before, after⟩
  · rcases same second with eq' | ⟨before, after⟩
    · rw [eq, eq']
    · rw [none (Or.inr before), none (Or.inr after)]
  · rw [none (Or.inl before), none (Or.inl after)]

theorem SameMagic.requestAt_eq (same : SameMagic st st') (addr : Nat) : requestAt st' addr = requestAt st addr := by
  unfold requestAt
  simp only [ne_eq, same.eq_iff (show 0xc7b1dd30df4c8b88 ∈ searchMagic by decide),
    same.eq_iff (show 0x0a82e883a194f07b ∈ searchMagic by decide), same.requestKind_eq]

theorem SameMagic.isRequestsStart_eq (same : SameMagic st st') (addr : Nat) :
    isRequestsStart st' addr = isRequestsStart st addr := by
  unfold isRequestsStart
  rw [Bool.eq_iff_iff]
  simp only [Bool.and_eq_true, beq_iff_eq,
    same.eq_iff (show 0xf6b8f4b39de7d1ae ∈ searchMagic by decide),
    same.eq_iff (show 0xfab91a6940fcb9cf ∈ searchMagic by decide),
    same.eq_iff (show 0x785c6ed015d3e316 ∈ searchMagic by decide),
    same.eq_iff (show 0x181e920a7852b9d9 ∈ searchMagic by decide)]

theorem SameMagic.isRequestsEnd_eq (same : SameMagic st st') (addr : Nat) :
    isRequestsEnd st' addr = isRequestsEnd st addr := by
  unfold isRequestsEnd
  rw [Bool.eq_iff_iff]
  simp only [Bool.and_eq_true, beq_iff_eq,
    same.eq_iff (show 0xadc0e0531bb10d03 ∈ searchMagic by decide),
    same.eq_iff (show 0x9572709f31764c62 ∈ searchMagic by decide)]

/-! ### The base revision -/

/-- What `LimineAnswerRequests` does before it looks for the markers. -/
def revised (st : LimineState) : LimineState :=
  let st := { st with ctx := { st.ctx with baseRevision := 0, stackSize := limineDefaultStackSize } }
  match (candidates st.ctx.imagePhys (st.ctx.imageSize / 8) 2).find? (isBaseRevision st) with
  | some tag => handleBaseRevision st tag
  | none => st

theorem prepareSearch_eq (st : LimineState) : prepareSearch st = narrowSearchArea (revised st) := rfl

theorem sameMagic_update {value : Nat} (set : st'.word = Function.update st.word addr value)
    (before : st.word addr ∉ searchMagic) (after : value ∉ searchMagic) : SameMagic st st' := by
  intro a
  rw [set]
  by_cases here : a = addr
  · subst here
    rw [Function.update_self]
    exact Or.inr ⟨before, after⟩
  · exact Or.inl (Function.update_of_ne here _ _)

theorem handleBaseRevision_word (st : LimineState) (tag : Nat) :
    (handleBaseRevision st tag).word =
      if st.word (tag + 16) ≤ limineMaxBaseRevision then Function.update st.word (tag + 16) 0
      else Function.update st.word (tag + 8) limineMaxBaseRevision := by
  unfold handleBaseRevision
  dsimp only
  split <;> rfl

/-- Neither the words of the tag that are replaced nor those put in are ones that the search looks for. -/
theorem handleBaseRevision_magic (tagged : isBaseRevision st addr = true) :
    SameMagic st (handleBaseRevision st addr) := by
  have second : st.word (addr + 8) = 0x6a7b384944536bdc := by
    rw [isBaseRevision, Bool.and_eq_true, beq_iff_eq, beq_iff_eq] at tagged
    exact tagged.2
  have set := handleBaseRevision_word st addr
  split at set
  · rename_i small
    have large : ∀ magic ∈ searchMagic, limineMaxBaseRevision < magic := by decide
    exact sameMagic_update set (fun known => absurd (large _ known) (Nat.not_lt_of_le small)) (by decide)
  · exact sameMagic_update set (by rw [second]; decide) (by decide)

theorem revised_magic (st : LimineState) : SameMagic st (revised st) := by
  unfold revised
  dsimp only
  split
  · rename_i tag found
    exact handleBaseRevision_magic (List.find?_some found)
  · exact fun _ => Or.inl rfl

/-! ### The markers -/

/-- The last number below a bound that has a property. -/
def lastIndex (p : Nat → Bool) : Nat → Option Nat
  | 0 => none
  | n + 1 => if p n then some n else lastIndex p n

theorem lastIndex_eq_some {p : Nat → Bool} {n i : Nat} :
    lastIndex p n = some i ↔ i < n ∧ p i = true ∧ ∀ j, i < j → j < n → p j = false := by
  induction n with
  | zero => simp [lastIndex]
  | succ n ih =>
    rw [lastIndex]
    by_cases here : p n = true
    · rw [if_pos here, Option.some_inj]
      constructor
      · rintro rfl
        exact ⟨Nat.lt_succ_self n, here, fun j above below => by omega⟩
      · rintro ⟨below, holds, none⟩
        by_contra other
        have absent := none n (by omega) (Nat.lt_succ_self n)
        rw [here] at absent
        cases absent
    · rw [if_neg here, ih]
      have absent := Bool.eq_false_iff.mpr here
      constructor
      · rintro ⟨below, holds, none⟩
        refine ⟨Nat.lt_succ_of_lt below, holds, fun j above below' => ?_⟩
        rcases Nat.lt_succ_iff_lt_or_eq.mp below' with lt | rfl
        · exact none j above lt
        · exact absent
      · rintro ⟨below, holds, none⟩
        refine ⟨?_, holds, fun j above lt => none j above (Nat.lt_succ_of_lt lt)⟩
        rcases Nat.lt_succ_iff_lt_or_eq.mp below with lt | rfl
        · exact lt
        · rw [absent] at holds
          cases holds

/-- The last start marker of the image. -/
def lastStart (st : LimineState) : Option Nat :=
  lastIndex (fun i => isRequestsStart st (st.ctx.wordAddr i)) (st.ctx.words - 3)

/-- The last end marker of the image. -/
def lastEnd (st : LimineState) : Option Nat :=
  lastIndex (fun i => isRequestsEnd st (st.ctx.wordAddr i)) (st.ctx.words - 1)

/-- The last end marker with two more words of the image behind it: the driver looks no further. -/
def lastEndSeen (st : LimineState) : Option Nat :=
  lastIndex (fun i => isRequestsEnd st (st.ctx.wordAddr i)) (st.ctx.words - 3)

/-- The words between the markers, when both are there in order, and else all words. -/
def requestArea (st : LimineState) : Nat × Nat :=
  match lastStart st, lastEnd st with
  | some first, some stop => if first < stop then (first + 4, stop) else (0, st.ctx.words)
  | _, _ => (0, st.ctx.words)

/-- The words that the driver searches: all of them too when there is none between the markers. -/
def driverArea (st : LimineState) : Nat × Nat :=
  match lastStart st, lastEndSeen st with
  | some first, some stop => if first + 4 < stop then (first + 4, stop) else (0, st.ctx.words)
  | _, _ => (0, st.ctx.words)

/-! ### Narrowing -/

theorem wordAddr_ne_zero (loaded : Loaded st.ctx) (i : Nat) : st.ctx.wordAddr i ≠ 0 := by
  have present := loaded.present
  rw [LimineCtx.wordAddr]
  omega

theorem not_end_of_start (start : isRequestsStart st addr = true) : isRequestsEnd st addr = false := by
  simp only [isRequestsStart, Bool.and_eq_true, beq_iff_eq] at start
  simp [isRequestsEnd, start.1.1.1]

/-- The loop over the words leaves the last marker of each kind. -/
theorem markers_foldl (st : LimineState) (n : Nat) :
    ((List.range n).map fun i => st.ctx.imagePhys + 8 * i).foldl
      (fun (area : Nat × Nat) addr =>
        if isRequestsStart st addr then (addr + 32, area.2)
        else if isRequestsEnd st addr then (area.1, addr)
        else area) (0, 0) =
      ((lastIndex (fun i => isRequestsStart st (st.ctx.wordAddr i)) n).elim 0 fun i => st.ctx.wordAddr (i + 4),
        (lastIndex (fun i => isRequestsEnd st (st.ctx.wordAddr i)) n).elim 0 st.ctx.wordAddr) := by
  induction n with
  | zero => rfl
  | succ n ih =>
    have here : st.ctx.imagePhys + 8 * n = st.ctx.wordAddr n := rfl
    rw [List.range_succ, List.map_append, List.foldl_append, ih, lastIndex, lastIndex, List.map_singleton,
      List.foldl_cons, List.foldl_nil, here]
    by_cases start : isRequestsStart st (st.ctx.wordAddr n) = true
    · rw [if_pos start, if_pos start, not_end_of_start start]
      rfl
    · rw [if_neg start, if_neg start]
      by_cases stop : isRequestsEnd st (st.ctx.wordAddr n) = true
      · rw [if_pos stop, if_pos stop]
        rfl
      · rw [if_neg stop, if_neg stop]

theorem narrowSearchArea_eq (st : LimineState) :
    let first := (lastStart st).elim 0 fun i => st.ctx.wordAddr (i + 4)
    let stop := (lastEndSeen st).elim 0 st.ctx.wordAddr
    narrowSearchArea st =
      if first ≠ 0 ∧ stop ≠ 0 ∧ stop > first then
        { st with ctx := { st.ctx with reqSearchStart := first, reqSearchEnd := stop } }
      else st := by
  unfold narrowSearchArea candidates
  rw [markers_foldl]
  rfl

theorem narrowSearchArea_word (st : LimineState) : (narrowSearchArea st).word = st.word := by
  rw [narrowSearchArea_eq]
  dsimp only
  split <;> rfl

theorem narrowSearchArea_whole (unordered : ∀ first stop, lastStart st = some first →
    lastEndSeen st = some stop → ¬first + 4 < stop) : narrowSearchArea st = st := by
  rw [narrowSearchArea_eq]
  apply if_neg
  cases starts : lastStart st with
  | none => exact fun all => all.1 rfl
  | some first =>
    cases seen : lastEndSeen st with
    | none => exact fun all => all.2.1 rfl
    | some stop =>
      have order := unordered first stop starts seen
      simp only [Option.elim, LimineCtx.wordAddr]
      omega

theorem narrowSearchArea_between (loaded : Loaded st.ctx) {first stop : Nat} (starts : lastStart st = some first)
    (seen : lastEndSeen st = some stop) (order : first + 4 < stop) :
    narrowSearchArea st = { st with ctx := { st.ctx with
      reqSearchStart := st.ctx.wordAddr (first + 4), reqSearchEnd := st.ctx.wordAddr stop } } := by
  have above : st.ctx.wordAddr stop > st.ctx.wordAddr (first + 4) := by
    simp only [LimineCtx.wordAddr]
    omega
  rw [narrowSearchArea_eq, starts, seen]
  exact if_pos ⟨wordAddr_ne_zero loaded _, wordAddr_ne_zero loaded _, above⟩

theorem driverArea_cases (st : LimineState) :
    (∃ first stop, lastStart st = some first ∧ lastEndSeen st = some stop ∧ first + 4 < stop ∧
      driverArea st = (first + 4, stop)) ∨
    ((∀ first stop, lastStart st = some first → lastEndSeen st = some stop → ¬first + 4 < stop) ∧
      driverArea st = (0, st.ctx.words)) := by
  rw [driverArea]
  cases lastStart st with
  | none => exact Or.inr ⟨nofun, rfl⟩
  | some first =>
    cases lastEndSeen st with
    | none => exact Or.inr ⟨nofun, rfl⟩
    | some stop =>
      by_cases order : first + 4 < stop
      · exact Or.inl ⟨first, stop, rfl, rfl, order, if_pos order⟩
      · refine Or.inr ⟨?_, if_neg order⟩
        rintro _ _ ⟨⟩ ⟨⟩
        exact order

/-- The words at which the search looks for a request. -/
theorem mem_searched (loaded : Loaded st.ctx) :
    addr ∈ searched (narrowSearchArea st) ↔
      ∃ i, (driverArea st).1 ≤ i ∧ i + 6 ≤ (driverArea st).2 ∧ addr = st.ctx.wordAddr i := by
  have fits := loaded.fits
  rcases driverArea_cases st with ⟨first, stop, starts, seen, order, area⟩ | ⟨unordered, area⟩
  · have inside := (lastIndex_eq_some.mp seen).1
    have room : 8 * st.ctx.words ≤ st.ctx.imageSize := Nat.mul_div_le _ 8
    have between : sub64 (st.ctx.wordAddr stop) (st.ctx.wordAddr (first + 4)) / 8 = stop - (first + 4) := by
      simp only [LimineCtx.wordAddr]
      rw [sub64_of_le (by omega) (by omega)]
      omega
    rw [area, narrowSearchArea_between loaded starts seen order, searched]
    dsimp only
    rw [between, mem_candidates]
    constructor
    · rintro ⟨i, lt, rfl⟩
      exact ⟨first + 4 + i, by omega, by omega, by simp only [LimineCtx.wordAddr]; omega⟩
    · rintro ⟨i, above, below, rfl⟩
      exact ⟨i - (first + 4), by omega, by simp only [LimineCtx.wordAddr]; omega⟩
  · have size : sub64 (st.ctx.imagePhys + st.ctx.imageSize) st.ctx.imagePhys = st.ctx.imageSize := by
      rw [sub64_of_le (Nat.le_add_right _ _) fits, Nat.add_sub_cancel_left]
    rw [area, narrowSearchArea_whole unordered, searched, loaded.start, loaded.stop, u64_of_lt fits, size,
      mem_candidates]
    exact exists_congr fun i => ⟨fun h => ⟨Nat.zero_le i, h.1, h.2⟩, fun h => h.2⟩

end Meridian.Limine
