import Meridian.Limine.Requests
import Meridian.Lib.Run

/-!
# Calls of the arena allocator

A run of calls of `LimineArenaAlloc` keeps the blocks apart and below the bump pointer, as long as the
end of a block is not past the last address of 64 bits: the sum of offset and size is compared with the
arena's size as it wraps, and the pointer moves back.
-/

namespace Meridian.Limine

open Lib.Word Lib.Run

/-- The pages of the arena, in physical memory. -/
structure ArenaPages where
  start : Nat
  size : Nat
  notNull : start ≠ 0
  range : start + size ≤ 2 ^ 52

/-- The arguments of a call, in words of 64 bits. -/
structure ArenaCall where
  size : Nat
  align : Nat
  sizeWord : size < 2 ^ 64
  alignWord : align < 2 ^ 64

/-- A block that was returned. -/
structure ArenaBlock where
  start : Nat
  size : Nat
  deriving DecidableEq, Repr

structure ArenaRun where
  ctx : LimineCtx
  blocks : List ArenaBlock

/-- The arena as `LimineBoot` makes it. -/
def ArenaPages.run (pages : ArenaPages) : ArenaRun where
  ctx := { arena := pages.start, arenaSize := pages.size, arenaUsed := 0 }
  blocks := []

def ArenaRun.call (run : ArenaRun) (call : ArenaCall) : ArenaRun :=
  let result := limineArenaAlloc run.ctx call.size call.align
  { ctx := result.1
    blocks := if result.2 = 0 then run.blocks else run.blocks ++ [⟨result.2, call.size⟩] }

def ArenaBlock.Apart (a b : ArenaBlock) : Prop := a.start + a.size ≤ b.start ∨ b.start + b.size ≤ a.start

/-- A block that may be returned: inside the arena, aligned, and apart from the blocks before. -/
structure BlockOk (run : ArenaRun) (call : ArenaCall) (start : Nat) : Prop where
  above : run.ctx.arena ≤ start
  below : start + call.size ≤ run.ctx.arena + run.ctx.arenaSize
  aligned : call.align ∣ start
  apart : ∀ block ∈ run.blocks, block.Apart ⟨start, call.size⟩

/-- A call does what it should: it fails and changes nothing, or it returns such a block. -/
def CallOk (run : ArenaRun) (call : ArenaCall) : Prop :=
  ((run.call call).blocks = run.blocks ∧ (run.call call).ctx = run.ctx) ∨
    ∃ start, (run.call call).blocks = run.blocks ++ [⟨start, call.size⟩] ∧ BlockOk run call start

/-- The offset of the next block. -/
def arenaOffset (ctx : LimineCtx) (align : Nat) : Nat :=
  u64 (ctx.arenaUsed + align - 1) &&& (2 ^ 64 - align)

/-- The end of the block is not past the last address of 64 bits, or it is found to be past the arena's
end even as it wraps. -/
def SizeFits (run : ArenaRun) (call : ArenaCall) : Prop :=
  call.align = 0 ∨ arenaOffset run.ctx call.align + call.size < 2 ^ 64 ∨
    run.ctx.arenaSize < arenaOffset run.ctx call.align + call.size - 2 ^ 64

/-- A power of two that the arena's start is a multiple of. -/
def AlignOk (pages : ArenaPages) (align : Nat) : Prop := align = 0 ∨ ∃ k, align = 2 ^ k ∧ 2 ^ k ∣ pages.start

/-- The arena in use: the blocks are apart and below the bump pointer. -/
structure ArenaInUse (pages : ArenaPages) (run : ArenaRun) : Prop where
  arena : run.ctx.arena = pages.start
  arenaSize : run.ctx.arenaSize = pages.size
  used : run.ctx.arenaUsed ≤ pages.size
  below : ∀ block ∈ run.blocks, block.start + block.size ≤ pages.start + run.ctx.arenaUsed
  apart : run.blocks.Pairwise ArenaBlock.Apart

variable {pages : ArenaPages} {run : ArenaRun} {call : ArenaCall}

theorem ArenaPages.run_inUse (pages : ArenaPages) : ArenaInUse pages pages.run :=
  ⟨rfl, rfl, Nat.zero_le _, fun _ mem => (List.not_mem_nil mem).elim, List.Pairwise.nil⟩

/-- The rounding does not wrap. -/
theorem arenaOffset_spec (inUse : ArenaInUse pages run) {k : Nat} (divides : 2 ^ k ∣ pages.start) :
    run.ctx.arenaUsed ≤ arenaOffset run.ctx (2 ^ k) ∧ arenaOffset run.ctx (2 ^ k) < 2 ^ 53 ∧
      2 ^ k ∣ arenaOffset run.ctx (2 ^ k) := by
  have atMost : 2 ^ k ≤ pages.start := Nat.le_of_dvd (Nat.pos_of_ne_zero pages.notNull) divides
  have used := inUse.used
  have range := pages.range
  have positive : 0 < 2 ^ k := Nat.two_pow_pos k
  have exponent : k ≤ 64 := by
    apply (Nat.pow_le_pow_iff_right (a := 2) (by decide)).mp
    omega
  have sum : u64 (run.ctx.arenaUsed + 2 ^ k - 1) = run.ctx.arenaUsed + 2 ^ k - 1 := u64_of_lt (by omega)
  have fits : run.ctx.arenaUsed + 2 ^ k - 1 < 2 ^ 64 := by omega
  have rounded : arenaOffset run.ctx (2 ^ k) = clearLow 64 k (run.ctx.arenaUsed + 2 ^ k - 1) := by
    rw [arenaOffset, sum]
    rfl
  have between := clearLow_add (w := 64) (k := k) (n := run.ctx.arenaUsed) exponent fits
  rw [rounded]
  refine ⟨between.1, by omega, ?_⟩
  rw [clearLow_eq exponent fits]
  exact Nat.dvd_mul_left _ _

theorem call_zero (zero : call.align = 0) : run.call call = run := by
  have failed : limineArenaAlloc run.ctx call.size call.align = (run.ctx, 0) := by
    rw [limineArenaAlloc, if_pos (Or.inr zero)]
  rw [ArenaRun.call, failed]
  rfl

theorem call_full (full : u64 (arenaOffset run.ctx call.align + call.size) > run.ctx.arenaSize) :
    run.call call = run := by
  have failed : limineArenaAlloc run.ctx call.size call.align = (run.ctx, 0) := by
    rw [limineArenaAlloc]
    split
    · rfl
    · exact if_pos full
  rw [ArenaRun.call, failed]
  rfl

theorem call_block (inUse : ArenaInUse pages run) (some : call.align ≠ 0)
    (word : arenaOffset run.ctx call.align < 2 ^ 53)
    (room : u64 (arenaOffset run.ctx call.align + call.size) ≤ run.ctx.arenaSize) :
    run.call call =
      { ctx := { run.ctx with arenaUsed := u64 (arenaOffset run.ctx call.align + call.size) }
        blocks := run.blocks ++ [⟨pages.start + arenaOffset run.ctx call.align, call.size⟩] } := by
  have start := inUse.arena
  have notNull := pages.notNull
  have range := pages.range
  have address : u64 (run.ctx.arena + arenaOffset run.ctx call.align) =
      pages.start + arenaOffset run.ctx call.align := by
    rw [start]
    exact u64_of_lt (by omega)
  have made : limineArenaAlloc run.ctx call.size call.align =
      ({ run.ctx with arenaUsed := u64 (arenaOffset run.ctx call.align + call.size) },
        pages.start + arenaOffset run.ctx call.align) := by
    rw [← address, limineArenaAlloc, if_neg (by rw [start]; exact not_or.mpr ⟨notNull, some⟩)]
    exact if_neg (Nat.not_lt.mpr room)
  rw [ArenaRun.call, made]
  dsimp only
  rw [if_neg (by omega)]

/-! ### Calls and runs -/

theorem ArenaInUse.blockOk (inUse : ArenaInUse pages run) {start : Nat}
    (above : pages.start + run.ctx.arenaUsed ≤ start)
    (below : start + call.size ≤ pages.start + pages.size) (aligned : call.align ∣ start) :
    BlockOk run call start := by
  refine ⟨?_, ?_, aligned, ?_⟩
  · rw [inUse.arena]
    omega
  · rw [inUse.arena, inUse.arenaSize]
    exact below
  · intro block mem
    exact Or.inl ((inUse.below block mem).trans above)

theorem ArenaInUse.push (inUse : ArenaInUse pages run) {start used : Nat}
    (above : pages.start + run.ctx.arenaUsed ≤ start) (stop : start + call.size = pages.start + used)
    (room : used ≤ pages.size) :
    ArenaInUse pages
      { ctx := { run.ctx with arenaUsed := used }
        blocks := run.blocks ++ [⟨start, call.size⟩] } := by
  refine ⟨inUse.arena, inUse.arenaSize, room, ?_, ?_⟩
  · intro block mem
    rcases List.mem_append.mp mem with old | new
    · have below := inUse.below block old
      dsimp only
      omega
    · rw [List.mem_singleton.mp new]
      exact Nat.le_of_eq stop
  · rw [List.pairwise_append]
    refine ⟨inUse.apart, List.pairwise_singleton _ _, ?_⟩
    intro block mem new newMem
    rw [List.mem_singleton.mp newMem]
    exact Or.inl ((inUse.below block mem).trans above)

/-- A call whose size fits keeps the arena in order and does what it should. -/
theorem call_fits (inUse : ArenaInUse pages run) (alignOk : AlignOk pages call.align)
    (fits : SizeFits run call) : CallOk run call ∧ ArenaInUse pages (run.call call) := by
  rcases alignOk with zero | ⟨k, power, divides⟩
  · rw [CallOk, call_zero zero]
    exact ⟨Or.inl ⟨rfl, rfl⟩, inUse⟩
  · have positive : call.align ≠ 0 := by
      rw [power]
      exact (Nat.two_pow_pos k).ne'
    obtain ⟨lower, word, multiple⟩ := arenaOffset_spec inUse divides
    rw [← power] at lower word multiple divides
    have sizeWord := call.sizeWord
    by_cases room : u64 (arenaOffset run.ctx call.align + call.size) ≤ run.ctx.arenaSize
    · have arenaSize := inUse.arenaSize
      have range := pages.range
      have exactSum : u64 (arenaOffset run.ctx call.align + call.size) =
          arenaOffset run.ctx call.align + call.size := by
        rcases fits with zero | small | large
        · exact absurd zero positive
        · exact u64_of_lt small
        · unfold u64 at room
          omega
      have made := call_block inUse positive word room
      rw [exactSum] at made room
      rw [CallOk, made]
      constructor
      · refine Or.inr ⟨_, rfl, inUse.blockOk (Nat.add_le_add_left lower _) (by omega) ?_⟩
        exact Nat.dvd_add divides multiple
      · exact inUse.push (Nat.add_le_add_left lower _) (Nat.add_assoc _ _ _) (by omega)
    · rw [CallOk, call_full (Nat.lt_of_not_le room)]
      exact ⟨Or.inl ⟨rfl, rfl⟩, inUse⟩

/-- A block whose end wraps is returned although it is not inside the arena. -/
theorem call_fits_of_ok (inUse : ArenaInUse pages run) (alignOk : AlignOk pages call.align)
    (ok : CallOk run call) : SizeFits run call := by
  rcases alignOk with zero | ⟨k, power, divides⟩
  · exact Or.inl zero
  · have positive : call.align ≠ 0 := by
      rw [power]
      exact (Nat.two_pow_pos k).ne'
    obtain ⟨_, word, _⟩ := arenaOffset_spec inUse divides
    rw [← power] at word
    have sizeWord := call.sizeWord
    have range := pages.range
    have arena := inUse.arena
    have arenaSize := inUse.arenaSize
    by_contra wraps
    obtain ⟨_, notSmall, notLarge⟩ := not_or.mp wraps |>.imp id not_or.mp
    have room : u64 (arenaOffset run.ctx call.align + call.size) ≤ run.ctx.arenaSize := by
      unfold u64
      omega
    rw [CallOk, call_block inUse positive word room] at ok
    rcases ok with ⟨blocks, _⟩ | ⟨start, blocks, block⟩
    · have lengths := congrArg List.length blocks
      rw [List.length_append, List.length_singleton] at lengths
      omega
    · have same := List.append_cancel_left blocks
      have start_eq : pages.start + arenaOffset run.ctx call.align = start :=
        congrArg ArenaBlock.start (List.singleton_inj.mp same)
      have below := block.below
      omega

/-- In a run of calls with alignments that the arena's start has, every call does what it should exactly
if every size fits. -/
theorem arenaAlloc_iff (pages : ArenaPages) (calls : List ArenaCall)
    (aligned : ∀ call ∈ calls, AlignOk pages call.align) :
    Along ArenaRun.call CallOk pages.run calls ↔ Along ArenaRun.call SizeFits pages.run calls := by
  have start := pages.run_inUse
  generalize pages.run = run at start
  induction calls generalizing run with
  | nil => exact Iff.rfl
  | cons call calls ih =>
    have here := aligned call List.mem_cons_self
    have later := fun call mem => aligned call (List.mem_cons_of_mem _ mem)
    constructor
    · rintro ⟨ok, rest⟩
      have fits := call_fits_of_ok start here ok
      exact ⟨fits, (ih later _ (call_fits start here fits).2).mp rest⟩
    · rintro ⟨fits, rest⟩
      obtain ⟨ok, inUse⟩ := call_fits start here fits
      exact ⟨ok, (ih later _ inUse).mpr rest⟩

/-- The loader's arena, and a call of it. -/
def samplePages : ArenaPages := ⟨0x100000, 0x10000, by decide, by decide⟩

def wordCall (size : Nat) (h : size < 2 ^ 64) : ArenaCall := ⟨size, 8, h, by decide⟩

theorem arenaAlloc_words :
    Along ArenaRun.call CallOk samplePages.run [wordCall 24 (by decide), wordCall 10 (by decide)] := by
  have aligned : ∀ call ∈ [wordCall 24 (by decide), wordCall 10 (by decide)], AlignOk samplePages call.align := by
    intro call mem
    refine Or.inr ⟨3, ?_, by decide⟩
    rcases List.mem_pair.mp mem with first | second
    · rw [first]
      rfl
    · rw [second]
      rfl
  refine (arenaAlloc_iff samplePages _ aligned).mpr ⟨?_, ?_, trivial⟩
  · exact Or.inr (Or.inl (by decide))
  · exact Or.inr (Or.inl (by decide))

/-- A block of almost 64 bits of size is returned behind a small one. -/
theorem arenaAlloc_wraps :
    ¬ Along ArenaRun.call CallOk samplePages.run [wordCall 16 (by decide), wordCall (2 ^ 64 - 8) (by decide)] := by
  rintro ⟨_, second, _⟩
  have aligned (size : Nat) (h : size < 2 ^ 64) : AlignOk samplePages (wordCall size h).align :=
    Or.inr ⟨3, rfl, by decide⟩
  have inUse := (call_fits samplePages.run_inUse (aligned 16 (by decide)) (Or.inr (Or.inl (by decide)))).2
  rcases call_fits_of_ok inUse (aligned (2 ^ 64 - 8) (by decide)) second with zero | small | large
  · exact absurd zero (by decide)
  · exact absurd small (by decide)
  · exact absurd large (by decide)

end Meridian.Limine
