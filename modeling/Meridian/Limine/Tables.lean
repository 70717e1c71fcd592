import Meridian.Limine.Paging
import Meridian.Lib.Radix
import Meridian.Lib.Result

/-!
# The page tables as a radix tree

The pool's pages encode a radix tree (`Encodes`), except for the root's first entry, which the
build sets to an alias of another. A call of `limineMapPage` stores one leaf in the tree, and a
loop over such calls overwrites the tree's map page by page.
-/

namespace Meridian.Limine

open Lib.Word Lib.Radix

/-! ### Entries -/

/-- Page tables are taken from aligned pages of physical memory. -/
structure Pool (pool pages : Nat) : Prop where
  aligned : pool % 4096 = 0
  positive : pool ≠ 0
  fits : pool + pages * 4096 ≤ 2 ^ 52

def tableAddr (pool n : Nat) : Nat := pool + n * 4096

def encode (pool : Nat) : Slot Nat → Nat
  | .empty => 0
  | .child n => tableAddr pool n + 3
  | .leaf entry => entry

theorem present_iff (e : Nat) : present e = decide (e % 2 = 1) := Nat.testBit_zero e

theorem pageSize_iff (e : Nat) : pageSize e = decide (e / 128 % 2 = 1) :=
  Nat.testBit_eq_decide_div_mod_eq

theorem and_ptePresent (e : Nat) : e &&& ptePresent = e % 2 := Nat.and_one_is_mod e

theorem and_pteAddrMask {e : Nat} (h : e < 2 ^ 52) : e &&& pteAddrMask = e / 4096 * 4096 :=
  clearLow_eq (w := 52) (k := 12) (by decide) h

theorem and_largeMask {e : Nat} (h : e < 2 ^ 64) :
    e &&& (2 ^ 64 - limineLargePageSize) = e / 2 ^ 21 * 2 ^ 21 :=
  clearLow_eq (w := 64) (k := 21) (by decide) h

theorem index_eq (virt s : Nat) : virt >>> s &&& 0x1ff = virt / 2 ^ s % 512 := shift_mask virt s 9

theorem word_setWord_self (st : PagingState) (addr value : Nat) :
    (st.setWord addr value).word addr = value := Function.update_self _ _ _

theorem word_setWord_ne {st : PagingState} {addr addr' value : Nat} (h : addr' ≠ addr) :
    (st.setWord addr value).word addr' = st.word addr' := Function.update_of_ne h _ _

theorem word_zeroPage {st : PagingState} {page addr : Nat} :
    (st.zeroPage page).word addr = if page ≤ addr ∧ addr < page + 4096 then 0 else st.word addr := rfl

variable {pool pages low : Nat} {st st' : PagingState} {t : RadixTree Nat} {path : List Nat} {n i : Nat}

/-- The page tables in memory are the radix tree, with this word in the root's first entry. -/
structure Encodes (pool pages low : Nat) (st : PagingState) (t : RadixTree Nat) : Prop where
  poolPhys : st.ctx.tablePoolPhys = pool
  poolPages : st.ctx.tablePoolPages = pages
  pml4 : st.ctx.pml4Phys = pool
  used : st.ctx.tablePoolUsed = t.used
  within : t.used ≤ pages
  words : ∀ {n i}, n < t.used → i < 512 → n ≠ 0 ∨ i ≠ 0 →
    st.word (tableAddr pool n + 8 * i) = encode pool (t.slot n i)
  low : st.word pool = low

/-- The leaves of the direct map are in page directories, those of the image in page tables. -/
def leafDepth (i : Nat) : Nat := if i = 511 then 3 else 2

theorem entry_addr_inj {n' i' : Nat} (hi : i < 512) (hi' : i' < 512)
    (h : tableAddr pool n + 8 * i = tableAddr pool n' + 8 * i') : n = n' ∧ i = i' := by
  unfold tableAddr at h
  omega

/-- The slots that the tree answers for: all but the first of the root. -/
theorem not_low (reach : t.node path = some n) (h : path.headD i ≠ 0) : n ≠ 0 ∨ i ≠ 0 := by
  cases path with
  | nil => exact Or.inr h
  | cons j path =>
    left
    rintro rfl
    exact absurd (RadixTree.node_injective reach (RadixTree.node_nil t)) (by simp)

/-- Writing the link to the new page gives the linked tree. -/
theorem Encodes.link (h : Encodes pool pages low st t) (here : n < t.used) (room : t.used < pages)
    (index : i < 512) (notLow : n ≠ 0 ∨ i ≠ 0) :
    Encodes pool pages low
      (((st.setUsed (t.used + 1)).zeroPage (tableAddr pool t.used)).setWord (tableAddr pool n + 8 * i)
        (tableAddr pool t.used + 3)) (t.link n i here) := by
  refine ⟨h.poolPhys, h.poolPages, h.pml4, rfl, room, ?_, ?_⟩
  · intro k j below indexJ notLowKJ
    by_cases same : k = n ∧ j = i
    · obtain ⟨rfl, rfl⟩ := same
      rw [RadixTree.link_slot_self, word_setWord_self]
      rfl
    · have differ : tableAddr pool k + 8 * j ≠ tableAddr pool n + 8 * i :=
        fun eq => same (entry_addr_inj indexJ index eq)
      have taken : k < t.used + 1 := below
      rw [RadixTree.link_slot_ne same, word_setWord_ne differ, word_zeroPage]
      by_cases fresh : k = t.used
      · subst fresh
        rw [if_pos (by omega), t.unused j (Nat.le_refl _)]
        rfl
      · rw [if_neg (by unfold tableAddr; omega)]
        exact h.words (by omega) indexJ notLowKJ
  · have differ : pool ≠ tableAddr pool n + 8 * i := by unfold tableAddr; omega
    have root := t.root
    rw [word_setWord_ne differ, word_zeroPage, if_neg (by unfold tableAddr; omega)]
    exact h.low

/-- Writing a leaf at its depth stores it in the tree. -/
theorem Encodes.store (h : Encodes pool pages low st t) (here : n < t.used) (index : i < 512)
    (notLow : n ≠ 0 ∨ i ≠ 0) (entry : Nat) :
    Encodes pool pages low (st.setWord (tableAddr pool n + 8 * i) entry) (t.store n i entry here) := by
  refine ⟨h.poolPhys, h.poolPages, h.pml4, h.used, h.within, ?_, ?_⟩
  · intro k j below indexJ notLowKJ
    by_cases same : k = n ∧ j = i
    · obtain ⟨rfl, rfl⟩ := same
      rw [RadixTree.store_slot_self, word_setWord_self]
      rfl
    · have differ : tableAddr pool k + 8 * j ≠ tableAddr pool n + 8 * i :=
        fun eq => same (entry_addr_inj indexJ index eq)
      rw [RadixTree.store_slot_ne same, word_setWord_ne differ]
      exact h.words below indexJ notLowKJ
  · have differ : pool ≠ tableAddr pool n + 8 * i := by unfold tableAddr; omega
    rw [word_setWord_ne differ]
    exact h.low

/-- Tables are added, and what the tree denotes stays. -/
structure Extends (t t' : RadixTree Nat) : Prop where
  denote : t'.denote = t.denote
  nodes : ∀ path n, t.node path = some n → t'.node path = some n

theorem Extends.refl (t : RadixTree Nat) : Extends t t := ⟨rfl, fun _ _ h => h⟩

theorem Extends.trans {t' t'' : RadixTree Nat} (h : Extends t t') (h' : Extends t' t'') : Extends t t'' :=
  ⟨h'.denote.trans h.denote, fun path n reach => h'.nodes path n (h.nodes path n reach)⟩

section Allocation

variable (hp : Pool pool pages)

include hp

theorem tableAddr_bounds (h : n < pages) :
    tableAddr pool n % 4096 = 0 ∧ tableAddr pool n ≠ 0 ∧ tableAddr pool n + 4096 ≤ 2 ^ 52 := by
  have aligned := hp.aligned
  have positive := hp.positive
  have fits := hp.fits
  unfold tableAddr
  omega

/-- An entry for a child table. -/
theorem child_entry (h : n < pages) :
    (tableAddr pool n + 3) % 2 = 1 ∧ (tableAddr pool n + 3) &&& pteAddrMask = tableAddr pool n ∧
      (tableAddr pool n ||| ptePresent ||| pteWrite) = tableAddr pool n + 3 := by
  obtain ⟨aligned, _, fits⟩ := tableAddr_bounds hp h
  refine ⟨by omega, ?_, ?_⟩
  · rw [and_pteAddrMask (by omega)]
    omega
  · rw [Nat.or_assoc]
    exact or_low (k := 12) aligned (by decide)

/-- The pool's next page, linked as a new node. -/
theorem allocTable_spec (h : Encodes pool pages low st t) {next : Nat}
    (eq : allocTable st = (st', next)) (room : next ≠ 0) :
    t.used < pages ∧ next = tableAddr pool t.used ∧
      st' = (st.setUsed (t.used + 1)).zeroPage (tableAddr pool t.used) := by
  unfold allocTable at eq
  rw [h.poolPhys, h.poolPages, h.used] at eq
  split at eq
  · cases eq
    exact absurd rfl room
  · rename_i free
    have fits := hp.fits
    have addr : u64 (pool + t.used * liminePageSize) = tableAddr pool t.used :=
      u64_of_lt (by unfold liminePageSize; omega)
    simp only [addr] at eq
    cases eq
    exact ⟨Nat.lt_of_not_le free, rfl, rfl⟩

/-- One step down: the table under a slot above the leaves, new or not. -/
theorem nextLevel_spec (h : Encodes pool pages low st t) (layered : RadixTree.Layered leafDepth t)
    (reach : t.node path = some n) (index : i < 512) (notRoot : path.headD i ≠ 0)
    (above : path.length < leafDepth (path.headD i)) {next : Nat}
    (eq : nextLevel st (tableAddr pool n) i = (st', next)) (room : next ≠ 0) :
    ∃ t' m, Encodes pool pages low st' t' ∧ RadixTree.Layered leafDepth t' ∧ Extends t t' ∧
      t'.node (path ++ [i]) = some m ∧ next = tableAddr pool m := by
  have here : n < t.used := RadixTree.node_lt reach
  have notLow := not_low reach notRoot
  unfold nextLevel at eq
  simp only [h.words here index notLow, and_ptePresent] at eq
  cases slot : t.slot n i with
  | leaf entry => exact absurd slot (layered.not_leaf reach above entry)
  | child m =>
    have below := (t.up slot).2
    obtain ⟨odd, masked, _⟩ := child_entry hp (below.trans_le h.within)
    simp only [slot, encode, odd, masked] at eq
    cases eq
    refine ⟨t, m, h, layered, Extends.refl t, ?_, rfl⟩
    rw [RadixTree.node_concat_of reach, slot]
    rfl
  | empty =>
    simp only [slot, encode, Nat.zero_mod, ne_eq, not_true_eq_false, if_false] at eq
    obtain ⟨st₁, page, alloc⟩ : ∃ st₁ page, allocTable st = (st₁, page) := ⟨_, _, rfl⟩
    rw [alloc] at eq
    dsimp only at eq
    split at eq
    · cases eq
      exact absurd rfl room
    · rename_i got
      obtain ⟨free, rfl, rfl⟩ := allocTable_spec hp h alloc got
      rw [(child_entry hp free).2.2] at eq
      cases eq
      refine ⟨t.link n i here, t.used, h.link here free index notLow,
        layered.link reach slot above, ⟨RadixTree.denote_link reach slot, ?_⟩, ?_, rfl⟩
      · intro path' k found
        rw [RadixTree.node_link reach slot]
        split
        · rename_i new
          rw [new, RadixTree.node_concat_of reach, slot] at found
          cases found
        · exact found
      · rw [RadixTree.node_link reach slot, if_pos rfl]

end Allocation

/-! ### The rest of the context -/

/-- The contexts differ in the use of the pool only. -/
def SameContext (st st' : PagingState) : Prop := (st'.setUsed 0).ctx = (st.setUsed 0).ctx

theorem allocTable_context : SameContext st (allocTable st).1 := by
  unfold allocTable
  split <;> rfl

theorem nextLevel_context {table index next : Nat} (eq : nextLevel st table index = (st', next)) :
    SameContext st st' := by
  have alloc := @allocTable_context st
  unfold nextLevel at eq
  dsimp only at eq
  split at eq
  · cases eq
    rfl
  · split at eq
    · cases eq
      exact alloc
    · cases eq
      exact alloc

theorem limineMapPage_context {virt phys flags : Nat} {large : Bool}
    (eq : limineMapPage st virt phys flags large = .ok st') : SameContext st st' := by
  unfold limineMapPage at eq
  obtain ⟨st₁, pdpt, step₁⟩ : ∃ st₁ pdpt, nextLevel st st.ctx.pml4Phys (pml4Index virt) = (st₁, pdpt) :=
    ⟨_, _, rfl⟩
  obtain ⟨st₂, pd, step₂⟩ : ∃ st₂ pd, nextLevel st₁ pdpt (pdptIndex virt) = (st₂, pd) := ⟨_, _, rfl⟩
  obtain ⟨st₃, pt, step₃⟩ : ∃ st₃ pt, nextLevel st₂ pd (pdIndex virt) = (st₃, pt) := ⟨_, _, rfl⟩
  have context₂ := (nextLevel_context step₂).trans (nextLevel_context step₁)
  simp only [step₁, step₂, step₃] at eq
  split at eq
  · cases eq
  · split at eq
    · cases eq
    · split at eq
      · cases eq
      · split at eq
        · cases eq
          exact context₂
        · split at eq
          · cases eq
          · cases eq
            exact (nextLevel_context step₃).trans context₂

theorem foldlM_context {step : PagingState → Nat → Except EfiStatus PagingState} {items : List Nat}
    (spec : ∀ offset st st', step st offset = .ok st' → SameContext st st')
    (eq : items.foldlM step st = .ok st') : SameContext st st' := by
  induction items generalizing st with
  | nil =>
    cases eq
    rfl
  | cons offset items ih =>
    rw [List.foldlM_cons] at eq
    obtain ⟨st₁, first, rest⟩ := Lib.Result.bind_eq_ok.mp eq
    exact (ih rest).trans (spec offset st st₁ first)

/-! ### Mapping a page -/

/-- One leaf was stored, and perhaps tables added. -/
structure Mapped (pool pages low : Nat) (t : RadixTree Nat) (st' : PagingState) (t' : RadixTree Nat)
    (path : List Nat) (i entry : Nat) : Prop where
  encodes : Encodes pool pages low st' t'
  layered : RadixTree.Layered leafDepth t'
  denote : t'.denote = Function.update t.denote (path, i) (some entry)
  nodes : ∀ path n, t.node path = some n → t'.node path = some n

theorem Extends.store {t' : RadixTree Nat} (extends_ : Extends t t') (h : Encodes pool pages low st' t')
    (layered : RadixTree.Layered leafDepth t') (reach : t'.node path = some n) (index : i < 512)
    (notRoot : path.headD i ≠ 0) (bottom : path.length = leafDepth (path.headD i)) (entry : Nat) :
    ∃ t'', Mapped pool pages low t (st'.setWord (tableAddr pool n + 8 * i) entry) t'' path i entry := by
  have here := RadixTree.node_lt reach
  refine ⟨t'.store n i entry here, h.store here index (not_low reach notRoot) entry,
    layered.store reach bottom entry, ?_, ?_⟩
  · rw [RadixTree.denote_store reach (layered.not_child reach bottom), extends_.denote]
  · intro path' k found
    rw [RadixTree.node_store (layered.not_child reach bottom)]
    exact extends_.nodes path' k found

theorem index_lt (virt s : Nat) : virt >>> s &&& 0x1ff < 512 := by
  rw [index_eq]
  exact Nat.mod_lt _ (by decide)

/-- A call that succeeds stores the page's entry in the directory or the table of its address. -/
theorem limineMapPage_spec (hp : Pool pool pages) (h : Encodes pool pages low st t)
    (layered : RadixTree.Layered leafDepth t) {virt phys flags : Nat} {large : Bool}
    (notRoot : pml4Index virt ≠ 0) (depth : leafDepth (pml4Index virt) = if large then 2 else 3)
    (eq : limineMapPage st virt phys flags large = .ok st') :
    ∃ t', if large then
        Mapped pool pages low t st' t' [pml4Index virt, pdptIndex virt] (pdIndex virt)
          (phys &&& (2 ^ 64 - limineLargePageSize) ||| flags ||| pteLarge)
      else
        Mapped pool pages low t st' t' [pml4Index virt, pdptIndex virt, pdIndex virt] (ptIndex virt)
          (phys &&& pteAddrMask ||| flags) := by
  have deep : 2 ≤ leafDepth (pml4Index virt) := by rw [depth]; split <;> omega
  unfold limineMapPage at eq
  rw [h.pml4, if_neg hp.positive] at eq
  have root : pool = tableAddr pool 0 := by unfold tableAddr; omega
  rw [root] at eq
  obtain ⟨st₁, pdpt, step₁⟩ : ∃ st₁ pdpt, nextLevel st (tableAddr pool 0) (pml4Index virt) = (st₁, pdpt) :=
    ⟨_, _, rfl⟩
  rw [step₁] at eq
  dsimp only at eq
  split at eq
  · cases eq
  · rename_i got₁
    obtain ⟨t₁, n₁, h₁, layered₁, extends₁, reach₁, rfl⟩ := nextLevel_spec hp h layered (RadixTree.node_nil t)
      (index_lt virt 39) notRoot (Nat.zero_lt_of_lt deep) step₁ got₁
    obtain ⟨st₂, pd, step₂⟩ : ∃ st₂ pd, nextLevel st₁ (tableAddr pool n₁) (pdptIndex virt) = (st₂, pd) :=
      ⟨_, _, rfl⟩
    rw [step₂] at eq
    dsimp only at eq
    split at eq
    · cases eq
    · rename_i got₂
      obtain ⟨t₂, n₂, h₂, layered₂, extends₂, reach₂, rfl⟩ := nextLevel_spec hp h₁ layered₁ reach₁
        (index_lt virt 30) notRoot (Nat.lt_of_lt_of_le Nat.one_lt_two deep) step₂ got₂
      have extends₁₂ := extends₁.trans extends₂
      cases large with
      | true =>
        rw [if_pos rfl] at eq
        cases eq
        exact extends₁₂.store h₂ layered₂ reach₂ (index_lt virt 21) notRoot depth.symm _
      | false =>
        rw [if_neg (by decide)] at eq
        obtain ⟨st₃, pt, step₃⟩ : ∃ st₃ pt, nextLevel st₂ (tableAddr pool n₂) (pdIndex virt) = (st₃, pt) :=
          ⟨_, _, rfl⟩
        rw [step₃] at eq
        dsimp only at eq
        split at eq
        · cases eq
        · rename_i got₃
          have three : leafDepth (pml4Index virt) = 3 := depth
          obtain ⟨t₃, n₃, h₃, layered₃, extends₃, reach₃, rfl⟩ := nextLevel_spec hp h₂ layered₂ reach₂
            (index_lt virt 21) notRoot (Nat.lt_of_lt_of_eq (Nat.lt_succ_self 2) three.symm) step₃ got₃
          cases eq
          exact (extends₁₂.trans extends₃).store h₃ layered₃ reach₃ (index_lt virt 12) notRoot
            depth.symm _

/-- A loop of calls overwrites the tree's map, one page for each offset. -/
theorem foldlM_mapped {step : PagingState → Nat → Except EfiStatus PagingState} {key : Nat → List Nat × Nat}
    {entry : Nat → Nat} {items : List Nat}
    (spec : ∀ offset ∈ items, ∀ st t st', Encodes pool pages low st t → RadixTree.Layered leafDepth t →
      step st offset = .ok st' →
      ∃ t', Mapped pool pages low t st' t' (key offset).1 (key offset).2 (entry offset))
    (h : Encodes pool pages low st t) (layered : RadixTree.Layered leafDepth t)
    (eq : items.foldlM step st = .ok st') :
    ∃ t', Encodes pool pages low st' t' ∧ RadixTree.Layered leafDepth t' ∧
      t'.denote = overwrite key entry t.denote items ∧
      ∀ path n, t.node path = some n → t'.node path = some n := by
  induction items generalizing st t with
  | nil =>
    cases eq
    exact ⟨t, h, layered, rfl, fun _ _ found => found⟩
  | cons offset items ih =>
    rw [List.foldlM_cons] at eq
    obtain ⟨st₁, first, rest⟩ := Lib.Result.bind_eq_ok.mp eq
    obtain ⟨t₁, mapped⟩ := spec offset List.mem_cons_self st t st₁ h layered first
    obtain ⟨t', h', layered', denote', nodes'⟩ :=
      ih (fun other mem => spec other (List.mem_cons_of_mem offset mem)) mapped.encodes
        mapped.layered rest
    exact ⟨t', h', layered', by rw [denote', mapped.denote]; rfl,
      fun path n found => nodes' path n (mapped.nodes path n found)⟩

end Meridian.Limine
