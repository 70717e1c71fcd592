import Meridian.Limine.Build

/-!
# What the built tables translate

The processor's walk reads the map that the build left, so every address of the direct map, the
framebuffer and the image translates as intended. A table is under one path only, apart from the low
half's alias.
-/

namespace Meridian.Limine

open Lib.Word Lib.Radix Lib.Result

/-! ### Reading the map -/

section Map

variable {ctx : LimineCtx} {highest a : Nat}

/-- Whatever an address' last write was for, it was the large page that the address is on. -/
theorem overwrite_directKey {map : List Nat × Nat → Option Nat} {bits : Nat} {items : List Nat}
    (below : ∀ offset ∈ items, offset < limineMaxDirectMap) (bound : a < limineMaxDirectMap)
    (written : ∃ page ∈ items, page / 2 ^ 21 = a / 2 ^ 21) :
    overwrite directKey (largeEntry bits) map items (directKey a) = some (largeEntry bits a) := by
  obtain ⟨offset, mem, same⟩ := written
  have sameKey : directKey offset = directKey a := by
    simp only [directKey, Prod.mk.injEq, List.cons.injEq, and_true, true_and]
    omega
  obtain ⟨last, lastMem, lastKey, result⟩ := @overwrite_of_mem _ _ _ _ directKey (largeEntry bits)
    map _ _ ⟨offset, mem, sameKey⟩
  rw [result, largeEntry, largeEntry, directKey_inj (below last lastMem) bound lastKey]

theorem mem_directPages (h : a < highest) :
    ∃ offset ∈ offsets 0 highest limineLargePageSize, offset / 2 ^ 21 = a / 2 ^ 21 := by
  refine ⟨2 ^ 21 * (a / 2 ^ 21), (mem_offsets (by decide)).mpr ⟨a / 2 ^ 21, ?_, ?_⟩, ?_⟩
  · rw [Nat.zero_add]
    rfl
  · omega
  · omega

theorem tablesMap_directKey (ctx : LimineCtx) (highest a : Nat) :
    tablesMap ctx highest (directKey a) =
      overwrite directKey (largeEntry writeCombiningBits)
        (overwrite directKey (largeEntry directBits) (fun _ => none)
          (offsets 0 highest limineLargePageSize)) (framebufferPages ctx) (directKey a) :=
  overwrite_of_not_mem fun _ _ same => directKey_ne_imageKey a _ same.symm

/-- An address of the direct map has a large page at itself. -/
theorem tablesMap_direct (bound : highest ≤ limineMaxDirectMap) (below : a < highest) :
    ∃ bits, (bits = directBits ∨ bits = writeCombiningBits) ∧
      tablesMap ctx highest (directKey a) = some (largeEntry bits a) := by
  rw [tablesMap_directKey]
  by_cases framebuffer : ∃ offset ∈ framebufferPages ctx, offset / 2 ^ 21 = a / 2 ^ 21
  · refine ⟨writeCombiningBits, Or.inr rfl, ?_⟩
    exact overwrite_directKey (fun offset mem => offset_of_mem_framebufferPages mem)
      (below.trans_le bound) framebuffer
  · refine ⟨directBits, Or.inl rfl, ?_⟩
    rw [overwrite_of_not_mem]
    · refine overwrite_directKey ?_ (below.trans_le bound) (mem_directPages below)
      intro offset mem
      obtain ⟨k, _, lt⟩ := (mem_offsets (by decide)).mp mem
      exact lt.trans_le bound
    · intro offset mem same
      exact framebuffer ⟨offset, mem,
        directKey_inj (offset_of_mem_framebufferPages mem) (below.trans_le bound) same⟩

/-- The framebuffer is within the direct map's limit. -/
structure FramebufferOk (ctx : LimineCtx) : Prop where
  phys : ctx.fbPhys ≠ 0
  size : ctx.fbSize ≠ 0
  fits : ctx.fbPhys + ctx.fbSize ≤ limineMaxDirectMap

/-- The large pages that hold a framebuffer below the direct map's limit. -/
theorem framebufferPages_iff {ctx : LimineCtx} (fits : ctx.fbPhys + ctx.fbSize ≤ limineMaxDirectMap) {offset : Nat} :
    offset ∈ framebufferPages ctx ↔ (ctx.fbPhys ≠ 0 ∧ ctx.fbSize ≠ 0) ∧
      ∃ k, offset = ctx.fbPhys / 2 ^ 21 * 2 ^ 21 + 2 ^ 21 * k ∧
        offset < (ctx.fbPhys + ctx.fbSize + 2 ^ 21 - 1) / 2 ^ 21 * 2 ^ 21 := by
  have max : limineMaxDirectMap = 2 ^ 39 := by decide
  have large : limineLargePageSize = 2 ^ 21 := by decide
  rw [max] at fits
  have start : ctx.fbPhys &&& (2 ^ 64 - limineLargePageSize) = ctx.fbPhys / 2 ^ 21 * 2 ^ 21 :=
    and_largeMask (by omega)
  have sum : u64 (ctx.fbPhys + ctx.fbSize + limineLargePageSize - 1) =
      ctx.fbPhys + ctx.fbSize + limineLargePageSize - 1 := u64_of_lt (by omega)
  have stop : (ctx.fbPhys + ctx.fbSize + limineLargePageSize - 1) &&& (2 ^ 64 - limineLargePageSize) =
      (ctx.fbPhys + ctx.fbSize + limineLargePageSize - 1) / 2 ^ 21 * 2 ^ 21 :=
    and_largeMask (by omega)
  unfold framebufferPages
  split
  case isTrue present =>
    simp only [sum, start, stop, max]
    rw [large, if_pos (by omega), mem_offsets (by decide), and_iff_right present]
  case isFalse absent =>
    constructor
    · intro mem
      cases mem
    · intro mem
      exact absurd mem.1 absent

theorem mem_framebufferPages (framebuffer : FramebufferOk ctx) (first : ctx.fbPhys / 4096 ≤ a / 4096)
    (last : a / 4096 ≤ (ctx.fbPhys + ctx.fbSize - 1) / 4096) :
    ∃ offset ∈ framebufferPages ctx, offset / 2 ^ 21 = a / 2 ^ 21 := by
  obtain ⟨phys, size, fits⟩ := framebuffer
  refine ⟨ctx.fbPhys / 2 ^ 21 * 2 ^ 21 + 2 ^ 21 * (a / 2 ^ 21 - ctx.fbPhys / 2 ^ 21),
    (framebufferPages_iff fits).mpr ⟨⟨phys, size⟩, _, rfl, ?_⟩, ?_⟩
  · omega
  · omega

/-- An address on a page of the framebuffer has a write-combining large page at itself. -/
theorem tablesMap_framebuffer (highest : Nat) (framebuffer : FramebufferOk ctx)
    (first : ctx.fbPhys / 4096 ≤ a / 4096)
    (last : a / 4096 ≤ (ctx.fbPhys + ctx.fbSize - 1) / 4096) :
    tablesMap ctx highest (directKey a) = some (largeEntry writeCombiningBits a) := by
  have max : limineMaxDirectMap = 2 ^ 39 := by decide
  have fits := framebuffer.fits
  have size := framebuffer.size
  rw [tablesMap_directKey]
  exact overwrite_directKey (fun offset mem => offset_of_mem_framebufferPages mem) (by omega)
    (mem_framebufferPages framebuffer first last)

/-- An address of the image has a page at its place in physical memory. -/
theorem tablesMap_image (highest : Nat) (image : ImageOk ctx.imagePhys ctx.imageVirt ctx.imageSize) {offset : Nat}
    (below : offset < ctx.imageSize) :
    tablesMap ctx highest (imageKey (ctx.imageVirt + offset)) =
      some (ctx.imagePhys + offset / 4096 * 4096 + 3) := by
  obtain ⟨_, aligned, high, top, _⟩ := image
  unfold limineHigherHalfBase at high
  have mem : offset / 4096 * 4096 ∈ offsets 0 ctx.imageSize liminePageSize := by
    refine (mem_offsets (by decide)).mpr ⟨offset / 4096, ?_, by omega⟩
    rw [Nat.zero_add, Nat.mul_comm]
    rfl
  have sameKey : imageKey (ctx.imageVirt + offset / 4096 * 4096) = imageKey (ctx.imageVirt + offset) := by
    simp only [imageKey, Prod.mk.injEq, List.cons.injEq, and_true, true_and]
    omega
  obtain ⟨page, pageMem, pageKey, result⟩ :=
    @overwrite_of_mem _ _ _ _ (fun offset => imageKey (ctx.imageVirt + offset)) _ _ _ _
      ⟨_, mem, sameKey⟩
  obtain ⟨k, page_eq, lt⟩ := (mem_offsets (by decide)).mp pageMem
  unfold liminePageSize at page_eq
  have samePage := imageKey_inj (by omega) (by omega) pageKey
  rw [tablesMap, result, show page = offset / 4096 * 4096 by omega]

/-- What a directory holds of the map are large pages. -/
theorem tablesMap_large {path : List Nat} {i entry : Nat} (short : path.length ≤ 2)
    (h : tablesMap ctx highest (path, i) = some entry) : pageSize entry = true := by
  have large : ∀ bits offset, bits = directBits ∨ bits = writeCombiningBits →
      pageSize (largeEntry bits offset) = true := by
    intro bits offset which
    rw [pageSize_iff, decide_eq_true_iff]
    rcases which with rfl | rfl
    · unfold largeEntry directBits
      omega
    · unfold largeEntry writeCombiningBits
      omega
  rcases overwrite_cases h with direct | ⟨offset, _, key, _⟩
  · rcases overwrite_cases direct with direct | ⟨offset, _, _, rfl⟩
    · rcases overwrite_cases direct with absent | ⟨offset, _, _, rfl⟩
      · cases absent
      · exact large _ _ (Or.inl rfl)
    · exact large _ _ (Or.inr rfl)
  · have path_eq : (imageKey (ctx.imageVirt + offset)).1 = path := congrArg Prod.fst key
    rw [← path_eq] at short
    simp [imageKey] at short

end Map

/-! ### Walking the tables -/

section Walk

variable {word : Nat → Nat} {cr3 virt e₄ e₃ e₂ e₁ : Nat}

theorem translate_of_large (canon : canonical virt = true)
    (at₄ : entryOf word cr3 (virt / 2 ^ 39 % 512) = some e₄)
    (at₃ : entryOf word (frame 12 e₄) (virt / 2 ^ 30 % 512) = some e₃) (table₃ : pageSize e₃ = false)
    (at₂ : entryOf word (frame 12 e₃) (virt / 2 ^ 21 % 512) = some e₂) (page₂ : pageSize e₂ = true) :
    translate word cr3 virt = some (frame 21 e₂ + virt % 2 ^ 21, e₂) := by
  simp only [translate, canon, at₄, at₃, table₃, at₂, page₂, Option.bind_eq_bind, Option.bind_some]
  rfl

theorem translate_of_small (canon : canonical virt = true)
    (at₄ : entryOf word cr3 (virt / 2 ^ 39 % 512) = some e₄)
    (at₃ : entryOf word (frame 12 e₄) (virt / 2 ^ 30 % 512) = some e₃) (table₃ : pageSize e₃ = false)
    (at₂ : entryOf word (frame 12 e₃) (virt / 2 ^ 21 % 512) = some e₂) (table₂ : pageSize e₂ = false)
    (at₁ : entryOf word (frame 12 e₂) (virt / 2 ^ 12 % 512) = some e₁) :
    translate word cr3 virt = some (frame 12 e₁ + virt % 2 ^ 12, e₁) := by
  simp only [translate, canon, at₄, at₃, table₃, at₂, table₂, at₁, Option.bind_eq_bind,
    Option.bind_some]
  rfl

/-- The path under the direct map's entry for a path under the low half's. -/
def unalias : List Nat → List Nat
  | 0 :: path => 256 :: path
  | path => path

theorem unalias_concat {path : List Nat} (h : path ≠ []) (i : Nat) :
    unalias (path ++ [i]) = unalias path ++ [i] := by
  cases path with
  | nil => exact absurd rfl h
  | cons j path => cases j <;> rfl

theorem unalias_of_ne {i : Nat} (h : i ≠ 0) (path : List Nat) : unalias (i :: path) = i :: path := by
  cases i with
  | zero => exact absurd rfl h
  | succ i => rfl

theorem length_unalias (path : List Nat) : (unalias path).length = path.length := by
  cases path with
  | nil => rfl
  | cons i path => cases i <;> rfl

theorem unalias_headD (path : List Nat) (h : path ≠ []) (i : Nat) : (unalias path).headD i ≠ 0 := by
  cases path with
  | nil => exact absurd rfl h
  | cons j path =>
    cases j with
    | zero => exact Nat.succ_ne_zero 255
    | succ j => exact Nat.succ_ne_zero j

theorem tableAt_concat_eq_some {path : List Nat} {i table : Nat} :
    tableAt word cr3 (path ++ [i]) = some table ↔ ∃ table' entry, tableAt word cr3 path = some table' ∧
      entryOf word table' i = some entry ∧ pageSize entry = false ∧ frame 12 entry = table := by
  simp only [tableAt, List.foldlM_append, List.foldlM_cons, List.foldlM_nil, Option.bind_eq_bind,
    Option.bind_eq_some_iff, Option.pure_def, Option.some.injEq, exists_and_left, exists_eq_right]
  refine exists_congr fun table' => and_congr_right fun _ => exists_congr fun entry =>
    and_congr_right fun _ => ?_
  cases pageSize entry <;> simp

variable {pool pages low highest direct n m i entry : Nat} {ctx : LimineCtx} {st : PagingState}
  {t : RadixTree Nat} {path : List Nat}

theorem frame_tableAddr (hp : Pool pool pages) (h : m < pages) :
    frame 12 (tableAddr pool m + 3) = tableAddr pool m ∧ pageSize (tableAddr pool m + 3) = false := by
  obtain ⟨aligned, _, fits⟩ := tableAddr_bounds hp h
  refine ⟨?_, ?_⟩
  · unfold frame
    omega
  · rw [pageSize_iff, decide_eq_false_iff_not]
    omega

theorem entryOf_of {word : Nat → Nat} {table : Nat} (h : word (table + 8 * i) = entry)
    (odd : entry % 2 = 1) : entryOf word table i = some entry := by
  simp [entryOf, h, present_iff, odd]

theorem entryOf_child (h : Encodes pool pages low st t) (hp : Pool pool pages) (index : i < 512)
    (notLow : n ≠ 0 ∨ i ≠ 0) (slot : t.slot n i = .child m) :
    entryOf st.word (tableAddr pool n) i = some (tableAddr pool m + 3) := by
  have order := t.up slot
  refine entryOf_of ?_ (child_entry hp (order.2.trans_le h.within)).1
  rw [h.words (order.1.trans order.2) index notLow, slot]
  rfl

theorem entryOf_leaf (h : Encodes pool pages low st t) (index : i < 512) (notLow : n ≠ 0 ∨ i ≠ 0)
    (below : n < t.used) (slot : t.slot n i = .leaf entry) (odd : entry % 2 = 1) :
    entryOf st.word (tableAddr pool n) i = some entry := by
  refine entryOf_of ?_ odd
  rw [h.words below index notLow, slot]
  rfl

theorem top_ne_zero {k : Nat} (top : unalias [i] = [k]) : k ≠ 0 := by
  have head := unalias_headD [i] (List.cons_ne_nil _ _) 0
  rw [top] at head
  exact head

namespace Built

variable (built : Built pool pages ctx highest st t direct) (hp : Pool pool pages)

include built hp

/-- The root's entries lead to the tables of the direct map, from both halves, and of the image. -/
theorem entryOf_root (index : i < 512) (reach : t.node (unalias [i]) = some m) :
    entryOf st.word pool i = some (tableAddr pool m + 3) := by
  cases i with
  | zero =>
    have same : direct = m := Option.some.inj (built.directTable.symm.trans reach)
    refine entryOf_of ?_ (child_entry hp ((RadixTree.node_lt reach).trans_le built.encodes.within)).1
    rw [Nat.mul_zero, Nat.add_zero, built.encodes.low, same]
  | succ i =>
    have reach : t.node ([] ++ [i + 1]) = some m := reach
    obtain ⟨root, atRoot, slot⟩ := RadixTree.node_concat_eq_some.mp reach
    cases atRoot
    have entry := entryOf_child built.encodes hp index (Or.inr (Nat.succ_ne_zero i)) slot
    rw [tableAddr, Nat.zero_mul, Nat.add_zero] at entry
    exact entry

/-- One step of the walk below the root: the entry leads to the table that the path leads to. -/
theorem entryOf_step (q : List Nat) (index : i < 512) (notRoot : q.headD i ≠ 0)
    (reach : t.node (q ++ [i]) = some m) (atPath : t.node q = some n) :
    entryOf st.word (tableAddr pool n) i = some (tableAddr pool m + 3) ∧
      frame 12 (tableAddr pool m + 3) = tableAddr pool m ∧ pageSize (tableAddr pool m + 3) = false := by
  obtain ⟨n', reach', child⟩ := RadixTree.node_concat_eq_some.mp reach
  have same : n' = n := Option.some.inj (reach'.symm.trans atPath)
  subst same
  exact ⟨entryOf_child built.encodes hp index (not_low atPath notRoot) child,
    frame_tableAddr hp ((RadixTree.node_lt reach).trans_le built.encodes.within)⟩

/-- The walk from the root to the table of a page directory. -/
theorem walk_directory (virt : Nat) {k pd : Nat} (top : unalias [virt / 2 ^ 39 % 512] = [k])
    (reach : t.node [k, virt / 2 ^ 30 % 512] = some pd) :
    ∃ e₄ e₃, entryOf st.word pool (virt / 2 ^ 39 % 512) = some e₄ ∧
      entryOf st.word (frame 12 e₄) (virt / 2 ^ 30 % 512) = some e₃ ∧ pageSize e₃ = false ∧
      frame 12 e₃ = tableAddr pool pd := by
  have index : ∀ s, virt / 2 ^ s % 512 < 512 := fun s => Nat.mod_lt _ (by decide)
  have reach : t.node ([k] ++ [virt / 2 ^ 30 % 512]) = some pd := reach
  obtain ⟨pdpt, reachPdpt, _⟩ := RadixTree.node_concat_eq_some.mp reach
  obtain ⟨framePdpt, _⟩ := frame_tableAddr hp ((RadixTree.node_lt reachPdpt).trans_le built.encodes.within)
  obtain ⟨at₃, framePd, tablePd⟩ := built.entryOf_step hp [k] (index 30) (top_ne_zero top) reach reachPdpt
  refine ⟨_, _, built.entryOf_root hp (index 39) (top ▸ reachPdpt), ?_, tablePd, framePd⟩
  rw [framePdpt]
  exact at₃

/-- The walk finds a large page that the map holds, from either half. -/
theorem translate_large (virt : Nat) {k : Nat} (canon : canonical virt = true)
    (top : unalias [virt / 2 ^ 39 % 512] = [k])
    (found : t.leafAt [k, virt / 2 ^ 30 % 512] (virt / 2 ^ 21 % 512) = some entry)
    (odd : entry % 2 = 1) (large : pageSize entry = true) :
    translate st.word pool virt = some (frame 21 entry + virt % 2 ^ 21, entry) := by
  obtain ⟨pd, reachPd, leaf⟩ := RadixTree.leafAt_eq_some.mp found
  obtain ⟨e₄, e₃, at₄, at₃, tablePd, framePd⟩ := built.walk_directory hp virt top reachPd
  have at₂ := entryOf_leaf built.encodes (Nat.mod_lt _ (by decide)) (not_low reachPd (top_ne_zero top))
    (RadixTree.node_lt reachPd) leaf odd
  refine translate_of_large canon at₄ at₃ tablePd ?_ large
  rw [framePd]
  exact at₂

/-- The walk finds a small page that the map holds. -/
theorem translate_small (virt : Nat) {k : Nat} (canon : canonical virt = true)
    (top : unalias [virt / 2 ^ 39 % 512] = [k])
    (found : t.leafAt [k, virt / 2 ^ 30 % 512, virt / 2 ^ 21 % 512] (virt / 2 ^ 12 % 512) = some entry)
    (odd : entry % 2 = 1) :
    translate st.word pool virt = some (frame 12 entry + virt % 2 ^ 12, entry) := by
  have index : ∀ s, virt / 2 ^ s % 512 < 512 := fun s => Nat.mod_lt _ (by decide)
  have notRoot := top_ne_zero top
  obtain ⟨pt, reachPt, leaf⟩ := RadixTree.leafAt_eq_some.mp found
  have reachPt : t.node ([k, virt / 2 ^ 30 % 512] ++ [virt / 2 ^ 21 % 512]) = some pt := reachPt
  obtain ⟨pd, reachPd, _⟩ := RadixTree.node_concat_eq_some.mp reachPt
  obtain ⟨e₄, e₃, at₄, at₃, tablePd, framePd⟩ := built.walk_directory hp virt top reachPd
  obtain ⟨at₂, framePt, tablePt⟩ := built.entryOf_step hp [k, virt / 2 ^ 30 % 512] (index 21) notRoot reachPt reachPd
  have at₁ := entryOf_leaf built.encodes (index 12) (not_low reachPt notRoot) (RadixTree.node_lt reachPt)
    leaf odd
  refine translate_of_small canon at₄ at₃ tablePd ?_ tablePt ?_
  · rw [framePd]
    exact at₂
  · rw [framePt]
    exact at₁

/-- Where a present entry leads: to the table of the next node, or it is an entry of the map. -/
theorem entry_cases (q : List Nat) (index : i < 512) (notRoot : q.headD i ≠ 0) (reach : t.node q = some n)
    (at_ : entryOf st.word (tableAddr pool n) i = some entry) :
    (∃ m, t.node (q ++ [i]) = some m ∧ pageSize entry = false ∧ frame 12 entry = tableAddr pool m) ∨
      tablesMap ctx highest (q, i) = some entry := by
  have here := RadixTree.node_lt reach
  have word := built.encodes.words here index (not_low reach notRoot)
  unfold entryOf at at_
  dsimp only at at_
  rw [word] at at_
  split at at_
  · rename_i isPresent
    cases at_
    cases slot : t.slot n i with
    | empty =>
      rw [slot, encode, present_iff] at isPresent
      simp at isPresent
    | child m =>
      have reach' := RadixTree.node_concat_eq_some.mpr ⟨n, reach, slot⟩
      have table := frame_tableAddr hp ((RadixTree.node_lt reach').trans_le built.encodes.within)
      exact Or.inl ⟨m, reach', table.2, table.1⟩
    | leaf e =>
      right
      rw [← built.denote]
      exact RadixTree.leafAt_eq_some.mpr ⟨n, reach, slot⟩
  · cases at_

/-- An entry that is no page leads to the table of the tree's node. -/
theorem next_node (q : List Nat) (index : i < 512) (notRoot : q.headD i ≠ 0) (short : q.length ≤ 2)
    (reach : t.node q = some n) (at_ : entryOf st.word (tableAddr pool n) i = some entry)
    (table : pageSize entry = false) :
    ∃ m, t.node (q ++ [i]) = some m ∧ frame 12 entry = tableAddr pool m := by
  rcases built.entry_cases hp q index notRoot reach at_ with ⟨m, reach', _, leads⟩ | page
  · exact ⟨m, reach', leads⟩
  · rw [tablesMap_large short page] at table
    cases table

/-- The table at a path is that of the tree, under the direct map's path for the low half. -/
theorem tableAt_node (short : path.length ≤ 3) (indices : ∀ i ∈ path, i < 512) {table : Nat}
    (h : tableAt st.word pool path = some table) :
    ∃ n, t.node (unalias path) = some n ∧ table = tableAddr pool n := by
  induction path using List.reverseRecOn generalizing table with
  | nil =>
    cases h
    exact ⟨0, rfl, by unfold tableAddr; omega⟩
  | append_singleton path i ih =>
    have index : i < 512 := indices i (List.mem_append_right path (List.mem_singleton_self i))
    rw [List.length_append, List.length_singleton] at short
    obtain ⟨table', entry, atPath, at_, notPage, rfl⟩ := tableAt_concat_eq_some.mp h
    obtain ⟨n, reach, rfl⟩ := ih (by omega) (fun j mem => indices j (List.mem_append_left _ mem)) atPath
    by_cases root : path = []
    · subst root
      cases reach
      rw [tableAddr, Nat.zero_mul, Nat.add_zero] at at_
      cases i with
      | zero =>
        have top := built.entryOf_root hp index built.directTable
        cases top.symm.trans at_
        exact ⟨direct, built.directTable,
          (frame_tableAddr hp ((RadixTree.node_lt built.directTable).trans_le built.encodes.within)).1⟩
      | succ i =>
        refine built.next_node hp [] index (Nat.succ_ne_zero i) (Nat.zero_le 2) rfl ?_ notPage
        rw [tableAddr, Nat.zero_mul, Nat.add_zero]
        exact at_
    · rw [unalias_concat root]
      refine built.next_node hp (unalias path) index (unalias_headD path root i) ?_ reach at_ notPage
      rw [length_unalias]
      omega

end Built

end Walk

/-! ### The build is correct -/

/-- Write-combining, for a large page: the attribute bit and write-through, and not cache-disable. -/
def writeCombining (entry : Nat) : Bool := entry.testBit 12 && entry.testBit 3 && !entry.testBit 4

/-- What the tables translate: the direct map from both halves, the image and the framebuffer. Two
paths to one table differ at most in the low half's alias. -/
structure TablesCorrect (ctx : LimineCtx) (highest : Nat) (word : Nat → Nat) (cr3 : Nat) : Prop where
  low : ∀ a < highest, ∃ entry, translate word cr3 a = some (a, entry)
  high : ∀ a < highest, ∃ entry, translate word cr3 (limineHhdmBase + a) = some (a, entry)
  image : ∀ offset < ctx.imageSize, ∃ entry,
    translate word cr3 (ctx.imageVirt + offset) = some (ctx.imagePhys + offset, entry)
  framebuffer : FramebufferOk ctx → ∀ a, ctx.fbPhys / 4096 ≤ a / 4096 →
    a / 4096 ≤ (ctx.fbPhys + ctx.fbSize - 1) / 4096 → ∃ entry,
      translate word cr3 (limineHhdmBase + a) = some (a, entry) ∧ writeCombining entry = true
  unique : ∀ path path' table, path.length ≤ 3 → path'.length ≤ 3 → (∀ i ∈ path, i < 512) →
    (∀ i ∈ path', i < 512) → tableAt word cr3 path = some table →
      tableAt word cr3 path' = some table → unalias path = unalias path'

section Correct

variable {pool pages highest direct a : Nat} {ctx : LimineCtx} {st st' : PagingState} {t : RadixTree Nat}

/-- A large page of the map, at both addresses of the direct map. -/
theorem Built.translate_direct (built : Built pool pages ctx highest st t direct) (hp : Pool pool pages)
    {bits : Nat} (which : bits = directBits ∨ bits = writeCombiningBits) (bound : a < limineMaxDirectMap)
    (found : tablesMap ctx highest (directKey a) = some (largeEntry bits a)) :
    translate st.word pool a = some (a, largeEntry bits a) ∧
      translate st.word pool (limineHhdmBase + a) = some (a, largeEntry bits a) := by
  have max : limineMaxDirectMap = 2 ^ 39 := by decide
  have base : limineHhdmBase = 2 ^ 64 - 2 ^ 47 := by decide
  rw [max] at bound
  have small : bits < 2 ^ 21 ∧ bits % 2 = 1 := by rcases which with rfl | rfl <;> decide
  have short : (directKey a).1.length ≤ 2 := Nat.le_refl 2
  have large : pageSize (largeEntry bits a) = true := tablesMap_large short found
  have odd : largeEntry bits a % 2 = 1 := by
    unfold largeEntry
    omega
  have address : frame 21 (largeEntry bits a) + a % 2 ^ 21 = a := by
    unfold frame largeEntry
    omega
  have leaf : t.leafAt [256, a / 2 ^ 30 % 512] (a / 2 ^ 21 % 512) = some (largeEntry bits a) :=
    (congrFun built.denote (directKey a)).trans found
  constructor
  · have canon : canonical a = true := by simp [canonical]; omega
    have top : unalias [a / 2 ^ 39 % 512] = [256] := by
      rw [Nat.div_eq_of_lt bound]
      rfl
    have walk := built.translate_large hp a canon top leaf odd large
    rwa [address] at walk
  · have canon : canonical (limineHhdmBase + a) = true := by simp [canonical, base]
    have top : unalias [(limineHhdmBase + a) / 2 ^ 39 % 512] = [256] := by
      rw [base, show (2 ^ 64 - 2 ^ 47 + a) / 2 ^ 39 % 512 = 256 by omega]
      rfl
    have i₃ : (limineHhdmBase + a) / 2 ^ 30 % 512 = a / 2 ^ 30 % 512 := by rw [base]; omega
    have i₂ : (limineHhdmBase + a) / 2 ^ 21 % 512 = a / 2 ^ 21 % 512 := by rw [base]; omega
    have last : (limineHhdmBase + a) % 2 ^ 21 = a % 2 ^ 21 := by rw [base]; omega
    rw [← i₃, ← i₂] at leaf
    have walk := built.translate_large hp (limineHhdmBase + a) canon top leaf odd large
    rwa [last, address] at walk

/-- A page of the image. -/
theorem Built.translate_image (built : Built pool pages ctx highest st t direct) (hp : Pool pool pages)
    (image : ImageOk ctx.imagePhys ctx.imageVirt ctx.imageSize) {offset : Nat}
    (below : offset < ctx.imageSize) :
    translate st.word pool (ctx.imageVirt + offset) =
      some (ctx.imagePhys + offset, ctx.imagePhys + offset / 4096 * 4096 + 3) := by
  have found := tablesMap_image highest image below
  obtain ⟨physAligned, virtAligned, high, top, phys⟩ := image
  unfold limineHigherHalfBase at high
  have leaf := (congrFun built.denote (imageKey (ctx.imageVirt + offset))).trans found
  have canon : canonical (ctx.imageVirt + offset) = true := by
    simp only [canonical, Bool.or_eq_true, decide_eq_true_iff]
    omega
  have top : unalias [(ctx.imageVirt + offset) / 2 ^ 39 % 512] = [511] := by
    rw [show (ctx.imageVirt + offset) / 2 ^ 39 % 512 = 511 by omega]
    rfl
  have address : frame 12 (ctx.imagePhys + offset / 4096 * 4096 + 3) +
      (ctx.imageVirt + offset) % 2 ^ 12 = ctx.imagePhys + offset := by
    unfold frame
    omega
  have walk := built.translate_small hp (ctx.imageVirt + offset) canon top leaf (by omega)
  rwa [address] at walk

/-- Being correct is about the image and the framebuffer only. -/
theorem TablesCorrect.congr {ctx' : LimineCtx} {word : Nat → Nat} {cr3 : Nat}
    (h : TablesCorrect ctx highest word cr3) (phys : ctx'.imagePhys = ctx.imagePhys)
    (virt : ctx'.imageVirt = ctx.imageVirt) (size : ctx'.imageSize = ctx.imageSize)
    (fbPhys : ctx'.fbPhys = ctx.fbPhys) (fbSize : ctx'.fbSize = ctx.fbSize) :
    TablesCorrect ctx' highest word cr3 where
  low := h.low
  high := h.high
  image := by
    rw [phys, virt, size]
    exact h.image
  framebuffer := by
    intro framebuffer
    rw [fbPhys, fbSize]
    refine h.framebuffer ⟨?_, ?_, ?_⟩
    · exact fbPhys ▸ framebuffer.phys
    · exact fbSize ▸ framebuffer.size
    · have fits := framebuffer.fits
      rw [fbPhys, fbSize] at fits
      exact fits
  unique := h.unique

/-- The pool with the root table, which is empty. -/
def rootState (st : PagingState) (pool pages : Nat) : PagingState :=
  (((st.setPool pool pages).setUsed 1).zeroPage pool).setPml4 pool

/-- The build changes no field of the context that the tables are to be correct for. -/
theorem rootState_fields (st : PagingState) (pool pages : Nat) :
    let ctx := (rootState (st.setHhdm limineHhdmBase) pool pages).ctx
    ctx.imagePhys = st.ctx.imagePhys ∧ ctx.imageVirt = st.ctx.imageVirt ∧
      ctx.imageSize = st.ctx.imageSize ∧ ctx.fbPhys = st.ctx.fbPhys ∧ ctx.fbSize = st.ctx.fbSize := by
  dsimp only [rootState, PagingState.setPml4, PagingState.zeroPage, PagingState.setUsed,
    PagingState.setPool, PagingState.setHhdm]
  exact ⟨rfl, rfl, rfl, rfl, rfl⟩

theorem rootState_ctx (st : PagingState) (pool pages : Nat) :
    (rootState (st.setHhdm limineHhdmBase) pool pages).ctx =
      { st.ctx with
        hhdmOffset := limineHhdmBase
        tablePoolPhys := pool
        tablePoolPages := pages
        tablePoolUsed := 1
        pml4Phys := pool } := by
  dsimp only [rootState, PagingState.setPml4, PagingState.zeroPage, PagingState.setUsed,
    PagingState.setPool, PagingState.setHhdm]

theorem SameContext.eq_setUsed (h : SameContext st st') :
    st'.ctx = { st.ctx with tablePoolUsed := st'.ctx.tablePoolUsed } := by
  have same : (st'.setUsed 0).ctx = (st.setUsed 0).ctx := h
  have used : st'.ctx = { (st'.setUsed 0).ctx with tablePoolUsed := st'.ctx.tablePoolUsed } := rfl
  rw [used, same]
  rfl

theorem allocTable_root (hp : Pool pool pages) (room : pages ≠ 0) :
    allocTable (st.setPool pool pages) = (((st.setPool pool pages).setUsed 1).zeroPage pool, pool) := by
  have fits := hp.fits
  have page : u64 (pool + 0 * liminePageSize) = pool := by
    rw [Nat.zero_mul, Nat.add_zero]
    exact u64_of_lt (by omega)
  have free : ¬(st.setPool pool pages).ctx.tablePoolUsed ≥ (st.setPool pool pages).ctx.tablePoolPages :=
    Nat.not_le_of_lt (Nat.pos_of_ne_zero room)
  unfold allocTable
  rw [if_neg free]
  exact Prod.ext (congrArg (fun p => ((st.setPool pool pages).setUsed 1).zeroPage p) page) page

/-- The tables are empty when the loops start. -/
theorem encodes_rootState (hp : Pool pool pages) (room : pages ≠ 0) :
    Encodes pool pages 0 (rootState st pool pages) .single := by
  have fits := hp.fits
  have zero : ∀ addr, pool ≤ addr → addr < pool + 4096 → (rootState st pool pages).word addr = 0 :=
    fun addr above below => if_pos ⟨above, below⟩
  refine ⟨rfl, rfl, rfl, rfl, Nat.pos_of_ne_zero room, ?_, zero pool (Nat.le_refl _) (by omega)⟩
  intro n i below index _
  have root : n = 0 := Nat.lt_one_iff.mp below
  subst root
  exact zero _ (by unfold tableAddr; omega) (by unfold tableAddr; omega)

theorem Built.correct (built : Built pool pages ctx highest st t direct) (hp : Pool pool pages)
    (bound : highest ≤ limineMaxDirectMap)
    (image : ImageOk ctx.imagePhys ctx.imageVirt ctx.imageSize) :
    TablesCorrect ctx highest st.word pool where
  low a below := by
    obtain ⟨bits, which, found⟩ := tablesMap_direct bound below
    exact ⟨_, (built.translate_direct hp which (below.trans_le bound) found).1⟩
  high a below := by
    obtain ⟨bits, which, found⟩ := tablesMap_direct bound below
    exact ⟨_, (built.translate_direct hp which (below.trans_le bound) found).2⟩
  image offset below := ⟨_, built.translate_image hp image below⟩
  framebuffer := by
    intro framebuffer a first last
    have found := tablesMap_framebuffer highest framebuffer first last
    have max : limineMaxDirectMap = 2 ^ 39 := by decide
    have fits := framebuffer.fits
    have size := framebuffer.size
    refine ⟨_, (built.translate_direct hp (Or.inr rfl) (by omega) found).2, ?_⟩
    simp only [writeCombining, Nat.testBit_eq_decide_div_mod_eq, largeEntry, writeCombiningBits,
      Bool.and_eq_true, Bool.not_eq_true', decide_eq_true_iff, decide_eq_false_iff_not]
    omega
  unique := by
    intro path path' table short short' indices indices' at_ at_'
    obtain ⟨n, reach, rfl⟩ := built.tableAt_node hp short indices at_
    obtain ⟨n', reach', same⟩ := built.tableAt_node hp short' indices' at_'
    have same : n = n' := by
      unfold tableAddr at same
      omega
    exact RadixTree.node_injective reach (same ▸ reach')

theorem fillTables_context {highest : Nat} (eq : fillTables st highest = .ok st') : SameContext st st' := by
  unfold fillTables at eq
  obtain ⟨st₁, loop₁, eq⟩ := bind_eq_ok.mp eq
  obtain ⟨st₂, loop₂, loop₃⟩ := bind_eq_ok.mp eq
  rw [mapFramebuffer_eq] at loop₂
  have context₁ : SameContext st st₁ :=
    foldlM_context (fun offset st st' ok => limineMapPage_context ok) loop₁
  have context₂ : SameContext st₁ st₂ :=
    foldlM_context (fun offset st st' ok => limineMapPage_context ok) loop₂
  have context₃ : SameContext (aliasLow st₂) st' :=
    foldlM_context (fun offset st st' ok => limineMapPage_context ok) loop₃
  exact context₃.trans (context₂.trans context₁)

/-- What a build that succeeds leaves: the tables in a pool of its own, and the rest of the context. -/
structure Build (highest : Nat) (st st' : PagingState) (pool pages : Nat) (t : RadixTree Nat)
    (direct : Nat) : Prop where
  inPool : Pool pool pages
  reached : highest ≠ 0
  bound : highest ≤ limineMaxDirectMap
  context : SameContext (rootState (st.setHhdm limineHhdmBase) pool pages) st'
  built : Built pool pages (rootState (st.setHhdm limineHhdmBase) pool pages).ctx highest st' t direct

/-- The build changes the fields of its tables, and the offset to the value it has anyway. -/
theorem Build.ctx_eq {highest pages direct : Nat} {t : RadixTree Nat}
    (build : Build highest st st' pool pages t direct) :
    st'.ctx =
      { st.ctx with
        hhdmOffset := limineHhdmBase
        tablePoolPhys := pool
        tablePoolPages := pages
        tablePoolUsed := st'.ctx.tablePoolUsed
        pml4Phys := pool } := by
  have context := build.context.eq_setUsed
  rw [rootState_ctx] at context
  exact context

theorem Build.correct {highest pages direct : Nat} {t : RadixTree Nat}
    (build : Build highest st st' pool pages t direct)
    (image : ImageOk st.ctx.imagePhys st.ctx.imageVirt st.ctx.imageSize) :
    TablesCorrect st.ctx highest st'.word st'.ctx.pml4Phys := by
  obtain ⟨phys, virt, size, fbPhys, fbSize⟩ := rootState_fields st pool pages
  rw [build.built.encodes.pml4]
  exact (build.built.correct build.inPool build.bound (by rwa [phys, virt, size])).congr phys.symm
    virt.symm size.symm fbPhys.symm fbSize.symm

theorem limineBuildPageTables_built {map : Option (List EfiMemoryDescriptor)}
    {allocatePages : Nat → Except EfiStatus Nat}
    (firmware : ∀ n p, allocatePages n = .ok p → Pool p n)
    (image : ImageOk st.ctx.imagePhys st.ctx.imageVirt st.ctx.imageSize)
    (success : limineBuildPageTables map allocatePages st = .ok st') :
    ∃ pool pages t direct, Build (highestPhysicalAddress map) st st' pool pages t direct := by
  unfold limineBuildPageTables at success
  dsimp only at success
  split at success
  · cases success
  · split at success
    · cases success
    · split at success
      · cases success
      · rename_i _ some bound
        obtain ⟨pool, allocated, success⟩ := bind_eq_ok.mp success
        obtain ⟨pages, pages_eq⟩ : ∃ pages, highestPhysicalAddress map / (1024 * 1024 * 1024) +
          limineTablePoolSlack + (st.setHhdm limineHhdmBase).ctx.imageSize / limineLargePageSize = pages :=
          ⟨_, rfl⟩
        rw [pages_eq] at allocated success
        have hp := firmware pages pool allocated
        have room : pages ≠ 0 := by
          generalize (st.setHhdm limineHhdmBase).ctx.imageSize / limineLargePageSize = directories at pages_eq
          unfold limineTablePoolSlack at pages_eq
          omega
        rw [allocTable_root hp room, if_neg hp.positive] at success
        have bound := Nat.le_of_not_lt bound
        obtain ⟨phys, virt, size, _, _⟩ := rootState_fields st pool pages
        obtain ⟨t, direct, built⟩ := fillTables_spec hp (Nat.pos_of_ne_zero some) bound
          (by rwa [phys, virt, size]) (encodes_rootState hp room) success
        exact ⟨pool, pages, t, direct, hp, some, bound, fillTables_context success, built⟩

/-- A build that succeeds, with the image in whole pages of the top two gigabytes and the pool in
whole pages of physical memory, leaves correct tables. -/
theorem limineBuildPageTables_correct {map : Option (List EfiMemoryDescriptor)}
    {allocatePages : Nat → Except EfiStatus Nat}
    (firmware : ∀ n p, allocatePages n = .ok p → Pool p n)
    (image : ImageOk st.ctx.imagePhys st.ctx.imageVirt st.ctx.imageSize)
    (success : limineBuildPageTables map allocatePages st = .ok st') :
    TablesCorrect st.ctx (highestPhysicalAddress map) st'.word st'.ctx.pml4Phys := by
  obtain ⟨pool, pages, t, direct, build⟩ := limineBuildPageTables_built firmware image success
  exact build.correct image

end Correct

/-- Four megabytes of memory, two pages of image and a framebuffer in the upper two megabytes. -/
def smallMap : List EfiMemoryDescriptor := [⟨7, 0, 1024⟩]

def smallState : PagingState where
  ctx := { imagePhys := 0x100000, imageVirt := limineHigherHalfBase, imageSize := 0x1800,
           fbPhys := 0x300000, fbSize := 0x1000 }
  word _ := 0

def smallPages (n : Nat) : Except EfiStatus Nat :=
  if n ≤ 0x100 then .ok 0x200000 else .error .outOfResources

theorem limineBuildPageTables_correct_small :
    ∃ st', limineBuildPageTables (some smallMap) smallPages smallState = .ok st' ∧
      TablesCorrect smallState.ctx 0x400000 st'.word st'.ctx.pml4Phys := by
  have success : (limineBuildPageTables (some smallMap) smallPages smallState).toBool = true := by
    decide +kernel
  have highest : highestPhysicalAddress (some smallMap) = 0x400000 := by decide +kernel
  cases run : limineBuildPageTables (some smallMap) smallPages smallState with
  | error status =>
    rw [run] at success
    cases success
  | ok st' =>
    refine ⟨st', rfl, ?_⟩
    rw [← highest]
    refine limineBuildPageTables_correct ?_ ?_ run
    · intro n p allocated
      unfold smallPages at allocated
      split at allocated
      · cases allocated
        exact ⟨by decide, by decide, by omega⟩
      · cases allocated
    · exact ⟨by decide, by decide, by decide, by decide, by decide⟩

end Meridian.Limine
