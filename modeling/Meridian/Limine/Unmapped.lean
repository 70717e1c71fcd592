import Meridian.Limine.Translation

/-!
# What the built tables do not translate

The walk ends in an entry of the map that the build left (`Built.translate_cases`), so an address of
the direct map above the memory's ceiling translates only on a large page of the framebuffer, and no
address translates to memory above the direct map's limit.
-/

namespace Meridian.Limine

open Lib.Word Lib.Radix Lib.Result

variable {pool pages low highest direct n i entry virt p a : Nat} {ctx : LimineCtx} {st : PagingState}
  {t : RadixTree Nat} {q : List Nat} {key : List Nat × Nat}

/-- The loops that an entry of the map can come from. -/
theorem tablesMap_cases (bound : highest ≤ limineMaxDirectMap) (h : tablesMap ctx highest key = some entry) :
    (∃ offset bits, (offset < highest ∨ offset ∈ framebufferPages ctx) ∧ offset < limineMaxDirectMap ∧
      (bits = directBits ∨ bits = writeCombiningBits) ∧ directKey offset = key ∧
      entry = largeEntry bits offset) ∨
    ∃ offset < ctx.imageSize, offset % 4096 = 0 ∧ imageKey (ctx.imageVirt + offset) = key ∧
      entry = ctx.imagePhys + offset + 3 := by
  rcases overwrite_cases h with framebuffer | ⟨offset, mem, at_, rfl⟩
  · rcases overwrite_cases framebuffer with ram | ⟨offset, mem, at_, rfl⟩
    · rcases overwrite_cases ram with absent | ⟨offset, mem, at_, rfl⟩
      · cases absent
      · obtain ⟨_, _, below⟩ := (mem_offsets (by decide)).mp mem
        exact Or.inl ⟨offset, directBits, Or.inl below, below.trans_le bound, Or.inl rfl, at_, rfl⟩
    · exact Or.inl ⟨offset, writeCombiningBits, Or.inr mem, offset_of_mem_framebufferPages mem, Or.inr rfl,
        at_, rfl⟩
  · obtain ⟨k, rfl, below⟩ := (mem_offsets (by decide)).mp mem
    refine Or.inr ⟨_, below, ?_, at_, rfl⟩
    unfold liminePageSize
    omega

theorem frame_largeEntry {bits offset : Nat} (which : bits = directBits ∨ bits = writeCombiningBits)
    (small : offset < limineMaxDirectMap) : frame 21 (largeEntry bits offset) = offset / 2 ^ 21 * 2 ^ 21 := by
  have max : limineMaxDirectMap = 2 ^ 39 := by decide
  have low : bits < 2 ^ 21 := by rcases which with rfl | rfl <;> decide
  unfold frame largeEntry
  omega

theorem frame_imageEntry {offset : Nat} (image : ImageOk ctx.imagePhys ctx.imageVirt ctx.imageSize)
    (below : offset < ctx.imageSize) (aligned : offset % 4096 = 0) :
    frame 12 (ctx.imagePhys + offset + 3) = ctx.imagePhys + offset := by
  have phys := image.phys
  have physAligned := image.physAligned
  unfold frame
  omega

/-- The root's entries lead to tables, the first to that of the direct map. -/
theorem Built.root_cases (built : Built pool pages ctx highest st t direct) (hp : Pool pool pages)
    (bound : highest ≤ limineMaxDirectMap) (index : i < 512) (at_ : entryOf st.word pool i = some entry) :
    ∃ k m, unalias [i] = [k] ∧ k ≠ 0 ∧ t.node [k] = some m ∧ frame 12 entry = tableAddr pool m := by
  cases i with
  | zero =>
    have top := built.entryOf_root hp index built.directTable
    cases top.symm.trans at_
    exact ⟨256, direct, rfl, by decide, built.directTable,
      (frame_tableAddr hp ((RadixTree.node_lt built.directTable).trans_le built.encodes.within)).1⟩
  | succ i =>
    have root : tableAddr pool 0 = pool := by rw [tableAddr, Nat.zero_mul, Nat.add_zero]
    rw [← root] at at_
    rcases built.entry_cases hp [] index (Nat.succ_ne_zero i) (RadixTree.node_nil t) at_ with
      ⟨m, reach, _, table⟩ | leaf
    · exact ⟨i + 1, m, rfl, Nat.succ_ne_zero i, reach, table⟩
    · rcases tablesMap_cases bound leaf with ⟨offset, _, _, _, _, at_, _⟩ | ⟨offset, _, _, at_, _⟩
      · cases congrArg Prod.fst at_
      · cases congrArg Prod.fst at_

/-- The page that a translation ends in. -/
theorem Built.translate_cases (built : Built pool pages ctx highest st t direct) (hp : Pool pool pages)
    (bound : highest ≤ limineMaxDirectMap)
    (image : ImageOk ctx.imagePhys ctx.imageVirt ctx.imageSize)
    (h : translate st.word pool virt = some (p, entry)) :
    (∃ offset, (offset < highest ∨ offset ∈ framebufferPages ctx) ∧ offset < limineMaxDirectMap ∧
      unalias [virt / 2 ^ 39 % 512] = [256] ∧ offset / 2 ^ 30 % 512 = virt / 2 ^ 30 % 512 ∧
      offset / 2 ^ 21 % 512 = virt / 2 ^ 21 % 512 ∧ p = offset / 2 ^ 21 * 2 ^ 21 + virt % 2 ^ 21) ∨
    ∃ offset < ctx.imageSize, offset % 4096 = 0 ∧ unalias [virt / 2 ^ 39 % 512] = [511] ∧
      p = ctx.imagePhys + offset + virt % 2 ^ 12 := by
  have max : limineMaxDirectMap = 2 ^ 39 := by decide
  have index : ∀ s, virt / 2 ^ s % 512 < 512 := fun s => Nat.mod_lt _ (by decide)
  unfold translate at h
  split at h
  · cases h
  · simp only [Option.bind_eq_bind, Option.pure_def, Option.bind_eq_some_iff] at h
    obtain ⟨e₄, at₄, e₃, at₃, h⟩ := h
    obtain ⟨k, n₁, top, notRoot, reach₁, frame₄⟩ := built.root_cases hp bound (index 39) at₄
    rw [frame₄] at at₃
    rcases built.entry_cases hp [k] (index 30) notRoot reach₁ at₃ with
      ⟨n₂, reach₂, table₃, frame₃⟩ | leaf
    · rw [if_neg (by rw [table₃]; decide), Option.bind_eq_some_iff] at h
      obtain ⟨e₂, at₂, h⟩ := h
      rw [frame₃] at at₂
      rcases built.entry_cases hp [k, virt / 2 ^ 30 % 512] (index 21) notRoot reach₂ at₂ with
        ⟨n₃, reach₃, table₂, frame₂⟩ | leaf
      · rw [if_neg (by rw [table₂]; decide), Option.bind_eq_some_iff] at h
        obtain ⟨e₁, at₁, h⟩ := h
        rw [frame₂] at at₁
        rcases built.entry_cases hp [k, virt / 2 ^ 30 % 512, virt / 2 ^ 21 % 512] (index 12) notRoot
          reach₃ at₁ with ⟨n₄, reach₄, _, _⟩ | leaf
        · -- No table is below the image's.
          rcases built.layered.nodes reach₄ 0 with short | empty
          · have deepest : leafDepth k ≤ 3 := by unfold leafDepth; split <;> decide
            exact absurd (short.trans deepest) (Nat.not_succ_le_self 3)
          · cases empty
        · rcases tablesMap_cases bound leaf with ⟨offset, _, _, _, _, at_, _⟩ |
            ⟨offset, below, aligned, at_, rfl⟩
          · cases congrArg (fun key => key.1.length) at_
          · cases h
            refine Or.inr ⟨offset, below, aligned, ?_, ?_⟩
            · rw [top, ← (List.cons.inj (congrArg Prod.fst at_)).1]
            · rw [frame_imageEntry image below aligned]
      · rcases tablesMap_cases bound leaf with ⟨offset, bits, written, small, which, at_, rfl⟩ |
          ⟨offset, _, _, at_, _⟩
        · have short : [k, virt / 2 ^ 30 % 512].length ≤ 2 := Nat.le_refl 2
          rw [if_pos (tablesMap_large short leaf)] at h
          cases h
          simp only [directKey, Prod.mk.injEq, List.cons.injEq, and_true] at at_
          obtain ⟨⟨first, at₂⟩, at₁⟩ := at_
          refine Or.inl ⟨offset, written, small, ?_, at₂, at₁, ?_⟩
          · rw [top, ← first]
          · rw [frame_largeEntry which small]
        · cases congrArg (fun key => key.1.length) at_
    · rcases tablesMap_cases bound leaf with ⟨offset, _, _, _, _, at_, _⟩ | ⟨offset, _, _, at_, _⟩
      · cases congrArg (fun key => key.1.length) at_
      · cases congrArg (fun key => key.1.length) at_

/-- With the image below the direct map's limit every translation is below it. -/
theorem Built.translate_lt (built : Built pool pages ctx highest st t direct) (hp : Pool pool pages)
    (bound : highest ≤ limineMaxDirectMap)
    (image : ImageOk ctx.imagePhys ctx.imageVirt ctx.imageSize)
    (inRam : ctx.imagePhys + ctx.imageSize ≤ limineMaxDirectMap)
    (h : translate st.word pool virt = some (p, entry)) : p < limineMaxDirectMap := by
  have max : limineMaxDirectMap = 2 ^ 39 := by decide
  have aligned := image.physAligned
  rcases built.translate_cases hp bound image h with ⟨offset, _, small, _, _, _, rfl⟩ |
    ⟨offset, below, whole, _, rfl⟩
  · omega
  · omega

/-- Above the ceiling of the memory only the framebuffer's large pages are in the direct map. -/
theorem Built.translate_framebuffer (built : Built pool pages ctx highest st t direct)
    (hp : Pool pool pages) (bound : highest ≤ limineMaxDirectMap)
    (image : ImageOk ctx.imagePhys ctx.imageVirt ctx.imageSize) (ceiling : highest % 2 ^ 21 = 0)
    (above : highest ≤ a) (below : a < limineMaxDirectMap)
    (h : translate st.word pool (limineHhdmBase + a) = some (p, entry)) : framebufferPages ctx ≠ [] := by
  have max : limineMaxDirectMap = 2 ^ 39 := by decide
  have base : limineHhdmBase = 2 ^ 64 - 2 ^ 47 := by decide
  have top : (limineHhdmBase + a) / 2 ^ 39 % 512 = 256 := by omega
  rcases built.translate_cases hp bound image h with ⟨offset, written, small, _, at₂, at₁, _⟩ |
    ⟨offset, _, _, other, _⟩
  · rcases written with ram | framebuffer
    · omega
    · exact List.ne_nil_of_mem framebuffer
  · rw [top] at other
    cases other

end Meridian.Limine
