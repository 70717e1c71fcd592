import Mathlib.Order.Interval.Finset.Nat
import Meridian.Limine.Translation

/-!
# The pool has room for the tables

Every table of the build is under one of a set of paths (`tablePaths`): the directories of the
direct map and of the framebuffer, one for each gigabyte, and those of the image, one for each two
megabytes. There are fewer of them than pages in the pool, so no call of `limineMapPage` finds the
pool used up (`limineBuildPageTables_enough`).
-/

namespace Meridian.Limine

open Lib.Word Lib.Radix Lib.Result

variable {pool pages low n i : Nat} {st : PagingState} {t : RadixTree Nat} {path : List Nat}
  {paths : Finset (List Nat)}

/-! ### A page is mapped when its tables are accounted for -/

/-- The tables in memory are under the given paths only. -/
structure Tables (pool pages low : Nat) (paths : Finset (List Nat)) (st : PagingState)
    (t : RadixTree Nat) : Prop where
  encodes : Encodes pool pages low st t
  layered : RadixTree.Layered leafDepth t
  confined : t.Confined paths

theorem allocTable_room (hp : Pool pool pages) (h : Encodes pool pages low st t)
    (room : t.used < pages) :
    allocTable st = ((st.setUsed (t.used + 1)).zeroPage (tableAddr pool t.used),
      tableAddr pool t.used) := by
  have fits := hp.fits
  have addr : u64 (pool + t.used * liminePageSize) = tableAddr pool t.used :=
    u64_of_lt (by unfold liminePageSize; omega)
  unfold allocTable
  rw [h.poolPhys, h.poolPages, h.used, if_neg (Nat.not_le_of_lt room)]
  dsimp only
  rw [addr]

/-- One step down a path that is accounted for. -/
theorem nextLevel_room (hp : Pool pool pages) (enough : paths.card ≤ pages)
    (h : Tables pool pages low paths st t) (reach : t.node path = some n) (index : i < 512)
    (notRoot : path.headD i ≠ 0) (above : path.length < leafDepth (path.headD i))
    (mem : path ++ [i] ∈ paths) :
    ∃ st' t' m, nextLevel st (tableAddr pool n) i = (st', tableAddr pool m) ∧
      tableAddr pool m ≠ 0 ∧ Tables pool pages low paths st' t' ∧ t'.node (path ++ [i]) = some m := by
  obtain ⟨encodes, layered, confined⟩ := h
  have here : n < t.used := RadixTree.node_lt reach
  have notLow := not_low reach notRoot
  have entry := encodes.words here index notLow
  unfold nextLevel
  simp only [entry, and_ptePresent]
  cases slot : t.slot n i with
  | leaf entry => exact absurd slot (layered.not_leaf reach above entry)
  | child m =>
    have below := (t.up slot).2.trans_le encodes.within
    obtain ⟨odd, masked, _⟩ := child_entry hp below
    refine ⟨st, t, m, ?_, (tableAddr_bounds hp below).2.1, ⟨encodes, layered, confined⟩, ?_⟩
    · simp only [encode, odd, masked]
      rfl
    · rw [RadixTree.node_concat_of reach, slot]
      rfl
  | empty =>
    have absent : t.node (path ++ [i]) = none := by
      rw [RadixTree.node_concat_of reach, slot]
      rfl
    have room := (confined.used_lt mem absent).trans_le enough
    have positive := (tableAddr_bounds hp room).2.1
    refine ⟨_, t.link n i here, t.used, ?_, positive,
      ⟨encodes.link here room index notLow, layered.link reach slot above,
        confined.link reach slot mem here⟩, ?_⟩
    · rw [allocTable_room hp encodes room]
      simp only [encode, Nat.zero_mod, ne_eq, not_true_eq_false, if_false, positive]
      rw [(child_entry hp room).2.2]
    · rw [RadixTree.node_link reach slot, if_pos rfl]

/-- The tables on the way to a page are accounted for. -/
def OnPaths (paths : Finset (List Nat)) (virt : Nat) (large : Bool) : Prop :=
  [pml4Index virt] ∈ paths ∧ [pml4Index virt, pdptIndex virt] ∈ paths ∧
    (large = false → [pml4Index virt, pdptIndex virt, pdIndex virt] ∈ paths)

theorem Tables.store (h : Tables pool pages low paths st t) (reach : t.node path = some n)
    (index : i < 512) (notRoot : path.headD i ≠ 0) (bottom : path.length = leafDepth (path.headD i))
    (entry : Nat) : ∃ t', Tables pool pages low paths (st.setWord (tableAddr pool n + 8 * i) entry) t' := by
  have here := RadixTree.node_lt reach
  exact ⟨t.store n i entry here, h.encodes.store here index (not_low reach notRoot) entry,
    h.layered.store reach bottom entry, h.confined.store (h.layered.not_child reach bottom) entry here⟩

/-- A page whose tables are accounted for is mapped. -/
theorem limineMapPage_room (hp : Pool pool pages) (enough : paths.card ≤ pages)
    (h : Tables pool pages low paths st t) {virt phys flags : Nat} {large : Bool}
    (notRoot : pml4Index virt ≠ 0) (depth : leafDepth (pml4Index virt) = if large then 2 else 3)
    (onPaths : OnPaths paths virt large) :
    ∃ st' t', limineMapPage st virt phys flags large = .ok st' ∧ Tables pool pages low paths st' t' := by
  have deep : 2 ≤ leafDepth (pml4Index virt) := by rw [depth]; split <;> omega
  obtain ⟨mem₁, mem₂, mem₃⟩ := onPaths
  have root : pool = tableAddr pool 0 := by unfold tableAddr; omega
  obtain ⟨st₁, t₁, n₁, step₁, got₁, h₁, reach₁⟩ := nextLevel_room hp enough h (RadixTree.node_nil t)
    (index_lt virt 39) notRoot (Nat.zero_lt_of_lt deep) mem₁
  obtain ⟨st₂, t₂, n₂, step₂, got₂, h₂, reach₂⟩ := nextLevel_room hp enough h₁ reach₁
    (index_lt virt 30) notRoot (Nat.lt_of_lt_of_le Nat.one_lt_two deep) mem₂
  have step₁ : nextLevel st (tableAddr pool 0) (pml4Index virt) = (st₁, tableAddr pool n₁) := step₁
  have step₂ : nextLevel st₁ (tableAddr pool n₁) (pdptIndex virt) = (st₂, tableAddr pool n₂) := step₂
  unfold limineMapPage
  rw [h.encodes.pml4, if_neg hp.positive, root, step₁]
  dsimp only
  rw [if_neg got₁, step₂]
  dsimp only
  rw [if_neg got₂]
  cases large with
  | true =>
    obtain ⟨t', stored⟩ := h₂.store reach₂ (index_lt virt 21) notRoot depth.symm
      (phys &&& (2 ^ 64 - limineLargePageSize) ||| flags ||| pteLarge)
    exact ⟨_, t', rfl, stored⟩
  | false =>
    have three : leafDepth (pml4Index virt) = 3 := depth
    obtain ⟨st₃, t₃, n₃, step₃, got₃, h₃, reach₃⟩ := nextLevel_room hp enough h₂ reach₂
      (index_lt virt 21) notRoot (Nat.lt_of_lt_of_eq (Nat.lt_succ_self 2) three.symm) (mem₃ rfl)
    have step₃ : nextLevel st₂ (tableAddr pool n₂) (pdIndex virt) = (st₃, tableAddr pool n₃) := step₃
    obtain ⟨t', stored⟩ := h₃.store reach₃ (index_lt virt 12) notRoot depth.symm
      (phys &&& pteAddrMask ||| flags)
    refine ⟨_, t', ?_, stored⟩
    rw [if_neg (by decide), step₃]
    dsimp only
    rw [if_neg got₃]
    rfl

/-! ### The paths of the three loops -/

/-- The paths of the root, its two tables and the two directories of the top two gigabytes. -/
def upperPaths : Finset (List Nat) := {[], [256], [511], [511, 510], [511, 511]}

/-- The paths of the direct map's directories for some of its gigabytes. -/
def directPaths (gigabytes : Finset Nat) : Finset (List Nat) :=
  gigabytes.image fun g => [256, g % 512]

/-- The paths of the image's tables for some spans of two megabytes. -/
def imagePaths (spans : Finset Nat) : Finset (List Nat) :=
  spans.image fun r => [511, r / 512 % 512, r % 512]

def tablePaths (ctx : LimineCtx) (highest : Nat) : Finset (List Nat) :=
  upperPaths ∪ directPaths (Finset.range (highest / 2 ^ 30 + 1)) ∪
    directPaths (Finset.Icc (ctx.fbPhys / 2 ^ 30) ((ctx.fbPhys + ctx.fbSize - 1) / 2 ^ 30)) ∪
    imagePaths (Finset.Icc (ctx.imageVirt / 2 ^ 21) ((ctx.imageVirt + ctx.imageSize - 1) / 2 ^ 21))

/-- A framebuffer of at most 16 GiB touches at most 17 directories, wherever it starts. -/
theorem tablePaths_card {ctx : LimineCtx} (highest : Nat) (small : ctx.fbSize ≤ 2 ^ 34) :
    (tablePaths ctx highest).card ≤ highest / 2 ^ 30 + ctx.imageSize / 2 ^ 21 + 25 := by
  obtain ⟨fb, fb_eq⟩ : ∃ fb, Finset.Icc (ctx.fbPhys / 2 ^ 30)
    ((ctx.fbPhys + ctx.fbSize - 1) / 2 ^ 30) = fb := ⟨_, rfl⟩
  obtain ⟨image, image_eq⟩ : ∃ image, Finset.Icc (ctx.imageVirt / 2 ^ 21)
    ((ctx.imageVirt + ctx.imageSize - 1) / 2 ^ 21) = image := ⟨_, rfl⟩
  have fbCount : fb.card ≤ 17 := by
    rw [← fb_eq, Nat.card_Icc]
    omega
  have imageCount : image.card ≤ ctx.imageSize / 2 ^ 21 + 2 := by
    rw [← image_eq, Nat.card_Icc]
    omega
  have upper : upperPaths.card ≤ 5 := Finset.card_le_five
  have direct : (directPaths (Finset.range (highest / 2 ^ 30 + 1))).card ≤ highest / 2 ^ 30 + 1 :=
    Finset.card_image_le.trans_eq (Finset.card_range _)
  have fbPaths : (directPaths fb).card ≤ fb.card := Finset.card_image_le
  have tables : (imagePaths image).card ≤ image.card := Finset.card_image_le
  unfold tablePaths
  rw [fb_eq, image_eq]
  refine (Finset.card_union_le _ _).trans ?_
  have three := Finset.card_union_le
    (upperPaths ∪ directPaths (Finset.range (highest / 2 ^ 30 + 1))) (directPaths fb)
  have two := Finset.card_union_le upperPaths (directPaths (Finset.range (highest / 2 ^ 30 + 1)))
  omega

/-- A large page of the direct map, in one of the gigabytes. -/
theorem onPaths_direct {offset : Nat} (below : offset < 2 ^ 39) (upper : [256] ∈ paths)
    (mem : [256, offset / 2 ^ 30 % 512] ∈ paths) :
    OnPaths paths (u64 (limineHhdmBase + offset)) true := by
  obtain ⟨virt, i4, i3, _⟩ := direct_indices below
  rw [OnPaths, virt, i4, i3]
  exact ⟨upper, mem, fun large => by cases large⟩

/-- A page of the top two gigabytes, in one of the spans. -/
theorem onPaths_image {virt : Nat} (high : 2 ^ 64 - 2 ^ 31 ≤ virt) (top : virt < 2 ^ 64)
    (upper : upperPaths ⊆ paths)
    (mem : [511, virt / 2 ^ 21 / 512 % 512, virt / 2 ^ 21 % 512] ∈ paths) :
    OnPaths paths virt false := by
  have i4 : pml4Index virt = 511 := by
    rw [pml4Index, index_eq]
    omega
  have i3 : pdptIndex virt = virt / 2 ^ 21 / 512 % 512 := by
    rw [pdptIndex, index_eq]
    omega
  have i2 : pdIndex virt = virt / 2 ^ 21 % 512 := index_eq _ _
  have last : virt / 2 ^ 21 / 512 % 512 = 510 ∨ virt / 2 ^ 21 / 512 % 512 = 511 := by omega
  rw [OnPaths, i4, i3, i2]
  refine ⟨upper (by decide), ?_, fun _ => mem⟩
  rcases last with last | last
  · rw [last]
    exact upper (by decide)
  · rw [last]
    exact upper (by decide)

/-! ### The build does not fail for lack of pages -/

/-- The image is in the top two gigabytes, and the framebuffer of 16 GiB at most is below the direct
map's limit. Neither has to be aligned. -/
structure LayoutFits (ctx : LimineCtx) : Prop where
  high : limineHigherHalfBase ≤ ctx.imageVirt
  top : ctx.imageVirt + ctx.imageSize ≤ 2 ^ 64
  small : ctx.fbSize ≤ 16 * 1024 * 1024 * 1024
  fits : ctx.fbPhys + ctx.fbSize ≤ limineMaxDirectMap

theorem subset_tablePaths (ctx : LimineCtx) (highest : Nat) :
    upperPaths ⊆ tablePaths ctx highest ∧
      directPaths (Finset.range (highest / 2 ^ 30 + 1)) ⊆ tablePaths ctx highest ∧
      directPaths (Finset.Icc (ctx.fbPhys / 2 ^ 30) ((ctx.fbPhys + ctx.fbSize - 1) / 2 ^ 30)) ⊆
        tablePaths ctx highest ∧
      imagePaths (Finset.Icc (ctx.imageVirt / 2 ^ 21)
        ((ctx.imageVirt + ctx.imageSize - 1) / 2 ^ 21)) ⊆ tablePaths ctx highest := by
  unfold tablePaths
  refine ⟨?_, ?_, ?_, Finset.subset_union_right⟩
  · exact Finset.subset_union_left.trans (Finset.subset_union_left.trans Finset.subset_union_left)
  · exact Finset.subset_union_right.trans (Finset.subset_union_left.trans Finset.subset_union_left)
  · exact Finset.subset_union_right.trans Finset.subset_union_left

/-- The gigabyte of a framebuffer's page. -/
theorem mem_framebuffer_gigabytes {ctx : LimineCtx} (fit : LayoutFits ctx) {offset : Nat}
    (mem : offset ∈ framebufferPages ctx) :
    offset / 2 ^ 30 ∈ Finset.Icc (ctx.fbPhys / 2 ^ 30) ((ctx.fbPhys + ctx.fbSize - 1) / 2 ^ 30) := by
  obtain ⟨⟨phys, size⟩, k, rfl, below⟩ := (framebufferPages_iff fit.fits).mp mem
  rw [Finset.mem_Icc]
  omega

theorem mapDirect_room (hp : Pool pool pages) (enough : paths.card ≤ pages) {flags : Nat}
    {items : List Nat} (upper : [256] ∈ paths) (below : ∀ offset ∈ items, offset < limineMaxDirectMap)
    (mem : ∀ offset ∈ items, [256, offset / 2 ^ 30 % 512] ∈ paths)
    (h : ∃ t, Tables pool pages low paths st t) :
    ∃ st', items.foldlM (mapDirect flags) st = .ok st' ∧ ∃ t, Tables pool pages low paths st' t := by
  refine foldlM_ok ?_ h
  rintro offset item st ⟨t, tables⟩
  have max : limineMaxDirectMap = 2 ^ 39 := by decide
  have onPaths := onPaths_direct (max ▸ below offset item) upper (mem offset item)
  have virt : u64 (limineHhdmBase + offset) = limineHhdmBase + offset :=
    u64_of_lt (by have := below offset item; unfold limineHhdmBase; omega)
  have i4 : pml4Index (u64 (limineHhdmBase + offset)) = 256 := by
    have := below offset item
    rw [virt, pml4Index, index_eq, limineHhdmBase]
    omega
  obtain ⟨st', t', mapped, tables'⟩ := limineMapPage_room hp enough tables (by rw [i4]; decide)
    (by rw [i4]; rfl) onPaths
  exact ⟨st', mapped, t', tables'⟩

theorem mapImage_room (hp : Pool pool pages) (enough : paths.card ≤ pages)
    {imagePhys imageVirt imageSize : Nat} (high : limineHigherHalfBase ≤ imageVirt)
    (top : imageVirt + imageSize ≤ 2 ^ 64) (upper : upperPaths ⊆ paths)
    (mem : ∀ virt, imageVirt ≤ virt → virt < imageVirt + imageSize →
      [511, virt / 2 ^ 21 / 512 % 512, virt / 2 ^ 21 % 512] ∈ paths)
    (h : ∃ t, Tables pool pages low paths st t) :
    ∃ st', (offsets 0 imageSize liminePageSize).foldlM (mapImage imageVirt imagePhys) st = .ok st' ∧
      ∃ t, Tables pool pages low paths st' t := by
  refine foldlM_ok ?_ h
  rintro offset item st ⟨t, tables⟩
  obtain ⟨k, _, below⟩ := (mem_offsets (by decide)).mp item
  unfold limineHigherHalfBase at high
  have virt : u64 (imageVirt + offset) = imageVirt + offset := u64_of_lt (by omega)
  have i4 : pml4Index (u64 (imageVirt + offset)) = 511 := by
    rw [virt, pml4Index, index_eq]
    omega
  have onPaths : OnPaths paths (u64 (imageVirt + offset)) false := by
    rw [virt]
    exact onPaths_image (by omega) (by omega) upper
      (mem (imageVirt + offset) (by omega) (by omega))
  obtain ⟨st', t', mapped, tables'⟩ := limineMapPage_room hp enough tables (by rw [i4]; decide)
    (by rw [i4]; rfl) onPaths
  exact ⟨st', mapped, t', tables'⟩

theorem fillTables_room (hp : Pool pool pages) {highest : Nat} (bound : highest ≤ limineMaxDirectMap)
    (fit : LayoutFits st.ctx) (enough : (tablePaths st.ctx highest).card ≤ pages)
    (h : Encodes pool pages low st .single) :
    ∃ st', fillTables st highest = .ok st' ∧
      ∃ low t, Tables pool pages low (tablePaths st.ctx highest) st' t := by
  obtain ⟨upper, directs, framebuffers, images⟩ := subset_tablePaths st.ctx highest
  have direct : [256] ∈ tablePaths st.ctx highest := upper (by decide)
  have start : Tables pool pages low (tablePaths st.ctx highest) st .single :=
    ⟨h, RadixTree.layered_single, RadixTree.confined_single (upper (by decide))⟩
  have below : ∀ offset ∈ offsets 0 highest limineLargePageSize, offset < highest := by
    intro offset mem
    obtain ⟨_, _, lt⟩ := (mem_offsets (by decide)).mp mem
    exact lt
  obtain ⟨st₁, loop₁, inv₁⟩ := @mapDirect_room _ _ _ _ _ hp enough (ptePresent ||| pteWrite) _ direct
    (fun offset mem => (below offset mem).trans_le bound)
    (fun offset mem => directs (Finset.mem_image_of_mem _
      (Finset.mem_range.mpr (Nat.lt_succ_of_le (Nat.div_le_div_right (below offset mem).le)))))
    ⟨_, start⟩
  have context₁ : SameContext st st₁ :=
    foldlM_context (fun offset st st' ok => limineMapPage_context ok) loop₁
  obtain ⟨st₂, loop₂, inv₂⟩ := @mapDirect_room _ _ _ _ _ hp enough
    (ptePresent ||| pteWrite ||| pteWcLarge) _ direct (fun offset mem => offset_of_mem_framebufferPages mem)
    (fun offset mem => framebuffers (Finset.mem_image_of_mem _ (mem_framebuffer_gigabytes fit mem)))
    inv₁
  have context₂ : SameContext st₁ st₂ :=
    foldlM_context (fun offset st st' ok => limineMapPage_context ok) loop₂
  have context := context₂.trans context₁
  have phys : st₂.ctx.imagePhys = st.ctx.imagePhys := (congrArg LimineCtx.imagePhys context :)
  have virt : st₂.ctx.imageVirt = st.ctx.imageVirt := (congrArg LimineCtx.imageVirt context :)
  have size : st₂.ctx.imageSize = st.ctx.imageSize := (congrArg LimineCtx.imageSize context :)
  have framebuffer : mapFramebuffer st₁ = .ok st₂ := by
    rw [mapFramebuffer_eq, context₁.framebufferPages]
    exact loop₂
  obtain ⟨t₂, tables₂⟩ := inv₂
  -- The alias is in a word of the root that the tree does not answer for.
  obtain ⟨value, alias_eq⟩ : ∃ value, aliasLow st₂ = st₂.setWord pool value :=
    ⟨_, by rw [aliasLow, tables₂.encodes.pml4]⟩
  have aliased : Tables pool pages value (tablePaths st.ctx highest) (aliasLow st₂) t₂ := by
    rw [alias_eq]
    exact ⟨tables₂.encodes.alias value, tables₂.layered, tables₂.confined⟩
  obtain ⟨st₃, loop₃, inv₃⟩ := @mapImage_room _ _ _ _ _ hp enough st.ctx.imagePhys _ _ fit.high fit.top upper
    (fun virt above under => images (Finset.mem_image_of_mem (fun r => [511, r / 512 % 512, r % 512])
      (Finset.mem_Icc.mpr ⟨Nat.div_le_div_right above, Nat.div_le_div_right (by omega)⟩)))
    ⟨t₂, aliased⟩
  refine ⟨st₃, ?_, value, inv₃⟩
  have same : (aliasLow st₂).ctx = st₂.ctx := rfl
  unfold fillTables
  rw [loop₁, ok_bind, framebuffer, ok_bind]
  dsimp only
  rw [same, phys, virt, size]
  exact loop₃

/-- The pages that the build reserves. -/
def tablePoolPages (highest imageSize : Nat) : Nat :=
  highest / (1024 * 1024 * 1024) + limineTablePoolSlack + imageSize / limineLargePageSize

/-- With the image and the framebuffer in their places the build takes fewer pages than it
reserves: it succeeds once the pool is allocated. -/
theorem limineBuildPageTables_enough {map : Option (List EfiMemoryDescriptor)}
    {allocatePages : Nat → Except EfiStatus Nat}
    (firmware : ∀ n p, allocatePages n = .ok p → Pool p n) (fit : LayoutFits st.ctx)
    (imagePhys : st.ctx.imagePhys ≠ 0) (reached : highestPhysicalAddress map ≠ 0)
    (bound : highestPhysicalAddress map ≤ limineMaxDirectMap)
    (allocated : allocatePages (tablePoolPages (highestPhysicalAddress map) st.ctx.imageSize) = .ok pool) :
    ∃ st', limineBuildPageTables map allocatePages st = .ok st' ∧
      st'.ctx.tablePoolPages = tablePoolPages (highestPhysicalAddress map) st.ctx.imageSize ∧
      st'.ctx.tablePoolUsed + 7 ≤ st'.ctx.tablePoolPages := by
  obtain ⟨highest, highest_eq⟩ : ∃ highest, highestPhysicalAddress map = highest := ⟨_, rfl⟩
  rw [highest_eq] at reached bound allocated ⊢
  obtain ⟨pages, pages_eq⟩ : ∃ pages, tablePoolPages highest st.ctx.imageSize = pages := ⟨_, rfl⟩
  rw [pages_eq] at allocated ⊢
  have hp := firmware pages pool allocated
  obtain ⟨phys, virt, size, fbPhys, fbSize⟩ := rootState_fields st pool pages
  have fit' : LayoutFits (rootState (st.setHhdm limineHhdmBase) pool pages).ctx := by
    refine ⟨?_, ?_, ?_, ?_⟩
    · rw [virt]
      exact fit.high
    · rw [virt, size]
      exact fit.top
    · rw [fbSize]
      exact fit.small
    · rw [fbPhys, fbSize]
      exact fit.fits
  have count := @tablePaths_card (rootState (st.setHhdm limineHhdmBase) pool pages).ctx highest
    fit'.small
  have slack : highest / 2 ^ 30 + st.ctx.imageSize / 2 ^ 21 + 32 = pages := by
    rw [← pages_eq, tablePoolPages, limineTablePoolSlack, limineLargePageSize]
    omega
  rw [size] at count
  have room : pages ≠ 0 := by omega
  obtain ⟨st', filled, low, t, tables⟩ := fillTables_room hp bound fit' (count.trans (by omega))
    (encodes_rootState hp room)
  refine ⟨st', ?_, tables.encodes.poolPages, ?_⟩
  · have sum : highest / (1024 * 1024 * 1024) + limineTablePoolSlack +
        (st.setHhdm limineHhdmBase).ctx.imageSize / limineLargePageSize = pages := pages_eq
    unfold limineBuildPageTables
    rw [if_neg imagePhys]
    dsimp only
    rw [highest_eq, if_neg reached, if_neg (Nat.not_lt_of_le bound), sum, allocated, ok_bind,
      allocTable_root hp room]
    dsimp only
    rw [if_neg hp.positive]
    exact filled
  · have used := tables.confined.used_le
    rw [tables.encodes.used, tables.encodes.poolPages]
    omega

theorem limineBuildPageTables_enough_small :
    ∃ st', limineBuildPageTables (some smallMap) smallPages smallState = .ok st' ∧
      st'.ctx.tablePoolPages = tablePoolPages (highestPhysicalAddress (some smallMap)) 0x1800 ∧
      st'.ctx.tablePoolUsed + 7 ≤ st'.ctx.tablePoolPages := by
  have highest : highestPhysicalAddress (some smallMap) = 0x400000 := by decide +kernel
  have allocated : smallPages (tablePoolPages (highestPhysicalAddress (some smallMap)) 0x1800) =
      .ok 0x200000 := by
    rw [highest]
    decide
  refine limineBuildPageTables_enough ?_ ?_ ?_ ?_ ?_ allocated
  · intro n p allocated
    unfold smallPages at allocated
    split at allocated
    · cases allocated
      exact ⟨by decide, by decide, by omega⟩
    · cases allocated
  · exact ⟨by decide, by decide, by decide, by decide⟩
  · decide
  · rw [highest]
    decide
  · rw [highest]
    decide

end Meridian.Limine
