import Meridian.Limine.Tables

/-!
# What the build stores

The build overwrites the map of the tables with the direct map, the framebuffer's large pages and
the image's pages, in this order (`tablesMap`), and links the low half to the direct map's table
(`fillTables_spec`).
-/

namespace Meridian.Limine

open Lib.Word Lib.Radix Lib.Result

variable {pool pages low : Nat} {st st' : PagingState} {t : RadixTree Nat} {path : List Nat} {n i : Nat}

/-! ### The pages of the three loops -/

/-- The directory entry of an offset in the direct map. -/
def directKey (offset : Nat) : List Nat × Nat := ([256, offset / 2 ^ 30 % 512], offset / 2 ^ 21 % 512)

/-- The table entry of a page in the top two gigabytes. -/
def imageKey (virt : Nat) : List Nat × Nat :=
  ([511, virt / 2 ^ 30 % 512, virt / 2 ^ 21 % 512], virt / 2 ^ 12 % 512)

/-- A large page's entry with these attribute bits. -/
def largeEntry (bits offset : Nat) : Nat := offset / 2 ^ 21 * 2 ^ 21 + bits

/-- Present, writable and large. -/
def directBits : Nat := 0x83

/-- The same, write-combining. -/
def writeCombiningBits : Nat := 0x108b

theorem mem_offsets {start stop step offset : Nat} (pos : 0 < step) :
    offset ∈ offsets start stop step ↔ ∃ k, offset = start + step * k ∧ offset < stop := by
  have count : ∀ k, k < (stop - start + step - 1) / step ↔ start + step * k < stop := by
    intro k
    rw [Nat.lt_iff_add_one_le, Nat.le_div_iff_mul_le pos, Nat.add_one_mul, Nat.mul_comm k]
    omega
  simp only [offsets, List.mem_map, List.mem_range, count]
  constructor
  · rintro ⟨k, below, rfl⟩
    exact ⟨k, rfl, below⟩
  · rintro ⟨k, rfl, below⟩
    exact ⟨k, below, rfl⟩

theorem directKey_inj {o o' : Nat} (h : o < 2 ^ 39) (h' : o' < 2 ^ 39) (eq : directKey o = directKey o') :
    o / 2 ^ 21 = o' / 2 ^ 21 := by
  simp only [directKey, Prod.mk.injEq, List.cons.injEq, and_true, true_and] at eq
  omega

theorem imageKey_inj {v v' : Nat} (h : 2 ^ 64 - 2 ^ 31 ≤ v ∧ v < 2 ^ 64)
    (h' : 2 ^ 64 - 2 ^ 31 ≤ v' ∧ v' < 2 ^ 64) (eq : imageKey v = imageKey v') :
    v / 2 ^ 12 = v' / 2 ^ 12 := by
  simp only [imageKey, Prod.mk.injEq, List.cons.injEq, and_true, true_and] at eq
  omega

theorem directKey_ne_imageKey (o v : Nat) : directKey o ≠ imageKey v := by
  simp [directKey, imageKey]

/-- Where an offset of the direct map stands in the tables. -/
theorem direct_indices {offset : Nat} (below : offset < 2 ^ 39) :
    u64 (limineHhdmBase + offset) = limineHhdmBase + offset ∧ pml4Index (limineHhdmBase + offset) = 256 ∧
      pdptIndex (limineHhdmBase + offset) = offset / 2 ^ 30 % 512 ∧
      pdIndex (limineHhdmBase + offset) = offset / 2 ^ 21 % 512 := by
  refine ⟨u64_of_lt (by unfold limineHhdmBase; omega), ?_, ?_, ?_⟩
  · rw [pml4Index, index_eq, limineHhdmBase]
    omega
  · rw [pdptIndex, index_eq, limineHhdmBase]
    omega
  · rw [pdIndex, index_eq, limineHhdmBase]
    omega

/-- One large page of the direct map. -/
theorem mapDirect_spec (hp : Pool pool pages) {flags bits offset : Nat}
    (bits_eq : flags ||| pteLarge = bits) (small : bits < 2 ^ 21) (below : offset < 2 ^ 39)
    (h : Encodes pool pages low st t) (layered : RadixTree.Layered leafDepth t)
    (eq : mapDirect flags st offset = .ok st') :
    ∃ t', Mapped pool pages low t st' t' (directKey offset).1 (directKey offset).2
      (largeEntry bits offset) := by
  obtain ⟨virt, i4, i3, i2⟩ := direct_indices below
  have entry : offset &&& (2 ^ 64 - limineLargePageSize) ||| flags ||| pteLarge = largeEntry bits offset := by
    rw [and_largeMask (by omega), Nat.or_assoc, bits_eq]
    exact or_low (Nat.mul_mod_left _ _) small
  unfold mapDirect at eq
  rw [virt] at eq
  obtain ⟨t', mapped⟩ := limineMapPage_spec hp h layered (by rw [i4]; decide) (by rw [i4]; rfl) eq
  rw [if_pos rfl, i4, i3, i2, entry] at mapped
  exact ⟨t', mapped⟩

/-- The image lies in whole pages of the top two gigabytes, and of physical memory. -/
structure ImageOk (imagePhys imageVirt imageSize : Nat) : Prop where
  physAligned : imagePhys % 4096 = 0
  virtAligned : imageVirt % 4096 = 0
  high : limineHigherHalfBase ≤ imageVirt
  top : imageVirt + imageSize ≤ 2 ^ 64
  phys : imagePhys + imageSize ≤ 2 ^ 52

/-- One page of the image. -/
theorem mapImage_spec (hp : Pool pool pages) {imagePhys imageVirt imageSize offset : Nat}
    (image : ImageOk imagePhys imageVirt imageSize) (aligned : offset % 4096 = 0)
    (below : offset < imageSize) (h : Encodes pool pages low st t)
    (layered : RadixTree.Layered leafDepth t) (eq : mapImage imageVirt imagePhys st offset = .ok st') :
    ∃ t', Mapped pool pages low t st' t' (imageKey (imageVirt + offset)).1
      (imageKey (imageVirt + offset)).2 (imagePhys + offset + 3) := by
  obtain ⟨physAligned, virtAligned, high, top, phys⟩ := image
  unfold limineHigherHalfBase at high
  have virt : u64 (imageVirt + offset) = imageVirt + offset := u64_of_lt (by omega)
  have physical : u64 (imagePhys + offset) = imagePhys + offset := u64_of_lt (by omega)
  have i4 : pml4Index (imageVirt + offset) = 511 := by
    rw [pml4Index, index_eq]
    omega
  have i3 : pdptIndex (imageVirt + offset) = (imageVirt + offset) / 2 ^ 30 % 512 := index_eq _ _
  have i2 : pdIndex (imageVirt + offset) = (imageVirt + offset) / 2 ^ 21 % 512 := index_eq _ _
  have i1 : ptIndex (imageVirt + offset) = (imageVirt + offset) / 2 ^ 12 % 512 := index_eq _ _
  have entry : imagePhys + offset &&& pteAddrMask ||| (ptePresent ||| pteWrite) = imagePhys + offset + 3 := by
    rw [and_pteAddrMask (by omega), show (imagePhys + offset) / 4096 * 4096 = imagePhys + offset by omega]
    exact or_low (k := 12) (by omega) (by decide)
  unfold mapImage at eq
  rw [virt, physical] at eq
  obtain ⟨t', mapped⟩ := limineMapPage_spec hp h layered (by rw [i4]; decide) (by rw [i4]; rfl) eq
  rw [if_neg (by decide), i4, i3, i2, i1, entry] at mapped
  exact ⟨t', mapped⟩

/-! ### The map of the finished tables -/

/-- The large pages that are mapped again for the framebuffer. -/
def framebufferPages (ctx : LimineCtx) : List Nat :=
  if ctx.fbPhys ≠ 0 ∧ ctx.fbSize ≠ 0 then
    let fbStart := ctx.fbPhys &&& (2 ^ 64 - limineLargePageSize)
    let fbEnd := u64 (ctx.fbPhys + ctx.fbSize + limineLargePageSize - 1) &&&
      (2 ^ 64 - limineLargePageSize)
    if fbEnd ≤ limineMaxDirectMap then offsets fbStart fbEnd limineLargePageSize else []
  else []

/-- The map that the build leaves: three loops, each over the result of the one before. -/
def tablesMap (ctx : LimineCtx) (highest : Nat) : List Nat × Nat → Option Nat :=
  let direct := overwrite directKey (largeEntry directBits) (fun _ => none)
    (offsets 0 highest limineLargePageSize)
  let framebuffer := overwrite directKey (largeEntry writeCombiningBits) direct (framebufferPages ctx)
  overwrite (fun offset => imageKey (ctx.imageVirt + offset)) (fun offset => ctx.imagePhys + offset + 3)
    framebuffer (offsets 0 ctx.imageSize liminePageSize)

/-- The tables in memory after the build, with the low half under the direct map's entry. -/
structure Built (pool pages : Nat) (ctx : LimineCtx) (highest : Nat) (st : PagingState) (t : RadixTree Nat)
    (direct : Nat) : Prop where
  encodes : Encodes pool pages (tableAddr pool direct + 3) st t
  directTable : t.node [256] = some direct
  layered : RadixTree.Layered leafDepth t
  denote : t.denote = tablesMap ctx highest

theorem offset_of_mem_framebufferPages {ctx : LimineCtx} {offset : Nat} (h : offset ∈ framebufferPages ctx) :
    offset < limineMaxDirectMap := by
  unfold framebufferPages at h
  split at h
  · dsimp only at h
    split at h
    · rename_i bound
      obtain ⟨k, rfl, below⟩ := (mem_offsets (by decide)).mp h
      exact below.trans_le bound
    · cases h
  · cases h

theorem mapFramebuffer_eq (st : PagingState) :
    mapFramebuffer st = (framebufferPages st.ctx).foldlM
      (mapDirect (ptePresent ||| pteWrite ||| pteWcLarge)) st := by
  unfold mapFramebuffer framebufferPages
  dsimp only
  split
  · split <;> rfl
  · rfl

/-- A loop over large pages of the direct map. -/
theorem mapDirect_loop (hp : Pool pool pages) {flags : Nat} (bits : Nat) {items : List Nat}
    (bits_eq : flags ||| pteLarge = bits) (small : bits < 2 ^ 21)
    (below : ∀ offset ∈ items, offset < limineMaxDirectMap) (h : Encodes pool pages low st t)
    (layered : RadixTree.Layered leafDepth t) (eq : items.foldlM (mapDirect flags) st = .ok st') :
    SameContext st st' ∧ ∃ t', Encodes pool pages low st' t' ∧ RadixTree.Layered leafDepth t' ∧
      t'.denote = overwrite directKey (largeEntry bits) t.denote items ∧
      ∀ path n, t.node path = some n → t'.node path = some n := by
  refine ⟨foldlM_context (fun offset st st' ok => limineMapPage_context ok) eq, ?_⟩
  refine foldlM_mapped ?_ h layered eq
  intro offset mem st t st' h layered ok
  exact mapDirect_spec hp bits_eq small (below offset mem) h layered ok

/-- The loop over the image's pages. -/
theorem mapImage_loop (hp : Pool pool pages) {imagePhys imageVirt imageSize : Nat}
    (image : ImageOk imagePhys imageVirt imageSize) (h : Encodes pool pages low st t)
    (layered : RadixTree.Layered leafDepth t)
    (eq : (offsets 0 imageSize liminePageSize).foldlM (mapImage imageVirt imagePhys) st = .ok st') :
    ∃ t', Encodes pool pages low st' t' ∧ RadixTree.Layered leafDepth t' ∧
      t'.denote = overwrite (fun offset => imageKey (imageVirt + offset))
        (fun offset => imagePhys + offset + 3) t.denote (offsets 0 imageSize liminePageSize) ∧
      ∀ path n, t.node path = some n → t'.node path = some n := by
  refine foldlM_mapped ?_ h layered eq
  intro offset mem st t st' h layered ok
  obtain ⟨k, rfl, below⟩ := (mem_offsets (by decide)).mp mem
  exact mapImage_spec hp image (by unfold liminePageSize; omega) below h layered ok

/-- Setting the root's first entry. -/
theorem Encodes.alias (h : Encodes pool pages low st t) (value : Nat) :
    Encodes pool pages value (st.setWord pool value) t := by
  refine ⟨h.poolPhys, h.poolPages, h.pml4, h.used, h.within, ?_, word_setWord_self st pool value⟩
  intro n i below index notLow
  rw [word_setWord_ne (by unfold tableAddr; omega)]
  exact h.words below index notLow

theorem SameContext.framebufferPages (h : SameContext st st') :
    framebufferPages st'.ctx = framebufferPages st.ctx :=
  (congrArg Limine.framebufferPages h :)

/-- The alias copies the link to the direct map's table. -/
theorem aliasLow_eq (h : Encodes pool pages low st t) {direct : Nat} (reach : t.node [256] = some direct) :
    aliasLow st = st.setWord pool (tableAddr pool direct + 3) := by
  have reach' : t.node ([] ++ [256]) = some direct := reach
  obtain ⟨root, rootReach, child⟩ := RadixTree.node_concat_eq_some.mp reach'
  cases rootReach
  have entry := h.words t.root (i := 256) (by decide) (by decide)
  have index : pml4Index limineHhdmBase = 256 := by decide
  rw [tableAddr, Nat.zero_mul, Nat.add_zero, child] at entry
  rw [aliasLow, h.pml4, index, entry]
  rfl

theorem fillTables_spec (hp : Pool pool pages) {highest : Nat} (positive : 0 < highest)
    (bound : highest ≤ limineMaxDirectMap)
    (image : ImageOk st.ctx.imagePhys st.ctx.imageVirt st.ctx.imageSize)
    (h : Encodes pool pages low st .single) (eq : fillTables st highest = .ok st') :
    ∃ t direct, Built pool pages st.ctx highest st' t direct := by
  unfold fillTables at eq
  obtain ⟨st₁, loop₁, eq⟩ := bind_eq_ok.mp eq
  obtain ⟨st₂, loop₂, loop₃⟩ := bind_eq_ok.mp eq
  have below : ∀ offset ∈ offsets 0 highest limineLargePageSize, offset < limineMaxDirectMap := by
    intro offset mem
    obtain ⟨k, _, lt⟩ := (mem_offsets (by decide)).mp mem
    exact lt.trans_le bound
  obtain ⟨context₁, t₁, h₁, layered₁, denote₁, _⟩ :=
    mapDirect_loop hp directBits (by decide) (by decide) below h RadixTree.layered_single loop₁
  rw [mapFramebuffer_eq, context₁.framebufferPages] at loop₂
  obtain ⟨context₂, t₂, h₂, layered₂, denote₂, nodes₂⟩ :=
    mapDirect_loop hp writeCombiningBits (by decide) (by decide)
      (fun offset mem => offset_of_mem_framebufferPages mem) h₁ layered₁ loop₂
  -- The first large page made the direct map's table.
  have first : ∃ entry, t₁.leafAt [256, 0] 0 = some entry := by
    have mem : (0 : Nat) ∈ offsets 0 highest limineLargePageSize :=
      (mem_offsets (by decide)).mpr ⟨0, rfl, positive⟩
    have found := congrFun denote₁ (directKey 0)
    obtain ⟨last, _, _, stored⟩ := @overwrite_of_mem _ _ _ _ directKey (largeEntry directBits)
      RadixTree.single.denote _ _ ⟨0, mem, rfl⟩
    exact ⟨_, found.trans stored⟩
  obtain ⟨entry, leaf⟩ := first
  obtain ⟨n, reach, _⟩ := RadixTree.leafAt_eq_some.mp leaf
  have reach : t₁.node ([256] ++ [0]) = some n := reach
  obtain ⟨direct, reach, _⟩ := RadixTree.node_concat_eq_some.mp reach
  have reach₂ := nodes₂ _ _ reach
  have context := context₂.trans context₁
  have phys : st₂.ctx.imagePhys = st.ctx.imagePhys := (congrArg LimineCtx.imagePhys context :)
  have virt : st₂.ctx.imageVirt = st.ctx.imageVirt := (congrArg LimineCtx.imageVirt context :)
  have size : st₂.ctx.imageSize = st.ctx.imageSize := (congrArg LimineCtx.imageSize context :)
  dsimp only at loop₃
  rw [aliasLow_eq h₂ reach₂] at loop₃
  have loop₃ : (offsets 0 st.ctx.imageSize liminePageSize).foldlM
      (mapImage st.ctx.imageVirt st.ctx.imagePhys)
      (st₂.setWord pool (tableAddr pool direct + 3)) = .ok st' := by
    rw [← phys, ← virt, ← size]
    exact loop₃
  obtain ⟨t₃, h₃, layered₃, denote₃, nodes₃⟩ := mapImage_loop hp image (h₂.alias _) layered₂ loop₃
  refine ⟨t₃, direct, h₃, nodes₃ _ _ reach₂, layered₃, ?_⟩
  rw [denote₃, denote₂, denote₁, RadixTree.denote_single]
  rfl

end Meridian.Limine
