import Meridian.Limine.Handed
import Meridian.Limine.Unmapped

/-!
# Which handed addresses the tables map

The chain of a boot: the requests are answered, the tables are built with the context that the
answers left, and the hand-off completes the memory maps. Every address handed to the kernel is then
mapped to the memory it stands for, exactly if the framebuffer is below the memory's ceiling or is
mapped by a loop of its own (`handed_mapped_iff`).
-/

namespace Meridian.Limine

open Lib.Word Lib.Result

variable {env : Env} {highest ptr size virt phys cr3 : Nat} {ctx : LimineCtx} {st st' : LimineState}
  {word : Nat → Nat}

/-! ### The memory maps at the hand-off -/

theorem fillEntry_length (ctx : LimineCtx) (entries : List LimineMemmapEntry) (desc : EfiMemoryDescriptor) :
    (fillEntry ctx entries desc).length ≤ entries.length + 1 := by
  unfold fillEntry
  split
  · exact Nat.le_succ _
  · dsimp only
    split
    · split
      · rw [List.length_append, List.length_dropLast, List.length_singleton]
        omega
      · rw [List.length_append, List.length_singleton]
    · exact Nat.le_add_left _ _

/-- The loop stops when the reserved entries are used up. -/
theorem fillEntries_length (descs : List EfiMemoryDescriptor) (entries : List LimineMemmapEntry)
    (h : entries.length ≤ ctx.memmapMaxEntries) :
    (fillEntries ctx descs entries).length ≤ ctx.memmapMaxEntries := by
  induction descs generalizing entries with
  | nil => exact h
  | cons desc descs ih =>
    unfold fillEntries
    split
    · rename_i room
      exact ih _ ((fillEntry_length ctx entries desc).trans room)
    · exact h

/-- The entries that were filled are in their array, and so are the pointers to them. -/
theorem Housed.putEntries (h : Housed env highest ctx st) (set : st.ctx.memmapResponse ≠ 0)
    {entries : List LimineMemmapEntry} (length : entries.length ≤ st.ctx.memmapMaxEntries) :
    Housed env highest ctx ((st.put st.ctx.memmapEntries (.entries entries)).put st.ctx.memmapPointers
      (.pointers ((List.range entries.length).map fun i =>
        toVirt st.ctx (st.ctx.memmapEntries + i * limineMemmapEntrySize)))) := by
  obtain ⟨_, _, inEntries, inPointers⟩ := h.memmap set
  have fewer := Nat.mul_le_mul_right limineMemmapEntrySize length
  have entriesFits : Fits env highest ctx st st.ctx.memmapEntries (.entries entries) := by
    refine ⟨⟨inEntries.1, (Nat.add_le_add_left fewer _).trans inEntries.2⟩, ?_, ?_, ?_⟩
    · intro virt size mem
      cases mem
    · intro phys virt other
      cases other
    · intro fb other
      cases other
  refine (h.put entriesFits).put ⟨?_, ?_, ?_, ?_⟩
  · rw [LimineObject.size, List.length_map, List.length_range]
    exact ⟨inPointers.1, (Nat.add_le_add_left (Nat.mul_le_mul_right 8 length) _).trans inPointers.2⟩
  · intro virt size mem
    simp only [LimineObject.handed, List.map_map, List.mem_map, List.mem_range, Function.comp_apply,
      Prod.mk.injEq] at mem
    obtain ⟨i, below, rfl, rfl⟩ := mem
    have slot : (i + 1) * limineMemmapEntrySize ≤ st.ctx.memmapMaxEntries * limineMemmapEntrySize :=
      Nat.mul_le_mul_right _ (below.trans_le length)
    rw [Nat.add_one_mul] at slot
    have inEntry : InArena st (st.ctx.memmapEntries + i * limineMemmapEntrySize) limineMemmapEntrySize := by
      have lower := inEntries.1
      have upper := inEntries.2
      exact ⟨by omega, by omega⟩
    exact h.reaches inEntry (by decide) (by decide)
  · intro phys virt other
    cases other
  · intro fb other
    cases other

/-- The hand-off's map for the kernel, with the firmware's own in a buffer below the ceiling. -/
theorem Housed.fill (h : Housed env highest ctx st) (map : EfiMemoryMap)
    (buffer : Reaches highest limineHhdmBase (toVirt st.ctx st.ctx.efiMemmapBuffer) map.mapSize) :
    Housed env highest ctx (st.fill map) := by
  unfold LimineState.fill limineFillMemmap
  split
  · rename_i fill filled
    split at filled
    · cases filled
    · rename_i noNull
      cases filled
      have set : st.ctx.memmapResponse ≠ 0 := fun unset => noNull (Or.inl unset)
      obtain ⟨some, inResponse, _, inPointers⟩ := h.memmap set
      have length := @fillEntries_length st.ctx map.descriptors [] (Nat.zero_le _)
      generalize fillEntries st.ctx map.descriptors [] = entries at length ⊢
      have arrays := h.putEntries set length
      have pointers : Reaches highest limineHhdmBase (toVirt st.ctx st.ctx.memmapPointers)
          (entries.length * 8) :=
        h.reaches inPointers (Nat.mul_pos some (by decide)) (Nat.mul_le_mul_right 8 length)
      have memmap := arrays.put (@Fits.single _ _ st.ctx.memmapResponse _ _
        (.memmap ⟨entries.length, toVirt st.ctx st.ctx.memmapPointers⟩) inResponse _ _ rfl pointers
        (fun other => by cases other))
      unfold LimineState.write
      dsimp only
      split
      · rename_i efi given
        split at given
        · rename_i both
          cases given
          exact memmap.put (@Fits.single _ _ _ _ _ (.efiMemmap _) (h.efiMemmap both.1) _ _ rfl buffer
            (fun other => by cases other))
        · cases given
      · exact memmap
  · exact h

/-- A put of anything else than a framebuffer, elsewhere, leaves the framebuffers where they are. -/
theorem put_framebuffer_iff {p : Nat} {obj : LimineObject} {fb : LimineFramebuffer}
    (other : ∀ fb, obj ≠ .framebuffer fb) (apart : st.object ptr = some (.framebuffer fb) → ptr ≠ p) :
    (st.put p obj).object ptr = some (.framebuffer fb) ↔ st.object ptr = some (.framebuffer fb) := by
  rw [put_object]
  split
  · rename_i here
    constructor
    · intro stored
      cases stored
      exact absurd rfl (other fb)
    · exact fun stored => absurd here (apart stored)
  · rfl

theorem Housed.fill_framebuffer_iff (h : Housed env highest ctx st) (map : EfiMemoryMap)
    (fb : LimineFramebuffer) :
    (st.fill map).object ptr = some (.framebuffer fb) ↔ st.object ptr = some (.framebuffer fb) := by
  unfold LimineState.fill limineFillMemmap
  split
  · rename_i fill filled
    split at filled
    · cases filled
    · rename_i noNull
      cases filled
      have set : st.ctx.memmapResponse ≠ 0 := fun unset => noNull (Or.inl unset)
      have memmap := fun stored => (h.framebuffer ptr fb stored).separate.1 set
      have efi := fun stored => (h.framebuffer ptr fb stored).separate.2
      generalize fillEntries st.ctx map.descriptors [] = entries
      have first := @put_framebuffer_iff _ _ _ (.entries entries) _ (fun fb other => by cases other)
        (fun stored => (memmap stored).1)
      have second := @put_framebuffer_iff _ _ _
        (.pointers ((List.range entries.length).map fun i =>
          toVirt st.ctx (st.ctx.memmapEntries + i * limineMemmapEntrySize))) _
        (fun fb other => by cases other) (fun stored => (memmap (first.mp stored)).2.1)
      have third := @put_framebuffer_iff _ _ _
        (.response (.memmap ⟨entries.length, toVirt st.ctx st.ctx.memmapPointers⟩)) _
        (fun fb other => by cases other) (fun stored => (memmap (first.mp (second.mp stored))).2.2)
      have three := third.trans (second.trans first)
      unfold LimineState.write
      dsimp only
      split
      · rename_i response given
        split at given
        · rename_i both
          have fourth := @put_framebuffer_iff _ _ _ (.response (.efiMemmap response)) _
            (fun fb other => by cases other) (fun stored => efi (three.mp stored) both.1)
          exact fourth.trans three
        · cases given
      · exact three
  · rfl

theorem fill_ctx (st : LimineState) (map : EfiMemoryMap) : (st.fill map).ctx = st.ctx := by
  unfold LimineState.fill
  split
  · exact write_ctx
  · rfl

/-! ### The chain of a boot -/

/-- The state with the context that the tables were built with. -/
def LimineState.withTables (st : LimineState) (tables : PagingState) : LimineState :=
  { st with ctx := tables.ctx }

/-- The build leaves the fields of the context that the objects are about. -/
theorem Housed.withTables (h : Housed env highest ctx st) {memory : Nat → Nat} {tables : PagingState}
    {pool pages direct : Nat} {t : Lib.Radix.RadixTree Nat}
    (build : Build highest ⟨st.ctx, memory⟩ tables pool pages t direct) :
    Housed env highest ctx (st.withTables tables) ∧ tables.ctx.fbPhys = st.ctx.fbPhys ∧
      tables.ctx.fbSize = st.ctx.fbSize := by
  have context := build.ctx_eq
  have arena : tables.ctx.arena = st.ctx.arena := by rw [context]
  have arenaSize : tables.ctx.arenaSize = st.ctx.arenaSize := by rw [context]
  have arenaUsed : tables.ctx.arenaUsed = st.ctx.arenaUsed := by rw [context]
  have hhdm : tables.ctx.hhdmOffset = limineHhdmBase := by rw [context]
  have maps : tables.ctx.maps = st.ctx.maps := by
    rw [context]
    rfl
  have imagePhys : tables.ctx.imagePhys = st.ctx.imagePhys := by rw [context]
  have imageVirt : tables.ctx.imageVirt = st.ctx.imageVirt := by rw [context]
  have imageSize : tables.ctx.imageSize = st.ctx.imageSize := by rw [context]
  have fileSize : tables.ctx.fileSize = st.ctx.fileSize := by rw [context]
  have fbPhys : tables.ctx.fbPhys = st.ctx.fbPhys := by rw [context]
  have fbSize : tables.ctx.fbSize = st.ctx.fbSize := by rw [context]
  have maxEntries : tables.ctx.memmapMaxEntries = st.ctx.memmapMaxEntries := by rw [context]
  have quiet : Quiet st (st.withTables tables) :=
    (Quiet.refl h.ok).congr arena arenaSize (hhdm.trans h.ok.hhdm.symm) arenaUsed maps rfl rfl
  exact ⟨h.grow quiet rfl imagePhys imageVirt imageSize fileSize fbPhys fbSize maxEntries, fbPhys, fbSize⟩

theorem Housed.setEfiMemmapBuffer (h : Housed env highest ctx st) (buffer : Nat) :
    Housed env highest ctx (st.setEfiMemmapBuffer buffer) :=
  h.grow (setEfiMemmapBuffer_quiet h.ok buffer) rfl rfl rfl rfl rfl rfl rfl rfl

/-- What the hand-off leaves: the objects of before with the maps filled, and the framebuffers. -/
structure HandedOff (env : Env) (highest : Nat) (ctx : LimineCtx) (st st' : LimineState) : Prop where
  housed : Housed env highest ctx st'
  fbPhys : st'.ctx.fbPhys = st.ctx.fbPhys
  fbSize : st'.ctx.fbSize = st.ctx.fbSize
  framebuffer : ∀ ptr fb, st'.object ptr = some (.framebuffer fb) ↔ st.object ptr = some (.framebuffer fb)

theorem Housed.handoff (h : Housed env highest ctx st) (sane : env.Sane) (ram : Ram env highest ctx)
    (mapSize : ∀ map ∈ env.exitBootServices, map.mapSize ≤ 16 * liminePageSize)
    (handoff : limineHandoff env st = some st') : HandedOff env highest ctx st st' := by
  unfold limineHandoff at handoff
  split at handoff
  · cases handoff
  · split at handoff
    · rename_i gdt scratch map _ scratchPages left
      cases handoff
      have mem : scratch ∈ env.scratchPages := by rw [scratchPages]; rfl
      have small := mapSize map (by rw [left]; rfl)
      have below := ram.scratch scratch mem
      have sum : u64 (scratch + liminePageSize) = scratch + liminePageSize := u64_of_lt (sane.scratch scratch mem)
      generalize u64 (scratch + liminePageSize) = buffer at sum ⊢
      have buffered := h.setEfiMemmapBuffer buffer
      have reaches : Reaches highest limineHhdmBase (toVirt st.ctx buffer) map.mapSize := by
        refine Or.inr ⟨scratch + liminePageSize, ?_, ?_⟩
        · rw [sum, toVirt, h.ok.hhdm]
        · unfold liminePageSize at below small ⊢
          omega
      refine ⟨buffered.fill map reaches, ?_, ?_, fun ptr fb => buffered.fill_framebuffer_iff map fb⟩
      · rw [fill_ctx]
        rfl
      · rw [fill_ctx]
        rfl
    · cases handoff

/-! ### Translates addresses -/

/-- The tables translate each of these addresses to the memory that it stands for. -/
def Translates (word : Nat → Nat) (cr3 virt phys size : Nat) : Prop :=
  ∀ o < size, ∃ entry, translate word cr3 (u64 (virt + o)) = some (phys + o, entry)

theorem hhdm_address {o : Nat} (below : phys + o < limineMaxDirectMap) :
    u64 (u64 (phys + limineHhdmBase) + o) = limineHhdmBase + (phys + o) := by
  have limit : limineMaxDirectMap = 2 ^ 39 := by decide
  have base : limineHhdmBase = 2 ^ 64 - 2 ^ 47 := by decide
  unfold u64
  omega

/-- Below the ceiling every address of the higher half is mapped. -/
theorem translates_below
    (high : ∀ a < highest, ∃ entry, translate word cr3 (limineHhdmBase + a) = some (a, entry))
    (bound : highest ≤ limineMaxDirectMap) (below : phys + size ≤ highest) :
    Translates word cr3 (u64 (phys + limineHhdmBase)) phys size := by
  intro o inside
  rw [hhdm_address (by omega)]
  exact high _ (by omega)

theorem sub64_hhdm (phys : Nat) (small : phys < 2 ^ 64) :
    sub64 (u64 (phys + limineHhdmBase)) limineHhdmBase = phys := by
  have base : limineHhdmBase = 2 ^ 64 - 2 ^ 47 := by decide
  unfold sub64 u64
  omega

theorem Reaches.translates
    (high : ∀ a < highest, ∃ entry, translate word cr3 (limineHhdmBase + a) = some (a, entry))
    (bound : highest ≤ limineMaxDirectMap) (reaches : Reaches highest limineHhdmBase virt size)
    (notNull : virt ≠ 0) : Translates word cr3 virt (sub64 virt limineHhdmBase) (max 1 size) := by
  obtain ⟨phys, virt_eq, below⟩ := reaches.resolve_left notNull
  have limit : limineMaxDirectMap = 2 ^ 39 := by decide
  rw [virt_eq, sub64_hhdm phys (by omega)]
  exact translates_below high bound below

/-- The framebuffer is below the memory's ceiling, or the loop over its own pages maps it. -/
def FramebufferReached (ctx : LimineCtx) (highest : Nat) : Prop :=
  ctx.fbPhys + max 1 ctx.fbSize ≤ highest ∨ FramebufferOk ctx

/-- The framebuffer's address is mapped for its size just then. -/
theorem Build.framebuffer_iff {ps tables : PagingState} {pool pages direct : Nat}
    {t : Lib.Radix.RadixTree Nat} (build : Build highest ps tables pool pages t direct)
    (image : ImageOk ps.ctx.imagePhys ps.ctx.imageVirt ps.ctx.imageSize)
    (inRam : ps.ctx.imagePhys + ps.ctx.imageSize ≤ highest) (ceiling : highest % 2 ^ 21 = 0)
    (word : ps.ctx.fbPhys < 2 ^ 64) :
    Translates tables.word pool (u64 (ps.ctx.fbPhys + limineHhdmBase)) ps.ctx.fbPhys (max 1 ps.ctx.fbSize) ↔
      FramebufferReached ps.ctx highest := by
  have limit : limineMaxDirectMap = 2 ^ 39 := by decide
  have bound := build.bound
  have hp := build.inPool
  obtain ⟨phys, virt, size, fbPhys, fbSize⟩ := rootState_fields ps pool pages
  have image' : ImageOk (rootState (ps.setHhdm limineHhdmBase) pool pages).ctx.imagePhys
      (rootState (ps.setHhdm limineHhdmBase) pool pages).ctx.imageVirt
      (rootState (ps.setHhdm limineHhdmBase) pool pages).ctx.imageSize := by rwa [phys, virt, size]
  have correct := build.correct image
  rw [build.built.encodes.pml4] at correct
  constructor
  · intro mapped
    by_contra unreached
    obtain ⟨above, notOk⟩ := not_or.mp unreached
    -- Of the framebuffer's bytes, one above the ceiling; above the limit if there is one there.
    obtain ⟨o, inside, far⟩ : ∃ o, o < max 1 ps.ctx.fbSize ∧ highest ≤ ps.ctx.fbPhys + o ∧
        (ps.ctx.fbPhys + o < limineMaxDirectMap → ps.ctx.fbPhys = 0 ∨ ps.ctx.fbSize = 0) := by
      by_cases fits : ps.ctx.fbPhys + ps.ctx.fbSize ≤ limineMaxDirectMap
      · refine ⟨highest - ps.ctx.fbPhys, by omega, by omega, fun _ => ?_⟩
        by_contra both
        obtain ⟨phys, size⟩ := not_or.mp both
        exact notOk ⟨phys, size, fits⟩
      · exact ⟨limineMaxDirectMap - ps.ctx.fbPhys, by omega, by omega, fun below => by omega⟩
    obtain ⟨entry, walk⟩ := mapped o inside
    have below : ps.ctx.fbPhys + o < limineMaxDirectMap :=
      build.built.translate_lt hp bound image' (by rw [phys, size]; omega) walk
    rw [hhdm_address below] at walk
    have pages := build.built.translate_framebuffer hp bound image' ceiling far.1 below walk
    have skipped : ¬(ps.ctx.fbPhys ≠ 0 ∧ ps.ctx.fbSize ≠ 0) := by
      have zero := far.2 below
      omega
    unfold framebufferPages at pages
    rw [fbPhys, fbSize, if_neg skipped] at pages
    exact pages rfl
  · rintro (below | framebuffer)
    · exact translates_below correct.high bound below
    · have fits := framebuffer.fits
      have some := framebuffer.size
      intro o inside
      obtain ⟨entry, walk, _⟩ := correct.framebuffer framebuffer (ps.ctx.fbPhys + o) (by omega) (by omega)
      rw [hhdm_address (by omega)]
      exact ⟨entry, walk⟩

/-! ### The memory's ceiling -/

theorem highestPhysicalAddress_aligned (map : Option (List EfiMemoryDescriptor)) :
    highestPhysicalAddress map % 2 ^ 21 = 0 := by
  cases map with
  | none => rfl
  | some descs =>
    unfold highestPhysicalAddress
    dsimp only
    rw [and_largeMask (u64_lt _)]
    exact Nat.mul_mod_left _ _

/-- The limits of the memory to map are physical addresses. -/
def MapOk (map : List EfiMemoryDescriptor) : Prop := ∀ d ∈ map, isMapped d.type → d.limit ≤ 2 ^ 52

/-- The loop of `highestPhysicalAddress`: the largest limit so far. -/
theorem highest_loop {descs : List EfiMemoryDescriptor} (ok : MapOk descs) (first : Nat) (small : first ≤ 2 ^ 52) :
    let last := descs.foldl (fun highest desc =>
      if isMapped desc.type then
        let limit := u64 (desc.physicalStart + u64 (desc.numberOfPages * liminePageSize))
        if limit > highest then limit else highest
      else highest) first
    first ≤ last ∧ last ≤ 2 ^ 52 ∧ ∀ d ∈ descs, isMapped d.type → d.limit ≤ last := by
  induction descs generalizing first with
  | nil => exact ⟨Nat.le_refl _, small, fun d mem => by cases mem⟩
  | cons d descs ih =>
    have okRest : MapOk descs := fun d' mem => ok d' (List.mem_cons_of_mem d mem)
    dsimp only
    rw [List.foldl_cons]
    by_cases mapped : isMapped d.type
    · have bound := ok d List.mem_cons_self mapped
      unfold EfiMemoryDescriptor.limit at bound
      have sum : u64 (d.physicalStart + u64 (d.numberOfPages * liminePageSize)) = d.limit := by
        rw [u64_of_lt (n := d.numberOfPages * liminePageSize) (by omega)]
        exact u64_of_lt (by omega)
      rw [if_pos mapped, sum]
      split
      · rename_i larger
        obtain ⟨above, below, members⟩ := ih okRest d.limit bound
        refine ⟨(Nat.le_of_lt larger).trans above, below, fun d' mem mapped' => ?_⟩
        rcases List.mem_cons.mp mem with rfl | later
        · exact above
        · exact members d' later mapped'
      · rename_i smaller
        obtain ⟨above, below, members⟩ := ih okRest first small
        refine ⟨above, below, fun d' mem mapped' => ?_⟩
        rcases List.mem_cons.mp mem with rfl | later
        · exact (Nat.le_of_not_lt smaller).trans above
        · exact members d' later mapped'
    · rw [if_neg mapped]
      obtain ⟨above, below, members⟩ := ih okRest first small
      refine ⟨above, below, fun d' mem mapped' => ?_⟩
      rcases List.mem_cons.mp mem with rfl | later
      · exact absurd mapped' mapped
      · exact members d' later mapped'

theorem limit_le_highest {map : List EfiMemoryDescriptor} (ok : MapOk map) {d : EfiMemoryDescriptor}
    (mem : d ∈ map) (mapped : isMapped d.type) : d.limit ≤ highestPhysicalAddress (some map) := by
  obtain ⟨_, below, members⟩ := highest_loop ok 0 (Nat.zero_le _)
  have here := members d mem mapped
  unfold highestPhysicalAddress
  dsimp only at here below ⊢
  generalize map.foldl _ 0 = last at here below ⊢
  rw [u64_of_lt (by unfold limineLargePageSize; omega), and_largeMask (by unfold limineLargePageSize; omega)]
  unfold limineLargePageSize
  omega

/-- The firmware's map describes these bytes as the loader's data, or as free memory that they were
taken from later. -/
def Backed (map : List EfiMemoryDescriptor) (start size : Nat) : Prop :=
  ∀ a, start ≤ a → a < start + size → ∃ d ∈ map, (d.type = 2 ∨ d.type = 7) ∧ a ∈ d.bytes

theorem Backed.le {map : List EfiMemoryDescriptor} {start : Nat} (backed : Backed map start size)
    (ok : MapOk map) (positive : 0 < size) : start + size ≤ highestPhysicalAddress (some map) := by
  obtain ⟨d, mem, type, inside⟩ := backed (start + size - 1) (by omega) (by omega)
  have mapped : isMapped d.type := by rcases type with type | type <;> rw [type] <;> decide
  have limit := limit_le_highest ok mem mapped
  have below := inside.2
  omega

/-- What the loader may rely on: physical addresses fit 52 bits, the memory that the firmware gave
the loader is in its map, and the final map fits the buffer that it was asked to fill. -/
structure Firmware (env : Env) (ctx : LimineCtx) (map : List EfiMemoryDescriptor) : Prop where
  limits : MapOk map
  arena : Backed map ctx.arena ctx.arenaSize
  image : Backed map ctx.imagePhys ctx.imageSize
  copies : ∀ req pages copy, env.allocatePages req pages = some copy →
    Backed map copy (pages * liminePageSize)
  scratch : ∀ scratch ∈ env.scratchPages, Backed map scratch (17 * liminePageSize)
  finalMap : ∀ map ∈ env.exitBootServices, map.mapSize ≤ 16 * liminePageSize
  file : ctx.fileSize + liminePageSize ≤ 2 ^ 64
  graphics : ∀ mode ∈ env.graphics, mode.frameBufferBase < 2 ^ 64

theorem Firmware.ram {map : List EfiMemoryDescriptor} (firmware : Firmware env ctx map)
    (positive : 0 < highestPhysicalAddress (some map)) : Ram env (highestPhysicalAddress (some map)) ctx where
  positive := positive
  file := firmware.file
  copies req pages copy some allocated :=
    (firmware.copies req pages copy allocated).le firmware.limits (Nat.mul_pos some (by decide))
  scratch scratch mem := (firmware.scratch scratch mem).le firmware.limits (by decide)

/-! ### Every handed address -/

/-- In a boot with an image of some bytes in the top two gigabytes, every address handed to the
kernel is mapped exactly if a framebuffer that is handed over is below the memory's ceiling, or has an
address and a size and ends below the direct map's limit. -/
theorem handed_mapped_iff (env : Env) (sane : env.Sane) (ctx : LimineCtx) (ok : ArenaOk ctx)
    (maps : ctx.maps = ⟨0, 0, 0, 0⟩) (arenaSome : 0 < ctx.arenaSize)
    (image : ImageOk ctx.imagePhys ctx.imageVirt ctx.imageSize) (imageSome : 0 < ctx.imageSize)
    (map : List EfiMemoryDescriptor) (firmware : Firmware env ctx map)
    (allocatePages : Nat → Except EfiStatus Nat) (pools : ∀ n p, allocatePages n = .ok p → Pool p n)
    (word memory : Nat → Nat) (st st' : LimineState) (tables : PagingState)
    (answers : limineAnswerRequests env { ctx := ctx, word := word } = some st)
    (built : limineBuildPageTables (some map) allocatePages ⟨st.ctx, memory⟩ = .ok tables)
    (handoff : limineHandoff env (st.withTables tables) = some st') :
    (∀ virt phys size, Handed st' virt phys size →
      Translates tables.word tables.ctx.pml4Phys virt phys size) ↔
    ∀ ptr fb, st.object ptr = some (.framebuffer fb) →
      FramebufferReached st.ctx (highestPhysicalAddress (some map)) := by
  have ceiling := firmware.arena.le firmware.limits arenaSome
  have positive : 0 < highestPhysicalAddress (some map) := by omega
  have ram := firmware.ram positive
  have housed := limineAnswerRequests_housed sane ram ok maps ceiling answers
  have image' : ImageOk st.ctx.imagePhys st.ctx.imageVirt st.ctx.imageSize := by
    rw [housed.imagePhys, housed.imageVirt, housed.imageSize]
    exact image
  obtain ⟨pool, pages, t, direct, build⟩ := limineBuildPageTables_built pools image' built
  have correct := build.correct image'
  obtain ⟨tabled, fbPhys, fbSize⟩ := housed.withTables build
  have handed := tabled.handoff sane ram firmware.finalMap handoff
  have final := handed.housed
  have fbPhys : st'.ctx.fbPhys = st.ctx.fbPhys := handed.fbPhys.trans fbPhys
  have fbSize : st'.ctx.fbSize = st.ctx.fbSize := handed.fbSize.trans fbSize
  have inRam : st.ctx.imagePhys + st.ctx.imageSize ≤ highestPhysicalAddress (some map) := by
    rw [housed.imagePhys, housed.imageSize]
    exact firmware.image.le firmware.limits imageSome
  have framebuffer : ∀ ptr fb, st.object ptr = some (.framebuffer fb) →
      (Translates tables.word tables.ctx.pml4Phys fb.address (sub64 fb.address st'.ctx.hhdmOffset)
        (max 1 st'.ctx.fbSize) ↔ FramebufferReached st.ctx (highestPhysicalAddress (some map))) := by
    intro ptr fb stored
    obtain ⟨mode, given, address, base, _⟩ := (housed.framebuffer ptr fb stored).mode
    have small : st.ctx.fbPhys < 2 ^ 64 := base ▸ firmware.graphics mode given
    rw [address, ← base, final.ok.hhdm, sub64_hhdm st.ctx.fbPhys small, fbSize, build.built.encodes.pml4]
    exact build.framebuffer_iff image' inRam (highestPhysicalAddress_aligned _) small
  constructor
  · intro all ptr fb stored
    have stored' := (handed.framebuffer ptr fb).mpr stored
    exact (framebuffer ptr fb stored).mp (all _ _ _ (.framebuffer stored'))
  · intro reached virt phys size h
    cases h with
    | @object ptr obj stored =>
      obtain ⟨_, upper⟩ := final.inside phys obj stored
      have used := final.ok.used
      have below := final.ceiling
      unfold LimineState.frontier at upper
      rw [toVirt, final.ok.hhdm]
      exact translates_below correct.high build.bound (by omega)
    | pointer stored holds notNull =>
      rw [final.ok.hhdm]
      exact (final.handed _ _ _ _ stored holds).translates correct.high build.bound notNull
    | image stored =>
      obtain ⟨rfl, rfl⟩ := final.image _ _ _ stored
      intro o inside
      have first : o = 0 := Nat.lt_one_iff.mp inside
      subst first
      have top := image.top
      obtain ⟨entry, walk⟩ := correct.image 0 (by rw [housed.imageSize]; exact imageSome)
      rw [housed.imageVirt, housed.imagePhys] at walk
      rw [u64_of_lt (by omega)]
      exact ⟨entry, walk⟩
    | framebuffer stored =>
      have stored := (handed.framebuffer _ _).mp stored
      exact (framebuffer _ _ stored).mpr (reached _ _ stored)

/-- The sample machine with a display whose framebuffer of three megabytes is at this address. -/
def displayEnv (frameBufferBase : Nat) : Env :=
  { sampleEnv with
    graphics := some
      { pixelFormat := .redGreenBlueReserved8BitPerColor
        horizontalResolution := 1024
        verticalResolution := 768
        pixelsPerScanLine := 1024
        frameBufferBase := frameBufferBase
        frameBufferSize := 0x300000 } }

/-- Six megabytes of free memory, with the pool at the top. -/
def displayMap : List EfiMemoryDescriptor := [⟨7, 0, 0x600⟩]

def displayPages (n : Nat) : Except EfiStatus Nat :=
  if n ≤ 0x100 then .ok 0x500000 else .error .outOfResources

/-- An image with a request for the framebuffer. -/
def displayWord (addr : Nat) : Nat := requestWord 0x100040 0x9d5827dcd881dd75 0xa3148604f6fab11b addr

def displayAnswers (frameBufferBase : Nat) : Option LimineState :=
  limineAnswerRequests (displayEnv frameBufferBase) { ctx := sampleCtx, word := displayWord }

def displayTables (st : LimineState) : Except EfiStatus PagingState :=
  limineBuildPageTables (some displayMap) displayPages ⟨st.ctx, fun _ => 0⟩

def displayBoot (frameBufferBase : Nat) : Option (LimineState × PagingState × LimineState) :=
  (displayAnswers frameBufferBase).bind fun st => (displayTables st).toOption.bind fun tables =>
    (limineHandoff (displayEnv frameBufferBase) (st.withTables tables)).map fun st' => (st, tables, st')

theorem displayBoot_steps {frameBufferBase : Nat} {st st' : LimineState} {tables : PagingState}
    (boots : displayBoot frameBufferBase = some (st, tables, st')) :
    displayAnswers frameBufferBase = some st ∧ displayTables st = .ok tables ∧
      limineHandoff (displayEnv frameBufferBase) (st.withTables tables) = some st' := by
  unfold displayBoot at boots
  obtain ⟨st₁, answers, boots⟩ := Option.bind_eq_some_iff.mp boots
  obtain ⟨tables₁, built, boots⟩ := Option.bind_eq_some_iff.mp boots
  obtain ⟨st₂, handoff, same⟩ := Option.map_eq_some_iff.mp boots
  cases same
  refine ⟨answers, ?_, handoff⟩
  cases result : displayTables st with
  | error status =>
    rw [result] at built
    cases built
  | ok tables₂ =>
    rw [result] at built
    cases built
    rfl

theorem displayFirmware (frameBufferBase : Nat) (word : frameBufferBase < 2 ^ 64) :
    Firmware (displayEnv frameBufferBase) sampleCtx displayMap := by
  have backed : ∀ start size, start + size ≤ 0x600000 → Backed displayMap start size := by
    intro start size fits a _ below
    refine ⟨⟨7, 0, 0x600⟩, List.mem_singleton_self _, Or.inr rfl, Nat.zero_le _, ?_⟩
    have limit : EfiMemoryDescriptor.limit ⟨7, 0, 0x600⟩ = 0x600000 := by decide
    rw [limit]
    omega
  refine ⟨?_, backed _ _ (by decide), backed _ _ (by decide), ?_, ?_, ?_, by decide, ?_⟩
  · intro d mem _
    rw [List.mem_singleton.mp mem]
    decide
  · intro req pages copy allocated
    cases allocated
  · intro scratch mem
    cases mem
    exact backed _ _ (by decide)
  · intro map mem
    cases mem
    decide
  · intro mode mem
    cases mem
    exact word

/-- A framebuffer above the memory and below the limit is mapped with everything else. -/
theorem displayBoot_near : ∃ st tables st', displayBoot 0x9000000 = some (st, tables, st') ∧
    ∀ virt phys size, Handed st' virt phys size →
      Translates tables.word tables.ctx.pml4Phys virt phys size := by
  have boots : (displayBoot 0x9000000).any (fun boot =>
      decide (boot.1.ctx.fbPhys = 0x9000000 ∧ boot.1.ctx.fbSize = 0x300000)) = true := by decide +kernel
  obtain ⟨⟨st, tables, st'⟩, run, placed⟩ := (Option.any_eq_true _ _).mp boots
  obtain ⟨answers, built, handoff⟩ := displayBoot_steps run
  obtain ⟨fbPhys, fbSize⟩ := of_decide_eq_true placed
  have sane : (displayEnv 0x9000000).Sane := ⟨sampleEnv_sane.version, sampleEnv_sane.cmdline,
    sampleEnv_sane.loaderPath, sampleEnv_sane.memoryMap, sampleEnv_sane.scratch⟩
  have image : ImageOk sampleCtx.imagePhys sampleCtx.imageVirt sampleCtx.imageSize :=
    ⟨by decide, by decide, by decide, by decide, by decide⟩
  have pools : ∀ n p, displayPages n = .ok p → Pool p n := by
    intro n p allocated
    unfold displayPages at allocated
    split at allocated
    · cases allocated
      exact ⟨by decide, by decide, by omega⟩
    · cases allocated
  refine ⟨st, tables, st', run, (handed_mapped_iff (displayEnv 0x9000000) sane sampleCtx sampleCtx_ok rfl
    (by decide) image (by decide) displayMap (displayFirmware _ (by decide)) displayPages pools displayWord
    (fun _ => 0) st st' tables answers built handoff).mpr ?_⟩
  intro ptr fb _
  refine Or.inr ⟨?_, ?_, ?_⟩
  · rw [fbPhys]
    decide
  · rw [fbSize]
    decide
  · rw [fbPhys, fbSize]
    decide

/-- The response of this boot has a framebuffer, and its first byte is not mapped. -/
def framebufferUnmapped (boot : LimineState × PagingState × LimineState) : Bool :=
  match boot.2.2.object 0x400018 with
  | some (.framebuffer fb) =>
    (translate boot.2.1.word boot.2.1.ctx.pml4Phys (u64 (fb.address + 0))).isNone &&
      decide (0 < max 1 boot.2.2.ctx.fbSize)
  | _ => false

/-- A framebuffer above the direct map's limit is handed over, and its address is not mapped. -/
theorem displayBoot_far : ∃ st tables st', displayBoot 0x9600000000 = some (st, tables, st') ∧
    ¬∀ virt phys size, Handed st' virt phys size →
      Translates tables.word tables.ctx.pml4Phys virt phys size := by
  have boots : (displayBoot 0x9600000000).any framebufferUnmapped = true := by decide +kernel
  obtain ⟨⟨st, tables, st'⟩, run, unmapped⟩ := (Option.any_eq_true _ _).mp boots
  refine ⟨st, tables, st', run, fun all => ?_⟩
  rw [framebufferUnmapped] at unmapped
  split at unmapped
  · rename_i fb stored
    obtain ⟨none, some⟩ := Bool.and_eq_true_iff.mp unmapped
    obtain ⟨entry, walk⟩ := all _ _ _ (.framebuffer stored) 0 (of_decide_eq_true some)
    rw [walk] at none
    cases none
  · cases unmapped

end Meridian.Limine
