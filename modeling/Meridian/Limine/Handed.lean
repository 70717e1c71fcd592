import Meridian.Limine.Completion

/-!
# The addresses handed to the kernel

The responses and the structures behind them hold addresses of the higher half (`Handed`). The
arena, the kernel file's copies and the final memory map lie below the memory's ceiling, so each
address they hold but one is that of memory below it (`Housed`). The exception is the
framebuffer's, which is wherever the firmware put the framebuffer.
-/

namespace Meridian.Limine

open Lib.Word

/-! ### What is handed over -/

/-- The bytes of the structure in the arena. -/
def LimineObject.size : LimineObject → Nat
  | .response rsp => rsp.kind.responseSize
  | .file _ => 112
  | .framebuffer _ => 80
  | .string chars => chars.length
  | .entries es => es.length * limineMemmapEntrySize
  | .pointers ps => ps.length * 8

/-- The higher-half addresses that a response holds, with the bytes there. The tables of the
firmware are handed over by their physical addresses. -/
def LimineResponse.handed : LimineResponse → List (Nat × Nat)
  | .bootloaderInfo name version => [(name, 1), (version, 1)]
  | .executableCmdline string => [(string, 1)]
  | .hhdm offset => [(offset, 1)]
  | .framebuffer count framebuffers => [(framebuffers, count * 8)]
  | .memmap rsp => [(rsp.entries, rsp.entryCount * 8)]
  | .executableFile file => [(file, 112)]
  | .module count modules => [(modules, count * 8)]
  | .efiMemmap rsp => [(rsp.memmap, rsp.memmapSize)]
  | .firmwareType _ | .stackSize | .pagingMode _ | .entryPoint | .rsdp _ | .smbios _ _
  | .efiSystemTable _ | .dateAtBoot _ | .executableAddress _ _ => []

/-- The addresses that a structure holds, but the framebuffer's and the image's. -/
def LimineObject.handed : LimineObject → List (Nat × Nat)
  | .response rsp => rsp.handed
  | .file f => [(f.address, f.size), (f.path, 1), (f.string, 1)]
  | .pointers ps => ps.map fun pointer => (pointer, 1)
  | .framebuffer _ | .string _ | .entries _ => []

/-- A higher-half address in the kernel's hands, the physical address it stands for, and the
bytes that the kernel may use there. -/
inductive Handed (st : LimineState) : Nat → Nat → Nat → Prop
  | object {ptr obj} (stored : st.object ptr = some obj) : Handed st (toVirt st.ctx ptr) ptr obj.size
  | pointer {ptr obj virt size} (stored : st.object ptr = some obj) (holds : (virt, size) ∈ obj.handed)
      (notNull : virt ≠ 0) : Handed st virt (sub64 virt st.ctx.hhdmOffset) (max 1 size)
  | image {ptr phys virt} (stored : st.object ptr = some (.response (.executableAddress phys virt))) :
      Handed st virt phys 1
  | framebuffer {ptr fb} (stored : st.object ptr = some (.framebuffer fb)) :
      Handed st fb.address (sub64 fb.address st.ctx.hhdmOffset) (max 1 st.ctx.fbSize)

/-! ### Memory below the ceiling -/

/-- A null pointer, or the address of so many bytes below the ceiling. -/
def Reaches (highest hhdm virt size : Nat) : Prop :=
  virt = 0 ∨ ∃ phys, virt = u64 (phys + hhdm) ∧ phys + max 1 size ≤ highest

/-- A structure at this address is in the used part of the arena. -/
def InArena (st : LimineState) (ptr size : Nat) : Prop :=
  st.ctx.arena ≤ ptr ∧ ptr + size ≤ st.frontier

/-- The address is none of those that the memory maps are written to. -/
def Separate (ctx : LimineCtx) (ptr : Nat) : Prop :=
  (ctx.memmapResponse ≠ 0 →
    ptr ≠ ctx.memmapEntries ∧ ptr ≠ ctx.memmapPointers ∧ ptr ≠ ctx.memmapResponse) ∧
  (ctx.efiMemmapResponse ≠ 0 → ptr ≠ ctx.efiMemmapResponse)

/-- The framebuffer's structure has the address and the context the size of the firmware's mode. -/
structure OfMode (env : Env) (ctx : LimineCtx) (ptr : Nat) (fb : LimineFramebuffer) : Prop where
  mode : ∃ mode, env.graphics = some mode ∧
    fb.address = u64 (mode.frameBufferBase + limineHhdmBase) ∧ ctx.fbPhys = mode.frameBufferBase ∧
    ctx.fbSize = mode.frameBufferSize
  separate : Separate ctx ptr

/-- The objects of the state are in the arena and hold addresses below the ceiling; `ctx` is the
context that the loader started from. -/
structure Housed (env : Env) (highest : Nat) (ctx : LimineCtx) (st : LimineState) : Prop where
  ok : ArenaOk st.ctx
  ceiling : st.ctx.arena + st.ctx.arenaSize ≤ highest
  imagePhys : st.ctx.imagePhys = ctx.imagePhys
  imageVirt : st.ctx.imageVirt = ctx.imageVirt
  imageSize : st.ctx.imageSize = ctx.imageSize
  fileSize : st.ctx.fileSize = ctx.fileSize
  inside : ∀ ptr obj, st.object ptr = some obj → InArena st ptr obj.size
  handed : ∀ ptr obj virt size, st.object ptr = some obj → (virt, size) ∈ obj.handed →
    Reaches highest limineHhdmBase virt size
  image : ∀ ptr phys virt, st.object ptr = some (.response (.executableAddress phys virt)) →
    phys = ctx.imagePhys ∧ virt = ctx.imageVirt
  framebuffer : ∀ ptr fb, st.object ptr = some (.framebuffer fb) → OfMode env st.ctx ptr fb
  memmap : st.ctx.memmapResponse ≠ 0 → 0 < st.ctx.memmapMaxEntries ∧
    InArena st st.ctx.memmapResponse (LimineRequestKind.responseSize .memmap) ∧
    InArena st st.ctx.memmapEntries (st.ctx.memmapMaxEntries * limineMemmapEntrySize) ∧
    InArena st st.ctx.memmapPointers (st.ctx.memmapMaxEntries * 8)
  efiMemmap : st.ctx.efiMemmapResponse ≠ 0 →
    InArena st st.ctx.efiMemmapResponse (LimineRequestKind.responseSize .efiMemmap)

variable {env : Env} {highest ptr size virt : Nat} {ctx : LimineCtx} {st st' : LimineState}
  {response : LimineResponse} {obj : LimineObject}

theorem InArena.mono (h : InArena st ptr size) (arena : st'.ctx.arena = st.ctx.arena)
    (used : st.ctx.arenaUsed ≤ st'.ctx.arenaUsed) : InArena st' ptr size := by
  obtain ⟨lower, upper⟩ := h
  unfold LimineState.frontier at upper
  unfold InArena LimineState.frontier
  omega

/-- An address in the arena is below the ceiling. -/
theorem Housed.reaches (h : Housed env highest ctx st) {size' : Nat} (inArena : InArena st ptr size)
    (some : 0 < size) (le : size' ≤ size) : Reaches highest limineHhdmBase (toVirt st.ctx ptr) size' := by
  have used := h.ok.used
  have ceiling := h.ceiling
  have upper := inArena.2
  unfold LimineState.frontier at upper
  refine Or.inr ⟨ptr, ?_, ?_⟩
  · rw [toVirt, h.ok.hhdm]
  · omega

theorem Separate.congr {ctx' : LimineCtx} (h : Separate ctx ptr) (maps : ctx'.maps = ctx.maps) :
    Separate ctx' ptr := by
  have memmapResponse : ctx'.memmapResponse = ctx.memmapResponse := congrArg Maps.memmapResponse maps
  have memmapEntries : ctx'.memmapEntries = ctx.memmapEntries := congrArg Maps.memmapEntries maps
  have memmapPointers : ctx'.memmapPointers = ctx.memmapPointers := congrArg Maps.memmapPointers maps
  have efiResponse : ctx'.efiMemmapResponse = ctx.efiMemmapResponse := congrArg Maps.efiMemmapResponse maps
  rw [Separate, memmapResponse, memmapEntries, memmapPointers, efiResponse]
  exact h

/-- Taking memory from the arena changes none of the objects. -/
theorem Housed.grow (h : Housed env highest ctx st) (quiet : Quiet st st') (object : st'.object = st.object)
    (imagePhys : st'.ctx.imagePhys = st.ctx.imagePhys) (imageVirt : st'.ctx.imageVirt = st.ctx.imageVirt)
    (imageSize : st'.ctx.imageSize = st.ctx.imageSize) (fileSize : st'.ctx.fileSize = st.ctx.fileSize)
    (fbPhys : st'.ctx.fbPhys = st.ctx.fbPhys)
    (fbSize : st'.ctx.fbSize = st.ctx.fbSize)
    (maxEntries : st'.ctx.memmapMaxEntries = st.ctx.memmapMaxEntries) : Housed env highest ctx st' := by
  have grows := quiet.toGrows
  have memmapResponse : st'.ctx.memmapResponse = st.ctx.memmapResponse :=
    congrArg Maps.memmapResponse quiet.maps
  have memmapEntries : st'.ctx.memmapEntries = st.ctx.memmapEntries :=
    congrArg Maps.memmapEntries quiet.maps
  have memmapPointers : st'.ctx.memmapPointers = st.ctx.memmapPointers :=
    congrArg Maps.memmapPointers quiet.maps
  have efiResponse : st'.ctx.efiMemmapResponse = st.ctx.efiMemmapResponse :=
    congrArg Maps.efiMemmapResponse quiet.maps
  refine ⟨grows.ok h.ok, ?_, imagePhys.trans h.imagePhys, imageVirt.trans h.imageVirt,
    imageSize.trans h.imageSize, fileSize.trans h.fileSize, ?_, ?_, ?_, ?_, ?_, ?_⟩
  · rw [grows.arena, grows.arenaSize]
    exact h.ceiling
  · intro ptr obj stored
    exact (h.inside ptr obj (object ▸ stored)).mono grows.arena grows.used
  · intro ptr obj virt size stored
    exact h.handed ptr obj virt size (object ▸ stored)
  · intro ptr phys virt stored
    exact h.image ptr phys virt (object ▸ stored)
  · intro ptr fb stored
    obtain ⟨mode, separate⟩ := h.framebuffer ptr fb (object ▸ stored)
    refine ⟨?_, ?_⟩
    · rw [fbPhys, fbSize]
      exact mode
    · exact separate.congr quiet.maps
  · rw [memmapResponse, memmapEntries, memmapPointers, maxEntries]
    intro set
    obtain ⟨some, response, entries, pointers⟩ := h.memmap set
    exact ⟨some, response.mono grows.arena grows.used, entries.mono grows.arena grows.used,
      pointers.mono grows.arena grows.used⟩
  · rw [efiResponse]
    exact fun set => (h.efiMemmap set).mono grows.arena grows.used

/-- What a new object has to meet. -/
structure Fits (env : Env) (highest : Nat) (ctx : LimineCtx) (st : LimineState) (ptr : Nat)
    (obj : LimineObject) : Prop where
  inside : InArena st ptr obj.size
  handed : ∀ virt size, (virt, size) ∈ obj.handed → Reaches highest limineHhdmBase virt size
  image : ∀ phys virt, obj = .response (.executableAddress phys virt) →
    phys = ctx.imagePhys ∧ virt = ctx.imageVirt
  framebuffer : ∀ fb, obj = .framebuffer fb → OfMode env st.ctx ptr fb

theorem put_object (p : Nat) : (st.put ptr obj).object p = if p = ptr then some obj else st.object p :=
  Function.update_apply _ _ _ _

theorem Housed.put (h : Housed env highest ctx st) (fits : Fits env highest ctx st ptr obj) :
    Housed env highest ctx (st.put ptr obj) := by
  refine ⟨h.ok, h.ceiling, h.imagePhys, h.imageVirt, h.imageSize, h.fileSize, ?_, ?_, ?_, ?_, h.memmap,
    h.efiMemmap⟩
  · intro p obj' stored
    rw [put_object] at stored
    split at stored
    · rename_i here
      cases stored
      exact here ▸ fits.inside
    · exact h.inside p obj' stored
  · intro p obj' virt size stored
    rw [put_object] at stored
    split at stored
    · cases stored
      exact fits.handed virt size
    · exact h.handed p obj' virt size stored
  · intro p phys virt stored
    rw [put_object] at stored
    split at stored
    · cases stored
      exact fits.image phys virt rfl
    · exact h.image p phys virt stored
  · intro p fb stored
    rw [put_object] at stored
    split at stored
    · rename_i here
      cases stored
      exact here ▸ fits.framebuffer fb rfl
    · exact h.framebuffer p fb stored

theorem Housed.respond (h : Housed env highest ctx st) (req : Nat)
    (fits : Fits env highest ctx st ptr (.response response)) :
    Housed env highest ctx (st.respond req ptr response) := by
  obtain ⟨ok, ceiling, imagePhys, imageVirt, imageSize, fileSize, inside, handed, image, framebuffer, memmap,
    efi⟩ := h.put fits
  exact ⟨ok, ceiling, imagePhys, imageVirt, imageSize, fileSize, inside, handed, image, framebuffer, memmap,
    efi⟩

/-! ### The answers -/

theorem limineArenaAlloc_frame (ctx : LimineCtx) (size align : Nat) :
    ∃ used, (limineArenaAlloc ctx size align).1 = { ctx with arenaUsed := used } := by
  unfold limineArenaAlloc
  split
  · exact ⟨ctx.arenaUsed, rfl⟩
  · dsimp only
    split
    · exact ⟨ctx.arenaUsed, rfl⟩
    · exact ⟨_, rfl⟩

/-- Memory for a structure was taken from the arena, or there is none and the address is null. -/
structure Allocated (env : Env) (highest : Nat) (ctx : LimineCtx) (st : LimineState) (size : Nat)
    (st' : LimineState) (ptr : Nat) : Prop where
  quiet : Quiet st st'
  housed : Housed env highest ctx st'
  object : st'.object = st.object
  inside : ptr ≠ 0 → InArena st' ptr size
  above : ptr ≠ 0 → st.frontier ≤ ptr

theorem Housed.alloc (h : Housed env highest ctx st) {k : Nat} (small : size < 2 ^ 62) (hk : k ≤ 3) :
    ∃ st' ptr, st.alloc size (2 ^ k) = (st', ptr) ∧ Allocated env highest ctx st size st' ptr := by
  obtain ⟨st', ptr, eq, quiet, spec⟩ := alloc_spec h.ok small hk
  obtain ⟨used, context⟩ := limineArenaAlloc_frame st.ctx size (2 ^ k)
  have frame : st' = { st with ctx := { st.ctx with arenaUsed := used } } := by
    rw [← context]
    exact (congrArg Prod.fst eq).symm
  have housed : Housed env highest ctx st' := by
    rw [frame] at quiet ⊢
    exact h.grow quiet rfl rfl rfl rfl rfl rfl rfl rfl
  refine ⟨st', ptr, eq, quiet, housed, by rw [frame], fun room => ?_, fun room => (spec room).1⟩
  obtain ⟨above, stop⟩ := spec room
  refine ⟨?_, stop.le⟩
  rw [quiet.toGrows.arena]
  exact (Nat.le_add_right _ _).trans above

theorem Housed.alloc_word (h : Housed env highest ctx st) (size : Nat) (small : size < 2 ^ 62) :
    ∃ st' ptr, st.alloc size 8 = (st', ptr) ∧ Allocated env highest ctx st size st' ptr :=
  h.alloc (k := 3) small (Nat.le_refl 3)

theorem InArena.quiet (h : InArena st ptr size) (quiet : Quiet st st') : InArena st' ptr size :=
  h.mono quiet.toGrows.arena quiet.toGrows.used

/-- A string is in the arena, where its address leads. -/
theorem Housed.arenaString (h : Housed env highest ctx st) {chars : List Nat} (short : Short chars) :
    Housed env highest ctx (arenaString st chars).1 ∧
      Reaches highest limineHhdmBase (arenaString st chars).2 1 := by
  have size : chars.length + 1 < 2 ^ 62 := by unfold Short at short; omega
  obtain ⟨st', dst, eq, allocated⟩ := h.alloc (k := 0) size (by decide)
  have alloc : st.alloc (chars.length + 1) 1 = (st', dst) := eq
  simp only [Limine.arenaString, alloc]
  split
  · exact ⟨allocated.housed, Or.inl rfl⟩
  · rename_i room
    have here := allocated.inside room
    refine ⟨allocated.housed.put ⟨?_, ?_, ?_, ?_⟩,
      allocated.housed.reaches here (Nat.succ_pos _) (by omega)⟩
    · rw [LimineObject.size, List.length_append, List.length_singleton]
      exact here
    · intro virt size mem
      cases mem
    · intro phys virt other
      cases other
    · intro fb other
      cases other

theorem Housed.arenaAsciiFromUcs2 (h : Housed env highest ctx st) {src : Option (List Nat)}
    (short : ∀ chars ∈ src, Short chars) :
    Housed env highest ctx (arenaAsciiFromUcs2 st src).1 ∧
      Reaches highest limineHhdmBase (arenaAsciiFromUcs2 st src).2 1 := by
  cases src with
  | none => exact ⟨h, Or.inl rfl⟩
  | some chars =>
    refine h.arenaString ?_
    rw [Short, List.length_map]
    exact short chars rfl

theorem Housed.cmdlineString (h : Housed env highest ctx st) (sane : env.Sane) :
    Housed env highest ctx (cmdlineString env st).1 ∧
      Reaches highest limineHhdmBase (cmdlineString env st).2 1 := by
  unfold Limine.cmdlineString
  split
  · rename_i cmdline given
    exact h.arenaAsciiFromUcs2 fun chars mem => sane.cmdline chars (by rw [given]; exact mem)
  · exact h.arenaString (by simp [Short])

/-- A response whose strings, if any, are housed. -/
theorem Housed.answer (kind : LimineRequestKind) (h : Housed env highest ctx st) (req : Nat)
    {body : LimineState → LimineState × LimineResponse}
    (quiet : ∀ st, ArenaOk st.ctx → Quiet st (body st).1) (kinds : ∀ st, (body st).2.kind = kind)
    (housed : ∀ st, Housed env highest ctx st → Housed env highest ctx (body st).1)
    (handed : ∀ st, Housed env highest ctx st → ∀ virt size, (virt, size) ∈ (body st).2.handed →
      Reaches highest limineHhdmBase virt size)
    (image : ∀ st, Housed env highest ctx st → ∀ phys virt, (body st).2 = .executableAddress phys virt →
      phys = ctx.imagePhys ∧ virt = ctx.imageVirt) :
    Housed env highest ctx (answer st req kind body) := by
  have small : kind.responseSize < 2 ^ 62 := by cases kind <;> decide
  obtain ⟨st₁, rsp, eq, allocated⟩ := h.alloc_word kind.responseSize small
  have housed₁ := allocated.housed
  simp only [Limine.answer, eq]
  split
  · exact housed₁
  · rename_i room
    refine (housed st₁ housed₁).respond req ⟨?_, handed st₁ housed₁, ?_, ?_⟩
    · rw [LimineObject.size, kinds]
      exact (allocated.inside room).quiet (quiet st₁ housed₁.ok)
    · intro phys virt same
      exact image st₁ housed₁ phys virt (LimineObject.response.inj same)
    · intro fb other
      cases other

/-- A response without addresses. -/
theorem Housed.answer_constant (kind : LimineRequestKind) (h : Housed env highest ctx st) (req : Nat)
    {body : LimineState → LimineResponse} (kinds : ∀ st, (body st).kind = kind)
    (none : ∀ st, (body st).handed = []) (notImage : kind ≠ .executableAddress) :
    Housed env highest ctx (Limine.answer st req kind fun st => (st, body st)) := by
  refine h.answer kind req (fun _ ok => Quiet.refl ok) kinds (fun _ housed => housed) ?_ ?_
  · intro st _ virt size mem
    rw [none] at mem
    cases mem
  · intro st _ phys virt same
    have same : body st = .executableAddress phys virt := same
    have other := kinds st
    rw [same] at other
    exact absurd other.symm notImage

/-- What the firmware allocates for the loader is below the ceiling. -/
structure Ram (env : Env) (highest : Nat) (ctx : LimineCtx) : Prop where
  positive : 0 < highest
  file : ctx.fileSize + liminePageSize ≤ 2 ^ 64
  copies : ∀ req pages copy, 0 < pages → env.allocatePages req pages = some copy →
    copy + pages * liminePageSize ≤ highest
  scratch : ∀ scratch ∈ env.scratchPages, scratch + 17 * liminePageSize ≤ highest

theorem Housed.answerBootloaderInfo (h : Housed env highest ctx st) (sane : env.Sane) (req : Nat) :
    Housed env highest ctx (answerBootloaderInfo env st req) := by
  have short : Short bootloaderName := by unfold Short; decide
  refine h.answer .bootloaderInfo req ?_ (fun _ => rfl) ?_ ?_ ?_
  · intro st ok
    have name : Quiet st (arenaAscii st bootloaderName).1 := arenaString_quiet ok short
    exact name.trans (arenaString_quiet (name.toGrows.ok ok) sane.version)
  · intro st housed
    exact ((housed.arenaString short).1.arenaString sane.version).1
  · intro st housed virt size mem
    obtain ⟨named, name⟩ := housed.arenaString short
    have version := (named.arenaString sane.version).2
    simp only [LimineResponse.handed, List.mem_cons, Prod.mk.injEq, List.not_mem_nil, or_false] at mem
    rcases mem with ⟨rfl, rfl⟩ | ⟨rfl, rfl⟩
    · exact name
    · exact version
  · intro st _ phys virt other
    cases other

theorem Housed.answerCmdline (h : Housed env highest ctx st) (sane : env.Sane) (req : Nat) :
    Housed env highest ctx (answerCmdline env st req) := by
  refine h.answer .executableCmdline req (fun _ ok => cmdlineString_quiet sane ok) (fun _ => rfl) ?_ ?_ ?_
  · intro st housed
    exact (housed.cmdlineString sane).1
  · intro st housed virt size mem
    simp only [LimineResponse.handed, List.mem_singleton, Prod.mk.injEq] at mem
    obtain ⟨rfl, rfl⟩ := mem
    exact (housed.cmdlineString sane).2
  · intro st _ phys virt other
    cases other

theorem Housed.answerHhdm (h : Housed env highest ctx st) (ram : Ram env highest ctx) (req : Nat) :
    Housed env highest ctx (answerHhdm st req) := by
  refine h.answer .hhdm req (fun _ ok => Quiet.refl ok) (fun _ => rfl) (fun _ housed => housed) ?_ ?_
  · intro st housed virt size mem
    simp only [LimineResponse.handed, List.mem_singleton, Prod.mk.injEq] at mem
    obtain ⟨rfl, rfl⟩ := mem
    refine Or.inr ⟨0, ?_, by rw [Nat.max_self]; exact ram.positive⟩
    rw [housed.ok.hhdm]
    decide
  · intro st _ phys virt other
    cases other

theorem Housed.answerExecutableAddress (h : Housed env highest ctx st) (req : Nat) :
    Housed env highest ctx (answerExecutableAddress st req) := by
  refine h.answer .executableAddress req (fun _ ok => Quiet.refl ok) (fun _ => rfl)
    (fun _ housed => housed) ?_ ?_
  · intro st _ virt size mem
    cases mem
  · intro st housed phys virt same
    cases same
    exact ⟨housed.imagePhys, housed.imageVirt⟩

theorem Housed.answerModules (h : Housed env highest ctx st) (req : Nat) :
    Housed env highest ctx (answerModules st req) := by
  refine h.answer .module req (fun _ ok => Quiet.refl ok) (fun _ => rfl) (fun _ housed => housed) ?_ ?_
  · intro st _ virt size mem
    simp only [LimineResponse.handed, List.mem_singleton, Prod.mk.injEq] at mem
    obtain ⟨rfl, rfl⟩ := mem
    exact Or.inl rfl
  · intro st _ phys virt other
    cases other

/-- A context change that leaves alone what the objects are about. -/
theorem Housed.setStackSize (h : Housed env highest ctx st) (size : Nat) :
    Housed env highest ctx (st.setStackSize size) :=
  h.grow ((Quiet.refl h.ok).congr rfl rfl rfl rfl rfl rfl rfl) rfl rfl rfl rfl rfl rfl rfl rfl

theorem Housed.setEntryPoint (h : Housed env highest ctx st) (entry : Nat) :
    Housed env highest ctx (st.setEntryPoint entry) :=
  h.grow ((Quiet.refl h.ok).congr rfl rfl rfl rfl rfl rfl rfl) rfl rfl rfl rfl rfl rfl rfl rfl

theorem Housed.setExecFile (h : Housed env highest ctx st) (phys pages : Nat) :
    Housed env highest ctx (st.setExecFile phys pages) :=
  h.grow ((Quiet.refl h.ok).congr rfl rfl rfl rfl rfl rfl rfl) rfl rfl rfl rfl rfl rfl rfl rfl

theorem Housed.answerStackSize (h : Housed env highest ctx st) (req : Nat) :
    Housed env highest ctx (answerStackSize st req) := by
  simp only [Limine.answerStackSize]
  split
  · exact (h.setStackSize _).answer_constant .stackSize req (fun _ => rfl) (fun _ => rfl) (by decide)
  · exact h.answer_constant .stackSize req (fun _ => rfl) (fun _ => rfl) (by decide)

theorem Housed.answerEntryPoint (h : Housed env highest ctx st) (req : Nat) :
    Housed env highest ctx (answerEntryPoint st req) := by
  simp only [Limine.answerEntryPoint]
  split
  · exact (h.setEntryPoint _).answer_constant .entryPoint req (fun _ => rfl) (fun _ => rfl) (by decide)
  · exact h.answer_constant .entryPoint req (fun _ => rfl) (fun _ => rfl) (by decide)

theorem setFb_quiet (ok : ArenaOk st.ctx) (phys size : Nat) : Quiet st (st.setFb phys size) :=
  (Quiet.refl ok).congr rfl rfl rfl rfl rfl rfl rfl

theorem Housed.setFb (h : Housed env highest ctx st) {mode : GraphicsMode} (given : env.graphics = some mode) :
    Housed env highest ctx (st.setFb mode.frameBufferBase mode.frameBufferSize) := by
  obtain ⟨ok, ceiling, imagePhys, imageVirt, imageSize, fileSize, inside, handed, image, framebuffer, memmap,
    efi⟩ := h
  refine ⟨(setFb_quiet ok _ _).toGrows.ok ok, ceiling, imagePhys, imageVirt, imageSize, fileSize, inside,
    handed, image, ?_, memmap, efi⟩
  intro ptr fb stored
  -- Every framebuffer so far is of the same mode.
  obtain ⟨⟨mode', given', address, _, _⟩, separate⟩ := framebuffer ptr fb stored
  rw [given] at given'
  cases given'
  exact ⟨⟨mode, given, address, rfl, rfl⟩, separate⟩

/-- Free memory is none of what the memory maps are written to. -/
theorem Housed.separate (h : Housed env highest ctx st) (above : st.frontier ≤ ptr) : Separate st.ctx ptr := by
  have response : 0 < LimineRequestKind.responseSize .memmap ∧ 0 < LimineRequestKind.responseSize .efiMemmap := by
    decide
  constructor
  · intro set
    obtain ⟨some, inResponse, inEntries, inPointers⟩ := h.memmap set
    have entries : 0 < st.ctx.memmapMaxEntries * limineMemmapEntrySize := Nat.mul_pos some (by decide)
    have inResponse := inResponse.2
    have inEntries := inEntries.2
    have inPointers := inPointers.2
    omega
  · intro set
    have inResponse := (h.efiMemmap set).2
    omega

/-- An array of one pointer. -/
theorem Fits.pointer (inside : InArena st ptr 8) {pointer : Nat}
    (reaches : Reaches highest limineHhdmBase pointer 1) : Fits env highest ctx st ptr (.pointers [pointer]) := by
  refine ⟨inside, ?_, ?_, ?_⟩
  · intro virt size mem
    obtain ⟨rfl, rfl⟩ := Prod.mk.inj (List.mem_singleton.mp mem)
    exact reaches
  · intro phys virt other
    cases other
  · intro fb other
    cases other

/-- A response with one address. -/
theorem Fits.single (inside : InArena st ptr response.kind.responseSize) {pointer bytes : Nat}
    (handed : response.handed = [(pointer, bytes)]) (reaches : Reaches highest limineHhdmBase pointer bytes)
    (notImage : response.kind ≠ .executableAddress) :
    Fits env highest ctx st ptr (.response response) := by
  refine ⟨inside, ?_, ?_, ?_⟩
  · intro virt size mem
    have mem : (virt, size) ∈ response.handed := mem
    rw [handed] at mem
    obtain ⟨rfl, rfl⟩ := Prod.mk.inj (List.mem_singleton.mp mem)
    exact reaches
  · intro phys virt same
    cases same
    exact absurd rfl notImage
  · intro fb other
    cases other

theorem Housed.answerFramebuffer (h : Housed env highest ctx st) (req : Nat) :
    Housed env highest ctx (answerFramebuffer env st req) := by
  unfold Limine.answerFramebuffer
  split
  · exact h
  · rename_i mode given
    split
    · exact h
    · obtain ⟨st₁, rsp, eq₁, alloc₁⟩ :=
        h.alloc_word (LimineRequestKind.responseSize .framebuffer) (by decide)
      obtain ⟨st₂, fb, eq₂, alloc₂⟩ := alloc₁.housed.alloc_word 80 (by decide)
      obtain ⟨st₃, array, eq₃, alloc₃⟩ := alloc₂.housed.alloc_word 8 (by decide)
      have housed₃ := alloc₃.housed
      simp only [eq₁, eq₂, eq₃]
      split
      · exact housed₃
      · rename_i room
        simp only [not_or] at room
        have inRsp := ((alloc₁.inside room.1).quiet alloc₂.quiet).quiet alloc₃.quiet
        have inFb := (alloc₂.inside room.2.1).quiet alloc₃.quiet
        have inArray := alloc₃.inside room.2.2
        have separate := (alloc₁.housed.separate (alloc₂.above room.2.1)).congr
          (alloc₂.quiet.trans alloc₃.quiet).maps
        -- The mode is set in the context before the framebuffer is put, with the same result.
        have set := housed₃.setFb given
        have fits : Fits env highest ctx (st₃.setFb mode.frameBufferBase mode.frameBufferSize) fb
            (.framebuffer (framebufferOf st₃.ctx mode)) := by
          refine ⟨inFb, ?_, ?_, ?_⟩
          · intro virt size mem
            cases mem
          · intro phys virt other
            cases other
          · intro fb' same
            cases same
            refine ⟨⟨mode, given, ?_, rfl, rfl⟩, separate⟩
            rw [← housed₃.ok.hhdm]
            rfl
        have inArray' : InArena ((st₃.setFb mode.frameBufferBase mode.frameBufferSize).put fb
            (.framebuffer (framebufferOf st₃.ctx mode))) array 8 := inArray
        have written := (set.put fits).put (Fits.pointer inArray'
          (housed₃.reaches inFb (by decide) (by decide)))
        have inRsp' : InArena (((st₃.setFb mode.frameBufferBase mode.frameBufferSize).put fb
            (.framebuffer (framebufferOf st₃.ctx mode))).put array (.pointers [toVirt st₃.ctx fb])) rsp
            (LimineRequestKind.responseSize .framebuffer) := inRsp
        exact written.respond req (@Fits.single _ _ _ _ _ (.framebuffer 1 (toVirt st₃.ctx array)) inRsp' _ _ rfl
          (housed₃.reaches inArray (by decide) (Nat.le_refl 8)) (fun other => by cases other))

/-- The copy of the kernel's file fills the pages that the firmware gave for it. -/
theorem Ram.copy_reaches (ram : Ram env highest ctx) {req copy : Nat} (filled : ctx.fileSize ≠ 0)
    (allocated : env.allocatePages req (u64 (ctx.fileSize + liminePageSize - 1) / liminePageSize) =
      some copy) : Reaches highest limineHhdmBase (u64 (copy + limineHhdmBase)) ctx.fileSize := by
  have file := ram.file
  unfold liminePageSize at file allocated
  have sum : u64 (ctx.fileSize + 4096 - 1) = ctx.fileSize + 4096 - 1 := u64_of_lt (by omega)
  rw [sum] at allocated
  have copies := ram.copies _ _ _ (by omega) allocated
  unfold liminePageSize at copies
  exact Or.inr ⟨copy, rfl, by omega⟩

theorem Housed.fillLimineFile (h : Housed env highest ctx st) (sane : env.Sane) {address bytes : Nat}
    (reaches : Reaches highest limineHhdmBase address bytes) :
    Housed env highest ctx (fillLimineFile env st address bytes).1 ∧
      ∀ virt size, (virt, size) ∈ (LimineObject.file (fillLimineFile env st address bytes).2).handed →
        Reaches highest limineHhdmBase virt size := by
  obtain ⟨pathHoused, path⟩ := h.arenaAsciiFromUcs2 sane.loaderPath
  obtain ⟨stringHoused, string⟩ := pathHoused.cmdlineString sane
  refine ⟨stringHoused, ?_⟩
  intro virt size mem
  simp only [LimineObject.handed, Limine.fillLimineFile, List.mem_cons, Prod.mk.injEq, List.not_mem_nil,
    or_false] at mem
  rcases mem with ⟨rfl, rfl⟩ | ⟨rfl, rfl⟩ | ⟨rfl, rfl⟩
  · exact reaches
  · exact path
  · exact string

theorem Housed.answerExecutableFile (h : Housed env highest ctx st) (sane : env.Sane)
    (ram : Ram env highest ctx) (req : Nat) :
    Housed env highest ctx (answerExecutableFile env st req) := by
  unfold Limine.answerExecutableFile
  split
  · exact h
  · rename_i present
    simp only [not_or] at present
    dsimp only
    split
    · exact h
    · rename_i copy allocated
      rw [h.fileSize] at allocated present
      have reaches := ram.copy_reaches present.2 allocated
      generalize u64 (st.ctx.fileSize + liminePageSize - 1) / liminePageSize = pages
      obtain ⟨st₁, rsp, eq₁, alloc₁⟩ :=
        (h.setExecFile copy pages).alloc_word (LimineRequestKind.responseSize .executableFile) (by decide)
      obtain ⟨st₂, file, eq₂, alloc₂⟩ := alloc₁.housed.alloc_word 112 (by decide)
      have housed₂ := alloc₂.housed
      simp only [eq₁, eq₂]
      split
      · exact housed₂
      · rename_i room
        simp only [not_or] at room
        have reaches₂ : Reaches highest limineHhdmBase (u64 (copy + st₂.ctx.hhdmOffset)) st₂.ctx.fileSize := by
          rw [housed₂.ok.hhdm, housed₂.fileSize]
          exact reaches
        have filledQuiet := fillLimineFile_quiet sane housed₂.ok (u64 (copy + st₂.ctx.hhdmOffset))
          st₂.ctx.fileSize
        obtain ⟨filled, handed⟩ := housed₂.fillLimineFile sane reaches₂
        have inRsp := ((alloc₁.inside room.1).quiet alloc₂.quiet).quiet filledQuiet
        have inFile := (alloc₂.inside room.2).quiet filledQuiet
        have written := @Housed.put _ _ file _ _ (.file (Limine.fillLimineFile env st₂
          (u64 (copy + st₂.ctx.hhdmOffset)) st₂.ctx.fileSize).2) filled
          ⟨inFile, handed, (fun _ _ other => by cases other), (fun _ other => by cases other)⟩
        exact written.respond req (@Fits.single _ _ _ _ _ (.executableFile (toVirt _ file)) inRsp _ _ rfl
          (filled.reaches inFile (by decide) (Nat.le_refl 112)) (fun other => by cases other))

theorem Housed.setMemmap (h : Housed env highest ctx st) {rsp entries pointers count : Nat}
    (some : 0 < count) (inRsp : InArena st rsp (LimineRequestKind.responseSize .memmap))
    (inEntries : InArena st entries (count * limineMemmapEntrySize))
    (inPointers : InArena st pointers (count * 8))
    (apart : ∀ ptr fb, st.object ptr = Option.some (.framebuffer fb) →
      ptr ≠ entries ∧ ptr ≠ pointers ∧ ptr ≠ rsp) :
    Housed env highest ctx (st.setMemmap rsp entries pointers count) := by
  obtain ⟨ok, ceiling, imagePhys, imageVirt, imageSize, fileSize, inside, handed, image, framebuffer, _,
    efi⟩ := h
  refine ⟨⟨ok.present, ok.mapped, ok.used, ok.hhdm⟩, ceiling, imagePhys, imageVirt, imageSize, fileSize,
    inside, handed, image, ?_, fun _ => ⟨some, inRsp, inEntries, inPointers⟩, efi⟩
  intro ptr fb stored
  obtain ⟨mode, separate⟩ := framebuffer ptr fb stored
  exact ⟨mode, fun _ => apart ptr fb stored, separate.2⟩

theorem Housed.setEfiMemmapResponse (h : Housed env highest ctx st) {rsp : Nat}
    (inRsp : InArena st rsp (LimineRequestKind.responseSize .efiMemmap))
    (apart : ∀ ptr fb, st.object ptr = some (.framebuffer fb) → ptr ≠ rsp) :
    Housed env highest ctx (st.setEfiMemmapResponse rsp) := by
  obtain ⟨ok, ceiling, imagePhys, imageVirt, imageSize, fileSize, inside, handed, image, framebuffer, memmap,
    _⟩ := h
  refine ⟨⟨ok.present, ok.mapped, ok.used, ok.hhdm⟩, ceiling, imagePhys, imageVirt, imageSize, fileSize,
    inside, handed, image, ?_, memmap, fun _ => inRsp⟩
  intro ptr fb stored
  obtain ⟨mode, separate⟩ := framebuffer ptr fb stored
  exact ⟨mode, separate.1, fun _ => apart ptr fb stored⟩

/-- The framebuffers are below the free memory. -/
theorem Housed.framebuffer_below (h : Housed env highest ctx st) (object : st'.object = st.object)
    {fb : LimineFramebuffer} (stored : st'.object ptr = some (.framebuffer fb)) : ptr < st.frontier := by
  have inside := (h.inside ptr _ (object ▸ stored)).2
  have size : (LimineObject.framebuffer fb).size = 80 := rfl
  omega

theorem Housed.reserveMemmap (h : Housed env highest ctx st) (sane : env.Sane) (req : Nat) :
    Housed env highest ctx (reserveMemmap env st req) := by
  unfold Limine.reserveMemmap
  split
  · exact h
  · rename_i mapSize descSize told
    split
    · exact h
    · dsimp only
      have bounds := reservedEntries_bounds descSize (sane.memoryMap req mapSize descSize told)
      generalize reservedEntries mapSize descSize = count at bounds ⊢
      have arraySize : u64 (count * limineMemmapEntrySize) = count * limineMemmapEntrySize :=
        u64_of_lt (by unfold limineMemmapEntrySize; omega)
      have pointersSize : u64 (count * 8) = count * 8 := u64_of_lt (by omega)
      rw [arraySize, pointersSize]
      obtain ⟨st₁, rsp, eq₁, alloc₁⟩ :=
        h.alloc_word (LimineRequestKind.responseSize .memmap) (by decide)
      obtain ⟨st₂, entries, eq₂, alloc₂⟩ := alloc₁.housed.alloc_word (count * limineMemmapEntrySize)
        (by unfold limineMemmapEntrySize; omega)
      obtain ⟨st₃, pointers, eq₃, alloc₃⟩ := alloc₂.housed.alloc_word (count * 8) (by omega)
      simp only [eq₁, eq₂, eq₃]
      split
      · exact alloc₃.housed
      · rename_i room
        simp only [not_or] at room
        have inRsp := ((alloc₁.inside room.1).quiet alloc₂.quiet).quiet alloc₃.quiet
        have object := alloc₃.object.trans (alloc₂.object.trans alloc₁.object)
        have set := alloc₃.housed.setMemmap bounds.1 inRsp
          ((alloc₂.inside room.2.1).quiet alloc₃.quiet) (alloc₃.inside room.2.2) (by
            intro ptr fb stored
            have below := h.framebuffer_below object stored
            have aboveRsp := alloc₁.above room.1
            have aboveEntries := alloc₂.above room.2.1
            have abovePointers := alloc₃.above room.2.2
            have grown₁ := alloc₁.quiet.toGrows.frontier_le
            have grown₂ := alloc₂.quiet.toGrows.frontier_le
            omega)
        have inRsp' : InArena (st₃.setMemmap rsp entries pointers count) rsp
          (LimineRequestKind.responseSize .memmap) := inRsp
        exact set.respond req (@Fits.single _ _ _ _ _ (.memmap {}) inRsp' _ _ rfl (Or.inl rfl)
          (fun other => by cases other))

theorem Housed.answerEfiMemmap (h : Housed env highest ctx st) (req : Nat) :
    Housed env highest ctx (answerEfiMemmap st req) := by
  obtain ⟨st₁, rsp, eq, allocated⟩ :=
    h.alloc_word (LimineRequestKind.responseSize .efiMemmap) (by decide)
  simp only [Limine.answerEfiMemmap, eq]
  split
  · exact allocated.housed
  · rename_i room
    have inRsp : InArena (st₁.setEfiMemmapResponse rsp) rsp (LimineRequestKind.responseSize .efiMemmap) :=
      allocated.inside room
    have apart : ∀ ptr fb, st₁.object ptr = some (.framebuffer fb) → ptr ≠ rsp := by
      intro ptr fb stored
      have below := h.framebuffer_below allocated.object stored
      have above := allocated.above room
      omega
    exact (allocated.housed.setEfiMemmapResponse inRsp apart).respond req
      (@Fits.single _ _ _ _ _ (.efiMemmap {}) inRsp _ _ rfl (Or.inl rfl) (fun other => by cases other))

/-! ### Runs -/

theorem Housed.dispatchRequest (h : Housed env highest ctx st) (sane : env.Sane)
    (ram : Ram env highest ctx) (req : Nat) : Housed env highest ctx (dispatchRequest env st req) := by
  unfold Limine.dispatchRequest
  split
  · exact h.answerBootloaderInfo sane req
  · exact h.answerCmdline sane req
  · exact h.answer_constant .firmwareType req (fun _ => rfl) (fun _ => rfl) (by decide)
  · exact h.answerStackSize req
  · exact h.answerHhdm ram req
  · exact h.answerFramebuffer req
  · exact h.answer_constant .pagingMode req (fun _ => rfl) (fun _ => rfl) (by decide)
  · exact h.reserveMemmap sane req
  · exact h.answerEntryPoint req
  · exact h.answerExecutableFile sane ram req
  · exact h.answerModules req
  · unfold answerRsdp
    dsimp only
    generalize (if findConfigTable env limineAcpi20Guid = 0 then findConfigTable env limineAcpi10Guid
      else findConfigTable env limineAcpi20Guid) = rsdp
    split
    · exact h
    · exact h.answer_constant .rsdp req (fun _ => rfl) (fun _ => rfl) (by decide)
  · simp only [answerSmbios]
    split
    · exact h
    · exact h.answer_constant .smbios req (fun _ => rfl) (fun _ => rfl) (by decide)
  · exact h.answer_constant .efiSystemTable req (fun _ => rfl) (fun _ => rfl) (by decide)
  · exact h.answerEfiMemmap req
  · exact h.answerExecutableAddress req
  · unfold answerDateAtBoot
    split
    · exact h
    · exact h.answer_constant .dateAtBoot req (fun _ => rfl) (fun _ => rfl) (by decide)
  · exact h
  · exact h

theorem Housed.searchStep (h : Housed env highest ctx st) (sane : env.Sane) (ram : Ram env highest ctx)
    (addr : Nat) : Housed env highest ctx (searchStep env st addr) := by
  unfold Limine.searchStep
  split
  · exact h
  · exact h.dispatchRequest sane ram addr

theorem Housed.narrowSearchArea (h : Housed env highest ctx st) :
    Housed env highest ctx (narrowSearchArea st) := by
  have quiet := narrowSearchArea_quiet h.ok
  unfold Limine.narrowSearchArea at quiet ⊢
  dsimp only at quiet ⊢
  split
  · rename_i area
    rw [if_pos area] at quiet
    exact h.grow quiet rfl rfl rfl rfl rfl rfl rfl rfl
  · exact h

theorem Housed.handleBaseRevision (h : Housed env highest ctx st) (tag : Nat) :
    Housed env highest ctx (handleBaseRevision st tag) := by
  have quiet := handleBaseRevision_quiet h.ok tag
  unfold Limine.handleBaseRevision at quiet ⊢
  dsimp only at quiet ⊢
  split
  · rename_i wanted
    rw [if_pos wanted] at quiet
    exact h.grow quiet rfl rfl rfl rfl rfl rfl rfl rfl
  · rename_i wanted
    rw [if_neg wanted] at quiet
    exact h.grow quiet rfl rfl rfl rfl rfl rfl rfl rfl

theorem Housed.prepareSearch (h : Housed env highest ctx st) : Housed env highest ctx (prepareSearch st) := by
  unfold Limine.prepareSearch
  dsimp only
  generalize start : ({ st with ctx := { st.ctx with
    baseRevision := 0, stackSize := limineDefaultStackSize } } : LimineState) = st₁
  have housed : Housed env highest ctx st₁ := by
    rw [← start]
    exact h.grow ((Quiet.refl h.ok).congr rfl rfl rfl rfl rfl rfl rfl) rfl rfl rfl rfl rfl rfl rfl rfl
  split
  · exact (housed.handleBaseRevision _).narrowSearchArea
  · exact housed.narrowSearchArea

theorem Housed.allocateStack (h : Housed env highest ctx st) (allocated : allocateStack env st = some st') :
    Housed env highest ctx st' := by
  have quiet := allocateStack_quiet h.ok allocated
  unfold Limine.allocateStack at allocated
  obtain ⟨stack, _, rfl⟩ := Option.map_eq_some_iff.mp allocated
  exact h.grow quiet rfl rfl rfl rfl rfl rfl rfl rfl

/-- Before anything is answered. -/
theorem housed_start (ok : ArenaOk ctx) (maps : ctx.maps = ⟨0, 0, 0, 0⟩)
    (ceiling : ctx.arena + ctx.arenaSize ≤ highest) (word : Nat → Nat) :
    Housed env highest ctx { ctx := ctx, word := word } where
  ok := ok
  ceiling := ceiling
  imagePhys := rfl
  imageVirt := rfl
  imageSize := rfl
  fileSize := rfl
  inside _ _ stored := by cases stored
  handed _ _ _ _ stored := by cases stored
  image _ _ _ stored := by cases stored
  framebuffer _ _ stored := by cases stored
  memmap set := absurd (congrArg Maps.memmapResponse maps) set
  efiMemmap set := absurd (congrArg Maps.efiMemmapResponse maps) set

/-- The answers to all requests. -/
theorem limineAnswerRequests_housed {word : Nat → Nat} (sane : env.Sane) (ram : Ram env highest ctx)
    (ok : ArenaOk ctx) (maps : ctx.maps = ⟨0, 0, 0, 0⟩) (ceiling : ctx.arena + ctx.arenaSize ≤ highest)
    (answers : limineAnswerRequests env { ctx := ctx, word := word } = some st) :
    Housed env highest ctx st := by
  unfold limineAnswerRequests at answers
  split at answers
  · cases answers
  · have answered : Housed env highest ctx ((searched (searchStart ctx word)).foldl (Limine.searchStep env)
        (searchStart ctx word)) :=
      Lib.Run.foldl_invariant (fun _ addr h => h.searchStep sane ram addr) _
        (housed_start ok maps ceiling word).prepareSearch
    exact answered.allocateStack answers

end Meridian.Limine
