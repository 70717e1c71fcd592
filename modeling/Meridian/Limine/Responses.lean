import Meridian.Limine.Requests
import Meridian.Lib.Run

/-!
# Which memory map responses are complete at the hand-off

Every response lies in arena memory of its own (`Answers`), and the context remembers one memory
map response and one firmware map response, the last of each kind. `LimineFillMemmap` completes
these two, and the firmware's only together with the other.
-/

namespace Meridian.Limine

open Lib.Word

/-! ### Arena memory -/

/-- The arena is inside the memory that the higher half maps. -/
structure ArenaOk (ctx : LimineCtx) : Prop where
  present : ctx.arena ≠ 0
  mapped : ctx.arena + ctx.arenaSize ≤ 2 ^ 47
  used : ctx.arenaUsed ≤ ctx.arenaSize
  hhdm : ctx.hhdmOffset = limineHhdmBase

/-- The arena's memory from here on is free. -/
def LimineState.frontier (st : LimineState) : Nat := st.ctx.arena + st.ctx.arenaUsed

/-- The objects that `limineFillMemmap` writes to. -/
structure Maps where
  memmapResponse : Nat
  memmapEntries : Nat
  memmapPointers : Nat
  efiMemmapResponse : Nat

def LimineCtx.maps (ctx : LimineCtx) : Maps :=
  ⟨ctx.memmapResponse, ctx.memmapEntries, ctx.memmapPointers, ctx.efiMemmapResponse⟩

/-- Objects were only added to free memory of the arena. -/
structure Grows (st st' : LimineState) : Prop where
  arena : st'.ctx.arena = st.ctx.arena
  arenaSize : st'.ctx.arenaSize = st.ctx.arenaSize
  hhdm : st'.ctx.hhdmOffset = st.ctx.hhdmOffset
  used : st.ctx.arenaUsed ≤ st'.ctx.arenaUsed
  fits : st'.ctx.arenaUsed ≤ st'.ctx.arenaSize
  kept : ∀ ptr < st.frontier, st'.object ptr = st.object ptr

/-- Nothing was answered. -/
structure Quiet (st st' : LimineState) : Prop extends Grows st st' where
  answered : st'.answered = st.answered
  maps : st'.ctx.maps = st.ctx.maps

/-- One request was answered, with a response in memory that was free. -/
structure Answers (st st' : LimineState) (req ptr : Nat) (response : LimineResponse) : Prop
    extends Grows st st' where
  answered : st'.answered = st.answered ++ [⟨req, response.kind, ptr⟩]
  above : st.frontier ≤ ptr
  below : ptr < st'.frontier
  stored : st'.object ptr = some (.response response)

variable {st st' st'' mid : LimineState} {ptr req : Nat} {response : LimineResponse}

theorem Grows.ok (h : Grows st st') (ok : ArenaOk st.ctx) : ArenaOk st'.ctx :=
  ⟨h.arena ▸ ok.present, by rw [h.arena, h.arenaSize]; exact ok.mapped, h.fits,
    h.hhdm.trans ok.hhdm⟩

theorem Grows.frontier_le (h : Grows st st') : st.frontier ≤ st'.frontier := by
  unfold LimineState.frontier
  rw [h.arena]
  exact Nat.add_le_add_left h.used _

theorem Quiet.refl (ok : ArenaOk st.ctx) : Quiet st st :=
  ⟨⟨rfl, rfl, rfl, Nat.le_refl _, ok.used, fun _ _ => rfl⟩, rfl, rfl⟩

theorem Grows.trans (h : Grows st st') (h' : Grows st' st'') : Grows st st'' :=
  ⟨h'.arena.trans h.arena, h'.arenaSize.trans h.arenaSize, h'.hhdm.trans h.hhdm,
    h.used.trans h'.used, h'.fits,
    fun ptr below => (h'.kept ptr (below.trans_le h.frontier_le)).trans (h.kept ptr below)⟩

theorem Quiet.trans (h : Quiet st st') (h' : Quiet st' st'') : Quiet st st'' :=
  ⟨h.toGrows.trans h'.toGrows, h'.answered.trans h.answered, h'.maps.trans h.maps⟩

/-- The relation reads the arena's fields and the objects only. -/
theorem Grows.congr (h : Grows st mid) (arena : st'.ctx.arena = mid.ctx.arena)
    (arenaSize : st'.ctx.arenaSize = mid.ctx.arenaSize)
    (hhdm : st'.ctx.hhdmOffset = mid.ctx.hhdmOffset) (used : st'.ctx.arenaUsed = mid.ctx.arenaUsed)
    (object : st'.object = mid.object) : Grows st st' :=
  ⟨arena.trans h.arena, arenaSize.trans h.arenaSize, hhdm.trans h.hhdm, used ▸ h.used,
    by rw [used, arenaSize]; exact h.fits, object ▸ h.kept⟩

theorem Grows.put (h : Grows st st') (above : st.frontier ≤ ptr) (obj : LimineObject) :
    Grows st (st'.put ptr obj) := by
  refine ⟨h.arena, h.arenaSize, h.hhdm, h.used, h.fits, fun p below => ?_⟩
  have other : p ≠ ptr := by omega
  exact (Function.update_of_ne other _ _).trans (h.kept p below)

theorem Quiet.put (h : Quiet st st') (above : st.frontier ≤ ptr) (obj : LimineObject) :
    Quiet st (st'.put ptr obj) :=
  ⟨h.toGrows.put above obj, h.answered, h.maps⟩

theorem Grows.respond (h : Grows st mid) (quiet : mid.answered = st.answered)
    (above : st.frontier ≤ ptr) (below : ptr < mid.frontier) :
    Answers st (mid.respond req ptr response) req ptr response := by
  refine ⟨?_, ?_, above, below, ?_⟩
  · exact (h.put above (.response response)).congr rfl rfl rfl rfl rfl
  · exact congrArg (· ++ _) quiet
  · exact Function.update_self _ _ _

/-- The allocation of `size` bytes: null, or free memory that is used from now on. -/
theorem alloc_spec (ok : ArenaOk st.ctx) {size k : Nat} (small : size < 2 ^ 62) (hk : k ≤ 3) :
    ∃ st' ptr, st.alloc size (2 ^ k) = (st', ptr) ∧ Quiet st st' ∧
      (ptr ≠ 0 → st.frontier ≤ ptr ∧ ptr + size = st'.frontier) := by
  have align : 0 < 2 ^ k ∧ 2 ^ k ≤ 8 :=
    ⟨Nat.two_pow_pos k, (Nat.pow_le_pow_right (by decide) hk).trans_eq rfl⟩
  have present := ok.present
  have mapped := ok.mapped
  have used := ok.used
  have sum : u64 (st.ctx.arenaUsed + 2 ^ k - 1) = st.ctx.arenaUsed + 2 ^ k - 1 :=
    u64_of_lt (by omega)
  obtain ⟨lower, upper⟩ := clearLow_add (w := 64) (k := k) (n := st.ctx.arenaUsed) (by omega) (by omega)
  unfold LimineState.alloc limineArenaAlloc
  rw [if_neg (by omega), sum]
  change st.ctx.arenaUsed ≤ (st.ctx.arenaUsed + 2 ^ k - 1) &&& (2 ^ 64 - 2 ^ k) at lower
  change (st.ctx.arenaUsed + 2 ^ k - 1) &&& (2 ^ 64 - 2 ^ k) < _ at upper
  generalize (st.ctx.arenaUsed + 2 ^ k - 1) &&& (2 ^ 64 - 2 ^ k) = offset at lower upper ⊢
  have stop : u64 (offset + size) = offset + size := u64_of_lt (by omega)
  dsimp only
  rw [stop]
  split
  · exact ⟨_, _, rfl, Quiet.refl ok, fun present => absurd rfl present⟩
  · have start : u64 (st.ctx.arena + offset) = st.ctx.arena + offset := u64_of_lt (by omega)
    rw [start]
    refine ⟨_, _, rfl, ⟨⟨rfl, rfl, rfl, ?_, ?_, fun _ _ => rfl⟩, rfl, rfl⟩, fun _ => ⟨?_, ?_⟩⟩
    · exact lower.trans (Nat.le_add_right _ _)
    · dsimp only; omega
    · exact Nat.add_le_add_left lower _
    · exact Nat.add_assoc _ _ _

/-- The allocations of structures are aligned to words. -/
theorem alloc_word_spec (size : Nat) (ok : ArenaOk st.ctx) (small : size < 2 ^ 62) :
    ∃ st' ptr, st.alloc size 8 = (st', ptr) ∧ Quiet st st' ∧
      (ptr ≠ 0 → st.frontier ≤ ptr ∧ ptr + size = st'.frontier) :=
  alloc_spec (k := 3) ok small (by decide)

/-- A context change that leaves the arena and the maps alone. -/
theorem Quiet.congr (h : Quiet st mid) (arena : st'.ctx.arena = mid.ctx.arena)
    (arenaSize : st'.ctx.arenaSize = mid.ctx.arenaSize)
    (hhdm : st'.ctx.hhdmOffset = mid.ctx.hhdmOffset) (used : st'.ctx.arenaUsed = mid.ctx.arenaUsed)
    (maps : st'.ctx.maps = mid.ctx.maps) (object : st'.object = mid.object)
    (answered : st'.answered = mid.answered) : Quiet st st' :=
  ⟨h.toGrows.congr arena arenaSize hhdm used object, answered.trans h.answered, maps.trans h.maps⟩

/-! ### The answers that leave the memory maps alone -/

/-- Nothing was answered, or a request of another kind than the two memory maps. -/
def Unmapped (st st' : LimineState) : Prop :=
  Quiet st st' ∨ ∃ req ptr response, Answers st st' req ptr response ∧
    response.kind ≠ .memmap ∧ response.kind ≠ .efiMemmap ∧ st'.ctx.maps = st.ctx.maps

theorem Unmapped.respond (req : Nat) (response : LimineResponse) (h : Quiet st mid)
    (above : st.frontier ≤ ptr) (below : ptr < mid.frontier)
    (memmap : response.kind ≠ .memmap) (efiMemmap : response.kind ≠ .efiMemmap) :
    Unmapped st (mid.respond req ptr response) :=
  Or.inr ⟨req, ptr, response, h.toGrows.respond h.answered above below, memmap, efiMemmap, h.maps⟩

theorem Unmapped.after (h : Quiet st mid) (h' : Unmapped mid st') : Unmapped st st' := by
  rcases h' with quiet | ⟨req, ptr, response, answers, memmap, efiMemmap, maps⟩
  · exact Or.inl (h.trans quiet)
  · refine Or.inr ⟨req, ptr, response, ⟨h.toGrows.trans answers.toGrows, ?_, ?_, answers.below,
      answers.stored⟩, memmap, efiMemmap, maps.trans h.maps⟩
    · rw [answers.answered, h.answered]
    · exact h.toGrows.frontier_le.trans answers.above

/-- Strings of this length fit the address space, whatever follows them. -/
def Short (chars : List Nat) : Prop := chars.length < 2 ^ 61

theorem arenaString_quiet (ok : ArenaOk st.ctx) {chars : List Nat} (short : Short chars) :
    Quiet st (arenaString st chars).1 := by
  have size : chars.length + 1 < 2 ^ 62 := by unfold Short at short; omega
  obtain ⟨st', dst, eq, quiet, spec⟩ := alloc_spec (k := 0) ok size (by decide)
  have alloc : st.alloc (chars.length + 1) 1 = (st', dst) := eq
  simp only [arenaString, alloc]
  split
  · exact quiet
  · rename_i room
    exact quiet.put (spec room).1 _

theorem arenaAsciiFromUcs2_quiet (ok : ArenaOk st.ctx) {src : Option (List Nat)}
    (short : ∀ chars ∈ src, Short chars) : Quiet st (arenaAsciiFromUcs2 st src).1 := by
  cases src with
  | none => exact Quiet.refl ok
  | some chars =>
    refine arenaString_quiet ok ?_
    rw [Short, List.length_map]
    exact short chars rfl

/-- A response whose strings, if any, are quiet to write. -/
theorem answer_unmapped (kind : LimineRequestKind) (ok : ArenaOk st.ctx)
    {body : LimineState → LimineState × LimineResponse}
    (quiet : ∀ st, ArenaOk st.ctx → Quiet st (body st).1) (kinds : ∀ st, (body st).2.kind = kind)
    (memmap : kind ≠ .memmap) (efiMemmap : kind ≠ .efiMemmap) (mp : kind ≠ .mp) :
    Unmapped st (answer st req kind body) := by
  have size : 0 < kind.responseSize ∧ kind.responseSize < 2 ^ 62 := by
    cases kind <;> first | exact absurd rfl mp | decide
  obtain ⟨st₁, rsp, eq, allocated, spec⟩ := alloc_word_spec _ ok size.2
  simp only [answer, eq]
  split
  · exact Or.inl allocated
  · rename_i room
    obtain ⟨above, stop⟩ := spec room
    have filled := quiet _ (allocated.toGrows.ok ok)
    have limit := filled.toGrows.frontier_le
    refine Unmapped.respond _ _ (allocated.trans filled) above (by omega) ?_ ?_
    · rw [kinds]; exact memmap
    · rw [kinds]; exact efiMemmap

/-- The firmware's and the boot entry's strings and maps fit the address space. -/
structure Env.Sane (env : Env) : Prop where
  version : Short env.versionString
  cmdline : ∀ chars ∈ env.cmdline, Short chars
  loaderPath : ∀ chars ∈ env.loaderPath, Short chars
  memoryMap : ∀ req mapSize descSize, env.memoryMapSize req = some (mapSize, descSize) →
    mapSize < 2 ^ 56
  scratch : ∀ scratch ∈ env.scratchPages, scratch + liminePageSize < 2 ^ 64

variable {env : Env}

theorem cmdlineString_quiet (sane : env.Sane) (ok : ArenaOk st.ctx) :
    Quiet st (cmdlineString env st).1 := by
  unfold cmdlineString
  split
  · rename_i cmdline given
    exact arenaAsciiFromUcs2_quiet ok fun chars mem => sane.cmdline chars (by rw [given]; exact mem)
  · exact arenaString_quiet ok (by simp [Short])

theorem answerBootloaderInfo_unmapped (sane : env.Sane) (ok : ArenaOk st.ctx) :
    Unmapped st (answerBootloaderInfo env st req) := by
  refine answer_unmapped .bootloaderInfo ok (fun st ok => ?_) (fun _ => rfl) (by decide) (by decide) (by decide)
  have name : Quiet st (arenaAscii st bootloaderName).1 := arenaString_quiet ok (by simp [Short, bootloaderName])
  exact name.trans (arenaString_quiet (name.toGrows.ok ok) sane.version)

theorem answerCmdline_unmapped (sane : env.Sane) (ok : ArenaOk st.ctx) :
    Unmapped st (answerCmdline env st req) :=
  answer_unmapped .executableCmdline ok (fun _ ok => cmdlineString_quiet sane ok) (fun _ => rfl)
    (by decide) (by decide) (by decide)

/-- A response without strings. -/
theorem answer_constant_unmapped (kind : LimineRequestKind) (ok : ArenaOk st.ctx)
    {body : LimineState → LimineResponse} (kinds : ∀ st, (body st).kind = kind)
    (memmap : kind ≠ .memmap) (efiMemmap : kind ≠ .efiMemmap) (mp : kind ≠ .mp) :
    Unmapped st (answer st req kind fun st => (st, body st)) :=
  answer_unmapped kind ok (fun _ ok => Quiet.refl ok) kinds memmap efiMemmap mp

theorem answerStackSize_unmapped (ok : ArenaOk st.ctx) : Unmapped st (answerStackSize st req) := by
  have raised : Quiet st (st.setStackSize (st.word (req + 48))) :=
    (Quiet.refl ok).congr rfl rfl rfl rfl rfl rfl rfl
  have answers : ∀ st, ArenaOk st.ctx → Unmapped st (answer st req .stackSize fun st => (st, .stackSize)) :=
    fun _ ok => answer_constant_unmapped .stackSize ok (fun _ => rfl) (by decide) (by decide) (by decide)
  simp only [answerStackSize]
  split
  · exact Unmapped.after raised (answers _ (raised.toGrows.ok ok))
  · exact answers st ok

theorem answerEntryPoint_unmapped (ok : ArenaOk st.ctx) : Unmapped st (answerEntryPoint st req) := by
  have replaced : Quiet st (st.setEntryPoint (st.word (req + 48))) :=
    (Quiet.refl ok).congr rfl rfl rfl rfl rfl rfl rfl
  have answers : ∀ st, ArenaOk st.ctx → Unmapped st (answer st req .entryPoint fun st => (st, .entryPoint)) :=
    fun _ ok => answer_constant_unmapped .entryPoint ok (fun _ => rfl) (by decide) (by decide) (by decide)
  simp only [answerEntryPoint]
  split
  · exact Unmapped.after replaced (answers _ (replaced.toGrows.ok ok))
  · exact answers st ok

theorem Unmapped.congr (h : Unmapped st mid) (arena : st'.ctx.arena = mid.ctx.arena)
    (arenaSize : st'.ctx.arenaSize = mid.ctx.arenaSize)
    (hhdm : st'.ctx.hhdmOffset = mid.ctx.hhdmOffset) (used : st'.ctx.arenaUsed = mid.ctx.arenaUsed)
    (maps : st'.ctx.maps = mid.ctx.maps) (object : st'.object = mid.object)
    (answered : st'.answered = mid.answered) : Unmapped st st' := by
  rcases h with quiet | ⟨req, ptr, response, answers, memmap, efiMemmap, same⟩
  · exact Or.inl (quiet.congr arena arenaSize hhdm used maps object answered)
  · have below : ptr < st'.frontier := by
      have below := answers.below
      rw [LimineState.frontier] at below ⊢
      rwa [arena, used]
    exact Or.inr ⟨req, ptr, response, ⟨answers.toGrows.congr arena arenaSize hhdm used object,
      answered.trans answers.answered, answers.above, below, by rw [object]; exact answers.stored⟩,
      memmap, efiMemmap, maps.trans same⟩

theorem answerFramebuffer_unmapped (ok : ArenaOk st.ctx) :
    Unmapped st (answerFramebuffer env st req) := by
  unfold answerFramebuffer
  split
  · exact Or.inl (Quiet.refl ok)
  · rename_i mode _
    split
    · exact Or.inl (Quiet.refl ok)
    · obtain ⟨st₁, rsp, eq₁, quiet₁, spec₁⟩ :=
        alloc_word_spec (LimineRequestKind.responseSize .framebuffer) ok (by decide)
      obtain ⟨st₂, fb, eq₂, quiet₂, spec₂⟩ := alloc_word_spec 80 (quiet₁.toGrows.ok ok) (by decide)
      have quiet₁₂ := quiet₁.trans quiet₂
      obtain ⟨st₃, array, eq₃, quiet₃, spec₃⟩ := alloc_word_spec 8 (quiet₁₂.toGrows.ok ok) (by decide)
      have quiet := quiet₁₂.trans quiet₃
      simp only [eq₁, eq₂, eq₃]
      split
      · exact Or.inl quiet
      · rename_i room
        simp only [not_or] at room
        obtain ⟨above₁, stop₁⟩ := spec₁ room.1
        obtain ⟨above₂, stop₂⟩ := spec₂ room.2.1
        obtain ⟨above₃, stop₃⟩ := spec₃ room.2.2
        have size : 0 < LimineRequestKind.responseSize .framebuffer := by decide
        have inFb : st.frontier ≤ fb := by omega
        have inArray : st.frontier ≤ array := by omega
        have below : rsp < st₃.frontier := by omega
        have written := (quiet.put inFb (.framebuffer (framebufferOf st₃.ctx mode))).put inArray
          (.pointers [toVirt st₃.ctx fb])
        have responded := Unmapped.respond req (.framebuffer 1 (toVirt st₃.ctx array)) written above₁
          below (fun eq => LimineRequestKind.noConfusion eq) (fun eq => LimineRequestKind.noConfusion eq)
        exact responded.congr rfl rfl rfl rfl rfl rfl rfl

theorem fillLimineFile_quiet (sane : env.Sane) (ok : ArenaOk st.ctx) (address size : Nat) :
    Quiet st (fillLimineFile env st address size).1 := by
  have path := arenaAsciiFromUcs2_quiet ok sane.loaderPath
  exact path.trans (cmdlineString_quiet sane (path.toGrows.ok ok))

theorem answerExecutableFile_unmapped (sane : env.Sane) (ok : ArenaOk st.ctx) :
    Unmapped st (answerExecutableFile env st req) := by
  unfold answerExecutableFile
  split
  · exact Or.inl (Quiet.refl ok)
  · dsimp only
    split
    · exact Or.inl (Quiet.refl ok)
    · rename_i copy _
      generalize u64 (st.ctx.fileSize + liminePageSize - 1) / liminePageSize = pages
      have quiet₀ : Quiet st (st.setExecFile copy pages) :=
        (Quiet.refl ok).congr rfl rfl rfl rfl rfl rfl rfl
      obtain ⟨st₁, rsp, eq₁, quiet₁, spec₁⟩ := alloc_word_spec
        (LimineRequestKind.responseSize .executableFile) (quiet₀.toGrows.ok ok) (by decide)
      have quiet₀₁ := quiet₀.trans quiet₁
      obtain ⟨st₂, file, eq₂, quiet₂, spec₂⟩ := alloc_word_spec 112 (quiet₀₁.toGrows.ok ok) (by decide)
      have quiet := quiet₀₁.trans quiet₂
      simp only [eq₁, eq₂]
      split
      · exact Or.inl quiet
      · rename_i room
        simp only [not_or] at room
        obtain ⟨above₁, stop₁⟩ := spec₁ room.1
        obtain ⟨above₂, stop₂⟩ := spec₂ room.2
        have size : 0 < LimineRequestKind.responseSize .executableFile := by decide
        have lower := quiet₀.toGrows.frontier_le
        have filled := fillLimineFile_quiet sane (quiet.toGrows.ok ok)
          (u64 (copy + st₂.ctx.hhdmOffset)) st₂.ctx.fileSize
        have limit := filled.toGrows.frontier_le
        have inFile : st.frontier ≤ file := by omega
        have written := (quiet.trans filled).put inFile
          (.file (fillLimineFile env st₂ (u64 (copy + st₂.ctx.hhdmOffset)) st₂.ctx.fileSize).2)
        have below : rsp < (fillLimineFile env st₂ (u64 (copy + st₂.ctx.hhdmOffset))
          st₂.ctx.fileSize).1.frontier := by omega
        exact Unmapped.respond _ _ written (by omega) below (fun eq => LimineRequestKind.noConfusion eq)
          (fun eq => LimineRequestKind.noConfusion eq)

/-- Every request but the two for memory maps leaves the maps alone. -/
theorem dispatchRequest_unmapped (sane : env.Sane) (ok : ArenaOk st.ctx)
    (memmap : requestKind (st.word (req + 16)) (st.word (req + 24)) ≠ some .memmap)
    (efiMemmap : requestKind (st.word (req + 16)) (st.word (req + 24)) ≠ some .efiMemmap) :
    Unmapped st (dispatchRequest env st req) := by
  unfold dispatchRequest
  split
  · exact answerBootloaderInfo_unmapped sane ok
  · exact answerCmdline_unmapped sane ok
  · exact answer_constant_unmapped .firmwareType ok (fun _ => rfl) (by decide) (by decide) (by decide)
  · exact answerStackSize_unmapped ok
  · exact answer_constant_unmapped .hhdm ok (fun _ => rfl) (by decide) (by decide) (by decide)
  · exact answerFramebuffer_unmapped ok
  · exact answer_constant_unmapped .pagingMode ok (fun _ => rfl) (by decide) (by decide) (by decide)
  · exact absurd ‹_› memmap
  · exact answerEntryPoint_unmapped ok
  · exact answerExecutableFile_unmapped sane ok
  · exact answer_constant_unmapped .module ok (fun _ => rfl) (by decide) (by decide) (by decide)
  · unfold answerRsdp
    dsimp only
    generalize (if findConfigTable env limineAcpi20Guid = 0 then findConfigTable env limineAcpi10Guid
      else findConfigTable env limineAcpi20Guid) = rsdp
    split
    · exact Or.inl (Quiet.refl ok)
    · exact answer_constant_unmapped .rsdp ok (fun _ => rfl) (by decide) (by decide) (by decide)
  · simp only [answerSmbios]
    split
    · exact Or.inl (Quiet.refl ok)
    · exact answer_constant_unmapped .smbios ok (fun _ => rfl) (by decide) (by decide) (by decide)
  · exact answer_constant_unmapped .efiSystemTable ok (fun _ => rfl) (by decide) (by decide) (by decide)
  · exact absurd ‹_› efiMemmap
  · exact answer_constant_unmapped .executableAddress ok (fun _ => rfl) (by decide) (by decide)
      (by decide)
  · unfold answerDateAtBoot
    split
    · exact Or.inl (Quiet.refl ok)
    · exact answer_constant_unmapped .dateAtBoot ok (fun _ => rfl) (by decide) (by decide) (by decide)
  · exact Or.inl (Quiet.refl ok)
  · exact Or.inl (Quiet.refl ok)

/-! ### The answers that set the memory maps -/

/-- The structures of these sizes fit in the arena, one after another. -/
def ArenaRoom (ctx : LimineCtx) : List Nat → Prop
  | [] => True
  | size :: sizes =>
    (limineArenaAlloc ctx size 8).2 ≠ 0 ∧ ArenaRoom (limineArenaAlloc ctx size 8).1 sizes

instance ArenaRoom.decidable : ∀ ctx sizes, Decidable (ArenaRoom ctx sizes)
  | _, [] => inferInstanceAs (Decidable True)
  | ctx, size :: sizes =>
    have := ArenaRoom.decidable (limineArenaAlloc ctx size 8).1 sizes
    inferInstanceAs (Decidable (_ ∧ ArenaRoom (limineArenaAlloc ctx size 8).1 sizes))

/-- The firmware tells the map's size, and there is room for the response and its arrays. -/
def CanReserve (env : Env) (st : LimineState) (req : Nat) : Prop :=
  ∃ size ∈ env.memoryMapSize req, size.2 ≠ 0 ∧
    ArenaRoom st.ctx [LimineRequestKind.responseSize .memmap,
      u64 (reservedEntries size.1 size.2 * limineMemmapEntrySize),
      u64 (reservedEntries size.1 size.2 * 8)]

instance (env : Env) (st : LimineState) (req : Nat) : Decidable (CanReserve env st req) :=
  inferInstanceAs (Decidable (∃ size ∈ env.memoryMapSize req, _))

/-- A memory map response was set up in free memory, with its arrays behind it. -/
structure Reserved (st st' : LimineState) (req ptr entries pointers : Nat) : Prop where
  answers : Answers st st' req ptr (.memmap {})
  maps : st'.ctx.maps = ⟨ptr, entries, pointers, st.ctx.efiMemmapResponse⟩
  entries_above : ptr < entries
  pointers_above : entries < pointers
  pointers_below : pointers < st'.frontier

theorem reservedEntries_bounds {mapSize : Nat} (descSize : Nat) (small : mapSize < 2 ^ 56) :
    0 < reservedEntries mapSize descSize ∧ reservedEntries mapSize descSize < 2 ^ 57 := by
  have below := Nat.div_le_self mapSize descSize
  rw [reservedEntries]
  generalize mapSize / descSize = quotient at below ⊢
  have sum : u64 (quotient + limineMemmapSlack) = quotient + 64 :=
    u64_of_lt (by unfold limineMemmapSlack; omega)
  omega

theorem reserveMemmap_spec (sane : env.Sane) (ok : ArenaOk st.ctx) :
    (CanReserve env st req ∧ ∃ ptr entries pointers,
      Reserved st (reserveMemmap env st req) req ptr entries pointers) ∨
    (¬CanReserve env st req ∧ Quiet st (reserveMemmap env st req)) := by
  unfold reserveMemmap
  split
  · rename_i silent
    refine Or.inr ⟨?_, Quiet.refl ok⟩
    rintro ⟨size, told, _⟩
    rw [silent] at told
    cases told
  · rename_i mapSize descSize told
    split
    · rename_i zero
      refine Or.inr ⟨?_, Quiet.refl ok⟩
      rintro ⟨size, told', nonzero, _⟩
      rw [told] at told'
      cases told'
      exact nonzero zero
    · rename_i nonzero
      have room_iff : CanReserve env st req ↔ ArenaRoom st.ctx [LimineRequestKind.responseSize .memmap,
          u64 (reservedEntries mapSize descSize * limineMemmapEntrySize),
          u64 (reservedEntries mapSize descSize * 8)] := by
        constructor
        · rintro ⟨size, told', _, room⟩
          rw [told] at told'
          cases told'
          exact room
        · exact fun room => ⟨(mapSize, descSize), told, nonzero, room⟩
      rw [room_iff]
      dsimp only
      have bounds := reservedEntries_bounds descSize (sane.memoryMap req mapSize descSize told)
      generalize reservedEntries mapSize descSize = count at bounds ⊢
      have arraySize : u64 (count * limineMemmapEntrySize) = count * limineMemmapEntrySize :=
        u64_of_lt (by unfold limineMemmapEntrySize; omega)
      have pointersSize : u64 (count * 8) = count * 8 := u64_of_lt (by omega)
      rw [arraySize, pointersSize]
      obtain ⟨st₁, rsp, eq₁, quiet₁, spec₁⟩ :=
        alloc_word_spec (LimineRequestKind.responseSize .memmap) ok (by decide)
      obtain ⟨st₂, entries, eq₂, quiet₂, spec₂⟩ := alloc_word_spec (count * limineMemmapEntrySize)
        (quiet₁.toGrows.ok ok) (by unfold limineMemmapEntrySize; omega)
      have quiet₁₂ := quiet₁.trans quiet₂
      obtain ⟨st₃, pointers, eq₃, quiet₃, spec₃⟩ :=
        alloc_word_spec (count * 8) (quiet₁₂.toGrows.ok ok) (by omega)
      have quiet := quiet₁₂.trans quiet₃
      have room_eq : ArenaRoom st.ctx [LimineRequestKind.responseSize .memmap,
          count * limineMemmapEntrySize, count * 8] ↔ rsp ≠ 0 ∧ entries ≠ 0 ∧ pointers ≠ 0 := by
        have ctx₁ : limineArenaAlloc st.ctx (LimineRequestKind.responseSize .memmap) 8 = (st₁.ctx, rsp) := by
          cases eq₁; rfl
        have ctx₂ : limineArenaAlloc st₁.ctx (count * limineMemmapEntrySize) 8 = (st₂.ctx, entries) := by
          cases eq₂; rfl
        have ctx₃ : limineArenaAlloc st₂.ctx (count * 8) 8 = (st₃.ctx, pointers) := by
          cases eq₃; rfl
        simp only [ArenaRoom, ctx₁, ctx₂, ctx₃, and_true]
      rw [room_eq]
      simp only [eq₁, eq₂, eq₃]
      split
      · rename_i full
        refine Or.inr ⟨?_, quiet⟩
        rintro ⟨hasRsp, hasEntries, hasPointers⟩
        rcases full with none | none | none
        · exact hasRsp none
        · exact hasEntries none
        · exact hasPointers none
      · rename_i room
        simp only [not_or] at room
        obtain ⟨above₁, stop₁⟩ := spec₁ room.1
        obtain ⟨above₂, stop₂⟩ := spec₂ room.2.1
        obtain ⟨above₃, stop₃⟩ := spec₃ room.2.2
        have size : 0 < LimineRequestKind.responseSize .memmap := by decide
        have arrays : 0 < count * limineMemmapEntrySize ∧ 0 < count * 8 := by
          unfold limineMemmapEntrySize; omega
        have set : Grows st (st₃.setMemmap rsp entries pointers count) :=
          quiet.toGrows.congr rfl rfl rfl rfl rfl
        have below : rsp < (st₃.setMemmap rsp entries pointers count).frontier := by
          change rsp < st₃.frontier
          omega
        have efi : st₃.ctx.efiMemmapResponse = st.ctx.efiMemmapResponse :=
          congrArg Maps.efiMemmapResponse quiet.maps
        have pointersBelow : pointers < st₃.frontier := by omega
        refine Or.inl ⟨room, rsp, entries, pointers, set.respond quiet.answered above₁ below, ?_,
          by omega, by omega, pointersBelow⟩
        change (⟨rsp, entries, pointers, st₃.ctx.efiMemmapResponse⟩ : Maps) = _
        rw [efi]

theorem answerEfiMemmap_spec (ok : ArenaOk st.ctx) :
    (ArenaRoom st.ctx [LimineRequestKind.responseSize .efiMemmap] ∧ ∃ ptr,
      Answers st (answerEfiMemmap st req) req ptr (.efiMemmap {}) ∧
      (answerEfiMemmap st req).ctx.maps = { st.ctx.maps with efiMemmapResponse := ptr }) ∨
    (¬ArenaRoom st.ctx [LimineRequestKind.responseSize .efiMemmap] ∧
      Quiet st (answerEfiMemmap st req)) := by
  obtain ⟨st₁, rsp, eq, quiet, spec⟩ :=
    alloc_word_spec (LimineRequestKind.responseSize .efiMemmap) ok (by decide)
  have room_eq : ArenaRoom st.ctx [LimineRequestKind.responseSize .efiMemmap] ↔ rsp ≠ 0 := by
    have ctx : limineArenaAlloc st.ctx (LimineRequestKind.responseSize .efiMemmap) 8 = (st₁.ctx, rsp) := by
      cases eq; rfl
    simp only [ArenaRoom, ctx, and_true]
  rw [room_eq]
  simp only [answerEfiMemmap, eq]
  split
  · rename_i full
    exact Or.inr ⟨fun room => room full, quiet⟩
  · rename_i room
    obtain ⟨above, stop⟩ := spec room
    have size : 0 < LimineRequestKind.responseSize .efiMemmap := by decide
    have set : Grows st (st₁.setEfiMemmapResponse rsp) := quiet.toGrows.congr rfl rfl rfl rfl rfl
    have below : rsp < (st₁.setEfiMemmapResponse rsp).frontier := by
      change rsp < st₁.frontier
      omega
    refine Or.inl ⟨room, rsp, set.respond quiet.answered above below, ?_⟩
    rw [← quiet.maps]
    rfl

end Meridian.Limine
