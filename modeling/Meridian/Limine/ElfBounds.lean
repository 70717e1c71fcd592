import Meridian.Limine.ElfPasses

/-!
# Where the ELF loader reads and writes

The loader's accesses are in bounds exactly if the sums that it checks do not wrap to get past the
checks (`limineLoadElf_inBounds_iff`).
-/

namespace Meridian.Limine

open Lib.Word Lib.Memory

variable {start st : ElfState} {phdrs minVaddr left i : Nat}

/-! ### The whole loader -/

/-- Pages that the firmware allocates are in the address space and apart from the file. -/
def PagesOk (allocatePages : Nat → Except EfiStatus Nat) (fileData fileSize : Nat) : Prop :=
  ∀ n image, allocatePages n = .ok image → image < 2 ^ 64 ∧ image + n * liminePageSize ≤ 2 ^ 64 ∧
    (image + n * liminePageSize ≤ fileData ∨ fileData + fileSize ≤ image)

section Image

variable {fuel : Nat} {allocatePages : Nat → Except EfiStatus Nat} {st' : ElfState} {ending : Ending}

theorem inBounds_finish (st : ElfState) : st.finish.InBounds ↔ st.InBounds := by
  unfold ElfState.InBounds
  refine forall_congr' fun access => imp_congr_right fun _ => ?_
  cases access <;> exact Iff.rfl

theorem inBounds_congr (accesses : st'.accesses = st.accesses) (ctx : st'.ctx = st.ctx) :
    st'.InBounds ↔ st.InBounds := by
  unfold ElfState.InBounds
  rw [accesses, ctx]

theorem endLoad_inBounds {run : ElfState × Ending} (eq : endLoad run = (st', ending))
    (accepted : ∀ status, ending ≠ .failed status) : st'.InBounds ↔ run.1.InBounds := by
  obtain ⟨st, which⟩ := run
  cases which with
  | success =>
    cases eq
    exact inBounds_finish st
  | failed status =>
    cases eq
    exact absurd rfl (accepted status)
  | unfinished =>
    cases eq
    exact Iff.rfl

/-- A run that does not fail allocates the image, and after the copies it accesses headers at most. -/
theorem loadImage_run (eq : loadImage fuel allocatePages phdrs minVaddr st = (st', ending))
    (accepted : ∀ status, ending ≠ .failed status) :
    ∃ image, allocatePages (st.ctx.imageSize / liminePageSize) = .ok image ∧
      ((st'.InBounds ↔ (placeImage phdrs minVaddr image st).InBounds) ∨
        (st'.InBounds ↔ (findRela phdrs maxPhnum 0 {} (placeImage phdrs minVaddr image st)).1.InBounds)) := by
  unfold loadImage at eq
  cases allocated : allocatePages (st.ctx.imageSize / liminePageSize) with
  | error status =>
    rw [allocated] at eq
    cases eq
    exact absurd rfl (accepted status)
  | ok image =>
    rw [allocated] at eq
    refine ⟨image, rfl, ?_⟩
    dsimp only at eq
    generalize placeImage phdrs minVaddr image st = placed at *
    split at eq
    · right
      obtain ⟨ctx, accesses⟩ := applyRelocations_accesses fuel phdrs placed
      exact (endLoad_inBounds eq accepted).trans (inBounds_congr accesses ctx)
    · left
      exact endLoad_inBounds eq accepted

theorem zeroMem_eq (st : ElfState) (image size : Nat) :
    (st.setImagePhys image).zeroMem image size =
      ⟨(st.setImagePhys image).ctx, fill st.mem image size, st.accesses ++ [.zeroFill image size]⟩ := rfl

/-- The zero fill is in bounds and leaves the file alone. -/
theorem zeroMem_inBounds (buffer : Buffer start)
    (headers : start.ePhoff + elf64PhdrSize * start.ePhnum ≤ start.ctx.fileSize)
    (intact : Intact start st)
    (accesses : st.accesses =
      headerAccesses (u64 (start.ctx.fileData + start.ePhoff)) 0 start.ePhnum) {image : Nat}
    (word : image < 2 ^ 64) (region : ImageRegion start (st.setImagePhys image)) :
    ((st.setImagePhys image).zeroMem image st.ctx.imageSize).InBounds ∧
      Intact start ((st.setImagePhys image).zeroMem image st.ctx.imageSize) := by
  have whole : Inside image st.ctx.imageSize image st.ctx.imageSize :=
    (inside_iff (o := 0) region.fits region.small (by decide)).mpr (Or.inr (Nat.le_of_eq (Nat.zero_add _)))
  have filled : Agree st.mem (fill st.mem (u64 image) st.ctx.imageSize) start.ctx.fileData
      start.ctx.fileSize := agree_fill whole buffer.fits region.disjoint
  rw [u64_of_lt word] at filled
  rw [zeroMem_eq]
  refine ⟨?_, intact.data, intact.size, intact.agree.trans filled⟩
  unfold ElfState.InBounds
  rw [accesses_mk, ctx_mk, List.forall_mem_append, List.forall_mem_singleton, accesses]
  refine ⟨?_, whole⟩
  intro access mem
  obtain ⟨i, index, rfl⟩ := List.mem_map.mp mem
  have below : i < start.ePhnum := by
    have range := List.mem_range'_1.mp index
    omega
  have inside := header_inside buffer headers below
  unfold Access.InBounds
  rw [← intact.data, ← intact.size] at inside
  rw [← intact.data]
  exact inside

theorem ePhnum_le (start : ElfState) : start.ePhnum ≤ maxPhnum := by
  have below : start.ePhnum < 256 ^ 2 := readLe_lt _ _ 2
  have max : (256 : Nat) ^ 2 = maxPhnum + 1 := by decide
  omega

/-- An image that is allocated is loaded in bounds exactly if every segment fits. -/
theorem loadImage_inBounds (buffer : Buffer start)
    (headers : start.ePhoff + elf64PhdrSize * start.ePhnum ≤ start.ctx.fileSize)
    (firmware : PagesOk allocatePages start.ctx.fileData start.ctx.fileSize)
    (intact : Intact start st)
    (accesses : st.accesses =
      headerAccesses (u64 (start.ctx.fileData + start.ePhoff)) 0 start.ePhnum)
    (pages : st.ctx.imageSize % liminePageSize = 0) (small : st.ctx.imageSize < 2 ^ 64)
    (low : ∀ j < start.ePhnum, (start.phdr j).loaded = true → minVaddr ≤ (start.phdr j).pVaddr)
    (eq : loadImage fuel allocatePages (u64 (start.ctx.fileData + start.ePhoff)) minVaddr st =
      (st', ending))
    (accepted : ∀ status, ending ≠ .failed status) :
    st'.InBounds ↔ ∀ j < start.ePhnum, (start.phdr j).loaded = true →
      SegmentFits start.ctx.fileSize st.ctx.imageSize minVaddr (start.phdr j) := by
  obtain ⟨image, allocated, run⟩ := loadImage_run eq accepted
  obtain ⟨word, fits, disjoint⟩ := firmware _ image allocated
  have whole : st.ctx.imageSize / liminePageSize * liminePageSize = st.ctx.imageSize :=
    Nat.div_mul_cancel (Nat.dvd_of_mod_eq_zero pages)
  rw [whole] at fits disjoint
  have region : ImageRegion start (st.setImagePhys image) := ⟨fits, small, disjoint⟩
  obtain ⟨cleared, intact₁⟩ := zeroMem_inBounds buffer headers intact accesses word region
  have region₁ : ImageRegion start ((st.setImagePhys image).zeroMem image st.ctx.imageSize) :=
    ⟨region.fits, region.small, region.disjoint⟩
  obtain ⟨copies, stays⟩ := copySegments_inBounds (i := 0) buffer headers region₁ intact₁ low
    (ePhnum_le start)
  have segments : (placeImage (u64 (start.ctx.fileData + start.ePhoff)) minVaddr image st).InBounds ↔
      ∀ j < start.ePhnum, (start.phdr j).loaded = true →
        SegmentFits start.ctx.fileSize st.ctx.imageSize minVaddr (start.phdr j) := by
    refine copies.trans ((and_iff_right cleared).trans ?_)
    exact forall_congr' fun j => forall_prop_of_true (Nat.zero_le j)
  rw [← segments]
  rcases run with same | search
  · exact same
  · refine search.trans ⟨?_, ?_⟩
    · obtain ⟨ctx, earlier⟩ := findRela_mono (u64 (start.ctx.fileData + start.ePhoff)) maxPhnum 0 {}
        (placeImage (u64 (start.ctx.fileData + start.ePhoff)) minVaddr image st)
      exact InBounds.of_prefix ctx earlier
    · intro placed
      exact (findRela_inBounds buffer headers (stays placed) {}).mpr placed

/-- If the run is in bounds, so were the headers that the first pass read. -/
theorem loadImage_headers (data : st.ctx.fileData = start.ctx.fileData)
    (size : st.ctx.fileSize = start.ctx.fileSize)
    (accesses : st.accesses = headerAccesses phdrs 0 start.ePhnum)
    (eq : loadImage fuel allocatePages phdrs minVaddr st = (st', ending))
    (accepted : ∀ status, ending ≠ .failed status) (h : st'.InBounds) :
    ∀ i < start.ePhnum,
      Inside (phdrAddr phdrs i) elf64PhdrSize start.ctx.fileData start.ctx.fileSize := by
  obtain ⟨image, _, run⟩ := loadImage_run eq accepted
  have placed : (placeImage phdrs minVaddr image st).InBounds := by
    rcases run with same | search
    · exact same.mp h
    · obtain ⟨ctx, earlier⟩ := findRela_mono phdrs maxPhnum 0 {} (placeImage phdrs minVaddr image st)
      exact InBounds.of_prefix ctx earlier (search.mp h)
  obtain ⟨ctx, earlier⟩ := copySegments_mono phdrs minVaddr maxPhnum 0
    ((st.setImagePhys image).zeroMem image st.ctx.imageSize)
  have cleared := InBounds.of_prefix ctx earlier placed
  intro i below
  have mem : Access.header (phdrAddr phdrs i) ∈ st.accesses := by
    rw [accesses]
    exact List.mem_map.mpr ⟨i, List.mem_range'_1.mpr (by omega), rfl⟩
  have inside := cleared _ (List.mem_append_left _ mem)
  rw [← data, ← size]
  exact inside

/-- Headers that are all in the file make a table that is. -/
theorem headers_of_inside (positive : start.ctx.fileData ≠ 0)
    (fits : start.ctx.fileData + start.ctx.fileSize ≤ 2 ^ 64) (some : start.ePhnum ≠ 0)
    (h : ∀ i < start.ePhnum, Inside (phdrAddr (u64 (start.ctx.fileData + start.ePhoff)) i)
      elf64PhdrSize start.ctx.fileData start.ctx.fileSize) :
    start.ePhoff + elf64PhdrSize * start.ePhnum ≤ start.ctx.fileSize := by
  have word : start.ePhoff < 2 ^ 64 := by
    have full : (256 : Nat) ^ 8 = 2 ^ 64 := by norm_num
    rw [← full]
    exact readLe_lt _ _ 8
  have ends : ∀ i < start.ePhnum, start.ePhoff + elf64PhdrSize * (i + 1) ≤ start.ctx.fileSize := by
    intro i
    induction i with
    | zero =>
      intro below
      have first := h 0 below
      rw [phdrAddr_eq, Inside.u64, inside_iff fits (by omega) (by omega)] at first
      unfold elf64PhdrSize at *
      omega
    | succ i ih =>
      intro below
      have before := ih (by omega)
      have next := h (i + 1) below
      rw [phdrAddr_eq, Inside.u64, inside_iff fits (by omega) (by omega)] at next
      unfold elf64PhdrSize at *
      omega
  have last := ends (start.ePhnum - 1) (by omega)
  rwa [Nat.sub_add_cancel (Nat.one_le_iff_ne_zero.mpr some)] at last

end Image

/-! ### The span of the segments -/

theorem foldl_min_le (values : List Nat) (bound : Nat) :
    values.foldl min bound ≤ bound ∧ ∀ v ∈ values, values.foldl min bound ≤ v := by
  induction values generalizing bound with
  | nil => exact ⟨Nat.le_refl _, fun v mem => absurd mem List.not_mem_nil⟩
  | cons w values ih =>
    obtain ⟨init, rest⟩ := ih (min bound w)
    refine ⟨init.trans (Nat.min_le_left _ _), ?_⟩
    intro v mem
    rcases List.mem_cons.mp mem with rfl | later
    · exact init.trans (Nat.min_le_right _ _)
    · exact rest v later

theorem roundDownPage_eq {value : Nat} (h : value < 2 ^ 64) : roundDownPage value = value / 4096 * 4096 :=
  clearLow_eq (w := 64) (k := 12) (by decide) h

theorem mem_loadedSegments {ph : Elf64Phdr} :
    ph ∈ start.loadedSegments ↔ ∃ j < start.ePhnum, start.phdr j = ph ∧ ph.loaded = true := by
  unfold ElfState.loadedSegments
  rw [List.mem_filter, List.mem_map]
  simp only [List.mem_range]
  constructor
  · rintro ⟨⟨j, below, same⟩, loaded⟩
    exact ⟨j, below, same, loaded⟩
  · rintro ⟨j, below, same, loaded⟩
    exact ⟨⟨j, below, same⟩, loaded⟩

theorem lowestPage_le (start : ElfState) :
    start.lowestPage < 2 ^ 64 ∧ ∀ ph ∈ start.loadedSegments, start.lowestPage ≤ ph.pVaddr := by
  obtain ⟨init, each⟩ := foldl_min_le (start.loadedSegments.map Elf64Phdr.pVaddr) (2 ^ 64 - 1)
  have rounded : start.lowestPage ≤ (start.loadedSegments.map Elf64Phdr.pVaddr).foldl min (2 ^ 64 - 1) :=
    Nat.div_mul_le_self _ _
  refine ⟨by omega, ?_⟩
  intro ph mem
  exact rounded.trans (each _ (List.mem_map_of_mem mem))

/-- What the first pass measures. -/
theorem measured (start : ElfState) {span : ElfSpan}
    (eq : span = start.loadedSegments.foldl ElfSpan.add ⟨2 ^ 64 - 1, 0, false⟩) :
    roundDownPage span.minVaddr = start.lowestPage ∧
      sub64 (roundUpPage span.maxVaddr) start.lowestPage = start.spanSize := by
  obtain ⟨init, _⟩ := foldl_min_le (start.loadedSegments.map Elf64Phdr.pVaddr) (2 ^ 64 - 1)
  have lowest : span.minVaddr = (start.loadedSegments.map Elf64Phdr.pVaddr).foldl min (2 ^ 64 - 1) := by
    rw [eq, foldl_add_minVaddr]
  have greatest : span.maxVaddr = start.greatestEnd := by
    rw [eq, foldl_add_maxVaddr]
    rfl
  refine ⟨?_, ?_⟩
  · rw [lowest, roundDownPage_eq (by omega)]
    rfl
  · have rounded : roundUpPage span.maxVaddr = (start.greatestEnd + 4095) % 2 ^ 64 / 4096 * 4096 := by
      rw [greatest]
      exact clearLow_eq (w := 64) (k := 12) (by decide) (u64_lt _)
    rw [rounded]
    rfl

theorem spanSize_page (start : ElfState) : start.spanSize % liminePageSize = 0 := by
  have low : start.lowestPage % 4096 = 0 := Nat.mul_mod_left _ _
  have bound := (lowestPage_le start).1
  unfold ElfState.spanSize liminePageSize
  omega

theorem le_foldl_max (values : List Nat) (init : Nat) :
    init ≤ values.foldl max init ∧ ∀ v ∈ values, v ≤ values.foldl max init := by
  induction values generalizing init with
  | nil => exact ⟨Nat.le_refl _, fun v mem => absurd mem List.not_mem_nil⟩
  | cons w values ih =>
    obtain ⟨start, each⟩ := ih (max init w)
    refine ⟨(Nat.le_max_left _ _).trans start, ?_⟩
    intro v mem
    rcases List.mem_cons.mp mem with rfl | later
    · exact (Nat.le_max_right _ _).trans start
    · exact each v later

theorem foldl_max_lt {values : List Nat} {init bound : Nat} (start : init < bound)
    (each : ∀ v ∈ values, v < bound) : values.foldl max init < bound := by
  induction values generalizing init with
  | nil => exact start
  | cons w values ih =>
    exact ih (Nat.max_lt.mpr ⟨start, each w List.mem_cons_self⟩)
      fun v mem => each v (List.mem_cons_of_mem w mem)

/-- Sums that do not wrap fit. -/
theorem sumsFit_of_exact
    (headers : start.ePhoff + elf64PhdrSize * start.ePhnum ≤ start.ctx.fileSize)
    (segments : ∀ ph ∈ start.loadedSegments, ph.pOffset + ph.pFilesz ≤ start.ctx.fileSize ∧
      ph.pFilesz ≤ ph.pMemsz ∧ ph.pVaddr + ph.pMemsz + 4095 < 2 ^ 64) : start.SumsFit := by
  refine ⟨headers, ?_⟩
  intro ph mem _
  obtain ⟨source, within, fits⟩ := segments ph mem
  refine ⟨source, ?_⟩
  have low := (lowestPage_le start).2 ph mem
  have reached : (ph.pVaddr + ph.pMemsz) % 2 ^ 64 ≤ start.greatestEnd :=
    (le_foldl_max _ 0).2 _ (List.mem_map_of_mem (f := fun ph => (ph.pVaddr + ph.pMemsz) % 2 ^ 64) mem)
  have bounded : start.greatestEnd < 2 ^ 64 - 4095 := by
    refine foldl_max_lt (by decide) ?_
    intro v inEnds
    obtain ⟨other, otherMem, rfl⟩ := List.mem_map.mp inEnds
    have otherFits := (segments other otherMem).2.2
    omega
  have aligned : start.lowestPage % 4096 = 0 := Nat.mul_mod_left _ _
  unfold ElfState.spanSize
  omega

/-! ### The bound is exact -/

section Exact

variable {fuel : Nat} {allocatePages : Nat → Except EfiStatus Nat}

/-- The passes after the header was accepted. -/
theorem passes_inBounds (buffer : Buffer start) (some_ : start.ePhnum ≠ 0)
    (firmware : PagesOk allocatePages start.ctx.fileData start.ctx.fileSize)
    (fresh : start.accesses = []) {span : ElfSpan} {virt slide : Nat} {st' : ElfState} {ending : Ending}
    (scanned : scanHeaders (u64 (start.ctx.fileData + start.ePhoff)) maxPhnum 0
      ⟨2 ^ 64 - 1, 0, false⟩ start = (st, some span))
    (run : loadImage fuel allocatePages (u64 (start.ctx.fileData + start.ePhoff))
      (roundDownPage span.minVaddr) (st.setImage virt
        (sub64 (roundUpPage span.maxVaddr) (roundDownPage span.minVaddr)) slide) = (st', ending))
    (accepted : ∀ status, ending ≠ .failed status) : st'.InBounds ↔ start.SumsFit := by
  obtain ⟨st_eq, span_eq⟩ := scanHeaders_spec (ePhnum_le start) scanned
  have segments : segmentsFrom start.mem (u64 (start.ctx.fileData + start.ePhoff)) 0 start.ePhnum =
      start.loadedSegments := by
    unfold segmentsFrom ElfState.loadedSegments
    rw [Nat.sub_zero, List.range_eq_range']
    rfl
  rw [segments] at span_eq
  obtain ⟨lowest, size⟩ := measured start span_eq
  rw [lowest, size] at run
  obtain ⟨_, low⟩ := lowestPage_le start
  have accesses : st.accesses =
      headerAccesses (u64 (start.ctx.fileData + start.ePhoff)) 0 start.ePhnum := by
    rw [st_eq, ElfState.record, fresh]
    rfl
  have data : st.ctx = start.ctx := by rw [st_eq]; rfl
  have agree : st.mem = start.mem := by rw [st_eq]; rfl
  have intact : Intact start (st.setImage virt start.spanSize slide) :=
    ⟨(congrArg LimineCtx.fileData data :), (congrArg LimineCtx.fileSize data :),
      fun x _ _ => congrFun agree x⟩
  constructor
  · intro h
    have headers := headers_of_inside buffer.positive buffer.fits some_
      (loadImage_headers intact.data intact.size accesses run accepted h)
    have fits := (loadImage_inBounds buffer headers firmware intact accesses (spanSize_page start)
      (sub64_lt _ _) (fun j below loaded => low _ (mem_loadedSegments.mpr ⟨j, below, rfl, loaded⟩))
      run accepted).mp h
    refine ⟨headers, ?_⟩
    intro ph mem
    obtain ⟨j, below, rfl, loaded⟩ := mem_loadedSegments.mp mem
    exact fits j below loaded
  · rintro ⟨headers, fits⟩
    refine (loadImage_inBounds buffer headers firmware intact accesses (spanSize_page start)
      (sub64_lt _ _) (fun j below loaded => low _ (mem_loadedSegments.mpr ⟨j, below, rfl, loaded⟩))
      run accepted).mpr ?_
    intro j below loaded
    exact fits _ (mem_loadedSegments.mpr ⟨j, below, rfl, loaded⟩)

/-- A run that does not fail keeps its accesses in bounds exactly if the sums of the file's header
and segments fit. -/
theorem limineLoadElf_inBounds_iff {ctx : LimineCtx} {mem : Bytes}
    (fits : ctx.fileData + ctx.fileSize ≤ 2 ^ 64)
    (firmware : PagesOk allocatePages ctx.fileData ctx.fileSize)
    (accepted : ∀ status, (limineLoadElf fuel allocatePages ctx mem).2 ≠ .failed status) :
    (limineLoadElf fuel allocatePages ctx mem).1.InBounds ↔ ElfState.SumsFit ⟨ctx, mem, []⟩ := by
  obtain ⟨⟨st', ending⟩, run⟩ : ∃ run, limineLoadElf fuel allocatePages ctx mem = run := ⟨_, rfl⟩
  rw [run] at accepted ⊢
  unfold limineLoadElf at run
  dsimp only at run
  split at run
  · cases run
    exact absurd rfl (accepted _)
  · rename_i header
    split at run
    · cases run
      exact absurd rfl (accepted _)
    · rename_i table
      split at run
      · cases run
        exact absurd rfl (accepted _)
      · rename_i scanned
        split at run
        · cases run
          exact absurd rfl (accepted _)
        · split at run
          · cases run
            exact absurd rfl (accepted _)
          · have buffer : Buffer ⟨ctx, mem, []⟩ := ⟨fun zero => header (Or.inl zero), fits,
              Nat.le_of_not_lt fun short => header (Or.inr short)⟩
            exact passes_inBounds buffer (fun zero => table (Or.inr (Or.inl zero))) firmware rfl
              scanned run accepted

end Exact

/-- A file with one segment of 16 bytes, which are at this offset. -/
def smallFile (pOffset : Nat) : Bytes :=
  [(16, 2, 2), (32, 8, 64), (54, 2, 56), (56, 2, 1), (64, 4, 1), (72, 8, pOffset),
    (80, 8, limineHigherHalfBase), (96, 8, 16), (104, 8, 16)].foldl
    (fun mem field => writeLe mem (0x10000 + field.1) field.2.1 field.2.2) fun _ => 0

def smallCtx : LimineCtx := { fileData := 0x10000, fileSize := 120 }

def smallImage (n : Nat) : Except EfiStatus Nat :=
  if n ≤ 0x10 then .ok 0x200000 else .error .outOfResources

theorem limineLoadElf_inBounds_small : (limineLoadElf 0 smallImage smallCtx (smallFile 0)).1.InBounds := by
  have success : (limineLoadElf 0 smallImage smallCtx (smallFile 0)).2 = .success := by decide +kernel
  refine (limineLoadElf_inBounds_iff (by decide) ?_ ?_).mpr ⟨by decide +kernel, by decide +kernel⟩
  · intro n image allocated
    unfold smallImage at allocated
    split at allocated
    · cases allocated
      refine ⟨by decide, ?_, Or.inr (by decide)⟩
      unfold liminePageSize
      omega
    · cases allocated
  · intro status failed
    rw [success] at failed
    cases failed

/-- An offset just below `2 ^ 64` passes the check, and the segment is copied from below the file. -/
theorem limineLoadElf_outOfBounds :
    (limineLoadElf 0 smallImage smallCtx (smallFile (2 ^ 64 - 16))).2 = .success ∧
      ¬(limineLoadElf 0 smallImage smallCtx (smallFile (2 ^ 64 - 16))).1.InBounds := by
  refine ⟨by decide +kernel, ?_⟩
  intro h
  have mem : Access.copySource 0xfff0 16 ∈
      (limineLoadElf 0 smallImage smallCtx (smallFile (2 ^ 64 - 16))).1.accesses := by decide +kernel
  have data : (limineLoadElf 0 smallImage smallCtx (smallFile (2 ^ 64 - 16))).1.ctx.fileData = 0x10000 := by
    decide +kernel
  have first := h _ mem 0 (by decide)
  rw [data] at first
  exact absurd first.1 (by decide)

end Meridian.Limine
