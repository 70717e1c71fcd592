import Meridian.Limine.Elf

/-!
# The passes of the ELF loader

Where each loop over the program headers reads and writes. As long as every access was in bounds the
file in memory is as it was (`Intact`), so the second pass and the search for relocations read the
headers that the first pass did.
-/

namespace Meridian.Limine

open Lib.Word Lib.Memory

/-- Headers are read and segments copied from the file, and only the image is written. -/
def Access.InBounds (ctx : LimineCtx) : Access → Prop
  | .header addr => Inside addr elf64PhdrSize ctx.fileData ctx.fileSize
  | .copySource addr size => Inside addr size ctx.fileData ctx.fileSize
  | .copyTarget addr size => Inside addr size ctx.imagePhys ctx.imageSize
  | .zeroFill addr size => Inside addr size ctx.imagePhys ctx.imageSize

def ElfState.InBounds (st : ElfState) : Prop := ∀ access ∈ st.accesses, access.InBounds st.ctx

namespace ElfState

/-- The program header with an index, as the file has it when the loader starts. -/
def phdr (start : ElfState) (i : Nat) : Elf64Phdr :=
  readPhdr start.mem (phdrAddr (u64 (start.ctx.fileData + start.ePhoff)) i)

def loadedSegments (start : ElfState) : List Elf64Phdr :=
  ((List.range start.ePhnum).map start.phdr).filter Elf64Phdr.loaded

/-- The page of the lowest virtual address. -/
def lowestPage (start : ElfState) : Nat :=
  (start.loadedSegments.map Elf64Phdr.pVaddr).foldl min (2 ^ 64 - 1) / 4096 * 4096

/-- The greatest end of a segment, in 64-bit words. -/
def greatestEnd (start : ElfState) : Nat :=
  (start.loadedSegments.map fun ph => (ph.pVaddr + ph.pMemsz) % 2 ^ 64).foldl max 0

/-- From the lowest page up to the page boundary at or above the greatest end, in 64-bit words. -/
def spanSize (start : ElfState) : Nat :=
  ((start.greatestEnd + 4095) % 2 ^ 64 / 4096 * 4096 + 2 ^ 64 - start.lowestPage) % 2 ^ 64

/-- The header table and the bytes of every segment are in the file, and a segment's bytes in the
span, by sums that do not wrap. -/
structure SumsFit (start : ElfState) : Prop where
  headers : start.ePhoff + elf64PhdrSize * start.ePhnum ≤ start.ctx.fileSize
  segments : ∀ ph ∈ start.loadedSegments, ph.pFilesz ≠ 0 →
    ph.pOffset + ph.pFilesz ≤ start.ctx.fileSize ∧
      ph.pVaddr - start.lowestPage + ph.pFilesz ≤ start.spanSize

end ElfState

variable {start st : ElfState} {phdrs minVaddr left i : Nat}

/-! ### The file stays as it was -/

/-- The file in memory is still the one that the loader started with. -/
structure Intact (start st : ElfState) : Prop where
  data : st.ctx.fileData = start.ctx.fileData
  size : st.ctx.fileSize = start.ctx.fileSize
  agree : Agree start.mem st.mem start.ctx.fileData start.ctx.fileSize

/-- The file is a buffer that starts with a header. -/
structure Buffer (start : ElfState) : Prop where
  positive : start.ctx.fileData ≠ 0
  fits : start.ctx.fileData + start.ctx.fileSize ≤ 2 ^ 64
  header : elf64EhdrSize ≤ start.ctx.fileSize

theorem phdrAddr_eq (base off i : Nat) :
    phdrAddr (u64 (base + off)) i = u64 (base + (off + elf64PhdrSize * i)) := by
  unfold phdrAddr u64
  rw [Nat.mod_add_mod, Nat.add_assoc]

section File

variable (buffer : Buffer start)

include buffer

theorem Intact.ePhnum (h : Intact start st) : st.ePhnum = start.ePhnum := by
  have header := buffer.header
  have fits := buffer.fits
  have positive := buffer.positive
  unfold elf64EhdrSize at header
  unfold ElfState.ePhnum
  rw [h.data]
  refine h.agree.readLe_eq ?_
  exact (inside_iff fits (by omega) (by decide)).mpr (Or.inr (by omega))

variable (headers : start.ePhoff + elf64PhdrSize * start.ePhnum ≤ start.ctx.fileSize)

include headers

theorem header_inside (below : i < start.ePhnum) :
    Inside (phdrAddr (u64 (start.ctx.fileData + start.ePhoff)) i) elf64PhdrSize start.ctx.fileData
      start.ctx.fileSize := by
  have fits := buffer.fits
  have positive := buffer.positive
  have table : elf64PhdrSize * (i + 1) ≤ elf64PhdrSize * start.ePhnum := Nat.mul_le_mul_left _ below
  rw [Nat.mul_succ] at table
  rw [phdrAddr_eq, Inside.u64]
  exact (inside_iff fits (by omega) (by omega)).mpr (Or.inr (by omega))

/-- The second pass reads the headers of the file. -/
theorem Intact.phdr (h : Intact start st) (below : i < start.ePhnum) :
    readPhdr st.mem (phdrAddr (u64 (start.ctx.fileData + start.ePhoff)) i) = start.phdr i := by
  have inside := header_inside buffer headers below
  have field : ∀ o n, o + n ≤ elf64PhdrSize →
      readLe st.mem (phdrAddr (u64 (start.ctx.fileData + start.ePhoff)) i + o) n =
        readLe start.mem (phdrAddr (u64 (start.ctx.fileData + start.ePhoff)) i + o) n :=
    fun o n within => h.agree.readLe_eq (inside.part within)
  unfold ElfState.phdr readPhdr
  rw [field 8 8 (by decide), field 16 8 (by decide), field 32 8 (by decide), field 40 8 (by decide)]
  congr 1
  exact field 0 4 (by decide)

end File

/-! ### The first pass -/

/-- The accesses to the headers from an index on. -/
def headerAccesses (phdrs i count : Nat) : List Access :=
  (List.range' i (count - i)).map fun j => .header (phdrAddr phdrs j)

/-- The segments from an index on. -/
def segmentsFrom (mem : Bytes) (phdrs i count : Nat) : List Elf64Phdr :=
  ((List.range' i (count - i)).map fun j => readPhdr mem (phdrAddr phdrs j)).filter Elf64Phdr.loaded

theorem range'_of_lt {count : Nat} (h : i < count) :
    List.range' i (count - i) = i :: List.range' (i + 1) (count - (i + 1)) := by
  rw [show count - i = count - (i + 1) + 1 by omega, List.range'_succ]

/-- The first pass reads every header and adds up the segments. -/
theorem scanHeaders_spec {span span' : ElfSpan} {st' : ElfState} (enough : st.ePhnum ≤ left + i)
    (eq : scanHeaders phdrs left i span st = (st', some span')) :
    st' = st.record (headerAccesses phdrs i st.ePhnum) ∧
      span' = (segmentsFrom st.mem phdrs i st.ePhnum).foldl ElfSpan.add span := by
  induction left generalizing i span st with
  | zero =>
    have done : st.ePhnum - i = 0 := by omega
    cases eq
    unfold headerAccesses segmentsFrom
    rw [done]
    exact ⟨by simp [ElfState.record], rfl⟩
  | succ left ih =>
    unfold scanHeaders at eq
    split at eq
    · rename_i below
      have accesses : headerAccesses phdrs i st.ePhnum =
          .header (phdrAddr phdrs i) :: headerAccesses phdrs (i + 1) st.ePhnum := by
        unfold headerAccesses
        rw [range'_of_lt below, List.map_cons]
      dsimp only at eq
      split at eq
      · rename_i skipped
        obtain ⟨rfl, rfl⟩ := ih (by simp only [ElfState.ePhnum, ElfState.record] at enough ⊢; omega) eq
        refine ⟨?_, ?_⟩
        · rw [accesses]
          simp [ElfState.record, ElfState.ePhnum]
        · unfold segmentsFrom
          rw [range'_of_lt below, List.map_cons, List.filter_cons_of_neg (by simpa using skipped)]
          rfl
      · rename_i loaded
        split at eq
        · cases eq
        · obtain ⟨rfl, rfl⟩ := ih (by simp only [ElfState.ePhnum, ElfState.record] at enough ⊢; omega) eq
          refine ⟨?_, ?_⟩
          · rw [accesses]
            simp [ElfState.record, ElfState.ePhnum]
          · unfold segmentsFrom
            rw [range'_of_lt below, List.map_cons, List.filter_cons_of_pos (by simpa using loaded)]
            rfl
    · rename_i past
      have done : st.ePhnum - i = 0 := by omega
      cases eq
      unfold headerAccesses segmentsFrom
      rw [done]
      exact ⟨by simp [ElfState.record], rfl⟩

theorem foldl_add_minVaddr (segments : List Elf64Phdr) (span : ElfSpan) :
    (segments.foldl ElfSpan.add span).minVaddr =
      (segments.map Elf64Phdr.pVaddr).foldl min span.minVaddr := by
  induction segments generalizing span with
  | nil => rfl
  | cons ph segments ih =>
    rw [List.foldl_cons, ih, List.map_cons, List.foldl_cons]
    congr 1
    unfold ElfSpan.add
    dsimp only
    split <;> omega

theorem foldl_add_maxVaddr (segments : List Elf64Phdr) (span : ElfSpan) :
    (segments.foldl ElfSpan.add span).maxVaddr =
      (segments.map fun ph => (ph.pVaddr + ph.pMemsz) % 2 ^ 64).foldl max span.maxVaddr := by
  induction segments generalizing span with
  | nil => rfl
  | cons ph segments ih =>
    rw [List.foldl_cons, ih, List.map_cons, List.foldl_cons]
    congr 1
    unfold ElfSpan.add u64
    dsimp only
    split <;> omega

/-! ### The second pass -/

/-- The image's region, apart from the file. -/
structure ImageRegion (start st : ElfState) : Prop where
  fits : st.ctx.imagePhys + st.ctx.imageSize ≤ 2 ^ 64
  small : st.ctx.imageSize < 2 ^ 64
  disjoint : st.ctx.imagePhys + st.ctx.imageSize ≤ start.ctx.fileData ∨
    start.ctx.fileData + start.ctx.fileSize ≤ st.ctx.imagePhys

/-- The bytes of a segment are in the file, and their place in the image. -/
def SegmentFits (fileSize imageSize minVaddr : Nat) (ph : Elf64Phdr) : Prop :=
  ph.pFilesz ≠ 0 → ph.pOffset + ph.pFilesz ≤ fileSize ∧ ph.pVaddr - minVaddr + ph.pFilesz ≤ imageSize

theorem inBounds_record (st : ElfState) (accesses : List Access) :
    (st.record accesses).InBounds ↔ st.InBounds ∧ ∀ access ∈ accesses, access.InBounds st.ctx := by
  unfold ElfState.InBounds ElfState.record
  exact List.forall_mem_append

theorem phdr_lt (start : ElfState) (i : Nat) :
    (start.phdr i).pOffset < 2 ^ 64 ∧ (start.phdr i).pVaddr < 2 ^ 64 := by
  have word : (256 : Nat) ^ 8 = 2 ^ 64 := by norm_num
  rw [← word]
  exact ⟨readLe_lt _ _ 8, readLe_lt _ _ 8⟩

/-- The copy of a segment, as the second pass makes it. -/
def copySegment (st : ElfState) (minVaddr : Nat) (ph : Elf64Phdr) : ElfState :=
  st.copyMem (u64 (st.ctx.imagePhys + sub64 ph.pVaddr minVaddr)) (u64 (st.ctx.fileData + ph.pOffset))
    ph.pFilesz

theorem ctx_mk (ctx : LimineCtx) (mem : Bytes) (accesses : List Access) :
    (ElfState.mk ctx mem accesses).ctx = ctx := rfl

theorem mem_mk (ctx : LimineCtx) (mem : Bytes) (accesses : List Access) :
    (ElfState.mk ctx mem accesses).mem = mem := rfl

theorem accesses_mk (ctx : LimineCtx) (mem : Bytes) (accesses : List Access) :
    (ElfState.mk ctx mem accesses).accesses = accesses := rfl

theorem copySegment_eq (st : ElfState) (minVaddr : Nat) (ph : Elf64Phdr) :
    copySegment st minVaddr ph = ⟨st.ctx,
      copy st.mem (u64 (st.ctx.imagePhys + sub64 ph.pVaddr minVaddr)) (u64 (st.ctx.fileData + ph.pOffset))
        ph.pFilesz,
      st.accesses ++ [.copySource (u64 (st.ctx.fileData + ph.pOffset)) ph.pFilesz,
        .copyTarget (u64 (st.ctx.imagePhys + sub64 ph.pVaddr minVaddr)) ph.pFilesz]⟩ := rfl

theorem copySegments_succ (phdrs minVaddr left i : Nat) (st : ElfState) :
    copySegments phdrs minVaddr (left + 1) i st =
      if i < st.ePhnum then
        let ph := readPhdr st.mem (phdrAddr phdrs i)
        let st := st.record [.header (phdrAddr phdrs i)]
        copySegments phdrs minVaddr left (i + 1) (if ph.loaded then copySegment st minVaddr ph else st)
      else st := by
  rw [copySegments]
  split
  · dsimp only
    cases (readPhdr st.mem (phdrAddr phdrs i)).loaded <;> rfl
  · rfl

theorem copySegments_mono (phdrs minVaddr left i : Nat) (st : ElfState) :
    (copySegments phdrs minVaddr left i st).ctx = st.ctx ∧
      st.accesses <+: (copySegments phdrs minVaddr left i st).accesses := by
  induction left generalizing i st with
  | zero => exact ⟨rfl, List.prefix_refl _⟩
  | succ left ih =>
    rw [copySegments_succ]
    split
    · dsimp only
      generalize readPhdr st.mem (phdrAddr phdrs i) = ph
      have recorded : st.accesses <+: (st.record [.header (phdrAddr phdrs i)]).accesses :=
        List.prefix_append _ _
      cases ph.loaded with
      | false =>
        obtain ⟨ctx, later⟩ := ih (i + 1) (st.record [.header (phdrAddr phdrs i)])
        exact ⟨ctx, recorded.trans later⟩
      | true =>
        obtain ⟨ctx, later⟩ :=
          ih (i + 1) (copySegment (st.record [.header (phdrAddr phdrs i)]) minVaddr ph)
        have copied : (st.record [.header (phdrAddr phdrs i)]).accesses <+:
            (copySegment (st.record [.header (phdrAddr phdrs i)]) minVaddr ph).accesses := by
          rw [copySegment_eq]
          exact List.prefix_append _ _
        rw [if_pos rfl]
        refine ⟨ctx.trans ?_, recorded.trans (copied.trans later)⟩
        rw [copySegment_eq]
        rfl
    · exact ⟨rfl, List.prefix_refl _⟩

/-- What was in bounds before further accesses. -/
theorem InBounds.of_prefix {st' : ElfState} (ctx : st'.ctx = st.ctx)
    (earlier : st.accesses <+: st'.accesses) (h : st'.InBounds) : st.InBounds :=
  fun access mem => ctx ▸ h access (earlier.subset mem)

theorem forall_from {P : Nat → Prop} : (∀ j, i ≤ j → P j) ↔ P i ∧ ∀ j, i + 1 ≤ j → P j := by
  constructor
  · intro all
    exact ⟨all i (Nat.le_refl i), fun j from_ => all j (Nat.le_of_succ_le from_)⟩
  · rintro ⟨first, rest⟩ j from_
    rcases Nat.eq_or_lt_of_le from_ with rfl | later
    · exact first
    · exact rest j later

section Copy

variable (buffer : Buffer start)
  (headers : start.ePhoff + elf64PhdrSize * start.ePhnum ≤ start.ctx.fileSize)
  (region : ImageRegion start st) (intact : Intact start st)

include buffer region intact

theorem copySegment_inBounds (low : minVaddr ≤ (start.phdr i).pVaddr) :
    (copySegment st minVaddr (start.phdr i)).InBounds ↔ st.InBounds ∧
      SegmentFits start.ctx.fileSize st.ctx.imageSize minVaddr (start.phdr i) := by
  obtain ⟨offset, vaddr⟩ := phdr_lt start i
  have fits := buffer.fits
  have positive := buffer.positive
  have exact_ : sub64 (start.phdr i).pVaddr minVaddr = (start.phdr i).pVaddr - minVaddr :=
    sub64_of_le low vaddr
  have source : Inside (u64 (start.ctx.fileData + (start.phdr i).pOffset)) (start.phdr i).pFilesz
      start.ctx.fileData start.ctx.fileSize ↔ _ :=
    Inside.u64.trans (inside_iff fits (by omega) offset)
  have target : Inside (u64 (st.ctx.imagePhys + ((start.phdr i).pVaddr - minVaddr)))
      (start.phdr i).pFilesz st.ctx.imagePhys st.ctx.imageSize ↔ _ :=
    Inside.u64.trans (inside_iff region.fits region.small (by omega))
  unfold ElfState.InBounds
  rw [copySegment_eq, ctx_mk, accesses_mk, List.forall_mem_append]
  refine and_congr Iff.rfl ?_
  rw [exact_, List.forall_mem_cons, List.forall_mem_singleton]
  simp only [Access.InBounds, intact.data, intact.size, source, target]
  unfold SegmentFits
  omega

theorem copySegment_intact (low : minVaddr ≤ (start.phdr i).pVaddr)
    (segment : SegmentFits start.ctx.fileSize st.ctx.imageSize minVaddr (start.phdr i)) :
    Intact start (copySegment st minVaddr (start.phdr i)) := by
  obtain ⟨_, vaddr⟩ := phdr_lt start i
  have inside : Inside (st.ctx.imagePhys + sub64 (start.phdr i).pVaddr minVaddr) (start.phdr i).pFilesz
      st.ctx.imagePhys st.ctx.imageSize := by
    rw [sub64_of_le low vaddr]
    refine (inside_iff region.fits region.small (by omega)).mpr ?_
    by_cases empty : (start.phdr i).pFilesz = 0
    · exact Or.inl empty
    · exact Or.inr (segment empty).2
  rw [copySegment_eq]
  exact ⟨intact.data, intact.size, intact.agree.trans (agree_copy inside buffer.fits region.disjoint)⟩

include headers

omit region in
/-- Reading a header of the file is in bounds. -/
theorem header_inBounds (below : i < start.ePhnum) :
    (st.record [.header (phdrAddr (u64 (start.ctx.fileData + start.ePhoff)) i)]).InBounds ↔
      st.InBounds := by
  rw [inBounds_record, List.forall_mem_singleton]
  refine and_iff_left ?_
  unfold Access.InBounds
  rw [intact.data, intact.size]
  exact header_inside buffer headers below

/-- The second pass is in bounds exactly if it was before and every segment that is left fits. -/
theorem copySegments_inBounds
    (low : ∀ j < start.ePhnum, (start.phdr j).loaded = true → minVaddr ≤ (start.phdr j).pVaddr)
    (enough : start.ePhnum ≤ left + i) :
    let st' := copySegments (u64 (start.ctx.fileData + start.ePhoff)) minVaddr left i st
    (st'.InBounds ↔ st.InBounds ∧ ∀ j, i ≤ j → j < start.ePhnum → (start.phdr j).loaded = true →
      SegmentFits start.ctx.fileSize st.ctx.imageSize minVaddr (start.phdr j)) ∧
        (st'.InBounds → Intact start st') := by
  induction left generalizing i st with
  | zero =>
    refine ⟨⟨fun h => ⟨h, fun j from_ below => by omega⟩, fun h => h.1⟩, fun _ => intact⟩
  | succ left ih =>
    intro st'
    have unfolded : st' = _ := copySegments_succ _ minVaddr left i st
    rw [intact.ePhnum buffer] at unfolded
    by_cases below : i < start.ePhnum
    · rw [if_pos below, intact.phdr buffer headers below] at unfolded
      have recorded := header_inBounds buffer headers intact below
      have intact₁ : Intact start (st.record [.header (phdrAddr (u64 (start.ctx.fileData + start.ePhoff)) i)]) :=
        ⟨intact.data, intact.size, intact.agree⟩
      have region₁ : ImageRegion start (st.record [.header (phdrAddr (u64 (start.ctx.fileData + start.ePhoff)) i)]) :=
        ⟨region.fits, region.small, region.disjoint⟩
      have ctx₁ : (st.record [.header (phdrAddr (u64 (start.ctx.fileData + start.ePhoff)) i)]).ctx = st.ctx := rfl
      generalize st.record [.header (phdrAddr (u64 (start.ctx.fileData + start.ePhoff)) i)] = st₁ at *
      dsimp only at unfolded
      rw [← recorded, ← ctx₁, forall_from]
      cases loaded : (start.phdr i).loaded with
      | false =>
        obtain ⟨bounds, stays⟩ := ih (i := i + 1) region₁ intact₁ (by omega)
        rw [loaded, if_neg Bool.false_ne_true] at unfolded
        rw [unfolded]
        refine ⟨bounds.trans (and_congr_right fun _ => ?_), stays⟩
        rw [and_iff_right]
        intro _ loaded'
        cases loaded'
      | true =>
        rw [loaded, if_pos rfl] at unfolded
        have copied := copySegment_inBounds buffer region₁ intact₁ (low i below loaded)
        by_cases segment : SegmentFits start.ctx.fileSize st₁.ctx.imageSize minVaddr (start.phdr i)
        · have intact₂ := copySegment_intact buffer region₁ intact₁ (low i below loaded) segment
          have ctx₂ : (copySegment st₁ minVaddr (start.phdr i)).ctx = st₁.ctx := by rw [copySegment_eq]
          have region₂ : ImageRegion start (copySegment st₁ minVaddr (start.phdr i)) :=
            ⟨ctx₂ ▸ region₁.fits, ctx₂ ▸ region₁.small, ctx₂ ▸ region₁.disjoint⟩
          obtain ⟨bounds, stays⟩ := ih (i := i + 1) region₂ intact₂ (by omega)
          rw [unfolded]
          refine ⟨bounds.trans ?_, stays⟩
          rw [copied, ctx₂, and_iff_left segment, and_iff_right fun _ _ => segment]
        · -- The copy itself is out of bounds, whatever the rest of the loop does.
          have outside : ¬st'.InBounds := by
            intro h
            obtain ⟨ctx, earlier⟩ := copySegments_mono (u64 (start.ctx.fileData + start.ePhoff)) minVaddr
              left (i + 1) (copySegment st₁ minVaddr (start.phdr i))
            rw [unfolded] at h
            exact segment (copied.mp (InBounds.of_prefix ctx earlier h)).2
          exact ⟨⟨fun h => absurd h outside,
            fun all => absurd (all.2.1 below rfl) segment⟩, fun h => absurd h outside⟩
    · rw [if_neg below] at unfolded
      rw [unfolded]
      exact ⟨⟨fun h => ⟨h, fun j from_ below => by omega⟩, fun h => h.1⟩, fun _ => intact⟩

end Copy

/-! ### Relocations -/

theorem findRela_mono (phdrs left i : Nat) (table : RelaTable) (st : ElfState) :
    (findRela phdrs left i table st).1.ctx = st.ctx ∧
      st.accesses <+: (findRela phdrs left i table st).1.accesses := by
  induction left generalizing i table st with
  | zero => exact ⟨rfl, List.prefix_refl _⟩
  | succ left ih =>
    have recorded : st.accesses <+: (st.record [.header (phdrAddr phdrs i)]).accesses :=
      List.prefix_append _ _
    unfold findRela
    dsimp only
    split
    · split
      · obtain ⟨ctx, later⟩ := ih (i + 1) table (st.record [.header (phdrAddr phdrs i)])
        exact ⟨ctx, recorded.trans later⟩
      · obtain ⟨ctx, later⟩ := ih (i + 1) _ (st.record [.header (phdrAddr phdrs i)])
        exact ⟨ctx, recorded.trans later⟩
    · exact ⟨rfl, List.prefix_refl _⟩

/-- The search for the relocation table reads headers only, those of the file. -/
theorem findRela_inBounds (buffer : Buffer start)
    (headers : start.ePhoff + elf64PhdrSize * start.ePhnum ≤ start.ctx.fileSize)
    (intact : Intact start st) (table : RelaTable) :
    (findRela (u64 (start.ctx.fileData + start.ePhoff)) left i table st).1.InBounds ↔ st.InBounds := by
  induction left generalizing i table st with
  | zero => exact Iff.rfl
  | succ left ih =>
    unfold findRela
    dsimp only
    rw [intact.ePhnum buffer]
    split
    · rename_i below
      have recorded := header_inBounds buffer headers intact below
      have intact₁ : Intact start
          (st.record [.header (phdrAddr (u64 (start.ctx.fileData + start.ePhoff)) i)]) :=
        ⟨intact.data, intact.size, intact.agree⟩
      split
      · exact (ih intact₁ _).trans recorded
      · exact (ih intact₁ _).trans recorded
    · exact Iff.rfl

theorem relocate_accesses (table : RelaTable) (fuel j : Nat) (st : ElfState) :
    (relocate table fuel j st).1.ctx = st.ctx ∧ (relocate table fuel j st).1.accesses = st.accesses := by
  induction fuel generalizing j st with
  | zero => exact ⟨rfl, rfl⟩
  | succ fuel ih =>
    unfold relocate
    dsimp only
    split
    · split
      · exact ⟨rfl, rfl⟩
      · exact ih _ _
    · exact ⟨rfl, rfl⟩

theorem applyRelocations_accesses (fuel phdrs : Nat) (st : ElfState) :
    (applyRelocations fuel phdrs st).1.ctx = (findRela phdrs maxPhnum 0 {} st).1.ctx ∧
      (applyRelocations fuel phdrs st).1.accesses =
        (findRela phdrs maxPhnum 0 {} st).1.accesses := by
  unfold applyRelocations
  dsimp only
  split
  · exact ⟨rfl, rfl⟩
  · exact relocate_accesses _ _ _ _

end Meridian.Limine
