import Meridian.Limine.Context
import Meridian.Lib.Coalesce

/-!
# The memory map for the kernel

`LimineFillMemmap` of `loaders/limine/requests.c`: the firmware's descriptors become the entries
of the memory map response. The entries are the coalesced spans of the descriptors under the
reported types, so their properties come from `Lib.Coalesce`.
-/

namespace Meridian.Limine

open Lib.Word Lib.Coalesce

/-- The `LIMINE_MEMMAP_*` types the loader reports. -/
inductive LimineMemmapType where
  | usable | reserved | acpiReclaimable | acpiNvs | badMemory | bootloaderReclaimable
  | executableAndModules
  deriving DecidableEq, Repr

/-- The fields of `EFI_MEMORY_DESCRIPTOR` that the loader reads. -/
structure EfiMemoryDescriptor where
  type : Nat
  physicalStart : Nat
  numberOfPages : Nat
  deriving DecidableEq, Repr

/-- The firmware's memory map: a buffer of `mapSize` bytes with a descriptor at every multiple of
`descSize`. -/
structure EfiMemoryMap where
  mapSize : Nat
  descSize : Nat
  desc : Nat → EfiMemoryDescriptor
  descSize_pos : 0 < descSize

def EfiMemoryMap.descriptors (map : EfiMemoryMap) : List EfiMemoryDescriptor :=
  (List.range (map.mapSize / map.descSize)).map fun i => map.desc (i * map.descSize)

structure LimineMemmapEntry where
  base : Nat
  length : Nat
  type : LimineMemmapType
  deriving DecidableEq, Repr

structure LimineMemmapResponse where
  entryCount : Nat := 0
  entries : Nat := 0
  deriving DecidableEq, Repr

structure LimineEfiMemmapResponse where
  memmap : Nat := 0
  memmapSize : Nat := 0
  descSize : Nat := 0
  descVersion : Nat := 0
  deriving DecidableEq, Repr

/-- `EFI_MEMORY_DESCRIPTOR_VERSION`. -/
def efiMemoryDescriptorVersion : Nat := 1

/-- `sizeof(LIMINE_MEMMAP_ENTRY)`. -/
def limineMemmapEntrySize : Nat := 24

/-- The Limine type of an `EFI_MEMORY_TYPE`. -/
def limineTypeFromEfi : Nat → LimineMemmapType
  | 7 => .usable  -- EfiConventionalMemory
  | 1 | 2 | 3 | 4 => .bootloaderReclaimable  -- loader and boot services, code and data
  | 9 => .acpiReclaimable  -- EfiACPIReclaimMemory
  | 10 => .acpiNvs  -- EfiACPIMemoryNVS
  | 8 => .badMemory  -- EfiUnusableMemory
  | _ => .reserved

def overlaps (base length start size : Nat) : Bool :=
  decide (start ≠ 0) && decide (base < u64 (start + size)) && decide (u64 (base + length) > start)

/-- The type of the descriptor's range `base`, `length`. -/
def entryType (ctx : LimineCtx) (desc : EfiMemoryDescriptor) (base length : Nat) :
    LimineMemmapType :=
  if overlaps base length ctx.imagePhys ctx.imageSize ||
      overlaps base length ctx.execFilePhys (u64 (ctx.execFilePages * liminePageSize)) then
    .executableAndModules
  else limineTypeFromEfi desc.type

/-- The loop body for one descriptor. -/
def fillEntry (ctx : LimineCtx) (entries : List LimineMemmapEntry) (desc : EfiMemoryDescriptor) :
    List LimineMemmapEntry :=
  if desc.numberOfPages = 0 then entries
  else
    let base := desc.physicalStart
    let length := u64 (desc.numberOfPages * liminePageSize)
    let type := entryType ctx desc base length
    match entries.getLast? with
    | some last =>
      if last.type = type ∧ u64 (last.base + last.length) = base then
        entries.dropLast ++ [{ last with length := u64 (last.length + length) }]
      else entries ++ [⟨base, length, type⟩]
    | none => [⟨base, length, type⟩]

/-- The loop over the descriptors, which stops when the entries reserved for it are used up. -/
def fillEntries (ctx : LimineCtx) :
    List EfiMemoryDescriptor → List LimineMemmapEntry → List LimineMemmapEntry
  | [], entries => entries
  | desc :: descs, entries =>
    if entries.length < ctx.memmapMaxEntries then fillEntries ctx descs (fillEntry ctx entries desc)
    else entries

/-- What `LimineFillMemmap` writes: the arrays of entries and of pointers to them, the memory map
response, and the response with the firmware's own map. -/
structure MemmapFill where
  entries : List LimineMemmapEntry
  pointers : List Nat
  response : LimineMemmapResponse
  efi : Option LimineEfiMemmapResponse

def limineFillMemmap (ctx : LimineCtx) (map : EfiMemoryMap) : Option MemmapFill :=
  if ctx.memmapResponse = 0 ∨ ctx.memmapEntries = 0 ∨ ctx.memmapPointers = 0 then none
  else
    let entries := fillEntries ctx map.descriptors []
    some {
      entries := entries
      pointers := (List.range entries.length).map fun i =>
        toVirt ctx (ctx.memmapEntries + i * limineMemmapEntrySize)
      response := { entryCount := entries.length, entries := toVirt ctx ctx.memmapPointers }
      efi :=
        if ctx.efiMemmapResponse ≠ 0 ∧ ctx.efiMemmapBuffer ≠ 0 then
          some {
            memmap := toVirt ctx ctx.efiMemmapBuffer
            memmapSize := map.mapSize
            descSize := map.descSize
            descVersion := efiMemoryDescriptorVersion }
        else none }

/-! ### The map the kernel should see -/

def LimineMemmapEntry.bytes (e : LimineMemmapEntry) : Set Nat := {a | e.base ≤ a ∧ a < e.base + e.length}

/-- The end of the descriptor's range. -/
def EfiMemoryDescriptor.limit (d : EfiMemoryDescriptor) : Nat :=
  d.physicalStart + d.numberOfPages * liminePageSize

def EfiMemoryDescriptor.bytes (d : EfiMemoryDescriptor) : Set Nat := {a | d.physicalStart ≤ a ∧ a < d.limit}

/-- The kernel's image or the copy of its file: nowhere when its address is null. -/
structure Placement where
  start : Nat
  size : Nat

def Placement.bytes (p : Placement) : Set Nat := {a | p.start ≠ 0 ∧ p.start ≤ a ∧ a < p.start + p.size}

def LimineCtx.image (ctx : LimineCtx) : Placement := ⟨ctx.imagePhys, ctx.imageSize⟩

def LimineCtx.execFile (ctx : LimineCtx) : Placement :=
  ⟨ctx.execFilePhys, ctx.execFilePages * liminePageSize⟩

/-- The descriptor's range and the placement have an address in common. -/
def EfiMemoryDescriptor.Meets (d : EfiMemoryDescriptor) (p : Placement) : Prop :=
  p.start ≠ 0 ∧ d.physicalStart < p.start + p.size ∧ p.start < d.limit

instance (d : EfiMemoryDescriptor) (p : Placement) : Decidable (d.Meets p) :=
  inferInstanceAs (Decidable (_ ∧ _ ∧ _))

/-- The type the kernel should see for the bytes of a descriptor. -/
def reportedType (ctx : LimineCtx) (d : EfiMemoryDescriptor) : LimineMemmapType :=
  if d.Meets ctx.image ∨ d.Meets ctx.execFile then .executableAndModules
  else limineTypeFromEfi d.type

/-- The entries are a correct memory map of the descriptors. -/
structure CorrectMap (ctx : LimineCtx) (descs : List EfiMemoryDescriptor)
    (entries : List LimineMemmapEntry) : Prop where
  disjoint : entries.Pairwise fun e f => Disjoint e.bytes f.bytes
  order : entries.Pairwise fun e f => ∀ a ∈ e.bytes, ∀ b ∈ f.bytes, ∃ before after,
    descs = before ++ after ∧ (∃ d ∈ before, a ∈ d.bytes) ∧ ∃ d ∈ after, b ∈ d.bytes
  covers : ∀ a type, (∃ e ∈ entries, a ∈ e.bytes ∧ e.type = type) ↔
    ∃ d ∈ descs, a ∈ d.bytes ∧ reportedType ctx d = type
  separate : entries.IsChain fun e f => ¬(e.type = f.type ∧ e.base + e.length = f.base)
  executable : ∀ e ∈ entries, ∀ a ∈ e.bytes, a ∈ ctx.image.bytes ∪ ctx.execFile.bytes →
    e.type = .executableAndModules

/-! ### The loop pushes spans -/

section Spans

variable {ctx : LimineCtx} {d : EfiMemoryDescriptor}

def LimineMemmapEntry.span (e : LimineMemmapEntry) : Span LimineMemmapType :=
  ⟨e.base, e.length, e.type⟩

/-- A descriptor that the loop does not skip, as a span under its reported type. -/
def EfiMemoryDescriptor.span (ctx : LimineCtx) (d : EfiMemoryDescriptor) :
    Option (Span LimineMemmapType) :=
  if d.numberOfPages = 0 then none
  else some ⟨d.physicalStart, d.numberOfPages * liminePageSize, reportedType ctx d⟩

def spans (ctx : LimineCtx) (descs : List EfiMemoryDescriptor) : List (Span LimineMemmapType) :=
  descs.filterMap fun d => d.span ctx

theorem span_eq_some {s : Span LimineMemmapType} (h : d.span ctx = some s) :
    s.bytes = d.bytes ∧ s.label = reportedType ctx d := by
  unfold EfiMemoryDescriptor.span at h
  split at h
  · cases h
  · cases h
    exact ⟨rfl, rfl⟩

theorem exists_span {a : Nat} (h : a ∈ d.bytes) : ∃ s, d.span ctx = some s := by
  unfold EfiMemoryDescriptor.span
  split
  · rename_i empty
    obtain ⟨above, below⟩ := h
    rw [EfiMemoryDescriptor.limit, empty] at below
    omega
  · exact ⟨_, rfl⟩

theorem mem_spans {descs : List EfiMemoryDescriptor} {a : Nat} {type : LimineMemmapType} :
    (∃ s ∈ spans ctx descs, a ∈ s.bytes ∧ s.label = type) ↔
      ∃ d ∈ descs, a ∈ d.bytes ∧ reportedType ctx d = type := by
  simp only [spans, List.mem_filterMap]
  constructor
  · rintro ⟨s, ⟨d, mem, eq⟩, inside, rfl⟩
    obtain ⟨bytes, label⟩ := span_eq_some eq
    exact ⟨d, mem, bytes ▸ inside, label.symm⟩
  · rintro ⟨d, mem, inside, rfl⟩
    obtain ⟨s, eq⟩ : ∃ s, d.span ctx = some s := exists_span inside
    obtain ⟨bytes, label⟩ := span_eq_some eq
    exact ⟨s, ⟨d, mem, eq⟩, bytes ▸ inside, label⟩

theorem mem_spans_bytes {descs : List EfiMemoryDescriptor} {a : Nat}
    (h : ∃ s ∈ spans ctx descs, a ∈ s.bytes) : ∃ d ∈ descs, a ∈ d.bytes := by
  obtain ⟨s, mem, inside⟩ := h
  obtain ⟨d, memD, inD, _⟩ := mem_spans.mp ⟨s, mem, inside, rfl⟩
  exact ⟨d, memD, inD⟩

/-- The tests of the code, in words, decide the meeting of ranges that do not wrap. -/
theorem overlaps_iff {p : Placement} (range : d.limit < 2 ^ 64) (place : p.start + p.size < 2 ^ 64) :
    overlaps d.physicalStart (d.numberOfPages * liminePageSize) p.start p.size = true ↔ d.Meets p := by
  have limit : u64 (d.physicalStart + d.numberOfPages * liminePageSize) = d.limit := u64_of_lt range
  simp [overlaps, EfiMemoryDescriptor.Meets, limit, u64_of_lt place, and_assoc]

/-- The kernel's image and the copy of its file end below the last address. -/
structure Placed (ctx : LimineCtx) : Prop where
  image : ctx.imagePhys + ctx.imageSize < 2 ^ 64
  execFile : ctx.execFilePhys + ctx.execFilePages * liminePageSize < 2 ^ 64

theorem entryType_eq (placed : Placed ctx) (range : d.limit < 2 ^ 64) :
    entryType ctx d d.physicalStart (d.numberOfPages * liminePageSize) = reportedType ctx d := by
  have pages : u64 (ctx.execFilePages * liminePageSize) = ctx.execFilePages * liminePageSize :=
    u64_of_lt (by have := placed.execFile; omega)
  have image := overlaps_iff (p := ctx.image) range placed.image
  have file := overlaps_iff (p := ctx.execFile) range placed.execFile
  simp only [LimineCtx.image, LimineCtx.execFile] at image file
  refine if_congr ?_ rfl rfl
  rw [pages, Bool.or_eq_true, image, file]
  rfl

/-- No entry reaches the end of the address space. -/
def Bounded (entries : List LimineMemmapEntry) : Prop :=
  ∀ e ∈ entries, e.base + e.length < 2 ^ 64

/-- One iteration pushes the descriptor's span, if it has one. -/
theorem fillEntry_spec (placed : Placed ctx) (range : d.limit < 2 ^ 64)
    {entries : List LimineMemmapEntry} (bounded : Bounded entries) :
    (fillEntry ctx entries d).map LimineMemmapEntry.span =
        (d.span ctx).elim (entries.map LimineMemmapEntry.span)
          (push (entries.map LimineMemmapEntry.span)) ∧
      Bounded (fillEntry ctx entries d) := by
  unfold fillEntry EfiMemoryDescriptor.span
  split
  · exact ⟨rfl, bounded⟩
  · have length : u64 (d.numberOfPages * liminePageSize) = d.numberOfPages * liminePageSize :=
      u64_of_lt (by unfold EfiMemoryDescriptor.limit at range; omega)
    simp only [length, entryType_eq placed range, Option.elim_some]
    have fresh : d.physicalStart + d.numberOfPages * liminePageSize < 2 ^ 64 := range
    rcases List.eq_nil_or_concat entries with rfl | ⟨init, last, rfl⟩
    · exact ⟨rfl, by simpa [Bounded] using fresh⟩
    · rw [List.concat_eq_append] at bounded ⊢
      have lastBound := bounded last (by simp)
      have initBound : Bounded init := fun e mem => bounded e (List.mem_append_left _ mem)
      simp only [List.getLast?_append, List.getLast?_singleton, Option.some_or, List.dropLast_concat,
        List.map_append, List.map_singleton, push_concat, u64_of_lt lastBound]
      by_cases continues : last.span.Continues
        ⟨d.physicalStart, d.numberOfPages * liminePageSize, reportedType ctx d⟩
      · obtain ⟨type, meet⟩ := continues
        simp only [LimineMemmapEntry.span] at type meet
        have sum : u64 (last.length + d.numberOfPages * liminePageSize) =
            last.length + d.numberOfPages * liminePageSize := u64_of_lt (by omega)
        rw [if_pos ⟨type, meet⟩, if_pos ⟨type, meet⟩, sum]
        refine ⟨by simp [LimineMemmapEntry.span, Span.extend], ?_⟩
        intro e mem
        rcases List.mem_append.mp mem with old | new
        · exact initBound e old
        · rw [List.mem_singleton.mp new]
          simp only
          omega
      · have apart : ¬(last.type = reportedType ctx d ∧ last.base + last.length = d.physicalStart) :=
          continues
        rw [if_neg apart, if_neg continues]
        refine ⟨by simp [LimineMemmapEntry.span], ?_⟩
        intro e mem
        rcases List.mem_append.mp mem with old | new
        · exact bounded e old
        · rw [List.mem_singleton.mp new]
          exact fresh

/-- The loop's invariant: the entries so far are the coalesced spans of the processed prefix. -/
structure Processed (ctx : LimineCtx) (descs : List EfiMemoryDescriptor)
    (entries : List LimineMemmapEntry) : Prop where
  coalesced : Coalesced (spans ctx descs) (entries.map LimineMemmapEntry.span)
  bounded : Bounded entries
  short : entries.length ≤ (spans ctx descs).length
  room : entries.length ≤ ctx.memmapMaxEntries

theorem Processed.step (placed : Placed ctx) (range : d.limit < 2 ^ 64)
    {descs : List EfiMemoryDescriptor} {entries : List LimineMemmapEntry}
    (h : Processed ctx descs entries) (room : entries.length < ctx.memmapMaxEntries) :
    Processed ctx (descs ++ [d]) (fillEntry ctx entries d) := by
  obtain ⟨pushed, bounded⟩ := fillEntry_spec placed range h.bounded
  have length := congrArg List.length pushed
  rw [List.length_map] at length
  have short := h.short
  cases span : d.span ctx with
  | none =>
    simp only [span, Option.elim_none, List.length_map] at pushed length
    have same : spans ctx (descs ++ [d]) = spans ctx descs := by simp [spans, span]
    exact ⟨by rw [same, pushed]; exact h.coalesced, bounded, by rw [same, length]; exact short,
      by omega⟩
  | some s =>
    simp only [span, Option.elim_some] at pushed length
    have grown : spans ctx (descs ++ [d]) = spans ctx descs ++ [s] := by simp [spans, span]
    have atMost := length_push_le (entries.map LimineMemmapEntry.span) s
    rw [List.length_map] at atMost
    exact ⟨by rw [grown, pushed]; exact h.coalesced.push s, bounded,
      by rw [grown, List.length_append, List.length_singleton]; omega, by omega⟩

/-- The loop processes a prefix; it stops before the end only when every entry is used. -/
theorem fillEntries_processed (placed : Placed ctx) (todo : List EfiMemoryDescriptor) :
    ∀ (done : List EfiMemoryDescriptor) (entries : List LimineMemmapEntry),
      (∀ d ∈ todo, d.limit < 2 ^ 64) → Processed ctx done entries →
      ∃ more rest, todo = more ++ rest ∧
        Processed ctx (done ++ more) (fillEntries ctx todo entries) ∧
        (rest ≠ [] → (fillEntries ctx todo entries).length = ctx.memmapMaxEntries) := by
  induction todo with
  | nil =>
    intro done entries _ processed
    exact ⟨[], [], rfl, by simpa [fillEntries] using processed, by simp⟩
  | cons d todo ih =>
    intro done entries ranges processed
    unfold fillEntries
    split
    · rename_i room
      obtain ⟨more, rest, rfl, result, stopped⟩ :=
        ih (done ++ [d]) (fillEntry ctx entries d) (fun e mem => ranges e (List.mem_cons_of_mem d mem))
          (processed.step placed (ranges d List.mem_cons_self) room)
      exact ⟨d :: more, rest, rfl, by simpa using result, stopped⟩
    · rename_i full
      exact ⟨[], d :: todo, rfl, by simpa using processed,
        fun _ => Nat.le_antisymm processed.room (Nat.le_of_not_lt full)⟩

/-! ### Coalesced spans are a correct map -/

theorem meets_of_mem {p : Placement} {a : Nat} (inRange : a ∈ d.bytes) (inPlace : a ∈ p.bytes) :
    d.Meets p := by
  obtain ⟨above, below⟩ := inRange
  obtain ⟨present, start, stop⟩ := inPlace
  exact ⟨present, by omega, by omega⟩

theorem order_of_precedes {descs : List EfiMemoryDescriptor} {a b : Nat}
    (h : Coalesced.Precedes (spans ctx descs) a b) :
    ∃ before after, descs = before ++ after ∧ (∃ d ∈ before, a ∈ d.bytes) ∧
      ∃ d ∈ after, b ∈ d.bytes := by
  obtain ⟨before, after, split, inBefore, inAfter⟩ := h
  obtain ⟨first, second, rfl, rfl, rfl⟩ := List.filterMap_eq_append_iff.mp split
  exact ⟨first, second, rfl, mem_spans_bytes inBefore, mem_spans_bytes inAfter⟩

theorem correctMap_of_coalesced {descs : List EfiMemoryDescriptor}
    {entries : List LimineMemmapEntry}
    (h : Coalesced (spans ctx descs) (entries.map LimineMemmapEntry.span))
    (apart : descs.Pairwise fun d e => Disjoint d.bytes e.bytes) : CorrectMap ctx descs entries := by
  have covers : ∀ a type, (∃ e ∈ entries, a ∈ e.bytes ∧ e.type = type) ↔
      ∃ d ∈ descs, a ∈ d.bytes ∧ reportedType ctx d = type := by
    intro a type
    rw [← mem_spans, ← h.covers a type]
    simp only [List.mem_map, exists_exists_and_eq_and]
    rfl
  refine ⟨?_, ?_, covers, ?_, ?_⟩
  · have parts : (spans ctx descs).Pairwise fun s t => Disjoint s.bytes t.bytes := by
      rw [spans, List.pairwise_filterMap]
      refine apart.imp fun {d e} disjoint s spanD t spanE => ?_
      rw [(span_eq_some spanD).1, (span_eq_some spanE).1]
      exact disjoint
    have joined := h.disjoint parts
    rw [List.pairwise_map] at joined
    exact joined
  · refine (List.pairwise_map.mp h.order).imp fun {e f} precedes a inE b inF => ?_
    exact order_of_precedes (precedes a inE b inF)
  · exact (List.isChain_map _).mp h.2
  · intro e mem a inside placed
    obtain ⟨d, _, inD, type⟩ := (covers a e.type).mp ⟨e, mem, inside, rfl⟩
    have meets : d.Meets ctx.image ∨ d.Meets ctx.execFile :=
      placed.imp (meets_of_mem inD) (meets_of_mem inD)
    rw [← type, reportedType, if_pos meets]

theorem length_spans (ctx : LimineCtx) (descs : List EfiMemoryDescriptor) :
    (spans ctx descs).length = (descs.filter fun d => d.numberOfPages ≠ 0).length := by
  induction descs with
  | nil => rfl
  | cons d descs ih =>
    by_cases empty : d.numberOfPages = 0
    · simpa [spans, EfiMemoryDescriptor.span, empty] using ih
    · simpa [spans, EfiMemoryDescriptor.span, empty] using ih

end Spans

theorem disjoint_of_limit_le {d e : EfiMemoryDescriptor} (h : d.limit ≤ e.physicalStart) :
    Disjoint d.bytes e.bytes := by
  rw [Set.disjoint_left]
  intro a inD inE
  have below := inD.2
  have above := inE.1
  omega

/-- Two ranges of free memory with an empty descriptor between them. -/
def freeRanges : EfiMemoryMap where
  mapSize := 144
  descSize := 48
  desc offset :=
    if offset = 0 then ⟨7, 0x1000, 4⟩ else if offset = 48 then ⟨1, 0x5000, 0⟩ else ⟨7, 0x5000, 3⟩
  descSize_pos := by decide

/-- A context with the kernel's image in the second range. -/
def imageCtx : LimineCtx :=
  { imagePhys := 0x6000, imageSize := 0x1000, memmapResponse := 8, memmapEntries := 32
    memmapPointers := 80, memmapMaxEntries := 2 }

end Meridian.Limine
