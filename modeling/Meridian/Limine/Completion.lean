import Meridian.Limine.Responses

/-!
# The memory map responses at the hand-off

The invariant of the search (`Arranged`): the context's two response pointers are those of
answered requests, and both kinds of response are still blank. `LimineFillMemmap` then completes
the responses the context points to, so that every one is complete exactly if no request was
answered after an earlier one of its kind, and no firmware map without a memory map
(`responses_complete_iff`).
-/

namespace Meridian.Limine

open Lib.Word

variable {env : Env} {st st' : LimineState} {req ptr : Nat} {response : LimineResponse}

/-- The memory map responses are blank until the hand-off. -/
def Blank : LimineResponse → Prop
  | .memmap r => r = {}
  | .efiMemmap r => r = {}
  | _ => True

/-- Every answer's response is where the answer says, in used memory of the arena. -/
structure Stored (st : LimineState) (a : Answer) : Prop where
  present : a.response ≠ 0
  below : a.response < st.frontier
  object : ∃ response, st.object a.response = some (.response response) ∧ response.kind = a.kind ∧
    Blank response

/-- The response is one that was answered to a request of the kind. -/
def Answered (st : LimineState) (kind : LimineRequestKind) (ptr : Nat) : Prop :=
  ∃ a ∈ st.answered, a.kind = kind ∧ a.response = ptr

/-- The arrays of the memory map are objects of their own. -/
structure Arrays (st : LimineState) : Prop where
  entries : st.ctx.memmapEntries ≠ 0
  pointers : st.ctx.memmapPointers ≠ 0
  apart : st.ctx.memmapEntries < st.ctx.memmapPointers
  below : st.ctx.memmapPointers < st.frontier
  unanswered : ∀ a ∈ st.answered,
    a.response ≠ st.ctx.memmapEntries ∧ a.response ≠ st.ctx.memmapPointers

structure Arranged (st : LimineState) : Prop where
  ok : ArenaOk st.ctx
  stored : ∀ a ∈ st.answered, Stored st a
  memmap : (st.ctx.memmapResponse = 0 ∧ ∀ ptr, ¬Answered st .memmap ptr) ∨
    (Answered st .memmap st.ctx.memmapResponse ∧ Arrays st)
  efiMemmap : (st.ctx.efiMemmapResponse = 0 ∧ ∀ ptr, ¬Answered st .efiMemmap ptr) ∨
    Answered st .efiMemmap st.ctx.efiMemmapResponse

theorem Stored.grows {a : Answer} (h : Stored st a) (grows : Grows st st') : Stored st' a := by
  obtain ⟨response, eq, kind, blank⟩ := h.object
  exact ⟨h.present, h.below.trans_le grows.frontier_le, response,
    (grows.kept _ h.below).trans eq, kind, blank⟩

theorem Answers.stored_new (h : Answers st st' req ptr response) (ok : ArenaOk st.ctx)
    (blank : Blank response) : Stored st' ⟨req, response.kind, ptr⟩ := by
  have above := h.above
  have present := ok.present
  unfold LimineState.frontier at above
  have nonzero : ptr ≠ 0 := by omega
  exact ⟨nonzero, h.below, response, h.stored, rfl, blank⟩

theorem Answers.stored_all (h : Answers st st' req ptr response) (arranged : Arranged st)
    (blank : Blank response) : ∀ a ∈ st'.answered, Stored st' a := by
  intro a mem
  rw [h.answered] at mem
  rcases List.mem_append.mp mem with old | new
  · exact (arranged.stored a old).grows h.toGrows
  · rw [List.mem_singleton.mp new]
    exact h.stored_new arranged.ok blank

theorem Answers.answered_iff (h : Answers st st' req ptr response) {kind : LimineRequestKind} {p : Nat} :
    Answered st' kind p ↔ Answered st kind p ∨ response.kind = kind ∧ ptr = p := by
  simp only [Answered, h.answered, List.mem_append, List.mem_singleton, or_and_right, exists_or,
    exists_eq_left]

theorem Quiet.answered_iff (h : Quiet st st') {kind : LimineRequestKind} {p : Nat} :
    Answered st' kind p ↔ Answered st kind p := by
  rw [Answered, Answered, h.answered]

/-- The arrays stay apart from every later response. -/
theorem Arrays.grows (h : Arrays st) (grows : Grows st st')
    (entries : st'.ctx.memmapEntries = st.ctx.memmapEntries)
    (pointers : st'.ctx.memmapPointers = st.ctx.memmapPointers)
    (later : ∀ a ∈ st'.answered, a ∈ st.answered ∨ st.frontier ≤ a.response) : Arrays st' := by
  have apart := h.apart
  have below := h.below
  refine ⟨entries ▸ h.entries, pointers ▸ h.pointers, by rw [entries, pointers]; exact apart, ?_, ?_⟩
  · rw [pointers]
    exact below.trans_le grows.frontier_le
  · intro a mem
    rw [entries, pointers]
    rcases later a mem with old | new
    · exact h.unanswered a old
    · exact ⟨by omega, by omega⟩

theorem Answers.later (h : Answers st st' req ptr response) :
    ∀ a ∈ st'.answered, a ∈ st.answered ∨ st.frontier ≤ a.response := by
  intro a mem
  rw [h.answered] at mem
  rcases List.mem_append.mp mem with old | new
  · exact Or.inl old
  · rw [List.mem_singleton.mp new]
    exact Or.inr h.above

/-! ### The step of the search -/

theorem Arranged.quiet (h : Arranged st) (quiet : Quiet st st') : Arranged st' := by
  have memmap : st'.ctx.memmapResponse = st.ctx.memmapResponse := congrArg Maps.memmapResponse quiet.maps
  have entries : st'.ctx.memmapEntries = st.ctx.memmapEntries := congrArg Maps.memmapEntries quiet.maps
  have pointers : st'.ctx.memmapPointers = st.ctx.memmapPointers := congrArg Maps.memmapPointers quiet.maps
  have efi : st'.ctx.efiMemmapResponse = st.ctx.efiMemmapResponse :=
    congrArg Maps.efiMemmapResponse quiet.maps
  refine ⟨quiet.toGrows.ok h.ok, ?_, ?_, ?_⟩
  · intro a mem
    rw [quiet.answered] at mem
    exact (h.stored a mem).grows quiet.toGrows
  · simp only [quiet.answered_iff, memmap]
    exact h.memmap.imp_right fun ⟨answered, arrays⟩ => ⟨answered,
      arrays.grows quiet.toGrows entries pointers fun a mem => Or.inl (quiet.answered ▸ mem)⟩
  · simp only [quiet.answered_iff, efi]
    exact h.efiMemmap

theorem Arranged.unmapped (h : Arranged st) (step : Unmapped st st') : Arranged st' := by
  rcases step with quiet | ⟨req, ptr, response, answers, notMemmap, notEfi, maps⟩
  · exact h.quiet quiet
  · have memmap : st'.ctx.memmapResponse = st.ctx.memmapResponse := congrArg Maps.memmapResponse maps
    have entries : st'.ctx.memmapEntries = st.ctx.memmapEntries := congrArg Maps.memmapEntries maps
    have pointers : st'.ctx.memmapPointers = st.ctx.memmapPointers := congrArg Maps.memmapPointers maps
    have efi : st'.ctx.efiMemmapResponse = st.ctx.efiMemmapResponse :=
      congrArg Maps.efiMemmapResponse maps
    have blank : Blank response := by
      cases response with
      | memmap r => exact absurd rfl notMemmap
      | efiMemmap r => exact absurd rfl notEfi
      | _ => trivial
    refine ⟨answers.toGrows.ok h.ok, answers.stored_all h blank, ?_, ?_⟩
    · simp only [answers.answered_iff, notMemmap, false_and, or_false, memmap]
      exact h.memmap.imp_right fun ⟨answered, arrays⟩ =>
        ⟨answered, arrays.grows answers.toGrows entries pointers answers.later⟩
    · simp only [answers.answered_iff, notEfi, false_and, or_false, efi]
      exact h.efiMemmap

theorem Arranged.reserved (h : Arranged st) {entries pointers : Nat}
    (step : Reserved st st' req ptr entries pointers) : Arranged st' := by
  have answers := step.answers
  have memmap : st'.ctx.memmapResponse = ptr := congrArg Maps.memmapResponse step.maps
  have entriesEq : st'.ctx.memmapEntries = entries := congrArg Maps.memmapEntries step.maps
  have pointersEq : st'.ctx.memmapPointers = pointers := congrArg Maps.memmapPointers step.maps
  have efi : st'.ctx.efiMemmapResponse = st.ctx.efiMemmapResponse :=
    congrArg Maps.efiMemmapResponse step.maps
  have above := answers.above
  have entriesAbove := step.entries_above
  have pointersAbove := step.pointers_above
  refine ⟨answers.toGrows.ok h.ok, answers.stored_all h rfl, Or.inr ⟨?_, ?_⟩, ?_⟩
  · exact answers.answered_iff.mpr (Or.inr ⟨rfl, memmap.symm⟩)
  · refine ⟨by omega, by omega, by omega, pointersEq ▸ step.pointers_below, ?_⟩
    intro a mem
    rw [answers.answered] at mem
    rw [entriesEq, pointersEq]
    rcases List.mem_append.mp mem with old | new
    · have below := (h.stored a old).below
      exact ⟨by omega, by omega⟩
    · rw [List.mem_singleton.mp new]
      exact ⟨by dsimp only; omega, by dsimp only; omega⟩
  · rw [efi]
    refine h.efiMemmap.imp (fun ⟨unset, silent⟩ => ⟨unset, fun p answered => ?_⟩)
      fun answered => answers.answered_iff.mpr (Or.inl answered)
    rcases answers.answered_iff.mp answered with old | ⟨kind, _⟩
    · exact silent p old
    · cases kind

theorem Arranged.efi_answered (h : Arranged st) (answers : Answers st st' req ptr (.efiMemmap {}))
    (maps : st'.ctx.maps = { st.ctx.maps with efiMemmapResponse := ptr }) : Arranged st' := by
  have memmap : st'.ctx.memmapResponse = st.ctx.memmapResponse := congrArg Maps.memmapResponse maps
  have entries : st'.ctx.memmapEntries = st.ctx.memmapEntries := congrArg Maps.memmapEntries maps
  have pointers : st'.ctx.memmapPointers = st.ctx.memmapPointers := congrArg Maps.memmapPointers maps
  have efi : st'.ctx.efiMemmapResponse = ptr := congrArg Maps.efiMemmapResponse maps
  refine ⟨answers.toGrows.ok h.ok, answers.stored_all h rfl, ?_, Or.inr ?_⟩
  · rw [memmap]
    refine h.memmap.imp (fun ⟨unset, silent⟩ => ⟨unset, fun p answered => ?_⟩) fun ⟨answered, arrays⟩ =>
      ⟨answers.answered_iff.mpr (Or.inl answered),
        arrays.grows answers.toGrows entries pointers answers.later⟩
    rcases answers.answered_iff.mp answered with old | ⟨kind, _⟩
    · exact silent p old
    · cases kind
  · exact answers.answered_iff.mpr (Or.inr ⟨rfl, efi.symm⟩)

/-- A request with the common magic at this word. -/
def requestAt (st : LimineState) (addr : Nat) : Option LimineRequestKind :=
  if st.word addr ≠ 0xc7b1dd30df4c8b88 ∨ st.word (addr + 8) ≠ 0x0a82e883a194f07b then none
  else requestKind (st.word (addr + 16)) (st.word (addr + 24))

/-- What one iteration of the search does, by the request it finds. -/
theorem searchStep_cases (sane : env.Sane) (ok : ArenaOk st.ctx) (addr : Nat) :
    (requestAt st addr = some .memmap ∧ searchStep env st addr = reserveMemmap env st addr) ∨
    (requestAt st addr = some .efiMemmap ∧ searchStep env st addr = answerEfiMemmap st addr) ∨
    (requestAt st addr ≠ some .memmap ∧ requestAt st addr ≠ some .efiMemmap ∧
      Unmapped st (searchStep env st addr)) := by
  unfold searchStep requestAt
  split
  · exact Or.inr (Or.inr ⟨by simp, by simp, Or.inl (Quiet.refl ok)⟩)
  · by_cases memmap : requestKind (st.word (addr + 16)) (st.word (addr + 24)) = some .memmap
    · exact Or.inl ⟨memmap, by simp only [dispatchRequest, memmap]⟩
    · by_cases efi : requestKind (st.word (addr + 16)) (st.word (addr + 24)) = some .efiMemmap
      · exact Or.inr (Or.inl ⟨efi, by simp only [dispatchRequest, efi]⟩)
      · exact Or.inr (Or.inr ⟨memmap, efi, dispatchRequest_unmapped sane ok memmap efi⟩)

theorem Arranged.step (sane : env.Sane) (h : Arranged st) (addr : Nat) :
    Arranged (searchStep env st addr) := by
  rcases searchStep_cases sane h.ok addr with ⟨_, eq⟩ | ⟨_, eq⟩ | ⟨_, _, unmapped⟩
  · rw [eq]
    rcases reserveMemmap_spec sane h.ok with ⟨_, ptr, entries, pointers, reserved⟩ | ⟨_, quiet⟩
    · exact h.reserved reserved
    · exact h.quiet quiet
  · rw [eq]
    rcases answerEfiMemmap_spec h.ok with ⟨_, ptr, answers, maps⟩ | ⟨_, quiet⟩
    · exact h.efi_answered answers maps
    · exact h.quiet quiet
  · exact h.unmapped unmapped

/-! ### One response of each kind -/

/-- Every memory map response is the one the context points to, and so for the firmware's. -/
structure Single (st : LimineState) : Prop where
  memmap : ∀ ptr, Answered st .memmap ptr → ptr = st.ctx.memmapResponse
  efiMemmap : ∀ ptr, Answered st .efiMemmap ptr → ptr = st.ctx.efiMemmapResponse

/-- The iteration does not answer a memory map request, of either kind, for which a response is
already set up. -/
def Fresh (env : Env) (st : LimineState) (addr : Nat) : Prop :=
  (requestAt st addr = some .memmap → CanReserve env st addr → st.ctx.memmapResponse = 0) ∧
    (requestAt st addr = some .efiMemmap →
      ArenaRoom st.ctx [LimineRequestKind.responseSize .efiMemmap] → st.ctx.efiMemmapResponse = 0)

instance (env : Env) (st : LimineState) (addr : Nat) : Decidable (Fresh env st addr) :=
  inferInstanceAs (Decidable (_ ∧ _))

theorem Unmapped.maps (step : Unmapped st st') : st'.ctx.maps = st.ctx.maps := by
  rcases step with quiet | ⟨_, _, _, _, _, _, maps⟩
  · exact quiet.maps
  · exact maps

theorem Unmapped.answered_iff (step : Unmapped st st') (p : Nat) :
    (Answered st' .memmap p ↔ Answered st .memmap p) ∧ (Answered st' .efiMemmap p ↔ Answered st .efiMemmap p) := by
  rcases step with quiet | ⟨req, ptr, response, answers, notMemmap, notEfi, _⟩
  · exact ⟨quiet.answered_iff, quiet.answered_iff⟩
  · refine ⟨?_, ?_⟩
    · rw [answers.answered_iff]
      exact or_iff_left fun ⟨kind, _⟩ => notMemmap kind
    · rw [answers.answered_iff]
      exact or_iff_left fun ⟨kind, _⟩ => notEfi kind

theorem Unmapped.single_iff (step : Unmapped st st') : Single st' ↔ Single st := by
  have memmap : st'.ctx.memmapResponse = st.ctx.memmapResponse := congrArg Maps.memmapResponse step.maps
  have efi : st'.ctx.efiMemmapResponse = st.ctx.efiMemmapResponse := congrArg Maps.efiMemmapResponse step.maps
  constructor
  · rintro ⟨first, second⟩
    refine ⟨fun p answered => ?_, fun p answered => ?_⟩
    · exact (first p ((step.answered_iff p).1.mpr answered)).trans memmap
    · exact (second p ((step.answered_iff p).2.mpr answered)).trans efi
  · rintro ⟨first, second⟩
    refine ⟨fun p answered => ?_, fun p answered => ?_⟩
    · exact (first p ((step.answered_iff p).1.mp answered)).trans memmap.symm
    · exact (second p ((step.answered_iff p).2.mp answered)).trans efi.symm

theorem Quiet.single_iff (quiet : Quiet st st') : Single st' ↔ Single st := Unmapped.single_iff (.inl quiet)

theorem Arranged.memmap_none_iff (h : Arranged st) :
    st.ctx.memmapResponse = 0 ↔ ∀ ptr, ¬Answered st .memmap ptr := by
  constructor
  · intro unset
    rcases h.memmap with ⟨_, silent⟩ | ⟨⟨a, mem, _, eq⟩, _⟩
    · exact silent
    · exact absurd (eq.trans unset) (h.stored a mem).present
  · intro silent
    rcases h.memmap with ⟨unset, _⟩ | ⟨answered, _⟩
    · exact unset
    · exact absurd answered (silent _)

theorem Arranged.efi_none_iff (h : Arranged st) :
    st.ctx.efiMemmapResponse = 0 ↔ ∀ ptr, ¬Answered st .efiMemmap ptr := by
  constructor
  · intro unset
    rcases h.efiMemmap with ⟨_, silent⟩ | ⟨a, mem, _, eq⟩
    · exact silent
    · exact absurd (eq.trans unset) (h.stored a mem).present
  · intro silent
    rcases h.efiMemmap with ⟨unset, _⟩ | answered
    · exact unset
    · exact absurd answered (silent _)

theorem Answered.below (h : Arranged st) {kind : LimineRequestKind} (answered : Answered st kind ptr) :
    ptr < st.frontier := by
  obtain ⟨a, mem, _, rfl⟩ := answered
  exact (h.stored a mem).below

/-- A new memory map response is the only one if it is the first. -/
theorem Reserved.single_iff {entries pointers : Nat} (h : Arranged st)
    (step : Reserved st st' req ptr entries pointers) :
    Single st' ↔ st.ctx.memmapResponse = 0 ∧
      ∀ p, Answered st .efiMemmap p → p = st.ctx.efiMemmapResponse := by
  have answers := step.answers
  have memmap : st'.ctx.memmapResponse = ptr := congrArg Maps.memmapResponse step.maps
  have efi : st'.ctx.efiMemmapResponse = st.ctx.efiMemmapResponse :=
    congrArg Maps.efiMemmapResponse step.maps
  have efiSame : ∀ p, Answered st' .efiMemmap p ↔ Answered st .efiMemmap p := by
    intro p
    rw [answers.answered_iff]
    exact or_iff_left fun ⟨kind, _⟩ => by cases kind
  rw [h.memmap_none_iff]
  constructor
  · rintro ⟨first, second⟩
    refine ⟨fun p old => ?_, fun p old => (second p ((efiSame p).mpr old)).trans efi⟩
    have same := first p (answers.answered_iff.mpr (Or.inl old))
    have below := old.below h
    have above := answers.above
    omega
  · rintro ⟨silent, second⟩
    refine ⟨fun p answered => ?_, fun p answered => (second p ((efiSame p).mp answered)).trans efi.symm⟩
    rcases answers.answered_iff.mp answered with old | ⟨_, eq⟩
    · exact absurd old (silent p)
    · exact eq.symm.trans memmap.symm

theorem Answers.efi_single_iff (h : Arranged st) (answers : Answers st st' req ptr (.efiMemmap {}))
    (maps : st'.ctx.maps = { st.ctx.maps with efiMemmapResponse := ptr }) :
    Single st' ↔ st.ctx.efiMemmapResponse = 0 ∧
      ∀ p, Answered st .memmap p → p = st.ctx.memmapResponse := by
  have memmap : st'.ctx.memmapResponse = st.ctx.memmapResponse := congrArg Maps.memmapResponse maps
  have efi : st'.ctx.efiMemmapResponse = ptr := congrArg Maps.efiMemmapResponse maps
  have memmapSame : ∀ p, Answered st' .memmap p ↔ Answered st .memmap p := by
    intro p
    rw [answers.answered_iff]
    exact or_iff_left fun ⟨kind, _⟩ => by cases kind
  rw [h.efi_none_iff]
  constructor
  · rintro ⟨first, second⟩
    refine ⟨fun p old => ?_, fun p old => (first p ((memmapSame p).mpr old)).trans memmap⟩
    have same := second p (answers.answered_iff.mpr (Or.inl old))
    have below := old.below h
    have above := answers.above
    omega
  · rintro ⟨silent, first⟩
    refine ⟨fun p answered => (first p ((memmapSame p).mp answered)).trans memmap.symm,
      fun p answered => ?_⟩
    rcases answers.answered_iff.mp answered with old | ⟨_, eq⟩
    · exact absurd old (silent p)
    · exact eq.symm.trans efi.symm

/-- A step keeps one response of each kind exactly if it is fresh. -/
theorem single_step_iff (sane : env.Sane) (h : Arranged st) (single : Single st) (addr : Nat) :
    Single (searchStep env st addr) ↔ Fresh env st addr := by
  rcases searchStep_cases sane h.ok addr with ⟨kind, eq⟩ | ⟨kind, eq⟩ | ⟨notMemmap, notEfi, unmapped⟩
  · rw [eq]
    rcases reserveMemmap_spec sane h.ok with ⟨room, ptr, entries, pointers, reserved⟩ | ⟨full, quiet⟩
    · rw [reserved.single_iff h, and_iff_left single.efiMemmap]
      simp [Fresh, kind, room]
    · rw [quiet.single_iff]
      simp [Fresh, kind, full, single]
  · rw [eq]
    rcases answerEfiMemmap_spec h.ok with ⟨room, ptr, answers, maps⟩ | ⟨full, quiet⟩
    · rw [answers.efi_single_iff h maps, and_iff_left single.memmap]
      simp [Fresh, kind, room]
    · rw [quiet.single_iff]
      simp [Fresh, kind, full, single]
  · rw [unmapped.single_iff]
    simp [Fresh, notMemmap, notEfi, single]

/-- A second response of a kind is never forgotten. -/
theorem single_of_step (sane : env.Sane) (h : Arranged st) (addr : Nat)
    (after : Single (searchStep env st addr)) : Single st := by
  rcases searchStep_cases sane h.ok addr with ⟨_, eq⟩ | ⟨_, eq⟩ | ⟨_, _, unmapped⟩
  · rw [eq] at after
    rcases reserveMemmap_spec sane h.ok with ⟨_, ptr, entries, pointers, reserved⟩ | ⟨_, quiet⟩
    · obtain ⟨unset, second⟩ := (reserved.single_iff h).mp after
      exact ⟨fun p answered => absurd answered (h.memmap_none_iff.mp unset p), second⟩
    · exact quiet.single_iff.mp after
  · rw [eq] at after
    rcases answerEfiMemmap_spec h.ok with ⟨_, ptr, answers, maps⟩ | ⟨_, quiet⟩
    · obtain ⟨unset, first⟩ := (answers.efi_single_iff h maps).mp after
      exact ⟨first, fun p answered => absurd answered (h.efi_none_iff.mp unset p)⟩
    · exact quiet.single_iff.mp after
  · exact unmapped.single_iff.mp after

/-! ### The hand-off -/

/-- What the kernel finds behind the response is filled in: a memory map response has the count of
the entries and the array of pointers to them, the firmware's has its map. -/
def Complete (st : LimineState) (map : EfiMemoryMap) : LimineResponse → Prop
  | .memmap r => ∃ entries pointers,
      st.object st.ctx.memmapEntries = some (.entries entries) ∧
      st.object st.ctx.memmapPointers = some (.pointers pointers) ∧
      entries = fillEntries st.ctx map.descriptors [] ∧
      pointers = (List.range entries.length).map (fun i =>
        toVirt st.ctx (st.ctx.memmapEntries + i * limineMemmapEntrySize)) ∧
      r = ⟨entries.length, toVirt st.ctx st.ctx.memmapPointers⟩
  | .efiMemmap r => r = ⟨toVirt st.ctx st.ctx.efiMemmapBuffer, map.mapSize, map.descSize,
      efiMemoryDescriptorVersion⟩
  | _ => True

/-- Every request whose response pointer was set has a complete response of its own kind. -/
def AllComplete (st : LimineState) (map : EfiMemoryMap) : Prop :=
  ∀ a ∈ st.answered, ∃ response, st.object a.response = some (.response response) ∧
    response.kind = a.kind ∧ Complete st map response

variable {map : EfiMemoryMap}

theorem Answered.object (h : Arranged st) {kind : LimineRequestKind} (answered : Answered st kind ptr) :
    ∃ response, st.object ptr = some (.response response) ∧ response.kind = kind ∧ Blank response := by
  obtain ⟨a, mem, rfl, rfl⟩ := answered
  exact (h.stored a mem).object

/-- Responses of two kinds are two objects. -/
theorem Answered.ne (h : Arranged st) {kind kind' : LimineRequestKind} {ptr' : Nat}
    (answered : Answered st kind ptr) (answered' : Answered st kind' ptr') (differ : kind ≠ kind') :
    ptr ≠ ptr' := by
  rintro rfl
  obtain ⟨response, eq, rfl, _⟩ := answered.object h
  obtain ⟨response', eq', rfl, _⟩ := answered'.object h
  rw [eq] at eq'
  cases eq'
  exact differ rfl

theorem put_ne {obj : LimineObject} {p : Nat} (h : p ≠ ptr) : (st.put ptr obj).object p = st.object p :=
  Function.update_of_ne h _ _

theorem put_self {obj : LimineObject} : (st.put ptr obj).object ptr = some obj :=
  Function.update_self _ _ _

section Write

variable {fill : MemmapFill}

theorem write_ctx : (st.write fill).ctx = st.ctx := by
  unfold LimineState.write
  split <;> rfl

theorem write_answered : (st.write fill).answered = st.answered := by
  unfold LimineState.write
  split <;> rfl

theorem write_other {p : Nat} (entries : p ≠ st.ctx.memmapEntries) (pointers : p ≠ st.ctx.memmapPointers)
    (memmap : p ≠ st.ctx.memmapResponse) (efi : p ≠ st.ctx.efiMemmapResponse) :
    (st.write fill).object p = st.object p := by
  unfold LimineState.write
  split
  · rw [put_ne efi, put_ne memmap, put_ne pointers, put_ne entries]
  · rw [put_ne memmap, put_ne pointers, put_ne entries]

/-- The writes go to four objects that are not one another. -/
structure Apart (ctx : LimineCtx) : Prop where
  entries_pointers : ctx.memmapEntries ≠ ctx.memmapPointers
  entries_memmap : ctx.memmapEntries ≠ ctx.memmapResponse
  entries_efi : ctx.memmapEntries ≠ ctx.efiMemmapResponse
  pointers_memmap : ctx.memmapPointers ≠ ctx.memmapResponse
  pointers_efi : ctx.memmapPointers ≠ ctx.efiMemmapResponse
  memmap_efi : ctx.memmapResponse ≠ ctx.efiMemmapResponse

theorem write_entries (apart : Apart st.ctx) :
    (st.write fill).object st.ctx.memmapEntries = some (.entries fill.entries) := by
  unfold LimineState.write
  split
  · rw [put_ne apart.entries_efi, put_ne apart.entries_memmap, put_ne apart.entries_pointers, put_self]
  · rw [put_ne apart.entries_memmap, put_ne apart.entries_pointers, put_self]

theorem write_pointers (apart : Apart st.ctx) :
    (st.write fill).object st.ctx.memmapPointers = some (.pointers fill.pointers) := by
  unfold LimineState.write
  split
  · rw [put_ne apart.pointers_efi, put_ne apart.pointers_memmap, put_self]
  · rw [put_ne apart.pointers_memmap, put_self]

theorem write_memmap (apart : Apart st.ctx) :
    (st.write fill).object st.ctx.memmapResponse = some (.response (.memmap fill.response)) := by
  unfold LimineState.write
  split
  · rw [put_ne apart.memmap_efi, put_self]
  · rw [put_self]

theorem write_efi {efi : LimineEfiMemmapResponse} (given : fill.efi = some efi) :
    (st.write fill).object st.ctx.efiMemmapResponse = some (.response (.efiMemmap efi)) := by
  unfold LimineState.write
  rw [given]
  exact put_self

end Write

theorem fill_unset (unset : st.ctx.memmapResponse = 0) : st.fill map = st := by
  have skipped : limineFillMemmap st.ctx map = none := if_pos (Or.inl unset)
  unfold LimineState.fill
  rw [skipped]

/-- The two completions by `limineFillMemmap`, when a memory map response is set up. -/
structure Filled (st st' : LimineState) (map : EfiMemoryMap) : Prop where
  ctx : st'.ctx = st.ctx
  answered : st'.answered = st.answered
  memmap : ∃ response, st'.object st.ctx.memmapResponse = some (.response (.memmap response)) ∧
    Complete st' map (.memmap response)
  efiMemmap : st.ctx.efiMemmapResponse ≠ 0 → ∃ response,
    st'.object st.ctx.efiMemmapResponse = some (.response (.efiMemmap response)) ∧
    Complete st' map (.efiMemmap response)
  other : ∀ ptr kind, Answered st kind ptr → ptr ≠ st.ctx.memmapResponse →
    ptr ≠ st.ctx.efiMemmapResponse → st'.object ptr = st.object ptr

theorem Arranged.apart (h : Arranged st) (set : st.ctx.memmapResponse ≠ 0) : Apart st.ctx := by
  obtain ⟨⟨a, mem, kind, eq⟩, arrays⟩ := h.memmap.resolve_left fun unset => set unset.1
  have memmap := arrays.unanswered a mem
  rw [eq] at memmap
  have differ : st.ctx.memmapEntries ≠ st.ctx.efiMemmapResponse ∧
      st.ctx.memmapPointers ≠ st.ctx.efiMemmapResponse ∧
      st.ctx.memmapResponse ≠ st.ctx.efiMemmapResponse := by
    rcases h.efiMemmap with ⟨unset, _⟩ | answered
    · rw [unset]
      exact ⟨arrays.entries, arrays.pointers, set⟩
    · have memmapAnswered : Answered st .memmap st.ctx.memmapResponse := ⟨a, mem, kind, eq⟩
      obtain ⟨b, memB, kindB, eqB⟩ := answered
      have efi := arrays.unanswered b memB
      rw [eqB] at efi
      exact ⟨efi.1.symm, efi.2.symm, memmapAnswered.ne h ⟨b, memB, kindB, eqB⟩ (by decide)⟩
  exact ⟨Nat.ne_of_lt arrays.apart, memmap.1.symm, differ.1, memmap.2.symm, differ.2.1, differ.2.2⟩

theorem fill_filled (h : Arranged st) (set : st.ctx.memmapResponse ≠ 0)
    (buffer : st.ctx.efiMemmapBuffer ≠ 0) : Filled st (st.fill map) map := by
  obtain ⟨_, arrays⟩ := h.memmap.resolve_left fun unset => set unset.1
  have apart := h.apart set
  have noNull : ¬(st.ctx.memmapResponse = 0 ∨ st.ctx.memmapEntries = 0 ∨ st.ctx.memmapPointers = 0) :=
    not_or.mpr ⟨set, not_or.mpr ⟨arrays.entries, arrays.pointers⟩⟩
  obtain ⟨fill, filled, entries, pointers, response, efi⟩ : ∃ fill,
      limineFillMemmap st.ctx map = some fill ∧
      fill.entries = fillEntries st.ctx map.descriptors [] ∧
      fill.pointers = (List.range fill.entries.length).map (fun i =>
        toVirt st.ctx (st.ctx.memmapEntries + i * limineMemmapEntrySize)) ∧
      fill.response = ⟨fill.entries.length, toVirt st.ctx st.ctx.memmapPointers⟩ ∧
      (st.ctx.efiMemmapResponse ≠ 0 → fill.efi = some ⟨toVirt st.ctx st.ctx.efiMemmapBuffer,
        map.mapSize, map.descSize, efiMemoryDescriptorVersion⟩) :=
    ⟨_, if_neg noNull, rfl, rfl, rfl, fun set => if_pos ⟨set, buffer⟩⟩
  have written : st.fill map = st.write fill := by
    unfold LimineState.fill
    rw [filled]
  rw [written]
  refine ⟨write_ctx, write_answered, ⟨_, write_memmap apart, ?_⟩, fun set => ⟨_, write_efi (efi set), ?_⟩, ?_⟩
  · simp only [Complete, write_ctx]
    exact ⟨_, _, write_entries apart, write_pointers apart, entries, pointers, response⟩
  · simp only [Complete, write_ctx]
  · rintro ptr kind ⟨a, mem, _, rfl⟩ notMemmap notEfi
    obtain ⟨notEntries, notPointers⟩ := arrays.unanswered a mem
    exact write_other notEntries notPointers notMemmap notEfi

/-- The addresses of the arena are not null in the higher half. -/
theorem toVirt_ne_zero (ok : ArenaOk st.ctx) (below : ptr < st.frontier) : toVirt st.ctx ptr ≠ 0 := by
  have mapped := ok.mapped
  have used := ok.used
  unfold LimineState.frontier at below
  have sum : toVirt st.ctx ptr = ptr + limineHhdmBase := by
    rw [toVirt, ok.hhdm]
    exact u64_of_lt (by unfold limineHhdmBase; omega)
  rw [sum, limineHhdmBase]
  omega

theorem complete_of_other {kind : LimineRequestKind} (same : response.kind = kind)
    (memmap : kind ≠ .memmap) (efi : kind ≠ .efiMemmap) : Complete st map response := by
  cases response with
  | memmap r => exact absurd same.symm memmap
  | efiMemmap r => exact absurd same.symm efi
  | _ => trivial

theorem blank_efi_incomplete : ¬Complete st map (.efiMemmap {}) := by
  intro complete
  have version : (0 : Nat) = efiMemoryDescriptorVersion :=
    congrArg LimineEfiMemmapResponse.descVersion complete
  exact absurd version (by decide)

theorem blank_memmap_incomplete (pointers : toVirt st.ctx st.ctx.memmapPointers ≠ 0) :
    ¬Complete st map (.memmap {}) := by
  rintro ⟨entries, _, _, _, _, _, eq⟩
  exact pointers (congrArg LimineMemmapResponse.entries eq).symm

/-- A response of an answered request that the fill left alone is complete only if it is of another
kind than the two memory maps. -/
theorem AllComplete.kind_of_same (h : Arranged st) (complete : AllComplete st' map)
    (mem : ∀ a ∈ st.answered, a ∈ st'.answered) {kind : LimineRequestKind}
    (answered : Answered st kind ptr) (same : st'.object ptr = st.object ptr)
    (pointers : kind = .memmap → toVirt st'.ctx st'.ctx.memmapPointers ≠ 0) :
    kind ≠ .memmap ∧ kind ≠ .efiMemmap := by
  obtain ⟨response, object, rfl, blank⟩ := answered.object h
  obtain ⟨a, memA, _, rfl⟩ := answered
  obtain ⟨response', object', _, complete'⟩ := complete a (mem a memA)
  rw [same, object] at object'
  cases object'
  constructor
  · intro memmap
    cases response with
    | memmap r => exact blank_memmap_incomplete (pointers rfl) (blank ▸ complete')
    | _ => cases memmap
  · intro efi
    cases response with
    | efiMemmap r => exact blank_efi_incomplete (blank ▸ complete')
    | _ => cases efi

/-- Every response is complete after the fill exactly if the context points to all of them, and to
a memory map response if to a firmware map response. -/
theorem fill_complete_iff (h : Arranged st) (buffer : st.ctx.efiMemmapBuffer ≠ 0) :
    AllComplete (st.fill map) map ↔
      Single st ∧ (st.ctx.efiMemmapResponse ≠ 0 → st.ctx.memmapResponse ≠ 0) := by
  by_cases set : st.ctx.memmapResponse = 0
  · -- The fill returns at once, and whatever waits for it stays blank.
    have noMemmap := h.memmap_none_iff.mp set
    rw [fill_unset set]
    constructor
    · intro complete
      have noEfi : ∀ ptr, ¬Answered st .efiMemmap ptr := fun ptr answered =>
        (complete.kind_of_same h (fun _ mem => mem) answered rfl (by simp)).2 rfl
      exact ⟨⟨fun p answered => absurd answered (noMemmap p), fun p answered =>
        absurd answered (noEfi p)⟩, fun efi => absurd (h.efi_none_iff.mpr noEfi) efi⟩
    · rintro ⟨_, needs⟩ a mem
      have unset : st.ctx.efiMemmapResponse = 0 := by
        by_contra efi
        exact needs efi set
      obtain ⟨response, object, kind, _⟩ := (h.stored a mem).object
      refine ⟨response, object, kind, complete_of_other kind ?_ ?_⟩
      · exact fun eq => noMemmap _ ⟨a, mem, eq, rfl⟩
      · exact fun eq => h.efi_none_iff.mp unset _ ⟨a, mem, eq, rfl⟩
  · obtain ⟨memmapAnswered, arrays⟩ := h.memmap.resolve_left fun unset => set unset.1
    have filled : Filled st (st.fill map) map := fill_filled h set buffer
    have members : ∀ a ∈ st.answered, a ∈ (st.fill map).answered := fun a mem => filled.answered ▸ mem
    have pointers : toVirt (st.fill map).ctx (st.fill map).ctx.memmapPointers ≠ 0 := by
      rw [filled.ctx]
      exact toVirt_ne_zero h.ok arrays.below
    -- An answered response is nowhere else than the two the context points to.
    have notEfi : ∀ {kind ptr}, Answered st kind ptr → kind ≠ .efiMemmap →
        ptr ≠ st.ctx.efiMemmapResponse := by
      intro kind ptr answered differ eq
      rcases h.efiMemmap with ⟨unset, _⟩ | efiAnswered
      · obtain ⟨a, mem, _, rfl⟩ := answered
        exact (h.stored a mem).present (eq.trans unset)
      · exact answered.ne h efiAnswered differ eq
    have notMemmap : ∀ {kind ptr}, Answered st kind ptr → kind ≠ .memmap →
        ptr ≠ st.ctx.memmapResponse := fun answered differ => answered.ne h memmapAnswered differ
    constructor
    · intro complete
      refine ⟨⟨fun ptr answered => ?_, fun ptr answered => ?_⟩, fun _ => set⟩
      · by_contra other
        have same := filled.other ptr _ answered other (notEfi answered (by decide))
        exact (complete.kind_of_same h members answered same fun _ => pointers).1 rfl
      · by_contra other
        have same := filled.other ptr _ answered (notMemmap answered (by decide)) other
        exact (complete.kind_of_same h members answered same fun _ => pointers).2 rfl
    · rintro ⟨single, _⟩ a mem
      rw [filled.answered] at mem
      have answered : Answered st a.kind a.response := ⟨a, mem, rfl, rfl⟩
      by_cases memmap : a.kind = .memmap
      · obtain ⟨response, object, complete⟩ := filled.memmap
        have at_memmap : a.response = st.ctx.memmapResponse := single.memmap _ (memmap ▸ answered)
        rw [at_memmap, memmap]
        exact ⟨_, object, rfl, complete⟩
      · by_cases efi : a.kind = .efiMemmap
        · have at_efi := single.efiMemmap _ (efi ▸ answered)
          obtain ⟨response, object, complete⟩ :=
            filled.efiMemmap fun unset => (h.stored a mem).present (at_efi.trans unset)
          rw [at_efi, efi]
          exact ⟨_, object, rfl, complete⟩
        · obtain ⟨response, object, kind, _⟩ := (h.stored a mem).object
          refine ⟨response, ?_, kind, complete_of_other kind memmap efi⟩
          rw [filled.other _ _ answered (notMemmap answered memmap) (notEfi answered efi)]
          exact object

/-! ### Runs -/

theorem narrowSearchArea_quiet (ok : ArenaOk st.ctx) : Quiet st (narrowSearchArea st) := by
  unfold narrowSearchArea
  dsimp only
  split
  · exact (Quiet.refl ok).congr rfl rfl rfl rfl rfl rfl rfl
  · exact Quiet.refl ok

theorem handleBaseRevision_quiet (ok : ArenaOk st.ctx) (tag : Nat) :
    Quiet st (handleBaseRevision st tag) := by
  unfold handleBaseRevision
  dsimp only
  split <;> exact (Quiet.refl ok).congr rfl rfl rfl rfl rfl rfl rfl

theorem prepareSearch_quiet (ok : ArenaOk st.ctx) : Quiet st (prepareSearch st) := by
  unfold prepareSearch
  dsimp only
  generalize start : ({ st with ctx := { st.ctx with
    baseRevision := 0, stackSize := limineDefaultStackSize } } : LimineState) = st₁
  have quiet₁ : Quiet st st₁ := by
    rw [← start]
    exact (Quiet.refl ok).congr rfl rfl rfl rfl rfl rfl rfl
  have ok₁ := quiet₁.toGrows.ok ok
  split
  · rename_i tag _
    have quiet₂ := quiet₁.trans (handleBaseRevision_quiet ok₁ tag)
    exact quiet₂.trans (narrowSearchArea_quiet (quiet₂.toGrows.ok ok))
  · exact quiet₁.trans (narrowSearchArea_quiet ok₁)

/-- Before anything is answered. -/
theorem arranged_start (ok : ArenaOk st.ctx) (maps : st.ctx.maps = ⟨0, 0, 0, 0⟩)
    (answered : st.answered = []) : Arranged st ∧ Single st := by
  have none : ∀ kind ptr, ¬Answered st kind ptr := by
    rintro kind ptr ⟨a, mem, _⟩
    rw [answered] at mem
    cases mem
  refine ⟨⟨ok, by simp [answered], Or.inl ⟨congrArg Maps.memmapResponse maps, none _⟩,
    Or.inl ⟨congrArg Maps.efiMemmapResponse maps, none _⟩⟩, ⟨?_, ?_⟩⟩
  · exact fun ptr found => absurd found (none _ ptr)
  · exact fun ptr found => absurd found (none _ ptr)

/-- The loader's state when the requests are searched, in the image with these words. -/
def searchStart (ctx : LimineCtx) (word : Nat → Nat) : LimineState :=
  prepareSearch { ctx := ctx, word := word }

theorem allocateStack_quiet (ok : ArenaOk st.ctx) (allocated : allocateStack env st = some st') :
    Quiet st st' := by
  unfold allocateStack at allocated
  obtain ⟨stack, _, rfl⟩ := Option.map_eq_some_iff.mp allocated
  exact (Quiet.refl ok).congr rfl rfl rfl rfl rfl rfl rfl

theorem setEfiMemmapBuffer_quiet (ok : ArenaOk st.ctx) (buffer : Nat) :
    Quiet st (st.setEfiMemmapBuffer buffer) :=
  (Quiet.refl ok).congr rfl rfl rfl rfl rfl rfl rfl

/-- The hand-off fills the maps of a state that differs from the one it is given in the buffer. -/
theorem limineHandoff_eq (sane : env.Sane) (left : env.exitBootServices = some map)
    (ok : ArenaOk st.ctx) (handoff : limineHandoff env st = some st') :
    ∃ st₁, Quiet st st₁ ∧ st₁.ctx.efiMemmapBuffer ≠ 0 ∧ st' = st₁.fill map := by
  unfold limineHandoff at handoff
  split at handoff
  · cases handoff
  · split at handoff
    · rename_i gdt scratch map' _ scratchPages left'
      rw [left] at left'
      cases left'
      cases handoff
      have small := sane.scratch scratch (by rw [scratchPages]; rfl)
      refine ⟨_, setEfiMemmapBuffer_quiet ok _, ?_, rfl⟩
      change u64 (scratch + liminePageSize) ≠ 0
      rw [u64_of_lt small, liminePageSize]
      omega
    · cases handoff

/-- At the hand-off every request that was given a response has a complete one exactly if no
memory map request, of either kind, was answered while a response of its kind was already set up,
and a firmware map response only came with a memory map response. -/
theorem responses_complete_iff (env : Env) (sane : env.Sane) (ctx : LimineCtx) (ok : ArenaOk ctx)
    (maps : ctx.maps = ⟨0, 0, 0, 0⟩) (word : Nat → Nat) (pml4Phys poolPhys poolPages poolUsed : Nat)
    (map : EfiMemoryMap) (left : env.exitBootServices = some map) (st st' : LimineState)
    (answers : limineAnswerRequests env { ctx := ctx, word := word } = some st)
    (handoff : limineHandoff env (st.setTables pml4Phys poolPhys poolPages poolUsed) = some st') :
    AllComplete st' map ↔
      Lib.Run.Along (searchStep env) (Fresh env) (searchStart ctx word) (searched (searchStart ctx word)) ∧
        (st.ctx.efiMemmapResponse ≠ 0 → st.ctx.memmapResponse ≠ 0) := by
  have start : Arranged (searchStart ctx word) ∧ Single (searchStart ctx word) := by
    have quiet : Quiet { ctx := ctx, word := word } (searchStart ctx word) := prepareSearch_quiet ok
    exact arranged_start (quiet.toGrows.ok ok) (quiet.maps.trans maps) quiet.answered
  have arranged : Arranged ((searched (searchStart ctx word)).foldl (searchStep env) (searchStart ctx word)) :=
    Lib.Run.foldl_invariant (fun _ addr h => h.step sane addr) _ start.1
  have single := Lib.Run.foldl_iff_along (searched (searchStart ctx word))
    (fun _ addr h => Arranged.step sane h addr) (fun _ addr h => single_of_step sane h addr)
    (fun _ addr h one => single_step_iff sane h one addr) start.1 start.2
  unfold limineAnswerRequests at answers
  split at answers
  · cases answers
  · have stacked := allocateStack_quiet arranged.ok answers
    have tabled : Quiet st (st.setTables pml4Phys poolPhys poolPages poolUsed) :=
      (Quiet.refl (stacked.toGrows.ok arranged.ok)).congr rfl rfl rfl rfl rfl rfl rfl
    have before := stacked.trans tabled
    obtain ⟨st₁, buffered, buffer, rfl⟩ :=
      limineHandoff_eq sane left (before.toGrows.ok arranged.ok) handoff
    have quiet := before.trans buffered
    rw [fill_complete_iff (arranged.quiet quiet) buffer, quiet.single_iff]
    have memmap : st₁.ctx.memmapResponse = st.ctx.memmapResponse :=
      congrArg Maps.memmapResponse (tabled.trans buffered).maps
    have efi : st₁.ctx.efiMemmapResponse = st.ctx.efiMemmapResponse :=
      congrArg Maps.efiMemmapResponse (tabled.trans buffered).maps
    rw [memmap, efi]
    exact and_congr_left fun _ => single

/-- A machine whose firmware has a memory map of three descriptors. -/
def sampleEnv : Env where
  cmdline := none
  loaderPath := none
  volume := none
  versionString := []
  systemTable := 0x1000
  configurationTable := []
  graphics := none
  getTime _ := none
  allocatePages _ _ := none
  memoryMapSize _ := some (144, 48)
  stackPages _ := some 0x200000
  gdtPage := some 0x300000
  scratchPages := some 0x310000
  exitBootServices := some freeRanges

theorem sampleEnv_sane : sampleEnv.Sane where
  version := by unfold Short; decide
  cmdline _ mem := by cases mem
  loaderPath _ mem := by cases mem
  memoryMap _ _ _ told := by cases told; decide
  scratch _ mem := by cases mem; decide

/-- A loaded kernel of one page. -/
def sampleCtx : LimineCtx where
  imagePhys := 0x100000
  imageVirt := 0xffffffff80000000
  imageSize := 0x1000
  entryPoint := 0xffffffff80000100
  hhdmOffset := limineHhdmBase
  arena := 0x400000
  arenaSize := 0x20000
  reqSearchStart := 0x100000
  reqSearchEnd := 0x101000

theorem sampleCtx_ok : ArenaOk sampleCtx := ⟨by decide, by decide, by decide, rfl⟩

/-- The words of a request at an address of the image. -/
def requestWord (at_ id2 id3 addr : Nat) : Nat :=
  if addr = at_ then 0xc7b1dd30df4c8b88
  else if addr = at_ + 8 then 0x0a82e883a194f07b
  else if addr = at_ + 16 then id2
  else if addr = at_ + 24 then id3
  else 0

/-- An image with a request for the firmware's memory map only. -/
def efiMemmapWord (addr : Nat) : Nat := requestWord 0x100040 0x7df62a431d6872d5 0xa4fcdfb3e57306c8 addr

/-- An image with that request and, behind it, one for the memory map. -/
def bothMemmapsWord (addr : Nat) : Nat :=
  efiMemmapWord addr + requestWord 0x100080 0x67cf3d9d378a806f 0xe304acdfc50c3c62 addr

/-- The answers for an image on the sample machine, and the hand-off with its page tables. -/
def sampleAnswers (word : Nat → Nat) : Option LimineState :=
  limineAnswerRequests sampleEnv { ctx := sampleCtx, word := word }

def sampleHandoff (word : Nat → Nat) : Option LimineState :=
  (sampleAnswers word).bind fun st => limineHandoff sampleEnv (st.setTables 0x500000 0x500000 64 8)

/-- With both requests, in this order, both responses are complete. -/
theorem bothMemmaps_complete :
    ∃ st, sampleHandoff bothMemmapsWord = some st ∧ AllComplete st freeRanges := by
  have boots : (sampleHandoff bothMemmapsWord).isSome = true := by decide +kernel
  obtain ⟨st', whole⟩ := Option.isSome_iff_exists.mp boots
  obtain ⟨st, answers, handoff⟩ := Option.bind_eq_some_iff.mp whole
  have needs : (sampleAnswers bothMemmapsWord).all (fun st =>
      decide (st.ctx.efiMemmapResponse ≠ 0 → st.ctx.memmapResponse ≠ 0)) = true := by decide +kernel
  rw [answers] at needs
  refine ⟨st', whole, (responses_complete_iff sampleEnv sampleEnv_sane sampleCtx sampleCtx_ok rfl
    bothMemmapsWord 0x500000 0x500000 64 8 freeRanges rfl st st' answers handoff).mpr ⟨?_, ?_⟩⟩
  · decide +kernel
  · exact of_decide_eq_true needs

/-- The answer is a response to the request for the firmware's memory map that has no version yet. -/
def unversioned (st : LimineState) (a : Answer) : Bool :=
  match st.object a.response with
  | some (.response (.efiMemmap r)) => decide (r.descVersion = 0)
  | _ => false

/-- Without a request for the memory map, the response to the firmware's stays blank. -/
theorem efiMemmapAlone_incomplete :
    ∃ st, sampleHandoff efiMemmapWord = some st ∧ ¬AllComplete st freeRanges := by
  have boots : (sampleHandoff efiMemmapWord).any (fun st => st.answered.any (unversioned st)) = true := by
    decide +kernel
  obtain ⟨st, whole, versions⟩ := (Option.any_eq_true _ _).mp boots
  obtain ⟨a, mem, version⟩ := List.any_eq_true.mp versions
  refine ⟨st, whole, fun complete => ?_⟩
  obtain ⟨response, object, _, filled⟩ := complete a mem
  rw [unversioned, object] at version
  cases response with
  | efiMemmap r =>
    have zero : r.descVersion = 0 := of_decide_eq_true version
    rw [filled] at zero
    cases zero
  | _ => cases version

end Meridian.Limine
