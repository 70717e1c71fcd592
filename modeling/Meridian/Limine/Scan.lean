import Meridian.Limine.SearchArea

/-!
# Which requests are answered, and what is read of the image

A response is written to one word of its request, and no magic word is the address of a response. So
the search finds the requests of the loaded image, but where one starts in the last two words of
another. What it reads of each goes beyond the six words that the search makes sure of.
-/

namespace Meridian.Limine

open Lib.Word

variable {env : Env} {st st' mid : LimineState} {req addr ptr : Nat}

/-! ### The image while requests are answered -/

/-- Nothing in the image changed, and nothing was answered. -/
structure Still (st st' : LimineState) : Prop where
  word : st'.word = st.word
  answered : st'.answered = st.answered
  hhdm : st'.ctx.hhdmOffset = st.ctx.hhdmOffset

/-- Nothing changed in the image, or the word for the response of one request. -/
def Responded (st st' : LimineState) (req : Nat) : Prop :=
  Still st st' ∨ ∃ kind ptr, st'.answered = st.answered ++ [⟨req, kind, ptr⟩] ∧
    st'.word = Function.update st.word (req + 40) (toVirt st.ctx ptr)

theorem Still.refl (st : LimineState) : Still st st := ⟨rfl, rfl, rfl⟩

theorem Still.trans (h : Still st mid) (h' : Still mid st') : Still st st' :=
  ⟨h'.word.trans h.word, h'.answered.trans h.answered, h'.hhdm.trans h.hhdm⟩

theorem Still.respond (h : Still st mid) (req ptr : Nat) (response : LimineResponse) :
    Responded st (mid.respond req ptr response) req := by
  refine Or.inr ⟨response.kind, ptr, ?_, ?_⟩
  · exact congrArg (· ++ _) h.answered
  · have address : toVirt mid.ctx ptr = toVirt st.ctx ptr := by rw [toVirt, toVirt, h.hhdm]
    rw [← h.word, ← address]
    rfl

theorem Responded.after (h : Still st mid) (h' : Responded mid st' req) : Responded st st' req := by
  rcases h' with still | ⟨kind, ptr, answered, word⟩
  · exact Or.inl (h.trans still)
  · refine Or.inr ⟨kind, ptr, answered.trans (by rw [h.answered]), word.trans ?_⟩
    rw [h.word, toVirt, toVirt, h.hhdm]

theorem Still.put (h : Still st mid) (ptr : Nat) (obj : LimineObject) : Still st (mid.put ptr obj) :=
  h.trans ⟨rfl, rfl, rfl⟩

theorem Still.setMemmap (h : Still st mid) (response entries pointers maxEntries : Nat) :
    Still st (mid.setMemmap response entries pointers maxEntries) :=
  h.trans ⟨rfl, rfl, rfl⟩

theorem Still.setEfiMemmapResponse (h : Still st mid) (response : Nat) :
    Still st (mid.setEfiMemmapResponse response) :=
  h.trans ⟨rfl, rfl, rfl⟩

theorem Responded.setFb (h : Responded st mid req) (phys size : Nat) : Responded st (mid.setFb phys size) req :=
  h.imp_left fun still => still.trans ⟨rfl, rfl, rfl⟩

theorem alloc_still (st : LimineState) (size align : Nat) : Still st (st.alloc size align).1 := by
  refine ⟨rfl, rfl, ?_⟩
  change (limineArenaAlloc st.ctx size align).1.hhdmOffset = st.ctx.hhdmOffset
  unfold limineArenaAlloc
  split
  · rfl
  · dsimp only
    split <;> rfl

theorem arenaString_still (st : LimineState) (chars : List Nat) : Still st (arenaString st chars).1 := by
  have allocated := alloc_still st (chars.length + 1) 1
  unfold arenaString
  dsimp only
  split
  · exact allocated
  · exact allocated.trans ⟨rfl, rfl, rfl⟩

theorem arenaAsciiFromUcs2_still (st : LimineState) (src : Option (List Nat)) :
    Still st (arenaAsciiFromUcs2 st src).1 := by
  cases src with
  | none => exact Still.refl st
  | some src => exact arenaString_still st _

theorem cmdlineString_still (env : Env) (st : LimineState) : Still st (cmdlineString env st).1 := by
  unfold cmdlineString
  split
  · exact arenaAsciiFromUcs2_still st _
  · exact arenaString_still st _

theorem answer_responded (st : LimineState) (req : Nat) (kind : LimineRequestKind)
    {body : LimineState → LimineState × LimineResponse} (still : ∀ st, Still st (body st).1) :
    Responded st (answer st req kind body) req := by
  have allocated := alloc_still st kind.responseSize 8
  unfold answer
  dsimp only
  split
  · exact Or.inl allocated
  · exact (allocated.trans (still _)).respond req _ _

theorem answer_constant_responded (st : LimineState) (req : Nat) (kind : LimineRequestKind)
    (body : LimineState → LimineResponse) :
    Responded st (answer st req kind fun st => (st, body st)) req :=
  answer_responded st req kind fun st => Still.refl st

theorem answerBootloaderInfo_responded (env : Env) (st : LimineState) (req : Nat) :
    Responded st (answerBootloaderInfo env st req) req :=
  answer_responded st req .bootloaderInfo fun st =>
    (arenaString_still st bootloaderName).trans (arenaString_still _ env.versionString)

theorem answerCmdline_responded (env : Env) (st : LimineState) (req : Nat) :
    Responded st (answerCmdline env st req) req :=
  answer_responded st req .executableCmdline fun st => cmdlineString_still env st

theorem answerStackSize_responded (st : LimineState) (req : Nat) :
    Responded st (answerStackSize st req) req := by
  unfold answerStackSize
  dsimp only
  split
  · have raised : Still st (st.setStackSize (st.word (req + 48))) := ⟨rfl, rfl, rfl⟩
    exact Responded.after raised (answer_constant_responded _ req .stackSize fun _ => .stackSize)
  · exact answer_constant_responded st req .stackSize fun _ => .stackSize

theorem answerEntryPoint_responded (st : LimineState) (req : Nat) :
    Responded st (answerEntryPoint st req) req := by
  unfold answerEntryPoint
  dsimp only
  split
  · have replaced : Still st (st.setEntryPoint (st.word (req + 48))) := ⟨rfl, rfl, rfl⟩
    exact Responded.after replaced (answer_constant_responded _ req .entryPoint fun _ => .entryPoint)
  · exact answer_constant_responded st req .entryPoint fun _ => .entryPoint

theorem answerFramebuffer_responded (env : Env) (st : LimineState) (req : Nat) :
    Responded st (answerFramebuffer env st req) req := by
  unfold answerFramebuffer
  split
  · exact Or.inl (Still.refl st)
  · rename_i mode _
    split
    · exact Or.inl (Still.refl st)
    · have allocated := ((alloc_still st (LimineRequestKind.responseSize .framebuffer) 8).trans
        (alloc_still _ 80 8)).trans (alloc_still _ 8 8)
      dsimp only
      split
      · exact Or.inl allocated
      · exact (((allocated.put _ _).put _ _).respond req _ _).setFb _ _

theorem answerExecutableFile_responded (env : Env) (st : LimineState) (req : Nat) :
    Responded st (answerExecutableFile env st req) req := by
  unfold answerExecutableFile
  split
  · exact Or.inl (Still.refl st)
  · dsimp only
    split
    · exact Or.inl (Still.refl st)
    · rename_i copy _
      have given : Still st (st.setExecFile copy (u64 (st.ctx.fileSize + liminePageSize - 1) / liminePageSize)) :=
        ⟨rfl, rfl, rfl⟩
      have allocated := (given.trans (alloc_still _ (LimineRequestKind.responseSize .executableFile) 8)).trans
        (alloc_still _ 112 8)
      split
      · exact Or.inl allocated
      · have path := allocated.trans (arenaAsciiFromUcs2_still _ env.loaderPath)
        have file := path.trans (cmdlineString_still env _)
        exact (file.put _ _).respond req _ _

theorem reserveMemmap_responded (env : Env) (st : LimineState) (req : Nat) :
    Responded st (reserveMemmap env st req) req := by
  unfold reserveMemmap
  split
  · exact Or.inl (Still.refl st)
  · rename_i mapSize descSize _
    split
    · exact Or.inl (Still.refl st)
    · have allocated := ((alloc_still st (LimineRequestKind.responseSize .memmap) 8).trans
        (alloc_still _ (u64 (reservedEntries mapSize descSize * limineMemmapEntrySize)) 8)).trans
        (alloc_still _ (u64 (reservedEntries mapSize descSize * 8)) 8)
      dsimp only
      split
      · exact Or.inl allocated
      · exact (allocated.setMemmap _ _ _ _).respond req _ _

theorem answerEfiMemmap_responded (st : LimineState) (req : Nat) :
    Responded st (answerEfiMemmap st req) req := by
  have allocated := alloc_still st (LimineRequestKind.responseSize .efiMemmap) 8
  unfold answerEfiMemmap
  dsimp only
  split
  · exact Or.inl allocated
  · exact (allocated.setEfiMemmapResponse _).respond req _ _

/-- A request changes its own word for the response only. -/
theorem dispatchRequest_responded (env : Env) (st : LimineState) (req : Nat) :
    Responded st (dispatchRequest env st req) req := by
  unfold dispatchRequest
  split
  · exact answerBootloaderInfo_responded env st req
  · exact answerCmdline_responded env st req
  · exact answer_constant_responded st req _ _
  · exact answerStackSize_responded st req
  · exact answer_constant_responded st req _ _
  · exact answerFramebuffer_responded env st req
  · exact answer_constant_responded st req _ _
  · exact reserveMemmap_responded env st req
  · exact answerEntryPoint_responded st req
  · exact answerExecutableFile_responded env st req
  · exact answer_constant_responded st req _ _
  · unfold answerRsdp
    dsimp only
    generalize (if findConfigTable env limineAcpi20Guid = 0 then findConfigTable env limineAcpi10Guid
      else findConfigTable env limineAcpi20Guid) = rsdp
    split
    · exact Or.inl (Still.refl st)
    · exact answer_constant_responded st req .rsdp fun _ => .rsdp rsdp
  · unfold answerSmbios
    dsimp only
    split
    · exact Or.inl (Still.refl st)
    · exact answer_constant_responded st req _ _
  · exact answer_constant_responded st req _ _
  · exact answerEfiMemmap_responded st req
  · exact answer_constant_responded st req _ _
  · unfold answerDateAtBoot
    split
    · exact Or.inl (Still.refl st)
    · exact answer_constant_responded st req _ _
  · exact Or.inl (Still.refl st)
  · exact Or.inl (Still.refl st)

/-! ### One step of the search -/

/-- An answer is in the arena. -/
theorem searchStep_arena (sane : env.Sane) (ok : ArenaOk st.ctx) (addr : Nat) :
    ArenaOk (searchStep env st addr).ctx ∧ ((searchStep env st addr).answered = st.answered ∨
      ∃ a, (searchStep env st addr).answered = st.answered ++ [a] ∧
        a.response < (searchStep env st addr).frontier) := by
  have quietly : ∀ {st'}, Quiet st st' → ArenaOk st'.ctx ∧ (st'.answered = st.answered ∨
      ∃ a, st'.answered = st.answered ++ [a] ∧ a.response < st'.frontier) :=
    fun quiet => ⟨quiet.toGrows.ok ok, Or.inl quiet.answered⟩
  have answering : ∀ {st' req ptr response}, Answers st st' req ptr response → ArenaOk st'.ctx ∧
      (st'.answered = st.answered ∨ ∃ a, st'.answered = st.answered ++ [a] ∧ a.response < st'.frontier) :=
    fun answers => ⟨answers.toGrows.ok ok, Or.inr ⟨_, answers.answered, answers.below⟩⟩
  rcases searchStep_cases sane ok addr with ⟨_, eq⟩ | ⟨_, eq⟩ | ⟨_, _, quiet | ⟨_, _, _, answers, _⟩⟩
  · rw [eq]
    rcases reserveMemmap_spec sane ok with ⟨_, _, _, _, reserved⟩ | ⟨_, quiet⟩
    · exact answering reserved.answers
    · exact quietly quiet
  · rw [eq]
    rcases answerEfiMemmap_spec ok with ⟨_, _, answers, _⟩ | ⟨_, quiet⟩
    · exact answering answers
    · exact quietly quiet
  · exact quietly quiet
  · exact answering answers

theorem searchStep_none (env : Env) (absent : requestAt st addr = none) : searchStep env st addr = st := by
  unfold requestAt at absent
  unfold searchStep
  split at absent
  · rename_i other
    rw [if_pos other]
  · rename_i magic
    rw [if_neg magic, dispatchRequest, absent]

/-- A step changes one word of a request that it finds, to a word that is not a magic one. -/
theorem searchStep_word (sane : env.Sane) (ok : ArenaOk st.ctx) (addr : Nat) :
    (searchStep env st addr).word = st.word ∨ requestAt st addr ≠ none ∧ ∃ value, limineHhdmBase ≤ value ∧
      (searchStep env st addr).word = Function.update st.word (addr + 40) value := by
  by_cases absent : requestAt st addr = none
  · rw [searchStep_none env absent]
    exact Or.inl rfl
  have responded : Responded st (searchStep env st addr) addr := by
    unfold searchStep
    split
    · exact Or.inl (Still.refl st)
    · exact dispatchRequest_responded env st addr
  obtain ⟨ok', arena⟩ := searchStep_arena sane ok addr
  rcases responded with still | ⟨kind, ptr, answered, word⟩
  · exact Or.inl still.word
  refine Or.inr ⟨absent, _, ?_, word⟩
  have below : ptr < (searchStep env st addr).frontier := by
    rcases arena with none | ⟨a, one, below⟩
    · rw [none] at answered
      exact absurd answered (by simp)
    · obtain rfl := List.singleton_inj.mp (List.append_cancel_left (one.symm.trans answered))
      exact below
  have used := ok'.used
  have mapped := ok'.mapped
  have base : limineHhdmBase + 2 ^ 47 = 2 ^ 64 := rfl
  rw [LimineState.frontier] at below
  rw [toVirt, ok.hhdm, u64_of_lt (by omega)]
  exact Nat.le_add_left _ _

/-! ### The requests that are found -/

theorem requestAt_eq_some {kind : LimineRequestKind} :
    requestAt st addr = some kind ↔ st.word addr = 0xc7b1dd30df4c8b88 ∧
      st.word (addr + 8) = 0x0a82e883a194f07b ∧
      requestKind (st.word (addr + 16)) (st.word (addr + 24)) = some kind := by
  unfold requestAt
  split
  · rename_i other
    constructor
    · intro found
      cases found
    · rintro ⟨first, second, _⟩
      exact other.elim (absurd first) (absurd second)
  · rename_i magic
    rw [not_or, not_not, not_not] at magic
    simp [magic.1, magic.2]

/-- Every word that a request is known by is a magic one. -/
theorem requestAt_magic {kind : LimineRequestKind} (found : requestAt st addr = some kind) :
    ∀ k < 4, st.word (addr + 8 * k) ∈ searchMagic := by
  obtain ⟨first, second, kinds⟩ := requestAt_eq_some.mp found
  obtain ⟨third, fourth⟩ := requestKind_ids kinds
  intro k below
  match k, below with
  | 0, _ => rw [Nat.mul_zero, Nat.add_zero, first]; decide
  | 1, _ => rw [Nat.mul_one, second]; decide
  | 2, _ => exact List.mem_append_right _ third
  | 3, _ => exact List.mem_append_right _ fourth

theorem requestAt_congr (same : ∀ k < 4, st'.word (addr + 8 * k) = st.word (addr + 8 * k)) :
    requestAt st' addr = requestAt st addr := by
  unfold requestAt
  rw [show st'.word addr = st.word addr from same 0 (by decide), show st'.word (addr + 8) = _ from same 1 (by decide),
    show st'.word (addr + 16) = _ from same 2 (by decide), show st'.word (addr + 24) = _ from same 3 (by decide)]

/-- The state during the search: the answers so far replaced words of requests that it passed. -/
structure During (start st : LimineState) (before : List Nat) : Prop where
  arena : ArenaOk st.ctx
  word : ∀ a, st.word a = start.word a ∨ limineHhdmBase ≤ st.word a ∧
    ∃ req ∈ before, requestAt start req ≠ none ∧ a = req + 40

/-- None of these requests starts at the revision or the response of another. -/
def Unnested (start : LimineState) (addrs : List Nat) : Prop :=
  ∀ req ∈ addrs, ∀ addr ∈ addrs, requestAt start req ≠ none → requestAt start addr ≠ none →
    addr ≠ req + 32 ∧ addr ≠ req + 40

theorem During.requestAt_eq {start : LimineState} {before addrs : List Nat} (during : During start st before)
    (unnested : Unnested start addrs) (passed : before ⊆ addrs) (mem : addr ∈ addrs) :
    requestAt st addr = requestAt start addr := by
  cases here : requestAt start addr with
  | some kind =>
    rw [← here]
    apply requestAt_congr
    intro k below
    rcases during.word (addr + 8 * k) with same | ⟨_, req, earlier, found, place⟩
    · exact same
    obtain ⟨kind', request⟩ := Option.ne_none_iff_exists'.mp found
    have first := (requestAt_eq_some.mp here).1
    have ids := requestKind_ids (requestAt_eq_some.mp request).2.2
    have other : (0xc7b1dd30df4c8b88 : Nat) ∉ requestIds := by decide
    have far := unnested req (passed earlier) addr mem found (by rw [here]; exact Option.some_ne_none _)
    match k, below with
    | 0, _ => exact absurd place far.2
    | 1, _ => exact absurd (show addr = req + 32 by omega) far.1
    | 2, _ =>
      rw [show addr = req + 24 by omega] at first
      exact absurd (first ▸ ids.2) other
    | 3, _ =>
      rw [show addr = req + 16 by omega] at first
      exact absurd (first ▸ ids.1) other
  | none =>
    refine Option.eq_none_iff_forall_ne_some.mpr fun kind found => ?_
    have same : requestAt start addr = requestAt st addr := by
      apply requestAt_congr
      intro k below
      rcases during.word (addr + 8 * k) with same | ⟨above, _⟩
      · exact same.symm
      · exact absurd (searchMagic_lt _ (requestAt_magic found k below)) (Nat.not_lt_of_le above)
    rw [here, found] at same
    cases same

theorem During.step {start : LimineState} {before addrs : List Nat} (sane : env.Sane)
    (during : During start st before) (unnested : Unnested start addrs) (passed : before ⊆ addrs)
    (mem : addr ∈ addrs) : During start (searchStep env st addr) (before ++ [addr]) := by
  have found := during.requestAt_eq unnested passed mem
  refine ⟨(searchStep_arena sane during.arena addr).1, fun a => ?_⟩
  have earlier : st.word a = start.word a ∨ limineHhdmBase ≤ st.word a ∧
      ∃ req ∈ before ++ [addr], requestAt start req ≠ none ∧ a = req + 40 :=
    (during.word a).imp_right fun ⟨above, req, old, request, place⟩ =>
      ⟨above, req, List.mem_append_left _ old, request, place⟩
  rcases searchStep_word sane during.arena addr with same | ⟨request, value, above, word⟩
  · rw [same]
    exact earlier
  · rw [word]
    by_cases here : a = addr + 40
    · rw [here, Function.update_self]
      exact Or.inr ⟨above, addr, List.mem_append_right _ List.mem_cons_self, found ▸ request, rfl⟩
    · rw [Function.update_of_ne here]
      exact earlier

/-- The requests that the search finds and hands to their answers. -/
def dispatched (env : Env) : LimineState → List Nat → List Nat
  | _, [] => []
  | st, addr :: addrs =>
    (if requestAt st addr = none then [] else [addr]) ++ dispatched env (searchStep env st addr) addrs

theorem dispatched_during {start : LimineState} {before all : List Nat} (sane : env.Sane)
    (unnested : Unnested start all) (passed : before ⊆ all) {addrs : List Nat} (rest : addrs ⊆ all)
    (during : During start st before) :
    dispatched env st addrs = addrs.filter fun addr => requestAt start addr ≠ none := by
  induction addrs generalizing st before with
  | nil => rfl
  | cons addr addrs ih =>
    have mem := rest List.mem_cons_self
    have later := ih (List.append_subset.mpr ⟨passed, List.cons_subset.mpr ⟨mem, List.nil_subset _⟩⟩)
      (fun a h => rest (List.mem_cons_of_mem addr h)) (during.step sane unnested passed mem)
    rw [dispatched, later, during.requestAt_eq unnested passed mem, List.filter_cons]
    by_cases absent : requestAt start addr = none <;> simp [absent]

/-! ### What is read and written in the image -/

/-- The words that a comparison with these looks at. -/
def compared (word : Nat → Nat) (addr : Nat) : List Nat → List Nat
  | [] => []
  | magic :: magics => addr :: if word addr = magic then compared word (addr + 8) magics else []

def baseRevisionAccesses (st : LimineState) : List Nat :=
  let addrs := candidates st.ctx.imagePhys (st.ctx.imageSize / 8) 2
  (addrs.takeWhile (!isBaseRevision st ·)).flatMap (compared st.word · baseRevisionMagic) ++
    match addrs.find? (isBaseRevision st) with
    | some tag => compared st.word tag baseRevisionMagic ++ [tag + 16,
        if st.word (tag + 16) ≤ limineMaxBaseRevision then tag + 16 else tag + 8]
    | none => []

def narrowAccesses (st : LimineState) : List Nat :=
  (candidates st.ctx.imagePhys (st.ctx.imageSize / 8) 3).flatMap fun addr =>
    compared st.word addr requestsStartMagic ++
      if isRequestsStart st addr then [] else compared st.word addr requestsEndMagic

/-- The word after the response, for the requests that have one of their own. -/
def ownWord (addr : Nat) : LimineRequestKind → List Nat
  | .stackSize | .entryPoint => [addr + 48]
  | _ => []

def requestAccesses (env : Env) (st : LimineState) (addr : Nat) : List Nat :=
  compared st.word addr requestMagic ++
    if st.word addr ≠ 0xc7b1dd30df4c8b88 ∨ st.word (addr + 8) ≠ 0x0a82e883a194f07b then []
    else [addr + 16, addr + 24] ++ (requestAt st addr).elim [] (ownWord addr) ++
      if (dispatchRequest env st addr).answered.length = st.answered.length then [] else [addr + 40]

def searchAccesses (env : Env) : LimineState → List Nat → List Nat
  | _, [] => []
  | st, addr :: addrs => requestAccesses env st addr ++ searchAccesses env (searchStep env st addr) addrs

/-- Every word of the image that `LimineAnswerRequests` reads or writes, by its address. -/
def imageAccesses (env : Env) (st : LimineState) : List Nat :=
  baseRevisionAccesses st ++ narrowAccesses (revised st) ++
    searchAccesses env (prepareSearch st) (searched (prepareSearch st))

theorem mem_compared {word : Nat → Nat} {magics : List Nat} {a : Nat} (mem : a ∈ compared word addr magics) :
    ∃ k < magics.length, a = addr + 8 * k := by
  induction magics generalizing addr with
  | nil => cases mem
  | cons magic magics ih =>
    rw [compared] at mem
    rcases List.mem_cons.mp mem with rfl | later
    · exact ⟨0, Nat.succ_pos _, rfl⟩
    · split at later
      · obtain ⟨k, below, place⟩ := ih later
        exact ⟨k + 1, Nat.succ_lt_succ below, by omega⟩
      · cases later

variable {ctx : LimineCtx}

theorem candidate_inImage {words span k : Nat} (size : words ≤ ctx.words)
    (mem : addr ∈ candidates ctx.imagePhys words span) (below : k ≤ span) : InImage ctx (addr + 8 * k) := by
  obtain ⟨i, lt, rfl⟩ := mem_candidates.mp mem
  rw [Nat.add_assoc, ← Nat.mul_add]
  exact wordAddr_inImage (by omega)

theorem baseRevisionAccesses_inside (st : LimineState) : ∀ a ∈ baseRevisionAccesses st, InImage st.ctx a := by
  have inside : ∀ addr ∈ candidates st.ctx.imagePhys (st.ctx.imageSize / 8) 2, ∀ k ≤ 2,
      InImage st.ctx (addr + 8 * k) := fun addr mem k below => candidate_inImage (Nat.le_refl _) mem below
  have looked : ∀ addr ∈ candidates st.ctx.imagePhys (st.ctx.imageSize / 8) 2,
      ∀ a ∈ compared st.word addr baseRevisionMagic, InImage st.ctx a := by
    intro addr mem a read
    obtain ⟨k, below, rfl⟩ := mem_compared read
    exact inside addr mem k (Nat.le_of_lt below)
  intro a mem
  rw [baseRevisionAccesses] at mem
  rcases List.mem_append.mp mem with before | found
  · obtain ⟨addr, passed, read⟩ := List.mem_flatMap.mp before
    exact looked addr (List.takeWhile_subset _ passed) a read
  · split at found
    · rename_i tag tagged
      have candidate := List.mem_of_find?_eq_some tagged
      rcases List.mem_append.mp found with read | revision
      · exact looked tag candidate a read
      · rcases List.mem_cons.mp revision with rfl | written
        · exact inside tag candidate 2 (Nat.le_refl 2)
        · obtain rfl := List.mem_singleton.mp written
          split
          · exact inside tag candidate 2 (Nat.le_refl 2)
          · exact inside tag candidate 1 (by decide)
    · cases found

theorem narrowAccesses_inside (st : LimineState) : ∀ a ∈ narrowAccesses st, InImage st.ctx a := by
  intro a mem
  obtain ⟨addr, candidate, read⟩ := List.mem_flatMap.mp mem
  have inside : ∀ k ≤ 3, InImage st.ctx (addr + 8 * k) := fun k below =>
    candidate_inImage (Nat.le_refl _) candidate below
  rcases List.mem_append.mp read with start | stop
  · obtain ⟨k, below, rfl⟩ := mem_compared start
    exact inside k (Nat.le_of_lt_succ below)
  · split at stop
    · cases stop
    · obtain ⟨k, below, rfl⟩ := mem_compared stop
      exact inside k ((Nat.le_of_lt_succ below).trans (by decide))

theorem mem_requestAccesses {a : Nat} (mem : a ∈ requestAccesses env st addr) :
    (∃ k < 6, a = addr + 8 * k) ∨
      ∃ kind, requestAt st addr = some kind ∧ (kind = .stackSize ∨ kind = .entryPoint) ∧ a = addr + 48 := by
  rw [requestAccesses] at mem
  rcases List.mem_append.mp mem with read | rest
  · obtain ⟨k, below, rfl⟩ := mem_compared read
    exact Or.inl ⟨k, below.trans (by decide), rfl⟩
  split at rest
  · cases rest
  rcases List.mem_append.mp rest with read | written
  · rcases List.mem_append.mp read with ids | own
    · rcases List.mem_cons.mp ids with rfl | second
      · exact Or.inl ⟨2, by decide, rfl⟩
      · exact Or.inl ⟨3, by decide, List.mem_singleton.mp second⟩
    · cases found : requestAt st addr with
      | none =>
        rw [found] at own
        cases own
      | some kind =>
        rw [found, Option.elim] at own
        refine Or.inr ⟨kind, rfl, ?_⟩
        unfold ownWord at own
        split at own
        · exact ⟨Or.inl rfl, List.mem_singleton.mp own⟩
        · exact ⟨Or.inr rfl, List.mem_singleton.mp own⟩
        · cases own
  · split at written
    · cases written
    · exact Or.inl ⟨5, by decide, List.mem_singleton.mp written⟩

theorem searchAccesses_during {start : LimineState} {before all : List Nat} (sane : env.Sane)
    (unnested : Unnested start all) (passed : before ⊆ all) {addrs : List Nat} (rest : addrs ⊆ all)
    (during : During start st before) : ∀ a ∈ searchAccesses env st addrs, ∃ addr ∈ addrs,
      (∃ k < 6, a = addr + 8 * k) ∨ ∃ kind, requestAt start addr = some kind ∧
        (kind = .stackSize ∨ kind = .entryPoint) ∧ a = addr + 48 := by
  induction addrs generalizing st before with
  | nil => exact nofun
  | cons addr addrs ih =>
    have mem := rest List.mem_cons_self
    have later := ih (List.append_subset.mpr ⟨passed, List.cons_subset.mpr ⟨mem, List.nil_subset _⟩⟩)
      (fun a h => rest (List.mem_cons_of_mem addr h)) (during.step sane unnested passed mem)
    intro a accessed
    rcases List.mem_append.mp accessed with here | after
    · have read := mem_requestAccesses here
      rw [during.requestAt_eq unnested passed mem] at read
      exact ⟨addr, List.mem_cons_self, read⟩
    · obtain ⟨other, later, read⟩ := later a after
      exact ⟨other, List.mem_cons_of_mem addr later, read⟩

/-! ### The search as a whole -/

theorem revised_ctx (st : LimineState) : ∃ tag revision, (revised st).ctx = { st.ctx with
    baseRevisionTag := tag, baseRevision := revision, stackSize := limineDefaultStackSize } := by
  unfold revised
  dsimp only
  split
  · unfold handleBaseRevision
    dsimp only
    split <;> exact ⟨_, _, rfl⟩
  · exact ⟨_, _, rfl⟩

theorem revised_loaded (loaded : Loaded st.ctx) : Loaded (revised st).ctx := by
  obtain ⟨tag, revision, eq⟩ := revised_ctx st
  rw [eq]
  exact ⟨⟨loaded.arena.present, loaded.arena.mapped, loaded.arena.used, loaded.arena.hhdm⟩, loaded.present,
    loaded.fits, loaded.start, loaded.stop⟩

/-- The base revision does not move the area. -/
theorem revised_driverArea (st : LimineState) : driverArea (revised st) = driverArea st := by
  obtain ⟨tag, revision, eq⟩ := revised_ctx st
  have words : (revised st).ctx.words = st.ctx.words := by rw [eq]; rfl
  have wordAddr : (revised st).ctx.wordAddr = st.ctx.wordAddr := by rw [eq]; rfl
  have same := revised_magic st
  simp only [driverArea, lastStart, lastEndSeen, words, wordAddr, same.isRequestsStart_eq, same.isRequestsEnd_eq]

theorem prepareSearch_requestAt (st : LimineState) (addr : Nat) :
    requestAt (prepareSearch st) addr = requestAt st addr := by
  have word : (prepareSearch st).word = (revised st).word := narrowSearchArea_word (revised st)
  have same : requestAt (prepareSearch st) addr = requestAt (revised st) addr :=
    requestAt_congr fun k _ => by rw [word]
  rw [same, (revised_magic st).requestAt_eq]

theorem prepareSearch_arena (loaded : Loaded st.ctx) : ArenaOk (prepareSearch st).ctx :=
  (prepareSearch_quiet loaded.arena).toGrows.ok loaded.arena

theorem mem_searched_prepared (loaded : Loaded st.ctx) :
    addr ∈ searched (prepareSearch st) ↔
      ∃ i, (driverArea st).1 ≤ i ∧ i + 6 ≤ (driverArea st).2 ∧ addr = st.ctx.wordAddr i := by
  obtain ⟨tag, revision, eq⟩ := revised_ctx st
  have wordAddr : (revised st).ctx.wordAddr = st.ctx.wordAddr := by rw [eq]; rfl
  rw [prepareSearch_eq, mem_searched (revised_loaded loaded), revised_driverArea, wordAddr]

theorem driverArea_words (st : LimineState) : (driverArea st).2 ≤ st.ctx.words := by
  rcases driverArea_cases st with ⟨first, stop, _, seen, _, area⟩ | ⟨_, area⟩
  · have inside := (lastIndex_eq_some.mp seen).1
    rw [area]
    omega
  · rw [area]

theorem requestArea_words (st : LimineState) : (requestArea st).2 ≤ st.ctx.words := by
  unfold requestArea
  split
  · rename_i first stop _ found
    have inside := (lastIndex_eq_some.mp found).1
    split
    · dsimp only
      omega
    · exact Nat.le_refl _
  · exact Nat.le_refl _

/-- The words of the structure, by the requests' types in `limine_proto.h`. -/
def requestWords : LimineRequestKind → Nat
  | .stackSize | .entryPoint => 7
  | .module => 8
  | .pagingMode => 9
  | _ => 6

/-- The image is not left, and what is found are the requests with all their words in the area. -/
def ScanExact (env : Env) (st : LimineState) : Prop :=
  (∀ a ∈ imageAccesses env st, InImage st.ctx a) ∧
  ∀ addr, addr ∈ dispatched env (prepareSearch st) (searched (prepareSearch st)) ↔
    ∃ i kind, addr = st.ctx.wordAddr i ∧ requestAt st addr = some kind ∧
      (requestArea st).1 ≤ i ∧ i + requestWords kind ≤ (requestArea st).2

/-- No request of the searched words starts at the revision or the response of another. -/
def RequestsUnnested (st : LimineState) : Prop :=
  ∀ i j, (driverArea st).1 ≤ i → i < j → j + 6 ≤ (driverArea st).2 →
    requestAt st (st.ctx.wordAddr i) ≠ none → requestAt st (st.ctx.wordAddr j) ≠ none → j ≠ i + 4 ∧ j ≠ i + 5

/-- The driver's bounds take in the requests that are in the area with all their words. -/
def BoundsAgree (st : LimineState) : Prop :=
  ∀ i kind, requestAt st (st.ctx.wordAddr i) = some kind →
    ((driverArea st).1 ≤ i ∧ i + 6 ≤ (driverArea st).2 ↔
      (requestArea st).1 ≤ i ∧ i + requestWords kind ≤ (requestArea st).2)

theorem unnested_searched (loaded : Loaded st.ctx) (unnested : RequestsUnnested st) :
    Unnested (prepareSearch st) (searched (prepareSearch st)) := by
  intro req mem addr mem' found found'
  rw [prepareSearch_requestAt] at found found'
  obtain ⟨i, above, below, rfl⟩ := (mem_searched_prepared loaded).mp mem
  obtain ⟨j, above', below', rfl⟩ := (mem_searched_prepared loaded).mp mem'
  have far := fun lt => unnested i j above lt below' found found'
  simp only [LimineCtx.wordAddr]
  omega

theorem mem_dispatched (sane : env.Sane) (loaded : Loaded st.ctx) (unnested : RequestsUnnested st) :
    addr ∈ dispatched env (prepareSearch st) (searched (prepareSearch st)) ↔
      ∃ i kind, addr = st.ctx.wordAddr i ∧ requestAt st addr = some kind ∧
        (driverArea st).1 ≤ i ∧ i + 6 ≤ (driverArea st).2 := by
  have start : During (prepareSearch st) (prepareSearch st) [] :=
    ⟨prepareSearch_arena loaded, fun _ => Or.inl rfl⟩
  rw [dispatched_during sane (unnested_searched loaded unnested) (List.nil_subset _) (List.Subset.refl _) start,
    List.mem_filter, mem_searched_prepared loaded, decide_eq_true_eq, prepareSearch_requestAt,
    Option.ne_none_iff_exists']
  constructor
  · rintro ⟨⟨i, above, below, place⟩, kind, found⟩
    exact ⟨i, kind, place, found, above, below⟩
  · rintro ⟨i, kind, place, found, above, below⟩
    exact ⟨⟨i, above, below, place⟩, kind, found⟩

theorem wordAddr_injective (ctx : LimineCtx) : Function.Injective ctx.wordAddr := by
  intro i j same
  simp only [LimineCtx.wordAddr] at same
  omega

theorem imageAccesses_inside (sane : env.Sane) (loaded : Loaded st.ctx) (unnested : RequestsUnnested st)
    (agree : BoundsAgree st) : ∀ a ∈ imageAccesses env st, InImage st.ctx a := by
  obtain ⟨tag, revision, eq⟩ := revised_ctx st
  intro a mem
  rcases List.mem_append.mp mem with before | search
  · rcases List.mem_append.mp before with base | narrow
    · exact baseRevisionAccesses_inside st a base
    · have inside := narrowAccesses_inside (revised st) a narrow
      rw [eq] at inside
      exact inside
  have start : During (prepareSearch st) (prepareSearch st) [] :=
    ⟨prepareSearch_arena loaded, fun _ => Or.inl rfl⟩
  obtain ⟨addr, searchedAddr, read⟩ := searchAccesses_during sane (unnested_searched loaded unnested)
    (List.nil_subset _) (List.Subset.refl _) start a search
  obtain ⟨i, above, below, rfl⟩ := (mem_searched_prepared loaded).mp searchedAddr
  have size := driverArea_words st
  rcases read with ⟨k, lt, rfl⟩ | ⟨kind, found, own, rfl⟩
  · have inside := @wordAddr_inImage st.ctx (i + k) (by omega)
    rwa [LimineCtx.wordAddr, Nat.mul_add, ← Nat.add_assoc] at inside
  · rw [prepareSearch_requestAt] at found
    have whole := ((agree i kind found).mp ⟨above, below⟩).2
    have seven : requestWords kind = 7 := by
      rcases own with rfl | rfl <;> rfl
    have size' := requestArea_words st
    have inside := @wordAddr_inImage st.ctx (i + 6) (by omega)
    rwa [LimineCtx.wordAddr, Nat.mul_add, ← Nat.add_assoc] at inside

/-- The sample machine with an image of these words. -/
def sampleState (word : Nat → Nat) : LimineState := { ctx := sampleCtx, word := word }

theorem sampleCtx_loaded : Loaded sampleCtx := ⟨sampleCtx_ok, by decide, by decide, rfl, rfl⟩

/-- The request for the firmware's memory map is the only one of its image. -/
theorem efiMemmapWord_request {i : Nat} {kind : LimineRequestKind}
    (found : requestAt (sampleState efiMemmapWord) (sampleCtx.wordAddr i) = some kind) :
    i = 8 ∧ kind = .efiMemmap := by
  have first := (requestAt_eq_some.mp found).1
  have place : sampleCtx.wordAddr i = 0x100040 := by
    simp only [sampleState, efiMemmapWord, requestWord] at first
    split at first
    · assumption
    · split at first <;> [skip; (split at first <;> [skip; split at first])] <;> cases first
  have here : i = 8 := by
    have base : sampleCtx.imagePhys = 0x100000 := rfl
    rw [LimineCtx.wordAddr, base] at place
    omega
  have only : requestAt (sampleState efiMemmapWord) 0x100040 = some .efiMemmap := by decide
  rw [place, only] at found
  exact ⟨here, (Option.some.inj found).symm⟩

/-- An image that ends with the six common words of a stack size request. -/
def cutWord (addr : Nat) : Nat := requestWord 0x100fd0 0x224ef0460a8e8926 0xe1cb0fc25f46ea3d addr

/-- An image with a request in front of the start marker, and the end marker in its last two words. -/
def lateEndWord (addr : Nat) : Nat :=
  if addr = 0x100040 then 0xf6b8f4b39de7d1ae
  else if addr = 0x100048 then 0xfab91a6940fcb9cf
  else if addr = 0x100050 then 0x785c6ed015d3e316
  else if addr = 0x100058 then 0x181e920a7852b9d9
  else if addr = 0x100ff0 then 0xadc0e0531bb10d03
  else if addr = 0x100ff8 then 0x9572709f31764c62
  else requestWord 0x100000 0x48dcf1cb8ad2b852 0x63984e959a98244b addr

end Meridian.Limine
