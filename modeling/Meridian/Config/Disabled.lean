import Meridian.Config.Layout

/-!
# Disabled submenu blocks

A disabled block is passed over when a volume line comes before its mark, and no volume line of the
stanza comes before the block. In the other cases the rest of the block is read as the stanza's own
lines, or the stanza is taken for disabled.
-/

namespace Meridian.Config

open Text Menu

variable {V : Type} (env : StanzaEnv V)

/-- The stanza is disabled itself, or neither look-ahead stops at the block's mark. -/
def BlockClosed (pre post : List Item) (body : Lines) : Prop :=
  (∃ line ∈ ownLines (pre ++ post), isDisabled line = true) ∨
    volumeFirst body = true ∧ ∀ line ∈ ownLines pre, isVolume line = false

theorem ownLines_append (items more : List Item) :
    ownLines (items ++ more) = ownLines items ++ ownLines more := List.filterMap_append

/-- A stanza with a mark of its own has no entry. -/
theorem stanzaEntry_marked {items : List Item} (valid : ∀ item ∈ items, item.Valid)
    (marked : ∃ line ∈ ownLines items, isDisabled line = true) (selfVolume : V) (title : Str)
    (rest : Lines) : stanzaEntry env (linesOf items ++ rest) selfVolume title = none := by
  obtain ⟨position, stops⟩ :=
    volumeLoop_marked env.toVolumeEnv valid marked false selfVolume rest
  rw [stanzaEntry, initializeStanza, getStanzaVolume, stops]
  rfl

/-- The look-ahead of a stanza counts the marks of its blocks from its first volume line on. -/
theorem volumeLoop_later_mark {pre later : List Item} (valid : ∀ item ∈ pre ++ later, item.Valid)
    (volume : ∃ line ∈ ownLines pre, isVolume line = true) (marked : later.any Item.marked = true)
    {brace : Line} (closes : isToken brace "\x7d" = true) (subject : V) (rest : Lines) :
    ∃ position, stanzaVolumeLoop env.toVolumeEnv 0 false subject
      (linesOf (pre ++ later) ++ brace :: rest) = .error position := by
  induction pre with
  | nil =>
    obtain ⟨line, mem, _⟩ := volume
    exact absurd mem List.not_mem_nil
  | cons item pre ih =>
    rw [List.cons_append] at valid ⊢
    obtain ⟨here, others⟩ := List.forall_mem_cons.mp valid
    rw [linesOf_cons]
    cases item with
    | submenu header body close =>
      rw [volumeLoop_submenu env.toVolumeEnv here]
      exact ih others volume
    | line tokens =>
      show ∃ position, stanzaVolumeLoop env.toVolumeEnv 0 false subject
        (tokens :: (linesOf (pre ++ later) ++ brace :: rest)) = .error position
      rw [volumeLoop_line env.toVolumeEnv here]
      split
      · exact ⟨_, rfl⟩
      · split
        · rename_i quiet
          apply ih others
          obtain ⟨line, mem, isVolume⟩ := volume
          obtain rfl | mem := List.mem_cons.mp mem
          · rw [isVolume] at quiet
            cases quiet
          · exact ⟨line, mem, isVolume⟩
        · have found : (pre ++ later).any Item.marked = true := by
            rw [List.any_append, marked, Bool.or_true]
          rw [getIsDisabled_items others closes, if_pos found, if_pos rfl]
          exact ⟨_, rfl⟩

theorem itemsRun_append (volume : V) (st : StanzaState V) (items more : List Item) :
    itemsRun env volume st (items ++ more) =
      match itemsRun env volume st items with
      | .ok st' => itemsRun env volume st' more
      | .error st' => .error st' := by
  rw [itemsRun, List.foldlM_append]
  cases same : List.foldlM (itemStep env volume) st items with
  | ok st' =>
    rw [itemsRun, same]
    rfl
  | error st' =>
    rw [itemsRun, same]
    rfl

section

variable {pre post : List Item} {header : Line} {body : Lines} {close brace : Line}
variable (before : ∀ item ∈ pre, item.Valid) (behind : ∀ item ∈ post, item.Valid)
variable (block : ValidBlock header body close) (marked : body.any isDisabled = true)
variable (closes : isToken brace "\x7d" = true)

include before behind block in
theorem with_block_valid : ∀ item ∈ pre ++ .submenu header body close :: post, item.Valid := by
  intro item mem
  obtain left | right := List.mem_append.mp mem
  · exact before item left
  · obtain rfl | later := List.mem_cons.mp right
    · exact block
    · exact behind item later

include before behind in
theorem without_block_valid : ∀ item ∈ pre ++ post, item.Valid := by
  intro item mem
  exact (List.mem_append.mp mem).elim (before item) (behind item)

include before behind block marked closes in
/-- A closed block leaves no trace. -/
theorem stanzaEntry_closed (closed : BlockClosed pre post body) (selfVolume : V) (title : Str)
    (rest : Lines) :
    stanzaEntry env (linesOf (pre ++ .submenu header body close :: post) ++ brace :: rest) selfVolume
        title =
      stanzaEntry env (linesOf (pre ++ post) ++ brace :: rest) selfVolume title := by
  have whole := with_block_valid before behind block
  have bare := without_block_valid before behind
  have own : ownLines (pre ++ .submenu header body close :: post) = ownLines (pre ++ post) := by
    rw [ownLines_append, ownLines_append]
    rfl
  by_cases disabled : ∃ line ∈ ownLines (pre ++ post), isDisabled line = true
  · rw [stanzaEntry_marked env bare disabled]
    apply stanzaEntry_marked env whole
    rw [own]
    exact disabled
  · obtain itself | ⟨first, noVolume⟩ := closed
    · exact absurd itself disabled
    · have quiet : ∀ line ∈ ownLines pre, isDisabled line = false ∧ isVolume line = false := by
        intro line mem
        refine ⟨?_, noVolume line mem⟩
        rw [← Bool.not_eq_true]
        intro mark
        apply disabled
        rw [ownLines_append]
        exact ⟨line, List.mem_append_left _ mem, mark⟩
      have sameVolume : stanzaVolumeLoop env.toVolumeEnv 0 false selfVolume
          (linesOf (pre ++ .submenu header body close :: post) ++ brace :: rest) =
          stanzaVolumeLoop env.toVolumeEnv 0 false selfVolume
            (linesOf (pre ++ post) ++ brace :: rest) := by
        rw [linesOf_append, linesOf_append, linesOf_cons, volumeLoop_quiet env.toVolumeEnv before quiet,
          volumeLoop_quiet env.toVolumeEnv before quiet, volumeLoop_submenu env.toVolumeEnv block]
      have sameRun (volume : V) (st : StanzaState V) :
          itemsRun env volume st (pre ++ .submenu header body close :: post) =
            itemsRun env volume st (pre ++ post) := by
        rw [itemsRun_append, itemsRun_append]
        cases itemsRun env volume st pre with
        | error st' => rfl
        | ok st' =>
          show itemsRun env volume st' (.submenu header body close :: post) = _
          rw [itemsRun_cons, itemStep, marked, if_pos rfl, first, if_pos rfl]
      rw [stanzaEntry, stanzaEntry, initializeStanza, initializeStanza, getStanzaVolume,
        getStanzaVolume, sameVolume]
      cases stanzaVolumeLoop env.toVolumeEnv 0 false selfVolume
          (linesOf (pre ++ post) ++ brace :: rest) with
      | error position => rfl
      | ok volume =>
        dsimp only
        rw [stanzaLoop_items env volume whole closes, stanzaLoop_items env volume bare closes, sameRun]

include before behind block marked closes in
/-- A disabled block is without effect on the stanza when it is closed, whatever its other lines are.
Behind a volume line of the stanza it disables the stanza; and the reader stands behind the block's
end exactly when the block's first volume or mark is a volume. -/
theorem disabledBlock_isolated (selfVolume : V) (title : Str) (rest : Lines) :
    (BlockClosed pre post body →
      stanzaEntry env (linesOf (pre ++ .submenu header body close :: post) ++ brace :: rest)
          selfVolume title =
        stanzaEntry env (linesOf (pre ++ post) ++ brace :: rest) selfVolume title ∧
      ∀ body', ValidBlock header body' close → body'.any isDisabled = true →
        BlockClosed pre post body' →
        stanzaEntry env (linesOf (pre ++ .submenu header body' close :: post) ++ brace :: rest)
            selfVolume title =
          stanzaEntry env (linesOf (pre ++ .submenu header body close :: post) ++ brace :: rest)
            selfVolume title) ∧
    ((∃ line ∈ ownLines pre, isVolume line = true) →
      stanzaEntry env (linesOf (pre ++ .submenu header body close :: post) ++ brace :: rest)
        selfVolume title = none) ∧
    ∀ (entry : StanzaEntry V) (volume : V),
      (addSubmenu env entry (body ++ close :: (linesOf post ++ brace :: rest)) volume
          header[1]?).2.2 = linesOf post ++ brace :: rest ↔ volumeFirst body = true := by
  refine ⟨?_, ?_, ?_⟩
  · intro closed
    have same := stanzaEntry_closed env before behind block marked closes closed selfVolume title rest
    refine ⟨same, ?_⟩
    intro body' block' marked' closed'
    rw [same]
    exact stanzaEntry_closed env before behind block' marked' closes closed' selfVolume title rest
  · intro volume
    have counted : (Item.submenu header body close :: post).any Item.marked = true := by
      rw [List.any_cons, Item.marked, marked, Bool.true_or]
    obtain ⟨position, stops⟩ := volumeLoop_later_mark env (with_block_valid before behind block)
      volume counted closes selfVolume rest
    rw [stanzaEntry, initializeStanza, getStanzaVolume, stops]
    rfl
  · intro entry volume
    rw [addSubmenu_disabled env volume block marked]
    cases first : volumeFirst body with
    | true => exact ⟨fun _ => rfl, fun _ => rfl⟩
    | false =>
      constructor
      · intro same
        have lengths := congrArg List.length same
        rw [if_neg Bool.false_ne_true, List.length_append, List.length_cons] at lengths
        omega
      · intro impossible
        cases impossible

end

/-! ### A stanza with one block -/

theorem wordLine_block {body : Lines}
    (plain : ∀ line ∈ body, isToken line "\x7d" = false ∧ isToken line "submenuentry" = false) :
    ValidBlock (wordLine ["submenuentry", "S"]) body (wordLine ["\x7d"]) :=
  ⟨by decide +kernel, fun line mem => ⟨(plain line mem).1, (plain line mem).2⟩, by decide +kernel⟩

theorem disabledBlock_isolated_volume :
    stanzaEntry plainStanzaEnv
        (linesOf ([] ++ .submenu (wordLine ["submenuentry", "S"])
          [wordLine ["volume", "A"], wordLine ["disabled"], wordLine ["loader", "b"]]
          (wordLine ["\x7d"]) :: [.line (wordLine ["loader", "a"])]) ++ wordLine ["\x7d"] :: []) () "T".toList =
      stanzaEntry plainStanzaEnv
        (linesOf ([] ++ [.line (wordLine ["loader", "a"])]) ++ wordLine ["\x7d"] :: []) () "T".toList := by
  have plainLoader : Item.Valid (.line (wordLine ["loader", "a"])) :=
    ⟨by decide +kernel, by decide +kernel⟩
  have closed : BlockClosed [] [.line (wordLine ["loader", "a"])]
      [wordLine ["volume", "A"], wordLine ["disabled"], wordLine ["loader", "b"]] := by
    right
    refine ⟨by decide +kernel, ?_⟩
    intro line mem
    cases mem
  exact ((disabledBlock_isolated plainStanzaEnv (fun _ mem => absurd mem List.not_mem_nil)
    (List.forall_mem_singleton.mpr plainLoader) (wordLine_block (by decide +kernel))
    (by decide +kernel) (by decide +kernel) () "T".toList []).1 closed).1

/-- The loader line behind the mark becomes the stanza's. -/
theorem disabledBlock_leaks :
    stanzaEntry plainStanzaEnv
        (linesOf [.line (wordLine ["loader", "a"]),
          .submenu (wordLine ["submenuentry", "S"]) [wordLine ["disabled"], wordLine ["loader", "b"]]
            (wordLine ["\x7d"])] ++ [wordLine ["\x7d"]]) () "T".toList ≠
      stanzaEntry plainStanzaEnv
        (linesOf [.line (wordLine ["loader", "a"]),
          .submenu (wordLine ["submenuentry", "S"]) [wordLine ["disabled"]] (wordLine ["\x7d"])] ++
          [wordLine ["\x7d"]]) () "T".toList := by
  decide +kernel

end Meridian.Config
