import Meridian.Config.CsvList

/-!
# Hiding the Preboot items

The model of `HidePreboot` of `tools/tools.c`. It walks a copy of the pointer that the configuration holds, so a
deletion that frees the list leaves the configuration behind. Allocations succeed.
-/

namespace Meridian.Config

open Text Lib.Search

/-- The lists of the configuration; `none` is the null pointer. -/
structure DontScanLists where
  dirs : Option Str
  files : Option Str
  volumes : Option Str

/-- What a field of the configuration points at. -/
inductive Field where
  | holds (list : Option Str)
  | freed
  deriving DecidableEq, Repr

def ourSkipList (type : Str) (config : DontScanLists) : Option Str :=
  if equalsCI type "DontScanDirs".toList then config.dirs
  else if equalsCI type "DontScanFiles".toList then config.files
  else config.volumes

def isPreboot (item : Str) : Bool :=
  equalsCI item "PreBoot".toList || mrdStrIncludesCI item "PreBoot:".toList

/-- `DeleteItemFromCsvList` comes to its `MRD_FREE_POOL(*List)`. -/
def freesList (toDelete list : Str) : Bool :=
  match mrdStrFind list toDelete with
  | none => false
  | some found => ',' ∈ found && ((partBefore toDelete list).isSome || (partAfter toDelete list).isSome)

/-- The variables of the loop, whether the configuration still points at the list, and the deletions so far. -/
structure HideState where
  i : Nat := 0
  flagDontScan : Bool := false
  list : Option Str
  shared : Bool := true
  deletions : Nat := 0
  deriving DecidableEq, Repr

/-- The round of an item that is to be hidden. -/
def HideState.delete (s : HideState) (freed : Nat → Str → Str) (ourItem : Str) : HideState where
  i := s.i
  flagDontScan := true
  list := (deleteItemFromCsvList (freed s.deletions) (some ourItem) s.list).list
  shared := s.shared && !s.list.any (freesList ourItem)
  deletions := s.deletions + 1

/-- The loop; it may go on for ever. `freed k` is what freed memory holds by the deletion `k`. -/
def hideLoop (freed : Nat → Str → Str) : Nat → HideState → Option HideState
  | 0, _ => none
  | fuel + 1, s =>
    match (csvItems s.list)[s.i]? with
    | none => some s
    | some ourItem =>
      if !isPreboot ourItem then hideLoop freed fuel { s with i := s.i + 1 }
      else hideLoop freed fuel (s.delete freed ourItem)

def HideState.field (s : HideState) : Field := if s.shared then .holds s.list else .freed

/-- The answer, and what the configuration points at by then. -/
def hidePreboot (freed : Nat → Str → Str) (fuel : Nat) (type : Str) (config : DontScanLists) :
    Option (Bool × Field) :=
  (hideLoop freed fuel { list := ourSkipList type config }).map fun s => (s.flagDontScan, s.field)

/-- The answer says whether there was such an item, and the configuration holds the list without them. -/
structure HidesPreboot (list : Option Str) (result : Bool × Field) : Prop where
  answer : result.1 = true ↔ ∃ item ∈ csvItems list, isPreboot item = true
  live : ∃ left, result.2 = .holds left ∧ left.isSome = list.isSome ∧
    csvItems left = (csvItems list).filter (!isPreboot ·)

/-! ### The rounds -/

section Rounds

variable {freed : Nat → Str → Str} {s s' : HideState} {ourItem : Str} {fuel : Nat}

theorem hideLoop_last (ended : (csvItems s.list)[s.i]? = none) : hideLoop freed (fuel + 1) s = some s := by
  rw [hideLoop, ended]

theorem hideLoop_shown (read : (csvItems s.list)[s.i]? = some ourItem) (shown : isPreboot ourItem = false) :
    hideLoop freed (fuel + 1) s = hideLoop freed fuel { s with i := s.i + 1 } := by
  rw [hideLoop, read]
  dsimp only
  rw [shown, Bool.not_false, if_pos rfl]

theorem hideLoop_hidden (read : (csvItems s.list)[s.i]? = some ourItem) (hidden : isPreboot ourItem = true) :
    hideLoop freed (fuel + 1) s = hideLoop freed fuel (s.delete freed ourItem) := by
  rw [hideLoop, read]
  dsimp only
  rw [hidden, Bool.not_true, if_neg Bool.false_ne_true]

/-- Each round ends the loop or goes on with the list as it is or with an item deleted. -/
theorem hideLoop_cases (freed : Nat → Str → Str) (s : HideState) :
    (∀ fuel, hideLoop freed (fuel + 1) s = some s) ∨
      (∀ fuel, hideLoop freed (fuel + 1) s = hideLoop freed fuel { s with i := s.i + 1 }) ∨
      ∃ ourItem, ∀ fuel, hideLoop freed (fuel + 1) s = hideLoop freed fuel (s.delete freed ourItem) := by
  cases read : (csvItems s.list)[s.i]? with
  | none => exact Or.inl fun fuel => hideLoop_last read
  | some ourItem =>
    cases hidden : isPreboot ourItem with
    | false => exact Or.inr (Or.inl fun fuel => hideLoop_shown read hidden)
    | true => exact Or.inr (Or.inr ⟨ourItem, fun fuel => hideLoop_hidden read hidden⟩)

theorem hideLoop_more (ended : hideLoop freed fuel s = some s') (more : Nat) :
    hideLoop freed (fuel + more) s = some s' := by
  induction fuel generalizing s with
  | zero => cases ended
  | succ fuel ih =>
    rw [Nat.add_right_comm]
    obtain last | shown | ⟨ourItem, hidden⟩ := hideLoop_cases freed s
    · rw [last] at ended ⊢
      exact ended
    · rw [shown] at ended ⊢
      exact ih ended
    · rw [hidden] at ended ⊢
      exact ih ended

/-- Once the list is freed, the configuration does not get it back. -/
theorem hideLoop_lost (ended : hideLoop freed fuel s = some s') (lost : s.shared = false) : s'.shared = false := by
  induction fuel generalizing s with
  | zero => cases ended
  | succ fuel ih =>
    obtain last | shown | ⟨ourItem, hidden⟩ := hideLoop_cases freed s
    · rw [last] at ended
      obtain rfl := Option.some.inj ended
      exact lost
    · rw [shown] at ended
      exact ih ended lost
    · rw [hidden] at ended
      refine ih ended ?_
      rw [HideState.delete, lost, Bool.false_and]

/-- An item that stays when it is deleted comes again in every round. -/
theorem hideLoop_spins (read : (csvItems s.list)[s.i]? = some ourItem) (hidden : isPreboot ourItem = true)
    (stays : ∀ freed, (deleteItemFromCsvList freed (some ourItem) s.list).list = s.list) :
    hideLoop freed fuel s = none := by
  induction fuel generalizing s with
  | zero => rfl
  | succ fuel ih =>
    have same : (s.delete freed ourItem).list = s.list := stays (freed s.deletions)
    rw [hideLoop_hidden read hidden]
    refine ih ?_ ?_
    · rw [same]
      exact read
    · rw [same]
      exact stays

/-- The items in front that are shown are passed. -/
theorem hideLoop_pass (freed : Nat → Str → Str) (fuel : Nat) {front back : List Str} (list : Option Str)
    (items : csvItems list = front ++ back) (shown : ∀ item ∈ front, isPreboot item = false) :
    hideLoop freed (fuel + front.length) { list } = hideLoop freed fuel { list, i := front.length } := by
  have passes : ∀ k ≤ front.length,
      hideLoop freed (fuel + k) { list, i := front.length - k } =
        hideLoop freed fuel { list, i := front.length } := by
    intro k
    induction k with
    | zero => exact fun _ => rfl
    | succ k ih =>
      intro within
      have inside : front.length - (k + 1) < front.length := by omega
      have read : (csvItems list)[front.length - (k + 1)]? = some front[front.length - (k + 1)] := by
        rw [items, List.getElem?_append_left inside, List.getElem?_eq_getElem inside]
      have next : front.length - (k + 1) + 1 = front.length - k := by omega
      rw [← Nat.add_assoc, hideLoop_shown read (shown _ (List.getElem_mem inside)), next]
      exact ih (Nat.le_of_succ_le within)
  have all := passes front.length (Nat.le_refl _)
  rw [Nat.sub_self] at all
  exact all

end Rounds

/-! ### Where the list ends up -/

theorem hidesPreboot_none {list : Option Str} (shown : ∀ item ∈ csvItems list, isPreboot item = false) :
    HidesPreboot list (false, .holds list) := by
  refine ⟨iff_of_false Bool.false_ne_true ?_, list, rfl, rfl, ?_⟩
  · rintro ⟨item, mem, hidden⟩
    exact Bool.false_ne_true ((shown item mem).symm.trans hidden)
  · refine (List.filter_eq_self.mpr fun item mem => ?_).symm
    rw [shown item mem, Bool.not_false]

theorem hidesPreboot_last {text left ourItem : Str} {front : List Str}
    (items : commaItems text = front ++ [ourItem]) (shown : ∀ item ∈ front, isPreboot item = false)
    (hidden : isPreboot ourItem = true) (rest : commaItems left = front) :
    HidesPreboot (some text) (true, .holds (some left)) := by
  have whole : csvItems (some text) = front ++ [ourItem] := items
  refine ⟨iff_of_true rfl ⟨ourItem, ?_, hidden⟩, some left, rfl, rfl, ?_⟩
  · rw [whole]
    exact List.mem_append_right _ List.mem_cons_self
  · have kept : front.filter (!isPreboot ·) = front := by
      refine List.filter_eq_self.mpr fun item mem => ?_
      rw [shown item mem, Bool.not_false]
    rw [whole, List.filter_append, kept, List.filter_cons_of_neg (by rw [hidden]; exact Bool.false_ne_true),
      List.filter_nil, List.append_nil]
    exact rest

/-- The items in front of the first one to be hidden are shown. -/
theorem shown_of_first {front : List Str} {ourItem : Str}
    (first : (front ++ [ourItem]).find? isPreboot = some ourItem) (absent : ourItem ∉ front) :
    ∀ item ∈ front, isPreboot item = false := by
  rw [List.find?_append] at first
  cases earlier : front.find? isPreboot with
  | none => exact fun item mem => Bool.not_eq_true _ ▸ List.find?_eq_none.mp earlier item mem
  | some item =>
    rw [earlier, Option.some_or] at first
    exact absurd (List.mem_of_find?_eq_some (earlier.trans first)) absent

section Deletion

variable {freed : Nat → Str → Str} {ourItem front found : Str}

/-- The deletion that writes a null character into the list leaves it where it is. -/
theorem hideLoop_plain (freed : Nat → Str → Str) (first : FirstAt ourItem front found) (plain : ',' ∉ found)
    (hidden : (commaItems (front ++ found)).find? isPreboot = some ourItem) :
    ∃ fuel s, hideLoop freed fuel { list := some (front ++ found) } = some s ∧
      HidesPreboot (some (front ++ found)) (s.flagDontScan, s.field) := by
  have preboot : isPreboot ourItem = true := List.find?_some hidden
  have last := lastAt_of_first first (List.mem_of_find?_eq_some hidden) (.inl plain)
  have items : csvItems (some (front ++ found)) = commaItems front ++ [ourItem] := last.items
  rw [last.items] at hidden
  have shown := shown_of_first hidden last.absent
  have deleted := deleteItem_plain first (freed 0) plain
  have kept : freesList ourItem (front ++ found) = false := by
    rw [freesList, mrdStrFind, find_eq_some first]
    dsimp only
    rw [decide_eq_false plain, Bool.false_and]
  have left := commaItems_dropLast_front last.fresh
  have after : HideState.delete { list := some (front ++ found), i := (commaItems front).length } freed ourItem =
      { i := (commaItems front).length, flagDontScan := true, list := some front.dropLast, deletions := 1 } := by
    rw [HideState.delete, deleted]
    dsimp only
    rw [Option.any_some, kept, Bool.not_false, Bool.true_and]
  have ended : (csvItems (some front.dropLast))[(commaItems front).length]? = none := by
    rw [csvItems, Option.getD_some, left]
    exact List.getElem?_eq_none (Nat.le_refl _)
  have read : (csvItems (some (front ++ found)))[(commaItems front).length]? = some ourItem := by
    rw [items]
    exact List.getElem?_concat_length
  refine ⟨1 + 1 + (commaItems front).length,
    { i := (commaItems front).length, flagDontScan := true, list := some front.dropLast, deletions := 1 }, ?_,
    hidesPreboot_last last.items shown preboot left⟩
  rw [hideLoop_pass freed (1 + 1) _ items shown, hideLoop_hidden read preboot, after]
  exact hideLoop_last ended

/-- The deletion of an item with a comma from its first place on frees the list, or changes nothing. -/
theorem hideLoop_comma (first : FirstAt ourItem front found) (comma : ',' ∈ found)
    (hidden : (commaItems (front ++ found)).find? isPreboot = some ourItem) {fuel : Nat} {s : HideState}
    (ended : hideLoop freed fuel { list := some (front ++ found) } = some s) : s.shared = false := by
  obtain ⟨preboot, before, behind, items, shown⟩ := List.find?_eq_some_iff_append.mp hidden
  have shown : ∀ item ∈ before, isPreboot item = false := fun item mem =>
    (Bool.not_eq_true' _).mp (shown item mem)
  have items : csvItems (some (front ++ found)) = before ++ ourItem :: behind := items
  have ended := hideLoop_more ended before.length
  rw [hideLoop_pass freed fuel _ items shown] at ended
  have read : (csvItems (some (front ++ found)))[before.length]? = some ourItem := by
    rw [items]
    exact List.getElem?_append_right (Nat.le_refl _) |>.trans (by rw [Nat.sub_self]; rfl)
  have frees : freesList ourItem (front ++ found) =
      ((partBefore ourItem (front ++ found)).isSome || (partAfter ourItem (front ++ found)).isSome) := by
    rw [freesList, mrdStrFind, find_eq_some first]
    dsimp only
    rw [decide_eq_true comma, Bool.true_and]
  cases parts : freesList ourItem (front ++ found) with
  | false =>
    exfalso
    rw [frees, Bool.or_eq_false_iff, Option.isSome_eq_false_iff, Option.isNone_iff_eq_none,
      Option.isSome_eq_false_iff, Option.isNone_iff_eq_none] at parts
    rw [hideLoop_spins read preboot] at ended
    · cases ended
    · intro memory
      rw [deleteItem_comma first memory comma, parts.1, parts.2]
  | true =>
    cases fuel with
    | zero => cases ended
    | succ fuel =>
      rw [hideLoop_hidden read preboot] at ended
      refine hideLoop_lost ended ?_
      rw [HideState.delete]
      dsimp only
      rw [Option.any_some, parts]
      rfl

end Deletion

/-- Whatever freed memory holds, the items are hidden as they should be exactly when no comma follows in the
list from the first place where the first of them is found. -/
theorem hidePreboot_iff (freed : Nat → Str → Str) (type : Str) (config : DontScanLists) :
    (∃ fuel result, hidePreboot freed fuel type config = some result ∧
        HidesPreboot (ourSkipList type config) result) ↔
      ∀ list ourItem found, ourSkipList type config = some list →
        (commaItems list).find? isPreboot = some ourItem → mrdStrFind list ourItem = some found → ',' ∉ found := by
  unfold hidePreboot
  generalize ourSkipList type config = list
  constructor
  · rintro ⟨fuel, result, returned, right⟩ text ourItem found rfl hidden place comma
    obtain ⟨front, rfl, first⟩ := find_append place
    obtain ⟨s, ended, rfl⟩ := Option.map_eq_some_iff.mp returned
    have lost := hideLoop_comma first comma hidden ended
    obtain ⟨left, live, -⟩ := right.live
    have freed' : s.field = .freed := by
      rw [HideState.field, lost, if_neg Bool.false_ne_true]
    cases freed'.symm.trans live
  · intro plain
    cases hidden : (csvItems list).find? isPreboot with
    | none =>
      have shown : ∀ item ∈ csvItems list, isPreboot item = false := fun item mem =>
        Bool.not_eq_true _ ▸ List.find?_eq_none.mp hidden item mem
      have pass := hideLoop_pass freed 1 list (List.append_nil _).symm shown
      have ended : (csvItems list)[(csvItems list).length]? = none := List.getElem?_eq_none (Nat.le_refl _)
      refine ⟨_, _, Option.map_eq_some_iff.mpr ⟨_, pass.trans (hideLoop_last ended), rfl⟩, ?_⟩
      exact hidesPreboot_none shown
    | some ourItem =>
      cases list with
      | none => cases hidden
      | some text =>
        have within : ourItem <:+: text := commaItems_within (List.mem_of_find?_eq_some hidden)
        cases place : mrdStrFind text ourItem with
        | none => exact absurd within (find_eq_none_iff.mp place)
        | some found =>
          have behind := plain text ourItem found rfl hidden place
          obtain ⟨front, rfl, first⟩ := find_append place
          obtain ⟨fuel, s, ended, right⟩ := hideLoop_plain freed first behind hidden
          exact ⟨fuel, _, Option.map_eq_some_iff.mpr ⟨s, ended, rfl⟩, right⟩

/-- The list is freed, and the configuration still points at it. -/
theorem hidePreboot_dangles : ¬ ∃ fuel result,
    hidePreboot (fun _ text => text) fuel "DontScanVolumes".toList
        { dirs := none, files := none, volumes := some "PreBoot,Recovery".toList } = some result ∧
      HidesPreboot (some "PreBoot,Recovery".toList) result := by
  rintro ⟨fuel, result, returned, right⟩
  obtain ⟨s, ended, rfl⟩ := Option.map_eq_some_iff.mp returned
  have two : hideLoop (fun _ text => text) 3 { list := some "PreBoot,Recovery".toList } =
      some { i := 1, flagDontScan := true, list := some "Recovery".toList, shared := false, deletions := 1 } := by
    decide +kernel
  have same := (hideLoop_more two fuel).symm.trans (Nat.add_comm 3 fuel ▸ hideLoop_more ended 3)
  obtain rfl := Option.some.inj same
  obtain ⟨left, live, -⟩ := right.live
  cases live

end Meridian.Config
