import Meridian.Boot.PreviousBoot

/-!
# Which entry the next boot takes

After a launch the next boot takes the first entry whose title contains the stored name and which has the
stored identity, else the first one whose title contains the name, else the first loader. So an entry is
taken again when no such entry stands before it. The menu that is shown has the same default as a boot
without a menu.
-/

namespace Meridian.Boot

open Text

/-- The first entry of the menu with the property stands at the place. -/
def IsFirst (p : MenuEntry → Bool) (menu : List MenuEntry) (i : ℕ) : Prop :=
  ∃ me, menu[i]? = some me ∧ p me = true ∧ ∀ j < i, ∀ other, menu[j]? = some other → p other = false

/-- The entry that is taken without a name: the first loader, or the first entry where there is none. -/
def Fallback (menu : List MenuEntry) (i : ℕ) : Prop :=
  IsFirst isLoader menu i ∨ (∀ me ∈ menu, isLoader me = false) ∧ i = 0

/-- No entry with the name in its title comes before this one, among those that have the identity when there
is one that has both, and among all otherwise. -/
def Recalled (menu : List MenuEntry) (name : Str) (identity : Option Str) (i : ℕ) : Prop :=
  (∃ own, identity = some own ∧ IsFirst (includesBoth name own) menu i) ∨
    (∀ own, identity = some own → ∀ me ∈ menu, includesBoth name own me = false) ∧
      (IsFirst (includesName name) menu i ∨ (∀ me ∈ menu, includesName name me = false) ∧ Fallback menu i)

def Remembered (menu : List MenuEntry) (vars : Vars) (i : ℕ) : Prop :=
  match vars.previousBoot with
  | some (c :: name) => Recalled menu (c :: name) vars.previousBootId i
  | _ => Fallback menu i

/-- The entry is the one at the place, or in its submenu. -/
def Holds (menu : List MenuEntry) (i : ℕ) (entry : LoaderEntry) : Prop :=
  ∃ me, menu[i]? = some me ∧ (entry = me.entry ∨ entry ∈ me.subScreen)

variable {menu : List MenuEntry} {p : MenuEntry → Bool} {i : ℕ} {name : Str} {selectionName identity : Option Str}
  {vars : Vars} {transientBoot : Bool}

/-! ### The searches -/

theorem findIdx?_isFirst : menu.findIdx? p = some i ↔ IsFirst p menu i := by
  rw [List.findIdx?_eq_some_iff_getElem]
  constructor
  · rintro ⟨inside, found, before⟩
    refine ⟨menu[i], List.getElem?_eq_getElem inside, found, fun j lt other at' => ?_⟩
    obtain ⟨inside', rfl⟩ := List.getElem?_eq_some_iff.mp at'
    exact Bool.eq_false_iff.mpr (before j lt)
  · rintro ⟨me, at', found, before⟩
    obtain ⟨inside, rfl⟩ := List.getElem?_eq_some_iff.mp at'
    refine ⟨inside, found, fun j lt => ?_⟩
    exact Bool.eq_false_iff.mp (before j lt _ (List.getElem?_eq_getElem (Nat.lt_trans lt inside)))

theorem IsFirst.exists (first : IsFirst p menu i) : ∃ me ∈ menu, p me = true := by
  obtain ⟨me, at', found, _⟩ := first
  exact ⟨me, List.mem_of_getElem? at', found⟩

theorem not_isFirst_of_none (absent : ∀ me ∈ menu, p me = false) : ¬ IsFirst p menu i := by
  intro first
  obtain ⟨me, mem, found⟩ := first.exists
  rw [absent me mem] at found
  cases found

/-- A search that goes on elsewhere where it finds nothing. -/
theorem search_iff (p : MenuEntry → Bool) (menu : List MenuEntry) (rest : Option ℕ) (i : ℕ) :
    (match menu.findIdx? p with
      | some j => some j
      | none => rest) = some i ↔
    IsFirst p menu i ∨ (∀ me ∈ menu, p me = false) ∧ rest = some i := by
  cases found : menu.findIdx? p with
  | some j =>
    rw [← findIdx?_isFirst, found]
    constructor
    · exact .inl
    · rintro (same | ⟨absent, _⟩)
      · exact same
      · exact absurd (findIdx?_isFirst.mp found) (not_isFirst_of_none absent)
  | none =>
    have absent := List.findIdx?_eq_none_iff.mp found
    constructor
    · exact fun same => .inr ⟨absent, same⟩
    · rintro (first | ⟨_, same⟩)
      · exact absurd first (not_isFirst_of_none absent)
      · exact same

theorem fallback_iff (menu : List MenuEntry) (i : ℕ) :
    (match menu.findIdx? isLoader with
      | some j => some j
      | none => some 0) = some i ↔ Fallback menu i := by
  rw [search_iff, Fallback, Option.some.injEq, eq_comm (a := 0)]

theorem connDefaultEntry_none (some' : menu ≠ []) :
    connDefaultEntry menu none identity = some i ↔ Fallback menu i := by
  rw [connDefaultEntry, if_neg some']
  exact fallback_iff menu i

theorem connDefaultEntry_some (some' : menu ≠ []) :
    connDefaultEntry menu (some name) identity = some i ↔ Recalled menu name identity i := by
  have byName : (match menu.findIdx? (includesName name) with
      | some j => some j
      | none => match menu.findIdx? isLoader with
        | some j => some j
        | none => some 0) = some i ↔
      IsFirst (includesName name) menu i ∨ (∀ me ∈ menu, includesName name me = false) ∧ Fallback menu i := by
    rw [search_iff, fallback_iff]
  rw [connDefaultEntry, if_neg some', Recalled]
  cases identity with
  | none =>
    constructor
    · exact fun same => .inr ⟨nofun, byName.mp same⟩
    · rintro (⟨_, impossible, _⟩ | ⟨_, same⟩)
      · cases impossible
      · exact byName.mpr same
  | some own =>
    refine (search_iff (includesBoth name own) menu _ i).trans
      ((or_congr_right (and_congr_right fun _ => byName)).trans ?_)
    constructor
    · rintro (first | ⟨absent, same⟩)
      · exact .inl ⟨own, rfl, first⟩
      · refine .inr ⟨fun own' same' => ?_, same⟩
        cases same'
        exact absent
    · rintro (⟨own', same', first⟩ | ⟨absent, same⟩)
      · cases same'
        exact .inl first
      · exact .inr ⟨absent own rfl, same⟩

theorem findIdx?_lt (found : menu.findIdx? p = some i) : i < menu.length := by
  obtain ⟨me, at', _⟩ := findIdx?_isFirst.mp found
  exact (List.getElem?_eq_some_iff.mp at').1

/-- The menu that is shown has the default of a boot without a menu. -/
theorem connDefaultEntry_eq (some' : menu ≠ []) (fits : menu.length ≤ connMaxEntries) :
    connDefaultEntry menu selectionName identity =
      some (connMenuDefault (buildConnMenuList menu) selectionName identity) := by
  have fallback : (match menu.findIdx? isLoader with
      | some j => some j
      | none => some 0) = some (if (menu.findIdx? isLoader).getD menu.length < menu.length then
        (menu.findIdx? isLoader).getD menu.length else 0) := by
    cases found : menu.findIdx? isLoader with
    | none => rw [Option.getD_none, if_neg (Nat.lt_irrefl _)]
    | some j => rw [Option.getD_some, if_pos (findIdx?_lt found)]
  unfold connMenuDefault buildConnMenuList
  rw [connDefaultEntry, if_neg some', List.take_of_length_le fits]
  cases selectionName with
  | none => exact fallback
  | some name =>
    dsimp only
    cases identity.bind fun identity => menu.findIdx? (includesBoth name identity) with
    | some j => rfl
    | none =>
      dsimp only
      cases menu.findIdx? (includesName name) with
      | some j => rfl
      | none => exact fallback

/-! ### What a launch leaves -/

/-- The name of the entry when it is launched. -/
def launchName (nativeChain : Bool) (selectionName : Option Str) (entry : LoaderEntry) : Option Str :=
  if entry.title ≠ none then entry.title
  else if entry.tag = .loader ∧ ¬ nativeChain then selectionName
  else entry.meTitle

/-- The launch writes neither variable. -/
def Unrecorded (nativeChain : Bool) (selectionName : Option Str) (entry : LoaderEntry) : Prop :=
  entry.tag = .tool ∨ (entry.tag = .loader ∧ ¬ nativeChain) ∧
    (entry.bootProtocol = .limine ∨ launchName nativeChain selectionName entry = none)

theorem launch_unrecorded {nativeChain : Bool} {entry : LoaderEntry} (vars : Vars)
    (unrecorded : Unrecorded nativeChain selectionName entry) :
    launch transientBoot nativeChain selectionName entry vars = vars := by
  rcases unrecorded with tag | ⟨⟨tag, direct⟩, kernel⟩
  · rw [launch, tag]
  · rw [launchName] at kernel
    rw [launch, tag]
    dsimp only
    rw [if_neg direct, startLoader]
    rcases kernel with limine | none'
    · exact if_pos limine
    · split
      · rfl
      · refine if_neg (not_not.mpr ?_)
        split
        · rw [if_pos (by assumption)] at none'
          exact none'
        · rw [if_neg (by assumption), if_pos ⟨tag, direct⟩] at none'
          exact none'

theorem storeLoader_vars (transientBoot : Bool) (name : Option Str) (entry : LoaderEntry) (vars : Vars) :
    storeLoaderIdentity transientBoot entry (storeLoaderName transientBoot name vars) =
      if transientBoot then ⟨none, none⟩ else ⟨name.or vars.previousBoot, buildEntryIdentity entry⟩ := by
  cases transientBoot with
  | true => rfl
  | false => cases name <;> rfl

theorem launch_recorded {nativeChain : Bool} {entry : LoaderEntry} (vars : Vars)
    (recorded : ¬ Unrecorded nativeChain selectionName entry) :
    launch transientBoot nativeChain selectionName entry vars =
      if transientBoot then ⟨none, none⟩
      else ⟨(launchName nativeChain selectionName entry).or vars.previousBoot, buildEntryIdentity entry⟩ := by
  rw [← storeLoader_vars, launchName]
  cases tag : entry.tag with
  | tool => exact absurd (.inl tag) recorded
  | firmwareLoader =>
    rw [launch, tag]
    dsimp only
    rw [rebootIntoLoader, if_neg (fun both : Tag.firmwareLoader = .loader ∧ ¬ nativeChain => nomatch both.1)]
  | loader =>
    rw [launch, tag]
    dsimp only
    by_cases native : nativeChain = true
    · rw [if_pos native, runTrustSync, if_neg (fun both : Tag.loader = .loader ∧ ¬ nativeChain => both.2 native)]
    · have efi : ¬ entry.bootProtocol = .limine := fun limine => recorded (.inr ⟨⟨tag, native⟩, .inl limine⟩)
      have named : launchName nativeChain selectionName entry ≠ none :=
        fun none' => recorded (.inr ⟨⟨tag, native⟩, .inr none'⟩)
      rw [launchName, if_pos (⟨tag, native⟩ : entry.tag = .loader ∧ ¬ nativeChain)] at named
      have direct : Tag.loader = .loader ∧ ¬ nativeChain := ⟨rfl, native⟩
      rw [if_neg native, startLoader, if_neg efi, if_pos named, if_pos direct]

/-! ### The round trip -/

/-- What the next boot selects, from the default selection `+`. -/
def nextSelection (transientBoot : Bool) (vars : Vars) : Option Str × Option Str :=
  let (selection, defaultIsPreviousBoot) := adjustDefaultSelection transientBoot (some ['+']) vars
  (selection, connPreviousBootIdentity defaultIsPreviousBoot vars)

theorem nextSelection_eq (transientBoot : Bool) (vars : Vars) : nextSelection transientBoot vars =
    match vars.previousBoot with
    | some (c :: name) => (some (c :: name), vars.previousBootId)
    | _ => (none, none) := by
  obtain ⟨previousBoot, previousBootId⟩ := vars
  cases transientBoot <;> rcases previousBoot with _ | _ | ⟨c, name⟩ <;> rfl

/-- What an automatic boot takes after the launch, and what the menu has as its default. -/
def nextDefault (menu : List MenuEntry) (transientBoot : Bool) (vars : Vars) : Option ℕ :=
  connDefaultEntry menu (nextSelection transientBoot vars).1 (nextSelection transientBoot vars).2

def nextMenuDefault (menu : List MenuEntry) (transientBoot : Bool) (vars : Vars) : ℕ :=
  connMenuDefault (buildConnMenuList menu) (nextSelection transientBoot vars).1
    (nextSelection transientBoot vars).2

theorem nextDefault_iff (some' : menu ≠ []) :
    nextDefault menu transientBoot vars = some i ↔ Remembered menu vars i := by
  rw [nextDefault, nextSelection_eq, Remembered]
  rcases vars.previousBoot with _ | _ | ⟨c, name⟩
  · exact connDefaultEntry_none some'
  · exact connDefaultEntry_none some'
  · exact connDefaultEntry_some some'

theorem nextDefault_eq (some' : menu ≠ []) (fits : menu.length ≤ connMaxEntries) :
    nextDefault menu transientBoot vars = some (nextMenuDefault menu transientBoot vars) :=
  connDefaultEntry_eq some' fits

/-- A launch that writes leads to the place by the name and the identity of its entry, and one that does not
by what was written before. -/
def Returns (menu : List MenuEntry) (transientBoot nativeChain : Bool) (selectionName : Option Str)
    (entry : LoaderEntry) (vars : Vars) (i : ℕ) : Prop :=
  Unrecorded nativeChain selectionName entry ∧ Remembered menu vars i ∨
    ¬ Unrecorded nativeChain selectionName entry ∧
      if transientBoot then Fallback menu i
      else Remembered menu
        ⟨(launchName nativeChain selectionName entry).or vars.previousBoot, buildEntryIdentity entry⟩ i

/-- After a launch the next boot takes the entry, or the one whose submenu holds it, and a menu that is shown
has the same default, exactly when the launch returns to it. -/
theorem nextDefault_launch (menu : List MenuEntry) (i : ℕ) (entry : LoaderEntry) (transientBoot nativeChain : Bool)
    (selectionName : Option Str) (vars : Vars) (holds : Holds menu i entry) :
    (nextDefault menu transientBoot (launch transientBoot nativeChain selectionName entry vars) = some i ∧
      (menu.length ≤ connMaxEntries →
        nextDefault menu transientBoot (launch transientBoot nativeChain selectionName entry vars) =
          some (nextMenuDefault menu transientBoot
            (launch transientBoot nativeChain selectionName entry vars)))) ↔
    Returns menu transientBoot nativeChain selectionName entry vars i := by
  obtain ⟨me, at', _⟩ := holds
  have some' : menu ≠ [] := List.ne_nil_of_mem (List.mem_of_getElem? at')
  rw [and_iff_left fun fits => nextDefault_eq some' fits, nextDefault_iff some', Returns]
  by_cases unrecorded : Unrecorded nativeChain selectionName entry
  · rw [launch_unrecorded vars unrecorded]
    refine Iff.trans ?_ (Iff.symm (or_iff_left fun no => no.1 unrecorded))
    exact (and_iff_right unrecorded).symm
  · rw [launch_recorded vars unrecorded]
    refine Iff.trans ?_ (Iff.symm (or_iff_right fun no => unrecorded no.1))
    rw [and_iff_right unrecorded]
    cases transientBoot <;> exact Iff.rfl

/-! ### Two entries of one kernel -/

def fedora : LoaderEntry where
  tag := .loader
  meTitle := some "Load Fedora".toList
  title := some "Fedora".toList
  loaderPath := some "\\vmlinuz".toList
  partGuid := some "11a4".toList
  bootProtocol := .efi

def fedoraRescue : LoaderEntry :=
  { fedora with meTitle := some "Load Fedora (rescue)".toList, title := some "Fedora (rescue)".toList }

/-- One kernel with two lines of options. -/
def fedoraMenu : List MenuEntry := [⟨fedoraRescue, []⟩, ⟨fedora, []⟩]

/-- The rescue entry is taken again. -/
theorem nextDefault_rescue : Returns fedoraMenu false false none fedoraRescue ⟨none, none⟩ 0 :=
  (nextDefault_launch fedoraMenu 0 fedoraRescue false false none ⟨none, none⟩ ⟨_, rfl, .inl rfl⟩).mp
    ⟨by decide +kernel, fun _ => by decide +kernel⟩

/-- After the other entry was booted the rescue entry is taken, whose title contains its name. -/
theorem nextDefault_fedora : ¬ (
    nextDefault fedoraMenu false (launch false false none fedora ⟨none, none⟩) = some 1 ∧
    (fedoraMenu.length ≤ connMaxEntries →
      nextDefault fedoraMenu false (launch false false none fedora ⟨none, none⟩) =
        some (nextMenuDefault fedoraMenu false (launch false false none fedora ⟨none, none⟩)))) := by
  intro both
  have other : nextDefault fedoraMenu false (launch false false none fedora ⟨none, none⟩) = some 0 := by
    decide +kernel
  rw [other] at both
  cases both.1

end Meridian.Boot
