import Meridian.Discovery.Guids

/-!
# Choosing a partition to install to

The model of `PickOneESP` of `install/install.c`, with the return entry that `GetMenuEntryReturn` of
`ui/menu.c` adds. What the user does in the menu is an argument. Allocations succeed.
-/

namespace Meridian.Install

open Text Discovery

/-- How the menu was left. -/
inductive MenuExit where
  | zero
  | enter
  | escape
  | details
  | timeout
  | eject
  | delete
  | screenshot
  | showscreen
  deriving DecidableEq, Repr

structure MenuEntry where
  title : Str
  tag : Nat
  row : Nat := 0
  deriving DecidableEq, Repr

def tagReturn : Nat := 99

/-- The string is there, and it is not empty. -/
def named (name : Option Str) : Bool := (name.getD []).length > 0

/-- The title of an entry: the GUID, and the names that the volume has. -/
def espTitle (upper : Bool) (volume : NamedVolume) : Str :=
  let guidStr := guidAsString upper volume.partGuid
  let partName := volume.partName.getD []
  let fsName := volume.fsName.getD []
  let volName := volume.volName.getD []
  if named volume.partName && named volume.fsName && !mrdStrEqualsCI volume.fsName volume.partName then
    guidStr ++ " - '".toList ++ partName ++ "', AKA '".toList ++ fsName ++ "'".toList
  else if named volume.fsName then guidStr ++ " - '".toList ++ fsName ++ "'".toList
  else if named volume.partName then guidStr ++ " - '".toList ++ partName ++ "'".toList
  else if named volume.volName then guidStr ++ " - '".toList ++ volName ++ "'".toList
  else guidStr ++ " - No Name".toList

/-- The loop over the partitions, with the row of the next entry. -/
def espEntries (upper : Bool) (i : Nat) : List NamedVolume → List MenuEntry
  | [] => []
  | volume :: rest =>
    { title := espTitle upper volume, tag := tagReturn, row := i } :: espEntries upper (i + 1) rest

def menuEntryReturn : MenuEntry := { title := "Return to Main Menu".toList, tag := tagReturn }

def installMenu (upper : Bool) (allEsps : List NamedVolume) : List MenuEntry :=
  espEntries upper 1 allEsps ++ [menuEntryReturn]

/-- The loop that looks the partition of a title up: the last one whose GUID the title holds. -/
def espOfTitle (upper : Bool) (title : Str) (allEsps : List NamedVolume) : Option NamedVolume :=
  allEsps.foldl
    (fun chosen volume =>
      if (mrdStrFind title (guidAsString upper volume.partGuid)).isSome then some volume else chosen)
    none

/-- `PickOneESP`, with the exit of the menu and the entry that was chosen. -/
def pickOneEsp (upper : Bool) (allEsps : List NamedVolume) (menuExit : MenuExit)
    (chosen : Fin (installMenu upper allEsps).length) : Option NamedVolume :=
  if allEsps = [] then none
  else
    let chosenOption := (installMenu upper allEsps).get chosen
    if chosenOption.tag = tagReturn then none
    else if menuExit = .enter then espOfTitle upper chosenOption.title allEsps
    else none

/-- Enter on a partition gives its volume, and nothing is returned only for the return entry, which is
the last, and when the user escapes. -/
structure PicksVolume (allEsps : List NamedVolume) (menuExit : MenuExit) (chosen : Nat)
    (result : Option NamedVolume) : Prop where
  selected : menuExit = .enter → ∀ volume, allEsps[chosen]? = some volume → result = some volume
  nothing : result = none → menuExit = .escape ∨ chosen = allEsps.length

theorem espEntries_tag (upper : Bool) (i : Nat) (allEsps : List NamedVolume) :
    ∀ entry ∈ espEntries upper i allEsps, entry.tag = tagReturn := by
  induction allEsps generalizing i with
  | nil => exact fun entry mem => absurd mem List.not_mem_nil
  | cons volume rest ih =>
    rw [espEntries, List.forall_mem_cons]
    exact ⟨rfl, ih (i + 1)⟩

/-- Every entry has the tag of the return entry. -/
theorem installMenu_tag (upper : Bool) (allEsps : List NamedVolume) :
    ∀ entry ∈ installMenu upper allEsps, entry.tag = tagReturn := by
  intro entry mem
  obtain inside | last := List.mem_append.mp mem
  · exact espEntries_tag upper 1 allEsps entry inside
  · rw [List.mem_singleton.mp last]
    rfl

theorem pickOneEsp_none (upper : Bool) (allEsps : List NamedVolume) (menuExit : MenuExit)
    (chosen : Fin (installMenu upper allEsps).length) : pickOneEsp upper allEsps menuExit chosen = none := by
  rw [pickOneEsp]
  split
  · rfl
  · exact if_pos (installMenu_tag upper allEsps _ (List.get_mem _ _))

/-- The choice is kept where no partition was chosen. -/
theorem pickOneEsp_iff (upper : Bool) (allEsps : List NamedVolume) (menuExit : MenuExit)
    (chosen : Fin (installMenu upper allEsps).length) :
    PicksVolume allEsps menuExit chosen (pickOneEsp upper allEsps menuExit chosen) ↔
      menuExit = .escape ∨ chosen.val = allEsps.length := by
  rw [pickOneEsp_none]
  constructor
  · exact fun picks => picks.nothing rfl
  · intro other
    refine ⟨fun enter volume here => ?_, fun _ => other⟩
    obtain escape | last := other
    · cases escape.symm.trans enter
    · rw [last, List.getElem?_eq_none_iff.mpr (Nat.le_refl _)] at here
      cases here

/-- A partition without names. -/
def plainEsp : NamedVolume :=
  { volName := none, fsName := none, partName := none, partGuid := ⟨1, 2, 3, [1, 2, 3, 4, 5, 6, 7, 8]⟩ }

theorem pickOneEsp_first :
    ([plainEsp].map NamedVolume.partGuid).Nodup ∧
      ¬ PicksVolume [plainEsp] .enter 0 (pickOneEsp false [plainEsp] .enter ⟨0, by decide⟩) := by
  refine ⟨by simp, fun picks => ?_⟩
  have picked := picks.selected rfl plainEsp rfl
  rw [pickOneEsp_none] at picked
  cases picked

end Meridian.Install
