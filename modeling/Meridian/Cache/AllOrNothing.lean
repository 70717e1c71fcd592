import Meridian.Cache.Restore

/-!
# Loading the whole menu or none of it

When `CacheLoadMenu` adds one entry for every record of the cache, or leaves the main menu as it was
and reports failure.
-/

namespace Meridian.Cache

open Text Menu Discovery Storage Lib.Reader

variable {Handle Root Name V : Type}

/-! ### The property -/

/-- Each record has its entry, in the order of the records. -/
def Rebuilds (env : MenuEnv Handle Root Name V) (records : List CacheRecord)
    (entries : List (LoaderEntry V)) : Prop :=
  List.Forall₂ (fun record entry => rebuildRecord env record = some entry) records entries

/-- The main menu has got an entry for every record, or it is left as it was and failure is
reported. -/
def AllOrNothing (env : MenuEnv Handle Root Name V) (records : List CacheRecord)
    (menu menu' : List (MainEntry V)) (status : EfiStatus) : Prop :=
  (status = .success ∧ ∃ entries, Rebuilds env records entries ∧ menu' = menu ++ entries.map .loader) ∨
    (status ≠ .success ∧ menu' = menu)

/-- `AddLoaderEntry` takes the loader of the record. -/
def RecordAllowed (env : MenuEnv Handle Root Name V) (record : CacheRecord) : Prop :=
  ∃ volume, resolveVolume env record = some volume ∧
    loaderAllowed env.toScanEnv volume ((textOf record.loaderPath).getD []) = true

section

variable [DecidableEq Root] [DecidableEq Name]

/-- The records that a load comes to. -/
def loadedRecords (env : MenuEnv Handle Root Name V) (fw : Firmware Handle Root Name)
    (disk : Disk Root Name) (expectedFingerprint : UInt32) : List CacheRecord :=
  if expectedFingerprint = 0 then []
  else
    match cacheReadRecords env.toCacheEnv fw disk env.selfDir expectedFingerprint with
    | .error _ => []
    | .ok parsed => if parsed.status = .success then parsed.records else []

end

/-! ### One record -/

theorem rebuildRecord_isSome_iff {env : MenuEnv Handle Root Name V} {record : CacheRecord} :
    (∃ entry, rebuildRecord env record = some entry) ↔ RecordAllowed env record := by
  constructor
  · rintro ⟨entry, rebuilt⟩
    obtain ⟨volume, resolved, added⟩ := Option.bind_eq_some_iff.mp rebuilt
    refine ⟨volume, resolved, ?_⟩
    rw [addRecordEntry, addFilledEntry] at added
    split at added
    · cases added
    · rename_i allowed
      rw [Bool.not_eq_true, Bool.not_eq_false'] at allowed
      exact allowed
  · rintro ⟨volume, resolved, allowed⟩
    rw [rebuildRecord, resolved, Option.bind_some, addRecordEntry, addFilledEntry, allowed]
    exact ⟨_, rfl⟩

theorem Rebuilds.allowed {env : MenuEnv Handle Root Name V} {records : List CacheRecord}
    {entries : List (LoaderEntry V)} (h : Rebuilds env records entries) :
    ∀ record ∈ records, RecordAllowed env record := by
  induction h with
  | nil => exact fun record mem => absurd mem List.not_mem_nil
  | cons first _ ih => exact List.forall_mem_cons.mpr ⟨rebuildRecord_isSome_iff.mp ⟨_, first⟩, ih⟩

/-- What the second loop makes of allowed records. -/
theorem rebuilds_of_allowed {env : MenuEnv Handle Root Name V} {records : List CacheRecord}
    (allowed : ∀ record ∈ records, RecordAllowed env record) :
    Rebuilds env records (records.filterMap (rebuildRecord env)) := by
  induction records with
  | nil => exact .nil
  | cons record records ih =>
    obtain ⟨first, others⟩ := List.forall_mem_cons.mp allowed
    obtain ⟨entry, rebuilt⟩ := rebuildRecord_isSome_iff.mpr first
    rw [List.filterMap_cons_some rebuilt]
    exact .cons rebuilt (ih others)

theorem filterMap_rebuild_eq_nil_iff {env : MenuEnv Handle Root Name V} {records : List CacheRecord} :
    records.filterMap (rebuildRecord env) = [] ↔ ∀ record ∈ records, ¬ RecordAllowed env record := by
  rw [List.filterMap_eq_nil_iff]
  refine forall₂_congr fun record _ => ?_
  rw [← rebuildRecord_isSome_iff, Option.eq_none_iff_forall_ne_some]
  exact not_exists.symm

/-! ### The load -/

theorem allOrNothing_of_failed {env : MenuEnv Handle Root Name V} {records : List CacheRecord}
    {menu : List (MainEntry V)} {reason : EfiError} :
    AllOrNothing env records menu (menu ++ ([] : List (LoaderEntry V)).map .loader) (.error reason) :=
  .inr ⟨by rintro ⟨⟩, List.append_nil menu⟩

/-- Once the records pass the checks of the first loop, the second one adds all of them or none when
they are all allowed or none is. -/
theorem allOrNothing_rebuilt_iff {env : MenuEnv Handle Root Name V} {records : List CacheRecord}
    {menu : List (MainEntry V)} :
    AllOrNothing env records menu
        (menu ++ (records.filterMap (rebuildRecord env)).map .loader)
        (if (records.filterMap (rebuildRecord env)).isEmpty then .error .notFound else .success) ↔
      (∀ record ∈ records, RecordAllowed env record) ∨
        ∀ record ∈ records, ¬ RecordAllowed env record := by
  constructor
  · intro holds
    obtain ⟨_, entries, rebuilds, _⟩ | ⟨failed, _⟩ := holds
    · exact .inl rebuilds.allowed
    · right
      apply filterMap_rebuild_eq_nil_iff.mp
      split at failed
      · rename_i empty
        exact List.isEmpty_iff.mp empty
      · exact absurd rfl failed
  · intro allowed
    by_cases empty : records.filterMap (rebuildRecord env) = []
    · rw [empty]
      exact allOrNothing_of_failed
    · obtain all | none := allowed
      · left
        rw [if_neg (mt List.isEmpty_iff.mp empty)]
        exact ⟨rfl, _, rebuilds_of_allowed all, rfl⟩
      · exact absurd (filterMap_rebuild_eq_nil_iff.mpr none) empty

/-- Whatever is in the cache file, the load adds one entry for every record or leaves the menu and
fails exactly when records that all pass the checks are all allowed, or none is. -/
theorem cacheLoadMenu_allOrNothing_iff {Handle Root Name V : Type} [DecidableEq Root]
    [DecidableEq Name] (env : MenuEnv Handle Root Name V) (fw : Firmware Handle Root Name)
    (disk : Disk Root Name) (menu : List (MainEntry V)) (fingerprint : UInt32) :
    ∃ status files added, cacheLoadMenu env fw disk fingerprint = .ok (status, files, added) ∧
      (AllOrNothing env (loadedRecords env fw disk fingerprint) menu (menu ++ added.map .loader) status ↔
        ((∀ record ∈ loadedRecords env fw disk fingerprint, recordCurrent env record = true) →
          (∀ record ∈ loadedRecords env fw disk fingerprint, RecordAllowed env record) ∨
            ∀ record ∈ loadedRecords env fw disk fingerprint, ¬ RecordAllowed env record)) := by
  rw [cacheLoadMenu, loadedRecords]
  split
  · refine ⟨_, _, _, rfl, iff_of_true allOrNothing_of_failed fun _ => .inl ?_⟩
    exact fun record mem => absurd mem List.not_mem_nil
  have total : ∃ parsed, cacheReadRecords env.toCacheEnv fw disk env.selfDir fingerprint = .ok parsed := by
    rw [cacheReadRecords]
    split
    · exact ⟨_, rfl⟩
    · obtain ⟨parsed, run, _⟩ := parseBuffer_total env.crc fw.alloc (some _) fingerprint env.buildId
      exact ⟨parsed, run⟩
  obtain ⟨parsed, read⟩ := total
  rw [read]
  dsimp only
  by_cases success : parsed.status = .success
  · rw [if_neg (not_not_intro success), if_pos success]
    split
    · rename_i stale
      refine ⟨_, _, _, rfl, iff_of_true allOrNothing_of_failed fun current => ?_⟩
      rw [List.all_eq_true.mpr current] at stale
      cases stale
    · rename_i current
      rw [Bool.not_eq_true, Bool.not_eq_false', List.all_eq_true] at current
      refine ⟨_, _, _, rfl, allOrNothing_rebuilt_iff.trans ?_⟩
      exact ⟨fun allowed _ => allowed, fun allowed => allowed current⟩
  · rw [if_pos success, if_neg success]
    refine ⟨_, _, _, rfl, iff_of_true allOrNothing_of_failed fun _ => .inl ?_⟩
    exact fun record mem => absurd mem List.not_mem_nil

/-! ### A record of a refused group -/

/-- The volume groups of the loaders under `b` have been excluded since the menu was stored. -/
def refusingEnv : MenuEnv Unit Unit Unit Unit :=
  { plainMenuEnv false none with volumeGroupRefused := fun path _ => path = ['b'] }

def pairMenu : List (MainEntry Unit) :=
  [['a'], ['b']].map fun path =>
    .loader (newLoaderEntry (plainEnv false none) path none () true none)

def pairDisk : Disk Unit Unit :=
  (cacheStoreMenu (plainMenuEnv false none).toCacheEnv (fun _ => none)
    (some (pairMenu.map (menuItem (plainMenuEnv false none)))) 1).2

/-- The entry of the first of two records is left behind in an empty main menu, with success. -/
theorem cacheLoadMenu_allOrNothing_refused :
    ∃ files added, cacheLoadMenu refusingEnv openFirmware pairDisk 1 = .ok (.success, files, added) ∧
      added ≠ [] ∧ ¬ AllOrNothing refusingEnv (loadedRecords refusingEnv openFirmware pairDisk 1) []
        (added.map .loader) .success := by
  let load := cacheLoadMenu refusingEnv openFirmware pairDisk 1
  have partly : load.toOption.any (fun result => result.1 = .success && result.2.2.length = 1) = true := by
    decide +kernel
  cases run : load with
  | error stop =>
    rw [run] at partly
    cases partly
  | ok result =>
    obtain ⟨status, files, added⟩ := result
    rw [run] at partly
    obtain ⟨success, one⟩ := Bool.and_eq_true_iff.mp partly
    obtain rfl := of_decide_eq_true success
    have one : added.length = 1 := of_decide_eq_true one
    refine ⟨files, added, run, ?_, ?_⟩
    · rintro rfl
      cases one
    · rintro (⟨_, entries, rebuilds, _⟩ | ⟨failed, _⟩)
      · have refused : ∃ record ∈ loadedRecords refusingEnv openFirmware pairDisk 1,
            rebuildRecord refusingEnv record = none := by
          have found : (loadedRecords refusingEnv openFirmware pairDisk 1).any
              (fun record => (rebuildRecord refusingEnv record).isNone) = true := by
            decide +kernel
          obtain ⟨record, mem, none⟩ := List.any_eq_true.mp found
          exact ⟨record, mem, Option.isNone_iff_eq_none.mp none⟩
        obtain ⟨record, mem, none⟩ := refused
        obtain ⟨entry, rebuilt⟩ := rebuildRecord_isSome_iff.mpr (rebuilds.allowed record mem)
        cases none.symm.trans rebuilt
      · exact failed rfl

end Meridian.Cache
