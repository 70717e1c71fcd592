import Meridian.Ext.Files

/-!
# Directories of an ext volume

The model of `fsw_ext2_read_dentry`, `fsw_ext2_dir_lookup` and `fsw_ext2_dir_read` of `filesystems/fsw_ext2.c`, which
are those of `filesystems/fsw_ext4.c` too, up to the entry that `fsw_dnode_create` is called with. A directory is a
file of records, and is read through a handle. `fsw_streq` with the name that is looked up is a predicate.
-/

namespace Meridian.Ext

open Lib.Attempt Lib.Codec
open Meridian.Fsw
open Meridian.Fsw.FileProtocol (at_opened opened)

/-! ### Entries through a handle -/

/-- The first eight bytes of `struct ext2_dir_entry`. -/
structure DentryHead where
  inode : Nat
  recLen : Nat
  nameLen : Nat
  deriving DecidableEq, Repr

def DentryHead.ofBytes (bytes : List UInt8) : DentryHead :=
  ⟨ofLe (bytes.take 4), ofLe ((bytes.drop 4).take 2), ofLe ((bytes.drop 6).take 1)⟩

structure Dentry where
  inode : Nat
  name : List UInt8
  deriving DecidableEq, Repr

section
variable (env : ShandleEnv) (fuel : Nat)

def passBytes (n : Nat) : AttemptM FswShandle Fault Unit :=
  modify fun shand => { shand with pos := u64 (shand.pos + n) }

/-- `fsw_ext2_read_dentry`. It returns no entry where the source returns one whose inode is zero. -/
def readDentry : Nat → AttemptM FswShandle Fault (Option Dentry)
  | 0 => throw .outOfFuel
  | more + 1 => do
    let (bytes, bufferSize) ← shandleRead env fuel 8
    let entry := DentryHead.ofBytes bytes
    if bufferSize < 8 ∨ entry.recLen = 0 then return none
    else if entry.recLen < 8 then throw (.status .volumeCorrupted)
    else if entry.inode ≠ 0 then
      if entry.recLen < 8 + entry.nameLen then throw (.status .volumeCorrupted)
      else do
        let (name, bufferSize) ← shandleRead env fuel (.ofNat entry.nameLen)
        if bufferSize < entry.nameLen then throw (.status .volumeCorrupted)
        else do
          passBytes (entry.recLen - (8 + entry.nameLen))
          return some ⟨entry.inode, name⟩
    else do
      passBytes (entry.recLen - 8)
      readDentry more

/-- The loop of `fsw_ext2_dir_lookup`. -/
def dirLookup (names : List UInt8 → Bool) : Nat → AttemptM FswShandle Fault Dentry
  | 0 => throw .outOfFuel
  | more + 1 => do
    let entry ← readDentry env fuel (more + 1)
    match entry with
    | none => throw (.status .notFound)
    | some entry => if names entry.name then return entry else dirLookup names more

def Dentry.Dots (entry : Dentry) : Prop := entry.name = [0x2e] ∨ entry.name = [0x2e, 0x2e]

instance (entry : Dentry) : Decidable entry.Dots := by
  unfold Dentry.Dots
  infer_instance

/-- The loop of `fsw_ext2_dir_read`. -/
def dirRead : Nat → AttemptM FswShandle Fault Dentry
  | 0 => throw .outOfFuel
  | more + 1 => do
    let entry ← readDentry env fuel (more + 1)
    match entry with
    | none => throw (.status .notFound)
    | some entry => if entry.Dots then dirRead more else return entry

/-- So many calls of `fsw_ext2_dir_read`. -/
def dirReads (more : Nat) : Nat → AttemptM FswShandle Fault (List Dentry)
  | 0 => return []
  | calls + 1 => do
    let entry ← dirRead env fuel more
    let entries ← dirReads more calls
    return entry :: entries

end

/-! ### Records -/

/-- A record of a directory, as its bytes are read. The name of an entry is in the record. -/
structure Record where
  inode : UInt32
  nameLen : UInt8
  fileType : UInt8
  body : List UInt8
  short : 8 + body.length < 2 ^ 16
  fits : inode ≠ 0 → nameLen.toNat ≤ body.length

namespace Record

variable (r : Record)

def recLen : Nat := 8 + r.body.length

def bytes : List UInt8 := toLe 4 r.inode.toNat ++ (toLe 2 r.recLen ++ ([r.nameLen, r.fileType] ++ r.body))

def dentry : Dentry := ⟨r.inode.toNat, r.body.take r.nameLen.toNat⟩

theorem take_bytes (rest : List UInt8) :
    (r.bytes ++ rest).take 8 = toLe 4 r.inode.toNat ++ (toLe 2 r.recLen ++ [r.nameLen, r.fileType]) := rfl

theorem drop_bytes (rest : List UInt8) : (r.bytes ++ rest).drop 8 = r.body ++ rest := rfl

theorem head_ofBytes (rest : List UInt8) :
    DentryHead.ofBytes ((r.bytes ++ rest).take 8) = ⟨r.inode.toNat, r.recLen, r.nameLen.toNat⟩ := by
  have inode : ofLe (toLe 4 r.inode.toNat) = r.inode.toNat := ofLe_toLe r.inode.toNat_lt
  have recLen : ofLe (toLe 2 r.recLen) = r.recLen := ofLe_toLe r.short
  have nameLen : ofLe [r.nameLen] = r.nameLen.toNat := Nat.add_zero _
  rw [take_bytes, DentryHead.ofBytes]
  change DentryHead.mk (ofLe (toLe 4 r.inode.toNat)) (ofLe (toLe 2 r.recLen)) (ofLe [r.nameLen]) = _
  rw [inode, recLen, nameLen]

end Record

/-- The entries of records. A record without an inode is none. -/
def entries (records : List Record) : List Dentry := (records.filter fun r => r.inode ≠ 0).map Record.dentry

def visible (records : List Record) : List Dentry := (entries records).filter fun entry => ¬ entry.Dots

/-! ### What is ahead of a handle -/

section
variable {file : TameFile} {fuel : Nat}

/-- The handle is in front of these bytes of the file. -/
def Ahead (file : TameFile) (rest : List UInt8) (shand : FswShandle) : Prop :=
  ∃ before, part file.content 0 file.env.size = before ++ rest ∧ file.At before.length shand

theorem bytes_ahead {before rest : List UInt8} (whole : part file.content 0 file.env.size = before ++ rest)
    (n : Nat) : file.bytes before.length n = rest.take n := by
  have size : file.env.size = before.length + rest.length := by
    rw [← List.length_append, ← whole, part_length]
  have split := part_append file.content 0 (show before.length ≤ file.env.size by omega)
  rw [whole, Nat.zero_add] at split
  obtain ⟨-, same⟩ := List.append_inj split (part_length _ _ _)
  have inner := part_append file.content before.length
    (show min n (file.env.size - before.length) ≤ file.env.size - before.length from Nat.min_le_right _ _)
  rw [same] at inner
  have few : rest.take n = rest.take (min n (file.env.size - before.length)) :=
    List.take_eq_take_iff.mpr (by omega)
  rw [few, TameFile.bytes, ← inner, List.take_left' (part_length _ _ _)]

/-- A read fails as it may, with an extent that can be kept. -/
def Stuck (file : TameFile) (fault : Fault) (shand : FswShandle) : Prop :=
  file.MayFail fault ∧ file.Kept shand.extent

/-- A read gives the bytes ahead, and moves behind them. -/
theorem shandleRead_ahead (enough : 2 ^ 32 ≤ fuel) (bufferSize : UInt32) (rest : List UInt8) :
    Does (Ahead file rest) (shandleRead file.env fuel bufferSize)
      (fun read shand => read = (rest.take bufferSize.toNat, (rest.take bufferSize.toNat).length) ∧
        Ahead file (rest.drop bufferSize.toNat) shand)
      (Stuck file) := by
  rintro shand ⟨before, whole, at'⟩
  have outcome := shandleRead_does file (Nat.lt_of_lt_of_le bufferSize.toNat_lt enough) before.length shand at'
  rw [bytes_ahead whole] at outcome
  generalize shandleRead file.env fuel bufferSize shand = run at outcome ⊢
  obtain ⟨out, left⟩ := run
  dsimp only at outcome ⊢
  cases outcome with
  | ok right =>
    refine .ok ⟨right.1, before ++ rest.take bufferSize.toNat, ?_, ?_⟩
    · rw [List.append_assoc, List.take_append_drop, whole]
    · rw [List.length_append]
      exact right.2
  | error may => exact .error ⟨may.1, may.2.2⟩

theorem passBytes_ahead {n : Nat} {rest : List UInt8} (inside : n ≤ rest.length) :
    Does (Ahead file rest) (passBytes n) (fun _ => Ahead file (rest.drop n)) (Stuck file) := by
  refine does_modify ?_
  rintro shand ⟨before, whole, pos, kept⟩
  have size : file.env.size = before.length + rest.length := by
    rw [← List.length_append, ← whole, part_length]
  have small := file.size_lt
  refine ⟨before ++ rest.take n, ?_, ?_, kept⟩
  · rw [List.append_assoc, List.take_append_drop, whole]
  · rw [List.length_append, List.length_take_of_le inside, ← pos]
    exact Nat.mod_eq_of_lt (by omega)

/-! ### Reading on -/

/-- The first entry of records, and the records behind it. -/
inductive Next (records : List Record) : Option Dentry → List Record → Prop
  | last (done : entries records = []) : Next records none []
  | entry {entry : Dentry} {rest : List Record} (first : entries records = entry :: entries rest)
      (shorter : rest.length < records.length) : Next records (some entry) rest

theorem entries_dead {r : Record} (dead : r.inode = 0) (records : List Record) :
    entries (r :: records) = entries records := by
  rw [entries, List.filter_cons_of_neg (by rwa [decide_eq_true_iff, not_not]), entries]

theorem entries_live {r : Record} (live : r.inode ≠ 0) (records : List Record) :
    entries (r :: records) = r.dentry :: entries records := by
  rw [entries, List.filter_cons_of_pos (by rwa [decide_eq_true_iff]), List.map_cons, entries]

theorem Next.cons {r : Record} {records rest : List Record} {entry : Option Dentry} (dead : r.inode = 0)
    (next : Next records entry rest) : Next (r :: records) entry rest := by
  have same := entries_dead dead records
  cases next with
  | last done => exact .last (same.trans done)
  | entry first shorter => exact .entry (same.trans first) (Nat.lt_succ_of_lt shorter)

/-- The next entry is read, or a read of the directory fails. -/
theorem readDentry_does (enough : 2 ^ 32 ≤ fuel) (records : List Record) {more : Nat} (few : records.length < more) :
    Does (Ahead file (records.flatMap Record.bytes)) (readDentry file.env fuel more)
      (fun entry shand => ∃ rest, Next records entry rest ∧ Ahead file (rest.flatMap Record.bytes) shand)
      (Stuck file) := by
  induction records generalizing more with
  | nil =>
    obtain ⟨more, rfl⟩ := Nat.exists_eq_succ_of_ne_zero few.ne'
    rw [readDentry]
    refine (shandleRead_ahead enough 8 _).bind ?_
    rintro ⟨bytes, bufferSize⟩
    refine does_and fun same => ?_
    obtain ⟨rfl, rfl⟩ := Prod.mk.inj same
    dsimp only
    rw [if_pos (.inl (by decide))]
    exact does_pure fun shand ahead => ⟨[], .last rfl, ahead⟩
  | cons r records ih =>
    obtain ⟨more, rfl⟩ := Nat.exists_eq_succ_of_ne_zero (show more ≠ 0 by omega)
    rw [readDentry, List.flatMap_cons]
    refine (shandleRead_ahead enough 8 _).bind ?_
    rintro ⟨bytes, bufferSize⟩
    refine does_and fun same => ?_
    obtain ⟨rfl, rfl⟩ := Prod.mk.inj same
    have eight : (8 : UInt32).toNat = 8 := rfl
    have whole (rest : List UInt8) : ((r.bytes ++ rest).take 8).length = 8 := rfl
    have recLen : r.recLen = 8 + r.body.length := rfl
    dsimp only
    rw [eight, r.head_ofBytes, r.drop_bytes, whole]
    dsimp only
    rw [if_neg (by omega), if_neg (by omega)]
    by_cases live : r.inode ≠ 0
    · have fits := r.fits live
      have live' : r.inode.toNat ≠ 0 := fun zero => live (UInt32.toNat_inj.mp zero)
      rw [if_pos live', if_neg (by omega)]
      have size : (UInt32.ofNat r.nameLen.toNat).toNat = r.nameLen.toNat :=
        UInt32.toNat_ofNat_of_lt' (Nat.lt_trans r.nameLen.toNat_lt (by decide))
      refine (shandleRead_ahead enough _ _).bind ?_
      rintro ⟨name, bufferSize⟩
      refine does_and fun same => ?_
      obtain ⟨rfl, rfl⟩ := Prod.mk.inj same
      dsimp only
      rw [size, List.take_append_of_le_length fits, List.drop_append_of_le_length fits,
        List.length_take_of_le fits, if_neg (Nat.lt_irrefl _)]
      have pad : r.recLen - (8 + r.nameLen.toNat) = (r.body.drop r.nameLen.toNat).length := by
        rw [List.length_drop]
        omega
      refine (passBytes_ahead ?_).bind fun _ => does_pure fun shand ahead => ⟨records, ?_, ?_⟩
      · rw [List.length_append]
        omega
      · exact .entry (entries_live live records) (Nat.lt_succ_self _)
      · rwa [pad, List.drop_left] at ahead
    · have dead := not_not.mp live
      have zero : r.inode.toNat = 0 := by
        rw [dead]
        rfl
      rw [if_neg (not_not.mpr zero)]
      have skip : r.recLen - 8 = r.body.length := by omega
      refine (passBytes_ahead ?_).bind fun _ => ?_
      · rw [List.length_append]
        omega
      rw [skip, List.drop_left]
      refine (ih (show records.length < more from Nat.lt_of_succ_lt_succ few)).imp (fun _ => id)
        (fun entry shand right => ?_) fun _ _ => id
      obtain ⟨rest, next, ahead⟩ := right
      exact ⟨rest, next.cons dead, ahead⟩

/-! ### Looking up a name -/

/-- The loops over entries fail if there is no entry, or as a read may. -/
def Missing (file : TameFile) (absent : Prop) (fault : Fault) : Prop :=
  (fault = .status .notFound ∧ absent) ∨ file.MayFail fault

def Lacks (file : TameFile) (absent : Prop) (fault : Fault) (shand : FswShandle) : Prop :=
  Missing file absent fault ∧ file.Kept shand.extent

theorem Ahead.kept {rest : List UInt8} {shand : FswShandle} (ahead : Ahead file rest shand) :
    file.Kept shand.extent := by
  obtain ⟨before, whole, pos, kept⟩ := ahead
  exact kept

theorem readDentry_lacks (enough : 2 ^ 32 ≤ fuel) (absent : Prop) (records : List Record) {more : Nat}
    (few : records.length < more) :
    Does (Ahead file (records.flatMap Record.bytes)) (readDentry file.env fuel more)
      (fun entry shand => ∃ rest, Next records entry rest ∧ Ahead file (rest.flatMap Record.bytes) shand)
      (Lacks file absent) :=
  (readDentry_does enough records few).imp (fun _ => id) (fun _ _ => id) fun _ _ stuck => ⟨.inr stuck.1, stuck.2⟩

/-- The first entry with the name is found. -/
theorem dirLookup_does (enough : 2 ^ 32 ≤ fuel) (names : List UInt8 → Bool) (records : List Record) {more : Nat}
    (few : records.length < more) :
    Does (Ahead file (records.flatMap Record.bytes)) (dirLookup file.env fuel names more)
      (fun entry _ => (entries records).find? (fun entry => names entry.name) = some entry)
      (Lacks file ((entries records).find? (fun entry => names entry.name) = none)) := by
  induction more generalizing records with
  | zero => exact absurd few (Nat.not_lt_zero _)
  | succ more ih =>
    rw [dirLookup]
    refine (readDentry_lacks enough _ records few).bind fun entry => ?_
    rintro shand ⟨rest, next, ahead⟩
    cases next with
    | last done =>
      rw [done]
      exact .error ⟨.inl ⟨rfl, rfl⟩, ahead.kept⟩
    | @entry entry _ first shorter =>
      rw [first]
      dsimp only
      by_cases named : names entry.name = true
      · rw [if_pos named, List.find?_cons_of_pos (by exact named)]
        exact .ok rfl
      · rw [if_neg named, List.find?_cons_of_neg (by exact named)]
        exact ih rest (Nat.lt_of_lt_of_le shorter (Nat.le_of_lt_succ few)) shand ahead

/-! ### Reading a directory -/

theorem visible_cons (entry : Dentry) {records rest : List Record} (first : entries records = entry :: entries rest) :
    visible records = if entry.Dots then visible rest else entry :: visible rest := by
  rw [visible, first]
  split
  · rename_i dots
    exact List.filter_cons_of_neg (by rwa [decide_eq_true_iff, not_not])
  · rename_i not
    exact List.filter_cons_of_pos (decide_eq_true not)

/-- The next visible entry is read. -/
theorem dirRead_does (enough : 2 ^ 32 ≤ fuel) (records : List Record) {more : Nat} (few : records.length < more) :
    Does (Ahead file (records.flatMap Record.bytes)) (dirRead file.env fuel more)
      (fun entry shand => ∃ rest, visible records = entry :: visible rest ∧ rest.length < records.length ∧
        Ahead file (rest.flatMap Record.bytes) shand)
      (Lacks file (visible records = [])) := by
  induction more generalizing records with
  | zero => exact absurd few (Nat.not_lt_zero _)
  | succ more ih =>
    rw [dirRead]
    refine (readDentry_lacks enough _ records few).bind fun entry => ?_
    rintro shand ⟨rest, next, ahead⟩
    cases next with
    | last done =>
      rw [visible, done]
      exact .error ⟨.inl ⟨rfl, rfl⟩, ahead.kept⟩
    | @entry entry _ first shorter =>
      rw [visible_cons entry first]
      dsimp only
      by_cases dots : entry.Dots
      · rw [if_pos dots, if_pos dots]
        have later : Does (Ahead file (rest.flatMap Record.bytes)) (dirRead file.env fuel more)
            (fun entry shand => ∃ rest', visible rest = entry :: visible rest' ∧ rest'.length < records.length ∧
              Ahead file (rest'.flatMap Record.bytes) shand)
            (Lacks file (visible rest = [])) := by
          refine (ih rest (Nat.lt_of_lt_of_le shorter (Nat.le_of_lt_succ few))).imp (fun _ => id)
            (fun entry shand right => ?_) fun _ _ => id
          obtain ⟨rest', seen, few', ahead'⟩ := right
          exact ⟨rest', seen, Nat.lt_trans few' shorter, ahead'⟩
        exact later shand ahead
      · rw [if_neg dots, if_neg dots]
        exact .ok ⟨rest, rfl, shorter, ahead⟩

/-- Calls in a row read the visible entries in order, and there is none behind the last one. -/
theorem dirReads_does (enough : 2 ^ 32 ≤ fuel) (calls : Nat) (records : List Record) {more : Nat}
    (few : records.length < more) :
    Does (Ahead file (records.flatMap Record.bytes)) (dirReads file.env fuel more calls)
      (fun read _ => read = (visible records).take calls ∧ calls ≤ (visible records).length)
      (Lacks file ((visible records).length < calls)) := by
  induction calls generalizing records with
  | zero => exact does_pure fun _ _ => ⟨rfl, Nat.zero_le _⟩
  | succ calls ih =>
    rw [dirReads]
    refine ((dirRead_does enough records few).imp (fun _ => id) (fun _ _ => id) fun fault _ missing => ?_).bind
      fun entry => ?_
    · refine ⟨missing.1.imp_left fun last => ⟨last.1, ?_⟩, missing.2⟩
      rw [last.2]
      exact Nat.succ_pos calls
    rintro shand ⟨rest, seen, shorter, ahead⟩
    have later : Does (Ahead file (rest.flatMap Record.bytes))
        (dirReads file.env fuel more calls >>= fun entries => pure (entry :: entries))
        (fun read _ => read = (visible records).take (calls + 1) ∧ calls + 1 ≤ (visible records).length)
        (Lacks file ((visible records).length < calls + 1)) := by
      rw [seen]
      refine ((ih rest (Nat.lt_trans shorter few)).imp (fun _ => id) (fun _ _ => id) fun fault _ missing => ?_).bind
        fun read => does_pure fun _ right => ?_
      · exact ⟨missing.1.imp_left fun last => ⟨last.1, Nat.succ_lt_succ last.2⟩, missing.2⟩
      · rw [right.1]
        exact ⟨rfl, Nat.succ_le_succ right.2⟩
    exact later shand ahead

end

/-! ### Directories -/

/-- The directory itself, a record without an inode, and a name. -/
def sampleRecords : List Record :=
  [⟨2, 1, 2, [0x2e, 0, 0, 0], by decide, by decide⟩, ⟨0, 0, 0, [], by decide, by decide⟩,
    ⟨11, 1, 1, 0x61 :: List.replicate 35 0, by decide, by decide⟩]

def directoryBlock (bno : Nat) : List UInt8 :=
  if bno = 7 then sampleRecords.flatMap Record.bytes else List.replicate 64 0

theorem directoryBlock_length (bno : Nat) : (directoryBlock bno).length = 64 := by
  unfold directoryBlock
  split <;> rfl

def sampleDirectory : ExtentFile where
  disk := smallDisk directoryBlock directoryBlock_length
  power := smallDisk_power directoryBlock directoryBlock_length
  dno :=
    { size := 64
      flags := 1 <<< inodeExtents
      block := sampleNode 60 1 0 [0, 0, 0, 0, 1, 0, 0, 0, 7, 0, 0, 0] }
  byExtents := by decide
  outside := by decide
  short := by decide
  depth := 0
  tree := [⟨0, 1, 7⟩]
  fails _ := False
  plain := id
  blockGet bno := .ok (directoryBlock bno)
  holds := by
    refine ⟨⟨rfl, fun i lt => ?_⟩, List.pairwise_singleton _ _, List.pairwise_singleton _ _, by decide⟩
    obtain rfl : i = 0 := Nat.lt_one_iff.mp lt
    rfl
  noGap _ _ := not_gap_leaf
  reads _ _ _ _ := .ok rfl

def sampleOpened : ExtFile := .extents sampleDirectory Nat.one_pos

end Meridian.Ext
