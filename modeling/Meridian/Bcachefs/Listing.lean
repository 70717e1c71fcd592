import Mathlib.Data.List.Nodup
import Mathlib.Data.List.Perm.Subperm
import Meridian.Bcachefs.Directory
import Meridian.Bcachefs.Search

/-!
# Listing a directory

The reads of a directory go on from the offset after the last entry's. They give every live entry
once, and agree with the lookup of a name, exactly when no search on the way is cut short.
-/

namespace Meridian.Bcachefs

open Fsw Lib.Result Lib.Overlay

/-! ### Offsets -/

section

variable {buf : List UInt8} {p fin : Nat} {format : BkeyFormat} {key : Key} {keyBytes : Nat}

end

variable {blocks : Blocks} {vol : Volume} {ptr : BtreePtr} {root : BtreeRoot} {level : Nat}

theorem Unpacked.offset {entry : LookupResult} (unpacked : Unpacked entry) :
    entry.pos.offset < 2 ^ 64 := by
  obtain ⟨⟨node, format, fin, p, keyBytes, run⟩, _⟩ := unpacked
  exact (unpackKey_bounds run).offset

theorem below_unpacked {entry : LookupResult}
    (below : (treeNodes blocks vol).Below level ptr entry) : Unpacked entry := by
  induction level generalizing ptr with
  | zero =>
    obtain ⟨entries, ⟨bsets, held, rfl⟩, newest, _⟩ := below
    exact nodeAt_unpacked held entry newest.mem
  | succ level ih =>
    obtain ⟨entries, _, inner, _, child, _, below⟩ := below
    exact ih below

/-! ### Names -/

theorem nameLength_spec {value : List UInt8} {n : Nat} (inside : 9 + n ≤ value.length)
    (short : value.length < 2 ^ 32) :
    ∃ m ≤ n, nameLength value n = .ok m ∧ (m = 0 → ∀ b ∈ (value.drop 9).take n, b = 0) := by
  induction n with
  | zero => exact ⟨0, Nat.le_refl 0, rfl, fun _ => nofun⟩
  | succ n ih =>
    obtain ⟨m, small, run, zeros⟩ := ih (by omega)
    have inside : 9 + n < value.length := by omega
    have read : le value (9 + n) 1 = .ok value[9 + n].toNat := by
      rw [le, bytesAt_ok (by omega), List.drop_eq_getElem_cons inside]
      rfl
    rw [nameLength, u32_eq (by omega), read]
    show ∃ m ≤ n + 1, (if value[9 + n].toNat = 0 then nameLength value n else .ok (n + 1)) = .ok m ∧ _
    by_cases zero : value[9 + n].toNat = 0
    · rw [if_pos zero]
      refine ⟨m, by omega, run, fun empty b mem => ?_⟩
      rw [List.take_add_one] at mem
      rcases List.mem_append.mp mem with mem | mem
      · exact zeros empty b mem
      · rw [List.getElem?_drop, List.getElem?_eq_getElem inside] at mem
        obtain rfl := List.mem_singleton.mp mem
        exact UInt8.toNat_inj.mp zero
    · rw [if_neg zero]
      exact ⟨n + 1, Nat.le_refl _, rfl, fun impossible => absurd impossible (Nat.succ_ne_zero n)⟩

/-- A dirent's value: a number, a type and a name. -/
structure DirentValue (entry : LookupResult) : Prop where
  type : entry.key.type = keyTypeDirent
  long : 10 ≤ entry.value.length
  named : ∃ b ∈ entry.value.drop 9, b ≠ 0

theorem direntName_ok {entry : LookupResult} (dirent : DirentValue entry)
    (short : entry.value.length ≤ maxValueBytes) :
    ∃ name, direntName entry = .ok name ∧ name.length ≠ 0 := by
  have long := dirent.long
  have most : maxValueBytes = 2048 := rfl
  have length : u32 (entry.value.length + (2 ^ 32 - 9)) = entry.value.length - 9 := by
    rw [u32]
    omega
  obtain ⟨m, small, run, zeros⟩ :=
    @nameLength_spec entry.value (entry.value.length - 9) (by omega) (by omega)
  refine ⟨(entry.value.drop 9).take m, ?_, ?_⟩
  · rw [direntName, length, run]
    exact bytesAt_ok (by omega)
  · rw [List.length_take, List.length_drop]
    intro empty
    obtain ⟨b, mem, nonzero⟩ := dirent.named
    apply nonzero
    apply zeros (by omega) b
    rw [List.take_of_length_le (by rw [List.length_drop])]
    exact mem

theorem direntToDnode_ok {entry : LookupResult} (dnodes : List Dnode) (dirent : DirentValue entry)
    (short : entry.value.length ≤ maxValueBytes) :
    ∃ dno, bcachefsDirentToDnode dnodes entry = .ok dno := by
  obtain ⟨name, run, named⟩ := direntName_ok dirent short
  have long := dirent.long
  rw [bcachefsDirentToDnode, if_neg (by rw [dirent.type]; omega), le, bytesAt_ok (by omega), run, le,
    bytesAt_ok (by omega)]
  exact ⟨_, if_neg named⟩

/-! ### The directory -/

variable {dirIno start last : Nat} {dnodes : List Dnode} {entry : LookupResult}
  {entries : List LookupResult}

/-- A live key of the directory. -/
def DirentOf (blocks : Blocks) (vol : Volume) (root : BtreeRoot) (dirIno : Nat)
    (entry : LookupResult) : Prop :=
  (treeNodes blocks vol).Below root.level root.ptr entry ∧ entry.pos.inode = dirIno

/-- A well-formed tree, whose live keys for the directory are dirents. -/
structure Directory (blocks : Blocks) (vol : Volume) (root : BtreeRoot) (dirIno : Nat) : Prop where
  alive : vol.roots[btreeDirents]?.join = some root
  ordered : (treeNodes blocks vol).Ordered root.level root.ptr
  dirent : ∀ entry, DirentOf blocks vol root dirIno entry → DirentValue entry

/-- The position from which the entry at an offset, or the next one, is searched. -/
abbrev fromOffset (dirIno start : Nat) : Pos := { inode := dirIno, offset := start, snapshot := 0 }

theorem fromOffset_le (pos : Pos) :
    fromOffset dirIno start ≤ pos ↔
      dirIno < pos.inode ∨ dirIno = pos.inode ∧ start ≤ pos.offset := by
  rw [← not_lt, Pos.lt_iff]
  show ¬ (pos.inode < dirIno ∨ pos.inode = dirIno ∧
    (pos.offset < start ∨ pos.offset = start ∧ pos.snapshot < 0)) ↔ _
  omega

theorem directory_offset (mine : DirentOf blocks vol root dirIno entry) :
    entry.pos.offset < 2 ^ 64 := (below_unpacked mine.1).offset

section

variable (directory : Directory blocks vol root dirIno)

include directory

theorem nextDirent_ok_iff :
    bcachefsNextDirent blocks vol dirIno start = .ok entry ↔
      (treeNodes blocks vol).Finds (fromOffset dirIno start) root.level root.ptr entry ∧
        entry.pos.inode = dirIno := by
  have run : bcachefsBtreeLookup blocks vol btreeDirents (fromOffset dirIno start) =
      descend blocks vol (fromOffset dirIno start) root.level root.ptr := by
    rw [bcachefsBtreeLookup, directory.alive]
  rw [bcachefsNextDirent, run]
  constructor
  · intro run
    obtain ⟨lookup, found, run⟩ := bind_eq_ok.mp run
    split at run
    · cases run
    rename_i mine
    obtain rfl := Except.ok.inj run
    refine ⟨?_, by tauto⟩
    by_cases opened : (treeNodes blocks vol).Open (fromOffset dirIno start) root.level root.ptr
    · obtain ⟨entry', found'⟩ := Nodes.open_iff.mp opened
      rw [descend_finds found'] at found
      obtain rfl := Except.ok.inj found
      exact found'
    · rw [descend_closed directory.ordered opened] at found
      cases found
  · rintro ⟨found, mine⟩
    have below := (found.least directory.ordered).below
    have type := (directory.dirent entry ⟨below, mine⟩).type
    rw [descend_finds found]
    show (if entry.key.p.inode ≠ dirIno ∨ entry.key.type ≠ keyTypeDirent then fail .notFound
      else pure entry : FswM LookupResult) = _
    rw [if_neg (by tauto)]
    rfl

theorem nextDirent_notFound (none : ∀ entry, bcachefsNextDirent blocks vol dirIno start ≠ .ok entry) :
    bcachefsNextDirent blocks vol dirIno start = fail .notFound := by
  by_cases opened : (treeNodes blocks vol).Open (fromOffset dirIno start) root.level root.ptr
  · obtain ⟨entry, found⟩ := Nodes.open_iff.mp opened
    have other : entry.key.p.inode ≠ dirIno ∨ entry.key.type ≠ keyTypeDirent := by
      apply Or.inl
      intro mine
      exact none entry ((nextDirent_ok_iff directory).mpr ⟨found, mine⟩)
    rw [bcachefsNextDirent, bcachefsBtreeLookup, directory.alive]
    show (descend blocks vol (fromOffset dirIno start) root.level root.ptr >>= _) = _
    rw [descend_finds found]
    exact if_pos other
  · rw [bcachefsNextDirent, bcachefsBtreeLookup, directory.alive]
    show (descend blocks vol (fromOffset dirIno start) root.level root.ptr >>= _) = _
    rw [descend_closed directory.ordered opened]
    rfl

/-- The entry that is next from an offset is a live one of the directory, and the first from there. -/
theorem nextDirent_least (run : bcachefsNextDirent blocks vol dirIno start = .ok entry) :
    DirentOf blocks vol root dirIno entry ∧ start ≤ entry.pos.offset ∧
      ∀ entry', DirentOf blocks vol root dirIno entry' → start ≤ entry'.pos.offset →
        entry.pos.offset ≤ entry'.pos.offset := by
  obtain ⟨found, mine⟩ := (nextDirent_ok_iff directory).mp run
  obtain ⟨below, above, least⟩ := found.least directory.ordered
  refine ⟨⟨below, mine⟩, ?_, ?_⟩
  · have from' := (fromOffset_le entry.pos).mp above
    omega
  · rintro entry' ⟨below', mine'⟩ later
    have order := least entry' below' ((fromOffset_le entry'.pos).mpr (Or.inr ⟨mine'.symm, later⟩))
    have notLess := not_lt.mpr order
    rw [Pos.lt_iff] at notLess
    have inodes : entry'.pos.inode = entry.pos.inode := mine'.trans mine.symm
    show entry.pos.offset ≤ entry'.pos.offset
    by_contra behind
    exact notLess (Or.inr ⟨inodes, Or.inl (Nat.lt_of_not_le behind)⟩)

end

/-! ### The reads -/

/-- The entries that reads from one position deliver, up to another position. -/
inductive Reads (blocks : Blocks) (vol : Volume) (dirIno : Nat) :
    Nat → List LookupResult → Nat → Prop where
  | nil {start : Nat} : Reads blocks vol dirIno start [] start
  | cons {start last : Nat} {entry : LookupResult} {entries : List LookupResult}
      (next : bcachefsNextDirent blocks vol dirIno start = .ok entry)
      (low : entry.pos.offset ≠ maxOffset)
      (rest : Reads blocks vol dirIno (entry.pos.offset + 1) entries last) :
      Reads blocks vol dirIno start (entry :: entries) last

/-- Reads one after the other, each from the position that the one before left, until one reports the
end of the directory. -/
inductive Enumerates (blocks : Blocks) (vol : Volume) (dnodes : List Dnode) (dirIno : Nat) :
    Nat → List Dnode → Prop where
  | done {pos pos' : Nat}
      (read : fswBcachefsDirRead blocks vol dnodes dirIno pos = (fail .notFound, pos')) :
      Enumerates blocks vol dnodes dirIno pos []
  | more {pos pos' : Nat} {dno : Dnode} {rest : List Dnode}
      (read : fswBcachefsDirRead blocks vol dnodes dirIno pos = (.ok dno, pos'))
      (next : Enumerates blocks vol dnodes dirIno pos' rest) :
      Enumerates blocks vol dnodes dirIno pos (dno :: rest)

theorem enumerates_reads {dnos : List Dnode} (run : Enumerates blocks vol dnodes dirIno start dnos) :
    ∃ entries last, Reads blocks vol dirIno start entries last ∧
      List.Forall₂ (fun entry dno => bcachefsDirentToDnode dnodes entry = .ok dno) entries dnos := by
  induction run with
  | done read => exact ⟨[], _, Reads.nil, List.Forall₂.nil⟩
  | @more pos pos' dno rest read next ih =>
    obtain ⟨entries, last, reads, same⟩ := ih
    rw [fswBcachefsDirRead] at read
    cases found : bcachefsNextDirent blocks vol dirIno pos with
    | error fault =>
      rw [found] at read
      cases read
    | ok entry =>
      rw [found] at read
      dsimp only at read
      split at read
      · cases read
      · rename_i low
        obtain ⟨made, moved⟩ := Prod.mk.inj read
        subst moved
        exact ⟨entry :: entries, last, Reads.cons found low reads, List.Forall₂.cons made same⟩

theorem reads_enumerates {dnos : List Dnode} (reads : Reads blocks vol dirIno start entries last)
    (done : bcachefsNextDirent blocks vol dirIno last = fail .notFound)
    (same : List.Forall₂ (fun entry dno => bcachefsDirentToDnode dnodes entry = .ok dno) entries dnos) :
    Enumerates blocks vol dnodes dirIno start dnos := by
  induction reads generalizing dnos with
  | @nil start =>
    cases same
    apply @Enumerates.done _ _ _ _ start start
    rw [fswBcachefsDirRead, done]
    rfl
  | @cons start last entry entries next low rest ih =>
    cases same with
    | cons made others =>
      apply @Enumerates.more _ _ _ _ start (entry.pos.offset + 1) _ _ _ (ih done others)
      rw [fswBcachefsDirRead, next]
      show (if entry.pos.offset = maxOffset then (fail .notFound, start)
        else (bcachefsDirentToDnode dnodes entry, entry.pos.offset + 1)) = _
      rw [if_neg low, made]

section

variable (directory : Directory blocks vol root dirIno)

include directory

theorem reads_dirents (reads : Reads blocks vol dirIno start entries last) :
    ∀ entry ∈ entries, DirentOf blocks vol root dirIno entry ∧ start ≤ entry.pos.offset ∧
      entry.pos.offset ≠ maxOffset := by
  induction reads with
  | nil => exact nofun
  | @cons start last entry entries next low rest ih =>
    obtain ⟨mine, later, _⟩ := nextDirent_least directory next
    intro entry' mem
    rcases List.mem_cons.mp mem with rfl | mem
    · exact ⟨mine, later, low⟩
    · obtain ⟨mine', later', low'⟩ := ih entry' mem
      exact ⟨mine', by omega, low'⟩

theorem reads_sorted (reads : Reads blocks vol dirIno start entries last) :
    entries.Pairwise fun entry entry' => entry.pos.offset < entry'.pos.offset := by
  induction reads with
  | nil => exact List.Pairwise.nil
  | cons next low rest ih =>
    apply List.Pairwise.cons _ ih
    intro entry' mem
    exact (reads_dirents directory rest entry' mem).2.1

/-- Each read that has something to deliver comes from a search that is not cut short. -/
theorem reads_open (reads : Reads blocks vol dirIno start entries last) {from' : Nat}
    (begins : from' = start ∨ ∃ entry ∈ entries, from' = entry.pos.offset + 1)
    (more : ∃ entry ∈ entries, from' ≤ entry.pos.offset) :
    (treeNodes blocks vol).Open (fromOffset dirIno from') root.level root.ptr := by
  induction reads with
  | nil =>
    obtain ⟨entry, mem, _⟩ := more
    cases mem
  | @cons start last entry entries next low rest ih =>
    rcases begins with rfl | ⟨before, mem, rfl⟩
    · exact Nodes.open_iff.mpr ⟨entry, ((nextDirent_ok_iff directory).mp next).1⟩
    · obtain ⟨after, mem', later⟩ := more
      have behind : entry.pos.offset ≤ before.pos.offset := by
        rcases List.mem_cons.mp mem with rfl | mem
        · exact Nat.le_refl _
        · exact Nat.le_of_lt (reads_dirents directory rest before mem).2.1
      have later' : after ∈ entries := by
        rcases List.mem_cons.mp mem' with rfl | mem'
        · omega
        · exact mem'
      apply ih _ ⟨after, later', later⟩
      rcases List.mem_cons.mp mem with rfl | mem
      · exact Or.inl rfl
      · exact Or.inr ⟨before, mem, rfl⟩

theorem directory_dnode (mine : DirentOf blocks vol root dirIno entry) (dnodes : List Dnode) :
    ∃ dno, bcachefsDirentToDnode dnodes entry = .ok dno :=
  direntToDnode_ok dnodes (directory.dirent entry mine) (below_unpacked mine.1).value

end

/-- No search is cut short that has an entry to find, the entries have offsets of their own, and none
has the highest one. -/
structure Unbroken (blocks : Blocks) (vol : Volume) (root : BtreeRoot) (dirIno : Nat) : Prop where
  below : ∀ entry, DirentOf blocks vol root dirIno entry → entry.pos.offset ≠ maxOffset
  alone : ∀ entry entry', DirentOf blocks vol root dirIno entry →
    DirentOf blocks vol root dirIno entry' → entry.pos.offset = entry'.pos.offset → entry = entry'
  opened : ∀ start, (start = 0 ∨ ∃ entry, DirentOf blocks vol root dirIno entry ∧
      start = entry.pos.offset + 1) →
    (∃ entry, DirentOf blocks vol root dirIno entry ∧ start ≤ entry.pos.offset) →
    (treeNodes blocks vol).Open (fromOffset dirIno start) root.level root.ptr

section

variable (directory : Directory blocks vol root dirIno) (unbroken : Unbroken blocks vol root dirIno)

include directory unbroken

theorem nextDirent_exists
    (begins : start = 0 ∨ ∃ entry, DirentOf blocks vol root dirIno entry ∧
      start = entry.pos.offset + 1)
    (more : ∃ entry, DirentOf blocks vol root dirIno entry ∧ start ≤ entry.pos.offset) :
    ∃ entry, bcachefsNextDirent blocks vol dirIno start = .ok entry := by
  obtain ⟨entry, found⟩ := Nodes.open_iff.mp (unbroken.opened start begins more)
  obtain ⟨below, above, least⟩ := found.least directory.ordered
  refine ⟨entry, (nextDirent_ok_iff directory).mpr ⟨found, ?_⟩⟩
  -- The entry is not past the directory, as one of the directory's own is still to come.
  obtain ⟨entry', ⟨below', mine'⟩, later⟩ := more
  have order := least entry' below' ((fromOffset_le entry'.pos).mpr (Or.inr ⟨mine'.symm, later⟩))
  have notLess := not_lt.mpr order
  rw [Pos.lt_iff] at notLess
  have from' := (fromOffset_le entry.pos).mp above
  change ¬ (entry'.pos.inode < entry.pos.inode ∨ _) at notLess
  omega

/-- Reads from the start, or from behind an entry, come to all the later entries. -/
theorem reads_all (room : start ≤ 2 ^ 64)
    (begins : start = 0 ∨ ∃ entry, DirentOf blocks vol root dirIno entry ∧
      start = entry.pos.offset + 1) :
    ∃ entries last, Reads blocks vol dirIno start entries last ∧
      bcachefsNextDirent blocks vol dirIno last = fail .notFound ∧
      ∀ entry, DirentOf blocks vol root dirIno entry → start ≤ entry.pos.offset → entry ∈ entries := by
  generalize remaining : 2 ^ 64 - start = left
  induction left using Nat.strong_induction_on generalizing start with
  | _ left ih =>
    by_cases more : ∃ entry, DirentOf blocks vol root dirIno entry ∧ start ≤ entry.pos.offset
    · obtain ⟨entry, next⟩ := nextDirent_exists directory unbroken begins more
      obtain ⟨mine, later, least⟩ := nextDirent_least directory next
      have small := directory_offset mine
      obtain ⟨entries, last, reads, done, all⟩ :=
        ih (2 ^ 64 - (entry.pos.offset + 1)) (by omega) small (Or.inr ⟨entry, mine, rfl⟩) rfl
      refine ⟨entry :: entries, last, Reads.cons next (unbroken.below entry mine) reads, done, ?_⟩
      intro entry' mine' later'
      have order := least entry' mine' later'
      by_cases same : entry.pos.offset = entry'.pos.offset
      · rw [unbroken.alone entry entry' mine mine' same]
        exact List.mem_cons_self
      · exact List.mem_cons_of_mem _ (all entry' mine' (by omega))
    · refine ⟨[], start, Reads.nil, ?_, ?_⟩
      · apply nextDirent_notFound directory
        intro entry next
        obtain ⟨mine, later, _⟩ := nextDirent_least directory next
        exact more ⟨entry, mine, later⟩
      · intro entry mine later
        exact absurd ⟨entry, mine, later⟩ more

end

/-! ### The lookup of a name -/

/-- The comparison with an entry's name, when it has one. -/
def named (streq : List UInt8 → Bool) (entry : LookupResult) : Bool :=
  (direntName entry).toOption.any streq

theorem named_eq (streq : List UInt8 → Bool) {name : List UInt8}
    (isName : direntName entry = .ok name) : named streq entry = streq name := by
  rw [named, isName]
  rfl

/-- The lookup takes the first of the entries that the reads give. -/
theorem dirLookupLoop_eq (directory : Directory blocks vol root dirIno) (streq : List UInt8 → Bool)
    (reads : Reads blocks vol dirIno start entries last)
    (done : bcachefsNextDirent blocks vol dirIno last = fail .notFound) (low : start < 2 ^ 64)
    {fuel : Nat} (enough : 2 ^ 64 ≤ start + fuel) :
    dirLookupLoop blocks vol dnodes dirIno streq fuel start =
      match entries.find? (named streq) with
      | some entry => bcachefsDirentToDnode dnodes entry
      | none => fail .notFound := by
  induction reads generalizing fuel with
  | nil =>
    cases fuel with
    | zero => omega
    | succ fuel =>
      rw [dirLookupLoop, done]
      rfl
  | @cons start last entry entries next notTop rest ih =>
    cases fuel with
    | zero => omega
    | succ fuel =>
      obtain ⟨mine, later, _⟩ := nextDirent_least directory next
      have small := directory_offset mine
      have top : maxOffset = 2 ^ 64 - 1 := rfl
      obtain ⟨name, isName, _⟩ :=
        direntName_ok (directory.dirent entry mine) (below_unpacked mine.1).value
      have matches' : named streq entry = streq name := named_eq streq isName
      rw [dirLookupLoop, next, ok_bind, isName, ok_bind]
      cases hit : streq name with
      | true => rw [if_pos rfl, List.find?_cons_of_pos (matches'.trans hit)]
      | false =>
        rw [if_neg Bool.false_ne_true, if_neg notTop, List.find?_cons_of_neg (by simp [matches', hit])]
        exact ih done (by omega) (by omega)

/-! ### Both together -/

/-- What listing a directory is to give: reads from position 0 deliver each live entry once and then
report the end, and a lookup delivers the first of them that has the name. -/
structure Listing (blocks : Blocks) (vol : Volume) (root : BtreeRoot) (dirIno : Nat)
    (dnodes : List Dnode) (entries : List LookupResult) (dnos : List Dnode) : Prop where
  once : entries.Nodup
  all : ∀ entry, entry ∈ entries ↔ DirentOf blocks vol root dirIno entry
  read : Enumerates blocks vol dnodes dirIno 0 dnos
  delivered : List.Forall₂ (fun entry dno => bcachefsDirentToDnode dnodes entry = .ok dno) entries dnos
  lookup : ∀ streq dno, fswBcachefsDirLookup blocks vol dnodes dirIno streq = .ok dno ↔
    ∃ entry, entries.find? (named streq) = some entry ∧ bcachefsDirentToDnode dnodes entry = .ok dno

theorem listing_unbroken (directory : Directory blocks vol root dirIno) {dnos : List Dnode}
    (listing : Listing blocks vol root dirIno dnodes entries dnos) :
    Unbroken blocks vol root dirIno := by
  obtain ⟨once, all, read, delivered, _⟩ := listing
  obtain ⟨entries', last, reads, delivered'⟩ := enumerates_reads read
  have sorted := reads_sorted directory reads
  have dirents := reads_dirents directory reads
  have distinct : entries'.Nodup := by
    apply sorted.imp
    intro entry entry' before same
    rw [same] at before
    exact Nat.lt_irrefl _ before
  have within : entries' ⊆ entries := fun entry mem => (all entry).mpr (dirents entry mem).1
  have lengths : entries.length = entries'.length :=
    delivered.length_eq.trans delivered'.length_eq.symm
  have same := (List.Nodup.subperm distinct within).perm_of_length_le (Nat.le_of_eq lengths)
  have everyone : ∀ entry, DirentOf blocks vol root dirIno entry ↔ entry ∈ entries' := by
    intro entry
    rw [← all entry]
    exact same.mem_iff.symm
  constructor
  · intro entry mine
    exact (dirents entry ((everyone entry).mp mine)).2.2
  · intro entry entry' mine mine' equal
    have offsets : (entries'.map fun entry => entry.pos.offset).Nodup := by
      apply List.Pairwise.map _ _ sorted
      intro a b before same
      omega
    exact List.inj_on_of_nodup_map offsets ((everyone entry).mp mine) ((everyone entry').mp mine') equal
  · rintro start begins ⟨entry, mine, later⟩
    apply reads_open directory reads _ ⟨entry, (everyone entry).mp mine, later⟩
    rcases begins with rfl | ⟨before, mine', rfl⟩
    · exact Or.inl rfl
    · exact Or.inr ⟨before, (everyone before).mp mine', rfl⟩

theorem unbroken_listing (directory : Directory blocks vol root dirIno) (dnodes : List Dnode)
    (unbroken : Unbroken blocks vol root dirIno) :
    ∃ entries dnos, Listing blocks vol root dirIno dnodes entries dnos := by
  obtain ⟨entries, last, reads, done, all⟩ :=
    reads_all directory unbroken (Nat.zero_le _) (Or.inl rfl)
  have dirents := reads_dirents directory reads
  have made : ∃ dnos, List.Forall₂
      (fun entry dno => bcachefsDirentToDnode dnodes entry = .ok dno) entries dnos := by
    clear reads all done
    induction entries with
    | nil => exact ⟨[], List.Forall₂.nil⟩
    | cons entry entries ih =>
      obtain ⟨first, rest⟩ := List.forall_mem_cons.mp dirents
      obtain ⟨dno, made⟩ := directory_dnode directory first.1 dnodes
      obtain ⟨dnos, others⟩ := ih rest
      exact ⟨dno :: dnos, List.Forall₂.cons made others⟩
  obtain ⟨dnos, delivered⟩ := made
  refine ⟨entries, dnos, ?_, ?_, reads_enumerates reads done delivered, delivered, ?_⟩
  · apply (reads_sorted directory reads).imp
    intro entry entry' before same
    rw [same] at before
    exact Nat.lt_irrefl _ before
  · exact fun entry =>
      ⟨fun mem => (dirents entry mem).1, fun mine => all entry mine (Nat.zero_le _)⟩
  · intro streq dno
    rw [fswBcachefsDirLookup, dirLookupLoop_eq directory streq reads done (by decide) (by decide)]
    cases entries.find? (named streq) with
    | none =>
      constructor
      · intro impossible
        cases impossible
      · rintro ⟨entry, impossible, _⟩
        cases impossible
    | some entry =>
      constructor
      · intro made
        exact ⟨entry, rfl, made⟩
      · rintro ⟨entry', same, made⟩
        obtain rfl := Option.some.inj same
        exact made

theorem maskedVolume_directory : Directory maskedBlocks maskedVolume maskedRoot 1 where
  alive := rfl
  ordered := maskedVolume_ordered
  dirent := by
    rintro entry ⟨⟨entries, ⟨bsets, held, rfl⟩, newest, live⟩, _⟩
    have mem := newest.mem
    rw [nodeAt_unique held maskedVolume_node] at mem
    change entry ∈ [maskedDead, maskedLive] at mem
    rcases List.mem_cons.mp mem with rfl | mem
    · exact absurd rfl live
    · obtain rfl := List.mem_singleton.mp mem
      exact ⟨rfl, by decide, 97, by decide, by decide⟩

end Meridian.Bcachefs
