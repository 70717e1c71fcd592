import Meridian.Fsw.HandleRuns

/-!
# Files in blocks of a disk

The blocks of a file are blocks of the disk or holes. Where a file system locates them, with extents that agree with
that, the reads of a handle are those of a tame file.
-/

namespace Meridian.Fsw

/-- The number of a file's blocks. -/
def blockCount (size blocksize : Nat) : Nat := (size + blocksize - 1) / blocksize

theorem lt_blockCount {size blocksize : Nat} (sized : 0 < blocksize) (k : Nat) :
    k < blockCount size blocksize ↔ k * blocksize < size := by
  rw [blockCount, Nat.lt_div_iff_mul_lt sized]
  omega

/-- The block of the file at an offset is one of its blocks. -/
theorem div_lt_blockCount {size blocksize x : Nat} (sized : 0 < blocksize) (below : x < size) :
    x / blocksize < blockCount size blocksize :=
  (lt_blockCount sized _).mpr (Nat.lt_of_le_of_lt (Nat.div_mul_le_self x blocksize) below)

/-- What is got for a block agrees with where the first blocks of the file are, or fails as it may. -/
def Located (blocksize : Nat) (fails : FswStatus → Prop) (blocks : Nat → Option Nat) (count logBno : Nat) :
    Option FswStatus × FswExtent → Prop
  | (none, e) => e.type = .physblock ∧ e.Has logBno ∧
      ∀ k < count, e.Has k → blocks k = some (e.physStart + (k - e.logStart))
  | (some status, e) =>
    if status = .ioError ∧ e.type = .invalid then
      e.Has logBno ∧ e.logCount.toNat * blocksize < 2 ^ 32 ∧ ∀ k < count, e.Has k → blocks k = none
    else fails status

/-- A file whose blocks are blocks of the disk or holes, as the file system locates them. -/
structure BlockFile where
  blocksize : UInt32
  power : ∃ k, blocksize.toNat = 2 ^ k
  size : Nat
  size_lt : size < 2 ^ 64
  disk : Nat → List UInt8
  whole : ∀ bno, (disk bno).length = blocksize.toNat
  blocks : Nat → Option Nat
  small : ∀ k bno, blocks k = some bno → bno < 2 ^ 64
  fails : FswStatus → Prop
  blockGet : Nat → Except FswStatus (List UInt8)
  reads : ∀ k < blockCount size blocksize.toNat, ∀ bno, blocks k = some bno →
    blockGet bno = .ok (disk bno) ∨ ∃ status, fails status ∧ blockGet bno = .error status
  getExtent : Nat → Option FswStatus × FswExtent
  located : ∀ logBno < blockCount size blocksize.toNat,
    Located blocksize.toNat fails blocks (blockCount size blocksize.toNat) logBno (getExtent logBno)

namespace BlockFile

variable (file : BlockFile)

/-- The byte of a file at an offset. -/
def content (x : Nat) : UInt8 :=
  match file.blocks (x / file.blocksize.toNat) with
  | some bno => (file.disk bno).getD (x % file.blocksize.toNat) 0
  | none => 0

def env : ShandleEnv where
  logBlocksize := file.blocksize
  physBlocksize := file.blocksize
  size := file.size
  blockGet := file.blockGet
  getExtent := file.getExtent

theorem sized : 0 < file.blocksize.toNat := by
  obtain ⟨k, size⟩ := file.power
  rw [size]
  exact Nat.two_pow_pos k

variable {file} {e : FswExtent} {x logBno : Nat} {status : FswStatus}

theorem has_iff : e.Has (x / file.blocksize.toNat) ↔
    e.start file.env ≤ x ∧ x < e.start file.env + e.length file.env := by
  rw [FswExtent.Has, FswExtent.start, FswExtent.length, Nat.le_div_iff_mul_le file.sized,
    Nat.div_lt_iff_lt_mul file.sized, ← Nat.add_mul]
  rfl

/-- The block of an extent that an offset is in. -/
theorem physBno_eq (bno : file.blocks (x / file.blocksize.toNat) =
      some (e.physStart + (x / file.blocksize.toNat - e.logStart))) (after : e.start file.env ≤ x) :
    physBno file.env e x = e.physStart + (x / file.blocksize.toNat - e.logStart) ∧
      (x - e.start file.env) % file.blocksize.toNat = x % file.blocksize.toNat := by
  have start : e.start file.env = e.logStart * file.blocksize.toNat := rfl
  rw [start] at after
  obtain ⟨rest, rfl⟩ := Nat.exists_eq_add_of_le' after
  rw [start, physBno, start, Nat.add_sub_cancel]
  rw [Nat.add_mul_div_right _ _ file.sized] at bno ⊢
  rw [Nat.add_sub_cancel] at bno ⊢
  have fits : u64 (e.physStart + rest / file.blocksize.toNat) = e.physStart + rest / file.blocksize.toNat :=
    Nat.mod_eq_of_lt (file.small _ _ bno)
  rw [Nat.add_mul_mod_self_right, ← fits, Nat.add_comm e.physStart]
  exact ⟨rfl, rfl⟩

/-- What is located bears the bytes of the file. -/
theorem bears_block (type : e.type = .physblock)
    (same : ∀ k < blockCount file.size file.blocksize.toNat, e.Has k →
      file.blocks k = some (e.physStart + (k - e.logStart))) : BearsAll file.env file.content e := by
  intro x below after before
  have bno := same _ (div_lt_blockCount file.sized below) (has_iff.mpr ⟨after, before⟩)
  obtain ⟨here, rest⟩ := physBno_eq bno after
  rw [Bears, type]
  intro block read
  change file.blockGet (physBno file.env e x) = .ok block at read
  rw [here] at read
  change block[(x - e.start file.env) % file.blocksize.toNat]? = some (file.content x)
  rw [rest, content, bno]
  dsimp only
  rcases file.reads _ (div_lt_blockCount file.sized below) _ bno with got | ⟨status, _, failed⟩
  · obtain rfl := Except.ok.inj (got.symm.trans read)
    have inside : x % file.blocksize.toNat <
        (file.disk (e.physStart + (x / file.blocksize.toNat - e.logStart))).length := by
      rw [file.whole]
      exact Nat.mod_lt _ file.sized
    rw [List.getD_eq_getElem?_getD, List.getElem?_eq_getElem inside]
    rfl
  · cases failed.symm.trans read

theorem bears_hole (type : e.type = .invalid)
    (same : ∀ k < blockCount file.size file.blocksize.toNat, e.Has k → file.blocks k = none) :
    BearsAll file.env file.content e := by
  intro x below after before
  have hole := same _ (div_lt_blockCount file.sized below) (has_iff.mpr ⟨after, before⟩)
  rw [Bears, type, content, hole]

theorem delivers_block (same : ∀ k < blockCount file.size file.blocksize.toNat, e.Has k →
      file.blocks k = some (e.physStart + (k - e.logStart))) : e.Delivers file.env file.fails := by
  intro _ x below after before status failed
  have bno := same _ (div_lt_blockCount file.sized below) (has_iff.mpr ⟨after, before⟩)
  rw [(physBno_eq bno after).1] at failed
  rcases file.reads _ (div_lt_blockCount file.sized below) _ bno with got | ⟨status', may, failed'⟩
  · cases got.symm.trans failed
  · obtain rfl := Except.error.inj (failed'.symm.trans failed)
    exact may

theorem located_reported (located : Located file.blocksize.toNat file.fails file.blocks
      (blockCount file.size file.blocksize.toNat) logBno (file.getExtent logBno)) :
    Reported file.env file.content logBno (file.env.getExtent logBno) ∧
      Tame file.env file.fails (file.env.getExtent logBno) := by
  change Reported file.env file.content logBno (file.getExtent logBno) ∧
    Tame file.env file.fails (file.getExtent logBno)
  generalize file.getExtent logBno = answer at located ⊢
  rcases answer with ⟨status | status, e⟩
  · obtain ⟨type, has, same⟩ := located
    have other : e.type ≠ .invalid := by
      rw [type]
      decide
    exact ⟨⟨other, has, bears_block type same⟩, fun not => absurd type not, delivers_block same⟩
  · rw [Located] at located
    rw [Tame]
    split at located
    · rename_i hole
      obtain ⟨has, short, none⟩ := located
      rw [if_pos hole]
      exact ⟨fun _ _ => ⟨has, bears_hole hole.2 none⟩, fun _ => short⟩
    · rename_i not
      rw [if_neg not]
      exact ⟨fun error type => absurd ⟨error, type⟩ not, located⟩

/-- The reads of the file are tame. -/
def tame (file : BlockFile) : TameFile where
  env := file.env
  content := file.content
  size_lt := file.size_lt
  blocksize_pos := file.sized
  physical := file.power
  divides := Nat.dvd_refl _
  reports logBno below :=
    (located_reported (file.located logBno ((lt_blockCount file.sized logBno).mpr below))).1
  fails := file.fails
  tame logBno below :=
    (located_reported (file.located logBno ((lt_blockCount file.sized logBno).mpr below))).2

end BlockFile

end Meridian.Fsw
