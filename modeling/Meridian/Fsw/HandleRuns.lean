import Meridian.Fsw.ShandleRead
import Meridian.Lib.Attempt

/-!
# Reading a handle again and again

The extents that a handle is left with have the bytes of the file, so that each call of `fsw_shandle_read` reads on
where the one before it stopped, also behind a call that failed.
-/

namespace Meridian.Fsw

open Lib.Attempt
open Lib.Word (sub64 sub64_of_le)

/-! ### Files whose reads are right -/

section
variable (env : ShandleEnv) (fails : FswStatus → Prop)

/-- The bytes of an extent without blocks are counted by 32 bits. -/
def FswExtent.Fits (e : FswExtent) : Prop := e.type ≠ .physblock → e.length env < 2 ^ 32

/-- A block that an extent has of the file is read, or it fails as it may. -/
def FswExtent.Delivers (e : FswExtent) : Prop :=
  e.type = .physblock → ∀ x < env.size, e.start env ≤ x → x < e.start env + e.length env →
    ∀ status, env.blockGet (physBno env e x) = .error status → fails status

/-- What is got for a block: an extent that can be read, also for a hole, or a status that may be. -/
def Tame : Option FswStatus × FswExtent → Prop
  | (none, e) => e.Fits env ∧ e.Delivers env fails
  | (some status, e) => if status = .ioError ∧ e.type = .invalid then e.Fits env else fails status

end

/-- A reported file, with the statuses that its reads may fail with. -/
structure TameFile extends ReportedFile where
  fails : FswStatus → Prop
  tame : ∀ logBno, logBno * env.logBlocksize.toNat < env.size → Tame env fails (env.getExtent logBno)

/-- An extent whose bytes can be read. -/
structure TameFile.Sound (file : TameFile) (e : FswExtent) : Prop where
  bears : BearsAll file.env file.content e
  fits : e.Fits file.env
  delivers : e.Delivers file.env file.fails

/-- What a handle keeps from one call to the next. -/
def TameFile.Kept (file : TameFile) (e : FswExtent) : Prop := e.type = .invalid ∨ file.Sound e

/-- A read fails with a status that may be. -/
def TameFile.MayFail (file : TameFile) : Fault → Prop
  | .status status => file.fails status
  | _ => False

variable {file : TameFile} {extent e : FswExtent} {pos buflen logBno : Nat}

theorem TameFile.Kept.held (kept : file.Kept extent) :
    extent.type = .invalid ∨ BearsAll file.env file.content extent := kept.imp_right (·.bears)

/-! ### One round -/

/-- The extent of a block can be read, or there is none. -/
theorem extentFor_tame (kept : file.Kept extent) (inside : logBno * file.env.logBlocksize.toNat < file.env.size) :
    Outcome file.fails (fun e => e.Has logBno ∧ file.Sound e) (extentFor file.env extent logBno) := by
  have reported := file.reports logBno inside
  have tame := file.tame logBno inside
  cases found : extentFor file.env extent logBno with
  | error status =>
    refine .error ?_
    rw [extentFor] at found
    split at found
    · rcases got : file.env.getExtent logBno with ⟨status' | status', e⟩
      · rw [got] at found
        cases found
      · rw [got] at found tame
        dsimp only at found
        split at found
        · cases found
        · rename_i not
          cases found
          rwa [Tame, if_neg not] at tame
    · cases found
  | ok e =>
    obtain ⟨has, bears⟩ := extentFor_ok reported kept.held found
    suffices rest : e.Fits file.env ∧ e.Delivers file.env file.fails from .ok ⟨has, bears, rest.1, rest.2⟩
    rw [extentFor] at found
    split at found
    · rcases got : file.env.getExtent logBno with ⟨status' | status', e'⟩
      · rw [got] at found tame
        obtain rfl := Except.ok.inj found
        exact tame
      · rw [got] at found tame
        dsimp only at found
        split at found
        · rename_i hole
          obtain rfl := Except.ok.inj found
          rw [Tame, if_pos hole] at tame
          exact ⟨tame, fun block => absurd (hole.2.symm.trans block) (by decide)⟩
        · cases found
    · rename_i cached
      obtain rfl := Except.ok.inj found
      rw [not_or] at cached
      have sound := kept.resolve_left cached.1
      exact ⟨sound.fits, sound.delivers⟩

/-- A round copies some bytes of the file, or a block is not read. -/
theorem copyRound_tame (sound : file.Sound e) (after : e.start file.env ≤ pos)
    (before : pos < e.start file.env + e.length file.env) (inside : pos + buflen ≤ file.env.size)
    (more : 0 < buflen) :
    Outcome file.MayFail (fun bytes => ∃ n, 0 < n ∧ n ≤ buflen ∧ bytes = part file.content pos n)
      (copyRound file.env e pos buflen) := by
  have small : pos < 2 ^ 64 := by
    have := file.size_lt
    omega
  by_cases type : e.type = .physblock
  · cases read : file.env.blockGet (physBno file.env e pos) with
    | error status =>
      rw [copyRound_block type file.physical after small, read]
      exact .error (sound.delivers type pos (by omega) after before status read)
    | ok block =>
      obtain ⟨some', copied⟩ :=
        copyRound_block_ok file.toReportedFile type after before inside more sound.bears read
      rw [copied]
      exact .ok ⟨_, some', Nat.min_le_right _ _, rfl⟩
  · have fits := sound.fits type
    have whole : e.length32 file.env = e.length file.env := Nat.mod_eq_of_lt fits
    have length : plainLength file.env e pos buflen =
        min (e.length file.env - (pos - e.start file.env)) buflen := by
      rw [plainLength, whole, sub64_of_le (by omega) (by omega)]
    have some' : 0 < plainLength file.env e pos buflen := by omega
    have copied : copyRound file.env e pos buflen =
        .ok (part file.content pos (plainLength file.env e pos buflen)) :=
      (copyRound_plain_iff file.content type after small some').mpr
        fun x _ _ => sound.bears x (by omega) (by omega) (by omega)
    rw [copied]
    exact .ok ⟨_, some', Nat.min_le_right _ _, rfl⟩

/-! ### The loop -/

/-- The loop reads the bytes of the file, and leaves an extent that can be kept. -/
theorem readLoop_tame {fuel : Nat} (kept : file.Kept extent) (inside : pos + buflen ≤ file.env.size)
    (enough : buflen < fuel) :
    file.Kept (readLoop file.env fuel extent pos buflen).2 ∧
      Outcome file.MayFail (· = part file.content pos buflen) (readLoop file.env fuel extent pos buflen).1 := by
  induction fuel generalizing extent pos buflen with
  | zero => exact absurd enough (Nat.not_lt_zero buflen)
  | succ fuel ih =>
    have sized := file.size_lt
    rw [readLoop]
    by_cases done : buflen = 0
    · subst done
      rw [if_pos rfl]
      exact ⟨kept, .ok rfl⟩
    rw [if_neg done]
    have more := Nat.pos_of_ne_zero done
    have inFile : pos / file.env.logBlocksize.toNat * file.env.logBlocksize.toNat < file.env.size :=
      Nat.lt_of_le_of_lt (Nat.div_mul_le_self _ _) (by omega)
    have outcome := extentFor_tame kept inFile
    dsimp only
    generalize extentFor file.env extent (pos / file.env.logBlocksize.toNat) = found at outcome
    cases outcome with
    | error may => exact ⟨.inl rfl, .error may⟩
    | @ok e right =>
      obtain ⟨has, sound⟩ := right
      obtain ⟨after, before⟩ := has.at_pos file.blocksize_pos
      have copied := copyRound_tame sound after before inside more
      dsimp only
      generalize copyRound file.env e pos buflen = round at copied
      cases copied with
      | error may => exact ⟨.inr sound, .error may⟩
      | ok same =>
        obtain ⟨n, some', le, rfl⟩ := same
        have word : u64 (pos + n) = pos + n := Nat.mod_eq_of_lt (by omega)
        have later := @ih e (pos + n) (buflen - n) (.inr sound) (by omega) (by omega)
        dsimp only
        rw [part_length, word]
        refine ⟨later.1, ?_⟩
        generalize (readLoop file.env fuel e (pos + n) (buflen - n)).1 = rest at later ⊢
        obtain ⟨_, rest⟩ := later
        cases rest with
        | error may => exact .error may
        | ok same =>
          subst same
          exact .ok (part_append file.content pos le)

/-! ### The handle -/

/-- A handle of the file at a position. -/
def TameFile.At (file : TameFile) (pos : Nat) (shand : FswShandle) : Prop :=
  shand.pos = pos ∧ file.Kept shand.extent

/-- `fsw_shandle_read` as a run over the handle. -/
def shandleRead (env : ShandleEnv) (fuel : Nat) (bufferSize : UInt32) :
    AttemptM FswShandle Fault (List UInt8 × Nat) := fun shand => fswShandleRead env fuel shand bufferSize

/-- The bytes of the file from a position on, so many as there are. -/
def TameFile.bytes (file : TameFile) (pos n : Nat) : List UInt8 :=
  part file.content pos (min n (file.env.size - pos))

theorem TameFile.length_bytes (file : TameFile) (pos n : Nat) :
    (file.bytes pos n).length = min n (file.env.size - pos) := part_length _ _ _

/-- A call reads the next bytes of the file and moves behind them, or it fails and stays. -/
theorem shandleRead_does (file : TameFile) {fuel : Nat} {bufferSize : UInt32} (enough : bufferSize.toNat < fuel)
    (pos : Nat) :
    Does (file.At pos) (shandleRead file.env fuel bufferSize)
      (fun read shand => read = (file.bytes pos bufferSize.toNat, (file.bytes pos bufferSize.toNat).length) ∧
        file.At (pos + (file.bytes pos bufferSize.toNat).length) shand)
      (fun fault shand => file.MayFail fault ∧ file.At pos shand) := by
  rintro shand ⟨rfl, kept⟩
  have sized := file.size_lt
  have few := bufferSize.toNat_lt
  rw [shandleRead, fswShandleRead, TameFile.length_bytes]
  by_cases behind : shand.pos ≥ file.env.size
  · rw [if_pos behind, TameFile.bytes, Nat.sub_eq_zero_of_le behind, Nat.min_zero]
    exact .ok ⟨rfl, rfl, kept⟩
  rw [if_neg behind]
  have buflen : (if bufferSize.toNat > file.env.size - shand.pos then file.env.size - shand.pos
      else bufferSize.toNat) = min bufferSize.toNat (file.env.size - shand.pos) := by
    split <;> omega
  dsimp only
  rw [buflen]
  obtain ⟨keeps, outcome⟩ := @readLoop_tame file shand.extent shand.pos
    (min bufferSize.toNat (file.env.size - shand.pos)) fuel kept (by omega) (by omega)
  generalize readLoop file.env fuel shand.extent shand.pos (min bufferSize.toNat (file.env.size - shand.pos)) =
    run at keeps outcome ⊢
  obtain ⟨out, left⟩ := run
  dsimp only at keeps outcome ⊢
  cases outcome with
  | error may => exact .error ⟨may, rfl, keeps⟩
  | ok same =>
    subst same
    have word : u64 (shand.pos + min bufferSize.toNat (file.env.size - shand.pos)) =
        shand.pos + min bufferSize.toNat (file.env.size - shand.pos) := Nat.mod_eq_of_lt (by omega)
    have count : u32 (min bufferSize.toNat (file.env.size - shand.pos)) =
        min bufferSize.toNat (file.env.size - shand.pos) := Nat.mod_eq_of_lt (by omega)
    dsimp only
    rw [part_length, word, sub64_of_le (Nat.le_add_right _ _) (by omega), Nat.add_sub_cancel_left, count]
    exact .ok ⟨rfl, rfl, keeps⟩

end Meridian.Fsw
