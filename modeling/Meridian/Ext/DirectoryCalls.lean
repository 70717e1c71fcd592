import Meridian.Ext.Directories

/-!
# The calls that read a directory

The model of `fsw_dnode_dir_read` of `filesystems/fsw_core.c` and of `fsw_efi_dir_read` and `fsw_efi_dir_setpos` of
`filesystems/fsw_efi.c`, for a directory of an ext volume. What `fsw_efi_dnode_fill_FileInfo` makes of an entry in a
buffer is a parameter. A call whose entry is not filled in, as when the buffer is too small, goes past the entry, so
that no later call gives it.
-/

namespace Meridian.Ext

open Lib.Attempt
open Meridian.Fsw
open Meridian.Fsw.FileProtocol (EfiStatus at_opened fswEfiMapStatus opened)

variable {ι : Type}

/-! ### The operations -/

inductive DirCall where
  | read (bufferSize : Nat) (lastIoStatus : EfiStatus)
  | setPosition (position : UInt64)

inductive DirReply (ι : Type) where
  | entry (info : ι)
  | noMore
  | failed (status : EfiStatus)
  | done

section
variable (env : ShandleEnv) (fuel more : Nat) (fill : Dentry → Nat → Except EfiStatus ι)

/-- `fsw_dnode_dir_read` of a directory. A call that fails does not move. -/
def fswDnodeDirRead : AttemptM FswShandle Fault Dentry := fun shand =>
  match dirRead env fuel more shand with
  | (.ok entry, left) => (.ok entry, left)
  | (.error fault, left) => (.error fault, { left with pos := shand.pos })

def fswEfiDirRead (bufferSize : Nat) (lastIoStatus : EfiStatus) : AttemptM FswShandle Fault (DirReply ι) :=
  fun shand =>
    match fswDnodeDirRead env fuel more shand with
    | (.ok entry, shand) =>
      match fill entry bufferSize with
      | .ok info => (.ok (.entry info), shand)
      | .error status => (.ok (.failed status), shand)
    | (.error (.status status), shand) =>
      match fswEfiMapStatus lastIoStatus status with
      | .notFound => (.ok .noMore, shand)
      -- the source goes on with a dnode that is not set
      | .success => (.error .outOfBounds, shand)
      | mapped => (.ok (.failed mapped), shand)
    | (.error fault, shand) => (.error fault, shand)

def fswEfiDirSetpos (position : UInt64) : AttemptM FswShandle Fault (DirReply ι) := fun shand =>
  if position = 0 then (.ok .done, { shand with pos := 0 }) else (.ok (.failed .unsupported), shand)

def dirCall : DirCall → AttemptM FswShandle Fault (DirReply ι)
  | .read bufferSize lastIoStatus => fswEfiDirRead env fuel more fill bufferSize lastIoStatus
  | .setPosition position => fswEfiDirSetpos position

def dirCalls (calls : List DirCall) : AttemptM FswShandle Fault (List (DirReply ι)) :=
  calls.mapM (dirCall env fuel more fill)

end

/-! ### A cursor over the entries -/

/-- What a call may be answered in front of some of all the entries, and the entries ahead then. -/
inductive DirAnswer (fails : FswStatus → Prop) (fill : Dentry → Nat → Except EfiStatus ι) (all : List Dentry) :
    List Dentry → DirCall → DirReply ι → List Dentry → Prop
  | entry {e : Dentry} {rest : List Dentry} {bufferSize : Nat} {lastIoStatus : EfiStatus} {info : ι}
      (filled : fill e bufferSize = .ok info) :
      DirAnswer fails fill all (e :: rest) (.read bufferSize lastIoStatus) (.entry info) rest
  | passed {e : Dentry} {rest : List Dentry} {bufferSize : Nat} {lastIoStatus status : EfiStatus}
      (notFilled : fill e bufferSize = .error status) :
      DirAnswer fails fill all (e :: rest) (.read bufferSize lastIoStatus) (.failed status) rest
  | noMore {bufferSize : Nat} {lastIoStatus : EfiStatus} :
      DirAnswer fails fill all [] (.read bufferSize lastIoStatus) .noMore []
  | failed {rest : List Dentry} {bufferSize : Nat} {lastIoStatus mapped : EfiStatus} {status : FswStatus}
      (may : fails status) (same : fswEfiMapStatus lastIoStatus status = mapped) :
      DirAnswer fails fill all rest (.read bufferSize lastIoStatus) (.failed mapped) rest
  | rewind {rest : List Dentry} : DirAnswer fails fill all rest (.setPosition 0) .done all
  | refused {rest : List Dentry} {position : UInt64} (inside : position ≠ 0) :
      DirAnswer fails fill all rest (.setPosition position) (.failed .unsupported) rest

inductive DirAnswers (fails : FswStatus → Prop) (fill : Dentry → Nat → Except EfiStatus ι) (all : List Dentry) :
    List Dentry → List DirCall → List (DirReply ι) → List Dentry → Prop
  | nil {rest : List Dentry} : DirAnswers fails fill all rest [] [] rest
  | cons {rest rest' rest'' : List Dentry} {call : DirCall} {calls : List DirCall} {reply : DirReply ι}
      {replies : List (DirReply ι)} (first : DirAnswer fails fill all rest call reply rest')
      (later : DirAnswers fails fill all rest' calls replies rest'') :
      DirAnswers fails fill all rest (call :: calls) (reply :: replies) rest''

def DirReply.info : DirReply ι → Option ι
  | .entry info => some info
  | _ => none

def DirCall.Reads : DirCall → Prop
  | .read _ _ => True
  | .setPosition _ => False

/-- Calls that only read give each entry once at most, and the entries in order. -/
theorem DirAnswers.given {fails : FswStatus → Prop} {fill : Dentry → Nat → Except EfiStatus ι}
    {all l rest : List Dentry} {calls : List DirCall} {replies : List (DirReply ι)}
    (answers : DirAnswers fails fill all l calls replies rest) (reads : ∀ call ∈ calls, call.Reads) :
    ∃ given, given.Sublist l ∧
      List.Forall₂ (fun e info => ∃ bufferSize, fill e bufferSize = .ok info) given
        (replies.filterMap DirReply.info) := by
  induction answers with
  | nil => exact ⟨[], List.nil_sublist _, .nil⟩
  | cons first _ ih =>
    obtain ⟨given, sublist, each⟩ := ih fun call mem => reads call (List.mem_cons_of_mem _ mem)
    have here := reads _ List.mem_cons_self
    cases first with
    | @entry e _ bufferSize _ _ filled => exact ⟨e :: given, sublist.cons_cons e, .cons ⟨bufferSize, filled⟩ each⟩
    | @passed e => exact ⟨given, sublist.cons e, each⟩
    | noMore => exact ⟨given, sublist, each⟩
    | failed => exact ⟨given, sublist, each⟩
    | rewind => exact absurd here id
    | refused => exact absurd here id

/-- `LastIOStatus` of a call is the error of a device. -/
def DirCall.Honest : DirCall → Prop
  | .read _ lastIoStatus => lastIoStatus ≠ .success ∧ lastIoStatus ≠ .notFound
  | .setPosition _ => True

/-! ### Runs of calls -/

section
variable {file : TameFile} {fuel more : Nat} {records : List Record}

/-- A call that fails stays in front of its records. -/
theorem fswDnodeDirRead_does (enough : 2 ^ 32 ≤ fuel) (records : List Record) (few : records.length < more) :
    Does (Ahead file (records.flatMap Record.bytes)) (fswDnodeDirRead file.env fuel more)
      (fun entry shand => ∃ rest, visible records = entry :: visible rest ∧ rest.length < records.length ∧
        Ahead file (rest.flatMap Record.bytes) shand)
      (fun fault shand => Missing file (visible records = []) fault ∧
        Ahead file (records.flatMap Record.bytes) shand) := by
  rintro shand ahead
  have outcome := dirRead_does enough records few shand ahead
  obtain ⟨before, whole, pos, -⟩ := ahead
  rw [fswDnodeDirRead]
  generalize dirRead file.env fuel more shand = run at outcome ⊢
  obtain ⟨out, left⟩ := run
  dsimp only at outcome ⊢
  cases outcome with
  | ok right => exact .ok right
  | error lacks => exact .error ⟨lacks.1, before, whole, pos, lacks.2⟩

/-- The handle is in front of these entries of the directory. -/
def Left (file : TameFile) (records : List Record) (rest : List Dentry) (shand : FswShandle) : Prop :=
  ∃ records', visible records' = rest ∧ records'.length ≤ records.length ∧
    Ahead file (records'.flatMap Record.bytes) shand

theorem mapStatus_error {lastIoStatus : EfiStatus} {status : FswStatus} (found : status ≠ .notFound)
    (honest : lastIoStatus ≠ .success ∧ lastIoStatus ≠ .notFound) :
    fswEfiMapStatus lastIoStatus status ≠ .success ∧ fswEfiMapStatus lastIoStatus status ≠ .notFound := by
  cases status with
  | ioError => exact honest
  | notFound => exact absurd rfl found
  | _ => simp [fswEfiMapStatus]

variable {fill : Dentry → Nat → Except EfiStatus ι}

theorem dirCall_does (enough : 2 ^ 32 ≤ fuel) (few : records.length < more)
    (whole : part file.content 0 file.env.size = records.flatMap Record.bytes) (present : ¬ file.fails .notFound)
    {call : DirCall} (honest : call.Honest) (rest : List Dentry) :
    Does (Left file records rest) (dirCall file.env fuel more fill call)
      (fun reply shand => ∃ rest', DirAnswer file.fails fill (visible records) rest call reply rest' ∧
        Left file records rest' shand)
      fun _ _ => False := by
  rintro shand ⟨records', rfl, short, ahead⟩
  cases call with
  | read bufferSize lastIoStatus =>
    have outcome := fswDnodeDirRead_does enough records' (Nat.lt_of_le_of_lt short few) shand ahead
    rw [dirCall, fswEfiDirRead]
    generalize fswDnodeDirRead file.env fuel more shand = run at outcome ⊢
    obtain ⟨out, left⟩ := run
    dsimp only at outcome ⊢
    cases outcome with
    | @ok entry right =>
      obtain ⟨rest, seen, shorter, ahead⟩ := right
      have behind : Left file records (visible rest) left := ⟨rest, rfl, shorter.le.trans short, ahead⟩
      rw [seen]
      dsimp only
      cases filled : fill entry bufferSize with
      | ok info => exact .ok ⟨_, .entry filled, behind⟩
      | error status => exact .ok ⟨_, .passed filled, behind⟩
    | @error fault lacks =>
      obtain ⟨missing, ahead⟩ := lacks
      have still : Left file records (visible records') left := ⟨records', rfl, short, ahead⟩
      rcases missing with ⟨rfl, absent⟩ | may
      · rw [absent] at still ⊢
        exact .ok ⟨[], .noMore, still⟩
      · cases fault with
        | status status =>
          have found : status ≠ .notFound := by
            rintro rfl
            exact present may
          have mapped := mapStatus_error found honest
          dsimp only
          cases same : fswEfiMapStatus lastIoStatus status with
          | success => exact absurd same mapped.1
          | notFound => exact absurd same mapped.2
          | _ => exact .ok ⟨_, .failed may same, still⟩
        | outOfBounds => exact absurd may id
        | outOfFuel => exact absurd may id
  | setPosition position =>
    rw [dirCall, fswEfiDirSetpos]
    split
    · rename_i zero
      subst zero
      exact .ok ⟨_, .rewind, records, rfl, Nat.le_refl _, [], whole, rfl, ahead.kept⟩
    · rename_i inside
      exact .ok ⟨_, .refused inside, records', rfl, short, ahead⟩

theorem dirCalls_does (enough : 2 ^ 32 ≤ fuel) (few : records.length < more)
    (whole : part file.content 0 file.env.size = records.flatMap Record.bytes) (present : ¬ file.fails .notFound)
    (calls : List DirCall) (honest : ∀ call ∈ calls, call.Honest) (rest : List Dentry) :
    Does (Left file records rest) (dirCalls file.env fuel more fill calls)
      (fun replies _ => ∃ rest', DirAnswers file.fails fill (visible records) rest calls replies rest')
      fun _ _ => False := by
  induction calls generalizing rest with
  | nil =>
    rw [dirCalls, List.mapM_nil]
    exact does_pure fun _ _ => ⟨rest, .nil⟩
  | cons call calls ih =>
    rw [dirCalls, List.mapM_cons]
    refine (dirCall_does enough few whole present (honest call List.mem_cons_self) rest).bind fun reply => ?_
    rintro shand ⟨rest', first, left⟩
    have later : Does (Left file records rest')
        (calls.mapM (dirCall file.env fuel more fill) >>= fun replies => pure (reply :: replies))
        (fun replies _ => ∃ rest'', DirAnswers file.fails fill (visible records) rest (call :: calls) replies rest'')
        fun _ _ => False := by
      refine (ih (fun call mem => honest call (List.mem_cons_of_mem _ mem)) rest').bind
        fun replies => does_pure fun _ right => ?_
      obtain ⟨rest'', answers⟩ := right
      exact ⟨rest'', .cons first answers⟩
    exact later shand left

end

/-- The size of the name has room in the buffer. -/
def sampleFill (entry : Dentry) (bufferSize : Nat) : Except EfiStatus Nat :=
  if bufferSize < entry.name.length then .error .bufferTooSmall else .ok entry.inode

end Meridian.Ext
