import Meridian.Fsw.Shandle
import Mathlib.Logic.Relation
import Mathlib.Data.List.Basic
import Mathlib.Order.Nat

/-!
# What a handle reads

When `fsw_shandle_read` delivers the bytes of a file, for every file whose extents are as the file system
reports them, every position and every length.
-/

namespace Meridian.Fsw

open Lib.Word (sub64 sub64_of_le)
open Relation

/-! ### Files and their extents -/

section
variable (env : ShandleEnv)

/-- The offset of an extent's first byte. -/
def FswExtent.start (e : FswExtent) : Nat := e.logStart * env.logBlocksize.toNat

/-- The number of an extent's bytes. -/
def FswExtent.length (e : FswExtent) : Nat := e.logCount.toNat * env.logBlocksize.toNat

/-- The number of an extent's bytes, as far as 32 bits hold it. -/
def FswExtent.length32 (e : FswExtent) : Nat := u32 (e.length env)

/-- The extent has this byte at the offset; a block that is not read has any. -/
def Bears (e : FswExtent) (x : Nat) (byte : UInt8) : Prop :=
  match e.type with
  | .invalid => byte = 0
  | .sparse => byte = 0
  | .buffer => e.buffer[x - e.start env]? = some byte
  | .physblock => ∀ block,
      env.blockGet (u64 ((x - e.start env) / env.physBlocksize.toNat + e.physStart)) = .ok block →
        block[(x - e.start env) % env.physBlocksize.toNat]? = some byte

/-- The extent has the bytes of the file that are in it. -/
def BearsAll (content : Nat → UInt8) (e : FswExtent) : Prop :=
  ∀ x < env.size, e.start env ≤ x → x < e.start env + e.length env → Bears env e x (content x)

/-- The block is in the extent. -/
def FswExtent.Has (e : FswExtent) (logBno : Nat) : Prop :=
  e.logStart ≤ logBno ∧ logBno < e.logStart + e.logCount.toNat

/-- The extent for a block is reported as it is, or an error is, which for a hole is `FSW_IO_ERROR`. -/
def Reported (content : Nat → UInt8) (logBno : Nat) : Option FswStatus × FswExtent → Prop
  | (none, e) => e.type ≠ .invalid ∧ e.Has logBno ∧ BearsAll env content e
  | (some status, e) => status = .ioError → e.type = .invalid → e.Has logBno ∧ BearsAll env content e

end

/-- A file, with its bytes and with extents as the file system reports them. -/
structure ReportedFile where
  env : ShandleEnv
  content : Nat → UInt8
  size_lt : env.size < 2 ^ 64
  blocksize_pos : 0 < env.logBlocksize.toNat
  physical : ∃ k, env.physBlocksize.toNat = 2 ^ k
  divides : env.physBlocksize.toNat ∣ env.logBlocksize.toNat
  reports : ∀ logBno, logBno * env.logBlocksize.toNat < env.size →
    Reported env content logBno (env.getExtent logBno)

/-- A handle of the file: it has no extent, or one with the bytes of the file. -/
structure FileHandle (file : ReportedFile) extends FswShandle where
  held : extent.type = .invalid ∨ BearsAll file.env file.content extent

def part (content : Nat → UInt8) (pos n : Nat) : List UInt8 := (List.range' pos n).map content

variable {env : ShandleEnv} {content : Nat → UInt8} {file : ReportedFile} {e extent : FswExtent}
  {pos buflen logBno : Nat}

theorem part_length (content : Nat → UInt8) (pos n : Nat) : (part content pos n).length = n := by
  rw [part, List.length_map, List.length_range']

theorem part_append (content : Nat → UInt8) (pos : Nat) {n buflen : Nat} (le : n ≤ buflen) :
    part content pos n ++ part content (pos + n) (buflen - n) = part content pos buflen := by
  have split : List.range' pos n ++ List.range' (pos + n) (buflen - n) = List.range' pos buflen := by
    rw [List.range'_append_1, Nat.add_sub_cancel' le]
  rw [part, part, part, ← List.map_append, split]

/-- A buffer that is read gives the bytes of the file exactly where it holds each of them. -/
theorem bytesAt_eq_part (buf : List UInt8) (i pos : Nat) {n : Nat} (some' : 0 < n) :
    bytesAt buf i n = .ok (part content pos n) ↔ ∀ k < n, buf[i + k]? = some (content (pos + k)) := by
  have bytes (inside : i + n ≤ buf.length) :
      bytesAt buf i n = .ok (part content pos n) ↔ ∀ k < n, buf[i + k]? = some (content (pos + k)) := by
    rw [bytesAt_ok inside, Except.ok.injEq]
    have whole : ((buf.drop i).take n).length = n := by
      rw [List.length_take, List.length_drop]
      omega
    constructor
    · intro same k below
      have here : ((buf.drop i).take n)[k]? = (part content pos n)[k]? := by rw [same]
      rw [List.getElem?_take_of_lt below, List.getElem?_drop] at here
      rw [here, part, List.getElem?_map, List.getElem?_range' below, Nat.one_mul]
      rfl
    · intro each
      apply List.ext_getElem?
      intro k
      by_cases below : k < n
      · rw [List.getElem?_take_of_lt below, List.getElem?_drop, each k below, part, List.getElem?_map,
          List.getElem?_range' below, Nat.one_mul]
        rfl
      · rw [List.getElem?_eq_none (by omega), List.getElem?_eq_none (by rw [part_length]; omega)]
  by_cases inside : i + n ≤ buf.length
  · exact bytes inside
  · rw [bytesAt, if_neg inside]
    constructor
    · intro impossible
      cases impossible
    · intro each
      have last := (List.getElem?_eq_some_iff.mp (each (n - 1) (by omega))).1
      omega

/-! ### The extent for a block -/

theorem FswExtent.Has.at_pos (has : e.Has (pos / env.logBlocksize.toNat)) (sized : 0 < env.logBlocksize.toNat) :
    e.start env ≤ pos ∧ pos < e.start env + e.length env := by
  obtain ⟨first, last⟩ := has
  constructor
  · exact (Nat.le_div_iff_mul_le sized).mp first
  · rw [FswExtent.start, FswExtent.length, ← Nat.add_mul]
    exact (Nat.div_lt_iff_lt_mul sized).mp last

theorem extentFor_ok (reported : Reported env content logBno (env.getExtent logBno))
    (held : extent.type = .invalid ∨ BearsAll env content extent) (found : extentFor env extent logBno = .ok e) :
    e.Has logBno ∧ BearsAll env content e := by
  rw [extentFor] at found
  split at found
  case isTrue =>
    rcases got : env.getExtent logBno with ⟨status | status, extent'⟩
    · rw [got] at found reported
      obtain rfl := Except.ok.inj found
      exact reported.2
    · rw [got] at found reported
      dsimp only at found
      split at found
      case isTrue hole =>
        obtain rfl := Except.ok.inj found
        exact reported hole.1 hole.2
      case isFalse => cases found
  case isFalse cached =>
    obtain rfl := Except.ok.inj found
    rw [not_or, not_or, not_lt, ge_iff_le, not_le] at cached
    exact ⟨cached.2, held.resolve_left cached.1⟩

/-- The extent that was found is found again. -/
theorem extentFor_again (found : extentFor env extent logBno = .ok e) (has : e.Has logBno) :
    extentFor env e logBno = .ok e := by
  by_cases typed : e.type = .invalid
  · rw [extentFor] at found ⊢
    rw [if_pos (Or.inl typed)]
    split at found
    case isTrue => exact found
    case isFalse cached =>
      obtain rfl := Except.ok.inj found
      exact absurd (Or.inl typed) cached
  · have cached : ¬ (e.type = .invalid ∨ logBno < e.logStart ∨ logBno ≥ e.logStart + e.logCount.toNat) := by
      obtain ⟨first, last⟩ := has
      rw [not_or]
      exact ⟨typed, by omega⟩
    rw [extentFor, if_neg cached]

/-! ### One round -/

theorem posInExtent_eq (after : e.start env ≤ pos) (small : pos < 2 ^ 64) :
    sub64 pos (u64 (e.logStart * env.logBlocksize.toNat)) = pos - e.start env := by
  have fits : u64 (e.logStart * env.logBlocksize.toNat) = e.start env :=
    Nat.mod_eq_of_lt (Nat.lt_of_le_of_lt after small)
  rw [fits, sub64_of_le after small]

theorem copylen_eq (copylen buflen : Nat) :
    (if copylen > buflen then buflen else copylen) = min copylen buflen := by
  split <;> omega

/-- The bytes from an offset to the end of its block. -/
theorem same_block {p a k : Nat} (inside : k < p - a % p) : (a + k) / p = a / p ∧ (a + k) % p = a % p + k := by
  have split : a + k = a % p + k + p * (a / p) := by
    have parts := Nat.mod_add_div a p
    omega
  have below : a % p + k < p := by omega
  constructor
  · rw [split, Nat.add_mul_div_left _ _ (by omega), Nat.div_eq_of_lt below, Nat.zero_add]
  · rw [split, Nat.add_mul_mod_self_left, Nat.mod_eq_of_lt below]

/-- Whole blocks end with the extent. -/
theorem block_inside {p a l : Nat} (sized : 0 < p) (divides : p ∣ l) (inside : a < l) : a + (p - a % p) ≤ l := by
  obtain ⟨m, rfl⟩ := divides
  have block : a / p < m := (Nat.div_lt_iff_lt_mul sized).mpr (by rwa [Nat.mul_comm])
  have upTo : p * (a / p + 1) ≤ p * m := Nat.mul_le_mul_left p block
  have parts := Nat.mod_add_div a p
  have rest := Nat.mod_lt a sized
  rw [Nat.mul_succ] at upTo
  omega

/-- The bytes that a round is to copy from a block. -/
def blockLength (env : ShandleEnv) (e : FswExtent) (pos buflen : Nat) : Nat :=
  min (env.physBlocksize.toNat - (pos - e.start env) % env.physBlocksize.toNat) buflen

def physBno (env : ShandleEnv) (e : FswExtent) (pos : Nat) : Nat :=
  u64 ((pos - e.start env) / env.physBlocksize.toNat + e.physStart)

/-- The bytes that a round is to copy from another extent, as far as 32 bits hold its length. -/
def plainLength (env : ShandleEnv) (e : FswExtent) (pos buflen : Nat) : Nat :=
  min (sub64 (e.length32 env) (pos - e.start env)) buflen

theorem copyRound_block (type : e.type = .physblock) (physical : ∃ k, env.physBlocksize.toNat = 2 ^ k)
    (after : e.start env ≤ pos) (small : pos < 2 ^ 64) :
    copyRound env e pos buflen =
      match env.blockGet (physBno env e pos) with
      | .error status => fail status
      | .ok block =>
        bytesAt block ((pos - e.start env) % env.physBlocksize.toNat) (blockLength env e pos buflen) := by
  obtain ⟨k, size⟩ := physical
  have rest : (pos - e.start env) % env.physBlocksize.toNat < env.physBlocksize.toNat :=
    Nat.mod_lt _ (by rw [size]; exact Nat.two_pow_pos k)
  have low : (pos - e.start env) &&& (env.physBlocksize.toNat - 1) =
      (pos - e.start env) % env.physBlocksize.toNat := by
    rw [size]
    exact Nat.and_two_pow_sub_one_eq_mod _ k
  unfold copyRound
  dsimp only
  rw [if_pos type, posInExtent_eq after small, low, copylen_eq,
    sub64_of_le rest.le (Nat.lt_trans (UInt32.toNat_lt _) (by decide)), ← blockLength, ← physBno] <;> rfl

theorem copyRound_plain (type : e.type ≠ .physblock) (after : e.start env ≤ pos) (small : pos < 2 ^ 64) :
    copyRound env e pos buflen =
      if e.type = .buffer then bytesAt e.buffer (pos - e.start env) (plainLength env e pos buflen)
      else .ok (List.replicate (plainLength env e pos buflen) 0) := by
  unfold copyRound
  dsimp only
  rw [if_neg type, posInExtent_eq after small, copylen_eq]
  rfl

/-- A block that is read gives the bytes of the file. -/
theorem copyRound_block_ok (file : ReportedFile) (type : e.type = .physblock) (after : e.start file.env ≤ pos)
    (before : pos < e.start file.env + e.length file.env) (inside : pos + buflen ≤ file.env.size)
    (more : 0 < buflen) (bears : BearsAll file.env file.content e) {block : List UInt8}
    (read : file.env.blockGet (physBno file.env e pos) = .ok block) :
    0 < blockLength file.env e pos buflen ∧
      copyRound file.env e pos buflen = .ok (part file.content pos (blockLength file.env e pos buflen)) := by
  have sized : 0 < file.env.physBlocksize.toNat := by
    obtain ⟨k, size⟩ := file.physical
    rw [size]
    exact Nat.two_pow_pos k
  have rest := Nat.mod_lt (pos - e.start file.env) sized
  have some' : 0 < blockLength file.env e pos buflen := by
    rw [blockLength]
    omega
  have fits := block_inside sized (file.divides.mul_left e.logCount.toNat)
    (show pos - e.start file.env < e.logCount.toNat * file.env.logBlocksize.toNat by
      rw [FswExtent.length] at before
      omega)
  refine ⟨some', ?_⟩
  rw [copyRound_block type file.physical after (by have := file.size_lt; omega), read]
  refine (bytesAt_eq_part _ _ _ some').mpr fun k below => ?_
  rw [blockLength] at below
  obtain ⟨sameBlock, here⟩ := @same_block file.env.physBlocksize.toNat (pos - e.start file.env) k (by omega)
  have byte := bears (pos + k) (by omega) (by omega) (by rw [FswExtent.length]; omega)
  rw [Bears, type] at byte
  have held := byte block (by rwa [Nat.sub_add_comm after, sameBlock])
  rwa [Nat.sub_add_comm after, here] at held

/-- Another extent gives the bytes of the file exactly where it has them. -/
theorem copyRound_plain_iff (content : Nat → UInt8) (type : e.type ≠ .physblock) (after : e.start env ≤ pos)
    (small : pos < 2 ^ 64) (some' : 0 < plainLength env e pos buflen) :
    copyRound env e pos buflen = .ok (part content pos (plainLength env e pos buflen)) ↔
      ∀ x, pos ≤ x → x < pos + plainLength env e pos buflen → Bears env e x (content x) := by
  have shift (P : Nat → Prop) {n : Nat} : (∀ x, pos ≤ x → x < pos + n → P x) ↔ ∀ k < n, P (pos + k) := by
    constructor
    · intro each k below
      exact each (pos + k) (Nat.le_add_right _ _) (Nat.add_lt_add_left below pos)
    · intro each x from' upTo
      have here := each (x - pos) (by omega)
      rwa [Nat.add_sub_cancel' from'] at here
  have zeros {n : Nat} : (Except.ok (List.replicate n 0) : FswM (List UInt8)) = .ok (part content pos n) ↔
      ∀ k < n, content (pos + k) = 0 := by
    rw [Except.ok.injEq, eq_comm, List.eq_replicate_iff, part_length, and_iff_right rfl, part]
    simp only [List.mem_map, List.mem_range'_1, forall_exists_index, and_imp]
    constructor
    · intro each k below
      exact each _ _ (Nat.le_add_right _ _) (Nat.add_lt_add_left below pos) rfl
    · rintro each _ x from' upTo rfl
      have here := each (x - pos) (by omega)
      rwa [Nat.add_sub_cancel' from'] at here
  rw [copyRound_plain type after small, shift fun x => Bears env e x (content x)]
  unfold Bears
  cases kind : e.type with
  | physblock => exact absurd kind type
  | invalid => exact zeros
  | sparse => exact zeros
  | buffer =>
    rw [if_pos rfl, bytesAt_eq_part _ _ _ some']
    refine forall₂_congr fun k below => ?_
    rw [Nat.sub_add_comm after]

/-! ### The loop -/

/-- What the loop is left with. -/
structure Rest where
  extent : FswExtent
  pos : Nat
  buflen : Nat

/-- The loop ends, with the bytes of the file or with an error that the file system gave. -/
def RightFrom (env : ShandleEnv) (content : Nat → UInt8) (s : Rest) : Prop :=
  ∃ fuel, match (readLoop env fuel s.extent s.pos s.buflen).1 with
    | .ok bytes => bytes = part content s.pos s.buflen
    | .error (.status _) => True
    | .error _ => False

/-- A round that goes on: over a block that is read, or over bytes below the extent's length in 32 bits. -/
inductive Round (env : ShandleEnv) : Rest → Rest → Prop
  | block {extent e : FswExtent} {pos buflen : Nat} {block : List UInt8} (more : 0 < buflen)
      (found : extentFor env extent (pos / env.logBlocksize.toNat) = .ok e) (type : e.type = .physblock)
      (read : env.blockGet (physBno env e pos) = .ok block) :
      Round env ⟨extent, pos, buflen⟩
        ⟨e, pos + blockLength env e pos buflen, buflen - blockLength env e pos buflen⟩
  | plain {extent e : FswExtent} {pos buflen : Nat} (more : 0 < buflen)
      (found : extentFor env extent (pos / env.logBlocksize.toNat) = .ok e) (type : e.type ≠ .physblock)
      (below : pos - e.start env < e.length32 env) :
      Round env ⟨extent, pos, buflen⟩
        ⟨e, pos + plainLength env e pos buflen, buflen - plainLength env e pos buflen⟩

/-- An extent without blocks is not as long, in 32 bits, as the bytes before the position; and where it is
shorter than that, it has all the bytes that are still wanted. -/
def Room (env : ShandleEnv) (content : Nat → UInt8) (s : Rest) : Prop :=
  0 < s.buflen → ∀ e, extentFor env s.extent (s.pos / env.logBlocksize.toNat) = .ok e → e.type ≠ .physblock →
    e.length32 env ≠ s.pos - e.start env ∧
      (e.length32 env < s.pos - e.start env →
        ∀ x, s.pos ≤ x → x < s.pos + s.buflen → Bears env e x (content x))

/-- At everything that the loop comes to. -/
def RoomFrom (env : ShandleEnv) (content : Nat → UInt8) (s : Rest) : Prop :=
  ∀ s', ReflTransGen (Round env) s s' → Room env content s'

theorem rightFrom_done (extent : FswExtent) (pos : Nat) : RightFrom env content ⟨extent, pos, 0⟩ :=
  ⟨1, rfl⟩

theorem roomFrom_stuck {s : Rest} (stuck : ∀ s', ¬ Round env s s') (room : Room env content s) :
    RoomFrom env content s := by
  intro s' reaches
  obtain rfl | ⟨next, round, -⟩ := reaches.cases_head
  · exact room
  · exact absurd round (stuck next)

theorem roomFrom_done (extent : FswExtent) (pos : Nat) : RoomFrom env content ⟨extent, pos, 0⟩ := by
  refine roomFrom_stuck (fun s' round => ?_) fun more => absurd more (Nat.lt_irrefl 0)
  cases round with
  | block more => exact Nat.lt_irrefl 0 more
  | plain more => exact Nat.lt_irrefl 0 more

theorem roomFrom_next {s next : Rest} (round : Round env s next) (only : ∀ s', Round env s s' → s' = next)
    (room : Room env content s) : RoomFrom env content s ↔ RoomFrom env content next := by
  constructor
  · intro all s' reaches
    exact all s' (ReflTransGen.head round reaches)
  · intro all s' reaches
    obtain rfl | ⟨other, first, later⟩ := reaches.cases_head
    · exact room
    · rw [only other first] at later
      exact all s' later

theorem readLoop_succ (fuel : Nat) (more : 0 < buflen)
    (found : extentFor env extent (pos / env.logBlocksize.toNat) = .ok e) {bytes : List UInt8}
    (copied : copyRound env e pos buflen = .ok bytes) :
    (readLoop env (fuel + 1) extent pos buflen).1 =
      (readLoop env fuel e (u64 (pos + bytes.length)) (buflen - bytes.length)).1.map (bytes ++ ·) := by
  rw [readLoop, if_neg more.ne']
  dsimp only
  rw [found]
  dsimp only
  rw [copied]

/-- Behind a round that was right, the loop is right as a whole exactly if it goes on right. -/
theorem rightFrom_next (more : 0 < buflen) (fits : pos + buflen < 2 ^ 64)
    (found : extentFor env extent (pos / env.logBlocksize.toNat) = .ok e) {n : Nat} (le : n ≤ buflen)
    (copied : copyRound env e pos buflen = .ok (part content pos n)) :
    RightFrom env content ⟨extent, pos, buflen⟩ ↔ RightFrom env content ⟨e, pos + n, buflen - n⟩ := by
  have word : u64 (pos + n) = pos + n := Nat.mod_eq_of_lt (by omega)
  have whole := part_append content pos le
  have step (fuel : Nat) := readLoop_succ fuel more found copied
  simp only [part_length, word] at step
  unfold RightFrom
  dsimp only
  constructor
  · rintro ⟨fuel, right⟩
    cases fuel with
    | zero => exact right.elim
    | succ fuel =>
      refine ⟨fuel, ?_⟩
      rw [step] at right
      cases later : (readLoop env fuel e (pos + n) (buflen - n)).1 with
      | error fault =>
        rw [later] at right
        cases fault <;> exact right
      | ok bytes =>
        rw [later] at right
        have same : part content pos n ++ bytes = part content pos buflen := right
        rw [← whole] at same
        exact List.append_cancel_left same
  · rintro ⟨fuel, right⟩
    refine ⟨fuel + 1, ?_⟩
    rw [step]
    cases later : (readLoop env fuel e (pos + n) (buflen - n)).1 with
    | error fault =>
      rw [later] at right
      cases fault <;> exact right
    | ok bytes =>
      rw [later] at right
      have same : bytes = part content (pos + n) (buflen - n) := right
      rw [same]
      exact whole

/-- A round without a byte is followed by the same round. -/
theorem readLoop_spins (more : 0 < buflen) (small : pos < 2 ^ 64)
    (again : extentFor env e (pos / env.logBlocksize.toNat) = .ok e) (copied : copyRound env e pos buflen = .ok [])
    (fuel : Nat) : (readLoop env fuel e pos buflen).1 = .error .outOfFuel := by
  induction fuel with
  | zero => rfl
  | succ fuel ih =>
    have word : u64 (pos + 0) = pos := Nat.mod_eq_of_lt small
    rw [readLoop_succ fuel more again copied, List.length_nil, word, Nat.sub_zero, ih]
    rfl

theorem not_rightFrom_spins (more : 0 < buflen) (small : pos < 2 ^ 64)
    (found : extentFor env extent (pos / env.logBlocksize.toNat) = .ok e)
    (again : extentFor env e (pos / env.logBlocksize.toNat) = .ok e)
    (copied : copyRound env e pos buflen = .ok []) : ¬ RightFrom env content ⟨extent, pos, buflen⟩ := by
  rintro ⟨fuel, right⟩
  have word : u64 (pos + 0) = pos := Nat.mod_eq_of_lt small
  dsimp only at right
  cases fuel with
  | zero => exact right
  | succ fuel =>
    rw [readLoop_succ fuel more found copied, List.length_nil, word, Nat.sub_zero,
      readLoop_spins more small again copied] at right
    exact right

theorem not_rightFrom_error (more : 0 < buflen)
    (found : extentFor env extent (pos / env.logBlocksize.toNat) = .ok e)
    (fails : copyRound env e pos buflen = .error .outOfBounds) :
    ¬ RightFrom env content ⟨extent, pos, buflen⟩ := by
  rintro ⟨fuel, right⟩
  cases fuel with
  | zero => exact right
  | succ fuel =>
    dsimp only at right
    rw [readLoop, if_neg more.ne'] at right
    dsimp only at right
    rw [found] at right
    dsimp only at right
    rw [fails] at right
    exact right

/-- What is needed of the loop's variables. -/
structure Rest.Valid (file : ReportedFile) (s : Rest) : Prop where
  held : s.extent.type = .invalid ∨ BearsAll file.env file.content s.extent
  inside : s.pos + s.buflen ≤ file.env.size
  small : s.buflen < 2 ^ 32

theorem length_lt (env : ShandleEnv) (e : FswExtent) : e.length env < 2 ^ 64 - 2 ^ 32 := by
  have count : e.logCount.toNat ≤ 2 ^ 32 - 1 := Nat.le_sub_one_of_lt e.logCount.toNat_lt
  have size : env.logBlocksize.toNat ≤ 2 ^ 32 - 1 := Nat.le_sub_one_of_lt env.logBlocksize.toNat_lt
  have product := Nat.mul_le_mul count size
  rw [FswExtent.length]
  omega

theorem copyRound_plain_cases (buflen : Nat) (type : e.type ≠ .physblock) (after : e.start env ≤ pos)
    (small : pos < 2 ^ 64) :
    copyRound env e pos buflen = .error .outOfBounds ∨
      ∃ bytes, copyRound env e pos buflen = .ok bytes ∧ bytes.length = plainLength env e pos buflen := by
  rw [copyRound_plain type after small, bytesAt]
  split
  · split
    · rename_i inside
      refine Or.inr ⟨_, rfl, ?_⟩
      rw [List.length_take, List.length_drop]
      omega
    · exact Or.inl rfl
  · exact Or.inr ⟨_, rfl, List.length_replicate⟩

/-- The last round decides. -/
theorem not_rightFrom_wrong (more : 0 < buflen)
    (found : extentFor env extent (pos / env.logBlocksize.toNat) = .ok e) {bytes : List UInt8}
    (copied : copyRound env e pos buflen = .ok bytes) (last : bytes.length = buflen)
    (wrong : bytes ≠ part content pos buflen) : ¬ RightFrom env content ⟨extent, pos, buflen⟩ := by
  rintro ⟨fuel, right⟩
  dsimp only at right
  cases fuel with
  | zero => exact right
  | succ fuel =>
    rw [readLoop_succ fuel more found copied, last, Nat.sub_self] at right
    cases fuel with
    | zero => exact right
    | succ fuel =>
      have same : bytes ++ [] = part content pos buflen := right
      rw [List.append_nil] at same
      exact wrong same

section
variable (more : 0 < buflen) (inside : pos + buflen ≤ file.env.size)
  (found : extentFor file.env extent (pos / file.env.logBlocksize.toNat) = .ok e)
  (bears : BearsAll file.env file.content e) (after : e.start file.env ≤ pos)
  (before : pos < e.start file.env + e.length file.env)
  (later : ∀ n, 0 < n → n ≤ buflen →
    (RightFrom file.env file.content ⟨e, pos + n, buflen - n⟩ ↔
      RoomFrom file.env file.content ⟨e, pos + n, buflen - n⟩))

include more inside found bears after before later

/-- A round over a block. -/
theorem rightFrom_block (type : e.type = .physblock) :
    RightFrom file.env file.content ⟨extent, pos, buflen⟩ ↔
      RoomFrom file.env file.content ⟨extent, pos, buflen⟩ := by
  have fits : pos + buflen < 2 ^ 64 := Nat.lt_of_le_of_lt inside file.size_lt
  have room : Room file.env file.content ⟨extent, pos, buflen⟩ := by
    intro _ e' found' other
    cases found.symm.trans found'
    exact absurd type other
  cases read : file.env.blockGet (physBno file.env e pos) with
  | error status =>
    have stuck (s' : Rest) : ¬ Round file.env ⟨extent, pos, buflen⟩ s' := by
      intro round
      cases round with
      | block _ found' _ read' =>
        cases found.symm.trans found'
        cases read.symm.trans read'
      | plain _ found' other =>
        cases found.symm.trans found'
        exact other type
    refine iff_of_true ⟨1, ?_⟩ (roomFrom_stuck stuck room)
    dsimp only
    rw [readLoop, if_neg more.ne']
    dsimp only
    rw [found]
    dsimp only
    rw [copyRound_block type file.physical after (by omega), read]
    trivial
  | ok block =>
    obtain ⟨some', copied⟩ := copyRound_block_ok file type after before inside more bears read
    have le : blockLength file.env e pos buflen ≤ buflen := Nat.min_le_right _ _
    have only (s' : Rest) (round : Round file.env ⟨extent, pos, buflen⟩ s') :
        s' = ⟨e, pos + blockLength file.env e pos buflen, buflen - blockLength file.env e pos buflen⟩ := by
      cases round with
      | block _ found' =>
        cases found.symm.trans found'
        rfl
      | plain _ found' other =>
        cases found.symm.trans found'
        exact absurd type other
    rw [rightFrom_next more fits found le copied, roomFrom_next (.block more found type read) only room]
    exact later _ some' le

/-- A round over bytes that are no blocks. -/
theorem rightFrom_plain (type : e.type ≠ .physblock) (small : buflen < 2 ^ 32)
    (again : extentFor file.env e (pos / file.env.logBlocksize.toNat) = .ok e) :
    RightFrom file.env file.content ⟨extent, pos, buflen⟩ ↔
      RoomFrom file.env file.content ⟨extent, pos, buflen⟩ := by
  have fits : pos + buflen < 2 ^ 64 := Nat.lt_of_le_of_lt inside file.size_lt
  have short : e.length32 file.env < 2 ^ 32 := Nat.mod_lt _ (by decide)
  have cut : e.length32 file.env ≤ e.length file.env := Nat.mod_le _ _
  obtain below | meets | behind := Nat.lt_trichotomy (pos - e.start file.env) (e.length32 file.env)
  · have length : plainLength file.env e pos buflen =
        min (e.length32 file.env - (pos - e.start file.env)) buflen := by
      rw [plainLength, sub64_of_le below.le (by omega)]
    have some' : 0 < plainLength file.env e pos buflen := by omega
    have le : plainLength file.env e pos buflen ≤ buflen := Nat.min_le_right _ _
    have copied : copyRound file.env e pos buflen =
        .ok (part file.content pos (plainLength file.env e pos buflen)) :=
      (copyRound_plain_iff file.content type after (by omega) some').mpr
        fun x from' upTo => bears x (by omega) (by omega) (by omega)
    have room : Room file.env file.content ⟨extent, pos, buflen⟩ := by
      intro _ e' found' _
      cases found.symm.trans found'
      exact ⟨below.ne', fun impossible => absurd impossible (Nat.lt_asymm below)⟩
    have only (s' : Rest) (round : Round file.env ⟨extent, pos, buflen⟩ s') :
        s' = ⟨e, pos + plainLength file.env e pos buflen, buflen - plainLength file.env e pos buflen⟩ := by
      cases round with
      | block _ found' other =>
        cases found.symm.trans found'
        exact absurd other type
      | plain _ found' =>
        cases found.symm.trans found'
        rfl
    rw [rightFrom_next more fits found le copied, roomFrom_next (.plain more found type below) only room]
    exact later _ some' le
  · have crowded : ¬ RoomFrom file.env file.content ⟨extent, pos, buflen⟩ :=
      fun all => (all _ .refl more e found type).1 meets.symm
    refine iff_of_false ?_ crowded
    have none : plainLength file.env e pos buflen = 0 := by
      rw [plainLength, meets, sub64_of_le (Nat.le_refl _) (by omega), Nat.sub_self, Nat.zero_min]
    obtain fails | ⟨bytes, copied, length⟩ := copyRound_plain_cases buflen type after (by omega)
    · exact not_rightFrom_error more found fails
    · obtain rfl := List.eq_nil_of_length_eq_zero (length.trans none)
      exact not_rightFrom_spins more (by omega) found again copied
  · have length : plainLength file.env e pos buflen = buflen := by
      have whole := length_lt file.env e
      rw [plainLength, sub64, Nat.mod_eq_of_lt (by omega)]
      omega
    have stuck (s' : Rest) : ¬ Round file.env ⟨extent, pos, buflen⟩ s' := by
      intro round
      cases round with
      | block _ found' other =>
        cases found.symm.trans found'
        exact type other
      | plain _ found' _ below =>
        cases found.symm.trans found'
        exact absurd below (Nat.lt_asymm behind)
    have copied_iff := copyRound_plain_iff file.content type after (by omega)
      (show 0 < plainLength file.env e pos buflen by omega)
    rw [length] at copied_iff
    constructor
    · intro right
      refine roomFrom_stuck stuck fun _ e' found' _ => ?_
      cases found.symm.trans found'
      refine ⟨behind.ne, fun _ => copied_iff.mp ?_⟩
      obtain fails | ⟨bytes, copied, last⟩ := copyRound_plain_cases buflen type after (by omega)
      · exact absurd right (not_rightFrom_error more found fails)
      · by_contra wrong
        rw [copied, Except.ok.injEq] at wrong
        exact not_rightFrom_wrong more found copied (last.trans length) wrong right
    · intro room
      have copied := copied_iff.mpr ((room _ .refl more e found type).2 behind)
      rw [rightFrom_next more fits found (Nat.le_refl _) copied, Nat.sub_self]
      exact rightFrom_done _ _

end

/-- The loop is right exactly where it has room for all that it comes to. -/
theorem rightFrom_iff (file : ReportedFile) (s : Rest) (valid : s.Valid file) :
    RightFrom file.env file.content s ↔ RoomFrom file.env file.content s := by
  obtain ⟨n, wanted⟩ : ∃ n, s.buflen = n := ⟨_, rfl⟩
  induction n using Nat.strong_induction_on generalizing s with
  | _ n ih =>
    obtain ⟨extent, pos, buflen⟩ := s
    obtain ⟨held, inside, small⟩ := valid
    dsimp only at held inside small wanted
    subst wanted
    obtain rfl | more := Nat.eq_zero_or_pos buflen
    · exact iff_of_true (rightFrom_done extent pos) (roomFrom_done extent pos)
    have sized := file.size_lt
    cases found : extentFor file.env extent (pos / file.env.logBlocksize.toNat) with
    | error status =>
      have stuck (s' : Rest) : ¬ Round file.env ⟨extent, pos, buflen⟩ s' := by
        intro round
        cases round with
        | block _ found' => cases found.symm.trans found'
        | plain _ found' => cases found.symm.trans found'
      have room : Room file.env file.content ⟨extent, pos, buflen⟩ :=
        fun _ e found' => nomatch found.symm.trans found'
      refine iff_of_true ⟨1, ?_⟩ (roomFrom_stuck stuck room)
      dsimp only
      rw [readLoop, if_neg more.ne']
      dsimp only
      rw [found]
      trivial
    | ok e =>
      obtain ⟨has, bears⟩ := extentFor_ok
        (file.reports _ (Nat.lt_of_le_of_lt (Nat.div_mul_le_self _ _) (by omega))) held found
      obtain ⟨after, before⟩ := has.at_pos file.blocksize_pos
      have later (n : Nat) (some' : 0 < n) (le : n ≤ buflen) :
          RightFrom file.env file.content ⟨e, pos + n, buflen - n⟩ ↔
            RoomFrom file.env file.content ⟨e, pos + n, buflen - n⟩ :=
        ih (buflen - n) (by omega) ⟨e, pos + n, buflen - n⟩
          ⟨Or.inr bears, by dsimp only; omega, by dsimp only; omega⟩ rfl
      by_cases type : e.type = .physblock
      · exact rightFrom_block more inside found bears after before later type
      · exact rightFrom_plain more inside found bears after before later type small (extentFor_again found has)

/-! ### The handle -/

/-- The part that is asked for, as far as the file goes. -/
def wantedLength (file : ReportedFile) (pos : Nat) (bufferSize : UInt32) : Nat :=
  min bufferSize.toNat (file.env.size - pos)

/-- The call ends; its bytes are those of the file, their number is reported and the position moves on by it, or
an error is returned and the position stays. -/
def ReadsPart (file : ReportedFile) (shand : FileHandle file) (bufferSize : UInt32) : Prop :=
  ∃ fuel, match fswShandleRead file.env fuel shand.toFswShandle bufferSize with
    | (.ok (bytes, reported), after) =>
      bytes = part file.content shand.pos (wantedLength file shand.pos bufferSize) ∧
        reported = bytes.length ∧ after.pos = shand.pos + bytes.length
    | (.error (.status _), after) => after.pos = shand.pos
    | (.error _, _) => False

def startOf (file : ReportedFile) (shand : FileHandle file) (bufferSize : UInt32) : Rest where
  extent := shand.extent
  pos := shand.pos
  buflen := wantedLength file shand.pos bufferSize

theorem readsPart_iff_rightFrom (file : ReportedFile) (shand : FileHandle file) (bufferSize : UInt32) :
    ReadsPart file shand bufferSize ↔ RightFrom file.env file.content (startOf file shand bufferSize) := by
  have small := bufferSize.toNat_lt
  have sized := file.size_lt
  by_cases behind : shand.pos ≥ file.env.size
  · have none : wantedLength file shand.pos bufferSize = 0 := by
      rw [wantedLength]
      omega
    have right : RightFrom file.env file.content (startOf file shand bufferSize) := by
      rw [startOf, none]
      exact rightFrom_done _ _
    refine iff_of_true ⟨0, ?_⟩ right
    rw [fswShandleRead, if_pos behind, none]
    exact ⟨rfl, rfl, rfl⟩
  · have buflen : (if bufferSize.toNat > file.env.size - shand.pos then file.env.size - shand.pos
        else bufferSize.toNat) = wantedLength file shand.pos bufferSize := by
      rw [wantedLength]
      split <;> omega
    unfold ReadsPart RightFrom startOf
    refine exists_congr fun fuel => ?_
    rw [fswShandleRead, if_neg behind]
    dsimp only
    rw [buflen]
    cases (readLoop file.env fuel shand.extent shand.pos (wantedLength file shand.pos bufferSize)).1 with
    | error fault =>
      cases fault with
      | status status => exact iff_of_true rfl trivial
      | _ => exact Iff.rfl
    | ok bytes =>
      dsimp only
      constructor
      · intro right
        exact right.1
      · intro same
        have length : bytes.length = wantedLength file shand.pos bufferSize := by rw [same, part_length]
        have wanted : wantedLength file shand.pos bufferSize ≤ file.env.size - shand.pos := Nat.min_le_right _ _
        have asked : wantedLength file shand.pos bufferSize ≤ bufferSize.toNat := Nat.min_le_left _ _
        have word : u64 (shand.pos + bytes.length) = shand.pos + bytes.length := Nat.mod_eq_of_lt (by omega)
        rw [word, sub64_of_le (Nat.le_add_right _ _) (by omega), Nat.add_sub_cancel_left]
        exact ⟨same, Nat.mod_eq_of_lt (by omega), rfl⟩

theorem startOf_valid (file : ReportedFile) (shand : FileHandle file) (bufferSize : UInt32)
    (inside : shand.pos < file.env.size) : (startOf file shand bufferSize).Valid file where
  held := shand.held
  inside := by
    rw [startOf]
    dsimp only
    rw [wantedLength]
    omega
  small := Nat.lt_of_le_of_lt (Nat.min_le_left _ _) bufferSize.toNat_lt

/-- A handle reads right exactly where its read has room for all that it comes to. -/
theorem fswShandleRead_iff (file : ReportedFile) (shand : FileHandle file) (bufferSize : UInt32) :
    ReadsPart file shand bufferSize ↔ RoomFrom file.env file.content (startOf file shand bufferSize) := by
  rw [readsPart_iff_rightFrom]
  by_cases inside : shand.pos < file.env.size
  · exact rightFrom_iff file _ (startOf_valid file shand bufferSize inside)
  · have none : wantedLength file shand.pos bufferSize = 0 := by
      rw [wantedLength]
      omega
    rw [startOf, none]
    exact iff_of_true (rightFrom_done _ _) (roomFrom_done _ _)

/-- A file of `2 ^ 32` bytes that is one hole. -/
def holeFile : ReportedFile where
  env :=
    { logBlocksize := 4096
      physBlocksize := 4096
      size := 2 ^ 32
      blockGet := fun _ => .error .ioError
      getExtent := fun _ =>
        (none, { type := .sparse, logStart := 0, logCount := 1048576, physStart := 0, buffer := [] }) }
  content _ := 0
  size_lt := by decide
  blocksize_pos := by decide
  physical := ⟨12, by decide⟩
  divides := by decide
  reports logBno inside := by
    refine ⟨nofun, ⟨Nat.zero_le _, ?_⟩, fun x _ _ _ => rfl⟩
    have small : logBno * 4096 < 2 ^ 32 := inside
    have count : (1048576 : UInt32).toNat = 1048576 := by decide
    dsimp only
    omega

def holeHandle : FileHandle holeFile where
  pos := 0
  extent := { type := .invalid, logStart := 0, logCount := 0, physStart := 0, buffer := [] }
  held := Or.inl rfl

/-- The length of the hole is nothing in 32 bits, and the first byte is never read. -/
theorem fswShandleRead_spins : ¬ ReadsPart holeFile holeHandle 1 := by
  rw [readsPart_iff_rightFrom]
  have more : 0 < wantedLength holeFile holeHandle.pos 1 := by decide
  have found : extentFor holeFile.env holeHandle.extent (0 / holeFile.env.logBlocksize.toNat) =
      .ok { type := .sparse, logStart := 0, logCount := 1048576, physStart := 0, buffer := [] } := rfl
  exact not_rightFrom_spins more (by decide) found rfl rfl

end Meridian.Fsw
