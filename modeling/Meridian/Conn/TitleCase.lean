import Meridian.Lib.Terminated
import Meridian.Lib.Utf8

/-!
# Title case

The model of `title_case` in `conn/core/grid.c`, with `word_len`, `upper`, `word_eq_ci`, `is_release_tag`
and `canon_for`. A word with a spelling of its own gets it, a release tag is raised, and any other word starts
with a capital letter. What is written is the text that was read, up to the case of its letters and the end of
the buffer.
-/

namespace Meridian.Conn.TitleCase

open Lib.Terminated Lib.Utf8 Lib.Result

/-- `CANON`. -/
def canon : List CString :=
  ["macOS", "iOS", "OS", "FreeBSD", "OpenBSD", "NetBSD", "DragonFly", "GhostBSD", "MidnightBSD", "BSD", "9front",
    "openSUSE", "GNU", "PC-BSD", "APFS", "HFS", "NTFS", "ZFS", "UFS", "FFS", "BFS", "XFS", "JFS", "FAT32", "EXT2",
    "EXT3", "EXT4", "HAMMER2", "LUKS", "LVM", "RAID", "ReFS", "GPT", "MBR", "ESP", "EFI", "UEFI", "NVMe", "SSD",
    "HD", "USB", "DHH", "PinkPuffy", "CURRENT", "STABLE", "RELEASE"].map
    fun word => .ofBytes (word.toList.map fun c => UInt8.ofNat c.toNat)

/-- `c >= 'A' && c <= 'Z' || c >= 'a' && c <= 'z'`. -/
def isLetter (c : UInt8) : Bool := (65 ≤ c && c ≤ 90) || (97 ≤ c && c ≤ 122)

/-- `c >= '0' && c <= '9'`. -/
def isDigit (c : UInt8) : Bool := 48 ≤ c && c ≤ 57

/-- What `word_len` counts. -/
def inWord (c : UInt8) : Bool := isLetter c || isDigit c || c == 45

def upper (c : UInt8) : UInt8 := if 97 ≤ c ∧ c ≤ 122 then c - 32 else c

/-- The loop of `word_len` on the text from `i` on. -/
def wordLenFrom (s : CString) (i : Nat) : Nat → Nat → Except Fault Nat
  | 0, _ => .error .noFuel
  | fuel + 1, n => do
    let c ← s.read (i + n)
    if inWord c then wordLenFrom s i fuel (n + 1) else return n

def wordLen (s : CString) (i : Nat) : Except Fault Nat := wordLenFrom s i (s.bytes.length + 1) 0

/-- The loop of `word_eq_ci` with `left` bytes to go, and the test behind it. -/
def wordEqFrom (src : CString) (i : Nat) (cand : CString) : Nat → Nat → Except Fault Bool
  | 0, k => do
    let c ← cand.read k
    return c == 0
  | left + 1, k => do
    let c ← cand.read k
    if c = 0 then return false
    else
      let b ← src.read (i + k)
      if upper b ≠ upper c then return false else wordEqFrom src i cand left (k + 1)

def wordEqCi (src : CString) (i n : Nat) (cand : CString) : Except Fault Bool := wordEqFrom src i cand n 0

/-- The first loop of `is_release_tag` with `left` bytes to go. -/
def letterRun (s : CString) (i : Nat) : Nat → Nat → Except Fault Nat
  | 0, a => return a
  | left + 1, a => do
    let c ← s.read (i + a)
    if isLetter c then letterRun s i left (a + 1) else return a

/-- The second loop of `is_release_tag`. -/
def digitRun (s : CString) (i : Nat) : Nat → Nat → Except Fault Bool
  | 0, _ => return true
  | left + 1, k => do
    let c ← s.read (i + k)
    if isDigit c then digitRun s i left (k + 1) else return false

def isReleaseTag (s : CString) (i n : Nat) : Except Fault Bool := do
  let a ← letterRun s i n 0
  if a = 0 ∨ 3 < a ∨ a = n then return false else digitRun s i (n - a) a

/-- `canon_for`, on a list of spellings. -/
def canonFor (s : CString) (i n : Nat) : List CString → Except Fault (Option CString)
  | [] => return none
  | cand :: words => do
    let same ← wordEqCi s i n cand
    if same then return some cand else canonFor s i n words

/-- The copy of a spelling: `for (k; fixed[k] && j + 1 < cap; k++) dst[j++] = fixed[k]`. -/
def copyCanon (fixed : CString) (cap : Nat) :
    Nat → Nat → Nat → (Nat → UInt8) → Except Fault (Nat × (Nat → UInt8))
  | 0, _, _, _ => .error .noFuel
  | fuel + 1, k, j, dst => do
    let c ← fixed.read k
    if c ≠ 0 ∧ j + 1 < cap then
      let dst ← store cap dst j c
      copyCanon fixed cap fuel (k + 1) (j + 1) dst
    else return (j, dst)

/-- The copy of a release tag, with `left` bytes of it to go. -/
def copyTag (src : CString) (i cap : Nat) : Nat → Nat → Nat → (Nat → UInt8) → Except Fault (Nat × (Nat → UInt8))
  | 0, _, j, dst => return (j, dst)
  | left + 1, k, j, dst =>
    if j + 1 < cap then do
      let c ← src.read (i + k)
      let dst ← store cap dst j (upper c)
      copyTag src i cap left (k + 1) (j + 1) dst
    else return (j, dst)

/-- The locals of `title_case`, and the buffer that it fills. -/
structure TitleState where
  i : Nat
  j : Nat
  prevWord : Bool
  dst : Nat → UInt8

/-- The byte that is written for a byte on its own. -/
def cased (prevWord : Bool) (c : UInt8) : UInt8 :=
  if isLetter c then if !prevWord then upper c else if c ≤ 90 then c + 32 else c else c

def titleByte (cap : Nat) (c : UInt8) (st : TitleState) : Except Fault TitleState := do
  let dst ← store cap st.dst st.j (cased st.prevWord c)
  return { i := st.i + 1, j := st.j + 1, prevWord := isLetter c, dst := dst }

/-- The body of the loop of `title_case`. -/
def titlePass (src : CString) (cap : Nat) (c : UInt8) (st : TitleState) : Except Fault TitleState :=
  if (isLetter c || isDigit c) && !st.prevWord then do
    let n ← wordLen src st.i
    match ← canonFor src st.i n canon with
    | some fixed =>
      let (j, dst) ← copyCanon fixed cap (fixed.bytes.length + 1) 0 st.j st.dst
      return { i := st.i + n, j := j, prevWord := true, dst := dst }
    | none =>
      let tag ← isReleaseTag src st.i n
      if tag then
        let (j, dst) ← copyTag src st.i cap n 0 st.j st.dst
        return { i := st.i + n, j := j, prevWord := true, dst := dst }
      else titleByte cap c st
  else titleByte cap c st

/-- The loop of `title_case`, and the NUL behind it. -/
def titleFrom (src : CString) (cap : Nat) : Nat → TitleState → Except Fault (Nat → UInt8)
  | 0, _ => .error .noFuel
  | fuel + 1, st => do
    let c ← src.read st.i
    if c ≠ 0 ∧ st.j + 1 < cap then
      let st ← titlePass src cap c st
      titleFrom src cap fuel st
    else store cap st.dst st.j 0

def titleCase (src : CString) (dst : Nat → UInt8) (cap : Nat) : Except Fault (Nat → UInt8) :=
  titleFrom src cap (src.bytes.length + 1) { i := 0, j := 0, prevWord := false, dst := dst }

/-! ### Letters and their case -/

theorem upper_cased (prevWord : Bool) (c : UInt8) : upper (cased prevWord c) = upper c := by
  revert c
  cases prevWord with
  | false => exact byte_forall (by decide +kernel)
  | true => exact byte_forall (by decide +kernel)

theorem upper_upper (c : UInt8) : upper (upper c) = upper c := by
  revert c
  exact byte_forall (by decide +kernel)

theorem upper_eq_zero (c : UInt8) : upper c = 0 → c = 0 := by
  revert c
  exact byte_forall (by decide +kernel)

theorem lead_upper (c : UInt8) : lead (upper c) = lead c := by
  revert c
  exact byte_forall (by decide +kernel)

theorem inWord_ne {c : UInt8} (h : inWord c = true) : c ≠ 0 := by
  rintro rfl
  exact absurd h (by decide)

/-- What a string owes at its end does not depend on the case of its letters. -/
theorem owed_upper (k : Nat) (s : List UInt8) : owed k (s.map upper) = owed k s := by
  induction s generalizing k with
  | nil => cases k <;> rfl
  | cons c s ih =>
    rw [List.map_cons]
    cases k with
    | zero => rw [owed, owed, lead_upper, ih]
    | succ k => rw [owed, owed, ih]

/-! ### The words of a text -/

section Words

variable {src : CString} {i : Nat}

theorem wordLenFrom_ok (src : CString) (i fuel n : Nat) (inside : i + n ≤ src.bytes.length)
    (enough : src.bytes.length < i + n + fuel) :
    ∃ n', wordLenFrom src i fuel n = .ok n' ∧ i + n' ≤ src.bytes.length ∧
      n ≤ n' ∧ (inWord (src.byte (i + n)) → n < n') := by
  induction fuel generalizing n with
  | zero => omega
  | succ fuel ih =>
    rw [wordLenFrom, read_le inside, ok_bind]
    by_cases more : inWord (src.byte (i + n)) = true
    · have low : i + n < src.bytes.length := by
        by_contra past
        exact inWord_ne more (byte_eq_zero_iff.mpr (Nat.le_of_not_lt past))
      obtain ⟨n', len, inside', longer, _⟩ := ih (n + 1) (by omega) (by omega)
      exact ⟨n', by rw [if_pos more, len], inside', by omega, fun _ => longer⟩
    · exact ⟨n, by rw [if_neg more]; rfl, inside, Nat.le_refl n, fun h => absurd h more⟩

/-- A word that starts at `i` ends within the text. -/
theorem wordLen_ok (inside : i ≤ src.bytes.length) :
    ∃ n, wordLen src i = .ok n ∧ i + n ≤ src.bytes.length ∧ (inWord (src.byte i) → 0 < n) := by
  obtain ⟨n, len, inside', _, pos⟩ :=
    wordLenFrom_ok src i (src.bytes.length + 1) 0 inside (by omega)
  exact ⟨n, len, inside', pos⟩

/-- The spelling `fixed` has the letters of the word of `n` bytes at `i`. -/
structure Spells (src : CString) (i n : Nat) (fixed : CString) : Prop where
  length : fixed.bytes.length = n
  same : ∀ k < n, upper (fixed.byte k) = upper (src.byte (i + k))

theorem wordEqFrom_ok (src : CString) (i : Nat) (cand : CString) (left k : Nat)
    (inside : i + (k + left) ≤ src.bytes.length) (short : k ≤ cand.bytes.length) :
    ∃ same, wordEqFrom src i cand left k = .ok same ∧
      (same = true → cand.bytes.length = k + left ∧
        ∀ m, k ≤ m → m < k + left → upper (cand.byte m) = upper (src.byte (i + m))) := by
  induction left generalizing k with
  | zero =>
    refine ⟨cand.byte k == 0, by rw [wordEqFrom, read_le short]; rfl, ?_⟩
    intro ends
    have past := byte_eq_zero_iff.mp (eq_of_beq ends)
    exact ⟨by omega, fun m above below => by omega⟩
  | succ left ih =>
    rw [wordEqFrom, read_le short, ok_bind]
    by_cases ends : cand.byte k = 0
    · exact ⟨false, by rw [if_pos ends]; rfl, fun h => Bool.noConfusion h⟩
    · rw [if_neg ends, read_le (by omega), ok_bind]
      by_cases other : upper (src.byte (i + k)) ≠ upper (cand.byte k)
      · exact ⟨false, by rw [if_pos other]; rfl, fun h => Bool.noConfusion h⟩
      · have more : k + 1 ≤ cand.bytes.length := by
          by_contra past
          exact ends (byte_eq_zero_iff.mpr (by omega))
        obtain ⟨same, run, spelled⟩ := ih (k + 1) (by omega) more
        refine ⟨same, by rw [if_neg other, run], fun h => ?_⟩
        obtain ⟨length, rest⟩ := spelled h
        refine ⟨by omega, fun m above below => ?_⟩
        rcases Nat.eq_or_lt_of_le above with rfl | later
        · exact (not_not.mp other).symm
        · exact rest m later (by omega)

theorem canonFor_ok {n : Nat} (inside : i + n ≤ src.bytes.length) (words : List CString) :
    ∃ found, canonFor src i n words = .ok found ∧ ∀ fixed, found = some fixed → Spells src i n fixed := by
  induction words with
  | nil => exact ⟨none, rfl, fun _ h => by cases h⟩
  | cons cand words ih =>
    obtain ⟨same, run, spelled⟩ :=
      wordEqFrom_ok src i cand n 0 (by omega) (Nat.zero_le _)
    obtain ⟨found, later, spells⟩ := ih
    rw [canonFor, wordEqCi, run, ok_bind]
    cases same with
    | false => exact ⟨found, later, spells⟩
    | true =>
      refine ⟨some cand, rfl, fun fixed here => ?_⟩
      cases here
      obtain ⟨length, letters⟩ := spelled rfl
      exact ⟨by omega, fun k low => letters k (Nat.zero_le k) (by omega)⟩

theorem letterRun_ok (src : CString) (i left a : Nat) (inside : i + (a + left) ≤ src.bytes.length) :
    ∃ a', letterRun src i left a = .ok a' ∧ a' ≤ a + left := by
  induction left generalizing a with
  | zero => exact ⟨a, rfl, Nat.le_refl a⟩
  | succ left ih =>
    rw [letterRun, read_le (by omega), ok_bind]
    by_cases letter : isLetter (src.byte (i + a)) = true
    · obtain ⟨a', run, low⟩ := ih (a + 1) (by omega)
      exact ⟨a', by rw [if_pos letter, run], by omega⟩
    · exact ⟨a, by rw [if_neg letter]; rfl, by omega⟩

theorem digitRun_ok {left k : Nat} (inside : i + (k + left) ≤ src.bytes.length) :
    ∃ tag, digitRun src i left k = .ok tag := by
  induction left generalizing k with
  | zero => exact ⟨true, rfl⟩
  | succ left ih =>
    rw [digitRun, read_le (by omega), ok_bind]
    by_cases digit : isDigit (src.byte (i + k)) = true
    · rw [if_pos digit]
      exact ih (by omega)
    · exact ⟨false, by rw [if_neg digit]; rfl⟩

theorem isReleaseTag_ok {n : Nat} (inside : i + n ≤ src.bytes.length) : ∃ tag, isReleaseTag src i n = .ok tag := by
  obtain ⟨a, run, low⟩ := letterRun_ok src i n 0 (by omega)
  rw [isReleaseTag, run, ok_bind]
  split
  · exact ⟨false, rfl⟩
  · exact digitRun_ok (by omega)

end Words

/-! ### The buffer while it is filled -/

section Filling

variable {src : CString} {cap j : Nat} {dst₀ dst : Nat → UInt8}

/-- The buffer holds the first `j` bytes of the text, up to the case of their letters, and has room for a NUL;
what lies behind them is as it was. -/
structure Kept (src : CString) (cap : Nat) (dst₀ : Nat → UInt8) (j : Nat) (dst : Nat → UInt8) : Prop where
  room : j < cap
  same : ∀ k < j, upper (dst k) = upper (src.byte k)
  frame : ∀ k, j ≤ k → dst k = dst₀ k

theorem Kept.store (h : Kept src cap dst₀ j dst) (more : j + 1 < cap) {b : UInt8}
    (byte : upper b = upper (src.byte j)) :
    ∃ dst', store cap dst j b = .ok dst' ∧ Kept src cap dst₀ (j + 1) dst' := by
  refine ⟨Function.update dst j b, if_pos h.room, more, ?_, ?_⟩
  · intro k low
    rcases Nat.eq_or_lt_of_le (Nat.le_of_lt_succ low) with rfl | before
    · rw [Function.update_self, byte]
    · rw [Function.update_of_ne (Nat.ne_of_lt before), h.same k before]
  · intro k past
    rw [Function.update_of_ne (by omega), h.frame k (by omega)]

/-- The copy of a spelling is the word that it is for, as far as it fits. -/
theorem copyCanon_ok {i n : Nat} {fixed : CString} (spells : Spells src i n fixed) (fuel k : Nat) (low : k ≤ n)
    (enough : n < k + fuel) (place : j = min (i + k) (cap - 1)) (h : Kept src cap dst₀ j dst) :
    ∃ dst', copyCanon fixed cap fuel k j dst = .ok (min (i + n) (cap - 1), dst') ∧
      Kept src cap dst₀ (min (i + n) (cap - 1)) dst' := by
  induction fuel generalizing k j dst with
  | zero => omega
  | succ fuel ih =>
    have length := spells.length
    rw [copyCanon, read_le (by omega), ok_bind]
    by_cases more : fixed.byte k ≠ 0 ∧ j + 1 < cap
    · have inside : k < n := by
        by_contra past
        exact more.1 (byte_eq_zero_iff.mpr (by omega))
      have here : j = i + k := by omega
      obtain ⟨dst₁, stored, kept⟩ := h.store more.2 (b := fixed.byte k) (here ▸ spells.same k inside)
      rw [if_pos more, stored, ok_bind]
      exact ih (k + 1) inside (by omega) (by omega) kept
    · have done : j = min (i + n) (cap - 1) := by
        rcases not_and_or.mp more with ends | full
        · have past := byte_eq_zero_iff.mp (not_not.mp ends)
          omega
        · have room := h.room
          omega
      rw [if_neg more]
      exact ⟨dst, by rw [← done]; rfl, done ▸ h⟩

theorem copyTag_ok {i n : Nat} (left k : Nat) (word : n = k + left) (inside : i + n ≤ src.bytes.length)
    (place : j = min (i + k) (cap - 1)) (h : Kept src cap dst₀ j dst) :
    ∃ dst', copyTag src i cap left k j dst = .ok (min (i + n) (cap - 1), dst') ∧
      Kept src cap dst₀ (min (i + n) (cap - 1)) dst' := by
  induction left generalizing k j dst with
  | zero =>
    have done : j = min (i + n) (cap - 1) := by omega
    exact ⟨dst, by rw [copyTag, ← done]; rfl, done ▸ h⟩
  | succ left ih =>
    rw [copyTag]
    by_cases more : j + 1 < cap
    · have here : j = i + k := by omega
      obtain ⟨dst₁, stored, kept⟩ := h.store more (b := upper (src.byte (i + k))) (by rw [upper_upper, here])
      rw [if_pos more, read_le (by omega), ok_bind, stored, ok_bind]
      exact ih (k + 1) (by omega) (by omega) kept
    · have room := h.room
      have done : j = min (i + n) (cap - 1) := by omega
      rw [if_neg more]
      exact ⟨dst, by rw [← done]; rfl, done ▸ h⟩

/-- What holds at the head of the loop of `title_case`. -/
structure TitleInv (src : CString) (cap : Nat) (dst₀ : Nat → UInt8) (st : TitleState) : Prop where
  inside : st.i ≤ src.bytes.length
  place : st.j = min st.i (cap - 1)
  kept : Kept src cap dst₀ st.j st.dst

variable {st : TitleState}

theorem titleByte_ok (h : TitleInv src cap dst₀ st) (more : src.byte st.i ≠ 0) (room : st.j + 1 < cap) :
    ∃ st', titleByte cap (src.byte st.i) st = .ok st' ∧ TitleInv src cap dst₀ st' ∧ st.i < st'.i := by
  have low : st.i < src.bytes.length := Nat.lt_of_not_le fun past => more (byte_eq_zero_iff.mpr past)
  have start := h.place
  have here : st.j = st.i := by omega
  obtain ⟨dst', stored, kept⟩ :=
    h.kept.store room (b := cased st.prevWord (src.byte st.i)) (by rw [upper_cased, here])
  rw [titleByte, stored, ok_bind]
  exact ⟨_, rfl, ⟨low, by dsimp only; omega, kept⟩, Nat.lt_succ_self _⟩

/-- One pass of the loop goes on in the text and keeps the buffer right. -/
theorem titlePass_ok (h : TitleInv src cap dst₀ st) (more : src.byte st.i ≠ 0) (room : st.j + 1 < cap) :
    ∃ st', titlePass src cap (src.byte st.i) st = .ok st' ∧ TitleInv src cap dst₀ st' ∧ st.i < st'.i := by
  rw [titlePass]
  by_cases starts : (isLetter (src.byte st.i) || isDigit (src.byte st.i)) && !st.prevWord
  · obtain ⟨n, len, inside, long⟩ := wordLen_ok h.inside
    have pos : 0 < n := long (by rw [inWord, (Bool.and_eq_true_iff.mp starts).1, Bool.true_or])
    obtain ⟨found, search, spells⟩ := canonFor_ok inside canon
    rw [if_pos starts, len, ok_bind, search, ok_bind]
    cases found with
    | some fixed =>
      have spelled := spells fixed rfl
      obtain ⟨dst', copied, kept⟩ := copyCanon_ok spelled (fixed.bytes.length + 1) 0 (Nat.zero_le n)
        (by rw [spelled.length]; omega) h.place h.kept
      refine ⟨_, by dsimp only; rw [copied]; rfl, ⟨inside, rfl, kept⟩, by dsimp only; omega⟩
    | none =>
      obtain ⟨tag, tested⟩ := isReleaseTag_ok inside
      dsimp only
      rw [tested, ok_bind]
      cases tag with
      | true =>
        obtain ⟨dst', copied, kept⟩ := copyTag_ok n 0 (by omega) inside h.place h.kept
        refine ⟨_, by rw [if_pos rfl, copied]; rfl, ⟨inside, rfl, kept⟩, by dsimp only; omega⟩
      | false => exact titleByte_ok h more room
  · rw [if_neg starts]
    exact titleByte_ok h more room

/-- What `title_case` leaves in the buffer. -/
structure Titled (src : CString) (cap : Nat) (dst₀ dst : Nat → UInt8) : Prop where
  inside : ∀ k, cap ≤ k → dst k = dst₀ k
  ended : ∃ k < cap, dst k = 0
  text : (held cap dst).bytes.map upper = (src.bytes.take (cap - 1)).map upper

/-- The bytes kept and a NUL behind them are the title. -/
theorem Kept.titled (h : Kept src cap dst₀ j dst) (all : j = min src.bytes.length (cap - 1)) :
    Titled src cap dst₀ (Function.update dst j 0) := by
  have room := h.room
  have same : ∀ k < j, upper (Function.update dst j 0 k) = upper (src.byte k) := fun k low => by
    rw [Function.update_of_ne (Nat.ne_of_lt low), h.same k low]
  have filled : ∀ k < j, Function.update dst j 0 k ≠ 0 := by
    intro k low zero
    have letter := same k low
    rw [zero] at letter
    have past := byte_eq_zero_iff.mp (upper_eq_zero _ (letter.symm.trans (by decide)))
    omega
  have nul : Function.update dst j 0 j = 0 := Function.update_self ..
  refine ⟨?_, ⟨j, room, nul⟩, ?_⟩
  · intro k past
    rw [Function.update_of_ne (by omega), h.frame k (by omega)]
  · rw [held_eq room filled nul]
    refine List.ext_getElem ?_ ?_
    · simp only [List.length_map, List.length_range, List.length_take]
      omega
    · intro k low _
      simp only [List.length_map, List.length_range] at low
      simp only [List.getElem_map, List.getElem_range, List.getElem_take]
      rw [same k low, byte_lt (by omega)]

theorem titleFrom_ok {fuel : Nat} (h : TitleInv src cap dst₀ st) (enough : src.bytes.length < st.i + fuel) :
    ∃ dst', titleFrom src cap fuel st = .ok dst' ∧ Titled src cap dst₀ dst' := by
  induction fuel generalizing st with
  | zero =>
    have inside := h.inside
    omega
  | succ fuel ih =>
    rw [titleFrom, read_le h.inside, ok_bind]
    by_cases more : src.byte st.i ≠ 0 ∧ st.j + 1 < cap
    · obtain ⟨st', pass, inv, further⟩ := titlePass_ok h more.1 more.2
      rw [if_pos more, pass, ok_bind]
      exact ih inv (by omega)
    · have inside := h.inside
      have place := h.place
      have room := h.kept.room
      have all : st.j = min src.bytes.length (cap - 1) := by
        rcases not_and_or.mp more with ends | full
        · have past := byte_eq_zero_iff.mp (not_not.mp ends)
          omega
        · omega
      exact ⟨_, by rw [if_neg more]; exact if_pos room, h.kept.titled all⟩

/-- Into a buffer of at least one byte, every text is title-cased: nothing is read behind its NUL and nothing
written outside of the buffer. -/
theorem titleCase_ok (src : CString) (dst₀ : Nat → UInt8) (pos : 0 < cap) :
    ∃ dst', titleCase src dst₀ cap = .ok dst' ∧ Titled src cap dst₀ dst' := by
  refine titleFrom_ok ⟨Nat.zero_le _, (Nat.zero_min _).symm, pos, ?_, ?_⟩ (by dsimp only; omega)
  · intro k low
    exact absurd low (Nat.not_lt_zero k)
  · exact fun _ _ => rfl

theorem titleCase_zero (src : CString) (dst₀ : Nat → UInt8) : titleCase src dst₀ 0 = .error .outOfBuffer := by
  rw [titleCase, titleFrom, read_le (Nat.zero_le _), ok_bind, if_neg fun h => Nat.not_lt_zero _ h.2]
  rfl

theorem Titled.owed (h : Titled src cap dst₀ dst) :
    owed 0 (held cap dst).bytes = owed 0 (src.bytes.take (cap - 1)) := by
  rw [← owed_upper, h.text, owed_upper]

end Filling

end Meridian.Conn.TitleCase
