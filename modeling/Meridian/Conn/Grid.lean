import Meridian.Lib.Terminated
import Meridian.Lib.Utf8

/-!
# Text on the grid

The model of `utf8_next`, `ucs_len`, `set_cell`, `puts_at`, `puts_clipped` and `puts_center` in
`conn/core/grid.c`, with the firmware colours of a cell from `conn/core/paint.c`. A text is drawn character by
character as its lead bytes cut it; the cells outside of the grid are left alone.
-/

namespace Meridian.Conn.Grid

open Lib.Terminated Lib.Utf8 Lib.Result

abbrev ConnColor := UInt32

/-- `CONN_A`. -/
def connA (c : ConnColor) : UInt32 := c >>> 24 &&& 0xFF

def eBlack : UInt8 := 0

def eLGray : UInt8 := 7

def eWhite : UInt8 := 15

/-- The cases of `conn_efi_fg`. -/
def efiForegrounds : List (UInt32 × UInt8) :=
  [(0x000000, eBlack), (0x0A0A0A, eBlack), (0xFFFFFF, eWhite), (0xFF9933, 14), (0xB9C0CC, eLGray), (0x6B7280, 8),
    (0x99CCEE, 11), (0x7788DD, 9), (0xCC99CC, 13), (0xCC6677, 12), (0xFFCC66, 14), (0xFFCC99, 14), (0xFF8866, 12),
    (0x99DDBB, 10), (0xDD8899, 13), (0x66CCCC, 11), (0xCC3333, 12), (0x4488CC, 9), (0xDDBB33, 14)]

/-- The cases of `conn_efi_bg`. -/
def efiBackgrounds : List (UInt32 × UInt8) :=
  [(0x000000, eBlack), (0xFF9933, 6), (0x99CCEE, 3), (0x7788DD, 1), (0xCC99CC, 5), (0xCC6677, 4), (0xFFCC66, 6),
    (0xFFCC99, 6), (0xFF8866, 4), (0x99DDBB, 2), (0xDD8899, 5), (0x66CCCC, 3), (0xCC3333, 4), (0x4488CC, 1),
    (0xDDBB33, 6)]

def connEfiFg (c : ConnColor) : UInt8 := (efiForegrounds.lookup (c &&& 0x00FFFFFF)).getD eLGray

def connEfiBg (c : ConnColor) : UInt8 := (efiBackgrounds.lookup (c &&& 0x00FFFFFF)).getD eBlack

def connEfiInverseFg (bgIndex : UInt8) : UInt8 := if bgIndex = eLGray then eBlack else eWhite

structure ConnCell where
  ch : UInt32
  fg : ConnColor
  bg : ConnColor
  bold : Bool
  efiFg : UInt8
  efiBg : UInt8
  deriving DecidableEq, Repr

/-- `g->cell[row][col]`, and what lies around the grid. -/
abbrev ConnGrid := Int → Int → ConnCell

def connCols : Int := 80

def connRows : Int := 25

/-- The colours and the weight that the text functions are called with. -/
structure Style where
  fg : ConnColor
  bg : ConnColor
  bold : Bool
  deriving DecidableEq, Repr

/-- The cell that `set_cell` writes. -/
def styled (style : Style) (ch : UInt32) : ConnCell :=
  let efiBg := if connA style.bg = 0 then 0 else connEfiBg style.bg
  { ch := ch
    fg := style.fg
    bg := style.bg
    bold := style.bold
    efiFg := if efiBg = 0 then connEfiFg style.fg else connEfiInverseFg efiBg
    efiBg := efiBg }

def setCell (g : ConnGrid) (col row : Int) (ch : UInt32) (style : Style) : ConnGrid :=
  if col < 0 ∨ connCols ≤ col ∨ row < 0 ∨ connRows ≤ row then g
  else Function.update g row (Function.update (g row) col (styled style ch))

/-- `utf8_next` at the byte `p`: the code point, and the bytes that it took. -/
def utf8Next (s : CString) (p : Nat) : Except Fault (UInt32 × Nat) := do
  let c ← s.read p
  if c < 0x80 then return (c.toUInt32, 1)
  else if c &&& 0xE0 = 0xC0 then
    let d ← s.read (p + 1)
    return ((c &&& 0x1F).toUInt32 <<< 6 ||| (d &&& 0x3F).toUInt32, 2)
  else if c &&& 0xF0 = 0xE0 then
    let d ← s.read (p + 1)
    let e ← s.read (p + 2)
    return ((c &&& 0x0F).toUInt32 <<< 12 ||| (d &&& 0x3F).toUInt32 <<< 6 ||| (e &&& 0x3F).toUInt32, 3)
  else return (c.toUInt32, 1)

/-- The loop of `ucs_len`. -/
def ucsLenFrom (s : CString) : Nat → Nat → Int → Except Fault Int
  | 0, _, _ => .error .noFuel
  | fuel + 1, p, n => do
    let c ← s.read p
    if c = 0 then return n
    else ucsLenFrom s fuel (p + 1) (if c &&& 0xC0 ≠ 0x80 then n + 1 else n)

def ucsLen (s : CString) : Except Fault Int := ucsLenFrom s (s.bytes.length + 1) 0 0

/-- The loop of `puts_at`, and with a limit that of `puts_clipped`. -/
def putsFrom (s : CString) (maxCols : Option Int) (row : Int) (style : Style) :
    Nat → Nat → Int → Int → ConnGrid → Except Fault ConnGrid
  | 0, _, _, _, _ => .error .noFuel
  | fuel + 1, p, c, used, g => do
    let b ← s.read p
    if b ≠ 0 ∧ maxCols.all (used < ·) then
      let (cp, n) ← utf8Next s p
      putsFrom s maxCols row style fuel (p + n) (c + 1) (used + 1) (setCell g c row cp style)
    else return g

def putsAt (g : ConnGrid) (col row : Int) (s : CString) (style : Style) : Except Fault ConnGrid :=
  putsFrom s none row style (s.bytes.length + 1) 0 col 0 g

def putsClipped (g : ConnGrid) (col row : Int) (s : CString) (maxCols : Int) (style : Style) :
    Except Fault ConnGrid :=
  putsFrom s (some maxCols) row style (s.bytes.length + 1) 0 col 0 g

/-- `col` of `puts_center`. -/
def centerCol (n : Int) : Int :=
  let col := (connCols - n).tdiv 2
  if col < 1 then 1 else col

def putsCenter (g : ConnGrid) (row : Int) (s : CString) (style : Style) : Except Fault ConnGrid := do
  let n ← ucsLen s
  putsAt g (centerCol n) row s style

/-! ### The cells of a drawn text -/

def InGrid (row col : Int) : Prop := 0 ≤ row ∧ row < connRows ∧ 0 ≤ col ∧ col < connCols

instance (row col : Int) : Decidable (InGrid row col) :=
  inferInstanceAs (Decidable (0 ≤ row ∧ row < connRows ∧ 0 ≤ col ∧ col < connCols))

/-- The grid with these code points in a row of it, from a column on. -/
def withText (g : ConnGrid) (col row : Int) (style : Style) (cps : List UInt32) : ConnGrid := fun r c =>
  if r = row ∧ InGrid r c ∧ col ≤ c then
    match cps[(c - col).toNat]? with
    | some cp => styled style cp
    | none => g r c
  else g r c

variable {g : ConnGrid} {col row : Int} {style : Style} {s : CString}

theorem withText_outside {cps : List UInt32} {r c : Int} (outside : ¬ InGrid r c) :
    withText g col row style cps r c = g r c := by
  rw [withText, if_neg fun h => outside h.2.1]

@[simp] theorem withText_nil : withText g col row style [] = g := by
  funext r c
  rw [withText, List.getElem?_nil, ite_self]

theorem setCell_apply {ch : UInt32} (r c : Int) :
    setCell g col row ch style r c = if r = row ∧ InGrid r c ∧ c = col then styled style ch else g r c := by
  unfold setCell InGrid
  split
  case isTrue outside =>
    rw [if_neg]
    rintro ⟨rfl, inside, rfl⟩
    omega
  case isFalse inside =>
    by_cases here : r = row
    · subst here
      rw [Function.update_self]
      by_cases there : c = col
      · subst there
        rw [Function.update_self, if_pos ⟨rfl, by omega, rfl⟩]
      · rw [Function.update_of_ne there, if_neg fun h => there h.2.2]
    · rw [Function.update_of_ne here, if_neg fun h => here h.1]

/-- One character and the rest of the text behind it. -/
theorem withText_setCell (cp : UInt32) (cps : List UInt32) :
    withText (setCell g col row cp style) (col + 1) row style cps = withText g col row style (cp :: cps) := by
  funext r c
  unfold withText
  rw [setCell_apply]
  by_cases inside : r = row ∧ InGrid r c
  · obtain ⟨rfl, inside⟩ := inside
    rcases Int.lt_trichotomy c col with left | rfl | right
    · rw [if_neg fun h => absurd h.2.2 (by omega), if_neg fun h => absurd h.2.2 (by omega),
        if_neg fun h => absurd h.2.2 (by omega)]
    · rw [if_neg fun h => absurd h.2.2 (by omega), if_pos ⟨rfl, inside, rfl⟩, if_pos ⟨rfl, inside, Int.le_refl _⟩,
        Int.sub_self]
      rfl
    · have next : (c - col).toNat = (c - (col + 1)).toNat + 1 := by omega
      rw [if_pos ⟨rfl, inside, by omega⟩, if_neg fun h => absurd h.2.2 (by omega),
        if_pos ⟨rfl, inside, by omega⟩, next, List.getElem?_cons_succ]
  · rw [if_neg fun h => inside ⟨h.1, h.2.1⟩, if_neg fun h => inside ⟨h.1, h.2.1⟩,
      if_neg fun h => inside ⟨h.1, h.2.1⟩]

/-! ### Drawing a text -/

/-- `utf8_next` goes by the lead byte alone. -/
theorem utf8Next_eq {p : Nat} {c : UInt8} (here : s.read p = .ok c) :
    utf8Next s p = match lead c with
      | 2 => s.read (p + 1) >>= fun d => .ok (two c d, 2)
      | 3 => s.read (p + 1) >>= fun d => s.read (p + 2) >>= fun e => .ok (three c d e, 3)
      | _ => .ok (c.toUInt32, 1) := by
  rw [utf8Next, here, ok_bind, lead]
  split
  · rfl
  · split
    · rfl
    · split
      · rfl
      · rfl

theorem utf8Next_char {pre chunk rest : List UInt8} {cp : UInt32} (h : Decodes chunk [cp])
    (whole : s.bytes = pre ++ (chunk ++ rest)) : utf8Next s pre.length = .ok (cp, chunk.length) := by
  cases h with
  | one single last =>
    cases last
    rw [utf8Next_eq (read_at whole), single]
    rfl
  | @two c d _ _ double last =>
    cases last
    have second : s.read (pre.length + 1) = .ok d := read_behind [c] whole
    rw [utf8Next_eq (read_at whole), double]
    change s.read (pre.length + 1) >>= _ = _
    rw [second]
    rfl
  | @three c d e _ _ triple last =>
    cases last
    have second : s.read (pre.length + 1) = .ok d := read_behind [c] whole
    have third : s.read (pre.length + 2) = .ok e := read_behind [c, d] whole
    rw [utf8Next_eq (read_at whole), triple]
    change s.read (pre.length + 1) >>= _ = _
    rw [second, ok_bind, third]
    rfl

variable {maxCols : Option Int}

/-- One pass of the loop. -/
theorem putsFrom_step {p n fuel : Nat} {b : UInt8} {cp : UInt32} (here : s.read p = .ok b) (more : b ≠ 0)
    (next : utf8Next s p = .ok (cp, n)) {used : Int} (free : maxCols.all (used < ·)) (c : Int) (g : ConnGrid) :
    putsFrom s maxCols row style (fuel + 1) p c used g =
      putsFrom s maxCols row style fuel (p + n) (c + 1) (used + 1) (setCell g c row cp style) := by
  rw [putsFrom, here, ok_bind, if_pos ⟨more, free⟩, next]
  rfl

theorem putsFrom_stop {p fuel : Nat} {b : UInt8} (here : s.read p = .ok b) {used : Int}
    (stop : ¬ (b ≠ 0 ∧ maxCols.all (used < ·))) (c : Int) (g : ConnGrid) :
    putsFrom s maxCols row style (fuel + 1) p c used g = .ok g := by
  rw [putsFrom, here, ok_bind, if_neg stop]
  rfl

/-- The characters that a limit lets through, when some columns are used. -/
def clip (maxCols : Option Int) (used : Int) (cps : List UInt32) : List UInt32 :=
  match maxCols with
  | none => cps
  | some m => cps.take (m - used).toNat

theorem clip_cons {used : Int} (free : maxCols.all (used < ·)) (cp : UInt32) (cps : List UInt32) :
    clip maxCols used (cp :: cps) = cp :: clip maxCols (used + 1) cps := by
  cases maxCols with
  | none => rfl
  | some m =>
    have room : used < m := of_decide_eq_true free
    have next : (m - used).toNat = (m - (used + 1)).toNat + 1 := by omega
    rw [clip, next, List.take_succ_cons]
    rfl

theorem clip_full {used : Int} (full : ¬ maxCols.all (used < ·)) (cps : List UInt32) :
    clip maxCols used cps = [] := by
  cases maxCols with
  | none => exact absurd rfl full
  | some m =>
    have spent : ¬ used < m := fun room => full (decide_eq_true room)
    rw [clip, Int.toNat_eq_zero.mpr (by omega), List.take_zero]

theorem byte_of_char {pre chunk rest : List UInt8} {cp : UInt32} (h : Decodes chunk [cp])
    (whole : s.bytes = pre ++ (chunk ++ rest)) : ∃ b, s.read pre.length = .ok b ∧ b ≠ 0 := by
  obtain ⟨b, more, rfl⟩ := List.exists_cons_of_ne_nil h.ne_nil
  refine ⟨b, read_at whole, ?_⟩
  rintro rfl
  exact s.ended (by rw [whole]; exact List.mem_append_right _ List.mem_cons_self)

/-- A text that no character is missing an end of is drawn whole. -/
theorem putsFrom_decodes {mid : List UInt8} {cps : List UInt32} (read : Decodes mid cps) (pre : List UInt8)
    (whole : s.bytes = pre ++ mid) {fuel : Nat} (enough : mid.length < fuel) (c used : Int) (g : ConnGrid) :
    putsFrom s maxCols row style fuel pre.length c used g =
      .ok (withText g c row style (clip maxCols used cps)) := by
  induction mid, cps, read using Decodes.characters generalizing pre fuel c used g with
  | nil =>
    obtain ⟨fuel, rfl⟩ := Nat.exists_eq_add_one_of_ne_zero (Nat.ne_zero_of_lt enough)
    rw [List.append_nil] at whole
    rw [putsFrom_stop (whole ▸ read_end) (fun h => h.1 rfl)]
    cases maxCols with
    | none => rw [clip, withText_nil]
    | some m => rw [clip, List.take_nil, withText_nil]
  | char chunk cp rest cps one _ ih =>
    obtain ⟨fuel, rfl⟩ := Nat.exists_eq_add_one_of_ne_zero (Nat.ne_zero_of_lt enough)
    have long := List.length_pos_of_ne_nil one.ne_nil
    obtain ⟨b, here, more⟩ := byte_of_char one whole
    rw [List.length_append] at enough
    by_cases free : maxCols.all (used < ·)
    · rw [putsFrom_step here more (utf8Next_char one whole) free, clip_cons free, ← withText_setCell,
        ← List.length_append]
      exact ih _ (by rw [whole, List.append_assoc]) (by omega) _ _ _
    · rw [putsFrom_stop here (fun h => free h.2), clip_full free, withText_nil]

theorem putsFrom_past {p fuel : Nat} (h : s.bytes.length < p) (c used : Int) (g : ConnGrid) :
    putsFrom s maxCols row style (fuel + 1) p c used g = .error .pastNul := by
  rw [putsFrom, read_past h]
  rfl

/-- At a character that the text cuts short, the next byte or the next character is read behind the NUL. -/
theorem putsFrom_tail {tail : List UInt8} (cut : Cut tail) {pre : List UInt8} (whole : s.bytes = pre ++ tail)
    {fuel : Nat} (enough : tail.length < fuel) (c used : Int) (g : ConnGrid) :
    putsFrom s none row style fuel pre.length c used g = .error .pastNul := by
  have length : s.bytes.length = pre.length + tail.length := by rw [whole, List.length_append]
  have nul := read_end (s := s)
  have full : ∀ b ∈ tail, b ≠ 0 := by
    rintro b mem rfl
    exact s.ended (whole ▸ List.mem_append_right _ mem)
  rw [length] at nul
  cases cut with
  | @two b double =>
    obtain ⟨fuel, rfl⟩ : ∃ f, fuel = f + 1 + 1 := ⟨fuel - 2, by rw [List.length_singleton] at enough; omega⟩
    rw [List.length_singleton] at nul length
    have here := read_at whole
    have next : utf8Next s pre.length = .ok (two b 0, 2) := by
      rw [utf8Next_eq here, double]
      change s.read (pre.length + 1) >>= _ = _
      rw [nul]
      rfl
    rw [putsFrom_step here (full b List.mem_cons_self) next rfl]
    exact putsFrom_past (by omega) _ _ _
  | @three b triple =>
    obtain ⟨fuel, rfl⟩ : ∃ f, fuel = f + 1 := ⟨fuel - 1, by rw [List.length_singleton] at enough; omega⟩
    rw [List.length_singleton] at nul length
    have here := read_at whole
    have next : utf8Next s pre.length = .error .pastNul := by
      rw [utf8Next_eq here, triple]
      change s.read (pre.length + 1) >>= _ = _
      rw [nul, ok_bind, read_past (by omega)]
      rfl
    rw [putsFrom, here, ok_bind, if_pos ⟨full b List.mem_cons_self, rfl⟩, next]
    rfl
  | @last b d triple =>
    obtain ⟨fuel, rfl⟩ : ∃ f, fuel = f + 1 + 1 :=
      ⟨fuel - 2, by rw [List.length_cons, List.length_singleton] at enough; omega⟩
    rw [List.length_cons, List.length_singleton] at nul length
    have here := read_at whole
    have second : s.read (pre.length + 1) = .ok d := read_behind [b] whole
    have next : utf8Next s pre.length = .ok (three b d 0, 3) := by
      rw [utf8Next_eq here, triple]
      change s.read (pre.length + 1) >>= _ = _
      rw [second, ok_bind, nul]
      rfl
    rw [putsFrom_step here (full b List.mem_cons_self) next rfl]
    exact putsFrom_past (by omega) _ _ _

/-- A text that ends inside of a character is read on behind its NUL. -/
theorem putsFrom_cut {mid tail : List UInt8} {cps : List UInt32} (read : Decodes mid cps) (cut : Cut tail)
    (pre : List UInt8) (whole : s.bytes = pre ++ (mid ++ tail)) {fuel : Nat} (enough : (mid ++ tail).length < fuel)
    (c used : Int) (g : ConnGrid) :
    putsFrom s none row style fuel pre.length c used g = .error .pastNul := by
  induction mid, cps, read using Decodes.characters generalizing pre fuel c used g with
  | nil => exact putsFrom_tail cut whole enough c used g
  | char chunk cp rest cps one _ ih =>
    obtain ⟨fuel, rfl⟩ := Nat.exists_eq_add_one_of_ne_zero (Nat.ne_zero_of_lt enough)
    have long := List.length_pos_of_ne_nil one.ne_nil
    rw [List.append_assoc] at whole
    rw [List.length_append, List.length_append] at enough
    obtain ⟨b, here, more⟩ := byte_of_char one whole
    rw [putsFrom_step here more (utf8Next_char one whole) rfl, ← List.length_append]
    exact ih _ (by rw [whole, List.append_assoc]) (by rw [List.length_append]; omega) _ _ _

/-! ### The text functions -/

/-- The bytes of a string that `ucs_len` counts. -/
def startsChar (c : UInt8) : Bool := c &&& 0xC0 ≠ 0x80

theorem ucsLenFrom_eq (pre : List UInt8) {rest : List UInt8} (whole : s.bytes = pre ++ rest) {fuel : Nat}
    (enough : rest.length < fuel) (n : Int) :
    ucsLenFrom s fuel pre.length n = .ok (n + rest.countP startsChar) := by
  induction rest generalizing pre fuel n with
  | nil =>
    obtain ⟨fuel, rfl⟩ := Nat.exists_eq_add_one_of_ne_zero (Nat.ne_zero_of_lt enough)
    rw [List.append_nil] at whole
    rw [ucsLenFrom, ← whole, read_end]
    exact congrArg Except.ok (Int.add_zero n).symm
  | cons c rest ih =>
    obtain ⟨fuel, rfl⟩ := Nat.exists_eq_add_one_of_ne_zero (Nat.ne_zero_of_lt enough)
    have more : c ≠ 0 := by
      rintro rfl
      exact s.ended (whole ▸ List.mem_append_right _ List.mem_cons_self)
    have later := ih (pre ++ [c]) (by rw [whole, List.append_assoc]; rfl) (Nat.lt_of_succ_lt_succ enough)
    rw [List.length_append, List.length_singleton] at later
    rw [ucsLenFrom, read_at whole, ok_bind, if_neg more, later, List.countP_cons]
    by_cases start : c &&& 0xC0 ≠ 0x80
    · have counted : startsChar c = true := decide_eq_true start
      rw [if_pos start, if_pos counted]
      congr 1
      omega
    · have passed : ¬ startsChar c = true := fun h => start (of_decide_eq_true h)
      rw [if_neg start, if_neg passed, Nat.add_zero]

theorem ucsLen_eq (s : CString) : ucsLen s = .ok (s.bytes.countP startsChar : Int) := by
  rw [ucsLen, ← Int.zero_add (s.bytes.countP startsChar : Int)]
  exact ucsLenFrom_eq [] rfl (Nat.lt_succ_self _) 0

theorem startsChar_iff (c : UInt8) : startsChar c = true ↔ ¬ (128 ≤ c.toNat ∧ c.toNat < 192) := by
  revert c
  exact byte_forall (by decide +kernel)

theorem countP_encode (c : Char) : (String.utf8EncodeChar c).countP startsChar = 1 := by
  have bound := char_lt c
  have code : c.val.toNat = c.toNat := rfl
  have byte (n : Nat) (low : n < 256) : startsChar (UInt8.ofNat n) = true ↔ ¬ (128 ≤ n ∧ n < 192) := by
    rw [startsChar_iff, UInt8.toNat_ofNat_of_lt' low]
  have later (n : Nat) : ¬ startsChar (UInt8.ofNat (n % 0x40 + 0x80)) = true := by
    rw [byte _ (by omega)]
    omega
  unfold String.utf8EncodeChar
  simp only [code]
  split
  · rw [List.countP_cons_of_pos ((byte _ (by omega)).mpr (by omega)), List.countP_nil]
  · split
    · rw [List.countP_cons_of_pos ((byte _ (by omega)).mpr (by omega)), List.countP_cons_of_neg (later _),
        List.countP_nil]
    · split
      · rw [List.countP_cons_of_pos ((byte _ (by omega)).mpr (by omega)), List.countP_cons_of_neg (later _),
          List.countP_cons_of_neg (later _), List.countP_nil]
      · rw [List.countP_cons_of_pos ((byte _ (by omega)).mpr (by omega)), List.countP_cons_of_neg (later _),
          List.countP_cons_of_neg (later _), List.countP_cons_of_neg (later _), List.countP_nil]

/-- `ucs_len` counts the characters of a text. -/
theorem countP_text (text : List Char) : (text.flatMap String.utf8EncodeChar).countP startsChar = text.length := by
  induction text with
  | nil => rfl
  | cons c text ih => rw [List.flatMap_cons, List.countP_append, countP_encode, ih, List.length_cons, Nat.add_comm]

theorem putsAt_ok {cps : List UInt32} (read : Decodes s.bytes cps) (g : ConnGrid) (col row : Int) (style : Style) :
    putsAt g col row s style = .ok (withText g col row style cps) :=
  putsFrom_decodes read [] rfl (Nat.lt_succ_self _) col 0 g

theorem putsClipped_ok {cps : List UInt32} (read : Decodes s.bytes cps) (g : ConnGrid) (col row m : Int)
    (style : Style) :
    putsClipped g col row s m style = .ok (withText g col row style (cps.take m.toNat)) := by
  have clipped : clip (some m) 0 cps = cps.take m.toNat := by rw [clip, Int.sub_zero]
  rw [← clipped]
  exact putsFrom_decodes read [] rfl (Nat.lt_succ_self _) col 0 g

theorem putsCenter_ok {cps : List UInt32} (read : Decodes s.bytes cps) (g : ConnGrid) (row : Int) (style : Style) :
    putsCenter g row s style = .ok (withText g (centerCol (s.bytes.countP startsChar)) row style cps) := by
  rw [putsCenter, ucsLen_eq, ok_bind]
  exact putsAt_ok read g _ row style

theorem putsAt_cut (cut : owed 0 s.bytes ≠ 0) (g : ConnGrid) (col row : Int) (style : Style) :
    putsAt g col row s style = .error .pastNul := by
  obtain ⟨mid, tail, cps, whole, read, ends⟩ := exists_cut cut
  exact putsFrom_cut read ends [] whole (by rw [← whole]; exact Nat.lt_succ_self _) col 0 g

/-- A text is drawn without a look behind its NUL exactly when it owes no byte at its end. -/
theorem putsAt_iff (g : ConnGrid) (col row : Int) (s : CString) (style : Style) :
    (∃ g', putsAt g col row s style = .ok g') ↔ owed 0 s.bytes = 0 := by
  constructor
  · rintro ⟨g', drawn⟩
    by_contra cut
    rw [putsAt_cut cut] at drawn
    cases drawn
  · intro whole
    obtain ⟨cps, read⟩ := exists_decodes whole
    exact ⟨_, putsAt_ok read g col row style⟩

end Meridian.Conn.Grid
