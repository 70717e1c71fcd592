import Meridian.Config.ReadLine
import Meridian.Lib.Pieces

/-!
# The lines of a file

Repeated calls of `ReadLine` give the pieces of the buffer's units (`linesFrom_pieces`), unless the
last unit is cut off by the end of the buffer (`linesFrom_fault`).
-/

namespace Meridian.Config

open Lib.Pieces

variable {α : Type} {unit : Nat → Option α} {width stop p fuel : Nat} {xs ys : List α}

/-! ### Units at their positions -/

/-- The units from a position on. -/
def Stores (unit : Nat → Option α) (width : Nat) : Nat → List α → Prop
  | _, [] => True
  | p, x :: xs => unit p = some x ∧ Stores unit width (p + width) xs

theorem stores_append :
    Stores unit width p (xs ++ ys) ↔ Stores unit width p xs ∧ Stores unit width (p + xs.length * width) ys := by
  induction xs generalizing p with
  | nil => simp [Stores]
  | cons x xs ih =>
    have places : p + width + xs.length * width = p + (x :: xs).length * width := by
      rw [List.length_cons, Nat.succ_mul]
      omega
    rw [List.cons_append, Stores, Stores, ih, and_assoc, places]

/-- Units that are not looked for are passed. -/
theorem scan_skip {found : α → Bool} (stores : Stores unit width p xs) (other : ∀ x ∈ xs, found x = false)
    (within : p + xs.length * width ≤ stop) (positive : 0 < width) :
    scan unit width stop found (xs.length + fuel) p =
      scan unit width stop found fuel (p + xs.length * width) := by
  induction xs generalizing p with
  | nil => simp
  | cons x xs ih =>
    have places : p + (x :: xs).length * width = p + width + xs.length * width := by
      rw [List.length_cons, Nat.succ_mul]
      omega
    have calls : (x :: xs).length + fuel = xs.length + fuel + 1 := by
      rw [List.length_cons]
      omega
    rw [places] at within ⊢
    rw [calls, scan, if_pos (by omega), stores.1]
    dsimp only
    rw [other x List.mem_cons_self, if_neg Bool.false_ne_true]
    exact ih stores.2 (fun y mem => other y (List.mem_cons_of_mem _ mem)) within

theorem scan_limit {found : α → Bool} (limit : stop ≤ p) : scan unit width stop found fuel p = some p := by
  cases fuel with
  | zero => rfl
  | succ fuel => rw [scan, if_neg (Nat.not_lt.mpr limit)]

theorem scan_found {found : α → Bool} {c : α} (here : unit p = some c) (hit : found c = true) :
    scan unit width stop found fuel p = some p := by
  cases fuel with
  | zero => rfl
  | succ fuel =>
    rw [scan]
    split
    · rw [here]
      dsimp only
      rw [if_pos hit]
    · rfl

theorem scan_fault {found : α → Bool} (below : p < stop) (outside : unit p = none) :
    scan unit width stop found (fuel + 1) p = none := by
  rw [scan, if_pos below, outside]

/-- The scan of units of which one is found, or that end at the limit. -/
theorem scan_units {found : α → Bool} (stores : Stores unit width p xs) (positive : 0 < width)
    (within : p + xs.length * width ≤ stop)
    (ends : xs.dropWhile (!found ·) = [] → stop = p + xs.length * width) :
    scan unit width stop found (stop - p) p =
      some (p + (xs.takeWhile (!found ·)).length * width) := by
  have whole := List.takeWhile_append_dropWhile (p := (!found ·)) (l := xs)
  generalize first : xs.takeWhile (!found ·) = skipped at whole
  generalize second : xs.dropWhile (!found ·) = later at whole ends
  rw [← whole, stores_append] at stores
  have other : ∀ x ∈ skipped, found x = false := by
    intro x mem
    rw [← first] at mem
    have passed := List.mem_takeWhile_imp (p := (!found ·)) mem
    simpa using passed
  have lengths : xs.length = skipped.length + later.length := by rw [← whole, List.length_append]
  have product : skipped.length ≤ skipped.length * width := Nat.le_mul_of_pos_right _ positive
  have sum : xs.length * width = skipped.length * width + later.length * width := by
    rw [lengths, Nat.add_mul]
  have fuel : stop - p = skipped.length + (stop - p - skipped.length) := by omega
  rw [fuel, scan_skip stores.1 other (by omega) positive]
  cases later with
  | nil =>
    have limit := ends rfl
    rw [List.length_nil, Nat.zero_mul] at sum
    exact scan_limit (by omega)
  | cons c later =>
    have hit : found c = true := by
      have stops := List.dropWhile_get_zero_not (p := (!found ·)) xs
      rw [second] at stops
      simpa using stops (by simp)
    exact scan_found stores.2.1 hit

theorem copyLine_units {lineEnd : Nat} (stores : Stores unit width p xs) (positive : 0 < width)
    (ends : lineEnd = p + xs.length * width) (enough : xs.length ≤ fuel) :
    copyLine unit width lineEnd fuel p = some xs := by
  induction xs generalizing p fuel with
  | nil =>
    rw [List.length_nil, Nat.zero_mul, Nat.add_zero] at ends
    cases fuel with
    | zero => rfl
    | succ fuel => rw [copyLine, if_neg (by omega)]
  | cons x xs ih =>
    rw [List.length_cons] at enough
    have product : (x :: xs).length * width = width + xs.length * width := by
      rw [List.length_cons, Nat.succ_mul]
      omega
    cases fuel with
    | zero => omega
    | succ fuel =>
      rw [copyLine, if_pos (by omega), stores.1]
      dsimp only
      rw [ih stores.2 (by omega) (by omega)]
      rfl

/-! ### Lines of units -/

variable {isLineEnd : α → Bool}

/-- The first line, and the position of the units behind it. -/
theorem lineFrom_units (stores : Stores unit width p xs) (positive : 0 < width)
    (within : p + xs.length * width ≤ stop) (present : xs ≠ [])
    (first : xs.dropWhile (!isLineEnd ·) = [] → stop = p + xs.length * width)
    (second : behind isLineEnd xs = [] → stop = p + xs.length * width) :
    ∃ next, lineFrom unit width stop isLineEnd p = some (some (xs.takeWhile (!isLineEnd ·), next)) ∧
      Stores unit width next (behind isLineEnd xs) ∧
      next + (behind isLineEnd xs).length * width = p + xs.length * width := by
  have scanned := @scan_units _ _ _ _ _ _ isLineEnd stores positive within first
  have whole := List.takeWhile_append_dropWhile (p := (!isLineEnd ·)) (l := xs)
  have blocks := List.takeWhile_append_dropWhile (p := isLineEnd) (l := xs.dropWhile (!isLineEnd ·))
  have length : 0 < xs.length := List.length_pos_iff.mpr present
  have product : xs.length ≤ xs.length * width := Nat.le_mul_of_pos_right _ positive
  unfold behind at second ⊢
  generalize xs.takeWhile (!isLineEnd ·) = line at scanned whole ⊢
  generalize xs.dropWhile (!isLineEnd ·) = later at whole blocks first second ⊢
  rw [← whole, stores_append] at stores
  have total : xs.length * width = line.length * width + later.length * width := by
    rw [← whole, List.length_append, Nat.add_mul]
  have skipped := @scan_units _ _ _ stop _ _ (!isLineEnd ·) stores.2 positive (by omega) (by
    simp only [Bool.not_not]
    intro nothing
    have ends := second nothing
    omega)
  simp only [Bool.not_not] at skipped
  have held := stores.2
  rw [← blocks, stores_append] at held
  have rest : later.length * width =
      (later.takeWhile isLineEnd).length * width + (later.dropWhile isLineEnd).length * width := by
    rw [← Nat.add_mul, ← List.length_append, blocks]
  have copied : copyLine unit width (p + line.length * width) (p + line.length * width - p) p = some line := by
    apply copyLine_units stores.1 positive rfl
    rw [Nat.add_sub_cancel_left]
    exact Nat.le_mul_of_pos_right _ positive
  refine ⟨_, ?_, held.2, by omega⟩
  rw [lineFrom, if_neg (by omega), scanned]
  dsimp only
  rw [skipped]
  dsimp only
  rw [copied]
  rfl

/-- The lines of the units, by repeated calls. -/
def linesFrom (unit : Nat → Option α) (width stop : Nat) (isLineEnd : α → Bool) : Nat → Nat →
    Option (List (List α))
  | 0, _ => none
  | calls + 1, p =>
    match lineFrom unit width stop isLineEnd p with
    | none => none
    | some none => some []
    | some (some (line, next)) => (linesFrom unit width stop isLineEnd calls next).map (line :: ·)

theorem linesFrom_pieces {calls : Nat} (stores : Stores unit width p xs) (positive : 0 < width)
    (ends : stop = p + xs.length * width) (enough : xs.length < calls) :
    linesFrom unit width stop isLineEnd calls p = some (pieces isLineEnd xs) := by
  induction xs using pieces.induct isLineEnd generalizing p calls with
  | case1 =>
    obtain ⟨calls, rfl⟩ := Nat.exists_eq_succ_of_ne_zero (Nat.ne_of_gt enough)
    rw [List.length_nil, Nat.zero_mul] at ends
    rw [linesFrom, lineFrom, if_pos (by omega), pieces_nil]
  | case2 x xs ih =>
    obtain ⟨calls, rfl⟩ := Nat.exists_eq_succ_of_ne_zero (Nat.ne_of_gt (Nat.zero_lt_of_lt enough))
    obtain ⟨next, line, later, places⟩ := @lineFrom_units _ _ _ _ _ _ isLineEnd stores positive
      (Nat.le_of_eq ends.symm) (List.cons_ne_nil _ _) (fun _ => ends) (fun _ => ends)
    have shorter := behind_length isLineEnd x xs
    rw [linesFrom, line, pieces]
    dsimp only
    rw [ih later (by omega) (by omega)]
    rfl

theorem stores_dropWhile (stores : Stores unit width p xs) (passed : α → Bool) :
    Stores unit width (p + (xs.takeWhile passed).length * width) (xs.dropWhile passed) := by
  rw [← List.takeWhile_append_dropWhile (p := passed) (l := xs), stores_append] at stores
  exact stores.2

/-- A scan that does not find its unit before the cut. -/
theorem scan_cut {found : α → Bool} (stores : Stores unit width p xs) (positive : 0 < width)
    (outside : unit (p + xs.length * width) = none) (below : p + xs.length * width < stop)
    (nothing : xs.dropWhile (!found ·) = []) : scan unit width stop found (stop - p) p = none := by
  have other : ∀ x ∈ xs, found x = false := by
    intro x mem
    have passed := List.dropWhile_eq_nil_iff.mp nothing x mem
    simpa using passed
  have product : xs.length ≤ xs.length * width := Nat.le_mul_of_pos_right _ positive
  have fuel : stop - p = xs.length + (stop - p - xs.length - 1 + 1) := by omega
  rw [fuel, scan_skip stores other (Nat.le_of_lt below) positive, scan_fault below outside]

/-- If a unit is cut off by the end of the buffer, no number of calls gets through. -/
theorem linesFrom_fault (stores : Stores unit width p xs) (positive : 0 < width)
    (outside : unit (p + xs.length * width) = none) (below : p + xs.length * width < stop) (calls : Nat) :
    linesFrom unit width stop isLineEnd calls p = none := by
  induction calls generalizing p xs with
  | zero => rfl
  | succ calls ih =>
    rw [linesFrom]
    by_cases first : xs.dropWhile (!isLineEnd ·) = []
    · rw [lineFrom, if_neg (by omega), scan_cut stores positive outside below first]
    · by_cases second : behind isLineEnd xs = []
      · have scanned := @scan_units _ _ _ _ _ _ isLineEnd stores positive (Nat.le_of_lt below)
          (fun nothing => absurd nothing first)
        have later := stores_dropWhile stores (!isLineEnd ·)
        have total : xs.length * width = (xs.takeWhile (!isLineEnd ·)).length * width +
            (xs.dropWhile (!isLineEnd ·)).length * width := by
          rw [← Nat.add_mul, ← List.length_append, List.takeWhile_append_dropWhile]
        rw [total, ← Nat.add_assoc] at outside below
        have cut := @scan_cut _ _ _ _ _ _ (!isLineEnd ·) later positive outside below (by
          simp only [Bool.not_not]
          exact second)
        rw [lineFrom, if_neg (by omega), scanned]
        dsimp only
        rw [cut]
      · have present : xs ≠ [] := fun nothing => first (by rw [nothing]; rfl)
        obtain ⟨next, line, later, places⟩ := @lineFrom_units _ _ _ _ _ _ isLineEnd stores positive
          (Nat.le_of_lt below) present (fun nothing => absurd nothing first) (fun nothing => absurd nothing second)
        rw [line]
        dsimp only
        rw [ih later (by rw [places]; exact outside) (by rw [places]; exact below)]
        rfl

/-! ### Files -/

/-- The bytes of a character of two bytes. -/
def le16 (c : Char16) : List UInt8 := [UInt8.ofNat c.toNat, UInt8.ofNat (c.toNat / 256)]

/-- The whole characters of two bytes in the bytes. -/
def units16 : List UInt8 → List Char16
  | low :: high :: bytes => UInt16.ofNat (low.toNat + 256 * high.toNat) :: units16 bytes
  | _ => []

theorem units16_length : ∀ bytes, (units16 bytes).length = bytes.length / 2
  | [] => rfl
  | [_] => by simp [units16]
  | low :: high :: bytes => by
    rw [units16, List.length_cons, units16_length bytes, List.length_cons, List.length_cons]
    omega

theorem units16_le16 (chars : List Char16) : units16 (chars.flatMap le16) = chars := by
  induction chars with
  | nil => rfl
  | cons c chars ih =>
    have bound := c.toNat_lt
    have low : (UInt8.ofNat c.toNat).toNat = c.toNat % 256 := UInt8.toNat_ofNat'
    have high : (UInt8.ofNat (c.toNat / 256)).toNat = c.toNat / 256 := by
      rw [UInt8.toNat_ofNat', Nat.mod_eq_of_lt (by omega)]
    have whole : c.toNat % 256 + 256 * (c.toNat / 256) = c.toNat := by omega
    rw [List.flatMap_cons, le16, List.cons_append, List.singleton_append, units16, low, high, whole, ih,
      UInt16.ofNat_toNat]

theorem stores_read08 (before bytes : List UInt8) :
    Stores (read08 (before ++ bytes)) 1 before.length bytes := by
  induction bytes generalizing before with
  | nil => trivial
  | cons byte bytes ih =>
    have later := ih (before ++ [byte])
    rw [List.append_assoc, List.singleton_append, List.length_append, List.length_singleton] at later
    refine ⟨?_, later⟩
    rw [read08, List.getElem?_append_right (Nat.le_refl _), Nat.sub_self, List.getElem?_cons_zero]

theorem stores_read16 : ∀ before bytes,
    Stores (read16 (before ++ bytes)) 2 before.length (units16 bytes)
  | _, [] => trivial
  | _, [_] => trivial
  | before, low :: high :: bytes => by
    have later := stores_read16 (before ++ [low, high]) bytes
    rw [List.append_assoc, List.length_append] at later
    refine ⟨?_, later⟩
    have first : (before ++ low :: high :: bytes)[before.length]? = some low := by
      rw [List.getElem?_append_right (Nat.le_refl _), Nat.sub_self, List.getElem?_cons_zero]
    have second : (before ++ low :: high :: bytes)[before.length + 1]? = some high := by
      rw [List.getElem?_append_right (Nat.le_succ _), Nat.succ_sub (Nat.le_refl _), Nat.sub_self,
        List.getElem?_cons_succ, List.getElem?_cons_zero]
    rw [read16, first, second]

/-- All lines of a file with these bytes. -/
def fileLines (signed : Bool) (data : List UInt8) : Option (List (List Char16)) :=
  readLines signed (data.length + 1) (meridianReadFile data)

theorem readLines_utf16 (signed : Bool) {data : List UInt8} {file : MeridianFile}
    (loaded : file.bufferData = some data) (wide : file.encoding = .utf16LE) (calls : Nat) :
    readLines signed calls file = linesFrom (read16 data) 2 file.end16 isLineEnd16 calls file.current16 := by
  induction calls generalizing file with
  | zero => rfl
  | succ calls ih =>
    rw [readLines, linesFrom, MeridianFile.readLine, loaded, wide]
    dsimp only
    cases lineFrom (read16 data) 2 file.end16 isLineEnd16 file.current16 with
    | none => rfl
    | some found =>
      cases found with
      | none => rfl
      | some found =>
        obtain ⟨line, next⟩ := found
        dsimp only [Option.map_some]
        rw [@ih ⟨some data, .utf16LE, file.current08, file.end08, next, file.end16⟩ rfl rfl]

theorem readLines_utf08 (signed : Bool) {data : List UInt8} {file : MeridianFile}
    (loaded : file.bufferData = some data) (narrow : file.encoding = .utf8) (calls : Nat) :
    readLines signed calls file =
      (linesFrom (read08 data) 1 file.end08 isLineEnd08 calls file.current08).map
        (·.map (·.map (widen signed))) := by
  induction calls generalizing file with
  | zero => rfl
  | succ calls ih =>
    rw [readLines, linesFrom, MeridianFile.readLine, loaded, narrow]
    dsimp only
    cases lineFrom (read08 data) 1 file.end08 isLineEnd08 file.current08 with
    | none => rfl
    | some found =>
      cases found with
      | none => rfl
      | some found =>
        obtain ⟨line, next⟩ := found
        dsimp only [Option.map_some]
        rw [@ih ⟨some data, .utf8, next, file.end08, file.current16, file.end16⟩ rfl rfl,
          Option.map_map, Option.map_map]
        rfl

/-- The mark of a UTF-16 file. -/
def startsUtf16 (data : List UInt8) : Bool := data.take 2 == [0xFF, 0xFE]

theorem startsUtf16_eq {data : List UInt8} (marked : startsUtf16 data = true) :
    ∃ bytes, data = 0xFF :: 0xFE :: bytes := by
  have start : data.take 2 = [0xFF, 0xFE] := eq_of_beq marked
  refine ⟨data.drop 2, ?_⟩
  rw [← List.take_append_drop 2 data, start]
  rfl

theorem fileLines_utf16 (signed : Bool) (bytes : List UInt8) :
    fileLines signed (0xFF :: 0xFE :: bytes) =
      linesFrom (read16 (0xFF :: 0xFE :: bytes)) 2 (bytes.length + 2) isLineEnd16 (bytes.length + 3) 2 := by
  have file : meridianReadFile (0xFF :: 0xFE :: bytes) =
      { bufferData := some (0xFF :: 0xFE :: bytes)
        encoding := .utf16LE
        current08 := 0
        end08 := bytes.length + 2
        current16 := 2
        end16 := bytes.length + 2 } := rfl
  rw [fileLines, file, readLines_utf16 signed rfl rfl]
  rfl

theorem fileLines_even (signed : Bool) {bytes : List UInt8} (even : bytes.length % 2 = 0) :
    fileLines signed (0xFF :: 0xFE :: bytes) = some (pieces isLineEnd16 (units16 bytes)) := by
  have length := units16_length bytes
  rw [fileLines_utf16]
  exact linesFrom_pieces (stores_read16 [0xFF, 0xFE] bytes) (by decide)
    (by omega) (by omega)

theorem read16_cut {data : List UInt8} (outside : data[p + 1]? = none) : read16 data p = none := by
  rw [read16, outside]
  cases data[p]? with
  | none => rfl
  | some low => rfl

theorem fileLines_odd (signed : Bool) {bytes : List UInt8} (odd : bytes.length % 2 = 1) :
    fileLines signed (0xFF :: 0xFE :: bytes) = none := by
  have length := units16_length bytes
  rw [fileLines_utf16]
  have last : 2 + (units16 bytes).length * 2 = bytes.length + 1 := by omega
  refine linesFrom_fault (stores_read16 [0xFF, 0xFE] bytes) (by decide) ?_ ?_ _
  · have outside : (0xFF :: 0xFE :: bytes)[bytes.length + 1 + 1]? = none := by
      apply List.getElem?_eq_none
      rw [List.length_cons, List.length_cons]
    rw [List.length_cons, List.length_singleton, last]
    exact read16_cut outside
  · rw [List.length_cons, List.length_singleton, last]
    exact Nat.lt_succ_self _

theorem fileLines_unmarked (signed : Bool) {data : List UInt8} (plain : startsUtf16 data = false) :
    fileLines signed data = some ((pieces isLineEnd08 data).map (·.map (widen signed))) := by
  have unmarked : ¬ (data[0]? = some 0xFF ∧ data[1]? = some 0xFE) := by
    rintro ⟨first, second⟩
    rw [Bool.eq_false_iff] at plain
    apply plain
    match data, first, second with
    | [_], _, missing => cases missing
    | a :: b :: rest, first, second =>
      rw [Option.some.inj first, Option.some.inj second]
      rfl
  have file : meridianReadFile data =
      { bufferData := some data
        encoding := .utf8
        current08 := 0
        end08 := data.length
        current16 := 0
        end16 := data.length / 2 } := if_neg unmarked
  have lines : linesFrom (read08 data) 1 data.length isLineEnd08 (data.length + 1) 0 =
      some (pieces isLineEnd08 data) :=
    linesFrom_pieces (stores_read08 [] data) Nat.one_pos (by omega) (Nat.lt_succ_self _)
  rw [fileLines, file, readLines_utf08 signed rfl rfl, lines]
  rfl

end Meridian.Config
