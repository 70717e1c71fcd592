import Mathlib.Data.List.TakeWhile

/-!
# The pieces of a list

A list is cut at its maximal blocks of elements that end a piece. Pieces commute with an encoding of
the elements that keeps ends and other elements apart (`pieces_flatMap`), and together they are the
elements that are no ends (`pieces_flatten`).
-/

namespace Lib.Pieces

variable {α β : Type*} (isEnd : α → Bool)

/-- What is behind the first piece and the block that ends it. -/
def behind (xs : List α) : List α := (xs.dropWhile (!isEnd ·)).dropWhile isEnd

theorem behind_length (x : α) (xs : List α) : (behind isEnd (x :: xs)).length < (x :: xs).length := by
  rw [behind, List.length_cons]
  apply Nat.lt_succ_of_le
  by_cases ends : isEnd x = true
  · rw [List.dropWhile_cons_of_neg (by rw [ends]; exact Bool.false_ne_true),
      List.dropWhile_cons_of_pos ends]
    exact List.length_dropWhile_le _ _
  · rw [List.dropWhile_cons_of_pos (by rw [Bool.not_eq_true] at ends; rw [ends]; rfl)]
    exact (List.length_dropWhile_le _ _).trans (List.length_dropWhile_le _ _)

/-- The pieces between the maximal blocks of ends, in order. What is behind the last block is a piece
unless it is empty. -/
def pieces : List α → List (List α)
  | [] => []
  | x :: xs => (x :: xs).takeWhile (!isEnd ·) :: pieces (behind isEnd (x :: xs))
termination_by xs => xs.length
decreasing_by exact behind_length isEnd x xs

theorem pieces_nil : pieces isEnd [] = [] := by
  rw [pieces]

theorem pieces_of_ne_nil {xs : List α} (some : xs ≠ []) :
    pieces isEnd xs = xs.takeWhile (!isEnd ·) :: pieces isEnd (behind isEnd xs) := by
  cases xs with
  | nil => exact absurd rfl some
  | cons x xs => rw [pieces]

/-! ### All elements -/

theorem filter_dropWhile (xs : List α) : (xs.dropWhile isEnd).filter (!isEnd ·) = xs.filter (!isEnd ·) := by
  induction xs with
  | nil => rfl
  | cons x xs ih =>
    by_cases ends : isEnd x = true
    · rw [List.dropWhile_cons_of_pos ends, List.filter_cons_of_neg (by rw [ends]; exact Bool.false_ne_true)]
      exact ih
    · rw [List.dropWhile_cons_of_neg ends]

theorem filter_takeWhile (xs : List α) :
    (xs.takeWhile (!isEnd ·)).filter (!isEnd ·) = xs.takeWhile (!isEnd ·) :=
  List.filter_eq_self.mpr fun _ mem => List.mem_takeWhile_imp (p := (!isEnd ·)) mem

theorem pieces_flatten (xs : List α) : (pieces isEnd xs).flatten = xs.filter (!isEnd ·) := by
  induction xs using pieces.induct isEnd with
  | case1 => rw [pieces_nil, List.flatten_nil, List.filter_nil]
  | case2 x xs ih =>
    have whole : (x :: xs).filter (!isEnd ·) = (x :: xs).takeWhile (!isEnd ·) ++
        ((x :: xs).dropWhile (!isEnd ·)).filter (!isEnd ·) := by
      rw [← filter_takeWhile isEnd (x :: xs), ← List.filter_append, List.takeWhile_append_dropWhile]
    rw [pieces, List.flatten_cons, ih, behind, filter_dropWhile, whole]

/-! ### Encodings -/

/-- An encoding under which ends are single ends and other elements have no ends in them. -/
structure Separated (encode : α → List β) (isEnd : α → Bool) (isEnd' : β → Bool) : Prop where
  ends : ∀ a, isEnd a = true → ∃ b, encode a = [b] ∧ isEnd' b = true
  inner : ∀ a, isEnd a = false → encode a ≠ [] ∧ ∀ b ∈ encode a, isEnd' b = false

variable {isEnd} {isEnd' : β → Bool} {encode : α → List β}

theorem Separated.takeWhile (h : Separated encode isEnd isEnd') (xs : List α) :
    (xs.flatMap encode).takeWhile (!isEnd' ·) = (xs.takeWhile (!isEnd ·)).flatMap encode := by
  induction xs with
  | nil => rfl
  | cons x xs ih =>
    rw [List.flatMap_cons]
    cases ends : isEnd x with
    | true =>
      obtain ⟨b, single, bEnds⟩ := h.ends x ends
      rw [single, List.singleton_append, List.takeWhile_cons_of_neg (by rw [bEnds]; exact Bool.false_ne_true),
        List.takeWhile_cons_of_neg (by rw [ends]; exact Bool.false_ne_true), List.flatMap_nil]
    | false =>
      have inner : ∀ b ∈ encode x, (!isEnd' b) = true := fun b mem => by rw [(h.inner x ends).2 b mem]; rfl
      rw [List.takeWhile_append_of_pos inner, ih,
        List.takeWhile_cons_of_pos (by rw [ends]; rfl), List.flatMap_cons]

theorem Separated.dropWhile_inner (h : Separated encode isEnd isEnd') (xs : List α) :
    (xs.flatMap encode).dropWhile (!isEnd' ·) = (xs.dropWhile (!isEnd ·)).flatMap encode := by
  induction xs with
  | nil => rfl
  | cons x xs ih =>
    cases ends : isEnd x with
    | true =>
      obtain ⟨b, single, bEnds⟩ := h.ends x ends
      rw [List.dropWhile_cons_of_neg (by rw [ends]; exact Bool.false_ne_true), List.flatMap_cons, single,
        List.singleton_append, List.dropWhile_cons_of_neg (by rw [bEnds]; exact Bool.false_ne_true)]
    | false =>
      have inner : ∀ b ∈ encode x, (!isEnd' b) = true := fun b mem => by rw [(h.inner x ends).2 b mem]; rfl
      rw [List.flatMap_cons, List.dropWhile_append_of_pos inner, ih,
        List.dropWhile_cons_of_pos (by rw [ends]; rfl)]

theorem Separated.dropWhile_ends (h : Separated encode isEnd isEnd') (xs : List α) :
    (xs.flatMap encode).dropWhile isEnd' = (xs.dropWhile isEnd).flatMap encode := by
  induction xs with
  | nil => rfl
  | cons x xs ih =>
    cases ends : isEnd x with
    | true =>
      obtain ⟨b, single, bEnds⟩ := h.ends x ends
      rw [List.dropWhile_cons_of_pos ends, List.flatMap_cons, single, List.singleton_append,
        List.dropWhile_cons_of_pos bEnds, ih]
    | false =>
      obtain ⟨some, inner⟩ := h.inner x ends
      obtain ⟨b, bs, first⟩ := List.exists_cons_of_ne_nil some
      have bInner : ¬ isEnd' b = true := by
        rw [inner b (by rw [first]; exact List.mem_cons_self)]
        exact Bool.false_ne_true
      rw [List.dropWhile_cons_of_neg (by rw [ends]; exact Bool.false_ne_true), List.flatMap_cons, first,
        List.cons_append, List.dropWhile_cons_of_neg bInner]

theorem Separated.behind (h : Separated encode isEnd isEnd') (xs : List α) :
    behind isEnd' (xs.flatMap encode) = (behind isEnd xs).flatMap encode := by
  rw [Pieces.behind, h.dropWhile_inner, h.dropWhile_ends, Pieces.behind]

theorem Separated.flatMap_ne_nil (h : Separated encode isEnd isEnd') (x : α) (xs : List α) :
    (x :: xs).flatMap encode ≠ [] := by
  rw [List.flatMap_cons]
  apply List.append_ne_nil_of_left_ne_nil
  cases ends : isEnd x with
  | true =>
    obtain ⟨b, single, _⟩ := h.ends x ends
    rw [single]
    exact List.cons_ne_nil _ _
  | false => exact (h.inner x ends).1

theorem pieces_flatMap (h : Separated encode isEnd isEnd') (xs : List α) :
    pieces isEnd' (xs.flatMap encode) = (pieces isEnd xs).map (·.flatMap encode) := by
  induction xs using pieces.induct isEnd with
  | case1 => rw [List.flatMap_nil, pieces_nil, pieces_nil, List.map_nil]
  | case2 x xs ih =>
    rw [pieces_of_ne_nil isEnd' (h.flatMap_ne_nil x xs), h.takeWhile, h.behind, ih, pieces, List.map_cons]

/-! ### Lists that are put together from lines -/

/-- What is to be a piece of its own: it is not empty and nothing in it is an end. -/
def IsPiece (isEnd : α → Bool) (line : List α) : Prop := line ≠ [] ∧ ∀ a ∈ line, isEnd a = false

theorem pieces_single {line : List α} (piece : IsPiece isEnd line) : pieces isEnd line = [line] := by
  have inside : ∀ a ∈ line, (!isEnd a) = true := fun a mem => by rw [piece.2 a mem]; rfl
  rw [pieces_of_ne_nil isEnd piece.1, behind, List.takeWhile_eq_self_iff.mpr inside,
    List.dropWhile_eq_nil_iff.mpr inside, List.dropWhile_nil, pieces_nil]

theorem pieces_line {line rest : List α} {x : α} (piece : IsPiece isEnd line) (ends : isEnd x = true)
    (next : ∀ y ∈ rest.head?, isEnd y = false) :
    pieces isEnd (line ++ x :: rest) = line :: pieces isEnd rest := by
  have inside : ∀ a ∈ line, (!isEnd a) = true := fun a mem => by rw [piece.2 a mem]; rfl
  have stops : ¬(!isEnd x) = true := by rw [ends]; exact Bool.false_ne_true
  rw [pieces_of_ne_nil isEnd (List.append_ne_nil_of_left_ne_nil piece.1 _), behind,
    List.takeWhile_append_of_pos inside, List.dropWhile_append_of_pos inside,
    List.takeWhile_cons_of_neg (p := (!isEnd ·)) stops,
    List.dropWhile_cons_of_neg (p := (!isEnd ·)) stops, List.append_nil, List.dropWhile_cons_of_pos ends]
  cases rest with
  | nil => rfl
  | cons y rest => rw [List.dropWhile_cons_of_neg (by rw [next y rfl]; exact Bool.false_ne_true)]

theorem pieces_lines {lines : List (List α)} {tail : List α} {x : α}
    (all : ∀ line ∈ lines, IsPiece isEnd line) (ends : isEnd x = true)
    (next : ∀ y ∈ tail.head?, isEnd y = false) :
    pieces isEnd (lines.flatMap (· ++ [x]) ++ tail) = lines ++ pieces isEnd tail := by
  induction lines with
  | nil => rfl
  | cons line lines ih =>
    have later := fun line mem => all line (List.mem_cons_of_mem _ mem)
    have following : ∀ y ∈ (lines.flatMap (· ++ [x]) ++ tail).head?, isEnd y = false := by
      cases lines with
      | nil => exact next
      | cons second lines =>
        obtain ⟨some, inner⟩ := later second List.mem_cons_self
        obtain ⟨a, second, rfl⟩ := List.exists_cons_of_ne_nil some
        rintro y ⟨⟩
        exact inner a List.mem_cons_self
    have shape : (line :: lines).flatMap (· ++ [x]) ++ tail =
        line ++ x :: (lines.flatMap (· ++ [x]) ++ tail) := by
      rw [List.flatMap_cons, List.append_assoc, List.append_assoc]
      rfl
    rw [shape, pieces_line (all line List.mem_cons_self) ends following, ih later, List.cons_append]

theorem not_end_of_mem_pieces {xs piece : List α} (mem : piece ∈ pieces isEnd xs) {x : α} (inside : x ∈ piece) :
    isEnd x = false := by
  have kept : x ∈ xs.filter (!isEnd ·) := by
    rw [← pieces_flatten]
    exact List.mem_flatten.mpr ⟨piece, mem, inside⟩
  simpa using (List.mem_filter.mp kept).2

end Lib.Pieces
