import Mathlib.Data.List.Basic

/-!
# Reading a list through filters

A cursor hands out the elements of a list one by one: each request passes over the elements that it
does not accept. Requests that all accept the same elements are served the filtered list.
-/

namespace Lib.Cursor

variable {α : Type}

/-- The first accepted element, and what is left behind it. -/
def next (accepts : α → Bool) : List α → Option α × List α
  | [] => (none, [])
  | x :: l => if accepts x then (some x, l) else next accepts l

/-- What a list of requests is answered. -/
def serve : List α → List (α → Bool) → List (Option α)
  | _, [] => []
  | l, accepts :: requests => (next accepts l).1 :: serve (next accepts l).2 requests

/-- What is left behind a list of requests. -/
def rest (l : List α) (requests : List (α → Bool)) : List α :=
  requests.foldl (fun l accepts => (next accepts l).2) l

theorem serve_concat (l : List α) (requests : List (α → Bool)) (accepts : α → Bool) :
    serve l (requests ++ [accepts]) =
      serve l requests ++ [(next accepts (rest l requests)).1] := by
  induction requests generalizing l with
  | nil => rfl
  | cons first requests ih =>
    rw [List.cons_append, serve, ih]
    rfl

theorem rest_concat (l : List α) (requests : List (α → Bool)) (accepts : α → Bool) :
    rest l (requests ++ [accepts]) = (next accepts (rest l requests)).2 := by
  rw [rest, List.foldl_append]
  rfl

theorem filter_next (accepts : α → Bool) (l : List α) :
    l.filter accepts = (next accepts l).1.toList ++ (next accepts l).2.filter accepts := by
  induction l with
  | nil => rfl
  | cons x l ih =>
    rw [next]
    cases accepted : accepts x with
    | true => exact List.filter_cons_of_pos accepted
    | false =>
      rw [List.filter_cons_of_neg (by rw [accepted]; exact Bool.false_ne_true)]
      exact ih

theorem next_exhausted {accepts : α → Bool} {l : List α} (h : (next accepts l).1 = none) :
    (next accepts l).2 = [] := by
  induction l with
  | nil => rfl
  | cons x l ih =>
    rw [next] at h ⊢
    split at h
    · cases h
    · rename_i refused
      rw [if_neg refused]
      exact ih h

theorem next_shorter {accepts : α → Bool} {l : List α} {x : α} (h : (next accepts l).1 = some x) :
    (next accepts l).2.length < l.length := by
  induction l with
  | nil => cases h
  | cons y l ih =>
    rw [next] at h ⊢
    split
    · exact Nat.lt_succ_self _
    · rename_i refused
      rw [if_neg refused] at h
      exact Nat.lt_succ_of_lt (ih h)

/-- A constant filter is served the filtered list, and then nothing. -/
theorem serve_replicate (accepts : α → Bool) (n : Nat) (l : List α) :
    serve l (List.replicate n accepts) =
      ((l.filter accepts).map some ++ List.replicate n none).take n := by
  induction n generalizing l with
  | zero => rfl
  | succ n ih =>
    rw [List.replicate_succ, serve, ih, filter_next accepts l]
    cases found : (next accepts l).1 with
    | some x =>
      have enough : n ≤ (((next accepts l).2.filter accepts).map some ++
          List.replicate n (none : Option α)).length := by
        rw [List.length_append, List.length_replicate]
        exact Nat.le_add_left ..
      rw [Option.toList_some, List.singleton_append, List.map_cons, List.cons_append,
        List.take_succ_cons, List.replicate_succ', ← List.append_assoc,
        List.take_append_of_le_length enough]
    | none =>
      rw [next_exhausted found]
      rfl

end Lib.Cursor
