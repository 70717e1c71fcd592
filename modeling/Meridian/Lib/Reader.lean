import Meridian.Lib.Result
import Mathlib.Data.List.Basic

/-!
# Readers over a buffer

A reader moves a cursor over a buffer of bytes. It may refuse what it finds, and stops when it would
read outside the buffer. A reader is exact for an encoding when it never stops, returns only what the
bytes encode, and returns everything that they encode.
-/

namespace Lib.Reader

open Lib.Result

/-- A position in the buffer, and how many bytes the reader takes to be left from there. -/
structure Cursor where
  cur : Nat
  remaining : Nat
  deriving DecidableEq, Repr

inductive Stop where
  | outOfBounds
  | refused
  deriving DecidableEq, Repr

abbrev Read := StateT Cursor (Except Stop)

def refuse {α : Type} : Read α := fun _ => .error .refused

/-- The bytes of a part of the buffer. -/
def slice (buf : List UInt8) (pos n : Nat) : Except Stop (List UInt8) :=
  if pos + n ≤ buf.length then .ok ((buf.drop pos).take n) else .error .outOfBounds

variable {α β γ : Type} {buf : List UInt8} {p : Read α} {f : α → Read β} {c c' : Cursor}

theorem read_bind_ok {b : β} :
    (p >>= f) c = .ok (b, c') ↔ ∃ a c₁, p c = .ok (a, c₁) ∧ f a c₁ = .ok (b, c') := by
  show (p c >>= fun r => f r.1 r.2) = _ ↔ _
  rw [bind_eq_ok]
  exact Prod.exists

theorem bind_safe (first : p c ≠ .error .outOfBounds)
    (rest : ∀ a c₁, p c = .ok (a, c₁) → f a c₁ ≠ .error .outOfBounds) :
    (p >>= f) c ≠ .error .outOfBounds := by
  intro stop
  cases run : p c with
  | error reason =>
    have stopped : (p >>= f) c = .error reason := by
      show (p c >>= fun r => f r.1 r.2) = _
      rw [run]
      rfl
    cases stop.symm.trans stopped
    exact first run
  | ok result =>
    have continued : (p >>= f) c = f result.1 result.2 := by
      show (p c >>= fun r => f r.1 r.2) = _
      rw [run]
      rfl
    exact rest result.1 result.2 run (continued.symm.trans stop)

/-- The cursor's count of bytes is right. -/
def Cursor.Within (c : Cursor) (buf : List UInt8) : Prop := c.cur + c.remaining = buf.length

def Cursor.rest (c : Cursor) (buf : List UInt8) : List UInt8 := buf.drop c.cur

theorem Cursor.Within.length_rest (h : c.Within buf) : (c.rest buf).length = c.remaining := by
  unfold Cursor.Within at h
  rw [Cursor.rest, List.length_drop]
  omega

/-- The reader returns exactly the valid values that satisfy `given` and that the bytes encode. In an
environment that is not `live` it may refuse them. -/
structure Exact (buf : List UInt8) (live : Prop) (p : Read α) (encode : α → List UInt8)
    (valid given : α → Prop) : Prop where
  safe : ∀ c, c.Within buf → p c ≠ .error .outOfBounds
  sound : ∀ c a c', c.Within buf → p c = .ok (a, c') →
    c'.Within buf ∧ given a ∧ valid a ∧ c.rest buf = encode a ++ c'.rest buf
  complete : live → ∀ c a tail, c.Within buf → given a → valid a → c.rest buf = encode a ++ tail →
    ∃ c', p c = .ok (a, c') ∧ c'.Within buf ∧ c'.rest buf = tail

section Rules

variable {live : Prop} {encode : α → List UInt8} {valid given : α → Prop}

theorem Exact.congr (h : Exact buf live p encode valid given) {encode' : α → List UInt8}
    {valid' given' : α → Prop} (sameEncode : ∀ a, encode a = encode' a)
    (sameValid : ∀ a, valid a ↔ valid' a) (sameGiven : ∀ a, given a ↔ given' a) :
    Exact buf live p encode' valid' given' := by
  obtain rfl : encode = encode' := funext sameEncode
  obtain rfl : valid = valid' := funext fun a => propext (sameValid a)
  obtain rfl : given = given' := funext fun a => propext (sameGiven a)
  exact h

/-- Bytes encode one value at most, whatever follows it. -/
theorem Exact.unique (h : Exact buf live p encode valid given) (alive : live) {c : Cursor}
    (within : c.Within buf) {a a' : α} {tail tail' : List UInt8} (holds : given a) (valid₁ : valid a)
    (holds' : given a') (valid₂ : valid a') (bytes : c.rest buf = encode a ++ tail)
    (bytes' : c.rest buf = encode a' ++ tail') : a = a' := by
  obtain ⟨c₁, run₁, _⟩ := h.complete alive c a tail within holds valid₁ bytes
  obtain ⟨c₂, run₂, _⟩ := h.complete alive c a' tail' within holds' valid₂ bytes'
  exact (Prod.mk.inj (Except.ok.inj (run₁.symm.trans run₂))).1

/-- A reader that reads nothing. -/
theorem Exact.pure {a : α} (h : ∀ b, given b ↔ b = a) :
    Exact buf live (pure a) (fun _ => []) (fun _ => True) given where
  safe c _ stop := by cases stop
  sound := by
    intro c b c' within run
    cases run
    exact ⟨within, (h a).mpr rfl, trivial, rfl⟩
  complete := by
    intro _ c b tail within holds _ rest
    obtain rfl := (h b).mp holds
    exact ⟨c, rfl, within, rest⟩

/-- One reader after another: the first part of the value, then the rest of it. -/
theorem Exact.bind (given : β → Prop) {encodeRest : β → List UInt8} {validRest : β → Prop}
    (part : β → α) (first : Exact buf live p encode valid fun _ => True)
    (rest : ∀ a, valid a → Exact buf live (f a) encodeRest validRest fun b => given b ∧ part b = a) :
    Exact buf live (p >>= f) (fun b => encode (part b) ++ encodeRest b)
      (fun b => valid (part b) ∧ validRest b) given where
  safe := by
    intro c within
    apply bind_safe (first.safe c within)
    intro a c₁ run
    obtain ⟨within₁, _, valid₁, _⟩ := first.sound c a c₁ within run
    exact (rest a valid₁).safe c₁ within₁
  sound := by
    intro c b c' within run
    obtain ⟨a, c₁, run₁, run₂⟩ := read_bind_ok.mp run
    obtain ⟨within₁, _, valid₁, rest₁⟩ := first.sound c a c₁ within run₁
    obtain ⟨within', ⟨holds, rfl⟩, valid₂, rest₂⟩ := (rest a valid₁).sound c₁ b c' within₁ run₂
    refine ⟨within', holds, ⟨valid₁, valid₂⟩, ?_⟩
    rw [rest₁, rest₂, List.append_assoc]
  complete := by
    intro alive c b tail within holds both bytes
    rw [List.append_assoc] at bytes
    obtain ⟨c₁, run₁, within₁, rest₁⟩ :=
      first.complete alive c (part b) _ within trivial both.1 bytes
    obtain ⟨c', run₂, within', rest₂⟩ :=
      (rest (part b) both.1).complete alive c₁ b tail within₁ ⟨holds, rfl⟩ both.2 rest₁
    exact ⟨c', read_bind_ok.mpr ⟨part b, c₁, run₁, run₂⟩, within', rest₂⟩

/-- A fixed number of values. -/
def readMany (p : Read α) : Nat → Read (List α)
  | 0 => pure []
  | n + 1 => do
    let a ← p
    let rest ← readMany p n
    pure (a :: rest)

theorem readMany_exact (h : Exact buf live p encode valid fun _ => True) (n : Nat) :
    Exact buf live (readMany p n) (fun as => as.flatMap encode) (fun as => ∀ a ∈ as, valid a)
      fun as => as.length = n := by
  induction n with
  | zero =>
    refine ⟨fun c _ stop => (by cases stop), ?_, ?_⟩
    · intro c as c' within run
      cases run
      exact ⟨within, rfl, fun a mem => absurd mem List.not_mem_nil, rfl⟩
    · intro _ c as tail within length _ bytes
      obtain rfl := List.length_eq_zero_iff.mp length
      exact ⟨c, rfl, within, bytes⟩
  | succ n ih =>
    refine ⟨?_, ?_, ?_⟩
    · intro c within
      apply bind_safe (h.safe c within)
      intro a c₁ run
      obtain ⟨within₁, _⟩ := h.sound c a c₁ within run
      apply bind_safe (ih.safe c₁ within₁)
      intro as c₂ _ stop
      cases stop
    · intro c as c' within run
      obtain ⟨a, c₁, run₁, run⟩ := read_bind_ok.mp run
      obtain ⟨as', c₂, run₂, run₃⟩ := read_bind_ok.mp run
      cases run₃
      obtain ⟨within₁, _, valid₁, bytes₁⟩ := h.sound c a c₁ within run₁
      obtain ⟨within₂, length, valid₂, bytes₂⟩ := ih.sound c₁ as' c' within₁ run₂
      refine ⟨within₂, by rw [List.length_cons, length], List.forall_mem_cons.mpr ⟨valid₁, valid₂⟩, ?_⟩
      rw [bytes₁, bytes₂, List.flatMap_cons, List.append_assoc]
    · intro alive c as tail within length valids bytes
      obtain ⟨a, as', rfl⟩ := List.exists_cons_of_length_eq_add_one length
      obtain ⟨valid₁, valid₂⟩ := List.forall_mem_cons.mp valids
      rw [List.flatMap_cons, List.append_assoc] at bytes
      obtain ⟨c₁, run₁, within₁, rest₁⟩ := h.complete alive c a _ within trivial valid₁ bytes
      obtain ⟨c', run₂, within', rest₂⟩ :=
        ih.complete alive c₁ as' tail within₁ (Nat.succ.inj length) valid₂ rest₁
      exact ⟨c', read_bind_ok.mpr ⟨a, c₁, run₁, read_bind_ok.mpr ⟨as', c', run₂, rfl⟩⟩, within', rest₂⟩

end Rules

end Lib.Reader
