import Mathlib.Data.List.Chain
import Mathlib.Data.List.Flatten
import Mathlib.Data.List.Pairwise
import Mathlib.Data.Set.Basic
import Mathlib.Order.Disjoint
import Mathlib.Order.BooleanAlgebra.Set
import Mathlib.Data.Set.BooleanAlgebra
import Mathlib.Order.CompletePartialOrder

/-!
# Coalescing labelled spans

Spans of addresses with a label are appended to a list one after another; a span that continues
the last one with the same label extends it in place. `Coalesced` relates the list to the spans
pushed so far: each element joins a run of consecutive ones, and no two neighbours could have
been joined.
-/

namespace Lib.Coalesce

variable {τ : Type*}

structure Span (τ : Type*) where
  base : Nat
  length : Nat
  label : τ

namespace Span

def bytes (s : Span τ) : Set Nat := {a | s.base ≤ a ∧ a < s.base + s.length}

@[simp] theorem mem_bytes {s : Span τ} {a : Nat} :
    a ∈ s.bytes ↔ s.base ≤ a ∧ a < s.base + s.length := Iff.rfl

/-- `t` goes on where `s` ends, with the same label. -/
def Continues (s t : Span τ) : Prop := s.label = t.label ∧ s.base + s.length = t.base

instance [DecidableEq τ] (s t : Span τ) : Decidable (s.Continues t) :=
  inferInstanceAs (Decidable (_ ∧ _))

def extend (s : Span τ) (length : Nat) : Span τ := { s with length := s.length + length }

theorem bytes_extend {s t : Span τ} (h : s.Continues t) :
    (s.extend t.length).bytes = s.bytes ∪ t.bytes := by
  ext a
  obtain ⟨_, meet⟩ := h
  simp only [extend, mem_bytes, Set.mem_union]
  omega

end Span

/-- Append the span, or extend the last one by it. -/
def push [DecidableEq τ] (spans : List (Span τ)) (s : Span τ) : List (Span τ) :=
  match spans.getLast? with
  | some last =>
    if last.Continues s then spans.dropLast ++ [last.extend s.length] else spans ++ [s]
  | none => [s]

theorem push_nil [DecidableEq τ] (s : Span τ) : push [] s = [s] := rfl

theorem push_concat [DecidableEq τ] (spans : List (Span τ)) (last s : Span τ) :
    push (spans ++ [last]) s =
      if last.Continues s then spans ++ [last.extend s.length] else spans ++ [last] ++ [s] := by
  simp [push]

theorem length_push_le [DecidableEq τ] (spans : List (Span τ)) (s : Span τ) :
    (push spans s).length ≤ spans.length + 1 := by
  rcases List.eq_nil_or_concat spans with rfl | ⟨init, last, rfl⟩
  · simp [push_nil]
  · rw [List.concat_eq_append, push_concat]
    split <;> simp

/-- The parts follow one another without a gap, under one label, and make up the span. -/
inductive Joins : List (Span τ) → Span τ → Prop
  | one (s : Span τ) : Joins [s] s
  | more {parts : List (Span τ)} {s t : Span τ} :
      Joins parts s → s.Continues t → Joins (parts ++ [t]) (s.extend t.length)

namespace Joins

variable {parts : List (Span τ)} {s : Span τ}

theorem bytes_iff (h : Joins parts s) {a : Nat} : a ∈ s.bytes ↔ ∃ p ∈ parts, a ∈ p.bytes := by
  induction h with
  | one s => simp
  | more joined continues ih =>
    rw [Span.bytes_extend continues, Set.mem_union, ih]
    simp [or_and_right, exists_or]

theorem label_eq (h : Joins parts s) : ∀ p ∈ parts, p.label = s.label := by
  induction h with
  | one s => simp
  | more joined continues ih =>
    intro p mem
    rcases List.mem_append.mp mem with old | new
    · exact ih p old
    · rw [List.mem_singleton.mp new]
      exact continues.1.symm

end Joins

/-- A stretch of consecutive parts and the span they make up. -/
structure Run (τ : Type*) where
  parts : List (Span τ)
  span : Span τ
  joins : Joins parts span

/-- What coalescing the parts gives: their runs in order, none of which continues the one before. -/
def Coalesced (parts spans : List (Span τ)) : Prop :=
  (∃ runs : List (Run τ), runs.flatMap Run.parts = parts ∧ runs.map Run.span = spans) ∧
    spans.IsChain fun s t => ¬s.Continues t

theorem Coalesced.nil : Coalesced ([] : List (Span τ)) [] :=
  ⟨⟨[], rfl, rfl⟩, List.IsChain.nil⟩

/-- The step: pushing one more part. -/
theorem Coalesced.push [DecidableEq τ] {parts spans : List (Span τ)} (h : Coalesced parts spans)
    (s : Span τ) : Coalesced (parts ++ [s]) (push spans s) := by
  obtain ⟨⟨runs, rfl, rfl⟩, chain⟩ := h
  rcases List.eq_nil_or_concat runs with rfl | ⟨earlier, last, rfl⟩
  · exact ⟨⟨[⟨[s], s, .one s⟩], rfl, rfl⟩, List.isChain_singleton s⟩
  · rw [List.concat_eq_append] at chain ⊢
    rw [List.map_append, List.map_singleton] at chain ⊢
    rw [push_concat]
    split
    · rename_i continues
      refine ⟨⟨earlier ++ [⟨last.parts ++ [s], _, .more last.joins continues⟩], ?_, ?_⟩, ?_⟩
      · simp
      · simp
      · -- The last span keeps its base and label, so nothing before it continues into it now.
        rw [List.isChain_append] at chain ⊢
        exact ⟨chain.1, List.isChain_singleton _, by
          intro x mem y last_y
          have unchanged := chain.2.2 x mem last.span rfl
          cases last_y
          exact unchanged⟩
    · rename_i apart
      refine ⟨⟨earlier ++ [last] ++ [⟨[s], s, .one s⟩], by simp, by simp⟩, ?_⟩
      rw [List.isChain_append]
      refine ⟨chain, List.isChain_singleton s, ?_⟩
      intro x mem y first
      simp only [List.getLast?_append, List.getLast?_singleton, Option.some_or,
        Option.mem_def, Option.some.injEq] at mem
      cases mem
      cases first
      exact apart

namespace Coalesced

variable {parts spans : List (Span τ)}

/-- The spans cover what the parts cover, under the same labels. -/
theorem covers (h : Coalesced parts spans) (a : Nat) (label : τ) :
    (∃ s ∈ spans, a ∈ s.bytes ∧ s.label = label) ↔ ∃ p ∈ parts, a ∈ p.bytes ∧ p.label = label := by
  obtain ⟨⟨runs, rfl, rfl⟩, _⟩ := h
  simp only [List.mem_map, List.mem_flatMap]
  constructor
  · rintro ⟨_, ⟨run, mem, rfl⟩, inside, rfl⟩
    obtain ⟨p, part, inPart⟩ := run.joins.bytes_iff.mp inside
    exact ⟨p, ⟨run, mem, part⟩, inPart, run.joins.label_eq p part⟩
  · rintro ⟨p, ⟨run, mem, part⟩, inside, rfl⟩
    exact ⟨run.span, ⟨run, mem, rfl⟩, run.joins.bytes_iff.mpr ⟨p, part, inside⟩,
      (run.joins.label_eq p part).symm⟩

theorem disjoint (h : Coalesced parts spans)
    (apart : parts.Pairwise fun p q => Disjoint p.bytes q.bytes) :
    spans.Pairwise fun s t => Disjoint s.bytes t.bytes := by
  obtain ⟨⟨runs, rfl, rfl⟩, _⟩ := h
  rw [List.pairwise_map]
  refine (List.pairwise_flatMap.mp apart).2.imp fun {r t} between => ?_
  rw [Set.disjoint_left]
  intro a inR inT
  obtain ⟨p, partR, inP⟩ := r.joins.bytes_iff.mp inR
  obtain ⟨q, partT, inQ⟩ := t.joins.bytes_iff.mp inT
  exact Set.disjoint_left.mp (between p partR q partT) inP inQ

/-- A part with address `a` stands before one with address `b`. -/
def Precedes (parts : List (Span τ)) (a b : Nat) : Prop :=
  ∃ before after, parts = before ++ after ∧ (∃ p ∈ before, a ∈ p.bytes) ∧ ∃ q ∈ after, b ∈ q.bytes

/-- An earlier span is made of earlier parts. -/
theorem order (h : Coalesced parts spans) :
    spans.Pairwise fun s t => ∀ a ∈ s.bytes, ∀ b ∈ t.bytes, Precedes parts a b := by
  obtain ⟨⟨runs, rfl, rfl⟩, chain⟩ := h
  clear chain
  rw [List.pairwise_map]
  induction runs with
  | nil => exact List.Pairwise.nil
  | cons run runs ih =>
    refine List.Pairwise.cons ?_ (ih.imp fun {s t} between a inS b inT => ?_)
    · intro later mem a inRun b inLater
      obtain ⟨p, part, inP⟩ := run.joins.bytes_iff.mp inRun
      obtain ⟨q, partLater, inQ⟩ := later.joins.bytes_iff.mp inLater
      exact ⟨run.parts, runs.flatMap Run.parts, rfl, ⟨p, part, inP⟩,
        q, List.mem_flatMap.mpr ⟨later, mem, partLater⟩, inQ⟩
    · obtain ⟨before, after, split, ⟨p, memP, inP⟩, later⟩ := between a inS b inT
      exact ⟨run.parts ++ before, after, by rw [List.flatMap_cons, split, List.append_assoc],
        ⟨p, List.mem_append_right _ memP, inP⟩, later⟩

end Coalesced

end Lib.Coalesce
