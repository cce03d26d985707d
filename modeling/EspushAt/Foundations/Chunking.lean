import Mathlib.Data.List.Basic
import Mathlib.Data.List.TakeWhile

/-!
# Ways of cutting a stream into chunks

A consumer that looks at one chunk at a time may react to the first chunk with some
property `p`. That chunk splits the cut into the chunks before it and those after it.
`firstOffset` is the place in the stream where it starts, which depends on the cut and
not on the stream alone.
-/

namespace Chunking

variable {α : Type*}

/-- A way of cutting the stream `s` into nonempty chunks. -/
structure Cut (s : List α) where
  chunks : List (List α)
  flatten_chunks : chunks.flatten = s
  nonempty : ∀ c ∈ chunks, c ≠ []

/-- Where the first chunk with property `p` starts in the stream. -/
def firstOffset (p : List α → Bool) : List (List α) → Option Nat
  | [] => none
  | c :: cs => if p c then some 0 else (firstOffset p cs).map (c.length + ·)

/-- The chunks in front of the first one with property `p`. -/
def beforeFirst (p : List α → Bool) (cs : List (List α)) : List (List α) :=
  cs.takeWhile fun c => !p c

/-- The chunks behind the first one with property `p`. -/
def afterFirst (p : List α → Bool) (cs : List (List α)) : List (List α) :=
  (cs.dropWhile fun c => !p c).tail

variable {p : List α → Bool} {c : List α} {cs : List (List α)} {s : List α}

@[simp] theorem beforeFirst_cons_of_pos (h : p c = true) : beforeFirst p (c :: cs) = [] := by
  simp [beforeFirst, h]

@[simp] theorem beforeFirst_cons_of_neg (h : p c = false) :
    beforeFirst p (c :: cs) = c :: beforeFirst p cs := by
  simp [beforeFirst, h]

@[simp] theorem afterFirst_cons_of_pos (h : p c = true) : afterFirst p (c :: cs) = cs := by
  simp [afterFirst, h]

@[simp] theorem afterFirst_cons_of_neg (h : p c = false) :
    afterFirst p (c :: cs) = afterFirst p cs := by
  simp [afterFirst, h]

/-- The first chunk with the property splits the cut. -/
theorem eq_append_of_find (h : cs.find? p = some c) :
    cs = beforeFirst p cs ++ c :: afterFirst p cs := by
  induction cs with
  | nil => simp at h
  | cons d cs ih =>
      cases hd : p d with
      | true =>
          rw [List.find?_cons_of_pos hd] at h
          obtain rfl := Option.some.inj h
          simp [hd]
      | false =>
          rw [List.find?_cons_of_neg (by simp [hd])] at h
          rw [beforeFirst_cons_of_neg hd, afterFirst_cons_of_neg hd, List.cons_append, ← ih h]

theorem beforeFirst_of_find_none (h : cs.find? p = none) : beforeFirst p cs = cs := by
  rw [beforeFirst, List.takeWhile_eq_self_iff]
  intro c hc
  simpa using List.find?_eq_none.mp h c hc

theorem afterFirst_of_find_none (h : cs.find? p = none) : afterFirst p cs = [] := by
  have hdrop : cs.dropWhile (fun c => !p c) = [] := by
    rw [List.dropWhile_eq_nil_iff]
    intro c hc
    simpa using List.find?_eq_none.mp h c hc
  rw [afterFirst, hdrop, List.tail_nil]

theorem firstOffset_eq_none_iff : firstOffset p cs = none ↔ cs.find? p = none := by
  induction cs with
  | nil => simp [firstOffset]
  | cons c cs ih => cases hc : p c <;> simp [firstOffset, hc, ih]

/-- What stands in front of the first such chunk is the part of the stream up to the
offset where that chunk starts. -/
theorem flatten_beforeFirst {n : Nat} (h : firstOffset p cs = some n) :
    (beforeFirst p cs).flatten = cs.flatten.take n ∧ n ≤ cs.flatten.length := by
  induction cs generalizing n with
  | nil => simp [firstOffset] at h
  | cons c cs ih =>
      cases hc : p c with
      | true =>
          obtain rfl : 0 = n := by simpa [firstOffset, hc] using h
          simp [hc]
      | false =>
          simp only [firstOffset, hc, Bool.false_eq_true, if_false] at h
          obtain ⟨m, hm, rfl⟩ := Option.map_eq_some_iff.mp h
          obtain ⟨hflatten, hle⟩ := ih hm
          rw [beforeFirst_cons_of_neg hc, List.flatten_cons, List.flatten_cons, hflatten,
            List.take_length_add_append, List.length_append]
          exact ⟨rfl, by omega⟩

/-- Cutting a stream into single elements. -/
def singletons (s : List α) : Cut s where
  chunks := s.map fun b => [b]
  flatten_chunks := by simp [← List.flatMap_def]
  nonempty := by simp

/-- A front and a nonempty back, as two chunks unless the front is empty. -/
def cutBefore (a : List α) {b : List α} (hb : b ≠ []) : Cut (a ++ b) where
  chunks := match a with
    | [] => [b]
    | x :: a => [x :: a, b]
  flatten_chunks := by cases a <;> simp
  nonempty := by cases a <;> simp [hb]

/-- The back is one of the chunks. -/
theorem mem_cutBefore (a : List α) {b : List α} (hb : b ≠ []) : b ∈ (cutBefore a hb).chunks := by
  cases a <;> simp [cutBefore]

/-- A list that two others were merged into, each in its own order. -/
inductive Interleaved : List α → List α → List α → Prop where
  | nil : Interleaved [] [] []
  | left {as bs cs : List α} (a : α) : Interleaved as bs cs → Interleaved (a :: as) bs (a :: cs)
  | right {as bs cs : List α} (b : α) : Interleaved as bs cs → Interleaved as (b :: bs) (b :: cs)

end Chunking
