import Mathlib.Data.List.Basic
import Mathlib.Data.List.TakeWhile

/-!
# NUL-terminated strings in a byte memory

A memory is the list of its bytes from some pointer on. The string a C function
reads there ends before the first zero byte, and the memory may go on behind it.
`text` is that string; `read?` also fails when no zero byte is in reach, which in
C is a read outside the object.
-/

namespace CString

abbrev Bytes := List UInt8

/-- The bytes of a string literal, without its terminator. -/
def ascii (s : String) : Bytes := s.toList.map fun c => c.toNat.toUInt8

/-- The C string at the front of a memory. -/
def text (mem : Bytes) : Bytes := mem.takeWhile (· ≠ 0)

/-- Reading the C string at the front of a memory, up to the zero byte. -/
def read? (mem : Bytes) : Option Bytes := if 0 ∈ mem then some (text mem) else none

theorem zero_notMem_text (mem : Bytes) : 0 ∉ text mem := by
  intro h
  simpa using List.mem_takeWhile_imp h

theorem text_eq_self_iff {s : Bytes} : text s = s ↔ 0 ∉ s := by
  rw [text, List.takeWhile_eq_self_iff]
  constructor
  · intro h hz
    simpa using h 0 hz
  · intro h b hb
    simp only [decide_eq_true_eq]
    rintro rfl
    exact h hb

theorem text_append_of_mem {s : Bytes} (h : 0 ∈ s) (rest : Bytes) :
    text (s ++ rest) = text s := by
  induction s with
  | nil => simp at h
  | cons b s ih =>
      by_cases hb : b = 0
      · simp [text, hb]
      · have hs : 0 ∈ s := by simpa [Ne.symm hb] using h
        simpa [text, hb] using ih hs

theorem text_append_of_notMem {s : Bytes} (h : 0 ∉ s) (rest : Bytes) :
    text (s ++ rest) = s ++ text rest := by
  induction s with
  | nil => rfl
  | cons b s ih =>
      obtain ⟨hb, hs⟩ := List.mem_cons.not.mp h |> not_or.mp
      simpa [text, Ne.symm hb] using ih hs

/-- A zero byte ends the string, whatever follows it. -/
@[simp] theorem text_append_zero (s rest : Bytes) : text (s ++ 0 :: rest) = text s := by
  by_cases h : 0 ∈ s
  · exact text_append_of_mem h _
  · rw [text_append_of_notMem h, text_eq_self_iff.mpr h]
    simp [text]

@[simp] theorem read?_append_zero (s rest : Bytes) : read? (s ++ 0 :: rest) = some (text s) := by
  rw [read?, if_pos (by simp), text_append_zero]

/-- A zero-free string is read back whole. -/
theorem read?_of_notMem {s : Bytes} (h : 0 ∉ s) (rest : Bytes) :
    read? (s ++ 0 :: rest) = some s := by
  rw [read?_append_zero, text_eq_self_iff.mpr h]

/-- A memory with a zero byte is its string, the terminator and the rest. -/
theorem exists_eq_text_append {mem : Bytes} (h : 0 ∈ mem) :
    ∃ rest, mem = text mem ++ 0 :: rest := by
  obtain ⟨front, back, rfl, hfront⟩ := List.eq_append_cons_of_mem h
  exact ⟨back, by rw [text_append_zero, text_eq_self_iff.mpr hfront]⟩

theorem length_text_le (mem : Bytes) : (text mem).length ≤ mem.length :=
  (List.takeWhile_prefix _).length_le

/-- Cutting a string at its first zero byte loses bytes exactly when there is one. -/
theorem length_text_eq_iff {s : Bytes} : (text s).length = s.length ↔ 0 ∉ s := by
  rw [← text_eq_self_iff]
  exact ⟨fun h => (List.takeWhile_prefix _).eq_of_length h, fun h => by rw [h]⟩

/-- Every byte string with a delimiter splits at the first one. -/
theorem split_first {c : UInt8} {s : Bytes} (h : c ∈ s) :
    ∃ front back, s = front ++ c :: back ∧ c ∉ front :=
  List.eq_append_cons_of_mem h

/-- What stands before the first delimiter, and what follows from it on. -/
theorem takeWhile_ne_append {c : UInt8} {front : Bytes} (h : c ∉ front) (back : Bytes) :
    (front ++ c :: back).takeWhile (· ≠ c) = front := by
  have hall : ∀ b ∈ front, decide (b ≠ c) := fun b hb => by simp [ne_of_mem_of_not_mem hb h]
  rw [List.takeWhile_append_of_pos hall]
  simp

theorem dropWhile_ne_append {c : UInt8} {front : Bytes} (h : c ∉ front) (back : Bytes) :
    (front ++ c :: back).dropWhile (· ≠ c) = c :: back := by
  have hall : ∀ b ∈ front, decide (b ≠ c) := fun b hb => by simp [ne_of_mem_of_not_mem hb h]
  rw [List.dropWhile_append_of_pos hall]
  simp

/-- There is only one split at the first delimiter. -/
theorem split_first_unique {c : UInt8} {front back front' back' : Bytes}
    (h : front ++ c :: back = front' ++ c :: back') (hfront : c ∉ front) (hfront' : c ∉ front') :
    front = front' ∧ back = back' := by
  have heq : front = front' := by
    rw [← takeWhile_ne_append hfront back, h, takeWhile_ne_append hfront']
  subst heq
  exact ⟨rfl, (List.cons.inj (List.append_cancel_left h)).2⟩

end CString
