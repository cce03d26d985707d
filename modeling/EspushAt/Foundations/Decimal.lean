import Mathlib.Algebra.Order.Ring.Int
import Mathlib.Data.List.TakeWhile
import EspushAt.Foundations.CString

/-!
# Decimal text of integers

`decimal` is the text C prints for a number with `%d`, and `atoiValue` is the
number the C function `atoi` reads from a string: leading white space, an optional
sign, then the longest run of digits. Both work on mathematical integers; a caller
says separately which of them fit its machine type.
-/

namespace Decimal

open CString

/-- The decimal digits of a natural number, most significant first. -/
def decimal (n : Nat) : Bytes := (Nat.toDigits 10 n).map fun c => c.toNat.toUInt8

/-- The `%d` text of an integer. -/
def decimalInt (v : Int) : Bytes :=
  if v < 0 then 0x2D :: decimal v.natAbs else decimal v.natAbs

def isDigit (b : UInt8) : Bool := 0x30 ≤ b && b ≤ 0x39

def isSpace (b : UInt8) : Bool := b = 0x20 || (0x09 ≤ b && b ≤ 0x0D)

/-- Positional value of a digit string. -/
def digitsValue (ds : Bytes) : Nat := ds.foldl (fun acc b => 10 * acc + (b.toNat - 0x30)) 0

/-- The digits at the front of a string and what follows them. -/
def readDigits (s : Bytes) : Nat × Bytes := (digitsValue (s.takeWhile isDigit), s.dropWhile isDigit)

/-- The number `atoi` reads, before it is put into an `int`. -/
def atoiValue (s : Bytes) : Int :=
  match s.dropWhile isSpace with
  | 0x2D :: digits => -((readDigits digits).1 : Int)
  | 0x2B :: digits => (readDigits digits).1
  | digits => (readDigits digits).1

private theorem digit_byte {c : Char} (h : c.isDigit) :
    isDigit c.toNat.toUInt8 ∧ c.toNat.toUInt8.toNat = c.toNat := by
  obtain ⟨hlo, hhi⟩ : 48 ≤ c.toNat ∧ c.toNat ≤ 57 := Char.isDigit_iff_toNat.mp h
  have hbyte : c.toNat.toUInt8.toNat = c.toNat := by
    change (UInt8.ofNat c.toNat).toNat = c.toNat
    rw [UInt8.toNat_ofNat']
    omega
  refine ⟨?_, hbyte⟩
  simp only [isDigit, Bool.and_eq_true, decide_eq_true_eq, UInt8.le_iff_toNat_le, hbyte]
  exact ⟨hlo, hhi⟩

theorem isDigit_of_mem_decimal {n : Nat} {b : UInt8} (h : b ∈ decimal n) : isDigit b := by
  obtain ⟨c, hc, rfl⟩ := List.mem_map.mp h
  exact (digit_byte (Nat.isDigit_of_mem_toDigits (by decide) (by decide) hc)).1

theorem decimal_ne_nil (n : Nat) : decimal n ≠ [] := by
  simp [decimal, Nat.toDigits_ne_nil]

/-- Printing and reading a digit string are inverse. -/
theorem digitsValue_decimal (n : Nat) : digitsValue (decimal n) = n := by
  have hvalue : ∀ (cs : List Char) (acc : Nat), (∀ c ∈ cs, c.isDigit) →
      (cs.map fun c => c.toNat.toUInt8).foldl (fun acc b => 10 * acc + (b.toNat - 0x30)) acc =
        Nat.ofDigitChars 10 cs acc := by
    intro cs
    induction cs with
    | nil => intro acc _; simp
    | cons c cs ih =>
        intro acc hcs
        have hc := (digit_byte (hcs c (by simp))).2
        simp only [List.map_cons, List.foldl_cons, Nat.ofDigitChars_cons, hc]
        exact ih _ fun d hd => hcs d (by simp [hd])
  have hdigits : ∀ c ∈ Nat.toDigits 10 n, c.isDigit := fun c hc =>
    Nat.isDigit_of_mem_toDigits (by decide) (by decide) hc
  rw [digitsValue, decimal, hvalue _ 0 hdigits, Nat.ofDigitChars_ten_toDigits]

/-- The digits of a printed number end where the first other byte stands. -/
theorem readDigits_decimal_append (n : Nat) {rest : Bytes}
    (h : ∀ b ∈ rest.head?, isDigit b = false) :
    readDigits (decimal n ++ rest) = (n, rest) := by
  have hall : ∀ b ∈ decimal n, isDigit b := fun b hb => isDigit_of_mem_decimal hb
  have htake : rest.takeWhile isDigit = [] := by
    cases rest with
    | nil => rfl
    | cons b rest => simp [h b (by simp)]
  have hdrop : rest.dropWhile isDigit = rest := by
    cases rest with
    | nil => rfl
    | cons b rest => simp [h b (by simp)]
  rw [readDigits, List.takeWhile_append_of_pos hall, List.dropWhile_append_of_pos hall,
    htake, hdrop, List.append_nil, digitsValue_decimal]

private theorem digit_plain {b : UInt8} (h : isDigit b) :
    isSpace b = false ∧ b ≠ 0x2D ∧ b ≠ 0x2B := by
  have hlow : (0x30 : UInt8) ≤ b := by
    simp only [isDigit, Bool.and_eq_true, decide_eq_true_eq] at h
    exact h.1
  rw [UInt8.le_iff_toNat_le] at hlow
  have hval : 0x30 ≤ b.toNat := hlow
  have ne : ∀ c : UInt8, c.toNat < 0x30 → b ≠ c := by
    rintro c hc rfl
    omega
  refine ⟨?_, ne _ (by decide), ne _ (by decide)⟩
  have hspace : ¬ b ≤ 0x0D := by
    rw [UInt8.le_iff_toNat_le]
    change ¬ b.toNat ≤ 13
    omega
  simp [isSpace, hspace, ne 0x20 (by decide)]

theorem notMem_decimal {b : UInt8} (h : isDigit b = false) (n : Nat) : b ∉ decimal n := by
  intro hb
  rw [isDigit_of_mem_decimal hb] at h
  contradiction

/-- A printed integer has digits and a minus sign only. -/
theorem notMem_decimalInt {b : UInt8} (h : isDigit b = false) (hsign : b ≠ 0x2D) (v : Int) :
    b ∉ decimalInt v := by
  have hdigits := notMem_decimal h v.natAbs
  rw [decimalInt]
  split
  · simp [hsign, hdigits]
  · exact hdigits

/-- `atoi` reads a printed natural number back. -/
theorem atoiValue_decimal (n : Nat) : atoiValue (decimal n) = n := by
  have hread : readDigits (decimal n) = (n, []) := by
    simpa using @readDigits_decimal_append n [] (by simp)
  obtain ⟨b, bs, hcons⟩ := List.exists_cons_of_ne_nil (decimal_ne_nil n)
  have hb := digit_plain (isDigit_of_mem_decimal (n := n) (b := b) (by simp [hcons]))
  have hskip : (decimal n).dropWhile isSpace = decimal n := by simp [hcons, hb.1]
  rw [atoiValue, hskip, hcons]
  split
  · simp_all
  · simp_all
  · rw [← hcons, hread]

/-- `atoi` reads a printed integer back, its sign included. -/
theorem atoiValue_decimalInt (v : Int) : atoiValue (decimalInt v) = v := by
  rw [decimalInt]
  split_ifs with hneg
  · have hread : readDigits (decimal v.natAbs) = (v.natAbs, []) := by
      simpa using @readDigits_decimal_append v.natAbs [] (by simp)
    have hskip : (0x2D :: decimal v.natAbs).dropWhile isSpace = 0x2D :: decimal v.natAbs := rfl
    rw [atoiValue, hskip]
    simp only [hread]
    omega
  · rw [atoiValue_decimal]
    omega

theorem isDigit_of_isSpace {b : UInt8} (h : isSpace b) : isDigit b = false := by
  rw [Bool.eq_false_iff]
  intro hdigit
  rw [(digit_plain hdigit).1] at h
  contradiction

/-- What follows the digits is not read. -/
theorem readDigits_append {rest : Bytes} (h : ∀ b ∈ rest, isDigit b = false) (s : Bytes) :
    (readDigits (s ++ rest)).1 = (readDigits s).1 := by
  have hrest : rest.takeWhile isDigit = [] := by
    cases rest with
    | nil => rfl
    | cons b rest => simp [h b (by simp)]
  rw [readDigits, readDigits, List.takeWhile_append, hrest, List.append_nil]
  split_ifs with hall
  · rw [(List.takeWhile_prefix isDigit).eq_of_length hall]
  · rfl

/-- `atoi` does not see white space behind the text, a line end for one. -/
theorem atoiValue_append_spaces {rest : Bytes} (h : ∀ b ∈ rest, isSpace b) (s : Bytes) :
    atoiValue (s ++ rest) = atoiValue s := by
  have hdigits : ∀ b ∈ rest, isDigit b = false := fun b hb => isDigit_of_isSpace (h b hb)
  rw [atoiValue, atoiValue, List.dropWhile_append]
  cases hskip : s.dropWhile isSpace with
  | nil =>
      have hnone : rest.dropWhile isSpace = [] := List.dropWhile_eq_nil_iff.mpr h
      simp [hnone]
  | cons c digits =>
      simp only [List.isEmpty_cons, Bool.false_eq_true, if_false, List.cons_append]
      by_cases hminus : c = 0x2D
      · subst hminus
        simp only [readDigits_append hdigits]
      · by_cases hplus : c = 0x2B
        · subst hplus
          simp only [readDigits_append hdigits]
        · have hread := readDigits_append hdigits (c :: digits)
          rw [List.cons_append] at hread
          split <;> simp_all

/-- A number below a power of ten has at most that many digits. -/
theorem length_decimal_le {n k : Nat} (hk : 0 < k) (h : n < 10 ^ k) :
    (decimal n).length ≤ k := by
  rw [decimal, List.length_map]
  exact (Nat.length_toDigits_le_iff (by decide) hk).mpr h

/-- A signed number below a power of ten in size has one byte more at most. -/
theorem length_decimalInt_le {v : Int} {k : Nat} (hk : 0 < k) (h : v.natAbs < 10 ^ k) :
    (decimalInt v).length ≤ k + 1 := by
  have := length_decimal_le hk h
  rw [decimalInt]
  split
  · simpa using this
  · omega

end Decimal
