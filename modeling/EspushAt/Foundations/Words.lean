import EspushAt.Foundations.CString
import Mathlib.Algebra.Group.Nat.Defs

/-!
# Little-endian numbers

A number in a fixed count of bytes, the low byte first. Reading the bytes gives back what
of the number fits in them, and every string of bytes is the number it reads as.
-/

namespace Words

open CString

/-- The low bytes of a number, the lowest first. -/
def littleEndian : Nat → Nat → Bytes
  | 0, _ => []
  | k + 1, n => UInt8.ofNat n :: littleEndian k (n / 256)

/-- The number some bytes stand for. -/
def value : Bytes → Nat
  | [] => 0
  | b :: bs => b.toNat + 256 * value bs

@[simp] theorem value_nil : value [] = 0 := rfl

@[simp] theorem value_cons (b : UInt8) (bs : Bytes) :
    value (b :: bs) = b.toNat + 256 * value bs := rfl

@[simp] theorem length_littleEndian (k n : Nat) : (littleEndian k n).length = k := by
  induction k generalizing n with
  | zero => rfl
  | succ k ih => exact congrArg (· + 1) (ih (n / 256))

theorem value_littleEndian (k n : Nat) : value (littleEndian k n) = n % 256 ^ k := by
  induction k generalizing n with
  | zero => exact (Nat.mod_one n).symm
  | succ k ih =>
      have hbyte : (UInt8.ofNat n).toNat = n % 256 := rfl
      rw [littleEndian, value_cons, ih, hbyte, Nat.pow_succ', Nat.mod_mul]

theorem value_littleEndian_of_lt {k n : Nat} (h : n < 256 ^ k) :
    value (littleEndian k n) = n := by
  rw [value_littleEndian, Nat.mod_eq_of_lt h]

theorem value_lt (bs : Bytes) : value bs < 256 ^ bs.length := by
  induction bs with
  | nil => exact Nat.one_pos
  | cons b bs ih =>
      have hb := b.toNat_lt
      rw [value_cons, List.length_cons, Nat.pow_succ']
      omega

theorem littleEndian_value (bs : Bytes) : littleEndian bs.length (value bs) = bs := by
  induction bs with
  | nil => rfl
  | cons b bs ih =>
      have hb := b.toNat_lt
      have hlow : UInt8.ofNat (b.toNat + 256 * value bs) = b := by
        apply UInt8.toNat_inj.mp
        change (b.toNat + 256 * value bs) % 256 = b.toNat
        omega
      have hhigh : (b.toNat + 256 * value bs) / 256 = value bs := by omega
      rw [List.length_cons, littleEndian, value_cons, hlow, hhigh, ih]

theorem eq_of_value_eq {bs bs' : Bytes} (hlen : bs.length = bs'.length)
    (h : value bs = value bs') : bs = bs' := by
  rw [← littleEndian_value bs, ← littleEndian_value bs', hlen, h]

/-! ### Reading -/

/-- Take some bytes off a stream. -/
def readBytes (n : Nat) (stream : Bytes) : Option (Bytes × Bytes) :=
  if n ≤ stream.length then some (stream.take n, stream.drop n) else none

/-- Take a number of some bytes off a stream. -/
def readWord (k : Nat) (stream : Bytes) : Option (Nat × Bytes) :=
  (readBytes k stream).map fun p => (value p.1, p.2)

theorem readBytes_eq_some_iff {n : Nat} {stream bs rest : Bytes} :
    readBytes n stream = some (bs, rest) ↔ bs.length = n ∧ stream = bs ++ rest := by
  rw [readBytes]
  constructor
  · intro h
    split_ifs at h with hle
    obtain ⟨rfl, rfl⟩ := Prod.mk.inj (Option.some.inj h)
    exact ⟨List.length_take_of_le hle, (List.take_append_drop n stream).symm⟩
  · rintro ⟨rfl, rfl⟩
    rw [if_pos (by simp), List.take_left, List.drop_left]

theorem readWord_eq_some_iff {k n : Nat} {stream rest : Bytes} :
    readWord k stream = some (n, rest) ↔ n < 256 ^ k ∧ stream = littleEndian k n ++ rest := by
  rw [readWord, Option.map_eq_some_iff]
  constructor
  · rintro ⟨⟨bs, rest'⟩, hread, heq⟩
    obtain ⟨rfl, rfl⟩ := Prod.mk.inj heq
    obtain ⟨rfl, rfl⟩ := readBytes_eq_some_iff.mp hread
    exact ⟨value_lt bs, by rw [littleEndian_value]⟩
  · rintro ⟨hlt, rfl⟩
    refine ⟨(littleEndian k n, rest), ?_, ?_⟩
    · exact readBytes_eq_some_iff.mpr ⟨length_littleEndian k n, rfl⟩
    · exact congrArg (·, rest) (value_littleEndian_of_lt hlt)

end Words
