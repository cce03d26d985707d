import EspushAt.Foundations.Words
import Mathlib.Data.BitVec
import Mathlib.Data.Fintype.EquivFin
import Mathlib.Logic.Function.Iterate

/-!
# Checksums

The exclusive or of some bytes, and cyclic redundancy checks of any width with the low bit
first. A redundancy check is linear in its state, and with a polynomial whose top bit is
set no step loses anything; so two messages that differ only in a burst no longer than the
state have different checks.
-/

namespace Checksum

open CString Words

/-! ### Exclusive or -/

/-- The exclusive or of some bytes and a start value. -/
def xorSum (start : UInt8) (bs : Bytes) : UInt8 := bs.foldl (· ^^^ ·) start

@[simp] theorem xorSum_nil (start : UInt8) : xorSum start [] = start := rfl

@[simp] theorem xorSum_cons (start b : UInt8) (bs : Bytes) :
    xorSum start (b :: bs) = xorSum (start ^^^ b) bs := rfl

theorem xorSum_append (start : UInt8) (bs bs' : Bytes) :
    xorSum start (bs ++ bs') = xorSum (xorSum start bs) bs' := List.foldl_append

theorem xorSum_replicate_zero (start : UInt8) (n : Nat) :
    xorSum start (List.replicate n 0) = start := by
  induction n with
  | zero => rfl
  | succ n ih => rw [List.replicate_succ, xorSum_cons, UInt8.xor_zero, ih]

theorem xorSum_inj {start start' : UInt8} {bs : Bytes} :
    xorSum start bs = xorSum start' bs ↔ start = start' := by
  induction bs generalizing start start' with
  | nil => rfl
  | cons b bs ih => rw [xorSum_cons, xorSum_cons, ih, UInt8.xor_left_inj]

/-- The exclusive or tells any two values of one byte apart. -/
theorem xorSum_change_iff (start b b' : UInt8) (front back : Bytes) :
    xorSum start (front ++ b :: back) = xorSum start (front ++ b' :: back) ↔ b = b' := by
  rw [xorSum_append, xorSum_append, xorSum_cons, xorSum_cons, xorSum_inj, UInt8.xor_right_inj]

/-! ### Cyclic redundancy -/

section Crc

variable {w : Nat} (poly : BitVec w)

/-- One bit out of the state. -/
def shiftBit (s : BitVec w) : BitVec w :=
  if s.getLsbD 0 then (s >>> 1) ^^^ poly else s >>> 1

/-- A byte of the message. -/
def crcByte (s : BitVec w) (b : UInt8) : BitVec w :=
  (shiftBit poly)^[8] (s ^^^ b.toBitVec.setWidth w)

/-- The state after some bytes. -/
def crc (s : BitVec w) (bs : Bytes) : BitVec w := bs.foldl (crcByte poly) s

variable {poly}

theorem crc_append (s : BitVec w) (bs bs' : Bytes) :
    crc poly s (bs ++ bs') = crc poly (crc poly s bs) bs' := List.foldl_append

theorem getLsbD_shiftBit (s : BitVec w) (i : Nat) : (shiftBit poly s).getLsbD i =
    (s.getLsbD (i + 1) ^^ (s.getLsbD 0 && poly.getLsbD i)) := by
  rw [shiftBit, Nat.add_comm]
  cases s.getLsbD 0 <;> simp

/-- The state is linear in the message. -/
theorem shiftBit_xor (s t : BitVec w) :
    shiftBit poly (s ^^^ t) = shiftBit poly s ^^^ shiftBit poly t := by
  apply BitVec.eq_of_getLsbD_eq
  intro i _
  simp only [getLsbD_shiftBit, BitVec.getLsbD_xor, Bool.and_xor_distrib_right]
  rw [Bool.xor_assoc, Bool.xor_assoc, Bool.xor_left_comm (t.getLsbD (i + 1))]

theorem iterate_shiftBit_xor (n : Nat) (s t : BitVec w) :
    (shiftBit poly)^[n] (s ^^^ t) = (shiftBit poly)^[n] s ^^^ (shiftBit poly)^[n] t := by
  induction n generalizing s t with
  | zero => rfl
  | succ n ih => rw [Function.iterate_succ_apply, shiftBit_xor, ih]; rfl

/-- With the top bit of the polynomial set a shift loses nothing: the bit that left is the
new top bit. -/
theorem shiftBit_injective (hpoly : poly.msb = true) : Function.Injective (shiftBit poly) := by
  intro s t h
  have hbit : ∀ i, (s.getLsbD (i + 1) ^^ (s.getLsbD 0 && poly.getLsbD i)) =
      (t.getLsbD (i + 1) ^^ (t.getLsbD 0 && poly.getLsbD i)) := by
    intro i
    rw [← getLsbD_shiftBit, ← getLsbD_shiftBit, h]
  have hlow : s.getLsbD 0 = t.getLsbD 0 := by
    have htop := hbit (w - 1)
    rw [BitVec.msb_eq_getLsbD_last] at hpoly
    rw [hpoly, BitVec.getLsbD_of_ge s _ (by omega), BitVec.getLsbD_of_ge t _ (by omega)] at htop
    simpa using htop
  apply BitVec.eq_of_getLsbD_eq
  intro i _
  cases i with
  | zero => exact hlow
  | succ i =>
      have hi := hbit i
      rw [hlow] at hi
      exact Bool.xor_left_inj.mp hi

theorem iterate_shiftBit_injective (hpoly : poly.msb = true) (n : Nat) :
    Function.Injective (shiftBit poly)^[n] := (shiftBit_injective hpoly).iterate n

theorem crcByte_left_injective (hpoly : poly.msb = true) (b : UInt8) :
    Function.Injective (crcByte poly · b) := by
  intro s t h
  exact (BitVec.xor_left_inj _).mp (iterate_shiftBit_injective hpoly 8 h)

/-- Different states stay different, whatever follows. -/
theorem crc_injective (hpoly : poly.msb = true) (bs : Bytes) :
    Function.Injective (crc poly · bs) := by
  induction bs with
  | nil => exact fun _ _ h => h
  | cons b bs ih => exact fun _ _ h => crcByte_left_injective hpoly b (ih h)

/-- A state whose low bits are clear only moves down. -/
theorem iterate_shiftBit_of_low {n : Nat} {s : BitVec w} (h : ∀ i < n, s.getLsbD i = false) :
    (shiftBit poly)^[n] s = s >>> n := by
  induction n with
  | zero => simp
  | succ n ih =>
      have hlow : (s >>> n).getLsbD 0 = false := by simpa using h n (Nat.lt_succ_self n)
      rw [Function.iterate_succ_apply', ih fun i hi => h i (Nat.lt_succ_of_lt hi), shiftBit,
        hlow, BitVec.shiftRight_add]
      rfl

/-- The bytes of a burst as a state. -/
def word (w : Nat) (bs : Bytes) : BitVec w := BitVec.ofNat w (value bs)

theorem word_cons (b : UInt8) (bs : Bytes) :
    word w (b :: bs) = b.toBitVec.setWidth w ^^^ (word w bs <<< 8) := by
  apply BitVec.eq_of_getLsbD_eq
  intro i hi
  have hbit : (b.toNat + 256 * value bs).testBit i =
      if i < 8 then b.toNat.testBit i else (value bs).testBit (i - 8) := by
    rw [Nat.add_comm]
    exact Nat.testBit_two_pow_mul_add (value bs) b.toNat_lt i
  have hlow : b.toBitVec.getLsbD i = b.toNat.testBit i := rfl
  rw [word, word, BitVec.getLsbD_ofNat, value_cons, hbit, BitVec.getLsbD_xor,
    BitVec.getLsbD_setWidth, BitVec.getLsbD_shiftLeft, BitVec.getLsbD_ofNat, hlow]
  by_cases h8 : i < 8
  · simp [hi, h8]
  · have hhigh : b.toNat.testBit i = false :=
      Nat.testBit_lt_two_pow (b.toNat_lt.trans_le (Nat.pow_le_pow_right (by decide) (by omega)))
    have hlt : i - 8 < w := by omega
    simp [hi, h8, hhigh, hlt]

/-- A burst that is not longer than the rest of the state moves down behind its first byte. -/
theorem iterate_shiftBit_word {bs : Bytes} (h : 8 * (bs.length + 1) ≤ w) :
    (shiftBit poly)^[8] (word w bs <<< 8) = word w bs := by
  rw [iterate_shiftBit_of_low fun i hi => by simp [hi]]
  apply BitVec.eq_of_getLsbD_eq
  intro i hi
  rw [BitVec.getLsbD_ushiftRight, BitVec.getLsbD_shiftLeft, Nat.add_sub_cancel_left, word,
    BitVec.getLsbD_ofNat]
  by_cases hin : 8 + i < w
  · simp [hin]
  · have hvalue : value bs < 2 ^ i := by
      apply (value_lt bs).trans_le
      rw [show 256 = 2 ^ 8 from rfl, ← Nat.pow_mul]
      exact Nat.pow_le_pow_right (by decide) (by omega)
    simp [hin, Nat.testBit_lt_two_pow hvalue]

/-- A burst goes into the state at once. -/
theorem crc_eq_iterate {bs : Bytes} (h : 8 * bs.length ≤ w) (s : BitVec w) :
    crc poly s bs = (shiftBit poly)^[8 * bs.length] (s ^^^ word w bs) := by
  induction bs generalizing s with
  | nil =>
      change s = s ^^^ BitVec.ofNat w 0
      simp
  | cons b bs ih =>
      have hlen : 8 * (bs.length + 1) ≤ w := h
      calc crc poly s (b :: bs)
        _ = crc poly (crcByte poly s b) bs := rfl
        _ = (shiftBit poly)^[8 * bs.length] (crcByte poly s b ^^^ word w bs) := ih (by omega) _
        _ = (shiftBit poly)^[8 * bs.length] ((shiftBit poly)^[8] (s ^^^ word w (b :: bs))) := by
            rw [word_cons, ← BitVec.xor_assoc, iterate_shiftBit_xor 8, iterate_shiftBit_word hlen]
            rfl
        _ = (shiftBit poly)^[8 * (b :: bs).length] (s ^^^ word w (b :: bs)) := by
            rw [← Function.iterate_add_apply]
            rfl

/-- A redundancy check tells any two bursts apart that are no longer than its state. -/
theorem crc_burst_iff (hpoly : poly.msb = true) (s : BitVec w) {bs bs' : Bytes}
    (hlen : bs.length = bs'.length) (hw : 8 * bs.length ≤ w) (front back : Bytes) :
    crc poly s (front ++ bs ++ back) = crc poly s (front ++ bs' ++ back) ↔ bs = bs' := by
  constructor
  · intro h
    have hw' : 8 * bs'.length ≤ w := hlen ▸ hw
    rw [crc_append, crc_append _ (front ++ bs')] at h
    have hburst : crc poly s (front ++ bs) = crc poly s (front ++ bs') := crc_injective hpoly back h
    rw [crc_append, crc_append, crc_eq_iterate hw, crc_eq_iterate hw', hlen] at hburst
    have hword := (BitVec.xor_right_inj _).mp (iterate_shiftBit_injective hpoly _ hburst)
    have hbound : ∀ {cs : Bytes}, 8 * cs.length ≤ w → value cs < 2 ^ w := by
      intro cs hcs
      apply (value_lt cs).trans_le
      rw [show 256 = 2 ^ 8 from rfl, ← Nat.pow_mul]
      exact Nat.pow_le_pow_right (by decide) hcs
    have hvalue := congrArg BitVec.toNat hword
    rw [word, word, BitVec.toNat_ofNat, BitVec.toNat_ofNat, Nat.mod_eq_of_lt (hbound hw),
      Nat.mod_eq_of_lt (hbound hw')] at hvalue
    exact eq_of_value_eq hlen hvalue
  · rintro rfl
    rfl

/-- A burst as long as the state can bring any check about, whatever surrounds it. -/
theorem exists_burst (hpoly : poly.msb = true) {k : Nat} (hw : 8 * k = w) (s t : BitVec w)
    (front back : Bytes) :
    ∃ burst : Bytes, burst.length = k ∧ crc poly s (front ++ burst ++ back) = t := by
  have : Finite (BitVec w) := Finite.of_equiv _ BitVec.equivFin.toEquiv.symm
  obtain ⟨u, hu⟩ := Finite.surjective_of_injective (crc_injective hpoly back) t
  obtain ⟨v, hv⟩ := Finite.surjective_of_injective (iterate_shiftBit_injective hpoly (8 * k)) u
  have hlen := length_littleEndian k (crc poly s front ^^^ v).toNat
  have hfits : (crc poly s front ^^^ v).toNat < 256 ^ k := by
    rw [show 256 = 2 ^ 8 from rfl, ← Nat.pow_mul, hw]
    exact BitVec.isLt _
  have hword : word w (littleEndian k (crc poly s front ^^^ v).toNat) =
      crc poly s front ^^^ v := by
    rw [word, value_littleEndian_of_lt hfits, BitVec.ofNat_toNat, BitVec.setWidth_eq]
  have hburst :
      crc poly (crc poly s front) (littleEndian k (crc poly s front ^^^ v).toNat) = u := by
    rw [crc_eq_iterate (by omega), hword, hlen, ← BitVec.xor_assoc, BitVec.xor_self,
      BitVec.zero_xor, hv]
  refine ⟨littleEndian k (crc poly s front ^^^ v).toNat, hlen, ?_⟩
  rw [crc_append, crc_append, hburst]
  exact hu

end Crc

end Checksum
