import EspushAt.Foundations.Framing
import EspushAt.Foundations.Printf

/-!
# Hexadecimal dumps

A dump has two lower-case digits and a space for every byte. Reading the digits back in
pairs gives the bytes.
-/

namespace Hexadecimal

open CString Printf Framing

/-- Value of a lower-case hexadecimal digit. -/
def hexValue (b : UInt8) : Option Nat :=
  if 0x30 ≤ b ∧ b ≤ 0x39 then some (b.toNat - 0x30)
  else if 0x61 ≤ b ∧ b ≤ 0x66 then some (b.toNat - 0x57)
  else none

theorem hexValue_hexDigit : ∀ n < 16, hexValue (hexDigit n) = some n := by decide

/-- Two digits and a space. -/
def hexByte (b : UInt8) : Bytes := (Arg.x b).text ++ [0x20]

@[simp] theorem length_hexByte (b : UInt8) : (hexByte b).length = 3 := rfl

theorem zero_notMem_hexByte (b : UInt8) : 0 ∉ hexByte b := by
  have hdigit : ∀ n < 16, hexDigit n ≠ 0 := by decide
  have hlt := b.toNat_lt
  have hhi := hdigit (b.toNat / 16) (by omega)
  have hlo := hdigit (b.toNat % 16) (by omega)
  simp [hexByte, Arg.text, Ne.symm hhi, Ne.symm hlo]

def readHexByte : Bytes → Option (UInt8 × Bytes)
  | hi :: lo :: 0x20 :: rest => do
      let h ← hexValue hi
      let l ← hexValue lo
      return (UInt8.ofNat (16 * h + l), rest)
  | _ => none

theorem readHexByte_hexByte (b : UInt8) (rest : Bytes) :
    readHexByte (hexByte b ++ rest) = some (b, rest) := by
  have hlt := b.toNat_lt
  have hhi := hexValue_hexDigit (b.toNat / 16) (by omega)
  have hlo := hexValue_hexDigit (b.toNat % 16) (by omega)
  have hvalue : UInt8.ofNat (16 * (b.toNat / 16) + b.toNat % 16) = b := by
    rw [Nat.div_add_mod, UInt8.ofNat_toNat]
  change (do
    let h ← hexValue (hexDigit (b.toNat / 16))
    let l ← hexValue (hexDigit (b.toNat % 16))
    return (UInt8.ofNat (16 * h + l), rest)) = some (b, rest)
  rw [hhi, hlo]
  exact congrArg (fun v => some (v, rest)) hvalue

def hexdump (data : Bytes) : Bytes := data.flatMap hexByte

theorem decodeStream_hexdump (data : Bytes) :
    decodeStream readHexByte (hexdump data) = some data := by
  apply decodeStream_flatMap
  · intro b _ hnil
    simp [hexByte] at hnil
  · intro b _ rest
    exact readHexByte_hexByte b rest

end Hexadecimal
