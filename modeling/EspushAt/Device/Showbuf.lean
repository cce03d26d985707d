import EspushAt.Foundations.Hexadecimal
import EspushAt.Device.Primitives

/-!
# The hex dump

`showbuf` is a debugging aid that nothing in the firmware calls. Its loop declares a
local array under the name of the parameter: `buf[i]` is a byte of that array, and
`os_sprintf` writes its text over it. The array holds whatever the stack has there, and so
does the memory behind it, which a later index reads and a longer text writes. So the
memory from the array on is an argument of the model, one for each pass of the loop.
-/

namespace EspushAt

open CString Printf Hexadecimal

variable {σ : Type}

/-- The size of `char buf[3]`. -/
def SHOWBUF_BUF_SIZE : Nat := 3

/-- `os_sprintf` to the front of a memory, whatever the size of the array that is declared
there; it fails where the memory ends. -/
def sprintfOver (mem : Bytes) (fmt : Bytes) (args : List Arg) : Option Bytes :=
  let out := format fmt args
  if out.length + 1 ≤ mem.length then some (out ++ 0 :: mem.drop (out.length + 1)) else none

/-- One pass of the loop, in the memory from the local array on: the text it prints. -/
def showbufPass (stack : Bytes) (i : Nat) : Option Bytes := do
  let b ← stack[i]?
  let after ← sprintfOver stack (ascii "%02x ") [.x b]
  read? after

/-- The passes from the index `i` on, as many as are left. -/
def showbufLoop (stack : Nat → Bytes) : Nat → Nat → AtM σ Unit
  | _, 0 => pure ()
  | i, left + 1 =>
      match showbufPass (stack i) i with
      | none => failure
      | some str => do
          atResponse str
          showbufLoop stack (i + 1) left

/-- The parameter `buf` is hidden in the loop and not used elsewhere. -/
def showbuf (stack : Nat → Bytes) (_buf : Ptr) (len : Nat) : AtM σ Unit := do
  showbufLoop stack 0 len
  atResponse (ascii "\r\n")

/-! ### What is printed -/

/-- The texts of the passes from an index on. -/
def showbufTexts (stack : Nat → Bytes) : Nat → Nat → Option (List Bytes)
  | _, 0 => some []
  | i, left + 1 => do
      let str ← showbufPass (stack i) i
      let strs ← showbufTexts stack (i + 1) left
      return str :: strs

/-- A pass prints a byte of the stack the way a dump prints a byte of the data, over four
bytes of memory. -/
theorem showbufPass_eq (stack : Bytes) (i : Nat) :
    showbufPass stack i = if 4 ≤ stack.length then stack[i]?.map hexByte else none := by
  cases hread : stack[i]? with
  | none => simp [showbufPass, hread]
  | some b =>
      have hpass : showbufPass stack i = (sprintfOver stack (ascii "%02x ") [.x b]).bind read? := by
        simp [showbufPass, hread]
      have hover : sprintfOver stack (ascii "%02x ") [.x b] =
          if 4 ≤ stack.length then some (hexByte b ++ 0 :: stack.drop 4) else none := rfl
      rw [hpass, hover]
      split_ifs with hroom
      · exact read?_of_notMem (zero_notMem_hexByte b) _
      · rfl

theorem run_showbufLoop (stack : Nat → Bytes) (i left : Nat) (f : Frame σ) :
    (showbufLoop stack i left).run f = (showbufTexts stack i left).map fun strs =>
      ((), { f with calls := f.calls ++ strs.map .atResponse }) := by
  induction left generalizing i f with
  | zero => simp [showbufLoop, showbufTexts]
  | succ left ih =>
      cases hpass : showbufPass (stack i) i with
      | none => simp [showbufLoop, showbufTexts, hpass]
      | some str =>
          simp only [showbufLoop, showbufTexts, hpass, StateT.run_bind, run_atResponse,
            Option.bind_eq_bind, Option.bind_some, ih]
          cases showbufTexts stack (i + 1) left with
          | none => rfl
          | some strs => simp

theorem invoke_showbuf (stack : Nat → Bytes) (buf : Ptr) (len : Nat) (mem : Bytes)
    (d : Device σ) :
    invoke (showbuf stack buf len) mem d = (showbufTexts stack 0 len).map fun strs =>
      ⟨d, mem, strs.map .atResponse ++ [.atResponse (ascii "\r\n")]⟩ := by
  have hloop := run_showbufLoop stack 0 len (⟨d, mem, []⟩ : Frame σ)
  cases htexts : showbufTexts stack 0 len with
  | none => simp [invoke, showbuf, hloop, htexts]
  | some strs => simp [invoke, showbuf, hloop, htexts]

end EspushAt
