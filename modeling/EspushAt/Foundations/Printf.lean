import EspushAt.Foundations.Decimal

/-!
# Formatted text

`format` interprets the directives `%d`, `%s` and `%02x` of a C format string over
a list of arguments; every other byte is copied. A value printed by `%d` is the
`int` the C function receives, so an unsigned argument is converted before it gets
here. `length_format_le` bounds the text without running the format.
-/

namespace Printf

open CString Decimal

inductive Arg where
  | d (value : Int32)
  | s (str : Bytes)
  | x (byte : UInt8)
  deriving DecidableEq, Repr

def hexDigit (n : Nat) : UInt8 := if n < 10 then (0x30 + n).toUInt8 else (0x57 + n).toUInt8

/-- The bytes an argument contributes under its directive. -/
def Arg.text : Arg → Bytes
  | .d value => decimalInt value.toInt
  | .s str => str
  | .x byte => [hexDigit (byte.toNat / 16), hexDigit (byte.toNat % 16)]

/-- The text of `sprintf(buf, fmt, args)`, without its terminator. A directive
without an argument of its kind is copied like any other bytes. -/
def format : Bytes → List Arg → Bytes
  | 0x25 :: 0x64 :: fmt, .d value :: args => (Arg.d value).text ++ format fmt args
  | 0x25 :: 0x73 :: fmt, .s str :: args => (Arg.s str).text ++ format fmt args
  | 0x25 :: 0x30 :: 0x32 :: 0x78 :: fmt, .x byte :: args => (Arg.x byte).text ++ format fmt args
  | c :: fmt, args => c :: format fmt args
  | [], _ => []

/-- The longest text `sprintf` can leave behind is the format plus its arguments. -/
theorem length_format_le (fmt : Bytes) (args : List Arg) :
    (format fmt args).length ≤ fmt.length + (args.map fun a => a.text.length).sum := by
  fun_induction format fmt args with
  | case1 fmt value args ih =>
      simp only [List.length_append, List.length_cons, List.map_cons, List.sum_cons]
      omega
  | case2 fmt str args ih =>
      simp only [List.length_append, List.length_cons, List.map_cons, List.sum_cons]
      omega
  | case3 fmt byte args ih =>
      simp only [List.length_append, List.length_cons, List.map_cons, List.sum_cons]
      omega
  | case4 c fmt args _ _ _ ih =>
      simp only [List.length_cons]
      omega
  | case5 args => simp

/-- A format with one number, bounded by its own bytes and those of the number. -/
theorem length_format_d_lt {fmt : Bytes} {value : Int32} {n size : Nat}
    (hvalue : (Arg.d value).text.length ≤ n) (hsize : fmt.length + n < size) :
    (format fmt [.d value]).length < size := by
  have hfmt := length_format_le fmt [.d value]
  simp only [List.map_cons, List.map_nil, List.sum_cons, List.sum_nil] at hfmt
  omega

/-- A signed 32-bit value takes at most a sign and ten digits. -/
theorem length_text_d_le (value : Int32) : (Arg.d value).text.length ≤ 11 := by
  have hlo := value.le_toInt
  have hhi := value.toInt_lt
  apply length_decimalInt_le (by decide)
  omega

end Printf
