import EspushAt.Tools.Image

/-!
# The build

`Makefile` chooses from five variables a linker script, the arguments of `gen_appbin.py` and
the flash address the result is for. `gen_misc.sh` asks for the variables, and so does
`gen_misc.bat` on Windows. The linker scripts in `ld` say where the code that stays in flash
is linked to.
-/

namespace EspushAt

open CString

/-- The variables of a call of `make`, with the defaults `?=` gives them. -/
structure MakeVars where
  BOOT : String := "none"
  APP : String := "0"
  SPI_SPEED : String := "40"
  SPI_MODE : String := "QIO"
  SPI_SIZE_MAP : String := "0"

inductive Boot where
  | none
  | old
  | new
  deriving DecidableEq

namespace MakeVars

variable (v : MakeVars)

def boot : Boot := if v.BOOT = "new" then .new else if v.BOOT = "old" then .old else .none

/-- `app` as it is read from `APP`. -/
def appGiven : Nat := if v.APP = "1" then 1 else if v.APP = "2" then 2 else 0

def freqdiv : Nat :=
  if v.SPI_SPEED = "26.7" then 1
  else if v.SPI_SPEED = "20" then 2
  else if v.SPI_SPEED = "80" then 15
  else 0

def mode : Nat :=
  if v.SPI_MODE = "QOUT" then 1
  else if v.SPI_MODE = "DIO" then 2
  else if v.SPI_MODE = "DOUT" then 3
  else 0

def sizeMap : Nat :=
  if v.SPI_SIZE_MAP = "1" then 1
  else if v.SPI_SIZE_MAP = "2" then 2
  else if v.SPI_SIZE_MAP = "3" then 3
  else if v.SPI_SIZE_MAP = "4" then 4
  else if v.SPI_SIZE_MAP = "5" then 5
  else if v.SPI_SIZE_MAP = "6" then 6
  else 0

/-- The size of the flash in KiB. -/
def flash : Nat :=
  match v.sizeMap with
  | 1 => 256
  | 2 => 1024
  | 3 | 5 => 2048
  | 4 | 6 => 4096
  | _ => 512

def addr : Nat :=
  if v.appGiven = 2 then
    match v.sizeMap with
    | 1 => 0x01000
    | 2 | 3 | 4 => 0x81000
    | 5 | 6 => 0x101000
    | _ => 0x41000
  else 0x01000

/-- `app` in the end: without a boot loader there is one application. -/
def app : Nat := if v.boot = .none then 0 else v.appGiven

end MakeVars

/-! ### Linker scripts -/

/-- `eagle.app.v6.ld`, or `eagle.app.v6.$(boot).$(size).ld` with `.app$(app)` before the
ending or without. -/
inductive LdFile where
  | plain
  | ota (boot : Boot) (size : Nat) (app : Option Nat)
  deriving DecidableEq

def MakeVars.ldFile (v : MakeVars) : LdFile :=
  if v.boot ≠ .none ∧ v.appGiven ≠ 0 then
    match v.sizeMap with
    | 5 | 6 => .ota v.boot 2048 none
    | 2 | 3 | 4 => .ota v.boot 1024 (some v.appGiven)
    | 0 => .ota v.boot 512 (some v.appGiven)
    | _ => .plain
  else .plain

/-- `irom0_0_seg` of a script. -/
structure IromSeg where
  org : Nat
  len : Nat

/-- The scripts in `ld`. -/
def ldScripts : List (LdFile × IromSeg) :=
  [(.plain, ⟨0x40240000, 0x3C000⟩),
    (.ota .new 512 (some 1), ⟨0x40201010, 0x2B000⟩),
    (.ota .new 512 (some 2), ⟨0x40241010, 0x2B000⟩),
    (.ota .new 1024 (some 1), ⟨0x40201010, 0x6B000⟩),
    (.ota .new 1024 (some 2), ⟨0x40281010, 0x6B000⟩),
    (.ota .new 2048 none, ⟨0x40201010, 0xE0000⟩),
    (.ota .old 512 (some 1), ⟨0x40211000, 0x2B000⟩),
    (.ota .old 512 (some 2), ⟨0x40251000, 0x2B000⟩),
    (.ota .old 1024 (some 1), ⟨0x40211000, 0x6B000⟩),
    (.ota .old 1024 (some 2), ⟨0x40291000, 0x6B000⟩)]

/-- The script a build links with, if there is one. -/
def MakeVars.iromSeg (v : MakeVars) : Option IromSeg := ldScripts.lookup v.ldFile

/-! ### The recipe -/

def MakeVars.bootMode (v : MakeVars) : BootMode :=
  if v.app = 0 then .boot0 else if v.boot ≠ .new then .boot1 else .boot2

def MakeVars.args (v : MakeVars) : AppbinArgs :=
  ⟨v.bootMode, v.mode, v.freqdiv, v.sizeMap, v.app⟩

/-- The files a build leaves, each with the flash address the recipe prints for it. -/
def MakeVars.files (v : MakeVars) (flash irom0text : Bytes) : List (Nat × Bytes) :=
  if v.app = 0 then [(0x00000, flash), (0x40000, irom0text)] else [(v.addr, flash)]

/-- The whole build of a linked program. -/
def MakeVars.build (v : MakeVars) (p : Program) : Option (List (Nat × Bytes)) :=
  (runAppbin v.args p []).map fun out => v.files out.flash p.irom0text

/-! ### Questions -/

/-- The answers to the five questions of `gen_misc.sh` and `gen_misc.bat`; an empty one is the
default. They are of letters and digits, which both scripts read as they are typed: `read` in
`gen_misc.sh` would take a backslash away, and spaces would leave `[` too many words. -/
structure Answers where
  boot : String
  app : String
  spiSpeed : String
  spiMode : String
  spiSizeMap : String
  plain : ∀ answer ∈ [boot, app, spiSpeed, spiMode, spiSizeMap],
    answer.toList.all Char.isAlphanum

namespace Answers

variable (is : String → String → Prop) [DecidableRel is] (a : Answers)

/-- `boot` after the first question; `is` is how a script compares an answer with a word. -/
def bootVersion : String :=
  if is a.boot "0" then "old" else if is a.boot "1" then "new" else "none"

/-- `boot` and `app` after the second one: without a boot loader there is one application,
and for one application the boot loader is ignored. -/
def bootVar : String := if is a.app "1" ∨ is a.app "2" then a.bootVersion is else "none"

def appVar : String :=
  if is a.app "1" then if a.bootVersion is = "none" then "0" else "1"
  else if is a.app "2" then if a.bootVersion is = "none" then "0" else "2"
  else "0"

def spiSpeedVar : String :=
  if is a.spiSpeed "0" then "20"
  else if is a.spiSpeed "1" then "26.7"
  else if is a.spiSpeed "3" then "80"
  else "40"

def spiModeVar : String :=
  if is a.spiMode "1" then "QOUT"
  else if is a.spiMode "2" then "DIO"
  else if is a.spiMode "3" then "DOUT"
  else "QIO"

def spiSizeMapVar : String :=
  if is a.spiSizeMap "2" then "2"
  else if is a.spiSizeMap "3" then "3"
  else if is a.spiSizeMap "4" then "4"
  else if is a.spiSizeMap "5" then "5"
  else if is a.spiSizeMap "6" then "6"
  else "0"

end Answers

/-- The call of `make` at the end of `gen_misc.sh`, which compares texts. -/
def genMisc (a : Answers) : MakeVars :=
  ⟨a.bootVar Eq, a.appVar Eq, a.spiSpeedVar Eq, a.spiModeVar Eq, a.spiSizeMapVar Eq⟩

/-! ### Windows -/

/-- The words the questions offer. -/
def offered : List String := ["0", "1", "2", "3", "4", "5", "6"]

/-- The shell of `gen_misc.bat`. Its `equ` compares numbers where both sides are numbers, and
texts otherwise. -/
structure Cmd where
  equ : String → String → Bool
  equ_eq : ∀ s ∈ "default" :: offered, ∀ t ∈ offered, equ s t = decide (s = t)

/-- `input`, which keeps the word `default` when nothing is typed. -/
def batInput (answer : String) : String := if answer = "" then "default" else answer

def Cmd.Is (sh : Cmd) (answer word : String) : Prop := sh.equ (batInput answer) word = true

instance (sh : Cmd) : DecidableRel sh.Is := fun _ _ => inferInstanceAs (Decidable (_ = true))

/-- The call of `make` at the end of `gen_misc.bat`. It sets `SPI_SIZE`, which is no variable
of the build. -/
def genMiscBat (sh : Cmd) (a : Answers) : MakeVars where
  BOOT := a.bootVar sh.Is
  APP := a.appVar sh.Is
  SPI_SPEED := a.spiSpeedVar sh.Is
  SPI_MODE := a.spiModeVar sh.Is

end EspushAt
