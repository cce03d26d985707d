import EspushAt.Foundations.Checksum
import EspushAt.Foundations.Records

/-!
# Firmware images

`gen_appbin.py` makes the file that is written to the flash out of the sections of a linked
program: a header, the sections that are loaded to RAM, a checksum, and for the boot
loaders the code that stays in flash and a CRC. The script appends to the file as it goes.
-/

namespace EspushAt

open CString Words Checksum Records

/-- A line of what `nm` prints. -/
structure NmSymbol where
  addr : UInt32
  kind : Char
  name : String

/-- The linked program: its symbols and the files `objcopy` makes of its sections. -/
structure Program where
  symbols : List NmSymbol
  irom0text : Bytes
  text : Bytes
  data : Bytes
  rodata : Bytes

/-- `boot_mode`: without a boot loader, for `boot_v1.1`, and for `boot_v1.2` and later. -/
inductive BootMode where
  | boot0
  | boot1
  | boot2
  deriving DecidableEq

/-- The other arguments of the script. -/
structure AppbinArgs where
  bootMode : BootMode
  flashMode : Nat
  flashClkDiv : Nat
  flashSizeMap : Nat
  userBin : Nat

def TEXT_ADDRESS : Nat := 0x40100000
def CHECKSUM_INIT : UInt8 := 0xEF
def BIN_MAGIC_FLASH : UInt8 := 0xE9
def BIN_MAGIC_IROM : UInt8 := 0xEA

/-- `eagle.app.flash.bin` and the two global variables. -/
structure Build where
  flash : Bytes
  chkSum : UInt8
  blocks : Nat

/-- The script may stop with an error. -/
abbrev BuildM := StateT Build Option

/-! ### Parts of the script -/

def writeFile (data : Bytes) : BuildM Unit := modify fun s => { s with flash := s.flash ++ data }

/-- The format `I` of `struct.pack`. -/
def packI (n : Nat) : BuildM Bytes := if n < 2 ^ 32 then pure (littleEndian 4 n) else failure

def addChk (data : Bytes) : BuildM Unit :=
  modify fun s => { s with chkSum := xorSum s.chkSum data }

/-- The next multiple, as `(n + 3) & ~3` and `(n + 15) & ~15`. -/
def alignUp (k n : Nat) : Nat := (n + (k - 1)) / k * k

def combineBin (file : Bytes) (startOffsetAddr : Nat) (needChk : Bool) : BuildM Unit := do
  let dataLen := file.length
  if dataLen ≠ 0 then
    let tmpLen := if needChk then alignUp 4 dataLen else alignUp 16 dataLen
    let addr ← packI startOffsetAddr
    let len ← packI tmpLen
    writeFile (addr ++ len)
    writeFile file
    if needChk then
      addChk file
    let tmpLen := tmpLen - dataLen
    if tmpLen ≠ 0 then
      let zeros := List.replicate tmpLen 0
      writeFile zeros
      if needChk then
        addChk zeros
    modify fun s => { s with blocks := s.blocks + 1 }

/-- `binascii.crc32`. -/
def crc32 (data : Bytes) (crc : Int32) : Int32 :=
  .ofBitVec (~~~ Checksum.crc 0xEDB88320#32 (~~~ crc.toBitVec) data)

/-- The loop of `getFileCRC`, a block of 64 KiB at a time. -/
def getFileCRCLoop (file : Bytes) (crc : Int32) : Int32 :=
  if file = [] then crc
  else getFileCRCLoop (file.drop (1024 * 64)) (crc32 (file.take (1024 * 64)) crc)
termination_by file.length
decreasing_by
  rename_i hne
  have hpos := List.length_pos_of_ne_nil hne
  rw [List.length_drop]
  omega

def getFileCRC (file : Bytes) : Int32 := getFileCRCLoop file 0

/-- What the script makes of a CRC, which is signed, and the four bytes it writes. -/
def trailerValue (crc : Int32) : Nat :=
  if crc.toInt < 0 then crc.toInt.natAbs - 1 else crc.toInt.natAbs + 1

def crcTrailer (crc : Int32) : Bytes := littleEndian 4 (trailerValue crc)

/-- The address of a symbol, the last one when there are several. -/
def symbolAddr (symbols : List NmSymbol) (kind : Char) (name : String) : Option UInt32 :=
  symbols.foldl (fun found s => if s.kind = kind ∧ s.name = name then some s.addr else found) none

def Program.entryAddr (p : Program) : Option UInt32 := symbolAddr p.symbols 'T' "call_user_start"

def Program.dataStartAddr (p : Program) : UInt32 :=
  (symbolAddr p.symbols 'A' "_data_start").getD 0

def Program.rodataStartAddr (p : Program) : UInt32 :=
  (symbolAddr p.symbols 'A' "_rodata_start").getD 0

/-- Zeros up to the last byte of a line of 16, and the checksum in that byte. -/
def writeChecksum : BuildM Unit := do
  let sumSize := (← get).flash.length + 1
  let sumSize := 16 - (0xF &&& sumSize)
  if sumSize ≠ 0 then
    writeFile (List.replicate sumSize 0)
  writeFile [(← get).chkSum]

def genAppbin (a : AppbinArgs) (p : Program) : BuildM Unit := do
  let some entryAddr := p.entryAddr | failure
  let byte2 := UInt8.ofNat a.flashMode
  let byte3 := UInt8.ofNat (a.flashSizeMap <<< 4 ||| a.flashClkDiv)
  let app := UInt8.ofNat a.userBin
  let entry ← packI entryAddr.toNat
  if a.bootMode = .boot2 then
    writeFile ([BIN_MAGIC_IROM, 4, 0, app] ++ entry)
    combineBin p.irom0text 0 false
  if a.bootMode = .boot1 then
    writeFile ([BIN_MAGIC_FLASH, 3, 0, app] ++ entry)
  else
    writeFile ([BIN_MAGIC_FLASH, 3, byte2, byte3] ++ entry)
  combineBin p.text TEXT_ADDRESS true
  combineBin p.data p.dataStartAddr.toNat true
  combineBin p.rodata p.rodataStartAddr.toNat true
  writeChecksum
  if a.bootMode = .boot1 then
    let sumSize := (← get).flash.length
    writeFile (List.replicate (0x10000 - sumSize) 0xFF)
    writeFile p.irom0text
  if a.bootMode = .boot1 ∨ a.bootMode = .boot2 then
    let allBinCrc := getFileCRC (← get).flash
    writeFile (crcTrailer allBinCrc)

/-- A run of the script that finds some bytes in the file. -/
def runAppbin (a : AppbinArgs) (p : Program) (before : Bytes) : Option Build :=
  ((genAppbin a p).run ⟨before, CHECKSUM_INIT, 0⟩).map (·.2)

/-! ### What the parts do -/

/-- A file with zeros up to a multiple of some length. -/
def padTo (k : Nat) (file : Bytes) : Bytes :=
  file ++ List.replicate (alignUp k file.length - file.length) 0

/-- The records of a section; an empty one has none. -/
def segment (k addr : Nat) (file : Bytes) : List Entry :=
  if file = [] then [] else [⟨littleEndian 4 addr, padTo k file⟩]

theorem le_alignUp {k : Nat} (hk : 0 < k) (n : Nat) : n ≤ alignUp k n := by
  have hdiv := Nat.div_add_mod (n + (k - 1)) k
  have hlt := Nat.mod_lt (n + (k - 1)) hk
  rw [alignUp, Nat.mul_comm]
  omega

theorem length_padTo {k : Nat} (hk : 0 < k) (file : Bytes) :
    (padTo k file).length = alignUp k file.length := by
  have hle := le_alignUp hk file.length
  rw [padTo, List.length_append, List.length_replicate]
  omega

section Run

variable (s : Build)

theorem run_writeFile (data : Bytes) :
    (writeFile data).run s = some ((), { s with flash := s.flash ++ data }) := rfl

theorem run_addChk (data : Bytes) :
    (addChk data).run s = some ((), { s with chkSum := xorSum s.chkSum data }) := rfl

theorem run_packI {n : Nat} (h : n < 2 ^ 32) : (packI n).run s = some (littleEndian 4 n, s) := by
  rw [packI, if_pos h]
  rfl

theorem run_packI_of_le {n : Nat} (h : 2 ^ 32 ≤ n) : (packI n).run s = none := by
  rw [packI, if_neg (Nat.not_lt.mpr h)]
  rfl

/-- A build with the records of a section behind it. -/
def Build.append (s : Build) (needChk : Bool) (es : List Entry) : Build where
  flash := s.flash ++ es.flatMap (encode 4)
  chkSum := if needChk then xorSum s.chkSum (es.flatMap Entry.data) else s.chkSum
  blocks := s.blocks + es.length

/-- What a section is aligned to. -/
def alignment (needChk : Bool) : Nat := if needChk then 4 else 16

/-- A section is written as its records, when its length fits. -/
theorem run_combineBin (file : Bytes) {addr : Nat} (haddr : addr < 2 ^ 32) (needChk : Bool) :
    (combineBin file addr needChk).run s =
      if alignUp (alignment needChk) file.length < 2 ^ 32 then
        some ((), s.append needChk (segment (alignment needChk) addr file))
      else none := by
  by_cases hfile : file = []
  · subst hfile
    cases needChk <;> simp [combineBin, segment, Build.append, alignUp, alignment]
  · have hlen : file.length ≠ 0 := fun h => hfile (List.length_eq_zero_iff.mp h)
    split_ifs with hfit
    · cases needChk with
      | false =>
        obtain ⟨pad, hpad⟩ := Nat.exists_eq_add_of_le (le_alignUp (by decide : 0 < 16) file.length)
        have hlength := run_packI s (hpad ▸ hfit : file.length + pad < 2 ^ 32)
        cases pad <;>
          simp_all [combineBin, run_packI _ haddr, run_writeFile, segment, Build.append, alignment,
            encode, padTo]
      | true =>
        obtain ⟨pad, hpad⟩ := Nat.exists_eq_add_of_le (le_alignUp (by decide : 0 < 4) file.length)
        have hlength := run_packI s (hpad ▸ hfit : file.length + pad < 2 ^ 32)
        cases pad <;>
          simp_all [combineBin, run_packI _ haddr, run_writeFile, run_addChk, segment, Build.append,
            alignment, encode, padTo, xorSum_append, xorSum_replicate_zero]
    · have hle : 2 ^ 32 ≤ alignUp (alignment needChk) file.length := Nat.not_lt.mp hfit
      cases needChk with
      | false =>
        have hle : 2 ^ 32 ≤ alignUp 16 file.length := hle
        simp [combineBin, hlen, run_packI _ haddr, run_packI_of_le _ hle]
      | true =>
        have hle : 2 ^ 32 ≤ alignUp 4 file.length := hle
        simp [combineBin, hlen, run_packI _ haddr, run_packI_of_le _ hle]

/-- A line of 16 bytes closed with a checksum in its last byte. -/
def closeLine (front : Bytes) (sum : UInt8) : Bytes :=
  front ++ List.replicate (16 - (front.length + 1) % 16) 0 ++ [sum]

theorem run_writeChecksum :
    writeChecksum.run s = some ((), { s with flash := closeLine s.flash s.chkSum }) := by
  have hmod : 0xF &&& (s.flash.length + 1) = (s.flash.length + 1) % 16 := by
    rw [Nat.and_comm]
    exact Nat.and_two_pow_sub_one_eq_mod _ 4
  have hne : 16 - (s.flash.length + 1) % 16 ≠ 0 := by omega
  simp [writeChecksum, hmod, hne, run_writeFile, closeLine]

end Run

/-! ### What the script does -/

/-- The sections that are loaded to RAM, and the one that stays in flash behind a boot
loader of its own header. -/
def Program.loaded (p : Program) : List Entry :=
  segment 4 TEXT_ADDRESS p.text ++ segment 4 p.dataStartAddr.toNat p.data ++
    segment 4 p.rodataStartAddr.toNat p.rodata

def Program.irom (p : Program) : List Entry := segment 16 0 p.irom0text

/-- The lengths `struct.pack` has to write. -/
def Program.Packs (p : Program) (mode : BootMode) : Prop :=
  (mode = .boot2 → alignUp 16 p.irom0text.length < 2 ^ 32) ∧
    alignUp 4 p.text.length < 2 ^ 32 ∧ alignUp 4 p.data.length < 2 ^ 32 ∧
    alignUp 4 p.rodata.length < 2 ^ 32

instance (p : Program) (mode : BootMode) : Decidable (p.Packs mode) :=
  inferInstanceAs (Decidable (_ ∧ _))

theorem packs_boot1 {p : Program} : p.Packs .boot1 ↔ p.Packs .boot0 := by
  simp [Program.Packs]

theorem packs_boot2 {p : Program} :
    p.Packs .boot2 ↔ alignUp 16 p.irom0text.length < 2 ^ 32 ∧ p.Packs .boot0 := by
  simp [Program.Packs]

/-- The two bytes of a header for the flash, or for the boot loader. -/
def AppbinArgs.flags (a : AppbinArgs) : Bytes :=
  if a.bootMode = .boot1 then [0, UInt8.ofNat a.userBin]
  else [UInt8.ofNat a.flashMode, UInt8.ofNat (a.flashSizeMap <<< 4 ||| a.flashClkDiv)]

/-- What stands before the image. -/
def bootHeader (a : AppbinArgs) (p : Program) (entry : UInt32) : Bytes :=
  if a.bootMode = .boot2 then
    [BIN_MAGIC_IROM, 4, 0, UInt8.ofNat a.userBin] ++ littleEndian 4 entry.toNat ++
      p.irom.flatMap (encode 4)
  else []

/-- The header and the sections of the image. -/
def appImage (a : AppbinArgs) (p : Program) (entry : UInt32) : Bytes :=
  [BIN_MAGIC_FLASH, 3] ++ a.flags ++ littleEndian 4 entry.toNat ++ p.loaded.flatMap (encode 4)

/-- The checksum of the image. -/
def Program.sum (p : Program) : UInt8 := xorSum CHECKSUM_INIT (p.loaded.flatMap Entry.data)

/-- What is written behind the image: up to 64 KiB and the code that stays in flash, and
the CRC of the whole. -/
def imageTail (mode : BootMode) (p : Program) (closed : Bytes) : Bytes :=
  match mode with
  | .boot0 => []
  | .boot1 =>
      let whole := List.replicate (0x10000 - closed.length) 0xFF ++ p.irom0text
      whole ++ crcTrailer (getFileCRC (closed ++ whole))
  | .boot2 => crcTrailer (getFileCRC closed)

def appbin (a : AppbinArgs) (p : Program) (entry : UInt32) (before : Bytes) : Build :=
  let closed := closeLine (before ++ bootHeader a p entry ++ appImage a p entry) p.sum
  { flash := closed ++ imageTail a.bootMode p closed
    chkSum := p.sum
    blocks := (if a.bootMode = .boot2 then p.irom.length else 0) + p.loaded.length }

theorem append_append (s : Build) (needChk : Bool) (es es' : List Entry) :
    (s.append needChk es).append needChk es' = s.append needChk (es ++ es') := by
  cases needChk <;> simp [Build.append, xorSum_append, Nat.add_assoc]

/-- The three sections, and what the script goes on with. -/
theorem bind_loaded {α : Type} (p : Program) (s : Build) (k : Unit × Build → Option α) :
    (((combineBin p.text TEXT_ADDRESS true).run s).bind fun r =>
      ((combineBin p.data p.dataStartAddr.toNat true).run r.2).bind fun r =>
        ((combineBin p.rodata p.rodataStartAddr.toNat true).run r.2).bind k) =
    if p.Packs .boot0 then k ((), s.append true p.loaded) else none := by
  simp only [run_combineBin _ _ (by decide : TEXT_ADDRESS < 2 ^ 32),
    run_combineBin _ _ p.dataStartAddr.toNat_lt, run_combineBin _ _ p.rodataStartAddr.toNat_lt]
  by_cases htext : alignUp (alignment true) p.text.length < 2 ^ 32
  · by_cases hdata : alignUp (alignment true) p.data.length < 2 ^ 32
    · by_cases hrodata : alignUp (alignment true) p.rodata.length < 2 ^ 32
      · have hpacks : p.Packs .boot0 := ⟨by simp, htext, hdata, hrodata⟩
        rw [if_pos htext, if_pos hpacks]
        simp only [Option.bind_some, if_pos hdata, if_pos hrodata]
        rw [append_append, append_append, ← List.append_assoc]
        rfl
      · have hpacks : ¬p.Packs .boot0 := fun h => hrodata h.2.2.2
        simp only [if_pos htext, if_pos hdata, if_neg hrodata, if_neg hpacks, Option.bind_some,
          Option.bind_none]
    · have hpacks : ¬p.Packs .boot0 := fun h => hdata h.2.2.1
      simp only [if_pos htext, if_neg hdata, if_neg hpacks, Option.bind_some, Option.bind_none]
  · have hpacks : ¬p.Packs .boot0 := fun h => htext h.2.1
    rw [if_neg htext, if_neg hpacks]
    rfl

/-- The script needs a symbol `call_user_start` and lengths of 32 bits. -/
theorem runAppbin_eq (a : AppbinArgs) (p : Program) (before : Bytes) : runAppbin a p before =
    match p.entryAddr with
    | none => none
    | some entry => if p.Packs a.bootMode then some (appbin a p entry before) else none := by
  cases hentry : p.entryAddr with
  | none =>
      rw [runAppbin, genAppbin, hentry]
      rfl
  | some entry =>
      have hentry' := entry.toNat_lt
      cases hmode : a.bootMode with
      | boot0 =>
        simp only [runAppbin, genAppbin, hentry, hmode, reduceCtorEq, if_false, StateT.run_bind,
          run_packI _ hentry', run_writeFile, Option.bind_eq_bind, Option.bind_some, or_self,
          bind_loaded, run_writeChecksum]
        split_ifs
        · simp [appbin, bootHeader, appImage, imageTail, AppbinArgs.flags, hmode, Build.append,
            Program.sum, -UInt8.ofNat_or, -UInt8.ofNat_shiftLeft]
        · rfl
      | boot1 =>
        simp only [runAppbin, genAppbin, hentry, hmode, if_true, StateT.run_bind, reduceCtorEq,
          if_false, run_packI _ hentry', run_writeFile, Option.bind_eq_bind, Option.bind_some,
          or_false, bind_loaded, run_writeChecksum, StateT.run_get, Option.pure_def, packs_boot1]
        split_ifs
        · simp [appbin, bootHeader, appImage, imageTail, AppbinArgs.flags, hmode, Build.append,
            Program.sum]
        · rfl
      | boot2 =>
        simp only [runAppbin, genAppbin, hentry, hmode, if_true, StateT.run_bind, reduceCtorEq,
          if_false, run_packI _ hentry', run_writeFile, Option.bind_eq_bind, Option.bind_some,
          false_or, run_combineBin _ _ (by decide : 0 < 2 ^ 32), bind_loaded, run_writeChecksum,
          StateT.run_get, Option.pure_def, packs_boot2]
        by_cases hirom : alignUp 16 p.irom0text.length < 2 ^ 32
        · have hirom' : alignUp (alignment false) p.irom0text.length < 2 ^ 32 := hirom
          simp only [if_pos hirom', Option.bind_some, hirom, true_and]
          split_ifs
          · simp [appbin, bootHeader, appImage, imageTail, AppbinArgs.flags, hmode, Build.append,
              Program.sum, Program.irom, alignment, -UInt8.ofNat_or, -UInt8.ofNat_shiftLeft]
          · rfl
        · have hirom' : ¬alignUp (alignment false) p.irom0text.length < 2 ^ 32 := hirom
          rw [if_neg hirom', if_neg fun h => hirom h.1]
          rfl

theorem runAppbin_of_packs {a : AppbinArgs} {p : Program} {entry : UInt32}
    (hentry : p.entryAddr = some entry) (hpacks : p.Packs a.bootMode) (before : Bytes) :
    runAppbin a p before = some (appbin a p entry before) := by
  rw [runAppbin_eq, hentry]
  exact if_pos hpacks

end EspushAt
