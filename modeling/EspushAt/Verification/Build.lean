import EspushAt.Tools.Build
import EspushAt.Verification.Image
import Mathlib.Tactic.IntervalCases

/-!
# Code where it is linked to

Three files have to agree on the place of the code that stays in flash: the linker script
says where it runs, `gen_appbin.py` where it stands in the file, and `Makefile` to what
address the file is written. They are compared modulo 1 MiB, and do agree but for one
size map, which `gen_misc.sh` never asks for; `gen_misc.bat` only ever asks for the first.
-/

namespace EspushAt

open CString

/-- Where the code that stays in flash comes to lie in it. -/
def MakeVars.codeAddr (v : MakeVars) : Nat :=
  if v.app = 0 then 0x40000 else v.addr + iromOffset v.bootMode

/-- A script links the code to a place in flash. -/
def IromSeg.LinksTo (seg : IromSeg) (place : Nat) : Prop :=
  seg.org = 0x40200000 + place % 0x100000

instance (seg : IromSeg) (place : Nat) : Decidable (seg.LinksTo place) :=
  inferInstanceAs (Decidable (_ = _))

section Choices

variable {v : MakeVars} {seg : IromSeg}

theorem appGiven_cases (v : MakeVars) : v.appGiven = 0 ∨ v.appGiven = 1 ∨ v.appGiven = 2 := by
  rw [MakeVars.appGiven]
  split_ifs <;> simp

theorem sizeMap_lt (v : MakeVars) : v.sizeMap < 7 := by
  rw [MakeVars.sizeMap]
  split_ifs <;> decide

/-- The code comes to lie where it is linked to, but for the size map 1 with a boot loader. -/
theorem linksTo_iff (hseg : v.iromSeg = some seg) :
    seg.LinksTo v.codeAddr ↔ v.app = 0 ∨ v.sizeMap ≠ 1 := by
  have hsize := sizeMap_lt v
  have happ := appGiven_cases v
  rw [MakeVars.iromSeg, MakeVars.ldFile] at hseg
  rw [MakeVars.codeAddr, MakeVars.bootMode, MakeVars.addr, MakeVars.app]
  generalize v.boot = boot at *
  generalize v.appGiven = app at *
  generalize v.sizeMap = size at *
  rcases happ with rfl | rfl | rfl <;> interval_cases size <;> cases boot <;>
    first
    | (obtain rfl := Option.some.inj hseg; decide)
    | exact absurd (show none = some seg from hseg) (by simp)

/-- A script is missing for `boot_v1.1` with slots of 1024 KiB, and for nothing else. -/
theorem isSome_iromSeg_iff (v : MakeVars) :
    v.iromSeg.isSome = true ↔ ¬(v.boot = .old ∧ v.app ≠ 0 ∧ (v.sizeMap = 5 ∨ v.sizeMap = 6)) := by
  have hsize := sizeMap_lt v
  have happ := appGiven_cases v
  rw [MakeVars.iromSeg, MakeVars.ldFile, MakeVars.app]
  generalize v.boot = boot at *
  generalize v.appGiven = app at *
  generalize v.sizeMap = size at *
  rcases happ with rfl | rfl | rfl <;> interval_cases size <;> cases boot <;> decide

end Choices

/-! ### Builds -/

section Builds

variable {v : MakeVars} {p : Program} {entry : UInt32} {seg : IromSeg}

theorem bootMode_ne_boot0 (happ : v.app ≠ 0) : v.bootMode ≠ .boot0 := by
  rw [MakeVars.bootMode, if_neg happ]
  split_ifs <;> simp

/-- Every build writes the code that stays in flash to the place it is linked to, but for
the size map 1 with a boot loader. -/
theorem build_places_code (hentry : p.entryAddr = some entry) (hpacks : p.Packs v.bootMode)
    (hseg : v.iromSeg = some seg) (hfits : v.bootMode = .boot1 → p.imageLength ≤ 0x10000) :
    ∃ files, v.build p = some files ∧
      (∃ at' file offset, (at', file) ∈ files ∧ p.irom0text <+: file.drop offset ∧
        at' + offset = v.codeAddr) ∧
      (seg.LinksTo v.codeAddr ↔ v.app = 0 ∨ v.sizeMap ≠ 1) := by
  refine ⟨v.files (appbin v.args p entry []).flash p.irom0text, ?_, ?_, linksTo_iff hseg⟩
  · have hrun : runAppbin v.args p [] = some (appbin v.args p entry []) :=
      runAppbin_of_packs hentry hpacks []
    rw [MakeVars.build, hrun]
    rfl
  · rw [MakeVars.files, MakeVars.codeAddr]
    by_cases happ : v.app = 0
    · rw [if_pos happ, if_pos happ]
      exact ⟨0x40000, p.irom0text, 0, by simp, List.prefix_refl _, rfl⟩
    · rw [if_neg happ, if_neg happ]
      have hprefix := @prefix_drop_flash v.args p entry (bootMode_ne_boot0 happ) hfits
      exact ⟨v.addr, _, iromOffset v.bootMode, List.mem_singleton_self _, hprefix, rfl⟩

/-- A build for `boot_v1.2` in the second slot of 256 KiB. -/
theorem build_places_code_new :
    ∃ files, (⟨"new", "2", "40", "QIO", "0"⟩ : MakeVars).build sampleProgram = some files ∧
      (∃ at' file offset, (at', file) ∈ files ∧ [7] <+: file.drop offset ∧
        at' + offset = 0x41010) ∧
      ((⟨0x40241010, 0x2B000⟩ : IromSeg).LinksTo 0x41010 ↔
        (⟨"new", "2", "40", "QIO", "0"⟩ : MakeVars).app = 0 ∨
          (⟨"new", "2", "40", "QIO", "0"⟩ : MakeVars).sizeMap ≠ 1) :=
  build_places_code (v := ⟨"new", "2", "40", "QIO", "0"⟩) (p := sampleProgram) rfl (by decide)
    rfl (by decide)

/-- Where the second application of a build for the same flash begins. -/
def MakeVars.slot2 (v : MakeVars) : Nat := { v with APP := "2" : MakeVars }.addr

/-- How far a segment that is full reaches behind an image of 64 KiB. -/
theorem addr_add_len_le (hseg : v.iromSeg = some seg) (hsize : v.sizeMap ≠ 1) :
    if v.app = 0 then 0x40000 + seg.len ≤ v.flash * 1024
    else v.addr + (0x10000 + seg.len + 64) ≤ v.flash * 1024 ∧
      (v.app = 1 → v.addr + (0x10000 + seg.len + 64) ≤ v.slot2) := by
  have hlt := sizeMap_lt v
  have happ := appGiven_cases v
  have happ2 : { v with APP := "2" : MakeVars }.appGiven = 2 := rfl
  have hsize2 : { v with APP := "2" : MakeVars }.sizeMap = v.sizeMap := rfl
  rw [MakeVars.iromSeg, MakeVars.ldFile] at hseg
  rw [MakeVars.slot2, MakeVars.addr, MakeVars.addr, happ2, hsize2, MakeVars.flash, MakeVars.app]
  generalize v.boot = boot at *
  generalize v.appGiven = app at *
  generalize v.sizeMap = size at *
  rcases happ with rfl | rfl | rfl <;> interval_cases size <;> cases boot <;>
    first
    | exact absurd rfl hsize
    | (obtain rfl := Option.some.inj hseg; decide)
    | exact absurd (show none = some seg from hseg) (by simp)

/-- Code that fits the segment of its linker script and an image of 64 KiB at most make files
that fit the flash and do not overlap, and the first application ends before the second
begins. The size map 1 is left out: its flash is smaller than the segment. -/
theorem build_fits (hentry : p.entryAddr = some entry) (hpacks : p.Packs v.bootMode)
    (hseg : v.iromSeg = some seg) (hsize : v.sizeMap ≠ 1) (hirom : p.irom0text.length ≤ seg.len)
    (himage : p.imageLength ≤ 0x10000) :
    ∃ files, v.build p = some files ∧
      (∀ f ∈ files, f.1 + f.2.length ≤ v.flash * 1024) ∧
      (files.Pairwise fun f g => f.1 + f.2.length ≤ g.1) ∧
      (v.app = 1 → ∀ f ∈ files, f.1 + f.2.length ≤ v.slot2) := by
  refine ⟨v.files (appbin v.args p entry []).flash p.irom0text, ?_, ?_⟩
  · rw [MakeVars.build, runAppbin_of_packs hentry hpacks]
    rfl
  have hreach := addr_add_len_le hseg hsize
  rw [MakeVars.files]
  by_cases happ : v.app = 0
  · have hmode : v.args.bootMode = .boot0 := if_pos happ
    have hlength := @length_flash_boot0 v.args p entry hmode
    rw [if_pos happ] at hreach ⊢
    simp only [List.forall_mem_cons, List.pairwise_cons, hlength]
    refine ⟨⟨?_, ?_, by simp⟩, ⟨?_, by simp⟩, fun h => absurd h (by omega)⟩
    · omega
    · omega
    · simp
      omega
  · have hlength := @length_flash_le v.args p entry (bootMode_ne_boot0 happ) himage
    rw [if_neg happ] at hreach ⊢
    simp only [List.forall_mem_singleton, List.pairwise_singleton, true_and]
    refine ⟨by omega, fun h => ?_⟩
    have hslot := hreach.2 h
    omega

/-- A build for `boot_v1.2` in the first slot of 512 KiB. -/
theorem build_fits_new :
    let v : MakeVars := ⟨"new", "1", "40", "QIO", "2"⟩
    ∃ files, v.build sampleProgram = some files ∧
      (∀ f ∈ files, f.1 + f.2.length ≤ v.flash * 1024) ∧
      (files.Pairwise fun f g => f.1 + f.2.length ≤ g.1) ∧
      (v.app = 1 → ∀ f ∈ files, f.1 + f.2.length ≤ v.slot2) :=
  build_fits (v := ⟨"new", "1", "40", "QIO", "2"⟩) (p := sampleProgram) rfl (by decide) rfl
    (by decide) (by decide) (by decide)

end Builds

/-! ### Answers -/

section Questions

variable {a : Answers}

theorem boot_genMisc (a : Answers) : (genMisc a).boot =
    if a.app = "1" ∨ a.app = "2" then
      if a.boot = "0" then .old else if a.boot = "1" then .new else .none
    else .none := by
  change (if a.bootVar Eq = "new" then Boot.new else if a.bootVar Eq = "old" then .old
    else .none) = _
  rw [Answers.bootVar, Answers.bootVersion]
  split_ifs <;> first | rfl | contradiction

theorem appGiven_genMisc (h : (genMisc a).boot ≠ .none) : (genMisc a).appGiven ≠ 0 := by
  rw [boot_genMisc] at h
  change (if a.appVar Eq = "1" then 1 else if a.appVar Eq = "2" then 2 else 0) ≠ 0
  rw [Answers.appVar, Answers.bootVersion]
  split_ifs at h with happ hold hnew
  · rcases happ with happ | happ <;> simp [happ, hold]
  · rcases happ with happ | happ <;> simp [happ, hnew]
  · exact absurd rfl h
  · exact absurd rfl h

/-- The script passes on the size map it is answered, and never 1. -/
theorem sizeMap_genMisc (a : Answers) : (genMisc a).sizeMap ≠ 1 ∧
    ((genMisc a).sizeMap = 5 ∨ (genMisc a).sizeMap = 6 ↔
      a.spiSizeMap = "5" ∨ a.spiSizeMap = "6") := by
  have hread : ∀ s n, a.spiSizeMapVar Eq = s →
      MakeVars.sizeMap ⟨a.bootVar Eq, a.appVar Eq, a.spiSpeedVar Eq, a.spiModeVar Eq, s⟩ = n →
      (genMisc a).sizeMap = n := by
    rintro s n rfl h
    exact h
  by_cases h2 : a.spiSizeMap = "2"
  · have hvar : a.spiSizeMapVar Eq = "2" := if_pos h2
    rw [hread "2" 2 hvar rfl, h2]
    decide
  by_cases h3 : a.spiSizeMap = "3"
  · have hvar : a.spiSizeMapVar Eq = "3" := by
      rw [Answers.spiSizeMapVar, if_neg h2, if_pos h3]
    rw [hread "3" 3 hvar rfl, h3]
    decide
  by_cases h4 : a.spiSizeMap = "4"
  · have hvar : a.spiSizeMapVar Eq = "4" := by
      rw [Answers.spiSizeMapVar, if_neg h2, if_neg h3, if_pos h4]
    rw [hread "4" 4 hvar rfl, h4]
    decide
  by_cases h5 : a.spiSizeMap = "5"
  · have hvar : a.spiSizeMapVar Eq = "5" := by
      rw [Answers.spiSizeMapVar, if_neg h2, if_neg h3, if_neg h4, if_pos h5]
    rw [hread "5" 5 hvar rfl, h5]
    decide
  by_cases h6 : a.spiSizeMap = "6"
  · have hvar : a.spiSizeMapVar Eq = "6" := by
      rw [Answers.spiSizeMapVar, if_neg h2, if_neg h3, if_neg h4, if_neg h5, if_pos h6]
    rw [hread "6" 6 hvar rfl, h6]
    decide
  · have hvar : a.spiSizeMapVar Eq = "0" := by
      rw [Answers.spiSizeMapVar, if_neg h2, if_neg h3, if_neg h4, if_neg h5, if_neg h6]
    rw [hread "0" 0 hvar rfl]
    simp [h5, h6]

theorem boot_genMisc_eq_old_iff (a : Answers) :
    (genMisc a).boot = .old ↔ a.boot = "0" ∧ (a.app = "1" ∨ a.app = "2") := by
  rw [boot_genMisc]
  split_ifs with happ hold hnew
  · simp [happ, hold]
  · simp [hold]
  · simp [hold]
  · simp [happ]

end Questions

/-! ### The same answers on Windows -/

section Windows

variable {sh : Cmd} {a : Answers} {answer : String}

/-- On the words the questions offer the two shells compare alike. -/
theorem Cmd.is_iff (sh : Cmd) (hanswer : answer = "" ∨ answer ∈ offered) :
    ∀ word ∈ offered, sh.Is answer word ↔ answer = word := by
  intro word hword
  rcases hanswer with rfl | hanswer
  · rw [Cmd.Is, sh.equ_eq (batInput "") (by decide) word hword, decide_eq_true_eq]
    revert word
    decide
  · have hne : answer ≠ "" := by
      rintro rfl
      exact absurd hanswer (by decide)
    rw [Cmd.Is, batInput, if_neg hne, sh.equ_eq answer (List.mem_cons_of_mem _ hanswer) word hword,
      decide_eq_true_eq]

/-- Every answer is empty or one of these words. -/
def Answers.Offered (a : Answers) : Prop :=
  ∀ answer ∈ [a.boot, a.app, a.spiSpeed, a.spiMode, a.spiSizeMap], answer = "" ∨ answer ∈ offered

theorem genMiscBat_eq (sh : Cmd) (h : a.Offered) :
    genMiscBat sh a = { genMisc a with SPI_SIZE_MAP := "0" } := by
  have hboot := sh.is_iff (h a.boot (by simp))
  have happ := sh.is_iff (h a.app (by simp))
  have hspeed := sh.is_iff (h a.spiSpeed (by simp))
  have hmode := sh.is_iff (h a.spiMode (by simp))
  have hversion : a.bootVersion sh.Is = a.bootVersion Eq := by
    simp only [Answers.bootVersion, hboot "0" (by decide), hboot "1" (by decide)]
  simp only [genMiscBat, genMisc, Answers.bootVar, Answers.appVar, Answers.spiSpeedVar,
    Answers.spiModeVar, hversion, happ "1" (by decide), happ "2" (by decide),
    hspeed "0" (by decide), hspeed "1" (by decide), hspeed "3" (by decide),
    hmode "1" (by decide), hmode "2" (by decide), hmode "3" (by decide)]

theorem spiSizeMapVar_eq_zero_iff (a : Answers) :
    a.spiSizeMapVar Eq = "0" ↔ a.spiSizeMap ∉ ["2", "3", "4", "5", "6"] := by
  rw [Answers.spiSizeMapVar]
  split_ifs <;> simp_all

end Windows

end EspushAt
