import EspushAt.Tools.Image

/-!
# What an image is read as

A loader knows an image only by its header. `readImage` reads what the header announces,
and `checks` compares the checksum. An image of the script is read as the sections of the
program when none of them is empty, and then no changed byte of a section goes unnoticed.
-/

namespace EspushAt

open CString Words Checksum Records

/-- An image as its header describes it. -/
structure Image where
  flags : Bytes
  entry : Nat
  segments : List Entry

def readImage (flash : Bytes) : Option (Image × Bytes) := do
  let (magic, rest) ← readWord 1 flash
  let (count, rest) ← readWord 1 rest
  let (flags, rest) ← readBytes 2 rest
  let (entry, rest) ← readWord 4 rest
  let (segments, rest) ← decodeN 4 4 count rest
  if magic = BIN_MAGIC_FLASH.toNat then some (⟨flags, entry, segments⟩, rest) else none

/-- The checksum is the last byte of the line of 16 bytes behind the segments. -/
def checks (flash : Bytes) : Bool :=
  match readImage flash with
  | none => false
  | some (image, rest) =>
      flash[(flash.length - rest.length) / 16 * 16 + 15]? =
        some (xorSum CHECKSUM_INIT (image.segments.flatMap Entry.data))

/-! ### Images -/

/-- The bytes of an image in front of the rest of a file. -/
def Image.bytes (image : Image) : Bytes :=
  [BIN_MAGIC_FLASH, UInt8.ofNat image.segments.length] ++ image.flags ++
    littleEndian 4 image.entry ++ image.segments.flatMap (encode 4)

/-- An image that fits its header. -/
structure Image.Fits (image : Image) : Prop where
  count : image.segments.length < 256
  flags : image.flags.length = 2
  entry : image.entry < 2 ^ 32
  segments : ∀ e ∈ image.segments, Records.Fits 4 4 e

section Read

variable {image : Image} {flash rest : Bytes}

theorem Image.bytes_append (image : Image) (rest : Bytes) : image.bytes ++ rest =
    littleEndian 1 BIN_MAGIC_FLASH.toNat ++ (littleEndian 1 image.segments.length ++
      (image.flags ++ (littleEndian 4 image.entry ++
        (image.segments.flatMap (encode 4) ++ rest)))) := by
  simp [Image.bytes, littleEndian]

/-- An image is read as what it was made of, and nothing else is read as an image. -/
theorem readImage_eq_some_iff :
    readImage flash = some (image, rest) ↔ image.Fits ∧ flash = image.bytes ++ rest := by
  simp only [readImage, Option.bind_eq_bind, Option.bind_eq_some_iff, Prod.exists,
    readWord_eq_some_iff, readBytes_eq_some_iff, decodeN_eq_some_iff]
  constructor
  · rintro ⟨magic, _, ⟨-, rfl⟩, count, _, ⟨hcount, rfl⟩, flags, _, ⟨hflags, rfl⟩, entry, _,
      ⟨hentry, rfl⟩, segments, _, ⟨rfl, hfits, rfl⟩, heq⟩
    split_ifs at heq with hmagic
    obtain ⟨rfl, rfl⟩ := Prod.mk.inj (Option.some.inj heq)
    exact ⟨⟨hcount, hflags, hentry, hfits⟩, by rw [Image.bytes_append, hmagic]⟩
  · rintro ⟨⟨hcount, hflags, hentry, hfits⟩, rfl⟩
    rw [Image.bytes_append]
    exact ⟨BIN_MAGIC_FLASH.toNat, _, ⟨by decide, rfl⟩, image.segments.length, _, ⟨hcount, rfl⟩,
      image.flags, _, ⟨hflags, rfl⟩, image.entry, _, ⟨hentry, rfl⟩, image.segments, rest,
      ⟨rfl, hfits, rfl⟩, rfl⟩

theorem checks_iff (hfits : image.Fits) : checks (image.bytes ++ rest) = true ↔
    (image.bytes ++ rest)[image.bytes.length / 16 * 16 + 15]? =
      some (xorSum CHECKSUM_INIT (image.segments.flatMap Entry.data)) := by
  rw [checks, readImage_eq_some_iff.mpr ⟨hfits, rfl⟩]
  simp

end Read

/-! ### Lines -/

section Lines

variable {front : Bytes} {sum : UInt8}

theorem length_closeLine (front : Bytes) (sum : UInt8) :
    (closeLine front sum).length = front.length + (16 - (front.length + 1) % 16) + 1 := by
  simp [closeLine, Nat.add_assoc]

theorem closeLine_append {header : Bytes} (h : header.length % 16 = 0) :
    closeLine (header ++ front) sum = header ++ closeLine front sum := by
  have hmod : (header.length + front.length + 1) % 16 = (front.length + 1) % 16 := by omega
  simp [closeLine, hmod]

/-- Behind whole words the checksum is the last byte of their line. -/
theorem closeLine_getElem? (h : front.length % 4 = 0) (tail : Bytes) :
    (closeLine front sum ++ tail)[front.length / 16 * 16 + 15]? = some sum := by
  have hindex : front.length / 16 * 16 + 15 =
      (front ++ List.replicate (16 - (front.length + 1) % 16) (0 : UInt8)).length := by
    simp only [List.length_append, List.length_replicate]
    omega
  rw [closeLine, List.append_assoc, hindex, List.getElem?_append_right (Nat.le_refl _)]
  simp

end Lines

/-! ### The sections of a program -/

section Sections

variable {p : Program} {k addr : Nat} {file : Bytes}

theorem length_segment : (segment k addr file).length = if file = [] then 0 else 1 := by
  rw [segment]
  split_ifs <;> rfl

theorem length_encode_segment (hk : 0 < k) : ((segment k addr file).flatMap (encode 4)).length =
    if file = [] then 0 else 8 + alignUp k file.length := by
  rw [segment]
  split_ifs
  · rfl
  · simp only [List.flatMap_cons, List.flatMap_nil, List.append_nil, encode, List.length_append,
      length_littleEndian, length_padTo hk]

theorem mod_alignUp (k n : Nat) : alignUp k n % k = 0 := Nat.mul_mod_left _ _

theorem fits_of_mem_segment {e : Entry} (hk : 0 < k) (hlen : alignUp k file.length < 2 ^ 32)
    (he : e ∈ segment k addr file) : Fits 4 4 e := by
  rw [segment] at he
  split_ifs at he
  · simp at he
  · obtain rfl := List.mem_singleton.mp he
    exact ⟨length_littleEndian 4 addr, by rw [length_padTo hk]; exact hlen⟩

/-- All three sections are there. -/
def Program.Full (p : Program) : Prop := p.text ≠ [] ∧ p.data ≠ [] ∧ p.rodata ≠ []

theorem length_loaded_iff : p.loaded.length = 3 ↔ p.Full := by
  rw [Program.loaded, List.length_append, List.length_append, length_segment, length_segment,
    length_segment, Program.Full]
  split_ifs <;> simp_all

theorem Program.Packs.fits {mode : BootMode} (h : p.Packs mode) :
    ∀ e ∈ p.loaded, Fits 4 4 e := by
  obtain ⟨-, htext, hdata, hrodata⟩ := h
  intro e he
  rw [Program.loaded, List.mem_append, List.mem_append] at he
  rcases he with (he | he) | he
  · exact fits_of_mem_segment (by decide) htext he
  · exact fits_of_mem_segment (by decide) hdata he
  · exact fits_of_mem_segment (by decide) hrodata he

theorem mod_length_loaded (p : Program) : (p.loaded.flatMap (encode 4)).length % 4 = 0 := by
  have hsection : ∀ addr file, ((segment 4 addr file).flatMap (encode 4)).length % 4 = 0 := by
    intro addr file
    have hmod := mod_alignUp 4 file.length
    rw [length_encode_segment (by decide)]
    split_ifs <;> omega
  have htext := hsection TEXT_ADDRESS p.text
  have hdata := hsection p.dataStartAddr.toNat p.data
  have hrodata := hsection p.rodataStartAddr.toNat p.rodata
  rw [Program.loaded, List.flatMap_append, List.flatMap_append, List.length_append,
    List.length_append]
  omega

/-- Where the image begins in the file. -/
def imageOffset (mode : BootMode) (p : Program) : Nat :=
  match mode with
  | .boot0 | .boot1 => 0
  | .boot2 => 8 + if p.irom0text = [] then 0 else 8 + alignUp 16 p.irom0text.length

theorem length_bootHeader (a : AppbinArgs) (p : Program) (entry : UInt32) :
    (bootHeader a p entry).length = imageOffset a.bootMode p := by
  rw [bootHeader]
  cases hmode : a.bootMode with
  | boot2 =>
      rw [if_pos rfl, List.length_append, List.length_append, length_littleEndian, Program.irom,
        length_encode_segment (by decide)]
      rfl
  | _ => rfl

/-- The image the script makes of a program. -/
def Program.image (a : AppbinArgs) (p : Program) (entry : UInt32) : Image :=
  ⟨a.flags, entry.toNat, p.loaded⟩

theorem length_appImage (a : AppbinArgs) (p : Program) (entry : UInt32) :
    (appImage a p entry).length = 8 + (p.loaded.flatMap (encode 4)).length := by
  have hflags : a.flags.length = 2 := by
    rw [AppbinArgs.flags]
    split_ifs <;> rfl
  simp only [appImage, List.length_append, length_littleEndian, hflags, List.length_cons,
    List.length_nil]

theorem fits_image {a : AppbinArgs} {entry : UInt32} (hpacks : p.Packs a.bootMode)
    (hfull : p.Full) : (p.image a entry).Fits where
  count := by
    have hlen := length_loaded_iff.mpr hfull
    change p.loaded.length < 256
    omega
  flags := by
    change a.flags.length = 2
    rw [AppbinArgs.flags]
    split_ifs <;> rfl
  entry := entry.toNat_lt
  segments := hpacks.fits

/-- The header announces three segments. -/
theorem appImage_eq_bytes {a : AppbinArgs} {entry : UInt32} (hfull : p.Full) :
    appImage a p entry = (p.image a entry).bytes := by
  have hcount : UInt8.ofNat (p.image a entry).segments.length = 3 := by
    change UInt8.ofNat p.loaded.length = 3
    rw [length_loaded_iff.mpr hfull]
    rfl
  rw [Image.bytes, hcount]
  rfl

end Sections

/-! ### The file the script leaves -/

section File

variable {a : AppbinArgs} {p : Program} {entry : UInt32}

/-- Behind the boot loader's header the file begins with the image. -/
theorem exists_drop_appbin (a : AppbinArgs) (p : Program) (entry : UInt32) :
    ∃ rest, (appbin a p entry []).flash.drop (imageOffset a.bootMode p) =
      appImage a p entry ++ rest := by
  rw [appbin, ← length_bootHeader a p entry]
  simp only [closeLine, List.nil_append, List.append_assoc, List.drop_left]
  exact ⟨_, rfl⟩

/-- Behind whole lines of 16 bytes the image is closed as if it stood alone. -/
theorem drop_appbin (hline : imageOffset a.bootMode p % 16 = 0) :
    ∃ tail, (appbin a p entry []).flash.drop (imageOffset a.bootMode p) =
      closeLine (appImage a p entry) p.sum ++ tail := by
  rw [← length_bootHeader a p entry] at hline ⊢
  rw [appbin, List.nil_append, closeLine_append hline, List.append_assoc, List.drop_left]
  exact ⟨_, rfl⟩

/-- The script's image is read as the sections of the program, each at its address and
filled up with zeros to whole words, when and only when none of them is empty: the header
announces three segments in any case. -/
theorem runAppbin_readable (hentry : p.entryAddr = some entry) (hpacks : p.Packs a.bootMode) :
    ∃ out, runAppbin a p [] = some out ∧
      ((∃ rest, readImage (out.flash.drop (imageOffset a.bootMode p)) =
        some (p.image a entry, rest)) ↔ p.Full) := by
  refine ⟨appbin a p entry [], runAppbin_of_packs hentry hpacks [], ?_⟩
  obtain ⟨behind, hbehind⟩ := exists_drop_appbin a p entry
  rw [hbehind]
  constructor
  · rintro ⟨rest, hread⟩
    -- the second byte is the number of segments that were read
    obtain ⟨hfits, heq⟩ := readImage_eq_some_iff.mp hread
    have hcount : (3 : UInt8) = UInt8.ofNat p.loaded.length := by
      have hsecond := congrArg (·[1]?) heq
      simpa [appImage, Image.bytes, Program.image] using hsecond
    have hlt : p.loaded.length < 256 := hfits.count
    have hlen : 3 = p.loaded.length % 256 := congrArg UInt8.toNat hcount
    rw [Nat.mod_eq_of_lt hlt] at hlen
    exact length_loaded_iff.mp hlen.symm
  · intro hfull
    exact ⟨behind, readImage_eq_some_iff.mpr
      ⟨fits_image hpacks hfull, by rw [appImage_eq_bytes hfull]⟩⟩

end File

def sampleProgram : Program where
  symbols := [⟨0x40100004, 'T', "call_user_start"⟩, ⟨0x3FFE8000, 'A', "_data_start"⟩]
  irom0text := [7]
  text := [1, 2, 3]
  data := [4]
  rodata := [5, 6]

def sampleArgs (mode : BootMode) : AppbinArgs := ⟨mode, 0, 0, 2, 1⟩

theorem runAppbin_readable_sample :
    ∃ out, runAppbin (sampleArgs .boot2) sampleProgram [] = some out ∧
      ((∃ rest, readImage (out.flash.drop 32) =
        some (sampleProgram.image (sampleArgs .boot2) 0x40100004, rest)) ↔ sampleProgram.Full) :=
  runAppbin_readable rfl (by decide)

/-! ### Changed bytes -/

/-- A place in the data of a segment: an image but for one byte. -/
structure Spot where
  flags : Bytes
  entry : Nat
  before : List Entry
  tag : Bytes
  front : Bytes
  back : Bytes
  after : List Entry

/-- The image with a byte in the place. -/
def Spot.image (s : Spot) (x : UInt8) : Image :=
  ⟨s.flags, s.entry, s.before ++ ⟨s.tag, s.front ++ x :: s.back⟩ :: s.after⟩

/-- Where the byte stands in the image. -/
def Spot.offset (s : Spot) : Nat :=
  8 + (s.before.flatMap (encode 4)).length + 8 + s.front.length

/-- The bytes of the image before the place. -/
def Spot.upTo (s : Spot) : Bytes :=
  [BIN_MAGIC_FLASH, UInt8.ofNat (s.before.length + (s.after.length + 1))] ++ s.flags ++
    littleEndian 4 s.entry ++ s.before.flatMap (encode 4) ++
      (s.tag ++ littleEndian 4 (s.front.length + (s.back.length + 1)) ++ s.front)

section Change

variable {s : Spot} {x y : UInt8} {rest : Bytes}

theorem Spot.bytes_image (s : Spot) (x : UInt8) :
    (s.image x).bytes = s.upTo ++ x :: (s.back ++ s.after.flatMap (encode 4)) := by
  simp [Image.bytes, Spot.image, Spot.upTo, encode]

theorem Spot.length_bytes_image (s : Spot) (x y : UInt8) :
    (s.image x).bytes.length = (s.image y).bytes.length := by
  simp [Spot.bytes_image]

theorem Spot.length_upTo (h : (s.image x).Fits) : s.upTo.length = s.offset := by
  have hflags : s.flags.length = 2 := h.flags
  have htag : s.tag.length = 4 :=
    (h.segments _ (List.mem_append_right s.before List.mem_cons_self)).tag
  simp only [Spot.upTo, List.length_append, List.length_cons, List.length_nil, length_littleEndian,
    hflags, htag, Spot.offset]
  omega

theorem Spot.set_offset (h : (s.image x).Fits) (y : UInt8) :
    ((s.image x).bytes ++ rest).set s.offset y = (s.image y).bytes ++ rest := by
  rw [← Spot.length_upTo h, Spot.bytes_image, Spot.bytes_image]
  simp

theorem Spot.fits_change (h : (s.image x).Fits) (y : UInt8) : (s.image y).Fits where
  count := by simpa [Spot.image] using h.count
  flags := h.flags
  entry := h.entry
  segments := by
    have hsegments := h.segments
    simp only [Spot.image, List.forall_mem_append, List.forall_mem_cons] at hsegments ⊢
    obtain ⟨hbefore, hchanged, hafter⟩ := hsegments
    exact ⟨hbefore, ⟨hchanged.tag, by simpa using hchanged.data⟩, hafter⟩

theorem Spot.sum_image_iff (start : UInt8) :
    xorSum start ((s.image x).segments.flatMap Entry.data) =
      xorSum start ((s.image y).segments.flatMap Entry.data) ↔ x = y := by
  have hdata : ∀ z, (s.image z).segments.flatMap Entry.data =
      (s.before.flatMap Entry.data ++ s.front) ++ z :: (s.back ++ s.after.flatMap Entry.data) := by
    intro z
    simp [Spot.image]
  rw [hdata, hdata]
  exact xorSum_change_iff _ _ _ _ _

/-- A changed byte of a segment changes the checksum, and nothing of the layout. -/
theorem checks_set (hfits : (s.image x).Fits) (hwords : (s.image x).bytes.length % 4 = 0)
    (hchecks : checks ((s.image x).bytes ++ rest) = true) (hne : y ≠ x) :
    checks (((s.image x).bytes ++ rest).set s.offset y) = false := by
  rw [Spot.set_offset hfits, Bool.eq_false_iff]
  intro hchecks'
  rw [checks_iff hfits] at hchecks
  rw [checks_iff (Spot.fits_change hfits y), s.length_bytes_image y x] at hchecks'
  -- the byte the sums are compared with stands behind both images
  have hbehind : (s.image x).bytes.length ≤ (s.image x).bytes.length / 16 * 16 + 15 := by omega
  have hbehind' : (s.image y).bytes.length ≤ (s.image x).bytes.length / 16 * 16 + 15 :=
    (s.length_bytes_image y x).trans_le hbehind
  rw [List.getElem?_append_right hbehind] at hchecks
  rw [List.getElem?_append_right hbehind', s.length_bytes_image y x, hchecks] at hchecks'
  exact hne ((Spot.sum_image_iff CHECKSUM_INIT).mp (Option.some.inj hchecks')).symm

end Change

/-- An image of a program with all its sections has the right checksum, and changing any
byte of any of them to any other one is noticed. -/
theorem runAppbin_checks {a : AppbinArgs} {p : Program} {entry : UInt32}
    (hentry : p.entryAddr = some entry) (hpacks : p.Packs a.bootMode) (hfull : p.Full)
    (hirom : a.bootMode = .boot2 → p.irom0text ≠ []) :
    ∃ out, runAppbin a p [] = some out ∧
      let flash := out.flash.drop (imageOffset a.bootMode p)
      checks flash = true ∧
        ∀ (s : Spot) (x y : UInt8), p.image a entry = s.image x → y ≠ x →
          checks (flash.set s.offset y) = false := by
  refine ⟨appbin a p entry [], runAppbin_of_packs hentry hpacks [], ?_⟩
  intro flash
  have hfits : (p.image a entry).Fits := fits_image hpacks hfull
  have hwords : (p.image a entry).bytes.length % 4 = 0 := by
    have hmod := mod_length_loaded p
    rw [← appImage_eq_bytes hfull, length_appImage]
    omega
  have hline : imageOffset a.bootMode p % 16 = 0 := by
    have hmod := mod_alignUp 16 p.irom0text.length
    cases hmode : a.bootMode with
    | boot0 => rfl
    | boot1 => rfl
    | boot2 =>
        rw [imageOffset, if_neg (hirom hmode)]
        omega
  obtain ⟨tail, htail⟩ := @drop_appbin a p entry hline
  have hflash : flash = closeLine (p.image a entry).bytes p.sum ++ tail := by
    rw [← appImage_eq_bytes hfull]
    exact htail
  have hrest : flash = (p.image a entry).bytes ++ flash.drop (p.image a entry).bytes.length := by
    rw [hflash, closeLine]
    simp
  have hchecks : checks ((p.image a entry).bytes ++ flash.drop (p.image a entry).bytes.length) =
      true := by
    rw [checks_iff hfits, ← hrest, hflash]
    exact closeLine_getElem? hwords tail
  refine ⟨by rw [hrest]; exact hchecks, ?_⟩
  intro s x y himage hne
  rw [hrest]
  rw [himage] at hfits hwords hchecks ⊢
  exact checks_set hfits hwords hchecks hne

theorem runAppbin_checks_sample :
    ∃ out, runAppbin (sampleArgs .boot2) sampleProgram [] = some out ∧
      let flash := out.flash.drop 32
      checks flash = true ∧
        ∀ (s : Spot) (x y : UInt8),
          sampleProgram.image (sampleArgs .boot2) 0x40100004 = s.image x → y ≠ x →
            checks (flash.set s.offset y) = false :=
  runAppbin_checks rfl (by decide) ⟨by decide, by decide, by decide⟩ (by decide)

/-! ### The code that stays in flash -/

/-- Where the code that stays in flash is to stand in the file. -/
def iromOffset : BootMode → Nat
  | .boot0 => 0
  | .boot1 => 0x10000
  | .boot2 => 16

/-- The length of an image with its checksum. -/
def Program.imageLength (p : Program) : Nat :=
  let n := 8 + (p.loaded.flatMap (encode 4)).length
  n + (16 - (n + 1) % 16) + 1

section Irom

variable {a : AppbinArgs} {p : Program} {entry : UInt32}

theorem length_closed (hoffset : imageOffset a.bootMode p = 0) :
    (closeLine (bootHeader a p entry ++ appImage a p entry) p.sum).length = p.imageLength := by
  have hheader := length_bootHeader a p entry
  rw [hoffset] at hheader
  rw [length_closeLine, List.length_append, hheader, length_appImage, Nat.zero_add]
  rfl

/-- Filled up to some length, bytes are followed at that length. -/
theorem drop_filled {closed : Bytes} {n : Nat} (h : closed.length ≤ n) (back : Bytes)
    (fill : UInt8) :
    (closed ++ (List.replicate (n - closed.length) fill ++ back)).drop n = back := by
  have hn : n = (closed ++ List.replicate (n - closed.length) fill).length := by
    rw [List.length_append, List.length_replicate]
    omega
  conv => lhs; rw [← List.append_assoc, hn]
  simp

/-- Longer bytes are not followed there by as many as follow them. -/
theorem le_of_length_drop_filled {closed back : Bytes} {n : Nat} {fill : UInt8}
    (h : ((closed ++ (List.replicate (n - closed.length) fill ++ back)).drop n).length =
      back.length) : closed.length ≤ n := by
  simp only [List.length_drop, List.length_append, List.length_replicate] at h
  omega

theorem flash_boot1 (hmode : a.bootMode = .boot1) : ∃ closed trailer,
    closed.length = p.imageLength ∧ trailer.length = 4 ∧ (appbin a p entry []).flash =
      closed ++ (List.replicate (0x10000 - closed.length) 0xFF ++ (p.irom0text ++ trailer)) := by
  have hlength := @length_closed a p entry (by rw [hmode]; rfl)
  rw [appbin, hmode, List.nil_append]
  generalize closeLine (bootHeader a p entry ++ appImage a p entry) p.sum = closed at hlength ⊢
  have htail : imageTail .boot1 p closed = List.replicate (0x10000 - closed.length) 0xFF ++
      (p.irom0text ++ crcTrailer (getFileCRC (closed ++
        (List.replicate (0x10000 - closed.length) 0xFF ++ p.irom0text)))) :=
    List.append_assoc _ _ _
  rw [htail]
  exact ⟨closed, _, hlength, length_littleEndian 4 _, rfl⟩

/-- For `boot_v1.1` the code stands 64 KiB behind the start of the file, with nothing but a
CRC behind it, when, and only when, the image in front of it is not longer; the script does
not check that. -/
theorem runAppbin_irom_iff (hentry : p.entryAddr = some entry) (hpacks : p.Packs a.bootMode)
    (hmode : a.bootMode = .boot1) :
    ∃ out, runAppbin a p [] = some out ∧
      ((∃ trailer : Bytes, trailer.length = 4 ∧
        out.flash.drop (iromOffset a.bootMode) = p.irom0text ++ trailer) ↔
          p.imageLength ≤ 0x10000) := by
  obtain ⟨closed, trailer, hlength, htrailer, hflash⟩ := @flash_boot1 a p entry hmode
  refine ⟨appbin a p entry [], runAppbin_of_packs hentry hpacks [], ?_⟩
  rw [hflash, hmode, ← hlength]
  constructor
  · rintro ⟨trailer', htrailer', hdrop⟩
    refine le_of_length_drop_filled ((congrArg List.length hdrop).trans ?_)
    rw [List.length_append, List.length_append, htrailer, htrailer']
  · intro hle
    exact ⟨trailer, htrailer, drop_filled hle _ _⟩

theorem runAppbin_irom_sample :
    ∃ out, runAppbin (sampleArgs .boot1) sampleProgram [] = some out ∧
      ((∃ trailer : Bytes, trailer.length = 4 ∧ out.flash.drop 0x10000 = [7] ++ trailer) ↔
        sampleProgram.imageLength ≤ 0x10000) :=
  runAppbin_irom_iff (p := sampleProgram) rfl (by decide) rfl

theorem length_flash_boot0 (hmode : a.bootMode = .boot0) :
    (appbin a p entry []).flash.length = p.imageLength := by
  rw [appbin, hmode, List.nil_append]
  simp only [imageTail, List.append_nil]
  exact length_closed (by rw [hmode]; rfl)

/-- Behind an image of 64 KiB at most a file has room for the code that stays in flash, its
header and the CRC in a few lines more. -/
theorem length_flash_le (hmode : a.bootMode ≠ .boot0) (hfits : p.imageLength ≤ 0x10000) :
    (appbin a p entry []).flash.length ≤ 0x10000 + p.irom0text.length + 64 := by
  cases hboot : a.bootMode with
  | boot0 => exact absurd hboot hmode
  | boot1 =>
      obtain ⟨closed, trailer, hlength, htrailer, hflash⟩ := @flash_boot1 a p entry hboot
      simp only [hflash, List.length_append, List.length_replicate, htrailer, hlength]
      omega
  | boot2 =>
      have hheader := length_bootHeader a p entry
      have himage := length_appImage a p entry
      have hlines : alignUp 16 p.irom0text.length ≤ p.irom0text.length + 15 :=
        Nat.div_mul_le_self _ _
      rw [hboot] at hheader
      rw [Program.imageLength, ← himage] at hfits
      rw [appbin, hboot, List.nil_append]
      simp only [imageTail, List.length_append, length_closeLine, crcTrailer, length_littleEndian,
        hheader, imageOffset]
      split_ifs <;> omega

/-- With a boot loader of its own header the code stands behind that header. -/
theorem prefix_drop_flash (hmode : a.bootMode ≠ .boot0)
    (hfits : a.bootMode = .boot1 → p.imageLength ≤ 0x10000) :
    p.irom0text <+: (appbin a p entry []).flash.drop (iromOffset a.bootMode) := by
  cases hboot : a.bootMode with
  | boot0 => exact absurd hboot hmode
  | boot1 =>
      obtain ⟨closed, trailer, hlength, -, hflash⟩ := @flash_boot1 a p entry hboot
      have hdrop := drop_filled (hlength ▸ hfits hboot) (p.irom0text ++ trailer) 0xFF
      rw [hflash, iromOffset, hdrop]
      exact List.prefix_append _ _
  | boot2 =>
      by_cases hirom : p.irom0text = []
      · rw [hirom]
        exact List.nil_prefix
      · let front := [BIN_MAGIC_IROM, 4, 0, UInt8.ofNat a.userBin] ++ littleEndian 4 entry.toNat ++
          littleEndian 4 0 ++ littleEndian 4 (padTo 16 p.irom0text).length
        have hfront : front.length = iromOffset .boot2 := by simp [front, iromOffset]
        obtain ⟨rest, hflash⟩ : ∃ rest, (appbin a p entry []).flash =
            front ++ (p.irom0text ++ rest) := by
          rw [appbin, List.nil_append, bootHeader, if_pos hboot, Program.irom, segment,
            if_neg hirom]
          simp only [closeLine, List.flatMap_cons, List.flatMap_nil, List.append_nil, encode, front,
            List.append_assoc]
          exact ⟨_, congrArg _ (congrArg _ (congrArg _ (congrArg _ (List.append_assoc _ _ _))))⟩
        rw [hflash, ← hfront, List.drop_left]
        exact List.prefix_append _ _

end Irom

/-! ### The CRC -/

section Crc

theorem crc32_append (data data' : Bytes) (crc : Int32) :
    crc32 (data ++ data') crc = crc32 data' (crc32 data crc) := by
  rw [crc32, crc32, crc32, crc_append]
  simp

/-- Reading the file in blocks makes no difference. -/
theorem getFileCRCLoop_eq (file : Bytes) (crc : Int32) :
    getFileCRCLoop file crc = crc32 file crc := by
  fun_induction getFileCRCLoop file crc with
  | case1 crc => simp [crc32, Checksum.crc]
  | case2 file crc hne ih => rw [ih, ← crc32_append, List.take_append_drop]

theorem getFileCRC_eq (file : Bytes) : getFileCRC file = crc32 file 0 := getFileCRCLoop_eq file 0

theorem crc32_burst_iff {burst burst' : Bytes} (hlen : burst.length = burst'.length)
    (hshort : burst.length ≤ 4) (front back : Bytes) (crc : Int32) :
    crc32 (front ++ burst ++ back) crc = crc32 (front ++ burst' ++ back) crc ↔ burst = burst' := by
  rw [← crc_burst_iff (by decide : (0xEDB88320#32).msb = true) (~~~ crc.toBitVec) hlen (by omega)
    front back]
  constructor
  · intro h
    have hbits := congrArg Int32.toBitVec h
    simpa [crc32] using hbits
  · intro h
    rw [crc32, crc32, h]

theorem trailerValue_lt (crc : Int32) : trailerValue crc < 256 ^ 4 := by
  have hlow := crc.le_toInt
  have hhigh := crc.toInt_lt
  rw [trailerValue]
  split_ifs <;> omega

/-- Two CRCs are written alike when they are mirror images of each other at -1. -/
theorem crcTrailer_eq_iff {crc crc' : Int32} :
    crcTrailer crc = crcTrailer crc' ↔ crc = crc' ∨ crc.toInt + crc'.toInt = -2 := by
  have hvalue : crcTrailer crc = crcTrailer crc' ↔ trailerValue crc = trailerValue crc' := by
    constructor
    · intro h
      have hread := congrArg value h
      rwa [crcTrailer, crcTrailer, value_littleEndian_of_lt (trailerValue_lt crc),
        value_littleEndian_of_lt (trailerValue_lt crc')] at hread
    · exact congrArg (littleEndian 4)
  rw [hvalue, ← Int32.toInt_inj, trailerValue, trailerValue]
  split_ifs <;> omega

/-- The file for a boot loader ends with the CRC of everything before it. With up to four
bytes in a row changed the CRC is another one, and the bytes written for it are so too but
for the one mirror image. -/
theorem runAppbin_crc {a : AppbinArgs} {p : Program} {entry : UInt32} (before : Bytes)
    (hentry : p.entryAddr = some entry) (hpacks : p.Packs a.bootMode)
    (hmode : a.bootMode ≠ .boot0) :
    ∃ out body, runAppbin a p before = some out ∧
      out.flash = body ++ crcTrailer (crc32 body 0) ∧
      ∀ front burst burst' back, body = front ++ burst ++ back → burst.length ≤ 4 →
        burst'.length = burst.length → burst' ≠ burst →
          let body' := front ++ burst' ++ back
          getFileCRC body' ≠ crc32 body 0 ∧
            (crcTrailer (getFileCRC body') = crcTrailer (crc32 body 0) ↔
              (getFileCRC body').toInt + (crc32 body 0).toInt = -2) := by
  obtain ⟨body, hbody⟩ : ∃ body,
      (appbin a p entry before).flash = body ++ crcTrailer (getFileCRC body) := by
    rw [appbin]
    cases hboot : a.bootMode with
    | boot0 => exact absurd hboot hmode
    | boot1 =>
        simp only [imageTail]
        rw [← List.append_assoc]
        exact ⟨_, rfl⟩
    | boot2 => exact ⟨_, rfl⟩
  refine ⟨appbin a p entry before, body, runAppbin_of_packs hentry hpacks before, ?_, ?_⟩
  · rw [hbody, getFileCRC_eq]
  · rintro front burst burst' back rfl hshort hlen hne body'
    have hcrc : getFileCRC body' ≠ crc32 (front ++ burst ++ back) 0 := by
      rw [getFileCRC_eq]
      exact fun h => hne ((crc32_burst_iff hlen (hlen ▸ hshort) front back 0).mp h)
    refine ⟨hcrc, ?_⟩
    rw [crcTrailer_eq_iff]
    exact or_iff_right hcrc

theorem runAppbin_crc_sample :
    ∃ out body, runAppbin (sampleArgs .boot1) sampleProgram [9] = some out ∧
      out.flash = body ++ crcTrailer (crc32 body 0) ∧
      ∀ front burst burst' back, body = front ++ burst ++ back → burst.length ≤ 4 →
        burst'.length = burst.length → burst' ≠ burst →
          let body' := front ++ burst' ++ back
          getFileCRC body' ≠ crc32 body 0 ∧
            (crcTrailer (getFileCRC body') = crcTrailer (crc32 body 0) ↔
              (getFileCRC body').toInt + (crc32 body 0).toInt = -2) :=
  runAppbin_crc [9] rfl (by decide) (by decide)

/-- Any CRC can be brought about by four bytes in any place. -/
theorem exists_crc32_burst (front back : Bytes) (crc target : Int32) :
    ∃ burst : Bytes, burst.length = 4 ∧ crc32 (front ++ burst ++ back) crc = target := by
  obtain ⟨burst, hlen, hcrc⟩ := exists_burst (by decide : (0xEDB88320#32).msb = true)
    (by decide : 8 * 4 = 32) (~~~ crc.toBitVec) (~~~ target.toBitVec) front back
  refine ⟨burst, hlen, ?_⟩
  rw [crc32, hcrc, BitVec.not_not]
  rfl

/-- Four bytes of a file can be changed with the same bytes written for the CRC, unless the
CRC is -1 or the largest number, which have no mirror image. -/
theorem crcTrailer_blind_iff (front burst back : Bytes) (hlen : burst.length = 4) :
    (∃ burst' : Bytes, burst'.length = 4 ∧ burst' ≠ burst ∧
      crcTrailer (getFileCRC (front ++ burst' ++ back)) =
        crcTrailer (getFileCRC (front ++ burst ++ back))) ↔
    getFileCRC (front ++ burst ++ back) ≠ -1 ∧
      (getFileCRC (front ++ burst ++ back)).toInt ≠ 2 ^ 31 - 1 := by
  simp only [getFileCRC_eq]
  constructor
  · rintro ⟨burst', hlen', hne, htrailer⟩
    have hcrc : crc32 (front ++ burst' ++ back) 0 ≠ crc32 (front ++ burst ++ back) 0 := fun h =>
      hne ((crc32_burst_iff (hlen'.trans hlen.symm) (by omega) front back 0).mp h)
    have hmirror := (crcTrailer_eq_iff.mp htrailer).resolve_left hcrc
    have hlow := (crc32 (front ++ burst' ++ back) 0).le_toInt
    constructor
    · intro hminus
      rw [hminus] at hmirror hcrc
      apply hcrc
      apply Int32.toInt_inj.mp
      have hone : (-1 : Int32).toInt = -1 := by decide
      omega
    · omega
  · rintro ⟨hminus, hlarge⟩
    obtain ⟨burst', hlen', hcrc⟩ := exists_crc32_burst front back 0
      (Int32.ofInt (-2 - (crc32 (front ++ burst ++ back) 0).toInt))
    have hlow := (crc32 (front ++ burst ++ back) 0).le_toInt
    have hhigh := (crc32 (front ++ burst ++ back) 0).toInt_lt
    have hvalue : (crc32 (front ++ burst' ++ back) 0).toInt =
        -2 - (crc32 (front ++ burst ++ back) 0).toInt := by
      rw [hcrc]
      exact Int32.toInt_ofInt_of_le (by omega) (by omega)
    refine ⟨burst', hlen', ?_, crcTrailer_eq_iff.mpr (.inr (by omega))⟩
    rintro rfl
    apply hminus
    apply Int32.toInt_inj.mp
    have hone : (-1 : Int32).toInt = -1 := by decide
    omega

theorem crcTrailer_blind_zeros :
    (∃ burst' : Bytes, burst'.length = 4 ∧ burst' ≠ [0, 0, 0, 0] ∧
      crcTrailer (getFileCRC ([1] ++ burst' ++ [2])) =
        crcTrailer (getFileCRC ([1] ++ [0, 0, 0, 0] ++ [2]))) ↔
    getFileCRC ([1] ++ [0, 0, 0, 0] ++ [2]) ≠ -1 ∧
      (getFileCRC ([1] ++ [0, 0, 0, 0] ++ [2])).toInt ≠ 2 ^ 31 - 1 :=
  crcTrailer_blind_iff [1] [0, 0, 0, 0] [2] rfl

end Crc

end EspushAt
