import EspushAt.Device.Showbuf
import EspushAt.Verification.Stream

/-!
# What the hex dump shows

`showbuf` should print the bytes it is given. It prints bytes of its own stack instead,
and every pass writes four bytes to an array of three, so it is right where the loop makes
no pass at all.
-/

namespace EspushAt

open CString Hexadecimal Framing

variable {σ : Type}

/-- The first `len` bytes of the buffer stand on the UART as a dump and a line end, and
every text formatted for it, terminator included, fits the local array. The line end is the
last text and is not formatted. -/
structure Dumps (mem : Bytes) (len : Nat) (f : Frame σ) : Prop where
  writes : f.calls.flatMap Call.written = hexdump (mem.take len) ++ ascii "\r\n"
  fits : ∀ str, .atResponse str ∈ f.calls.dropLast → str.length + 1 ≤ SHOWBUF_BUF_SIZE

/-- `showbuf` dumps the buffer, on this stack. -/
def ShowsBuffer (stack : Nat → Bytes) (d : Device σ) (mem : Bytes) (len : Nat) : Prop :=
  ∃ f, invoke (showbuf stack 0 len) mem d = some f ∧ Dumps mem len f

variable {stack : Nat → Bytes} {d : Device σ} {mem : Bytes} {len : Nat}

/-- What is written before the line end reads back as the bytes of the buffer. -/
theorem Dumps.decodes {f : Frame σ} (h : Dumps mem len f) :
    ∃ dump, f.calls.flatMap Call.written = dump ++ ascii "\r\n" ∧
      decodeStream readHexByte dump = some (mem.take len) :=
  ⟨_, h.writes, decodeStream_hexdump _⟩

/-- Every text of the loop has three bytes. -/
theorem length_of_mem_showbufTexts {i left : Nat} {strs : List Bytes}
    (h : showbufTexts stack i left = some strs) :
    strs.length = left ∧ ∀ s ∈ strs, s.length = 3 := by
  induction left generalizing i strs with
  | zero =>
      obtain rfl : [] = strs := Option.some.inj h
      simp
  | succ left ih =>
      obtain ⟨str, hpass, hrest⟩ := Option.bind_eq_some_iff.mp h
      obtain ⟨rest, htexts, hstrs⟩ := Option.bind_eq_some_iff.mp hrest
      obtain rfl := Option.some.inj hstrs
      obtain ⟨hlen, hall⟩ := ih htexts
      have hstr : str.length = 3 := by
        rw [showbufPass_eq] at hpass
        split_ifs at hpass
        obtain ⟨b, -, rfl⟩ := Option.map_eq_some_iff.mp hpass
        exact length_hexByte b
      exact ⟨by simp [hlen], List.forall_mem_cons.mpr ⟨hstr, hall⟩⟩

/-- `showbuf` dumps the buffer exactly when it is asked for no byte of it. -/
theorem showsBuffer_iff (stack : Nat → Bytes) (d : Device σ) (mem : Bytes) (len : Nat) :
    ShowsBuffer stack d mem len ↔ len = 0 := by
  constructor
  · rintro ⟨f, hrun, -, hfits⟩
    rw [invoke_showbuf] at hrun
    obtain ⟨strs, htexts, rfl⟩ := Option.map_eq_some_iff.mp hrun
    obtain ⟨hlen, hall⟩ := length_of_mem_showbufTexts htexts
    cases strs with
    | nil => exact hlen.symm
    | cons str strs =>
        have hformatted : Call.atResponse str ∈ ((str :: strs).map Call.atResponse ++
            [Call.atResponse (ascii "\r\n")]).dropLast := by
          rw [List.dropLast_concat]
          exact List.mem_map_of_mem List.mem_cons_self
        have hfit : str.length + 1 ≤ 3 := hfits str hformatted
        have hthree := hall str List.mem_cons_self
        omega
  · rintro rfl
    refine ⟨_, rfl, rfl, ?_⟩
    intro str hmem
    simp at hmem

/-- The byte `A`, with a `Z` on the stack: `5a` is printed for it. -/
theorem not_showsBuffer_single :
    ¬ ShowsBuffer (fun _ => [0x5A, 0, 0, 0]) Reference.device [0x41] 1 := by
  rintro ⟨f, hrun, hwrites, -⟩
  obtain rfl := Option.some.inj hrun
  exact absurd hwrites (by decide)

end EspushAt
