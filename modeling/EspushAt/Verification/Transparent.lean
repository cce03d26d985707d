import EspushAt.Foundations.Chunking
import EspushAt.Device.Reference

/-!
# Transparent mode

The UART delivers its stream in chunks that the receive interrupt decides on. In
transparent mode chunks go to the cloud until the first one that begins with `+++`; that
one is dropped whole, and later ones go to AT processing. Where the stream is divided
among the three therefore depends on where that chunk starts, and nothing is lost exactly
when it is the three bytes of the escape alone.

The connection is tested when the mode is entered and never again while it lasts.
-/

namespace EspushAt

open CString Chunking Transition

variable {σ : Type}

/-- The device after `AT+UARTRANS` has answered its prompt. -/
def transparent (d : Device σ) : Device σ := { d with rxIntr := some .atUartTransRxIntr }

/-- The device without a receive function of its own. -/
def atMode (d : Device σ) : Device σ := { d with rxIntr := none }

/-- Bytes a call passes to `uart_stream`, and bytes left for AT processing. -/
def Call.streamed : Call → Bytes
  | .uartStream data => data
  | _ => []

def Call.leftForAt : Call → Bytes
  | .atRx data => data
  | _ => []

/-- The bytes some steps passed to `uart_stream`. -/
def streamed (steps : List (Step σ)) : Bytes :=
  steps.flatMap fun r => r.result.calls.flatMap Call.streamed

/-- The bytes some steps left for AT processing. -/
def leftForAt (steps : List (Step σ)) : Bytes :=
  steps.flatMap fun r => r.result.calls.flatMap Call.leftForAt

/-- The receive function at the end of a run. -/
def modeAfter (d : Device σ) (steps : List (Step σ)) : Option RxIntr :=
  (final Frame.toDevice d steps).rxIntr

variable {S : Services σ} {d : Device σ}

/-! ### What a run over chunks does -/

/-- Out of transparent mode every chunk is left for AT processing. -/
theorem run_atMode (d : Device σ) (cs : List Bytes) :
    ∃ steps, run S (atMode d) (cs.map .uart) = some steps ∧ streamed steps = [] ∧
      leftForAt steps = cs.flatten ∧ modeAfter (atMode d) steps = none := by
  induction cs with
  | nil => exact ⟨[], rfl, rfl, rfl, rfl⟩
  | cons c cs ih =>
      obtain ⟨steps, hrun, hstreamed, hleft, hmode⟩ := ih
      have hstep : step S (atMode d) (.uart c) = some ⟨atMode d, c, [.atRx c]⟩ := by
        rw [step, invoke_uartRx]
        rfl
      refine ⟨_, trace_cons hstep hrun, ?_, ?_, ?_⟩
      · simpa [streamed, Call.streamed] using hstreamed
      · simpa [leftForAt, Call.leftForAt] using hleft
      · exact hmode

/-- In transparent mode the chunks in front of the first escape are streamed, that chunk
vanishes, and the chunks behind it are left for AT processing. -/
theorem run_transparent (d : Device σ) (cs : List Bytes) :
    ∃ steps, run S (transparent d) (cs.map .uart) = some steps ∧
      streamed steps = (beforeFirst isEscape cs).flatten ∧
      leftForAt steps = (afterFirst isEscape cs).flatten ∧
      (modeAfter (transparent d) steps).isNone = (cs.find? isEscape).isSome := by
  induction cs generalizing d with
  | nil => exact ⟨[], rfl, rfl, rfl, rfl⟩
  | cons c cs ih =>
      have hchunk := invoke_uartRx (S := S) c (transparent d)
      cases hc : isEscape c with
      | true =>
          rw [hc] at hchunk
          obtain ⟨steps, hrun, hstreamed, hleft, hmode⟩ := run_atMode (S := S) d cs
          refine ⟨_, trace_cons hchunk hrun, ?_, ?_, ?_⟩
          · simpa [streamed, Call.streamed, hc] using hstreamed
          · simpa [leftForAt, Call.leftForAt, hc] using hleft
          · rw [List.find?_cons_of_pos hc]
            exact congrArg Option.isNone hmode
      | false =>
          rw [hc] at hchunk
          obtain ⟨steps, hrun, hstreamed, hleft, hmode⟩ := ih { d with svc := S.uartStream c d.svc }
          refine ⟨_, trace_cons hchunk hrun, ?_, ?_, ?_⟩
          · simpa [streamed, Call.streamed, hc] using hstreamed
          · simpa [leftForAt, Call.leftForAt, hc] using hleft
          · rw [List.find?_cons_of_neg (by simp [hc])]
            exact hmode

/-! ### No byte is lost -/

/-- Every byte of the chunks was streamed, or belongs to the escape that ended the mode,
or was left for AT processing, in this order. -/
def Accounted (d : Device σ) (cs : List Bytes) (steps : List (Step σ)) : Prop :=
  ∃ escape, cs.flatten = streamed steps ++ escape ++ leftForAt steps ∧
    (modeAfter (transparent d) steps = none ∧ escape = ascii "+++" ∨
      modeAfter (transparent d) steps ≠ none ∧ escape = [] ∧ leftForAt steps = [])

/-- The run over these chunks accounts for every byte. -/
def LosesNothing (S : Services σ) (d : Device σ) (cs : List Bytes) : Prop :=
  ∃ steps, run S (transparent d) (cs.map .uart) = some steps ∧ Accounted d cs steps

theorem losesNothing_of_find_none {cs : List Bytes} (h : cs.find? isEscape = none) :
    LosesNothing S d cs := by
  obtain ⟨steps, hrun, hstreamed, hleft, hmode⟩ := run_transparent (S := S) d cs
  rw [beforeFirst_of_find_none h] at hstreamed
  rw [afterFirst_of_find_none h] at hleft
  refine ⟨steps, hrun, [], ?_, .inr ⟨?_, rfl, hleft⟩⟩
  · rw [hstreamed, hleft]
    simp
  · intro hnone
    simp [hnone, h] at hmode

/-- The chunk that begins with the escape has to be the escape. -/
theorem losesNothing_iff_of_find {cs : List Bytes} {c : Bytes}
    (h : cs.find? isEscape = some c) : LosesNothing S d cs ↔ c = ascii "+++" := by
  obtain ⟨steps, hrun, hstreamed, hleft, hmode⟩ := run_transparent (S := S) d cs
  have hnone : modeAfter (transparent d) steps = none := by simpa [h] using hmode
  have hsplit : cs.flatten = streamed steps ++ c ++ leftForAt steps := by
    rw [hstreamed, hleft]
    conv_lhs => rw [eq_append_of_find h]
    simp
  constructor
  · rintro ⟨steps', hrun', escape, hflatten, hcases⟩
    obtain rfl := Option.some.inj (hrun.symm.trans hrun')
    obtain ⟨-, rfl⟩ | ⟨hmode', -⟩ := hcases
    · rw [hsplit] at hflatten
      exact List.append_cancel_left (List.append_cancel_right hflatten)
    · exact absurd hnone hmode'
  · intro hexact
    exact ⟨steps, hrun, c, hsplit, .inl ⟨hnone, hexact⟩⟩

/-- No byte is lost exactly when the first chunk that begins with the escape, if there is
one, has nothing behind it. -/
theorem losesNothing_iff (S : Services σ) (d : Device σ) (cs : List Bytes) :
    LosesNothing S d cs ↔ ∀ c, cs.find? isEscape = some c → c = ascii "+++" := by
  cases hfind : cs.find? isEscape with
  | none => exact iff_of_true (losesNothing_of_find_none hfind) (by simp)
  | some c =>
      rw [losesNothing_iff_of_find hfind]
      constructor
      · rintro rfl c' hc'
        exact (Option.some.inj hc').symm
      · intro hexact
        exact hexact c rfl

/-- One chunk `+++AT`: the two bytes behind the escape go nowhere. -/
theorem not_losesNothing_tail :
    ¬ LosesNothing Reference.services Reference.device
      [ascii "+++AT"] := by
  rw [losesNothing_iff_of_find (c := ascii "+++AT") (by decide)]
  decide

/-! ### The end of the mode depends on the cut -/

/-- Two runs over chunks end in the same mode and streamed the same bytes. -/
def SameOutcome (S : Services σ) (d : Device σ) (cs ds : List Bytes) : Prop :=
  ∃ steps steps', run S (transparent d) (cs.map .uart) = some steps ∧
    run S (transparent d) (ds.map .uart) = some steps' ∧
    modeAfter (transparent d) steps = modeAfter (transparent d) steps' ∧
    streamed steps = streamed steps'

/-- What a run streams and whether the mode lasts are functions of the offset at which
the first chunk with an escape starts. -/
theorem outcome_of_firstOffset {s : Bytes} (cut : Cut s) :
    ∃ steps, run S (transparent d) (cut.chunks.map .uart) = some steps ∧
      match firstOffset isEscape cut.chunks with
      | none => modeAfter (transparent d) steps = some .atUartTransRxIntr ∧ streamed steps = s
      | some n => modeAfter (transparent d) steps = none ∧ streamed steps = s.take n ∧
          n ≤ s.length := by
  obtain ⟨steps, hrun, hstreamed, hleft, hmode⟩ := run_transparent (S := S) d cut.chunks
  refine ⟨steps, hrun, ?_⟩
  cases hoffset : firstOffset isEscape cut.chunks with
  | none =>
      have hfind := firstOffset_eq_none_iff.mp hoffset
      rw [beforeFirst_of_find_none hfind, cut.flatten_chunks] at hstreamed
      refine ⟨?_, hstreamed⟩
      cases hafter : modeAfter (transparent d) steps with
      | none => simp [hafter, hfind] at hmode
      | some rx =>
          cases rx
          rfl
  | some n =>
      have hfind : (cut.chunks.find? isEscape).isSome := by
        rw [Option.isSome_iff_ne_none, Ne, ← firstOffset_eq_none_iff, hoffset]
        simp
      obtain ⟨hflatten, hle⟩ := flatten_beforeFirst hoffset
      rw [hflatten, cut.flatten_chunks] at hstreamed
      rw [cut.flatten_chunks] at hle
      exact ⟨by simpa [hfind] using hmode, hstreamed, hle⟩

theorem sameOutcome_iff_firstOffset {s : Bytes} (cut cut' : Cut s) :
    SameOutcome S d cut.chunks cut'.chunks ↔
      firstOffset isEscape cut.chunks = firstOffset isEscape cut'.chunks := by
  obtain ⟨steps, hrun, houtcome⟩ := outcome_of_firstOffset (S := S) (d := d) cut
  obtain ⟨steps', hrun', houtcome'⟩ := outcome_of_firstOffset (S := S) (d := d) cut'
  have hsame : SameOutcome S d cut.chunks cut'.chunks ↔
      modeAfter (transparent d) steps = modeAfter (transparent d) steps' ∧
        streamed steps = streamed steps' := by
    constructor
    · rintro ⟨_, _, h, h', hboth⟩
      obtain rfl := Option.some.inj (hrun.symm.trans h)
      obtain rfl := Option.some.inj (hrun'.symm.trans h')
      exact hboth
    · intro hboth
      exact ⟨steps, steps', hrun, hrun', hboth⟩
  rw [hsame]
  cases hn : firstOffset isEscape cut.chunks with
  | none =>
      rw [hn] at houtcome
      cases hm : firstOffset isEscape cut'.chunks with
      | none =>
          rw [hm] at houtcome'
          simp [houtcome.1, houtcome'.1, houtcome.2, houtcome'.2]
      | some m =>
          rw [hm] at houtcome'
          simp [houtcome.1, houtcome'.1]
  | some n =>
      rw [hn] at houtcome
      cases hm : firstOffset isEscape cut'.chunks with
      | none =>
          rw [hm] at houtcome'
          simp [houtcome.1, houtcome'.1]
      | some m =>
          rw [hm] at houtcome'
          obtain ⟨hmode, hstreamed, hle⟩ := houtcome
          obtain ⟨hmode', hstreamed', hle'⟩ := houtcome'
          rw [hmode, hmode', hstreamed, hstreamed']
          constructor
          · rintro ⟨-, htake⟩
            have hlength := congrArg List.length htake
            rw [List.length_take_of_le hle, List.length_take_of_le hle'] at hlength
            rw [hlength]
          · intro heq
            rw [Option.some.inj heq]
            exact ⟨rfl, rfl⟩

theorem infix_of_firstOffset {s : Bytes} (cut : Cut s) {n : Nat}
    (h : firstOffset isEscape cut.chunks = some n) : ascii "+++" <:+: s := by
  obtain ⟨c, hc⟩ : ∃ c, cut.chunks.find? isEscape = some c := by
    rw [← Option.isSome_iff_exists, Option.isSome_iff_ne_none, Ne, ← firstOffset_eq_none_iff, h]
    simp
  have hescape : ascii "+++" <+: c := isEscape_iff.mp (List.find?_some hc)
  have hchunk : c <:+: s := by
    rw [← cut.flatten_chunks, eq_append_of_find hc, List.flatten_append, List.flatten_cons]
    exact ⟨_, _, List.append_assoc _ _ _⟩
  exact hescape.isInfix.trans hchunk

/-- No single byte is an escape. -/
theorem firstOffset_singletons (s : Bytes) :
    firstOffset isEscape (singletons s).chunks = none := by
  rw [firstOffset_eq_none_iff, List.find?_eq_none]
  intro c hc
  obtain ⟨b, -, rfl⟩ := List.mem_map.mp hc
  rw [not_isEscape_of_short (by simp)]
  simp

/-- Where the escape occurs in a stream, some cut begins a chunk with it. -/
theorem exists_cut_of_infix {s : Bytes} (h : ascii "+++" <:+: s) :
    ∃ cut : Cut s, firstOffset isEscape cut.chunks ≠ none := by
  obtain ⟨a, b, rfl⟩ := h
  rw [List.append_assoc]
  have hback : ascii "+++" ++ b ≠ [] := by simp [ascii]
  refine ⟨cutBefore a hback, ?_⟩
  rw [Ne, firstOffset_eq_none_iff, List.find?_eq_none]
  intro hnone
  exact hnone _ (mem_cutBefore a hback) (isEscape_iff.mpr (List.prefix_append _ _))

/-- Two cuts of a stream lead to the same mode and the same streamed bytes exactly when
the first chunk that begins with the escape starts at the same offset in both, or in
neither is there one. All cuts of a stream agree exactly when the escape does not occur
in it. -/
theorem sameOutcome_iff (S : Services σ) (d : Device σ) (s : Bytes) :
    (∀ cut cut' : Cut s, SameOutcome S d cut.chunks cut'.chunks ↔
        firstOffset isEscape cut.chunks = firstOffset isEscape cut'.chunks) ∧
      ((∀ cut cut' : Cut s, SameOutcome S d cut.chunks cut'.chunks) ↔
        ¬ ascii "+++" <:+: s) := by
  constructor
  · exact sameOutcome_iff_firstOffset
  · constructor
    · intro hall hinfix
      obtain ⟨cut, hcut⟩ := exists_cut_of_infix hinfix
      have hsame := (sameOutcome_iff_firstOffset cut (singletons s)).mp (hall cut (singletons s))
      rw [firstOffset_singletons] at hsame
      exact hcut hsame
    · intro hinfix cut cut'
      have hnone : ∀ cut : Cut s, firstOffset isEscape cut.chunks = none := by
        intro cut
        cases hoffset : firstOffset isEscape cut.chunks with
        | none => rfl
        | some n => exact absurd (infix_of_firstOffset cut hoffset) hinfix
      rw [sameOutcome_iff_firstOffset, hnone cut, hnone cut']

/-- `+++` in one chunk ends the mode, and in two it is data. -/
theorem not_sameOutcome_split_escape :
    ¬ SameOutcome Reference.services Reference.device
      [ascii "+++"] [ascii "++", ascii "+"] := by
  intro hsame
  have hoffsets := (sameOutcome_iff_firstOffset (s := ascii "+++")
    ⟨[ascii "+++"], by decide, by decide⟩ ⟨[ascii "++", ascii "+"], by decide, by decide⟩).mp hsame
  exact absurd hoffsets (by decide)

/-! ### Streaming and the connection -/

/-- Every chunk some steps passed to `uart_stream` met a live connection. The call is the
first thing its callback does, so the state it meets is the one the step started in. -/
def StreamsConnected (S : Services σ) (steps : List (Step σ)) : Prop :=
  ∀ r ∈ steps, ∀ data, .uartStream data ∈ r.result.calls → Connected S r.pre.svc

/-- Nothing that happens in transparent mode ends the connection, a restart apart. -/
def KeepsConnection (S : Services σ) (r : Step σ) : Prop :=
  r.event ≠ .restart → r.pre.rxIntr ≠ none → Connected S r.pre.svc → Connected S r.result.svc

/-- A receive function is registered over a live connection only. -/
def ModeConnected (S : Services σ) (d : Device σ) : Prop := d.rxIntr ≠ none → Connected S d.svc

variable {e : Event σ} {f : Frame σ}

/-- A start and the escape end the mode, and any other step leaves it as it was or enters
it over a live connection. -/
theorem rxIntr_of_step (hstep : step S d e = some f) :
    f.rxIntr = none ∨ (e ≠ .restart ∧ f.rxIntr = d.rxIntr) ∨ Connected S f.svc := by
  cases step_response hstep with
  | @command _ h p mem hcommand =>
      have hrestart : e ≠ .restart := by
        rintro rfl
        simp [commandOf] at hcommand
      rcases (handlerEffect_outcome (S := S) h p d).rx with hkept | ⟨-, hsame, hconn⟩
      · exact .inr (.inl ⟨hrestart, hkept⟩)
      · refine .inr (.inr ?_)
        rw [hsame]
        exact hconn
  | escape hmode hescape => exact .inl rfl
  | restart => exact .inl rfl
  | _ => exact .inr (.inl ⟨by simp, rfl⟩)

theorem uartStream_notMem_preamble (data : Bytes) (e : Event σ) :
    .uartStream data ∉ preamble e := by
  cases e with
  | cloud b =>
      rw [preamble]
      split_ifs <;> simp
  | _ => exact List.not_mem_nil

/-- Only the receive function of transparent mode streams. -/
theorem mode_of_stream (hstep : step S d e = some f) {data : Bytes}
    (hstream : .uartStream data ∈ f.calls) : d.rxIntr ≠ none ∧ e ≠ .restart := by
  cases step_response hstep with
  | @command _ h p mem hcommand =>
      rcases List.mem_append.mp hstream with hin | hin
      · exact absurd hin (uartStream_notMem_preamble data e)
      · exact absurd hin ((handlerEffect_outcome (S := S) h p d).streams data)
  | @unknown b _ => exact absurd hstream (uartStream_notMem_preamble (σ := σ) data (.cloud b))
  | received hmode => simp at hstream
  | stream hmode hescape => exact ⟨by simp [hmode], by simp⟩
  | escape hmode hescape => exact ⟨by simp [hmode], by simp⟩
  | push hprints =>
      obtain ⟨str, heq⟩ := hprints _ hstream
      simp at heq
  | network change => simp at hstream
  | restart =>
      cases hcfg : S.readEspushCfg (S.reset d.svc) <;>
        simp [bootCalls, fromFlash, hcfg] at hstream

theorem modeConnected_of_step {r : Step σ} (hinv : ModeConnected S r.pre)
    (hstep : step S r.pre r.event = some r.result) (hkeeps : KeepsConnection S r) :
    ModeConnected S r.result.toDevice := by
  intro hmode
  rcases rxIntr_of_step hstep with hnone | ⟨hrestart, hsame⟩ | hconn
  · exact absurd hnone hmode
  · rw [hsame] at hmode
    exact hkeeps hrestart hmode (hinv hmode)
  · exact hconn

/-- From a start, and as long as nothing ends the connection in transparent mode, whatever
is streamed meets a live connection. -/
theorem streamsConnected_of_run (S : Services σ) (d : Device σ) (es : List (Event σ))
    {steps : List (Step σ)} (hrun : run S d (.restart :: es) = some steps)
    (hkeeps : ∀ r ∈ steps, KeepsConnection S r) : StreamsConnected S steps := by
  obtain ⟨f, rest, hboot, hrest, rfl⟩ := trace_cons_inv hrun
  have hstart : ModeConnected S f.toDevice := by
    rw [step, invoke_userInit] at hboot
    obtain rfl := Option.some.inj hboot
    intro hmode
    exact absurd rfl hmode
  have hinv := (invariant_of_trace (ModeConnected S) (KeepsConnection S)
    (fun r => modeConnected_of_step) hrest (fun r hr => hkeeps r (by simp [hr])) hstart).2
  intro r hr data hstream
  obtain ⟨hmode, hrestart⟩ := mode_of_stream (step_of_mem hrun hr).2 hstream
  rcases List.mem_cons.mp hr with rfl | hr
  · exact absurd rfl hrestart
  · exact hinv r hr hmode

namespace Reference

/-- The connection, `AT+UARTRANS`, and a chunk, with other events in front of it. -/
def transparentEvents (before : List (Event State)) : List (Event State) :=
  [.network (accept 7 (List.replicate 32 0x4B)), .command .atExecUartTrans noParam] ++
    before ++ [.uart (ascii "data")]

end Reference

/-- The chunk meets the connection the mode was entered over. -/
theorem streamsConnected_of_run_uartrans : ∃ steps,
    run Reference.services Reference.device
      (.restart :: Reference.transparentEvents []) = some steps ∧
    StreamsConnected Reference.services steps := by
  refine ⟨[_, _, _, _], rfl, streamsConnected_of_run Reference.services Reference.device
    (Reference.transparentEvents []) rfl ?_⟩
  rw [List.forall_mem_cons, List.forall_mem_cons, List.forall_mem_cons, List.forall_mem_singleton]
  refine ⟨?_, ?_, ?_, ?_⟩
  · intro hrestart
    exact absurd rfl hrestart
  · intro _ hmode
    exact absurd rfl hmode
  · intro _ hmode
    exact absurd rfl hmode
  · intro _ _ hconn
    exact hconn

/-- The connection is lost before the chunk arrives, and the chunk is streamed. -/
theorem not_streamsConnected_after_loss :
    ¬ ∃ steps, run Reference.services Reference.device
        (.restart :: Reference.transparentEvents [.network Reference.lose]) = some steps ∧
      StreamsConnected Reference.services steps := by
  rintro ⟨steps, hrun, hstreams⟩
  obtain rfl := Option.some.inj hrun
  have hconn := hstreams _ (List.mem_of_getLast? rfl) (ascii "data") (by decide)
  exact absurd hconn (by decide)

end EspushAt
