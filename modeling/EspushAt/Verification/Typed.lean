import EspushAt.Foundations.Machine
import EspushAt.Verification.Parameters

/-!
# Commands typed instead of sent

A line typed on the UART ends in a line end, and a setup handler gets the line end with
its parameter; the cloud need not send one. So the same payload can make a handler do
different things, depending on who sent it. For every handler and payload it is decided
here whether the line end matters. Where it does not, a command from the cloud can be typed
in any run, whatever stands in the line buffer.
-/

namespace EspushAt

open CString Decimal Transition

variable {σ : Type}

/-! ### One command -/

/-- Where the line end does not matter: `AT+PUSH_DEF` takes 32 bytes of a key that has as
many, `AT+PUSH_CUR` takes keys of 32 bytes, and the message and the host name go as far as
the text does. -/
def EndIgnored (S : Services σ) (s : Bytes) : Handler → Prop
  | .atSetupCmdPushRegistDef => ∀ a k, splitComma s = some (a, k) → 32 ≤ k.length
  | .atSetupCmdPushRegistCur => ∀ a k, splitComma s = some (a, k) → S.atoi a ≠ 0 →
      k.length ≠ 30 ∧ k.length ≠ 32
  | .atSetupCmdPushMessage | .atSetupHostName => False
  | _ => True

/-- The handlers that read their whole parameter as a number. -/
def Handler.readsNumber : Handler → Bool
  | .atSetupGPIOEdgeLow | .atSetupGPIOEdgeHigh | .atSetupInterval | .atSetupServerHost => true
  | _ => false

/-- The number a text begins with fits an `int`, so that `atoi` gives it. -/
def FitsInt (s : Bytes) : Prop := -2 ^ 31 ≤ atoiValue s ∧ atoiValue s < 2 ^ 31

instance (s : Bytes) : Decidable (FitsInt s) := inferInstanceAs (Decidable (_ ∧ _))

variable {S : Services σ} {d : Device σ} {p q : Param}

/-! The parameter `q` is `p` with a line end. -/

/-- The line end stays in the second part. -/
theorem splitComma_append_crlf (s : Bytes) :
    splitComma (s ++ crlf) = (splitComma s).map fun ak => (ak.1, ak.2 ++ crlf) := by
  cases hsplit : splitComma s with
  | none =>
      have hnone : 0x2C ∉ s := by
        intro hcomma
        rw [splitComma, if_pos hcomma] at hsplit
        simp at hsplit
      refine splitComma_of_notMem ?_
      rw [List.mem_append, not_or]
      exact ⟨hnone, by decide⟩
  | some ak =>
      obtain ⟨a, k⟩ := ak
      obtain ⟨rfl, ha⟩ := splitComma_eq_some_iff.mp hsplit
      rw [List.append_assoc, List.cons_append, splitComma_of_split ha]
      rfl

theorem length_append_crlf (s : Bytes) : (s ++ crlf).length = s.length + 2 := by
  rw [List.length_append]
  rfl

/-- Where a short key ends, its terminator is taken for a byte of it, or the line end. -/
theorem defKey_ne_of_short {k : Bytes} (h : k.length < 32) (rest rest' : Bytes) :
    defKey k rest ≠ defKey (k ++ crlf) rest' := by
  intro heq
  have hbyte := congrArg (fun key => key[k.length]?) heq
  simp [defKey, h, crlf, ascii] at hbyte

theorem outcome_def_eq_iff (hq : q.text = p.text ++ crlf) :
    outcome S p d .atSetupCmdPushRegistDef = outcome S q d .atSetupCmdPushRegistDef ↔
      EndIgnored S p.text .atSetupCmdPushRegistDef := by
  cases hsplit : splitComma p.text with
  | none => simp [outcome, EndIgnored, hq, splitComma_append_crlf, hsplit]
  | some ak =>
      obtain ⟨a, k⟩ := ak
      have hlong : EndIgnored S p.text .atSetupCmdPushRegistDef ↔ 32 ≤ k.length := by
        simp [EndIgnored, hsplit]
      simp only [hlong, outcome, hq, splitComma_append_crlf, hsplit, Option.map_some]
      constructor
      · intro hsame
        by_contra hshort
        obtain ⟨-, hcalls⟩ := Prod.mk.inj hsame
        have hsave := Call.saveEspushCfg.inj (List.cons.inj hcalls).1
        exact defKey_ne_of_short (Nat.lt_of_not_le hshort) _ _ hsave.2.1
      · intro hlen
        have hlen' : 32 ≤ (k ++ crlf).length := by
          rw [length_append_crlf]
          omega
        rw [defKey_of_long hlen, defKey_of_long hlen', List.take_append_of_le_length hlen]

theorem outcome_cur_eq_iff (hq : q.text = p.text ++ crlf) :
    outcome S p d .atSetupCmdPushRegistCur = outcome S q d .atSetupCmdPushRegistCur ↔
      EndIgnored S p.text .atSetupCmdPushRegistCur := by
  cases hsplit : splitComma p.text with
  | none => simp [outcome, EndIgnored, hq, splitComma_append_crlf, hsplit]
  | some ak =>
      obtain ⟨a, k⟩ := ak
      have hkeys : EndIgnored S p.text .atSetupCmdPushRegistCur ↔
          (S.atoi a ≠ 0 → k.length ≠ 30 ∧ k.length ≠ 32) := by
        simp [EndIgnored, hsplit]
      simp only [hkeys, outcome, hq, splitComma_append_crlf, hsplit, Option.map_some,
        length_append_crlf]
      by_cases hzero : S.atoi a = 0
      · simp [hzero]
      · by_cases h32 : k.length = 32
        · simp [hzero, h32]
        · by_cases h30 : k.length = 30
          · simp [hzero, h30]
          · have hne : k.length + 2 ≠ 32 := by omega
            simp [hzero, h32, h30, hne]

/-- The length passed with a message is two bytes short of its text, whichever it is. -/
theorem outcome_msg_ne (hq : q.text = p.text ++ crlf) :
    outcome S p d .atSetupCmdPushMessage ≠ outcome S q d .atSetupCmdPushMessage := by
  have hended : q.text = ascii "\r\n" ↔ p.text = [] := by
    rw [hq, ← List.nil_append (ascii "\r\n")]
    exact List.append_left_inj crlf
  intro heq
  have hcalls := congrArg Prod.snd heq
  simp only [outcome, hended] at hcalls
  by_cases hbare : p.text = ascii "\r\n"
  · have hne : p.text ≠ [] := by
      rw [hbare]
      decide
    rw [if_pos hbare, if_neg hne] at hcalls
    simp at hcalls
  · by_cases hnil : p.text = []
    · rw [if_neg hbare, if_pos hnil] at hcalls
      simp at hcalls
    · rw [if_neg hbare, if_neg hnil, hq, length_append_crlf] at hcalls
      have hsame := (Call.espushMsg.inj (List.cons.inj hcalls).1).2.1
      have hnat := congrArg UInt16.toNat hsame
      rw [pushLen_toNat, pushLen_toNat] at hnat
      omega

theorem outcome_hostname_ne (hq : q.text = p.text ++ crlf) :
    outcome S p d .atSetupHostName ≠ outcome S q d .atSetupHostName := by
  intro heq
  have hcalls := congrArg Prod.snd heq
  simp only [outcome, hq] at hcalls
  have hname := (Call.wifiStationSetHostname.inj (List.cons.inj hcalls).1).1
  simp [crlf, ascii] at hname

theorem isSpace_crlf {b : UInt8} (h : b ∈ crlf) : isSpace b := by
  obtain rfl | rfl : b = 0x0D ∨ b = 0x0A := by simpa [crlf, ascii] using h
  · rfl
  · rfl

theorem atoi_append_crlf (L : Libc) {s : Bytes} (h : FitsInt s) :
    L.atoi (s ++ crlf) = L.atoi s := by
  have hvalue := atoiValue_append_spaces (fun _ => isSpace_crlf) s
  rw [L.atoi_eq_ofInt hvalue h.1 h.2, L.atoi_eq_ofInt rfl h.1 h.2]

/-- With and without a line end a handler leaves the same device and makes the same calls
exactly where the line end does not matter. -/
theorem outcome_eq_iff (h : Handler) (hfits : h.readsNumber → FitsInt p.text)
    (hq : q.text = p.text ++ crlf) :
    outcome S p d h = outcome S q d h ↔ EndIgnored S p.text h := by
  have hnumber : h.readsNumber → S.atoi q.text = S.atoi p.text := by
    intro hreads
    rw [hq, atoi_append_crlf S.toLibc (hfits hreads)]
  cases h with
  | atSetupCmdPushRegistDef => exact outcome_def_eq_iff hq
  | atSetupCmdPushRegistCur => exact outcome_cur_eq_iff hq
  | atSetupCmdPushMessage => exact iff_of_false (outcome_msg_ne hq) id
  | atSetupHostName => exact iff_of_false (outcome_hostname_ne hq) id
  | atSetupGPIOEdgeLow =>
      refine iff_of_true ?_ trivial
      simp only [outcome, edgeOutcome, hnumber rfl]
  | atSetupGPIOEdgeHigh =>
      refine iff_of_true ?_ trivial
      simp only [outcome, edgeOutcome, hnumber rfl]
  | atSetupInterval =>
      refine iff_of_true ?_ trivial
      simp only [outcome, hnumber rfl]
  | atSetupServerHost =>
      refine iff_of_true ?_ trivial
      simp only [outcome, hnumber rfl]
  | _ => exact iff_of_true rfl trivial

/-! ### Whole runs -/

/-- The calls of a step behind those that answer a command from the cloud. -/
def ownCalls (r : Step σ) : List Call := r.result.calls.drop (preamble r.event).length

/-- A command typed in the state a step met leaves the state that step left and makes the
same calls, but for the lines the cloud is answered. -/
def ActsAs (S : Services σ) (r : Step σ) (h : Handler) (q : Param) : Prop :=
  ∃ f, step S r.pre (.command h q) = some f ∧ f.toDevice = r.result.toDevice ∧
    f.calls = ownCalls r

/-- Events that can stand in for a step: for a command the same one typed with a line end,
where the line end does not matter; none for a line from the cloud that names no
command; the event of the step for any step. In transparent mode a typed line is streamed. -/
inductive Typed (S : Services σ) : Step σ → List (Event σ) → Prop where
  | command {r : Step σ} {h : Handler} {p : Param} (q : Param)
      (hcommand : commandOf S r.event = some (h, p)) (hmode : r.pre.rxIntr = none)
      (hend : EndIgnored S p.text h) (hfits : h.readsNumber → FitsInt p.text)
      (hq : q.text = p.text ++ crlf) : Typed S r [.command h q]
  | unknown {d : Device σ} {b : CloudBuffer} {f : Frame σ}
      (hcommand : commandOf S (.cloud b) = none) : Typed S ⟨d, .cloud b, f⟩ []
  | same (r : Step σ) : Typed S r [r.event]

theorem calls_eq_preamble_append {e : Event σ} {f : Frame σ} (hstep : step S d e = some f) :
    f.calls = preamble e ++ ownCalls (⟨d, e, f⟩ : Step σ) := by
  cases step_response hstep with
  | command mem hcommand => rw [ownCalls, List.drop_left]
  | unknown hcommand => rw [ownCalls, List.drop_length, List.append_nil]
  | _ => rfl

theorem outcome_of_step {e : Event σ} {f : Frame σ} {h : Handler}
    (hcommand : commandOf S e = some (h, p)) (hstep : step S d e = some f) :
    (f.toDevice, ownCalls (⟨d, e, f⟩ : Step σ)) = outcome S p d h := by
  cases step_response hstep with
  | command mem hcommand' =>
      obtain ⟨rfl, rfl⟩ := Prod.mk.inj (Option.some.inj (hcommand.symm.trans hcommand'))
      rw [ownCalls, List.drop_left]
  | unknown hcommand' => exact absurd (hcommand.symm.trans hcommand') (by simp)
  | _ => simp [commandOf] at hcommand

/-- A command typed with its line end acts as it did without one exactly where the line end
does not matter. -/
theorem actsAs_iff {r : Step σ} {h : Handler} (hstep : step S r.pre r.event = some r.result)
    (hcommand : commandOf S r.event = some (h, p)) (hfits : h.readsNumber → FitsInt p.text)
    (hq : q.text = p.text ++ crlf) : ActsAs S r h q ↔ EndIgnored S p.text h := by
  have hleft := outcome_of_step hcommand hstep
  rw [← outcome_eq_iff (S := S) (d := r.pre) h hfits hq, ← hleft]
  constructor
  · rintro ⟨f, hf, hdevice, hcalls⟩
    rw [step_command] at hf
    obtain rfl := Option.some.inj hf
    exact Prod.ext hdevice.symm hcalls.symm
  · intro hsame
    exact ⟨_, step_command h q, congrArg Prod.fst hsame.symm, congrArg Prod.snd hsame.symm⟩

/-- What stands in for a step leads to the same state and makes the same calls. -/
theorem simulates_of_typed {r : Step σ} {es : List (Event σ)} (htyped : Typed S r es)
    (hstep : step S r.pre r.event = some r.result) :
    ∃ rs, run S r.pre es = some rs ∧ final Frame.toDevice r.pre rs = r.result.toDevice ∧
      rs.flatMap ownCalls = ownCalls r := by
  cases htyped with
  | command q hcommand hmode hend hfits hq =>
      obtain ⟨f, hf, hdevice, hcalls⟩ := (actsAs_iff hstep hcommand hfits hq).mpr hend
      refine ⟨_, trace_cons hf rfl, hdevice, ?_⟩
      simpa [ownCalls, preamble] using hcalls
  | @unknown d b f hcommand =>
      replace hstep : step S d (.cloud b) = some f := hstep
      rw [step_cloud, hcommand, outcomeOf] at hstep
      obtain rfl := Option.some.inj hstep
      exact ⟨[], rfl, rfl, by simp [ownCalls]⟩
  | same => exact ⟨_, trace_cons hstep rfl, rfl, by simp [ownCalls]⟩

namespace Reference

/-- A command from the cloud in a buffer of its own. -/
def cloudOf (s : String) : CloudBuffer := ⟨ascii s, [0], by simp⟩

/-- A command with a number, a line that names no command, and a command without a
parameter. -/
def cloudEvents : List (Event State) :=
  [.cloud (cloudOf "AT+INTERVAL=60"), .cloud (cloudOf "hello"), .cloud (cloudOf "AT+PUSHCLOSE")]

/-- The number as it is typed, over an old line. -/
def typedInterval : Param := ⟨ascii "60\r\n", ascii "old line", by decide⟩

end Reference

end EspushAt
