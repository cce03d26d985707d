import EspushAt.Device.Reference
import EspushAt.Foundations.Machine

/-!
# What is left in the line buffer

Behind the terminator of a parameter stands whatever earlier lines left there. Two
handlers can pass some of it on: `AT+PUSH_DEF` when the key it takes 32 bytes for is
shorter, and `AT+PUSHMSG` when the length it computes wraps around. No other command
depends on it, and neither does a whole run without such a command.

libat passes a handler a pointer into the buffer the line arrived in, so two runs over the
same lines may find different bytes behind a parameter, and so may two lines of one run.
-/

namespace EspushAt

open CString Transition

variable {σ : Type}

/-- A call with what the library reads of its arguments: of a message as many bytes as
its length says. -/
def Call.read : Call → Call
  | .espushMsg buf len ret => .espushMsg (buf.take len.toNat) len ret
  | c => c

/-- `espush_msg` reads as many bytes as its length says. -/
def ReadsLength (S : Services σ) : Prop :=
  ∀ (buf buf' : Bytes) (len : UInt16) (s : σ), buf.take len.toNat = buf'.take len.toNat →
    S.espushMsg buf len s = S.espushMsg buf' len s

/-- The handler reads behind the terminator of this parameter text. -/
def readsBehind (text : Bytes) : Handler → Bool
  | .atSetupCmdPushRegistDef =>
      match splitComma text with
      | none => false
      | some (_, k) => k.length < 31
  | .atSetupCmdPushMessage => text.length < 2
  | _ => false

/-- Two outcomes that the libraries cannot tell apart. -/
def Alike (r r' : Device σ × List Call) : Prop :=
  r.1 = r'.1 ∧ r.2.map Call.read = r'.2.map Call.read

variable {S : Services σ} {d : Device σ}

/-! ### One command -/

theorem defKey_eq_of_length {k : Bytes} (h : 31 ≤ k.length) (rest rest' : Bytes) :
    defKey k rest = defKey k rest' := by
  have hkey : ∀ r, defKey k r = (k ++ [0]).take 32 := by
    intro r
    rw [defKey, List.append_cons]
    exact List.take_append_of_le_length (by simpa using h)
  rw [hkey, hkey]

theorem take_block_eq {text : Bytes} {n : Nat} (h : n ≤ text.length) (rest rest' : Bytes) :
    (text ++ 0 :: rest).take n = (text ++ 0 :: rest').take n := by
  rw [List.take_append_of_le_length h, List.take_append_of_le_length h]

theorem alike_def {text : Bytes} (hz : 0 ∉ text)
    (h : readsBehind text .atSetupCmdPushRegistDef = false) (rest rest' : Bytes) :
    Alike (outcome S ⟨text, rest, hz⟩ d .atSetupCmdPushRegistDef)
      (outcome S ⟨text, rest', hz⟩ d .atSetupCmdPushRegistDef) := by
  cases hsplit : splitComma text with
  | none =>
      simp only [outcome, hsplit]
      exact ⟨rfl, rfl⟩
  | some p =>
      obtain ⟨a, k⟩ := p
      simp only [readsBehind, hsplit] at h
      have hlen : 31 ≤ k.length := Nat.le_of_not_lt (of_decide_eq_false h)
      simp only [outcome, hsplit, defKey_eq_of_length hlen rest rest']
      exact ⟨rfl, rfl⟩

theorem alike_msg (hreads : ReadsLength S) {text : Bytes} (hz : 0 ∉ text)
    (h : readsBehind text .atSetupCmdPushMessage = false) (rest rest' : Bytes) :
    Alike (outcome S ⟨text, rest, hz⟩ d .atSetupCmdPushMessage)
      (outcome S ⟨text, rest', hz⟩ d .atSetupCmdPushMessage) := by
  simp only [outcome]
  split_ifs
  · exact ⟨rfl, rfl⟩
  · have hlen : 2 ≤ text.length := Nat.le_of_not_lt (of_decide_eq_false h)
    have hle : (pushLen text.length).toNat ≤ text.length := by
      rw [pushLen_toNat]
      omega
    have htake := take_block_eq hle rest rest'
    have hanswer := hreads _ _ (pushLen text.length) d.svc htake
    rw [hanswer]
    refine ⟨rfl, ?_⟩
    simp only [List.map_cons, Call.read, htake]

/-- A handler that does not read behind the terminator does the same whatever is there. -/
theorem alike_outcome (hreads : ReadsLength S) {text : Bytes} (hz : 0 ∉ text) {h : Handler}
    (hbehind : readsBehind text h = false) (rest rest' : Bytes) :
    Alike (outcome S ⟨text, rest, hz⟩ d h) (outcome S ⟨text, rest', hz⟩ d h) := by
  cases h with
  | atSetupCmdPushRegistDef => exact alike_def hz hbehind rest rest'
  | atSetupCmdPushMessage => exact alike_msg hreads hz hbehind rest rest'
  | _ => exact ⟨rfl, rfl⟩

/-- A short key is followed by the terminator and by what stands behind it. -/
theorem defKey_of_short {k : Bytes} (h : k.length < 31) (b : UInt8) :
    defKey k [b] = k ++ [0, b] := by
  rw [defKey, List.take_of_length_le]
  simp only [List.length_append, List.length_cons, List.length_nil]
  omega

theorem not_alike_def {text a k : Bytes} (hz : 0 ∉ text) (hsplit : splitComma text = some (a, k))
    (h : k.length < 31) :
    ¬ Alike (outcome S ⟨text, [1], hz⟩ d .atSetupCmdPushRegistDef)
      (outcome S ⟨text, [2], hz⟩ d .atSetupCmdPushRegistDef) := by
  simp only [outcome, hsplit, defKey_of_short h]
  rintro ⟨-, hcalls⟩
  simp [Call.read] at hcalls

theorem not_alike_msg {text : Bytes} (hz : 0 ∉ text) (h : text.length < 2) :
    ¬ Alike (outcome S ⟨text, [1], hz⟩ d .atSetupCmdPushMessage)
      (outcome S ⟨text, [2], hz⟩ d .atSetupCmdPushMessage) := by
  have hempty : text ≠ ascii "\r\n" := by
    rintro rfl
    exact absurd h (by decide)
  have htake : ∀ b : UInt8, (text ++ 0 :: [b]).take (pushLen text.length).toNat =
      text ++ 0 :: [b] := by
    intro b
    apply List.take_of_length_le
    simp only [List.length_append, List.length_cons, List.length_nil, pushLen_toNat]
    omega
  simp only [outcome, if_neg hempty]
  rintro ⟨-, hcalls⟩
  simp only [List.map_cons, Call.read, htake] at hcalls
  simp at hcalls

/-- A command does the same to the device and to the libraries whatever stands behind the
terminator of its parameter. -/
def KeepsToText (S : Services σ) (d : Device σ) (h : Handler) (text : Bytes) (hz : 0 ∉ text) :
    Prop :=
  ∀ rest rest', ∃ f f', invoke (runHandler S h) (Param.block ⟨text, rest, hz⟩) d = some f ∧
    invoke (runHandler S h) (Param.block ⟨text, rest', hz⟩) d = some f' ∧
    f.toDevice = f'.toDevice ∧ f.calls.map Call.read = f'.calls.map Call.read

theorem keepsToText_iff_alike {h : Handler} {text : Bytes} (hz : 0 ∉ text) :
    KeepsToText S d h text hz ↔ ∀ rest rest',
      Alike (outcome S ⟨text, rest, hz⟩ d h) (outcome S ⟨text, rest', hz⟩ d h) := by
  constructor
  · intro hkeeps rest rest'
    obtain ⟨f, f', hf, hf', hsame⟩ := hkeeps rest rest'
    obtain rfl := invoke_unique (invoke_runHandler S h ⟨text, rest, hz⟩ d) hf
    obtain rfl := invoke_unique (invoke_runHandler S h ⟨text, rest', hz⟩ d) hf'
    exact hsame
  · intro halike rest rest'
    exact ⟨_, _, invoke_runHandler S h ⟨text, rest, hz⟩ d,
      invoke_runHandler S h ⟨text, rest', hz⟩ d, halike rest rest'⟩

/-- The commands that keep to their text are all but `AT+PUSH_DEF` with a key of less than
31 bytes and `AT+PUSHMSG` with a text of less than two. -/
theorem keepsToText_iff (hreads : ReadsLength S) (d : Device σ) (h : Handler) (text : Bytes)
    (hz : 0 ∉ text) : KeepsToText S d h text hz ↔ readsBehind text h = false := by
  rw [keepsToText_iff_alike]
  constructor
  · intro halike
    by_contra hbehind
    rw [Bool.not_eq_false] at hbehind
    cases h with
    | atSetupCmdPushRegistDef =>
        simp only [readsBehind] at hbehind
        split at hbehind
        · exact absurd hbehind (by simp)
        · rename_i a k hsplit
          exact not_alike_def hz hsplit (by simpa using hbehind) (halike [1] [2])
    | atSetupCmdPushMessage =>
        exact not_alike_msg hz (by simpa [readsBehind] using hbehind) (halike [1] [2])
    | _ => simp [readsBehind] at hbehind
  · intro hbehind rest rest'
    exact alike_outcome hreads hz hbehind rest rest'

/-- `AT+PUSH_DEF=7,` and a key of 31 bytes: the terminator makes it 32. -/
theorem keepsToText_iff_31 :
    KeepsToText Reference.services Reference.device .atSetupCmdPushRegistDef
        (ascii "7," ++ List.replicate 31 0x4B) (by decide) ↔
      readsBehind (ascii "7," ++ List.replicate 31 0x4B) .atSetupCmdPushRegistDef = false :=
  keepsToText_iff (fun _ _ _ _ _ => rfl) _ _ _ _

/-! ### Whole runs -/

/-- An event, with what libat finds for a line at the time: a handler, and a parameter with
the bytes that stand behind it in the buffer just then. -/
structure Occurrence (σ : Type) where
  find : Bytes → Option (Handler × Param)
  event : Event σ

/-- The libraries, with the line buffer as an occurrence meets it. -/
def Occurrence.services (S : Services σ) (o : Occurrence σ) : Services σ :=
  { S with atLookup := o.find }

/-- A step in which libat reads its buffer as it is at the time. -/
def stepAt (S : Services σ) (d : Device σ) (o : Occurrence σ) : Option (Frame σ) :=
  step (o.services S) d o.event

/-- With the lookup of the libraries themselves this is the step of the device. -/
example (S : Services σ) (d : Device σ) (e : Event σ) :
    stepAt S d ⟨S.atLookup, e⟩ = step S d e := rfl

/-- Two commands with the same text, neither of which reads behind it. -/
def SameCommand (c c' : Handler × Param) : Prop :=
  c.1 = c'.1 ∧ c.2.text = c'.2.text ∧ readsBehind c.2.text c.1 = false

/-- Two occurrences that bring the same text or the same data, in different surroundings. A
line from the cloud brings a command if libat finds one for it, the same for both. -/
inductive SameText : Occurrence σ → Occurrence σ → Prop where
  | command {find find' : Bytes → Option (Handler × Param)} {h : Handler} {p p' : Param}
      (hsame : SameCommand (h, p) (h, p')) : SameText ⟨find, .command h p⟩ ⟨find', .command h p'⟩
  | cloud {find find' : Bytes → Option (Handler × Param)} {b b' : CloudBuffer}
      (htext : text b.block = text b'.block)
      (hfound : isAT (text b.block) → Option.Rel SameCommand (find ((text b.block).drop 2))
        (find' ((text b.block).drop 2))) : SameText ⟨find, .cloud b⟩ ⟨find', .cloud b'⟩
  | uart {find find' : Bytes → Option (Handler × Param)} (data : Bytes) :
      SameText ⟨find, .uart data⟩ ⟨find', .uart data⟩
  | push {find find' : Bytes → Option (Handler × Param)} {m m' : Push} (hdata : m.data = m'.data) :
      SameText ⟨find, .push m⟩ ⟨find', .push m'⟩
  | network {find find' : Bytes → Option (Handler × Param)} (change : σ → σ) :
      SameText ⟨find, .network change⟩ ⟨find', .network change⟩
  | restart {find find' : Bytes → Option (Handler × Param)} :
      SameText ⟨find, .restart⟩ ⟨find', .restart⟩

/-- No handler dispatches a line itself. -/
theorem outcome_services (o : Occurrence σ) (p : Param) (d : Device σ) (h : Handler) :
    outcome (o.services S) p d h = outcome S p d h := by
  cases h <;> rfl

theorem alike_of_sameCommand (hreads : ReadsLength S) {h h' : Handler} {p p' : Param}
    (hsame : SameCommand (h, p) (h', p')) : Alike (outcome S p d h) (outcome S p' d h') := by
  obtain ⟨text, rest, hz⟩ := p
  obtain ⟨text', rest', hz'⟩ := p'
  obtain ⟨rfl, htext, hbehind⟩ := hsame
  obtain rfl : text = text' := htext
  exact alike_outcome hreads hz hbehind rest rest'

theorem alike_outcomeOf (hreads : ReadsLength S) {c c' : Option (Handler × Param)}
    (hsame : Option.Rel SameCommand c c') : Alike (outcomeOf S d c) (outcomeOf S d c') := by
  cases hsame with
  | none => exact ⟨rfl, rfl⟩
  | some hsame => exact alike_of_sameCommand hreads hsame

theorem outcomeOf_services (o : Occurrence σ) (d : Device σ) (c : Option (Handler × Param)) :
    outcomeOf (o.services S) d c = outcomeOf S d c := by
  cases c with
  | none => rfl
  | some hp => exact outcome_services o hp.2 d hp.1

/-- A line from the cloud does what the command found for it does, behind its echo. -/
theorem stepAt_cloud (find : Bytes → Option (Handler × Param)) (b : CloudBuffer) :
    stepAt S d ⟨find, .cloud b⟩ =
      let r := outcomeOf S d (if isAT (text b.block) then find ((text b.block).drop 2) else none)
      some ⟨r.1, b.block, preamble (σ := σ) (.cloud b) ++ r.2⟩ := by
  rw [stepAt, step_cloud, outcomeOf_services]
  rfl

theorem step_sameText (hreads : ReadsLength S) {o o' : Occurrence σ} {f : Frame σ}
    (hsame : SameText o o') (hstep : stepAt S d o = some f) :
    ∃ g, stepAt S d o' = some g ∧ g.toDevice = f.toDevice ∧
      f.calls.map Call.read = g.calls.map Call.read := by
  cases hsame with
  | @command find find' h p p' hsame =>
      rw [stepAt, step_command, outcome_services] at hstep
      obtain rfl := Option.some.inj hstep
      obtain ⟨hdevice, hcalls⟩ := alike_of_sameCommand (d := d) hreads hsame
      refine ⟨_, step_command h p', ?_, ?_⟩
      · rw [outcome_services]
        exact hdevice.symm
      · rw [outcome_services]
        exact hcalls
  | @cloud find find' b b' htext hfound =>
      have hrel : Option.Rel SameCommand
          (if isAT (text b.block) then find ((text b.block).drop 2) else none)
          (if isAT (text b.block) then find' ((text b.block).drop 2) else none) := by
        split_ifs with hat
        · exact hfound hat
        · exact .none
      obtain ⟨hdevice, hcalls⟩ := alike_outcomeOf (d := d) hreads hrel
      rw [stepAt_cloud] at hstep
      obtain rfl := Option.some.inj hstep
      refine ⟨_, stepAt_cloud find' b', ?_, ?_⟩
      · rw [← htext]
        exact hdevice.symm
      · rw [preamble, preamble, ← htext, List.map_append, List.map_append]
        exact congrArg _ hcalls
  | uart data => exact ⟨f, hstep, rfl, rfl⟩
  | @push find find' m m' hdata =>
      rw [stepAt, step, invoke_atRecvPushMsgCb, hdata] at hstep
      obtain ⟨calls, hcalls, rfl⟩ := Option.map_eq_some_iff.mp hstep
      exact ⟨⟨d, m'.block, calls⟩, by rw [stepAt, step, invoke_atRecvPushMsgCb, hcalls]; rfl,
        rfl, rfl⟩
  | network change => exact ⟨f, hstep, rfl, rfl⟩
  | restart => exact ⟨f, hstep, rfl, rfl⟩

/-- Two runs that bring the same texts and data pass through the same states, and the
libraries see the same calls, whatever each line finds in the buffers. -/
theorem run_sameText (hreads : ReadsLength S) (d : Device σ) {os os' : List (Occurrence σ)}
    (hsame : List.Forall₂ SameText os os') :
    ∃ steps steps', trace (stepAt S) Frame.toDevice d os = some steps ∧
      trace (stepAt S) Frame.toDevice d os' = some steps' ∧
      final Frame.toDevice d steps' = final Frame.toDevice d steps ∧
      List.Forall₂ (fun r r' => r.pre = r'.pre ∧
        r.result.calls.map Call.read = r'.result.calls.map Call.read) steps steps' := by
  have htotal : ∀ d o, ∃ f, stepAt S d o = some f := fun d o => step_total d o.event
  have hexists : ∃ steps, trace (stepAt S) Frame.toDevice d os = some steps :=
    exists_trace htotal d os
  obtain ⟨steps, hrun⟩ := hexists
  obtain ⟨steps', hrun', hfinal, hall⟩ := forall₂_of_trace SameText
    (fun f g => f.calls.map Call.read = g.calls.map Call.read)
    (fun _ _ _ _ => step_sameText hreads) hsame hrun
  exact ⟨steps, steps', hrun, hrun', hfinal, hall⟩

namespace Reference

/-- What libat finds in a buffer where these bytes stand behind every parameter. -/
def findBefore (rest line : Bytes) : Option (Handler × Param) :=
  (findCommand line).map fun hp => (hp.1, { hp.2 with rest := rest })

/-- A host name typed, and an interval from the cloud, over what the buffers hold. -/
def hostnameEvents (rest rest' : Bytes) : List (Occurrence State) :=
  [⟨findBefore rest, .command .atSetupHostName ⟨ascii "door", rest, by decide⟩⟩,
    ⟨findBefore rest', .cloud ⟨ascii "AT+INTERVAL=60", 0 :: rest', by simp⟩⟩]

end Reference

/-- An empty buffer, and the same lines over old ones that differ from line to line. -/
theorem run_sameText_hostname : ∃ steps steps',
    trace (stepAt Reference.services) Frame.toDevice Reference.device
      (Reference.hostnameEvents [] []) = some steps ∧
    trace (stepAt Reference.services) Frame.toDevice Reference.device
      (Reference.hostnameEvents (ascii "old line") (ascii "older")) = some steps' ∧
    final Frame.toDevice Reference.device steps' = final Frame.toDevice Reference.device steps ∧
    List.Forall₂ (fun r r' => r.pre = r'.pre ∧
      r.result.calls.map Call.read = r'.result.calls.map Call.read) steps steps' :=
  run_sameText (fun _ _ _ _ _ => rfl) _ (.cons (.command ⟨rfl, rfl, rfl⟩)
    (.cons (.cloud rfl fun _ => .some ⟨rfl, rfl, rfl⟩) .nil))

end EspushAt
