import EspushAt.Foundations.Framing
import EspushAt.Device.Reference

/-!
# The stream of received messages

While the flag is on every message is written as a frame: a header with its length, the
data and a line end. The specification is `stream`, over any function that prints the
data; printing all of it gives the stream a host can decode, and printing it as a C
string gives the one the device writes. They differ as soon as one message has a zero
byte.
-/

namespace EspushAt

open CString Decimal Framing Transition

variable {σ : Type}

/-! ### Frames -/

/-- `\r\n+MSG,<length>:`, the data and a line end. -/
def frame (data : Bytes) : Bytes :=
  ascii "\r\n+MSG," ++ decimal data.length ++ ascii ":" ++ data ++ ascii "\r\n"

/-- Read a header, then as many bytes as it says and the line end. -/
def decodeMsg (stream : Bytes) : Option (Bytes × Bytes) :=
  if ascii "\r\n+MSG," <+: stream then
    match readDigits (stream.drop 7) with
    | (len, 0x3A :: body) =>
        if (body.drop len).take 2 = ascii "\r\n" then some (body.take len, body.drop (len + 2))
        else none
    | _ => none
  else none

theorem decodeMsg_frame (data rest : Bytes) :
    decodeMsg (frame data ++ rest) = some (data, rest) := by
  have hframe : frame data ++ rest =
      ascii "\r\n+MSG," ++ (decimal data.length ++ 0x3A :: (data ++ (ascii "\r\n" ++ rest))) := by
    simp [frame, show ascii ":" = [0x3A] from rfl]
  have hdrop : (frame data ++ rest).drop 7 =
      decimal data.length ++ 0x3A :: (data ++ (ascii "\r\n" ++ rest)) := by
    rw [hframe]
    exact List.drop_left' rfl
  have hdigits : readDigits ((frame data ++ rest).drop 7) =
      (data.length, 0x3A :: (data ++ (ascii "\r\n" ++ rest))) := by
    rw [hdrop]
    apply readDigits_decimal_append
    simp
    decide
  have hend : ((data ++ (ascii "\r\n" ++ rest)).drop data.length).take 2 = ascii "\r\n" := by
    rw [List.drop_left]
    exact List.take_left' rfl
  have hrest : (data ++ (ascii "\r\n" ++ rest)).drop (data.length + 2) = rest := by
    rw [← List.drop_drop, List.drop_left]
    exact List.drop_left' rfl
  have hpre : ascii "\r\n+MSG," <+: frame data ++ rest := by
    rw [hframe]
    exact List.prefix_append _ _
  rw [decodeMsg, if_pos hpre, hdigits]
  simp only [hend, if_true, List.take_left, hrest]

theorem decodeStream_frames (datas : List Bytes) :
    decodeStream decodeMsg (datas.flatMap frame) = some datas := by
  apply decodeStream_flatMap
  · intro data _ hnil
    simp [frame, ascii] at hnil
  · intro data _ rest
    exact decodeMsg_frame data rest

/-! ### What is written -/

/-- What arrives: messages and switches of the flag, in any order. -/
inductive Incoming where
  | push (m : Push)
  | toggle (p : Param)

def Incoming.event : Incoming → Event σ
  | .push m => .push m
  | .toggle p => .command .atExecPushFlagSwitch p

/-- What stands on the UART for one message when its data are printed as `body`. -/
def received (on : Bool) (m : Push) (body : Bytes) : Bytes :=
  if on then ascii "\r\n+MSG," ++ decimal m.data.length ++ ascii ":" ++ body ++ ascii "\r\n"
  else body

/-- The bytes of a whole sequence, from a state of the flag. -/
def stream (print : Bytes → Bytes) : Bool → List Incoming → Bytes
  | _, [] => []
  | on, .push m :: is => received on m (print m.data) ++ stream print on is
  | on, .toggle _ :: is => stream print (!on) is

/-- The bytes a call writes on the UART. -/
def Call.written : Call → Bytes
  | .atResponse str => str
  | _ => []

/-- What the message callback writes in a step; other events do not run it. -/
def writtenBy (r : Step σ) : Bytes :=
  match r.event with
  | .push _ => r.result.calls.flatMap Call.written
  | _ => []

/-- The data of a step that receives a message with the flag on. -/
def payload (r : Step σ) : Option Bytes :=
  match r.event with
  | .push m => if r.pre.suffixFlag ≠ 0 then some m.data else none
  | _ => none

/-- The flag as the specification sees it. -/
def flagOn (d : Device σ) : Bool := decide (d.suffixFlag ≠ 0)

/-- What the steps of such a sequence should do: write the stream of the data, in
frames a host can decode wherever the flag is on, and leave every buffer as it was. -/
structure Delivers (d : Device σ) (is : List Incoming) (steps : List (Step σ)) : Prop where
  writes : steps.flatMap writtenBy = stream id (flagOn d) is
  decodes : ∀ front seg back, steps = front ++ seg ++ back → (∀ r ∈ seg, (payload r).isSome) →
    decodeStream decodeMsg (seg.flatMap writtenBy) = some (seg.filterMap payload)
  restores : ∀ r ∈ steps, ∀ m, r.event = .push m → r.result.mem = m.block

variable {S : Services σ} {d : Device σ} {f : Frame σ}

/-- The callback prints the data up to the first zero byte. -/
theorem step_push {m : Push} (hstep : step S d (.push m) = some f) :
    f.toDevice = d ∧ f.mem = m.block ∧
      f.calls.flatMap Call.written = received (flagOn d) m (text m.data) := by
  rw [step, invoke_atRecvPushMsgCb] at hstep
  obtain ⟨calls, hcalls, rfl⟩ := Option.map_eq_some_iff.mp hstep
  refine ⟨rfl, rfl, ?_⟩
  by_cases hflag : d.suffixFlag = 0
  · rw [recvCalls, if_pos hflag] at hcalls
    obtain rfl := Option.some.inj hcalls
    simp [received, flagOn, hflag, Call.written]
  · rw [recvCalls, if_neg hflag, if_pos m.msgHeader_fits] at hcalls
    obtain rfl := Option.some.inj hcalls
    simp [received, flagOn, hflag, Call.written, m.msgHeader_eq]

theorem step_toggle {p : Param} (hstep : step S d (.command .atExecPushFlagSwitch p) = some f) :
    flagOn f.toDevice = !flagOn d := by
  rw [step, runHandler, invoke_atExecPushFlagSwitch] at hstep
  obtain rfl := Option.some.inj hstep
  by_cases hflag : d.suffixFlag = 0 <;> simp [flagOn, hflag]

/-- A whole run writes the stream with the data printed as C strings. -/
theorem written_of_run {is : List Incoming} {steps : List (Step σ)}
    (hrun : run S d (is.map Incoming.event) = some steps) :
    steps.flatMap writtenBy = stream text (flagOn d) is := by
  induction is generalizing d steps with
  | nil =>
      obtain rfl : [] = steps := by simpa using hrun
      rfl
  | cons i is ih =>
      obtain ⟨f, rest, hstep, hrest, rfl⟩ := trace_cons_inv hrun
      have htail := ih hrest
      cases i with
      | push m =>
          obtain ⟨hdevice, -, hwritten⟩ := step_push hstep
          rw [hdevice] at htail
          rw [List.flatMap_cons, htail]
          exact congrArg (· ++ stream text (flagOn d) is) hwritten
      | toggle p =>
          rw [List.flatMap_cons, htail, step_toggle hstep]
          rfl

/-! ### When nothing is lost -/

theorem length_received (on : Bool) (m : Push) (body : Bytes) :
    (received on m body).length = (received on m []).length + body.length := by
  cases on with
  | false => simp [received]
  | true =>
      simp only [received, if_true, List.length_append, List.length_nil]
      omega

theorem length_stream_text_le (on : Bool) (is : List Incoming) :
    (stream text on is).length ≤ (stream id on is).length := by
  induction is generalizing on with
  | nil => exact Nat.le_refl _
  | cons i is ih =>
      cases i with
      | push m =>
          have htail := ih on
          have hdata := length_text_le m.data
          simp only [stream, List.length_append, length_received on m (text m.data),
            length_received on m m.data, id_eq]
          omega
      | toggle p => exact ih (!on)

/-- Printing every message as a C string gives the whole stream exactly when no message
has a zero byte: each one can only become shorter. -/
theorem stream_text_eq_iff (on : Bool) (is : List Incoming) :
    stream text on is = stream id on is ↔ ∀ m, .push m ∈ is → 0 ∉ m.data := by
  induction is generalizing on with
  | nil => simp [stream]
  | cons i is ih =>
      cases i with
      | push m =>
          constructor
          · intro heq m' hm'
            have hlen := congrArg List.length heq
            have htail := length_stream_text_le on is
            have hdata := length_text_le m.data
            simp only [stream, List.length_append, length_received on m (text m.data),
              length_received on m m.data, id_eq] at hlen
            have hzero : 0 ∉ m.data := length_text_eq_iff.mp (by omega)
            have hrest : stream text on is = stream id on is := by
              rw [stream, stream, text_eq_self_iff.mpr hzero] at heq
              exact List.append_cancel_left heq
            rcases List.mem_cons.mp hm' with heqm | hmem
            · obtain rfl := Incoming.push.inj heqm
              exact hzero
            · exact (ih on).mp hrest m' hmem
          · intro hzero
            have hfirst : text m.data = m.data := text_eq_self_iff.mpr (hzero m List.mem_cons_self)
            have hrest := (ih on).mpr fun m' hm' => hzero m' (List.mem_cons_of_mem _ hm')
            rw [stream, stream, hfirst, hrest, id_eq]
      | toggle p =>
          rw [stream, stream, ih (!on)]
          constructor
          · intro h m hm
            exact h m (by simpa using hm)
          · intro h m hm
            exact h m (List.mem_cons_of_mem _ hm)

theorem payload_push {m : Push} {data : Bytes}
    (h : payload (⟨d, .push m, f⟩ : Step σ) = some data) : d.suffixFlag ≠ 0 ∧ m.data = data := by
  simp only [payload] at h
  split_ifs at h with hflag
  exact ⟨hflag, Option.some.inj h⟩

/-- A step that receives a message with the flag on writes the frame of its data, when
they have no zero byte. -/
theorem writtenBy_eq_frame {r : Step σ} {data : Bytes}
    (hstep : step S r.pre r.event = some r.result) (hpayload : payload r = some data)
    (hzero : 0 ∉ data) : writtenBy r = frame data := by
  obtain ⟨d, e, f⟩ := r
  cases e with
  | push m =>
      obtain ⟨hflag, rfl⟩ := payload_push hpayload
      have hwritten := (step_push hstep).2.2
      rw [text_eq_self_iff.mpr hzero] at hwritten
      simpa [writtenBy, received, flagOn, hflag, frame] using hwritten
  | _ => simp [payload] at hpayload

theorem decodes_of_run {steps : List (Step σ)}
    (hsteps : ∀ r ∈ steps, step S r.pre r.event = some r.result)
    (hzero : ∀ r ∈ steps, ∀ data, payload r = some data → 0 ∉ data)
    (hon : ∀ r ∈ steps, (payload r).isSome) :
    decodeStream decodeMsg (steps.flatMap writtenBy) = some (steps.filterMap payload) := by
  have hframes : steps.flatMap writtenBy = (steps.filterMap payload).flatMap frame := by
    induction steps with
    | nil => rfl
    | cons r steps ih =>
        obtain ⟨data, hdata⟩ := Option.isSome_iff_exists.mp (hon r List.mem_cons_self)
        have hfirst := writtenBy_eq_frame (hsteps r List.mem_cons_self) hdata
          (hzero r List.mem_cons_self data hdata)
        have hrest := ih (fun q hq => hsteps q (List.mem_cons_of_mem _ hq))
          (fun q hq => hzero q (List.mem_cons_of_mem _ hq))
          (fun q hq => hon q (List.mem_cons_of_mem _ hq))
        rw [List.flatMap_cons, hfirst, hrest, List.filterMap_cons_some hdata, List.flatMap_cons]
  rw [hframes, decodeStream_frames]

theorem Incoming.mem_of_event {is : List Incoming} {m : Push}
    (h : .push m ∈ is.map (Incoming.event (σ := σ))) : .push m ∈ is := by
  obtain ⟨i, hi, heq⟩ := List.mem_map.mp h
  cases i with
  | push m' =>
      obtain rfl := Event.push.inj heq
      exact hi
  | toggle p => simp [Incoming.event] at heq

/-- From any state of the device a sequence of messages and switches of the flag is
delivered exactly when no message in it has a zero byte. -/
theorem delivers_iff (S : Services σ) (d : Device σ) (is : List Incoming) :
    (∃ steps, run S d (is.map Incoming.event) = some steps ∧ Delivers d is steps) ↔
      ∀ m, .push m ∈ is → 0 ∉ m.data := by
  constructor
  · rintro ⟨steps, hrun, hdelivers⟩
    rw [← stream_text_eq_iff (flagOn d), ← hdelivers.writes, written_of_run hrun]
  · intro hzero
    obtain ⟨steps, hrun⟩ := exists_run (S := S) d (is.map Incoming.event)
    refine ⟨steps, hrun, ?_⟩
    constructor
    · rw [written_of_run hrun]
      exact (stream_text_eq_iff _ is).mpr hzero
    · rintro front seg back rfl hon
      have hmem : ∀ r ∈ seg, r ∈ front ++ seg ++ back := fun r hr => by simp [hr]
      refine decodes_of_run (fun r hr => (step_of_mem hrun (hmem r hr)).2) ?_ hon
      intro r hr data hdata
      obtain ⟨hevent, -⟩ := step_of_mem hrun (hmem r hr)
      obtain ⟨d, e, f⟩ := r
      cases e with
      | push m =>
          obtain ⟨-, rfl⟩ := payload_push hdata
          exact hzero m (Incoming.mem_of_event hevent)
      | _ => simp [payload] at hdata
    · intro r hr m hm
      obtain ⟨-, hstep⟩ := step_of_mem hrun hr
      rw [hm] at hstep
      exact (step_push hstep).2.1

/-- The message `A`, a zero byte, `B`. -/
def binaryPush : Push := ⟨⟨[0x41, 0, 0x42], [0], by simp⟩, by decide⟩

/-- Its header announces three bytes, and one is written. -/
theorem not_delivers_binary :
    ¬ ∃ steps, run Reference.services Reference.device
        ([.push binaryPush].map Incoming.event) = some steps ∧
      Delivers Reference.device [.push binaryPush] steps := by
  rintro ⟨steps, hrun, hdelivers⟩
  have hequal := (written_of_run hrun).symm.trans hdelivers.writes
  have hzero : 0 ∉ binaryPush.data := (stream_text_eq_iff _ _).mp hequal binaryPush (by simp)
  exact hzero (by decide)

end EspushAt
