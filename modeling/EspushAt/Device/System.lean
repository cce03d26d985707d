import EspushAt.Foundations.Transition
import EspushAt.Device.Outcome

/-!
# The device under events from outside

Everything that reaches the firmware is one event: a command typed on the UART, a
chunk from the receive interrupt, a command or a message from the cloud, a change of
the connection between two callbacks, and a restart. Handlers run to completion, so
a run is a list of events and `Transition.trace` runs it.
-/

namespace EspushAt

open CString Transition

variable {σ : Type}

/-- A command from the cloud: its bytes, and memory behind them with a zero byte. -/
structure CloudBuffer where
  data : Bytes
  tail : Bytes
  terminated : 0 ∈ tail

def CloudBuffer.block (b : CloudBuffer) : Bytes := b.data ++ b.tail

theorem CloudBuffer.zero_mem_block (b : CloudBuffer) : 0 ∈ b.block :=
  List.mem_append_right _ b.terminated

/-- A change of the connection is any function of the libraries' state; which of
them libespush really makes is left to the theorems. -/
inductive Event (σ : Type) where
  | command (h : Handler) (p : Param)
  | uart (data : Bytes)
  | cloud (b : CloudBuffer)
  | push (m : Push)
  | network (change : σ → σ)
  | restart

/-- The device when power comes on, before `user_init`. -/
def powerOn (S : Services σ) (svc : σ) : Device σ := ⟨S.reset svc, 1, none⟩

variable (S : Services σ)

def step (d : Device σ) : Event σ → Option (Frame σ)
  | .command h p => invoke (runHandler S h) p.block d
  | .uart data => invoke (uartRx S data.length) data d
  | .cloud b => invoke (atcmdCallback S 0 b.data.length) b.block d
  | .push m => invoke (atRecvPushMsgCb 0 m.data.length) m.block d
  | .network change => some ⟨{ d with svc := change d.svc }, [], []⟩
  | .restart => invoke (userInit S) [] (powerOn S d.svc)

/-- One step of a run, with the frame its callback left behind. -/
abbrev Step (σ : Type) := Record (Device σ) (Event σ) (Frame σ)

/-- The steps of the device over a list of events. -/
abbrev run (d : Device σ) (es : List (Event σ)) : Option (List (Step σ)) :=
  trace (step S) Frame.toDevice d es

/-- The handler an event runs, with its parameter: the one typed, or the one libat
finds for what follows `AT` in a command from the cloud. -/
def commandOf : Event σ → Option (Handler × Param)
  | .command h p => some (h, p)
  | .cloud b => if isAT (text b.block) then S.atLookup ((text b.block).drop 2) else none
  | _ => none

/-- The calls of start-up before `espush_at_init` reads the flash. -/
def bootCalls : List Call :=
  [.atCustomLinkMax 5, .atInit, .atSetCustomInfo (ascii "espush.cn "),
    .atPortPrint (ascii "\r\nready\r\n"), .atCmdArrayRegist atCustomCmd.length,
    .espushUartStreamCb, .espushAtcmdCb]

/-- The lines a command from the cloud is answered before it is dispatched. -/
def preamble : Event σ → List Call
  | .cloud b =>
      if isAT (text b.block) then
        [.atResponse (text b.block), .atCmdProcess ((text b.block).drop 2)]
      else [.atResponse (text b.block), .atResponse (ascii "ERROR AT CMD\r\n")]
  | _ => []

/-- What a step does on each event, with the calls it makes. A command does the same
whoever sent it, behind the lines the cloud is answered. -/
inductive Response (d : Device σ) : Event σ → Frame σ → Prop where
  | command {e : Event σ} {h : Handler} {p : Param} (mem : Bytes)
      (hcommand : commandOf S e = some (h, p)) :
      Response d e ⟨(outcome S p d h).1, mem, preamble e ++ (outcome S p d h).2⟩
  | unknown {b : CloudBuffer} (hcommand : commandOf S (.cloud b) = none) :
      Response d (.cloud b) ⟨d, b.block, preamble (σ := σ) (.cloud b)⟩
  | received {data : Bytes} (hmode : d.rxIntr = none) :
      Response d (.uart data) ⟨d, data, [.atRx data]⟩
  | escape {data : Bytes} (hmode : d.rxIntr = some .atUartTransRxIntr)
      (hescape : isEscape data = true) :
      Response d (.uart data) ⟨{ d with rxIntr := none }, data,
        [.atRegisterUartRxIntr none, .atResponse (ascii "\r\nOK\r\n")]⟩
  | stream {data : Bytes} (hmode : d.rxIntr = some .atUartTransRxIntr)
      (hescape : isEscape data = false) :
      Response d (.uart data)
        ⟨{ d with svc := S.uartStream data d.svc }, data, [.uartStream data]⟩
  | push {m : Push} {calls : List Call} (hprints : ∀ c ∈ calls, ∃ str, c = .atResponse str) :
      Response d (.push m) ⟨d, m.block, calls⟩
  | network (change : σ → σ) :
      Response d (.network change) ⟨{ d with svc := change d.svc }, [], []⟩
  | restart :
      Response d .restart ⟨{ powerOn S d.svc with svc := (fromFlash S (S.reset d.svc)).1 }, [],
        bootCalls ++ (fromFlash S (S.reset d.svc)).2⟩

variable {S} {d : Device σ} {f : Frame σ} {e : Event σ}

theorem invoke_userInit (mem : Bytes) : invoke (userInit S) mem d =
    some ⟨{ d with svc := (fromFlash S d.svc).1 }, mem, bootCalls ++ (fromFlash S d.svc).2⟩ := by
  simp [invoke, userInit, espushAtInit, run_registPushFromReadFlash, bootCalls]

theorem step_command (h : Handler) (p : Param) : step S d (.command h p) =
    some ⟨(outcome S p d h).1, leftBlock p h, (outcome S p d h).2⟩ :=
  invoke_runHandler S h p d

theorem step_cloud (b : CloudBuffer) : step S d (.cloud b) =
    some ⟨(outcomeOf S d (commandOf S (.cloud b))).1, b.block,
      preamble (σ := σ) (.cloud b) ++ (outcomeOf S d (commandOf S (.cloud b))).2⟩ := by
  rw [step, invoke_atcmdCallback b.zero_mem_block, dispatched_eq]
  cases hat : isAT (text b.block) with
  | true => simp [commandOf, preamble, hat]
  | false => simp [commandOf, preamble, outcomeOf, hat]

/-- Whatever a step leaves behind is one of the responses. -/
theorem step_response (hstep : step S d e = some f) : Response S d e f := by
  cases e with
  | command h p =>
      rw [step_command] at hstep
      obtain rfl := Option.some.inj hstep
      exact .command (e := .command h p) _ rfl
  | uart data =>
      rw [step, invoke_uartRx] at hstep
      split at hstep
      · rename_i hmode
        obtain rfl := Option.some.inj hstep
        exact .received hmode
      · rename_i hmode
        split_ifs at hstep with hescape
        · obtain rfl := Option.some.inj hstep
          exact .escape hmode hescape
        · obtain rfl := Option.some.inj hstep
          exact .stream hmode (Bool.eq_false_iff.mpr hescape)
  | cloud b =>
      rw [step_cloud] at hstep
      obtain rfl := Option.some.inj hstep
      cases hcommand : commandOf S (.cloud b) with
      | none =>
          rw [outcomeOf, List.append_nil]
          exact .unknown hcommand
      | some hp =>
          exact .command _ hcommand
  | push m =>
      rw [step, invoke_atRecvPushMsgCb] at hstep
      obtain ⟨calls, hcalls, rfl⟩ := Option.map_eq_some_iff.mp hstep
      exact .push (recvCalls_atResponse hcalls)
  | network change =>
      obtain rfl := Option.some.inj hstep
      exact .network change
  | restart =>
      rw [step, invoke_userInit] at hstep
      obtain rfl := Option.some.inj hstep
      exact .restart

/-- The device answers every event. -/
theorem step_total (d : Device σ) (e : Event σ) : ∃ f, step S d e = some f := by
  cases e with
  | command h p => exact ⟨_, step_command h p⟩
  | uart data =>
      rw [step, invoke_uartRx]
      split
      · exact ⟨_, rfl⟩
      · split
        · exact ⟨_, rfl⟩
        · exact ⟨_, rfl⟩
  | cloud b => exact ⟨_, step_cloud b⟩
  | push m =>
      obtain ⟨calls, hcalls⟩ := m.exists_recvCalls d.suffixFlag
      exact ⟨⟨d, m.block, calls⟩, by rw [step, invoke_atRecvPushMsgCb, hcalls]; rfl⟩
  | network change => exact ⟨_, rfl⟩
  | restart => exact ⟨_, invoke_userInit []⟩

theorem exists_run (d : Device σ) (es : List (Event σ)) : ∃ steps, run S d es = some steps :=
  exists_trace step_total d es

end EspushAt
