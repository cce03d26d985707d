import EspushAt.Device.Outcome
import EspushAt.Foundations.Chunking
import EspushAt.Foundations.Machine
import EspushAt.Verification.Stream

/-!
# The device as a bridge

Between the UART and the cloud the firmware is a machine with two bits: whether received
messages get a header, and whether the UART is in transparent mode. `bridge` is that
machine. The device refines it in every run, however commands from both sides, chunks,
messages, changes of the connection and restarts are interleaved; so what holds of the
machine holds of the device, in particular that a chunk is delivered once and in order
unless it is an escape.
-/

namespace EspushAt

open CString Chunking Transition

variable {σ : Type}

/-! ### The machine -/

structure BridgeState where
  header : Bool
  transparent : Bool
  deriving DecidableEq

/-- What the bridge is told. A request for transparent mode comes with the answer to
whether there is a connection. -/
inductive BridgeInput where
  | toggle
  | enter (connected : Bool)
  | chunk (data : Bytes)
  | message (m : Push)
  | start
  | other

/-- What the bridge does: hand a chunk to the cloud or to AT processing, change the
mode, or write the lines of a message. -/
inductive BridgeOutput where
  | toCloud (data : Bytes)
  | toAt (data : Bytes)
  | mode (transparent : Bool)
  | lines (str : Bytes)
  deriving DecidableEq

def bridge : Machine BridgeState BridgeInput BridgeOutput where
  next s
    | .toggle => { s with header := !s.header }
    | .enter connected => { s with transparent := connected || s.transparent }
    | .chunk data => { s with transparent := s.transparent && !isEscape data }
    | .start => ⟨true, false⟩
    | .message _ | .other => s
  out s
    | .enter connected => if connected then [.mode true] else []
    | .chunk data =>
        if !s.transparent then [.toAt data]
        else if isEscape data then [.mode false]
        else [.toCloud data]
    | .message m => [.lines (received s.header m (text m.data))]
    | .toggle | .start | .other => []

/-- The chunks delivered by some outputs, to either side. -/
def deliveredChunks (outs : List BridgeOutput) : List Bytes :=
  outs.filterMap fun
    | .toCloud data | .toAt data => some data
    | _ => none

/-- The chunks among some inputs that end transparent mode, in a state of the bridge. -/
def escapes : BridgeState → List BridgeInput → List Bytes
  | _, [] => []
  | s, .chunk data :: is =>
      let rest := escapes (bridge.next s (.chunk data)) is
      if s.transparent && isEscape data then data :: rest else rest
  | s, i :: is => escapes (bridge.next s i) is

/-! ### Reading the device as the machine -/

def bridgeState (d : Device σ) : BridgeState := ⟨flagOn d, d.rxIntr.isSome⟩

def Call.bridged : Call → Option BridgeOutput
  | .uartStream data => some (.toCloud data)
  | .atRx data => some (.toAt data)
  | .atRegisterUartRxIntr rx => some (.mode rx.isSome)
  | _ => none

/-- What a step does as a bridge; the lines it writes count when it received a message. -/
def bridgeOutput (r : Step σ) : List BridgeOutput :=
  match r.event with
  | .push _ => [.lines (r.result.calls.flatMap Call.written)]
  | _ => r.result.calls.filterMap Call.bridged

variable (S : Services σ)

/-- A command as an input, for the state of the libraries it meets. -/
def Handler.bridgeInput (svc : σ) : Handler → BridgeInput
  | .atExecPushFlagSwitch => .toggle
  | .atExecUartTrans => .enter (Connected S svc)
  | _ => .other

def bridgeInput (r : Step σ) : BridgeInput :=
  match r.event with
  | .uart data => .chunk data
  | .push m => .message m
  | .restart => .start
  | e =>
      match commandOf S e with
      | none => .other
      | some (h, _) => h.bridgeInput S r.pre.svc

variable {S} {d : Device σ} {p : Param}

theorem bridged_msgResult (ret : Int8) : (msgResult ret).bridged = none := by
  rcases msgResult_cases ret with h | h | h <;> rw [h] <;> rfl

theorem bridged_edgeResult (ret : UInt8) : (edgeResult ret).bridged = none := by
  rcases edgeResult_cases ret with h | h <;> rw [h] <;> rfl

theorem bridged_fromFlash (svc : σ) : (fromFlash S svc).2.filterMap Call.bridged = [] := by
  cases hcfg : S.readEspushCfg svc <;> simp [fromFlash, hcfg, Call.bridged]

/-- A handler as the bridge sees it. -/
structure BridgesAs (S : Services σ) (d : Device σ) (h : Handler) (r : Device σ × List Call) :
    Prop where
  state : bridgeState r.1 = bridge.next (bridgeState d) (h.bridgeInput S d.svc)
  outputs : r.2.filterMap Call.bridged = bridge.out (bridgeState d) (h.bridgeInput S d.svc)

theorem bridgesAs_edge (h : Handler) (edge : UInt8) (hother : h.bridgeInput S d.svc = .other) :
    BridgesAs S d h (edgeOutcome S edge p d) := by
  rw [edgeOutcome]
  dsimp only
  split_ifs
  · exact ⟨by rw [hother]; rfl, by rw [hother]; rfl⟩
  · refine ⟨by rw [hother]; rfl, ?_⟩
    rw [hother, List.filterMap_cons_none rfl, List.filterMap_cons_none (bridged_edgeResult _)]
    rfl

theorem bridgesAs_outcome (h : Handler) : BridgesAs S d h (outcome S p d h) := by
  cases h with
  | atSetupCmdPushRegistDef =>
      rw [outcome]
      split <;> exact ⟨rfl, rfl⟩
  | atSetupCmdPushRegistCur =>
      rw [outcome]
      split
      · exact ⟨rfl, rfl⟩
      · split_ifs <;> exact ⟨rfl, rfl⟩
  | atSetupCmdPushMessage =>
      rw [outcome]
      split_ifs
      · exact ⟨rfl, rfl⟩
      · refine ⟨rfl, ?_⟩
        rw [List.filterMap_cons_none rfl, List.filterMap_cons_none (bridged_msgResult _)]
        rfl
  | atExecPushInitial =>
      refine ⟨rfl, ?_⟩
      rw [outcome, List.filterMap_append, bridged_fromFlash]
      split_ifs <;> rfl
  | atExecPushFlagSwitch =>
      refine ⟨?_, rfl⟩
      by_cases hflag : d.suffixFlag = 0 <;>
        simp [outcome, bridgeState, flagOn, hflag, bridge, Handler.bridgeInput]
  | atSetupGPIOEdgeLow => exact bridgesAs_edge _ 0 rfl
  | atSetupGPIOEdgeHigh => exact bridgesAs_edge _ 1 rfl
  | atSetupInterval =>
      rw [outcome]
      dsimp only
      split_ifs <;> exact ⟨rfl, rfl⟩
  | atExecUartTrans =>
      by_cases hconn : Connected S d.svc
      · rw [outcome, if_pos hconn]
        constructor <;> simp [bridgeState, flagOn, bridge, Handler.bridgeInput, hconn, Call.bridged]
      · rw [outcome, if_neg hconn]
        constructor <;> simp [bridgeState, bridge, Handler.bridgeInput, hconn, Call.bridged]
  | atExecEspushSave =>
      rw [outcome]
      split_ifs <;> exact ⟨rfl, rfl⟩
  | atQueryEspushApps =>
      rw [outcome]
      split_ifs <;> exact ⟨rfl, rfl⟩
  | _ => exact ⟨rfl, rfl⟩

/-- A step read as an input does what the bridge does. -/
def StepBridges (S : Services σ) (r : Step σ) : Prop :=
  bridgeState r.result.toDevice = bridge.next (bridgeState r.pre) (bridgeInput S r) ∧
    bridgeOutput r = bridge.out (bridgeState r.pre) (bridgeInput S r)

theorem bridged_preamble (e : Event σ) : (preamble e).filterMap Call.bridged = [] := by
  cases e with
  | cloud b =>
      rw [preamble]
      split_ifs <;> rfl
  | _ => rfl

/-- The input of a step that runs a command, whoever sent it. -/
theorem bridgeInput_of_command {e : Event σ} {h : Handler} {p : Param} {f : Frame σ}
    (hcommand : commandOf S e = some (h, p)) :
    bridgeInput S ⟨d, e, f⟩ = h.bridgeInput S d.svc := by
  cases e with
  | command h' p' =>
      obtain ⟨rfl, -⟩ := Prod.mk.inj (Option.some.inj hcommand)
      rfl
  | cloud b => simp only [bridgeInput, hcommand]
  | _ => simp [commandOf] at hcommand

theorem bridgeOutput_of_ne_push {e : Event σ} {f : Frame σ} (h : ∀ m, e ≠ .push m) :
    bridgeOutput (⟨d, e, f⟩ : Step σ) = f.calls.filterMap Call.bridged := by
  cases e with
  | push m => exact absurd rfl (h m)
  | _ => rfl

theorem stepBridges_command {e : Event σ} {h : Handler} {p : Param} {mem : Bytes}
    (hcommand : commandOf S e = some (h, p)) : StepBridges S ⟨d, e,
      ⟨(outcome S p d h).1, mem, preamble e ++ (outcome S p d h).2⟩⟩ := by
  have hpush : ∀ m, e ≠ .push m := by
    rintro m rfl
    simp [commandOf] at hcommand
  obtain ⟨hstate, houtputs⟩ := bridgesAs_outcome (S := S) (d := d) (p := p) h
  rw [StepBridges, bridgeInput_of_command hcommand, bridgeOutput_of_ne_push hpush,
    List.filterMap_append, bridged_preamble, List.nil_append]
  exact ⟨hstate, houtputs⟩

theorem stepBridges_of_step {e : Event σ} {f : Frame σ} (hstep : step S d e = some f) :
    StepBridges S ⟨d, e, f⟩ := by
  cases step_response hstep with
  | command mem hcommand => exact stepBridges_command hcommand
  | @unknown b hcommand =>
      simp only [StepBridges, bridgeInput, hcommand]
      exact ⟨rfl, bridged_preamble (σ := σ) (.cloud b)⟩
  | received hmode =>
      constructor <;> simp [bridgeInput, bridgeOutput, bridge, bridgeState, Call.bridged, hmode]
  | escape hmode hescape =>
      constructor <;>
        simp [bridgeInput, bridgeOutput, bridge, bridgeState, Call.bridged, flagOn, hmode, hescape]
  | stream hmode hescape =>
      constructor <;>
        simp [bridgeInput, bridgeOutput, bridge, bridgeState, Call.bridged, flagOn, hmode, hescape]
  | push _ => exact ⟨rfl, congrArg (fun str => [BridgeOutput.lines str]) (step_push hstep).2.2⟩
  | network change => exact ⟨rfl, rfl⟩
  | restart =>
      refine ⟨rfl, ?_⟩
      rw [bridgeOutput, List.filterMap_append, bridged_fromFlash]
      rfl

theorem bridges_of_run {steps : List (Step σ)} {d : Device σ} {es : List (Event σ)}
    (hrun : run S d es = some steps) :
    bridgeState (final Frame.toDevice d steps) =
        bridge.after (bridgeState d) (steps.map (bridgeInput S)) ∧
      steps.flatMap bridgeOutput = bridge.outputs (bridgeState d) (steps.map (bridgeInput S)) :=
  refines_of_trace bridge bridgeState (bridgeInput S) bridgeOutput hrun
    fun _ _ hstep => stepBridges_of_step hstep

/-- From any state of the device and over any events the device is the bridge: it ends
in the bridge's state and makes the bridge's outputs, in the bridge's order. -/
theorem run_refines_bridge (S : Services σ) (d : Device σ) (es : List (Event σ)) :
    ∃ steps, run S d es = some steps ∧
      bridgeState (final Frame.toDevice d steps) =
        bridge.after (bridgeState d) (steps.map (bridgeInput S)) ∧
      steps.flatMap bridgeOutput = bridge.outputs (bridgeState d) (steps.map (bridgeInput S)) := by
  obtain ⟨steps, hrun⟩ := exists_run (S := S) d es
  exact ⟨steps, hrun, bridges_of_run hrun⟩

/-! ### Delivery of chunks -/

/-- The chunk an input brings, and the chunk an event brings. -/
def BridgeInput.chunkData : BridgeInput → Option Bytes
  | .chunk data => some data
  | _ => none

def Event.chunkData : Event σ → Option Bytes
  | .uart data => some data
  | _ => none

/-- The bridge delivers every chunk in order except the escapes, one for each time it
leaves transparent mode. -/
theorem bridge_delivers (s : BridgeState) (is : List BridgeInput) :
    Interleaved (deliveredChunks (bridge.outputs s is)) (escapes s is)
        (is.filterMap BridgeInput.chunkData) ∧
      (∀ data ∈ escapes s is, isEscape data = true) ∧
      (bridge.outputs s is).count (.mode false) = (escapes s is).length := by
  induction is generalizing s with
  | nil => exact ⟨.nil, by simp [escapes], rfl⟩
  | cons i is ih =>
      have hrest := ih (bridge.next s i)
      cases i with
      | chunk data =>
          cases htransparent : s.transparent with
          | false =>
              have hout : bridge.out s (.chunk data) = [.toAt data] := by
                simp [bridge, htransparent]
              rw [Machine.outputs_cons, hout, escapes, htransparent]
              exact ⟨.left data hrest.1, hrest.2.1, by simpa using hrest.2.2⟩
          | true =>
              cases hescape : isEscape data with
              | false =>
                  have hout : bridge.out s (.chunk data) = [.toCloud data] := by
                    simp [bridge, htransparent, hescape]
                  rw [Machine.outputs_cons, hout, escapes, htransparent, hescape]
                  exact ⟨.left data hrest.1, hrest.2.1, by simpa using hrest.2.2⟩
              | true =>
                  have hout : bridge.out s (.chunk data) = [.mode false] := by
                    simp [bridge, htransparent, hescape]
                  rw [Machine.outputs_cons, hout, escapes, htransparent, hescape]
                  refine ⟨.right data hrest.1, ?_, ?_⟩
                  · rintro c (_ | ⟨_, hc⟩)
                    · exact hescape
                    · exact hrest.2.1 c hc
                  · simpa using hrest.2.2
      | enter connected =>
          cases connected with
          | false => exact hrest
          | true =>
              refine ⟨hrest.1, hrest.2.1, ?_⟩
              change (BridgeOutput.mode true :: bridge.outputs _ is).count (.mode false) = _
              rw [List.count_cons_of_ne (by simp)]
              exact hrest.2.2
      | message m =>
          refine ⟨hrest.1, hrest.2.1, ?_⟩
          change (BridgeOutput.lines _ :: bridge.outputs _ is).count (.mode false) = _
          rw [List.count_cons_of_ne (by simp)]
          exact hrest.2.2
      | toggle => exact hrest
      | start => exact hrest
      | other => exact hrest

theorem Handler.chunkData_bridgeInput (svc : σ) (h : Handler) :
    (h.bridgeInput S svc).chunkData = none := by
  cases h <;> rfl

theorem chunkData_bridgeInput (r : Step σ) : (bridgeInput S r).chunkData = r.event.chunkData := by
  obtain ⟨d, e, f⟩ := r
  cases e with
  | command h p => exact h.chunkData_bridgeInput d.svc
  | cloud b =>
      cases hcommand : commandOf S (.cloud b) with
      | none => simp [bridgeInput, hcommand, BridgeInput.chunkData, Event.chunkData]
      | some hp => simp [bridgeInput, hcommand, hp.1.chunkData_bridgeInput, Event.chunkData]
  | _ => rfl

/-- In every run each chunk that arrives on the UART is delivered once, to the cloud or to
AT processing, and in the order of arrival, except the escapes: each of these ends
transparent mode. -/
theorem run_delivers_chunks (S : Services σ) (d : Device σ) (es : List (Event σ)) :
    ∃ steps lost, run S d es = some steps ∧
      Interleaved (deliveredChunks (steps.flatMap bridgeOutput)) lost
        (es.filterMap Event.chunkData) ∧
      (∀ data ∈ lost, isEscape data = true) ∧
      (steps.flatMap bridgeOutput).count (.mode false) = lost.length := by
  obtain ⟨steps, hrun⟩ := exists_run (S := S) d es
  have houtputs := (bridges_of_run hrun).2
  have hdelivers := bridge_delivers (bridgeState d) (steps.map (bridgeInput S))
  have hchunks : (steps.map (bridgeInput S)).filterMap BridgeInput.chunkData =
      es.filterMap Event.chunkData := by
    rw [← map_event_of_trace hrun, List.filterMap_map, List.filterMap_map]
    exact List.filterMap_congr fun r _ => chunkData_bridgeInput r
  rw [← houtputs, hchunks] at hdelivers
  exact ⟨steps, _, hrun, hdelivers⟩

end EspushAt
