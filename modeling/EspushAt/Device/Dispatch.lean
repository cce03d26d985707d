import EspushAt.Device.Messages
import EspushAt.Device.Registration
import EspushAt.Device.Settings
import EspushAt.Device.Uart

/-!
# The command table and commands from the cloud

`at_custom_cmd` names every handler under the command that runs it. A command typed
on the UART reaches its handler through libat; one sent by the cloud arrives in
`atcmd_callback`, which echoes it and passes what follows `AT` to the same
dispatcher.
-/

namespace EspushAt

open CString

variable {σ : Type}

/-- `at_funcationType`. -/
structure AtFunctionType where
  atCmdName : Bytes
  atCmdLen : Int8
  atTestCmd : Option Handler
  atQueryCmd : Option Handler
  atSetupCmd : Option Handler
  atExeCmd : Option Handler

def atCustomCmd : List AtFunctionType :=
  [⟨ascii "+PUSH", 5, none, some .atQueryCmdPushStatus, none, none⟩,
    ⟨ascii "+PUSH_DEF", 9, none, none, some .atSetupCmdPushRegistDef, none⟩,
    ⟨ascii "+PUSH_CUR", 9, none, none, some .atSetupCmdPushRegistCur, none⟩,
    ⟨ascii "+PUSHMSG", 8, none, none, some .atSetupCmdPushMessage, none⟩,
    ⟨ascii "+PUSHCLOSE", 10, none, none, none, some .atExecUnPushRegist⟩,
    ⟨ascii "+PUSH_INIT", 10, none, none, none, some .atExecPushInitial⟩,
    ⟨ascii "+PUSH_FLAG", 10, none, none, none, some .atExecPushFlagSwitch⟩,
    ⟨ascii "+GPIO_HIGH", 10, none, none, some .atSetupGPIOEdgeLow, none⟩,
    ⟨ascii "+GPIO_LOW", 9, none, none, some .atSetupGPIOEdgeHigh, none⟩,
    ⟨ascii "+N_SMC", 6, none, none, none, some .atExecNetworkCfgTouch⟩,
    ⟨ascii "+OFFLINES", 9, none, none, none, some .atExecListOfflineMsg⟩,
    ⟨ascii "+ADCU", 5, none, some .atQueryADCU, none, none⟩,
    ⟨ascii "+HOSTNAME", 9, none, some .atQueryHostname, some .atSetupHostName, none⟩,
    ⟨ascii "+GPIO", 5, none, some .atQueryGpio, none, none⟩,
    ⟨ascii "+INFO", 5, none, some .atQueryInfo, none, none⟩,
    ⟨ascii "+INTERVAL", 9, none, none, some .atSetupInterval, none⟩,
    ⟨ascii "+UARTRANS", 9, none, none, none, some .atExecUartTrans⟩,
    ⟨ascii "+PUSH_CONN", 10, none, none, none, some .atExecEspushInit⟩,
    ⟨ascii "+PUSH_SAVE", 10, none, none, none, some .atExecEspushSave⟩,
    ⟨ascii "+PUSH_APPS", 10, none, some .atQueryEspushApps, none, none⟩,
    ⟨ascii "+ESPUSH_TEST", 12, none, some .atQueryServerHost, some .atSetupServerHost, none⟩]

variable (S : Services σ)

/-- The function behind a handler; a setup command gets the address of the `=`. -/
def runHandler : Handler → AtM σ Unit
  | .atQueryCmdPushStatus => atQueryCmdPushStatus S
  | .atSetupCmdPushRegistDef => atSetupCmdPushRegistDef S 0
  | .atSetupCmdPushRegistCur => atSetupCmdPushRegistCur S 0
  | .atSetupCmdPushMessage => atSetupCmdPushMessage S 0
  | .atExecUnPushRegist => atExecUnPushRegist S
  | .atExecPushInitial => atExecPushInitial S
  | .atExecPushFlagSwitch => atExecPushFlagSwitch
  | .atSetupGPIOEdgeLow => atSetupGPIOEdgeLow S 0
  | .atSetupGPIOEdgeHigh => atSetupGPIOEdgeHigh S 0
  | .atExecNetworkCfgTouch => atExecNetworkCfgTouch S
  | .atExecListOfflineMsg => atExecListOfflineMsg S
  | .atQueryADCU => atQueryADCU S
  | .atQueryHostname => atQueryHostname S
  | .atSetupHostName => atSetupHostName S 0
  | .atQueryGpio => atQueryGpio S
  | .atQueryInfo => atQueryInfo S
  | .atSetupInterval => atSetupInterval S 0
  | .atExecUartTrans => atExecUartTrans S
  | .atExecEspushInit => atExecEspushInit S
  | .atExecEspushSave => atExecEspushSave S
  | .atQueryEspushApps => atQueryEspushApps S
  | .atQueryServerHost => atQueryServerHost S
  | .atSetupServerHost => atSetupServerHost S 0

/-- Run a handler on a buffer of its own, from inside another one. -/
def runOn (mem : Bytes) (m : AtM σ Unit) : AtM σ Unit := fun f =>
  (invoke m mem f.toDevice).map fun g => ((), ⟨g.toDevice, f.mem, f.calls ++ g.calls⟩)

/-- libat's dispatcher: it reads the line up to its terminator and runs the handler
it finds for it, if any. -/
def atCmdProcess (cmd : Ptr) : AtM σ Unit := do
  let line ← cstring cmd
  emit (.atCmdProcess line)
  match S.atLookup line with
  | none => pure ()
  | some (h, p) => runOn p.block (runHandler S h)

/-- `atcmd[0] == 'A' && atcmd[1] == 'T'`: the second byte is read after the first. -/
def startsWithAT (atcmd : Ptr) : AtM σ Bool := do
  if (← load atcmd) = 0x41 then
    return (← load (atcmd + 1)) = 0x54
  else
    return false

/-- The length the cloud library passes is not used. -/
def atcmdCallback (atcmd : Ptr) (_len : Nat) : AtM σ Unit := do
  atResponse (← cstring atcmd)
  if ← startsWithAT atcmd then
    atCmdProcess S (atcmd + 2)
  else
    atResponse (ascii "ERROR AT CMD\r\n")

/-- Start-up: the command table is registered, then `espush_at_init` runs. -/
def userInit : AtM σ Unit := do
  emit (.atCustomLinkMax 5)
  emit .atInit
  emit (.atSetCustomInfo (ascii "espush.cn "))
  emit (.atPortPrint (ascii "\r\nready\r\n"))
  emit (.atCmdArrayRegist atCustomCmd.length)
  espushAtInit S

variable {S}

/-! ### Commands from the cloud -/

/-- Whether a command text begins with `AT`. -/
def isAT (cmd : Bytes) : Bool := (ascii "AT").isPrefixOf cmd

theorem isAT_singleton (b : UInt8) : isAT [b] = false := by
  rw [Bool.eq_false_iff, isAT, Ne, List.isPrefixOf_iff_prefix]
  intro hpre
  have hlen : 2 ≤ [b].length := hpre.length_le
  simp at hlen

theorem isAT_cons_cons (b c : UInt8) (s : Bytes) :
    isAT (b :: c :: s) = (decide (b = 0x41) && decide (c = 0x54)) := by
  have hpre : ascii "AT" <+: b :: c :: s ↔ 0x41 = b ∧ 0x54 = c := by
    rw [show ascii "AT" = [0x41, 0x54] from rfl, List.cons_prefix_cons, List.cons_prefix_cons]
    simp
  rw [Bool.eq_iff_iff, isAT, List.isPrefixOf_iff_prefix, hpre, Bool.and_eq_true,
    decide_eq_true_iff, decide_eq_true_iff]
  constructor
  · rintro ⟨rfl, rfl⟩
    exact ⟨rfl, rfl⟩
  · rintro ⟨rfl, rfl⟩
    exact ⟨rfl, rfl⟩

/-- The two bytes compared are those of the string, its terminator included. -/
theorem run_startsWithAT {f : Frame σ} {s rest : Bytes} (hmem : f.mem = s ++ 0 :: rest) :
    (startsWithAT 0).run f = some (isAT s, f) := by
  match s with
  | [] =>
      have h0 : f.mem[0]? = some 0 := by simp [hmem]
      simp [startsWithAT, run_load h0, isAT, ascii]
  | [b] =>
      have h0 : f.mem[0]? = some b := by simp [hmem]
      have h1 : f.mem[0 + 1]? = some 0 := by simp [hmem]
      rw [isAT_singleton]
      by_cases hb : b = 0x41
      · simp [startsWithAT, run_load h0, run_load h1, hb]
      · simp [startsWithAT, run_load h0, hb]
  | b :: c :: s =>
      have h0 : f.mem[0]? = some b := by simp [hmem]
      have h1 : f.mem[0 + 1]? = some c := by simp [hmem]
      rw [isAT_cons_cons]
      by_cases hb : b = 0x41
      · simp [startsWithAT, run_load h0, run_load h1, hb]
      · simp [startsWithAT, run_load h0, hb]

/-- What the command found for a line leaves of the device, and the calls it makes. -/
def dispatched (S : Services σ) (line : Bytes) (d : Device σ) : Option (Device σ × List Call) :=
  match S.atLookup line with
  | none => some (d, [])
  | some (h, p) => (invoke (runHandler S h) p.block d).map fun f => (f.toDevice, f.calls)

theorem run_atCmdProcess {f : Frame σ} {cmd : Ptr} {line : Bytes}
    (hread : read? (f.mem.drop cmd) = some line) :
    (atCmdProcess S cmd).run f = (dispatched S line f.toDevice).map fun r =>
      ((), ⟨r.1, f.mem, f.calls ++ .atCmdProcess line :: r.2⟩) := by
  cases hlookup : S.atLookup line with
  | none =>
      simp [atCmdProcess, dispatched, run_cstring hread, hlookup]
  | some hp =>
      obtain ⟨h, p⟩ := hp
      simp only [atCmdProcess, dispatched, StateT.run_bind, run_cstring hread, run_emit,
        Option.bind_eq_bind, Option.bind_some, hlookup, Option.map_map]
      change (invoke (runHandler S h) p.block f.toDevice).map _ = _
      refine congrArg (Option.map · _) (funext fun g => ?_)
      simp

theorem invoke_atcmdCallback {mem : Bytes} (hnul : 0 ∈ mem) (len : Nat) (d : Device σ) :
    invoke (atcmdCallback S 0 len) mem d =
      if isAT (text mem) then
        (dispatched S ((text mem).drop 2) d).map fun r =>
          ⟨r.1, mem, .atResponse (text mem) :: .atCmdProcess ((text mem).drop 2) :: r.2⟩
      else some ⟨d, mem, [.atResponse (text mem), .atResponse (ascii "ERROR AT CMD\r\n")]⟩ := by
  obtain ⟨rest, hmem⟩ := exists_eq_text_append hnul
  have hread := run_cstring (f := ⟨d, mem, []⟩) (p := 0) (s := text mem) (by simp [read?, hnul])
  have htest := run_startsWithAT (f := ⟨d, mem, [.atResponse (text mem)]⟩) hmem
  by_cases hat : isAT (text mem) = true
  · have hlen : 2 ≤ (text mem).length := by
      rw [isAT, List.isPrefixOf_iff_prefix] at hat
      exact hat.length_le
    have hline : read? (mem.drop 2) = some ((text mem).drop 2) := by
      have hzero : 0 ∉ (text mem).drop 2 := fun h => zero_notMem_text mem (List.mem_of_mem_drop h)
      have hdrop : mem.drop 2 = (text mem).drop 2 ++ 0 :: rest := by
        conv_lhs => rw [hmem, List.drop_append_of_le_length hlen]
      rw [hdrop, read?_of_notMem hzero]
    have hprocess := run_atCmdProcess (S := S) (f := ⟨d, mem, [.atResponse (text mem)]⟩) hline
    simp only [invoke, atcmdCallback, Nat.zero_add, StateT.run_bind, hread, run_atResponse,
      List.nil_append, htest,
      hat, Option.bind_eq_bind, Option.bind_some, if_true, hprocess, Option.map_map]
    rfl
  · simp [invoke, atcmdCallback, hread, htest, hat]

end EspushAt
