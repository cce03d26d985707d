import EspushAt.Device.Reference

/-!
# Final results

A handler ends with one final result, the line a host script looks at. `OK` means that
the command took effect, with one exception the source makes throughout: a command that
needs a connection and has none says so and then answers `OK`. Whether the SDK accepted
a host name is not looked at.
-/

namespace EspushAt

open CString

variable {σ : Type}

inductive Final where
  | ok
  | error
  | cached
  | prompt
  deriving DecidableEq, Repr

/-- The final result a call is, for the handler that makes it. -/
def finalOf (h : Handler) : Call → Option Final
  | .atResponseOk => some .ok
  | .atResponseError => some .error
  | .atResponse str =>
      if h = .atSetupCmdPushMessage ∧ str = ascii "CACHED\r\n" then some .cached
      else if h = .atExecUartTrans ∧ str = ascii ">" then some .prompt
      else none
  | _ => none

def finals (h : Handler) (calls : List Call) : List Final := calls.filterMap (finalOf h)

/-- What a command is for, as the calls it makes and the state it leaves show it. -/
def TookEffect (S : Services σ) (d : Device σ) (f : Frame σ) : Handler → Prop
  | .atExecEspushSave => ∃ appid appkey devid, .saveEspushCfg appid appkey devid ∈ f.calls
  | .atSetupCmdPushRegistCur | .atSetupCmdPushRegistDef | .atExecPushInitial =>
      ∃ appid appkey devid type msgcb, .espushRegister appid appkey devid type msgcb ∈ f.calls
  | .atExecUartTrans => .atRegisterUartRxIntr (some .atUartTransRxIntr) ∈ f.calls
  | .atSetupCmdPushMessage => ∃ buf len, .espushMsg buf len 0 ∈ f.calls
  | .atSetupGPIOEdgeLow => ∃ pin, .setGpioEdge pin 0 0 ∈ f.calls
  | .atSetupGPIOEdgeHigh => ∃ pin, .setGpioEdge pin 1 0 ∈ f.calls
  | .atSetupHostName => ∃ name, .wifiStationSetHostname name true ∈ f.calls
  | .atSetupInterval => ∃ sec, .espushSetHeartbeat sec ∈ f.calls
  | .atQueryCmdPushStatus =>
      .atResponse (statusReply (S.espushServerConnectStatus d.svc)) ∈ f.calls
  | .atQueryADCU => .atResponse (adcReply (S.systemAdcRead d.svc)) ∈ f.calls
  | .atQueryHostname => .atResponse (S.wifiStationGetHostname d.svc) ∈ f.calls
  | .atQueryGpio => .atResponse (gpioLevels (S.gpioInputGet d.svc)) ∈ f.calls
  | .atQueryInfo => .atResponse (infoReply (S.systemInfo d.svc)) ∈ f.calls
  | .atQueryEspushApps => .atResponse (appsReply (S.espushGetPushcfg d.svc)) ∈ f.calls
  | .atQueryServerHost => .atResponse (serverHostReply (S.espushGetServerHost d.svc)) ∈ f.calls
  | .atExecUnPushRegist => .espushUnregister ∈ f.calls
  | .atExecPushFlagSwitch => f.suffixFlag = 0 ↔ d.suffixFlag ≠ 0
  | .atExecNetworkCfgTouch => .espushNetworkCfgBySmartconfig ∈ f.calls
  | .atExecListOfflineMsg => .sendClearFlashQueue ∈ f.calls
  | .atExecEspushInit => ∃ devid type msgcb, .espushSingleDeviceInit devid type msgcb ∈ f.calls
  | .atSetupServerHost => ∃ addr, .espushSetServerHost addr ∈ f.calls

/-- One final result, and `OK` only after the command took effect. -/
def Honest (S : Services σ) (d : Device σ) (h : Handler) (f : Frame σ) : Prop :=
  ∃ c, finals h f.calls = [c] ∧ (c = .ok → TookEffect S d f h)

/-- The commands that need a connection. -/
def needsConnection : List Handler := [.atExecEspushSave, .atExecUartTrans, .atQueryEspushApps]

/-- A command that needs a connection found none, and said so. -/
def ReportsNoConnection (S : Services σ) (d : Device σ) (h : Handler) (f : Frame σ) : Prop :=
  h ∈ needsConnection ∧ ¬ Connected S d.svc ∧ .atResponse (ascii "NOT CONNECTED\r\n") ∈ f.calls

/-- One final result, which is the last call; `OK` only after the command took effect or
the want of a connection was reported. Nothing is said of `OK` for a host name. -/
def Concludes (S : Services σ) (d : Device σ) (h : Handler) (f : Frame σ) : Prop :=
  ∃ front last c, f.calls = front ++ [last] ∧ finals h front = [] ∧ finalOf h last = some c ∧
    (c = .ok → h = .atSetupHostName ∨ TookEffect S d f h ∨ ReportsNoConnection S d h f)

variable {S : Services σ} {d : Device σ} {h : Handler} {f : Frame σ}

theorem concludes_ok (front : List Call) (hcalls : f.calls = front ++ [.atResponseOk])
    (hfront : finals h front = [])
    (heffect : h = .atSetupHostName ∨ TookEffect S d f h ∨ ReportsNoConnection S d h f) :
    Concludes S d h f :=
  ⟨front, .atResponseOk, .ok, hcalls, hfront, rfl, fun _ => heffect⟩

theorem concludes_of_ne_ok (front : List Call) {last : Call} {c : Final}
    (hcalls : f.calls = front ++ [last]) (hfront : finals h front = [])
    (hlast : finalOf h last = some c) (hc : c ≠ .ok) : Concludes S d h f :=
  ⟨front, last, c, hcalls, hfront, hlast, fun hok => absurd hok hc⟩

theorem concludes_error (front : List Call) (hcalls : f.calls = front ++ [.atResponseError])
    (hfront : finals h front = []) : Concludes S d h f :=
  concludes_of_ne_ok front hcalls hfront rfl (by decide)

/-- The command took effect and says so. -/
theorem concludes_effect (front : List Call) (hcalls : f.calls = front ++ [.atResponseOk])
    (hfront : finals h front = []) (heffect : TookEffect S d f h) : Concludes S d h f :=
  concludes_ok front hcalls hfront (.inr (.inl heffect))

/-- The command needs a connection and there is none. -/
theorem concludes_not_connected (hneeds : h ∈ needsConnection) (hconn : ¬ Connected S d.svc)
    (hcalls : f.calls = [.atResponse (ascii "NOT CONNECTED\r\n"), .atResponseOk])
    (hfinal : finals h [.atResponse (ascii "NOT CONNECTED\r\n")] = []) : Concludes S d h f := by
  refine concludes_ok _ hcalls hfinal (.inr (.inr ⟨hneeds, hconn, ?_⟩))
  rw [hcalls]
  exact List.mem_cons_self

theorem concludes_msg (p : Param) (mem : Bytes) :
    Concludes S d .atSetupCmdPushMessage ⟨(outcome S p d .atSetupCmdPushMessage).1, mem,
      (outcome S p d .atSetupCmdPushMessage).2⟩ := by
  simp only [outcome]
  split_ifs
  · exact concludes_error [] rfl rfl
  · generalize S.espushMsg (p.text ++ 0 :: p.rest) (pushLen p.text.length) d.svc = answer
    obtain ⟨iRet, svc⟩ := answer
    by_cases hok : iRet = 0
    · subst hok
      exact concludes_effect [_] rfl rfl ⟨_, _, List.mem_cons_self⟩
    · by_cases hcached : iRet = 1
      · subst hcached
        have hlast : finalOf .atSetupCmdPushMessage (msgResult 1) = some .cached := by decide
        exact concludes_of_ne_ok [_] rfl rfl hlast (by decide)
      · have hlast : msgResult iRet = .atResponseError := by
          rw [msgResult, if_neg hok, if_neg hcached]
        exact concludes_error [_] (by rw [hlast]; rfl) rfl

theorem concludes_edge (p : Param) (mem : Bytes) (edge : UInt8)
    (hfinal : ∀ pin ret, finals h [.setGpioEdge pin edge ret] = [])
    (heffect : ∀ f : Frame σ, (∃ pin, .setGpioEdge pin edge 0 ∈ f.calls) → TookEffect S d f h) :
    Concludes S d h ⟨(edgeOutcome S edge p d).1, mem, (edgeOutcome S edge p d).2⟩ := by
  simp only [edgeOutcome]
  split_ifs
  · exact concludes_error [] rfl rfl
  · generalize S.setGpioEdge (S.atoi p.text).toUInt32.toUInt8 edge d.svc = answer
    obtain ⟨ret, svc⟩ := answer
    by_cases hzero : ret = 0
    · subst hzero
      exact concludes_effect [_] rfl (hfinal _ 0) (heffect _ ⟨_, List.mem_cons_self⟩)
    · have hlast : edgeResult ret = .atResponseError := by rw [edgeResult, if_pos hzero]
      exact concludes_error [_] (by rw [hlast]; rfl) (hfinal _ ret)

/-- Every handler returns and concludes. -/
theorem runHandler_concludes (S : Services σ) (h : Handler) (p : Param) (d : Device σ) :
    ∃ f, invoke (runHandler S h) p.block d = some f ∧ Concludes S d h f := by
  refine ⟨_, invoke_runHandler S h p d, ?_⟩
  cases h with
  | atQueryCmdPushStatus => exact concludes_effect [_] rfl rfl List.mem_cons_self
  | atSetupCmdPushRegistDef =>
      cases hsplit : splitComma p.text with
      | none =>
          simp only [outcome, hsplit]
          exact concludes_error [] rfl rfl
      | some ak =>
          simp only [outcome, hsplit]
          exact concludes_effect [_, _] rfl rfl
            ⟨_, _, _, _, _, List.mem_cons_of_mem _ List.mem_cons_self⟩
  | atSetupCmdPushRegistCur =>
      cases hsplit : splitComma p.text with
      | none =>
          simp only [outcome, hsplit]
          exact concludes_error [] rfl rfl
      | some ak =>
          simp only [outcome, hsplit]
          split_ifs with hwell
          · exact concludes_effect [_] rfl rfl ⟨_, _, _, _, _, List.mem_cons_self⟩
          · exact concludes_error [] rfl rfl
  | atSetupCmdPushMessage => exact concludes_msg p _
  | atExecUnPushRegist => exact concludes_effect [_] rfl rfl List.mem_cons_self
  | atExecPushInitial =>
      cases hcfg : S.readEspushCfg d.svc with
      | none =>
          simp only [outcome, fromFlash, hcfg]
          exact concludes_error [_] rfl (by decide)
      | some info =>
          simp only [outcome, fromFlash, hcfg]
          exact concludes_effect [_] rfl rfl ⟨_, _, _, _, _, List.mem_cons_self⟩
  | atExecPushFlagSwitch =>
      apply concludes_effect [] rfl rfl
      by_cases hflag : d.suffixFlag = 0 <;> simp [TookEffect, outcome, hflag]
  | atSetupGPIOEdgeLow => exact concludes_edge p _ 0 (fun _ _ => rfl) (fun _ => id)
  | atSetupGPIOEdgeHigh => exact concludes_edge p _ 1 (fun _ _ => rfl) (fun _ => id)
  | atExecNetworkCfgTouch => exact concludes_effect [_] rfl rfl List.mem_cons_self
  | atExecListOfflineMsg => exact concludes_effect [_] rfl rfl List.mem_cons_self
  | atQueryADCU => exact concludes_effect [_] rfl rfl List.mem_cons_self
  | atQueryHostname => exact concludes_effect [_] rfl rfl List.mem_cons_self
  | atSetupHostName => exact concludes_ok [_] rfl rfl (.inl rfl)
  | atQueryGpio => exact concludes_effect [_, _] rfl rfl List.mem_cons_self
  | atQueryInfo =>
      exact concludes_effect [_, _] rfl rfl (List.mem_cons_of_mem _ List.mem_cons_self)
  | atSetupInterval =>
      simp only [outcome]
      split_ifs
      · exact concludes_error [] rfl rfl
      · exact concludes_effect [_] rfl rfl ⟨_, List.mem_cons_self⟩
  | atExecUartTrans =>
      simp only [outcome]
      split_ifs with hconn
      · exact concludes_of_ne_ok [_] rfl rfl (c := .prompt) (by decide) (by decide)
      · exact concludes_not_connected (by decide) hconn rfl (by decide)
  | atExecEspushInit => exact concludes_effect [_] rfl rfl ⟨_, _, _, List.mem_cons_self⟩
  | atExecEspushSave =>
      simp only [outcome]
      split_ifs with hconn
      · exact concludes_effect [_] rfl rfl ⟨_, _, _, List.mem_cons_self⟩
      · exact concludes_not_connected (by decide) hconn rfl (by decide)
  | atQueryEspushApps =>
      simp only [outcome]
      split_ifs with hconn
      · exact concludes_effect [_] rfl rfl List.mem_cons_self
      · exact concludes_not_connected (by decide) hconn rfl (by decide)
  | atQueryServerHost => exact concludes_effect [_] rfl rfl List.mem_cons_self
  | atSetupServerHost => exact concludes_effect [_] rfl rfl ⟨_, List.mem_cons_self⟩

/-- `AT+PUSH_SAVE` without a connection saves nothing and answers `OK`. -/
theorem not_honest_save :
    ¬ ∃ f, invoke (runHandler Reference.services .atExecEspushSave) Reference.noParam.block
        Reference.device = some f ∧
      Honest Reference.services Reference.device .atExecEspushSave f := by
  rintro ⟨f, hrun, c, hfinals, heffect⟩
  obtain rfl := Option.some.inj hrun
  have hok : [Final.ok] = [c] := hfinals
  obtain rfl := (List.cons.inj hok).1
  obtain ⟨appid, appkey, devid, hsaved⟩ := heffect rfl
  simp at hsaved

end EspushAt
