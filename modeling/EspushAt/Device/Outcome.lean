import EspushAt.Device.Dispatch

/-!
# What a command does to the device

Each handler as a function from the device and the parameter to the device it leaves and
the calls it makes. The buffer it was given is as before unless a registration command
cut it at the comma. A property of all commands is proved about this function, one case
for each handler.
-/

namespace EspushAt

open CString

variable {σ : Type}

/-- The cloud connection is up. -/
def Connected (S : Services σ) (svc : σ) : Prop :=
  S.espushServerConnectStatus svc = STATUS_CONNECTED

instance (S : Services σ) (svc : σ) : Decidable (Connected S svc) :=
  inferInstanceAs (Decidable (_ = _))

/-- What stands in front of the first comma and what follows it. -/
def splitComma (s : Bytes) : Option (Bytes × Bytes) :=
  if 0x2C ∈ s then some (s.takeWhile (· ≠ 0x2C), (s.dropWhile (· ≠ 0x2C)).drop 1) else none

theorem splitComma_of_split {a : Bytes} (ha : 0x2C ∉ a) (k : Bytes) :
    splitComma (a ++ 0x2C :: k) = some (a, k) := by
  rw [splitComma, if_pos (by simp), takeWhile_ne_append ha, dropWhile_ne_append ha]
  rfl

theorem splitComma_of_notMem {s : Bytes} (h : 0x2C ∉ s) : splitComma s = none := if_neg h

theorem splitComma_eq_some_iff {s a k : Bytes} :
    splitComma s = some (a, k) ↔ s = a ++ 0x2C :: k ∧ 0x2C ∉ a := by
  constructor
  · intro h
    by_cases hcomma : 0x2C ∈ s
    · obtain ⟨a', k', rfl, ha⟩ := split_first hcomma
      rw [splitComma_of_split ha] at h
      obtain ⟨rfl, rfl⟩ := Prod.mk.inj (Option.some.inj h)
      exact ⟨rfl, ha⟩
    · rw [splitComma_of_notMem hcomma] at h
      exact absurd h (by simp)
  · rintro ⟨rfl, ha⟩
    exact splitComma_of_split ha k

/-- The buffer a handler leaves behind. -/
def leftBlock (p : Param) : Handler → Bytes
  | .atSetupCmdPushRegistDef | .atSetupCmdPushRegistCur =>
      match splitComma p.text with
      | none => p.block
      | some (a, k) => splitBlock a k p.rest
  | _ => p.block

/-- The 32 bytes `AT+PUSH_DEF` takes for the appkey, whatever the text ends with. -/
def defKey (k rest : Bytes) : Bytes := (k ++ 0 :: rest).take 32

theorem defKey_of_long {k : Bytes} (h : 32 ≤ k.length) (rest : Bytes) :
    defKey k rest = k.take 32 := List.take_append_of_le_length h

/-- A shorter key is followed by its terminator. -/
theorem prefix_defKey_of_short {k : Bytes} (h : k.length < 32) (rest : Bytes) :
    k ++ [0] <+: defKey k rest := by
  have hlen : (k ++ [0]).length ≤ 32 := by
    rw [List.length_append]
    exact h
  exact List.prefix_take_iff.mpr ⟨⟨rest, List.append_assoc k [0] rest⟩, hlen⟩

variable (S : Services σ)

/-- The device after a pin command, and its calls. -/
def edgeOutcome (edge : UInt8) (p : Param) (d : Device σ) : Device σ × List Call :=
  let pin := (S.atoi p.text).toUInt32.toUInt8
  if pin > 15 then (d, [.atResponseError])
  else
    let answer := S.setGpioEdge pin edge d.svc
    ({ d with svc := answer.2 }, [.setGpioEdge pin edge answer.1, edgeResult answer.1])

/-- The device after a handler, and its calls. -/
def outcome (p : Param) (d : Device σ) : Handler → Device σ × List Call
  | .atQueryCmdPushStatus =>
      (d, [.atResponse (statusReply (S.espushServerConnectStatus d.svc)), .atResponseOk])
  | .atSetupCmdPushRegistDef =>
      match splitComma p.text with
      | none => (d, [.atResponseError])
      | some (a, k) =>
          let appid := (S.atoi a).toUInt32
          let appkey := defKey k p.rest
          let svc := S.saveEspushCfg appid appkey AT_DEV_ANONYMOUS d.svc
          ({ d with svc := S.espushRegister appid appkey AT_DEV_ANONYMOUS .VER_AT svc },
            [.saveEspushCfg appid appkey AT_DEV_ANONYMOUS,
              .espushRegister appid appkey AT_DEV_ANONYMOUS .VER_AT .atRecvPushMsgCb,
              .atResponseOk])
  | .atSetupCmdPushRegistCur =>
      match splitComma p.text with
      | none => (d, [.atResponseError])
      | some (a, k) =>
          if k.length = 32 ∧ S.atoi a ≠ 0 then
            ({ d with
                svc := S.espushRegister (S.atoi a).toUInt32 k AT_DEV_ANONYMOUS .VER_AT d.svc },
              [.espushRegister (S.atoi a).toUInt32 k AT_DEV_ANONYMOUS .VER_AT .atRecvPushMsgCb,
                .atResponseOk])
          else (d, [.atResponseError])
  | .atSetupCmdPushMessage =>
      if p.text = ascii "\r\n" then (d, [.atResponseError])
      else
        let buf := p.text ++ 0 :: p.rest
        let answer := S.espushMsg buf (pushLen p.text.length) d.svc
        ({ d with svc := answer.2 },
          [.espushMsg buf (pushLen p.text.length) answer.1, msgResult answer.1])
  | .atExecUnPushRegist =>
      ({ d with svc := S.espushUnregister d.svc }, [.espushUnregister, .atResponseOk])
  | .atExecPushInitial =>
      ({ d with svc := (fromFlash S d.svc).1 }, (fromFlash S d.svc).2 ++
        [if (S.readEspushCfg d.svc).isNone then .atResponseError else .atResponseOk])
  | .atExecPushFlagSwitch =>
      ({ d with suffixFlag := if d.suffixFlag = 0 then 1 else 0 }, [.atResponseOk])
  | .atSetupGPIOEdgeLow => edgeOutcome S 0 p d
  | .atSetupGPIOEdgeHigh => edgeOutcome S 1 p d
  | .atExecNetworkCfgTouch =>
      ({ d with svc := S.espushNetworkCfgBySmartconfig d.svc },
        [.espushNetworkCfgBySmartconfig, .atResponseOk])
  | .atExecListOfflineMsg =>
      ({ d with svc := S.sendClearFlashQueue d.svc }, [.sendClearFlashQueue, .atResponseOk])
  | .atQueryADCU => (d, [.atResponse (adcReply (S.systemAdcRead d.svc)), .atResponseOk])
  | .atQueryHostname => (d, [.atResponse (S.wifiStationGetHostname d.svc), .atResponseOk])
  | .atSetupHostName =>
      let answer := S.wifiStationSetHostname p.text d.svc
      ({ d with svc := answer.2 }, [.wifiStationSetHostname p.text answer.1, .atResponseOk])
  | .atQueryGpio =>
      (d, [.atResponse (gpioLevels (S.gpioInputGet d.svc)), .atResponse (ascii "\r\n"),
        .atResponseOk])
  | .atQueryInfo =>
      (d, [.systemPrintMeminfo, .atResponse (infoReply (S.systemInfo d.svc)), .atResponseOk])
  | .atSetupInterval =>
      let interval := (S.atoi p.text).toUInt32.toUInt8
      if interval < 30 then (d, [.atResponseError])
      else
        let sec := Int32.ofNat interval.toNat
        ({ d with svc := S.espushSetHeartbeat sec d.svc }, [.espushSetHeartbeat sec, .atResponseOk])
  | .atExecUartTrans =>
      if Connected S d.svc then
        ({ d with rxIntr := some .atUartTransRxIntr },
          [.atRegisterUartRxIntr (some .atUartTransRxIntr), .atResponse (ascii ">")])
      else (d, [.atResponse (ascii "NOT CONNECTED\r\n"), .atResponseOk])
  | .atExecEspushInit =>
      let uuid := S.createUuid d.svc
      let devid := S.uuidToString uuid.1
      ({ d with svc := S.espushSingleDeviceInit devid .VER_AT uuid.2 },
        [.espushSingleDeviceInit devid .VER_AT .atRecvPushMsgCb, .atResponseOk])
  | .atExecEspushSave =>
      if Connected S d.svc then
        let pcfg := S.espushGetPushcfg d.svc
        ({ d with svc := S.saveEspushCfg pcfg.appid pcfg.appkey AT_PLUS_SINGLE_DEVICES d.svc },
          [.saveEspushCfg pcfg.appid pcfg.appkey AT_PLUS_SINGLE_DEVICES, .atResponseOk])
      else (d, [.atResponse (ascii "NOT CONNECTED\r\n"), .atResponseOk])
  | .atQueryEspushApps =>
      if Connected S d.svc then
        (d, [.atResponse (appsReply (S.espushGetPushcfg d.svc)), .atResponseOk])
      else (d, [.atResponse (ascii "NOT CONNECTED\r\n"), .atResponseOk])
  | .atQueryServerHost =>
      (d, [.atResponse (serverHostReply (S.espushGetServerHost d.svc)), .atResponseOk])
  | .atSetupServerHost =>
      let addr := (S.atoi p.text).toUInt32
      ({ d with svc := S.espushSetServerHost addr d.svc },
        [.espushSetServerHost addr, .atResponseOk])

variable {S} {p : Param} {d : Device σ}

theorem invoke_edge (edge : UInt8) :
    invoke (atSetupGPIOEdge S edge 0) p.block d =
      some ⟨(edgeOutcome S edge p d).1, p.block, (edgeOutcome S edge p d).2⟩ := by
  rw [invoke_atSetupGPIOEdge p d edge rfl, edgeOutcome]
  split_ifs <;> rfl

theorem invoke_def : invoke (atSetupCmdPushRegistDef S 0) p.block d =
    some ⟨(outcome S p d .atSetupCmdPushRegistDef).1, leftBlock p .atSetupCmdPushRegistDef,
      (outcome S p d .atSetupCmdPushRegistDef).2⟩ := by
  by_cases hcomma : 0x2C ∈ p.text
  · obtain ⟨a, k, htext, ha⟩ := split_first hcomma
    have hsplit : splitComma p.text = some (a, k) := by rw [htext, splitComma_of_split ha]
    rw [invoke_def_of_split d htext ha, outcome, leftBlock, hsplit]
    rfl
  · rw [invoke_def_of_notMem d hcomma, outcome, leftBlock, splitComma_of_notMem hcomma]

theorem invoke_cur : invoke (atSetupCmdPushRegistCur S 0) p.block d =
    some ⟨(outcome S p d .atSetupCmdPushRegistCur).1, leftBlock p .atSetupCmdPushRegistCur,
      (outcome S p d .atSetupCmdPushRegistCur).2⟩ := by
  by_cases hcomma : 0x2C ∈ p.text
  · obtain ⟨a, k, htext, ha⟩ := split_first hcomma
    have hsplit : splitComma p.text = some (a, k) := by rw [htext, splitComma_of_split ha]
    rw [invoke_cur_of_split d htext ha, outcome, leftBlock, hsplit]
    dsimp only
    split_ifs <;> rfl
  · rw [invoke_cur_of_notMem d hcomma, outcome, leftBlock, splitComma_of_notMem hcomma]

theorem invoke_msg : invoke (atSetupCmdPushMessage S 0) p.block d =
    some ⟨(outcome S p d .atSetupCmdPushMessage).1, p.block,
      (outcome S p d .atSetupCmdPushMessage).2⟩ := by
  rw [outcome]
  by_cases hempty : p.text = ascii "\r\n"
  · rw [invoke_atSetupCmdPushMessage_of_empty hempty d, if_pos hempty]
  · rw [invoke_atSetupCmdPushMessage hempty rfl, if_neg hempty]

/-- What a handler does that asks for a connection first. -/
theorem invoke_connected {m : AtM σ Unit} {mem : Bytes} {online offline : Device σ}
    {calls refusal : List Call}
    (hrun : invoke m mem d = if S.espushServerConnectStatus d.svc = STATUS_CONNECTED then
      some ⟨online, mem, calls⟩ else some ⟨offline, mem, refusal⟩) :
    invoke m mem d = some ⟨(if Connected S d.svc then (online, calls) else (offline, refusal)).1,
      mem, (if Connected S d.svc then (online, calls) else (offline, refusal)).2⟩ := by
  by_cases hconn : Connected S d.svc
  · rw [hrun, if_pos hconn]
    exact if_pos hconn
  · rw [hrun, if_neg hconn]
    exact if_neg hconn

/-- A handler leaves the device, the buffer and the calls of these functions. -/
theorem invoke_runHandler (S : Services σ) (h : Handler) (p : Param) (d : Device σ) :
    invoke (runHandler S h) p.block d =
      some ⟨(outcome S p d h).1, leftBlock p h, (outcome S p d h).2⟩ := by
  cases h with
  | atQueryCmdPushStatus => exact invoke_atQueryCmdPushStatus _ d
  | atSetupCmdPushRegistDef => exact invoke_def
  | atSetupCmdPushRegistCur => exact invoke_cur
  | atSetupCmdPushMessage => exact invoke_msg
  | atExecUnPushRegist => exact invoke_atExecUnPushRegist d _
  | atExecPushInitial => exact invoke_atExecPushInitial d _
  | atExecPushFlagSwitch => exact invoke_atExecPushFlagSwitch _ d
  | atSetupGPIOEdgeLow => exact invoke_edge 0
  | atSetupGPIOEdgeHigh => exact invoke_edge 1
  | atExecNetworkCfgTouch => exact invoke_atExecNetworkCfgTouch _ d
  | atExecListOfflineMsg => exact invoke_atExecListOfflineMsg _ d
  | atQueryADCU => exact invoke_atQueryADCU _ d
  | atQueryHostname => exact invoke_atQueryHostname _ d
  | atSetupHostName => exact invoke_atSetupHostName p d rfl
  | atQueryGpio => exact invoke_atQueryGpio _ d
  | atQueryInfo => exact invoke_atQueryInfo _ d
  | atSetupInterval =>
      refine (invoke_atSetupInterval p d).trans ?_
      rw [outcome]
      dsimp only
      split_ifs <;> rfl
  | atExecUartTrans => exact invoke_connected (invoke_atExecUartTrans p.block d)
  | atExecEspushInit => exact invoke_atExecEspushInit d _
  | atExecEspushSave => exact invoke_connected (invoke_atExecEspushSave d p.block)
  | atQueryEspushApps => exact invoke_connected (invoke_atQueryEspushApps p.block d)
  | atQueryServerHost => exact invoke_atQueryServerHost _ d
  | atSetupServerHost => exact invoke_atSetupServerHost p d

/-! ### What a command can do -/

section Effect

variable (S)

/-- Library calls other than `save_espush_cfg`, any number of them. -/
inductive Unsaved (s : σ) : σ → Prop where
  | refl : Unsaved s s
  | register {t} (appid : UInt32) (appkey devid : Bytes) (type : VerType) :
      Unsaved s t → Unsaved s (S.espushRegister appid appkey devid type t)
  | unregister {t} : Unsaved s t → Unsaved s (S.espushUnregister t)
  | singleDeviceInit {t} (devid : Bytes) (type : VerType) :
      Unsaved s t → Unsaved s (S.espushSingleDeviceInit devid type t)
  | msg {t} (buf : Bytes) (len : UInt16) : Unsaved s t → Unsaved s (S.espushMsg buf len t).2
  | uartStream {t} (data : Bytes) : Unsaved s t → Unsaved s (S.uartStream data t)
  | setServerHost {t} (addr : UInt32) : Unsaved s t → Unsaved s (S.espushSetServerHost addr t)
  | setHeartbeat {t} (sec : Int32) : Unsaved s t → Unsaved s (S.espushSetHeartbeat sec t)
  | setGpioEdge {t} (pin edge : UInt8) : Unsaved s t → Unsaved s (S.setGpioEdge pin edge t).2
  | smartconfig {t} : Unsaved s t → Unsaved s (S.espushNetworkCfgBySmartconfig t)
  | clearQueue {t} : Unsaved s t → Unsaved s (S.sendClearFlashQueue t)
  | createUuid {t} : Unsaved s t → Unsaved s (S.createUuid t).2
  | setHostname {t} (name : Bytes) : Unsaved s t → Unsaved s (S.wifiStationSetHostname name t).2

/-- What a handler can do to the device. Only `AT+UARTRANS` registers a receive
function, and over a connection; only two handlers save; none streams. -/
structure HandlerEffect (h : Handler) (d : Device σ) (r : Device σ × List Call) : Prop where
  rx : r.1.rxIntr = d.rxIntr ∨ h = .atExecUartTrans ∧ r.1.svc = d.svc ∧ Connected S d.svc
  saves : Unsaved S d.svc r.1.svc ∨ h = .atSetupCmdPushRegistDef ∨ h = .atExecEspushSave
  streams : ∀ data, .uartStream data ∉ r.2
  keeps : ∀ appid appkey devid, .saveEspushCfg appid appkey devid ∈ r.2 →
    h = .atSetupCmdPushRegistDef ∨ h = .atExecEspushSave

end Effect

theorem unsaved_fromFlash (svc : σ) : Unsaved S svc (fromFlash S svc).1 := by
  cases hcfg : S.readEspushCfg svc with
  | none =>
      simp only [fromFlash, hcfg]
      exact .refl
  | some info =>
      simp only [fromFlash, hcfg]
      exact .register _ _ _ _ .refl

/-- Calls other than the two that `HandlerEffect` speaks of. -/
def Call.isPlain : Call → Bool
  | .uartStream _ | .saveEspushCfg _ _ _ => false
  | _ => true

theorem isPlain_msgResult (iRet : Int8) : (msgResult iRet).isPlain = true := by
  rcases msgResult_cases iRet with h | h | h <;> rw [h] <;> rfl

theorem isPlain_edgeResult (ret : UInt8) : (edgeResult ret).isPlain = true := by
  rcases edgeResult_cases ret with h | h <;> rw [h] <;> rfl

/-- A handler that leaves the receive function alone and neither streams nor saves. -/
theorem handlerEffect_plain {h : Handler} {r : Device σ × List Call} (hrx : r.1.rxIntr = d.rxIntr)
    (hunsaved : Unsaved S d.svc r.1.svc) (hplain : r.2.all Call.isPlain = true) :
    HandlerEffect S h d r := by
  rw [List.all_eq_true] at hplain
  refine ⟨.inl hrx, .inl hunsaved, ?_, ?_⟩
  · intro data hstream
    exact absurd (hplain _ hstream) (by simp [Call.isPlain])
  · intro appid appkey devid hsaved
    exact absurd (hplain _ hsaved) (by simp [Call.isPlain])

theorem handlerEffect_edge (h : Handler) (edge : UInt8) :
    HandlerEffect S h d (edgeOutcome S edge p d) := by
  rw [edgeOutcome]
  dsimp only
  split_ifs
  · exact handlerEffect_plain rfl .refl rfl
  · refine handlerEffect_plain rfl (.setGpioEdge _ _ .refl) ?_
    rw [List.all_cons, List.all_cons, isPlain_edgeResult]
    rfl

theorem handlerEffect_outcome (h : Handler) (p : Param) (d : Device σ) :
    HandlerEffect S h d (outcome S p d h) := by
  cases h with
  | atSetupCmdPushRegistDef =>
      cases hsplit : splitComma p.text with
      | none =>
          simp only [outcome, hsplit]
          exact handlerEffect_plain rfl .refl rfl
      | some ak =>
          simp only [outcome, hsplit]
          exact ⟨.inl rfl, .inr (.inl rfl), by simp, fun _ _ _ _ => .inl rfl⟩
  | atSetupCmdPushRegistCur =>
      cases hsplit : splitComma p.text with
      | none =>
          simp only [outcome, hsplit]
          exact handlerEffect_plain rfl .refl rfl
      | some ak =>
          simp only [outcome, hsplit]
          split_ifs
          · exact handlerEffect_plain rfl (.register _ _ _ _ .refl) rfl
          · exact handlerEffect_plain rfl .refl rfl
  | atSetupCmdPushMessage =>
      rw [outcome]
      split_ifs
      · exact handlerEffect_plain rfl .refl rfl
      · refine handlerEffect_plain rfl (.msg _ _ .refl) ?_
        rw [List.all_cons, List.all_cons, isPlain_msgResult]
        rfl
  | atExecUnPushRegist => exact handlerEffect_plain rfl (.unregister .refl) rfl
  | atExecPushInitial =>
      refine handlerEffect_plain rfl (unsaved_fromFlash _) ?_
      cases hcfg : S.readEspushCfg d.svc <;> simp [outcome, fromFlash, hcfg, Call.isPlain]
  | atSetupGPIOEdgeLow => exact handlerEffect_edge _ 0
  | atSetupGPIOEdgeHigh => exact handlerEffect_edge _ 1
  | atExecNetworkCfgTouch => exact handlerEffect_plain rfl (.smartconfig .refl) rfl
  | atExecListOfflineMsg => exact handlerEffect_plain rfl (.clearQueue .refl) rfl
  | atSetupHostName => exact handlerEffect_plain rfl (.setHostname _ .refl) rfl
  | atSetupInterval =>
      rw [outcome]
      dsimp only
      split_ifs
      · exact handlerEffect_plain rfl .refl rfl
      · exact handlerEffect_plain rfl (.setHeartbeat _ .refl) rfl
  | atExecUartTrans =>
      rw [outcome]
      split_ifs with hconn
      · exact ⟨.inr ⟨rfl, rfl, hconn⟩, .inl .refl, by simp, by simp⟩
      · exact handlerEffect_plain rfl .refl rfl
  | atExecEspushInit =>
      exact handlerEffect_plain rfl (.singleDeviceInit _ _ (.createUuid .refl)) rfl
  | atExecEspushSave =>
      rw [outcome]
      split_ifs
      · exact ⟨.inl rfl, .inr (.inr rfl), by simp, fun _ _ _ _ => .inr rfl⟩
      · exact handlerEffect_plain rfl .refl rfl
  | atQueryEspushApps =>
      rw [outcome]
      split_ifs <;> exact handlerEffect_plain rfl .refl rfl
  | atSetupServerHost => exact handlerEffect_plain rfl (.setServerHost _ .refl) rfl
  | _ => exact handlerEffect_plain rfl .refl rfl

variable (S) in
/-- What the command found for a line, if there is one, leaves of the device, and its calls. -/
def outcomeOf (d : Device σ) : Option (Handler × Param) → Device σ × List Call
  | none => (d, [])
  | some (h, p) => outcome S p d h

theorem dispatched_eq (line : Bytes) (d : Device σ) :
    dispatched S line d = some (outcomeOf S d (S.atLookup line)) := by
  cases hlookup : S.atLookup line with
  | none => simp [dispatched, outcomeOf, hlookup]
  | some hp =>
      obtain ⟨h, p⟩ := hp
      simp [dispatched, outcomeOf, hlookup, invoke_runHandler]

end EspushAt
