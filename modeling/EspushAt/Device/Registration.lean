import EspushAt.Device.Primitives

/-!
# Registration and saved configuration

The handlers that register the device with the cloud or save its identity:
`AT+PUSH_CUR`, `AT+PUSH_DEF`, `AT+PUSH_INIT`, `AT+PUSH_CONN`, `AT+PUSH_SAVE` and
`AT+PUSHCLOSE`, with the start-up code that registers from flash. The two setup
commands cut their parameter in place: the first comma becomes the terminator of the
appid, and the appkey is what follows it.
-/

namespace EspushAt

open CString

variable {σ : Type}

/-- The devid literals of the source. -/
def AT_DEV_ANONYMOUS : Bytes := ascii "AT_DEV_ANONYMOUS"
def AT_PLUS_SINGLE_DEVICES : Bytes := ascii "AT_PLUS SINGLE DEVICES"

/-- The `while(*param)` loop of the setup commands, over the memory from `param`
on: the address of the first comma, if one stands before the terminator. It fails
when the memory ends first. -/
def scanComma : Bytes → Ptr → Option (Option Ptr)
  | [], _ => none
  | c :: mem, param =>
      if c = 0 then some none
      else if c = 0x2C then some (some param)
      else scanComma mem (param + 1)

/-- The parameter split both setup commands begin with: `appid` and `appkey`, with
the comma overwritten, or `none` where both pointers stay `NULL`. -/
def splitParam (pPara : Ptr) : AtM σ (Option (Ptr × Ptr)) := do
  match scanComma (← memFrom (pPara + 1)) (pPara + 1) with
  | none => failure
  | some none => return none
  | some (some param) =>
      store param 0
      return some (pPara + 1, param + 1)

variable (S : Services σ)

def espushRegister (appid : UInt32) (appkey devid : Bytes) (type : VerType) : AtM σ Unit :=
  perform (.espushRegister appid appkey devid type .atRecvPushMsgCb)
    (S.espushRegister appid appkey devid type)

def saveEspushCfg (appid : UInt32) (appkey devid : Bytes) : AtM σ Unit :=
  perform (.saveEspushCfg appid appkey devid) (S.saveEspushCfg appid appkey devid)

def atSetupCmdPushRegistCur (pPara : Ptr) : AtM σ Unit := do
  match ← splitParam pPara with
  | none => atResponseError
  | some (appid, appkey) =>
      if (← osStrlen appkey) ≠ 32 then
        atResponseError
      else
        let appidVal := (S.atoi (← cstring appid)).toUInt32
        if appidVal = 0 then
          atResponseError
        else
          espushRegister S appidVal (← array32 appkey) AT_DEV_ANONYMOUS .VER_AT
          atResponseOk

def atSetupCmdPushRegistDef (pPara : Ptr) : AtM σ Unit := do
  match ← splitParam pPara with
  | none => atResponseError
  | some (appid, appkey) =>
      let appidVal := (S.atoi (← cstring appid)).toUInt32
      saveEspushCfg S appidVal (← array32 appkey) AT_DEV_ANONYMOUS
      espushRegister S appidVal (← array32 appkey) AT_DEV_ANONYMOUS .VER_AT
      atResponseOk

/-- Returns 1 when there is no valid configuration in flash. -/
def registPushFromReadFlash : AtM σ UInt8 := do
  match ← query S.readEspushCfg with
  | none =>
      atResponse (ascii "INVALID CONFIG\r\n")
      return 1
  | some info =>
      espushRegister S info.appId info.appkey AT_DEV_ANONYMOUS .VER_AT
      return 0

def atExecPushInitial : AtM σ Unit := do
  if (← registPushFromReadFlash S) ≠ 0 then
    atResponseError
  else
    atResponseOk

def atExecUnPushRegist : AtM σ Unit := do
  perform .espushUnregister S.espushUnregister
  atResponseOk

def createUuid : AtM σ Bytes := do
  let (uuid, svc) := S.createUuid (← getThe (Frame σ)).svc
  modify fun f => { f with svc := svc }
  return uuid

def atExecEspushInit : AtM σ Unit := do
  let uuid ← createUuid S
  let devid := S.uuidToString uuid
  perform (.espushSingleDeviceInit devid .VER_AT .atRecvPushMsgCb)
    (S.espushSingleDeviceInit devid .VER_AT)
  atResponseOk

def atExecEspushSave : AtM σ Unit := do
  if (← query S.espushServerConnectStatus) = STATUS_CONNECTED then
    let pcfg ← query S.espushGetPushcfg
    saveEspushCfg S pcfg.appid pcfg.appkey AT_PLUS_SINGLE_DEVICES
  else
    atResponse (ascii "NOT CONNECTED\r\n")
  atResponseOk

/-- The part of start-up that runs once the system is initialised. -/
def espushAtInit : AtM σ Unit := do
  emit .espushUartStreamCb
  emit .espushAtcmdCb
  let _ ← registPushFromReadFlash S

/-! ### What each handler does -/

theorem scanComma_of_notMem {text rest : Bytes} (hnul : 0 ∉ text) (hcomma : 0x2C ∉ text)
    (param : Ptr) : scanComma (text ++ 0 :: rest) param = some none := by
  induction text generalizing param with
  | nil => simp [scanComma]
  | cons c text ih =>
      obtain ⟨hc, hnul⟩ := not_or.mp (List.mem_cons.not.mp hnul)
      obtain ⟨hd, hcomma⟩ := not_or.mp (List.mem_cons.not.mp hcomma)
      simpa [scanComma, Ne.symm hc, Ne.symm hd] using ih hnul hcomma (param + 1)

theorem scanComma_of_split {front : Bytes} (hnul : 0 ∉ front) (hcomma : 0x2C ∉ front)
    (rest : Bytes) (param : Ptr) :
    scanComma (front ++ 0x2C :: rest) param = some (some (param + front.length)) := by
  induction front generalizing param with
  | nil => simp [scanComma]
  | cons c front ih =>
      obtain ⟨hc, hnul⟩ := not_or.mp (List.mem_cons.not.mp hnul)
      obtain ⟨hd, hcomma⟩ := not_or.mp (List.mem_cons.not.mp hcomma)
      have hrest := ih hnul hcomma (param + 1)
      simp only [scanComma, List.cons_append, Ne.symm hc, Ne.symm hd, if_false, hrest,
        List.length_cons, Option.some.injEq]
      exact Nat.add_right_comm param 1 front.length

/-- Without a comma the parameter is left as it was. -/
theorem run_splitParam_of_notMem {f : Frame σ} {text rest : Bytes}
    (hmem : f.mem = 0x3D :: (text ++ 0 :: rest)) (hnul : 0 ∉ text) (hcomma : 0x2C ∉ text) :
    (splitParam 0).run f = some (none, f) := by
  simp [splitParam, hmem, scanComma_of_notMem hnul hcomma]

/-- The memory of a parameter whose first comma has become a terminator. -/
def splitBlock (a k rest : Bytes) : Bytes := 0x3D :: (a ++ 0 :: (k ++ 0 :: rest))

/-- With a comma, the appid is what precedes the first one and the appkey the rest;
the comma is the only byte that changes. -/
theorem run_splitParam_of_split {f : Frame σ} {a k rest : Bytes}
    (hmem : f.mem = 0x3D :: (a ++ 0x2C :: k ++ 0 :: rest)) (hnul : 0 ∉ a) (hcomma : 0x2C ∉ a) :
    (splitParam 0).run f =
      some (some (1, a.length + 2), { f with mem := splitBlock a k rest }) := by
  have hscan : scanComma (f.mem.drop 1) 1 = some (some (1 + a.length)) := by
    simpa [hmem] using scanComma_of_split hnul hcomma (k ++ 0 :: rest) 1
  have hset : f.mem.set (1 + a.length) 0 = splitBlock a k rest := by
    simp [hmem, splitBlock, Nat.add_comm 1]
  have hlt : 1 + a.length < f.mem.length := by
    simp [hmem]
    omega
  simp only [splitParam, StateT.run_bind, run_memFrom, Option.bind_eq_bind, Option.bind_some,
    Nat.zero_add, hscan, run_store 0 hlt, hset, StateT.run_pure, Option.pure_def]
  rw [Nat.add_comm 1]

theorem read?_splitBlock_appid {a : Bytes} (ha : 0 ∉ a) (k rest : Bytes) :
    read? ((splitBlock a k rest).drop 1) = some a := by
  simpa [splitBlock] using read?_of_notMem ha (k ++ 0 :: rest)

theorem drop_splitBlock_appkey (a k rest : Bytes) :
    (splitBlock a k rest).drop (a.length + 2) = k ++ 0 :: rest := by
  have : a.length + 2 = (0x3D :: (a ++ [0]) : Bytes).length := by simp
  rw [this, show splitBlock a k rest = (0x3D :: (a ++ [0])) ++ (k ++ 0 :: rest) by
    simp [splitBlock], List.drop_left]

theorem read?_splitBlock_appkey {k : Bytes} (hk : 0 ∉ k) (a rest : Bytes) :
    read? ((splitBlock a k rest).drop (a.length + 2)) = some k := by
  rw [drop_splitBlock_appkey, read?_of_notMem hk]

theorem toUInt32_eq_zero_iff {v : Int32} : v.toUInt32 = 0 ↔ v = 0 :=
  ⟨fun h => (congrArg UInt32.toInt32 h : v.toUInt32.toInt32 = UInt32.toInt32 0), fun h => h ▸ rfl⟩

section Outcome

variable {S} {p : Param} (d : Device σ)

theorem invoke_cur_of_notMem (hcomma : 0x2C ∉ p.text) :
    invoke (atSetupCmdPushRegistCur S 0) p.block d =
      some ⟨d, p.block, [.atResponseError]⟩ := by
  have hsplit := run_splitParam_of_notMem (f := ⟨d, p.block, []⟩) rfl p.noNul hcomma
  simp [invoke, atSetupCmdPushRegistCur, hsplit]

theorem invoke_def_of_notMem (hcomma : 0x2C ∉ p.text) :
    invoke (atSetupCmdPushRegistDef S 0) p.block d =
      some ⟨d, p.block, [.atResponseError]⟩ := by
  have hsplit := run_splitParam_of_notMem (f := ⟨d, p.block, []⟩) rfl p.noNul hcomma
  simp [invoke, atSetupCmdPushRegistDef, hsplit]

variable {a k : Bytes}

/-- The front and the back of a split parameter are free of zero bytes. -/
theorem Param.noNul_of_split (htext : p.text = a ++ 0x2C :: k) : 0 ∉ a ∧ 0 ∉ k := by
  have := p.noNul
  simp_all

theorem Param.block_of_split (htext : p.text = a ++ 0x2C :: k) :
    p.block = 0x3D :: (a ++ 0x2C :: k ++ 0 :: p.rest) := by
  simp [Param.block, htext]

/-- `AT+PUSH_CUR` registers exactly when the key has 32 bytes and the id is not 0. -/
theorem invoke_cur_of_split (htext : p.text = a ++ 0x2C :: k) (hcomma : 0x2C ∉ a) :
    invoke (atSetupCmdPushRegistCur S 0) p.block d =
      if k.length = 32 ∧ S.atoi a ≠ 0 then
        some ⟨{ d with
            svc := S.espushRegister (S.atoi a).toUInt32 k AT_DEV_ANONYMOUS .VER_AT d.svc },
          splitBlock a k p.rest,
          [.espushRegister (S.atoi a).toUInt32 k AT_DEV_ANONYMOUS .VER_AT .atRecvPushMsgCb,
            .atResponseOk]⟩
      else some ⟨d, splitBlock a k p.rest, [.atResponseError]⟩ := by
  obtain ⟨ha, hk⟩ := Param.noNul_of_split htext
  have hsplit := run_splitParam_of_split (f := ⟨d, p.block, []⟩)
    (Param.block_of_split htext) ha hcomma
  have hkey := run_osStrlen (f := ⟨d, splitBlock a k p.rest, []⟩)
    (read?_splitBlock_appkey hk a p.rest)
  have hid := run_cstring (f := ⟨d, splitBlock a k p.rest, []⟩)
    (read?_splitBlock_appid ha k p.rest)
  by_cases hlen : k.length = 32
  · by_cases hzero : S.atoi a = 0
    · have happ : (0 : Int32).toUInt32 = 0 := rfl
      simp [invoke, atSetupCmdPushRegistCur, hsplit, hkey, hid, hlen, hzero, happ]
    · have happ : (S.atoi a).toUInt32 ≠ 0 := toUInt32_eq_zero_iff.not.mpr hzero
      have htake : ((splitBlock a k p.rest).drop (a.length + 2)).take 32 = k := by
        rw [drop_splitBlock_appkey, ← hlen, List.take_left]
      simp [invoke, atSetupCmdPushRegistCur, espushRegister, hsplit, hkey, hid, hlen, hzero,
        happ, htake]
  · simp [invoke, atSetupCmdPushRegistCur, hsplit, hkey, hlen]

/-- `AT+PUSH_DEF` saves and registers whatever the two parts are. -/
theorem invoke_def_of_split (htext : p.text = a ++ 0x2C :: k) (hcomma : 0x2C ∉ a) :
    invoke (atSetupCmdPushRegistDef S 0) p.block d =
      some ⟨{ d with
          svc := S.espushRegister (S.atoi a).toUInt32 ((k ++ 0 :: p.rest).take 32)
            AT_DEV_ANONYMOUS .VER_AT (S.saveEspushCfg (S.atoi a).toUInt32
              ((k ++ 0 :: p.rest).take 32) AT_DEV_ANONYMOUS d.svc) },
        splitBlock a k p.rest,
        [.saveEspushCfg (S.atoi a).toUInt32 ((k ++ 0 :: p.rest).take 32) AT_DEV_ANONYMOUS,
          .espushRegister (S.atoi a).toUInt32 ((k ++ 0 :: p.rest).take 32) AT_DEV_ANONYMOUS
            .VER_AT .atRecvPushMsgCb,
          .atResponseOk]⟩ := by
  obtain ⟨ha, hk⟩ := Param.noNul_of_split htext
  have hsplit := run_splitParam_of_split (f := ⟨d, p.block, []⟩)
    (Param.block_of_split htext) ha hcomma
  have hid := run_cstring (f := ⟨d, splitBlock a k p.rest, []⟩)
    (read?_splitBlock_appid ha k p.rest)
  simp [invoke, atSetupCmdPushRegistDef, saveEspushCfg, espushRegister, hsplit, hid,
    drop_splitBlock_appkey]

variable (mem : Bytes)

/-- Registering from flash passes the saved appid and appkey, and a fixed devid:
what it leaves of the libraries' state, and its calls. -/
def fromFlash (S : Services σ) (svc : σ) : σ × List Call :=
  match S.readEspushCfg svc with
  | none => (svc, [.atResponse (ascii "INVALID CONFIG\r\n")])
  | some info => (S.espushRegister info.appId info.appkey AT_DEV_ANONYMOUS .VER_AT svc,
      [.espushRegister info.appId info.appkey AT_DEV_ANONYMOUS .VER_AT .atRecvPushMsgCb])

theorem run_registPushFromReadFlash (f : Frame σ) :
    (registPushFromReadFlash S).run f = some (if (S.readEspushCfg f.svc).isNone then 1 else 0,
      { f with svc := (fromFlash S f.svc).1, calls := f.calls ++ (fromFlash S f.svc).2 }) := by
  cases hcfg : S.readEspushCfg f.svc <;>
    simp [registPushFromReadFlash, fromFlash, espushRegister, hcfg]

theorem invoke_atExecPushInitial :
    invoke (atExecPushInitial S) mem d = some ⟨{ d with svc := (fromFlash S d.svc).1 }, mem,
      (fromFlash S d.svc).2 ++
        [if (S.readEspushCfg d.svc).isNone then .atResponseError else .atResponseOk]⟩ := by
  cases hcfg : S.readEspushCfg d.svc <;>
    simp [invoke, atExecPushInitial, run_registPushFromReadFlash, hcfg]

theorem invoke_atExecUnPushRegist :
    invoke (atExecUnPushRegist S) mem d =
      some ⟨{ d with svc := S.espushUnregister d.svc }, mem,
        [.espushUnregister, .atResponseOk]⟩ := rfl

theorem invoke_atExecEspushInit :
    invoke (atExecEspushInit S) mem d =
      let (uuid, svc) := S.createUuid d.svc
      some ⟨{ d with svc := S.espushSingleDeviceInit (S.uuidToString uuid) .VER_AT svc }, mem,
        [.espushSingleDeviceInit (S.uuidToString uuid) .VER_AT .atRecvPushMsgCb,
          .atResponseOk]⟩ := rfl

/-- `AT+PUSH_SAVE` keeps the appid and appkey in force, under a devid of its own;
it answers OK whether or not there is a connection. -/
theorem invoke_atExecEspushSave :
    invoke (atExecEspushSave S) mem d =
      if S.espushServerConnectStatus d.svc = STATUS_CONNECTED then
        some ⟨{ d with
            svc := S.saveEspushCfg (S.espushGetPushcfg d.svc).appid
              (S.espushGetPushcfg d.svc).appkey AT_PLUS_SINGLE_DEVICES d.svc }, mem,
          [.saveEspushCfg (S.espushGetPushcfg d.svc).appid (S.espushGetPushcfg d.svc).appkey
            AT_PLUS_SINGLE_DEVICES, .atResponseOk]⟩
      else some ⟨d, mem, [.atResponse (ascii "NOT CONNECTED\r\n"), .atResponseOk]⟩ := by
  by_cases hconn : S.espushServerConnectStatus d.svc = STATUS_CONNECTED <;>
    simp [invoke, atExecEspushSave, saveEspushCfg, hconn]

end Outcome

end EspushAt
