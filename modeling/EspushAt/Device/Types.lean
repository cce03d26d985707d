import EspushAt.Foundations.CString
import EspushAt.Foundations.Decimal

/-!
# Data of the AT firmware and the services it calls

The firmware in `app/user` sits between two libraries that are linked as binaries:
libat, which owns the UART and dispatches commands, and libespush, which owns the
cloud connection and the saved configuration. Their state is an arbitrary type `σ`
and their functions are the fields of `Services`, so a theorem about a handler holds
for every result these functions can return.

A pointer into the buffer a handler was given is an index. Passing such a pointer
to a library passes the memory from there on.
-/

namespace EspushAt

open CString

abbrev Ptr := Nat

/-- `enum VERTYPE`. -/
inductive VerType where
  | VER_UNKNOWN | VER_AT | VER_NODEMCU | VER_SDK | VER_OTHER | VER_AT_PLUS
  deriving DecidableEq, Repr

/-- `enum CONN_STATUS`, as the `sint8` the status query returns. -/
abbrev STATUS_CONNECTING : Int8 := 0
abbrev STATUS_DNS_LOOKUP : Int8 := 1
abbrev STATUS_CONNECTED : Int8 := 2
abbrev STATUS_DISCONNECTED : Int8 := 3

abbrev APPKEY_LENGTH : Nat := 32

/-- A C array of exactly `n` bytes. -/
abbrev ByteArrayOf (n : Nat) := { b : Bytes // b.length = n }

/-- `espush_cfg_s`, the configuration kept in flash. -/
structure EspushCfg where
  appId : UInt32
  appkey : ByteArrayOf APPKEY_LENGTH
  devid : Bytes
  deriving DecidableEq

/-- `push_config`, the configuration of the connection in force. -/
structure PushConfig where
  appid : UInt32
  appkey : ByteArrayOf APPKEY_LENGTH
  devid : Bytes
  deriving DecidableEq

/-- The values `at_queryInfo` collects from the SDK. -/
structure SystemInfo where
  systemGetCpuFreq : UInt8
  systemGetFlashSizeMap : UInt8
  systemGetBootVersion : UInt8
  systemGetBootMode : UInt8
  systemGetChipId : UInt32
  systemGetUserbinAddr : UInt32
  spiFlashGetId : UInt32
  systemGetTime : UInt32
  systemGetRtcTime : UInt32
  systemGetFreeHeapSize : UInt32
  deriving DecidableEq

/-- The functions of this firmware that it hands to a library as callbacks. -/
inductive RxIntr where
  | atUartTransRxIntr
  deriving DecidableEq, Repr

inductive MsgCb where
  | atRecvPushMsgCb
  deriving DecidableEq, Inhabited, Repr

/-- The command handlers, as the function pointers of `at_custom_cmd`. -/
inductive Handler where
  | atQueryCmdPushStatus
  | atSetupCmdPushRegistDef
  | atSetupCmdPushRegistCur
  | atSetupCmdPushMessage
  | atExecUnPushRegist
  | atExecPushInitial
  | atExecPushFlagSwitch
  | atSetupGPIOEdgeLow
  | atSetupGPIOEdgeHigh
  | atExecNetworkCfgTouch
  | atExecListOfflineMsg
  | atQueryADCU
  | atQueryHostname
  | atSetupHostName
  | atQueryGpio
  | atQueryInfo
  | atSetupInterval
  | atExecUartTrans
  | atExecEspushInit
  | atExecEspushSave
  | atQueryEspushApps
  | atQueryServerHost
  | atSetupServerHost
  deriving DecidableEq, Repr

/-- A command parameter as libat passes it: `=`, the text, its terminator, and
whatever else the line buffer holds. -/
structure Param where
  text : Bytes
  rest : Bytes
  noNul : 0 ∉ text

/-- The memory from the `=` on. -/
def Param.block (p : Param) : Bytes := 0x3D :: (p.text ++ 0 :: p.rest)

/-- `atoi` of the C library: the value read from the string when it fits an
`int`, and some `int` otherwise. -/
structure Libc where
  atoi : Bytes → Int32
  atoi_eq : ∀ s, -2 ^ 31 ≤ Decimal.atoiValue s → Decimal.atoiValue s < 2 ^ 31 →
    (atoi s).toInt = Decimal.atoiValue s

/-- Text of a number in the range of `int`, read as that number. -/
theorem Libc.atoi_eq_ofInt (L : Libc) {s : Bytes} {v : Int} (hs : Decimal.atoiValue s = v)
    (hlo : -2 ^ 31 ≤ v) (hhi : v < 2 ^ 31) : L.atoi s = Int32.ofInt v := by
  have hread := L.atoi_eq s (by omega) (by omega)
  rw [← Int32.toInt_inj, hread, hs, Int32.toInt_ofInt_of_le hlo hhi]

theorem Libc.atoi_toUInt32 (L : Libc) {s : Bytes} {n : Nat} (hs : Decimal.atoiValue s = n)
    (h : n < 2 ^ 31) : (L.atoi s).toUInt32 = UInt32.ofNat n := by
  rw [L.atoi_eq_ofInt hs (by omega) (by omega)]
  rfl

/-- `atoi` undoes `%d` on every `int`. -/
theorem Libc.atoi_decimalInt (L : Libc) (v : Int32) : L.atoi (Decimal.decimalInt v.toInt) = v := by
  rw [L.atoi_eq_ofInt (Decimal.atoiValue_decimalInt _) v.le_toInt v.toInt_lt, Int32.ofInt_toInt]

/-- The library functions the firmware calls, over a library state `σ`. A function
that can change the state returns the new one; `atLookup` is the command that libat
finds for a line of text, `reset` what a restart leaves of the state. -/
structure Services (σ : Type) extends Libc where
  atLookup : Bytes → Option (Handler × Param)
  espushServerConnectStatus : σ → Int8
  espushGetPushcfg : σ → PushConfig
  readEspushCfg : σ → Option EspushCfg
  espushRegister : UInt32 → Bytes → Bytes → VerType → σ → σ
  espushUnregister : σ → σ
  espushSingleDeviceInit : Bytes → VerType → σ → σ
  saveEspushCfg : UInt32 → Bytes → Bytes → σ → σ
  espushMsg : Bytes → UInt16 → σ → Int8 × σ
  uartStream : Bytes → σ → σ
  espushSetServerHost : UInt32 → σ → σ
  espushGetServerHost : σ → UInt32
  espushSetHeartbeat : Int32 → σ → σ
  setGpioEdge : UInt8 → UInt8 → σ → UInt8 × σ
  espushNetworkCfgBySmartconfig : σ → σ
  sendClearFlashQueue : σ → σ
  createUuid : σ → Bytes × σ
  uuidToString : Bytes → Bytes
  wifiStationSetHostname : Bytes → σ → Bool × σ
  wifiStationGetHostname : σ → Bytes
  systemAdcRead : σ → UInt16
  gpioInputGet : σ → UInt32
  systemInfo : σ → SystemInfo
  reset : σ → σ

/-- The calls of a handler that a library or the host can observe, with their
arguments and, where the handler looks at it, the result. -/
inductive Call where
  | atResponse (str : Bytes)
  | atResponseOk
  | atResponseError
  | atPortPrint (str : Bytes)
  | atCustomLinkMax (max : Nat)
  | atInit
  | atSetCustomInfo (info : Bytes)
  | atCmdArrayRegist (num : Nat)
  | atCmdProcess (cmd : Bytes)
  | atRegisterUartRxIntr (rx : Option RxIntr)
  | atRx (data : Bytes)
  | espushUartStreamCb
  | espushAtcmdCb
  | espushRegister (appid : UInt32) (appkey devid : Bytes) (type : VerType) (msgcb : MsgCb)
  | espushUnregister
  | espushSingleDeviceInit (devid : Bytes) (type : VerType) (msgcb : MsgCb)
  | saveEspushCfg (appid : UInt32) (appkey devid : Bytes)
  | espushMsg (buf : Bytes) (len : UInt16) (ret : Int8)
  | uartStream (data : Bytes)
  | espushSetServerHost (addr : UInt32)
  | espushSetHeartbeat (sec : Int32)
  | setGpioEdge (pin edge ret : UInt8)
  | espushNetworkCfgBySmartconfig
  | sendClearFlashQueue
  | wifiStationSetHostname (name : Bytes) (ret : Bool)
  | systemPrintMeminfo
  deriving DecidableEq

/-- What lives as long as the firmware runs: the libraries' state, `suffix_flag`
and the receive function registered with libat. -/
structure Device (σ : Type) where
  svc : σ
  suffixFlag : UInt8
  rxIntr : Option RxIntr
  deriving DecidableEq

/-- The device while a handler runs, with the buffer the handler was given and
the calls made so far. -/
structure Frame (σ : Type) extends Device σ where
  mem : Bytes
  calls : List Call
  deriving DecidableEq

/-- Handler code. It fails where a handler, or a string function it calls, would touch
memory outside the buffer or overflow a local array. Passing a pointer on to a library does
not fail: the library gets what is left of the buffer. -/
abbrev AtM (σ : Type) := StateT (Frame σ) Option

variable {σ : Type}

/-- Run a handler on a buffer, with no calls made yet. -/
def invoke (m : AtM σ Unit) (mem : Bytes) (d : Device σ) : Option (Frame σ) :=
  (m.run ⟨d, mem, []⟩).map (·.2)

/-- A handler leaves one frame behind. -/
theorem invoke_unique {m : AtM σ Unit} {mem : Bytes} {d : Device σ} {f g : Frame σ}
    (hf : invoke m mem d = some f) (hg : invoke m mem d = some g) : f = g :=
  Option.some.inj (hf.symm.trans hg)

end EspushAt
