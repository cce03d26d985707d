import EspushAt.Device.System

/-!
# A small libat and libespush

An implementation of `Services` over a state with the flash, the configuration in
force and the connection status. It answers as the headers describe and is as small
as that allows: it shows that assumptions about the libraries can be met, and a statement
about every implementation fails where it fails on a run of this one.
-/

namespace EspushAt

open CString

namespace Reference

structure State where
  flash : Option EspushCfg
  config : PushConfig
  status : Int8
  hostname : Bytes
  deriving DecidableEq

/-- A string in a C array of 32 bytes, filled up with zero bytes. -/
def array32Of (s : Bytes) : ByteArrayOf 32 := ⟨(s ++ List.replicate 32 0).take 32, by simp⟩

theorem array32Of_val {s : Bytes} (h : s.length = 32) : (array32Of s).val = s := by
  change (s ++ List.replicate 32 0).take 32 = s
  rw [← h, List.take_left]

/-- What a command without a parameter gets. -/
def noParam : Param := ⟨[], [], by simp⟩

/-- A line is a command's name followed by nothing, by `?` or by `=` and a parameter. -/
def findCommand (line : Bytes) : Option (Handler × Param) :=
  atCustomCmd.findSome? fun row =>
    if row.atCmdName.isPrefixOf line then
      match line.drop row.atCmdName.length with
      | 0x3D :: para => row.atSetupCmd.map (·, ⟨text para, [], zero_notMem_text para⟩)
      | 0x3F :: _ => row.atQueryCmd.map (·, noParam)
      | after => if after = [] ∨ after = ascii "\r\n" then
          row.atExeCmd.map (·, noParam) else none
    else none

/-- `atoi` of a C library that reduces what does not fit. -/
def libc : Libc where
  atoi s := Int32.ofInt (Decimal.atoiValue s)
  atoi_eq _ hlo hhi := Int32.toInt_ofInt_of_le hlo hhi

/-- A registration is accepted at once, and a cached message is answered 1. -/
def services : Services State where
  toLibc := libc
  atLookup := findCommand
  espushServerConnectStatus s := s.status
  espushGetPushcfg s := s.config
  readEspushCfg s := s.flash
  espushRegister appid appkey devid _ s :=
    { s with config := ⟨appid, array32Of appkey, devid⟩, status := STATUS_CONNECTING }
  espushUnregister s := { s with status := STATUS_DISCONNECTED }
  espushSingleDeviceInit devid _ s :=
    { s with config := { s.config with devid := devid }, status := STATUS_CONNECTING }
  saveEspushCfg appid appkey devid s := { s with flash := some ⟨appid, array32Of appkey, devid⟩ }
  espushMsg _ _ s := (if s.status = STATUS_CONNECTED then 0 else 1, s)
  uartStream _ s := s
  espushSetServerHost _ s := s
  espushGetServerHost _ := 0
  espushSetHeartbeat _ s := s
  setGpioEdge _ _ s := (0, s)
  espushNetworkCfgBySmartconfig s := s
  sendClearFlashQueue s := s
  createUuid s := (List.replicate 16 0x2A, s)
  uuidToString uuid := uuid.flatMap fun b => (Printf.Arg.x b).text
  wifiStationSetHostname name s := (true, { s with hostname := name })
  wifiStationGetHostname s := s.hostname
  systemAdcRead _ := 0
  gpioInputGet _ := 0
  systemInfo _ := ⟨80, 2, 4, 1, 0, 0, 0, 0, 0, 0⟩
  reset s := { s with config := ⟨0, array32Of [], []⟩, status := STATUS_DISCONNECTED }

/-- The server accepts the device and assigns an appid and an appkey. -/
def accept (appid : UInt32) (appkey : Bytes) (s : State) : State :=
  { s with config := ⟨appid, array32Of appkey, s.config.devid⟩, status := STATUS_CONNECTED }

/-- The connection is lost. -/
def lose (s : State) : State := { s with status := STATUS_DISCONNECTED }

/-- Nothing saved, nothing registered. -/
def blank : State := ⟨none, ⟨0, array32Of [], []⟩, STATUS_DISCONNECTED, []⟩

/-- The device that starts with these libraries. -/
def device : Device State := powerOn services blank

/-- A parameter text without zero bytes, alone in its buffer. -/
def paramOf (s : String) (h : 0 ∉ ascii s) : Param := ⟨ascii s, [], h⟩

end Reference

end EspushAt
