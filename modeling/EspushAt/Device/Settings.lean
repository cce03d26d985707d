import EspushAt.Device.Primitives

/-!
# Settings, queries and pins

The remaining command handlers: setting and querying a value of the libraries or the
SDK, and the edge detection of the pins. A query formats its value into a local array
of fixed size; every such array is large enough, which the equation of each handler
records by not failing.
-/

namespace EspushAt

open CString Printf

variable {σ : Type} (S : Services σ)

/-- The pins of `gl_gpio_map`; the other columns of the table are not read. -/
def glGpioMap : List UInt8 := [0, 1, 2, 3, 4, 5, 9, 10, 12, 13, 14, 15]

/-- The number a setup command reads behind the `=`. -/
def paramInt (pPara : Ptr) : AtM σ Int32 := do return S.atoi (← cstring (pPara + 1))

/-! ### Setup commands -/

def atSetupServerHost (pPara : Ptr) : AtM σ Unit := do
  let addr := (← paramInt S pPara).toUInt32
  perform (.espushSetServerHost addr) (S.espushSetServerHost addr)
  atResponseOk

def setGpioEdge (pin edge : UInt8) : AtM σ UInt8 :=
  request (.setGpioEdge pin edge) (S.setGpioEdge pin edge)

/-- The body `at_setupGPIOEdgeLow` and `at_setupGPIOEdgeHigh` share. -/
def atSetupGPIOEdge (edge : UInt8) (pPara : Ptr) : AtM σ Unit := do
  let pin := (← paramInt S pPara).toUInt32.toUInt8
  let maxPin := glGpioMap.getLast (by decide)
  if pin > maxPin then
    atResponseError
  else if (← setGpioEdge S pin edge) ≠ 0 then
    atResponseError
  else
    atResponseOk

def atSetupGPIOEdgeLow (pPara : Ptr) : AtM σ Unit := atSetupGPIOEdge S 0 pPara

def atSetupGPIOEdgeHigh (pPara : Ptr) : AtM σ Unit := atSetupGPIOEdge S 1 pPara

/-- The result of `wifi_station_set_hostname` is not looked at. -/
def atSetupHostName (pPara : Ptr) : AtM σ Unit := do
  let name ← cstring (pPara + 1)
  let _ ← request (.wifiStationSetHostname name) (S.wifiStationSetHostname name)
  atResponseOk

def atSetupInterval (pPara : Ptr) : AtM σ Unit := do
  let interval := (← paramInt S pPara).toUInt32.toUInt8
  if interval < 30 then
    atResponseError
  else
    let sec := Int32.ofNat interval.toNat
    perform (.espushSetHeartbeat sec) (S.espushSetHeartbeat sec)
    atResponseOk

/-! ### Exec commands -/

def atExecNetworkCfgTouch : AtM σ Unit := do
  perform .espushNetworkCfgBySmartconfig S.espushNetworkCfgBySmartconfig
  atResponseOk

def atExecListOfflineMsg : AtM σ Unit := do
  perform .sendClearFlashQueue S.sendClearFlashQueue
  atResponseOk

/-! ### Queries -/

def atQueryCmdPushStatus : AtM σ Unit := do
  let status ← query S.espushServerConnectStatus
  let buf ← osSprintf 8 (ascii "%d\n") [.d status.toInt32]
  atResponse buf
  atResponseOk

def atQueryServerHost : AtM σ Unit := do
  let host ← query S.espushGetServerHost
  let outStr ← osSprintf 16 (ascii "%d") [.d host.toInt32]
  atResponse outStr
  atResponseOk

def atQueryADCU : AtM σ Unit := do
  let adc ← query S.systemAdcRead
  let buf ← osSprintf 16 (ascii "%d\r\n") [.d adc.toUInt32.toInt32]
  atResponse buf
  atResponseOk

/-- `appkey` is copied into an array of 33 bytes, the last of them zero. -/
def atQueryEspushApps : AtM σ Unit := do
  if (← query S.espushServerConnectStatus) = STATUS_CONNECTED then
    let pcfg ← query S.espushGetPushcfg
    let appkey := pcfg.appkey.val ++ [0]
    let out ← osSprintf 64 (ascii "+ID:%d\r\n+KEY:%s\r\n") [.d pcfg.appid.toInt32, .s (text appkey)]
    atResponse out
    atResponseOk
  else
    atResponse (ascii "NOT CONNECTED\r\n")
    atResponseOk

def atQueryHostname : AtM σ Unit := do
  let hostname ← query S.wifiStationGetHostname
  atResponse hostname
  atResponseOk

/-- The macro `GPIO_INPUT_GET`. -/
def gpioInputGet (input : UInt32) (pin : UInt8) : UInt32 := (input >>> pin.toUInt32) &&& 1

/-- One `0` or `1` for each pin of the table. -/
def gpioLevels (input : UInt32) : Bytes :=
  glGpioMap.map fun pin => if 1 &&& gpioInputGet input pin ≠ 0 then 0x31 else 0x30

def atQueryGpio : AtM σ Unit := do
  let gpios := gpioLevels (← query S.gpioInputGet)
  atResponse gpios
  atResponse (ascii "\r\n")
  atResponseOk

def infoFormat : Bytes :=
  ascii ("CPU freq: [%d]\r\n" ++ "Flash map: [%d]\r\n" ++ "Flash id: [%d]\r\n" ++
    "Boot version: [%d]\r\n" ++ "Boot mode: [%d]\r\n" ++ "Chip id: [%d]\r\n" ++
    "App current: [%d]\r\n" ++ "Sys time: [%d]\r\n" ++ "Rtc time: [%d]\r\n" ++
    "Free memory: [%d]\r\n")

def infoArgs (info : SystemInfo) : List Arg :=
  [.d info.systemGetCpuFreq.toUInt32.toInt32, .d info.systemGetFlashSizeMap.toUInt32.toInt32,
    .d info.spiFlashGetId.toInt32, .d info.systemGetBootVersion.toUInt32.toInt32,
    .d info.systemGetBootMode.toUInt32.toInt32, .d info.systemGetChipId.toInt32,
    .d info.systemGetUserbinAddr.toInt32, .d info.systemGetTime.toInt32,
    .d info.systemGetRtcTime.toInt32, .d info.systemGetFreeHeapSize.toInt32]

def atQueryInfo : AtM σ Unit := do
  let info ← query S.systemInfo
  emit .systemPrintMeminfo
  let out ← osSprintf 256 infoFormat (infoArgs info)
  atResponse out
  atResponseOk

/-! ### What each handler does -/

/-- An 8-bit value takes a sign and three digits at most. -/
theorem length_text_uint8_le (v : UInt8) : (Arg.d v.toUInt32.toInt32).text.length ≤ 4 := by
  have hval : v.toUInt32.toInt32.toInt = v.toNat := by
    change v.toUInt32.toBitVec.toInt = v.toNat
    rw [BitVec.toInt_eq_toNat_bmod, UInt32.toNat_toBitVec, UInt8.toNat_toUInt32]
    exact Int.bmod_eq_of_le (by omega) (by have := v.toNat_lt; omega)
  apply Decimal.length_decimalInt_le (by decide)
  rw [hval, Int.natAbs_natCast]
  have := v.toNat_lt
  omega

theorem length_text_int8_le (v : Int8) : (Arg.d v.toInt32).text.length ≤ 4 := by
  apply Decimal.length_decimalInt_le (by decide)
  rw [Int8.toInt_toInt32]
  have := v.le_toInt
  have := v.toInt_lt
  omega

/-- The reply of a query, as the text its format leaves in the local array. -/
def statusReply (status : Int8) : Bytes := format (ascii "%d\n") [.d status.toInt32]
def serverHostReply (host : UInt32) : Bytes := format (ascii "%d") [.d host.toInt32]
def adcReply (adc : UInt16) : Bytes := format (ascii "%d\r\n") [.d adc.toUInt32.toInt32]
def appsReply (pcfg : PushConfig) : Bytes :=
  format (ascii "+ID:%d\r\n+KEY:%s\r\n") [.d pcfg.appid.toInt32, .s (text (pcfg.appkey.val ++ [0]))]
def infoReply (info : SystemInfo) : Bytes := format infoFormat (infoArgs info)

section Outcome

variable {S} (mem : Bytes) (p : Param) (d : Device σ)

theorem run_paramInt {f : Frame σ} (hmem : f.mem = p.block) :
    (paramInt S 0).run f = some (S.atoi p.text, f) := by
  have hread : read? (f.mem.drop 1) = some p.text := by
    rw [hmem]
    exact read?_of_notMem p.noNul p.rest
  simp [paramInt, run_cstring hread]

theorem invoke_atSetupServerHost :
    invoke (atSetupServerHost S 0) p.block d =
      some ⟨{ d with svc := S.espushSetServerHost (S.atoi p.text).toUInt32 d.svc }, p.block,
        [.espushSetServerHost (S.atoi p.text).toUInt32, .atResponseOk]⟩ := by
  have hint := run_paramInt (S := S) p (f := ⟨d, p.block, []⟩) rfl
  simp [invoke, atSetupServerHost, hint]

/-- The last line a pin command answers for a result of `set_gpio_edge`. -/
def edgeResult (ret : UInt8) : Call := if ret ≠ 0 then .atResponseError else .atResponseOk

theorem edgeResult_cases (ret : UInt8) :
    edgeResult ret = .atResponseError ∨ edgeResult ret = .atResponseOk :=
  ite_eq_or_eq _ _ _

/-- The pin is the low byte of the number typed, tested against the last pin of the
table only. -/
theorem invoke_atSetupGPIOEdge (edge : UInt8) {ret : UInt8} {svc : σ}
    (hret : S.setGpioEdge (S.atoi p.text).toUInt32.toUInt8 edge d.svc = (ret, svc)) :
    invoke (atSetupGPIOEdge S edge 0) p.block d =
      if (S.atoi p.text).toUInt32.toUInt8 > 15 then some ⟨d, p.block, [.atResponseError]⟩
      else some ⟨{ d with svc := svc }, p.block,
        [.setGpioEdge (S.atoi p.text).toUInt32.toUInt8 edge ret, edgeResult ret]⟩ := by
  have hint := run_paramInt (S := S) p (f := ⟨d, p.block, []⟩) rfl
  have hlast : glGpioMap.getLast (by decide) = 15 := rfl
  simp only [invoke, atSetupGPIOEdge, StateT.run_bind, hint, Option.bind_eq_bind,
    Option.bind_some, hlast, setGpioEdge]
  by_cases hpin : (S.atoi p.text).toUInt32.toUInt8 > 15
  · simp [hpin]
  · by_cases hzero : ret = 0 <;> simp [hpin, hret, hzero, edgeResult]

theorem invoke_atSetupHostName {ret : Bool} {svc : σ}
    (hret : S.wifiStationSetHostname p.text d.svc = (ret, svc)) :
    invoke (atSetupHostName S 0) p.block d =
      some ⟨{ d with svc := svc }, p.block,
        [.wifiStationSetHostname p.text ret, .atResponseOk]⟩ := by
  have hread : read? (p.block.drop 1) = some p.text := read?_of_notMem p.noNul p.rest
  have hname := run_cstring (f := ⟨d, p.block, []⟩) hread
  simp [invoke, atSetupHostName, hname, hret]

theorem invoke_atSetupInterval :
    invoke (atSetupInterval S 0) p.block d =
      let interval := (S.atoi p.text).toUInt32.toUInt8
      if interval < 30 then some ⟨d, p.block, [.atResponseError]⟩
      else some ⟨{ d with svc := S.espushSetHeartbeat (Int32.ofNat interval.toNat) d.svc }, p.block,
        [.espushSetHeartbeat (Int32.ofNat interval.toNat), .atResponseOk]⟩ := by
  have hint := run_paramInt (S := S) p (f := ⟨d, p.block, []⟩) rfl
  by_cases hlow : (S.atoi p.text).toUInt32.toUInt8 < 30
  · simp only [invoke, atSetupInterval, StateT.run_bind, hint, Option.bind_eq_bind,
      Option.bind_some, hlow, if_true]
    rfl
  · simp only [invoke, atSetupInterval, StateT.run_bind, hint, Option.bind_eq_bind,
      Option.bind_some, hlow, if_false]
    rfl

theorem invoke_atExecNetworkCfgTouch :
    invoke (atExecNetworkCfgTouch S) mem d =
      some ⟨{ d with svc := S.espushNetworkCfgBySmartconfig d.svc }, mem,
        [.espushNetworkCfgBySmartconfig, .atResponseOk]⟩ := rfl

theorem invoke_atExecListOfflineMsg :
    invoke (atExecListOfflineMsg S) mem d =
      some ⟨{ d with svc := S.sendClearFlashQueue d.svc }, mem,
        [.sendClearFlashQueue, .atResponseOk]⟩ := rfl

/-! The arrays of the queries are large enough for every value. -/

theorem length_statusReply_lt (status : Int8) : (statusReply status).length < 8 :=
  length_format_d_lt (length_text_int8_le status) (by decide)

theorem length_serverHostReply_lt (host : UInt32) : (serverHostReply host).length < 16 :=
  length_format_d_lt (length_text_d_le host.toInt32) (by decide)

theorem length_adcReply_lt (adc : UInt16) : (adcReply adc).length < 16 :=
  length_format_d_lt (length_text_d_le adc.toUInt32.toInt32) (by decide)

theorem length_appsReply_lt (pcfg : PushConfig) : (appsReply pcfg).length < 64 := by
  have hfmt := length_format_le (ascii "+ID:%d\r\n+KEY:%s\r\n")
    [.d pcfg.appid.toInt32, .s (text (pcfg.appkey.val ++ [0]))]
  have hid := length_text_d_le pcfg.appid.toInt32
  have hkey : (text (pcfg.appkey.val ++ [0])).length ≤ 32 := by
    rw [text_append_zero]
    exact (length_text_le _).trans_eq pcfg.appkey.property
  have hlen : (ascii "+ID:%d\r\n+KEY:%s\r\n").length = 17 := rfl
  have hs : (Arg.s (text (pcfg.appkey.val ++ [0]))).text = text (pcfg.appkey.val ++ [0]) := rfl
  simp only [List.map_cons, List.map_nil, List.sum_cons, List.sum_nil, hs] at hfmt
  rw [appsReply]
  omega

theorem length_infoFormat : infoFormat.length = 171 := by
  simp only [infoFormat, ascii, String.toList_append, List.map_append, List.length_append]
  rfl

theorem length_infoReply_lt (info : SystemInfo) : (infoReply info).length < 256 := by
  have hfmt := length_format_le infoFormat (infoArgs info)
  have hlen := length_infoFormat
  have hbytes := length_text_uint8_le
  have hwords : ∀ v : UInt32, (Arg.d v.toInt32).text.length ≤ 11 := fun v => length_text_d_le _
  simp only [infoArgs, List.map_cons, List.map_nil, List.sum_cons, List.sum_nil] at hfmt
  have h1 := hbytes info.systemGetCpuFreq
  have h2 := hbytes info.systemGetFlashSizeMap
  have h3 := hbytes info.systemGetBootVersion
  have h4 := hbytes info.systemGetBootMode
  have h5 := hwords info.spiFlashGetId
  have h6 := hwords info.systemGetChipId
  have h7 := hwords info.systemGetUserbinAddr
  have h8 := hwords info.systemGetTime
  have h9 := hwords info.systemGetRtcTime
  have h10 := hwords info.systemGetFreeHeapSize
  rw [infoReply, infoArgs]
  omega

theorem invoke_atQueryCmdPushStatus :
    invoke (atQueryCmdPushStatus S) mem d = some ⟨d, mem,
      [.atResponse (statusReply (S.espushServerConnectStatus d.svc)), .atResponseOk]⟩ := by
  have hbuf := run_osSprintf_of_lt (f := ⟨d, mem, []⟩)
    (length_statusReply_lt (S.espushServerConnectStatus d.svc))
  simp [invoke, atQueryCmdPushStatus, hbuf, statusReply]

theorem invoke_atQueryServerHost :
    invoke (atQueryServerHost S) mem d = some ⟨d, mem,
      [.atResponse (serverHostReply (S.espushGetServerHost d.svc)), .atResponseOk]⟩ := by
  have hbuf := run_osSprintf_of_lt (f := ⟨d, mem, []⟩)
    (length_serverHostReply_lt (S.espushGetServerHost d.svc))
  simp [invoke, atQueryServerHost, hbuf, serverHostReply]

theorem invoke_atQueryADCU :
    invoke (atQueryADCU S) mem d = some ⟨d, mem,
      [.atResponse (adcReply (S.systemAdcRead d.svc)), .atResponseOk]⟩ := by
  have hbuf := run_osSprintf_of_lt (f := ⟨d, mem, []⟩) (length_adcReply_lt (S.systemAdcRead d.svc))
  simp [invoke, atQueryADCU, hbuf, adcReply]

theorem invoke_atQueryEspushApps :
    invoke (atQueryEspushApps S) mem d =
      if S.espushServerConnectStatus d.svc = STATUS_CONNECTED then
        some ⟨d, mem, [.atResponse (appsReply (S.espushGetPushcfg d.svc)), .atResponseOk]⟩
      else some ⟨d, mem, [.atResponse (ascii "NOT CONNECTED\r\n"), .atResponseOk]⟩ := by
  have hbuf := run_osSprintf_of_lt (f := ⟨d, mem, []⟩)
    (length_appsReply_lt (S.espushGetPushcfg d.svc))
  by_cases hconn : S.espushServerConnectStatus d.svc = STATUS_CONNECTED
  · simp [invoke, atQueryEspushApps, hconn, hbuf, appsReply, -text_append_zero]
  · simp [invoke, atQueryEspushApps, hconn]

theorem invoke_atQueryHostname :
    invoke (atQueryHostname S) mem d = some ⟨d, mem,
      [.atResponse (S.wifiStationGetHostname d.svc), .atResponseOk]⟩ := rfl

theorem invoke_atQueryGpio :
    invoke (atQueryGpio S) mem d = some ⟨d, mem,
      [.atResponse (gpioLevels (S.gpioInputGet d.svc)), .atResponse (ascii "\r\n"),
        .atResponseOk]⟩ := rfl

theorem invoke_atQueryInfo :
    invoke (atQueryInfo S) mem d = some ⟨d, mem,
      [.systemPrintMeminfo, .atResponse (infoReply (S.systemInfo d.svc)), .atResponseOk]⟩ := by
  have hbuf := run_osSprintf_of_lt (f := ⟨d, mem, [.systemPrintMeminfo]⟩)
    (length_infoReply_lt (S.systemInfo d.svc))
  -- a step closed by definitional unfolding makes the kernel evaluate the whole format
  simp -implicitDefEqProofs [invoke, atQueryInfo, hbuf, infoReply]

end Outcome

end EspushAt
