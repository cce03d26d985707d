import EspushAt.Device.Primitives

/-!
# Messages to and from the cloud

`at_recv_push_msg_cb` writes a received message to the UART, `AT+PUSHMSG` sends one
and `AT+PUSH_FLAG` switches the header of received messages on and off. A received
message is a length and a buffer: the callback puts a terminator behind the data to
print it as a string and takes it away again, so one byte more than the length has
to be addressable.
-/

namespace EspushAt

open CString Printf

variable {σ : Type}

/-- A received message: its bytes and the memory behind them. -/
structure RxBuffer where
  data : Bytes
  tail : Bytes
  addressable : tail ≠ []

def RxBuffer.block (b : RxBuffer) : Bytes := b.data ++ b.tail

/-- Length of `dram0_0_seg` in the linker scripts, the data RAM of the chip. -/
def DRAM0_0_SEG_LEN : Nat := 0x14000

/-- A push: a received message whose buffer lies in data RAM. -/
structure Push extends RxBuffer where
  fits : data.length + 1 ≤ DRAM0_0_SEG_LEN

/-- The middle of `at_recv_push_msg_cb`: print the data as a string. -/
def printData (pdata : Ptr) (len : Nat) : AtM σ Unit := do
  let tmp ← load (pdata + len)
  store (pdata + len) 0
  atResponse (← cstring pdata)
  store (pdata + len) tmp

/-- `%d` prints the unsigned length as an `int`. -/
def atRecvPushMsgCb (pdata : Ptr) (len : Nat) : AtM σ Unit := do
  if (← get).suffixFlag ≠ 0 then
    let buf ← osSprintf 16 (ascii "\r\n+MSG,%d:") [.d (Int32.ofNat len)]
    atResponse buf
  printData pdata len
  if (← get).suffixFlag ≠ 0 then
    atResponse (ascii "\r\n")

def atExecPushFlagSwitch : AtM σ Unit := do
  modify fun f => { f with suffixFlag := if f.suffixFlag = 0 then 1 else 0 }
  atResponseOk

variable (S : Services σ)

def espushMsg (buf : Bytes) (len : UInt16) : AtM σ Int8 :=
  request (.espushMsg buf len) (S.espushMsg buf len)

def atSetupCmdPushMessage (pPara : Ptr) : AtM σ Unit := do
  let pPara := pPara + 1
  if ← osStrcmp pPara (ascii "\r\n") then
    atResponseError
  else
    -- `size_t` subtraction, then truncation to the `uint16` parameter
    let len := UInt32.ofNat (← osStrlen pPara) - UInt32.ofNat (ascii "\r\n").length
    let iRet ← espushMsg S (← memFrom pPara) len.toUInt16
    if iRet = 0 then
      atResponseOk
    else if iRet = 1 then
      atResponse (ascii "CACHED\r\n")
    else
      atResponseError

/-! ### Receiving -/

/-- The header written in front of a message of `len` bytes. -/
def msgHeader (len : Nat) : Bytes :=
  format (ascii "\r\n+MSG,%d:") [.d (Int32.ofNat len)]

/-- The calls made for a message: its string, between header and line end when the
flag is on. There are none where the header overflows its array. -/
def recvCalls (suffixFlag : UInt8) (data : Bytes) : Option (List Call) :=
  if suffixFlag = 0 then some [.atResponse (text data)]
  else if (msgHeader data.length).length < 16 then
    some [.atResponse (msgHeader data.length), .atResponse (text data), .atResponse (ascii "\r\n")]
  else none

/-- The terminator goes behind the data, the string is printed, and the byte that
stood there comes back. -/
theorem run_printData {f : Frame σ} {data tail : Bytes} {b : UInt8}
    (hmem : f.mem = data ++ b :: tail) :
    (printData 0 data.length).run f =
      some ((), { f with calls := f.calls ++ [.atResponse (text data)] }) := by
  have hload : f.mem[data.length]? = some b := by simp [hmem]
  have hlt : data.length < f.mem.length := by simp [hmem]
  have hstored : f.mem.set data.length 0 = data ++ 0 :: tail := by simp [hmem]
  have hread := run_cstring (f := { f with mem := data ++ 0 :: tail }) (p := 0)
    (read?_append_zero data tail)
  have hrestore : (data ++ 0 :: tail).set data.length b = f.mem := by simp [hmem]
  have hback := run_store (f := { f with
      mem := data ++ 0 :: tail
      calls := f.calls ++ [.atResponse (text data)] }) (p := data.length) b (by simp)
  simp only [printData, Nat.zero_add, StateT.run_bind, run_load hload, Option.bind_eq_bind,
    Option.bind_some, run_store 0 hlt, hstored, hread, run_atResponse, hback, hrestore]

theorem invoke_atRecvPushMsgCb (b : RxBuffer) (d : Device σ) :
    invoke (atRecvPushMsgCb 0 b.data.length) b.block d =
      (recvCalls d.suffixFlag b.data).map fun calls => ⟨d, b.block, calls⟩ := by
  obtain ⟨t, tail, htail⟩ := List.exists_cons_of_ne_nil b.addressable
  have hmem : b.block = b.data ++ t :: tail := by rw [RxBuffer.block, htail]
  by_cases hflag : d.suffixFlag = 0
  · have hprint := run_printData (f := ⟨d, b.block, []⟩) hmem
    simp [invoke, atRecvPushMsgCb, recvCalls, hflag, hprint]
  · have hprint := run_printData
      (f := ⟨d, b.block, [.atResponse (msgHeader b.data.length)]⟩) hmem
    by_cases hfits : (msgHeader b.data.length).length < 16
    · have hheader : (osSprintf 16 (ascii "\r\n+MSG,%d:") [.d (Int32.ofNat b.data.length)]).run
          ⟨d, b.block, []⟩ = some (msgHeader b.data.length, ⟨d, b.block, []⟩) :=
        run_osSprintf_of_lt hfits
      simp [invoke, atRecvPushMsgCb, recvCalls, hflag, hheader, hfits, hprint]
    · have hheader := run_osSprintf_of_le (f := ⟨d, b.block, []⟩) (Nat.not_lt.mp hfits)
      simp [invoke, atRecvPushMsgCb, recvCalls, hflag, hheader, hfits]

theorem Push.length_lt (m : Push) : m.data.length < 0x14000 := m.fits

/-- The length of a message in data RAM is printed without a sign. -/
theorem Push.msgHeader_eq (m : Push) :
    msgHeader m.data.length = ascii "\r\n+MSG," ++ Decimal.decimal m.data.length ++ ascii ":" := by
  have hlt : m.data.length < 2 ^ 31 := m.length_lt.trans (by decide)
  have hint : (Int32.ofNat m.data.length).toInt = m.data.length := Int32.toInt_ofNat_of_lt hlt
  change ascii "\r\n+MSG," ++ (Arg.text (.d (Int32.ofNat m.data.length)) ++ ascii ":") = _
  rw [Arg.text, hint, Decimal.decimalInt, if_neg (by omega), Int.natAbs_natCast,
    List.append_assoc]

theorem Push.msgHeader_fits (m : Push) : (msgHeader m.data.length).length < 16 := by
  have hdigits : (Decimal.decimal m.data.length).length ≤ 5 := by
    apply Decimal.length_decimal_le (by decide)
    exact m.length_lt.trans (by decide)
  rw [m.msgHeader_eq, List.length_append, List.length_append,
    show (ascii "\r\n+MSG,").length = 7 from rfl, show (ascii ":").length = 1 from rfl]
  omega

theorem recvCalls_atResponse {suffixFlag : UInt8} {data : Bytes} {calls : List Call}
    (h : recvCalls suffixFlag data = some calls) : ∀ c ∈ calls, ∃ str, c = .atResponse str := by
  rw [recvCalls] at h
  split_ifs at h <;> obtain rfl := Option.some.inj h <;> simp

theorem Push.exists_recvCalls (m : Push) (suffixFlag : UInt8) :
    ∃ calls, recvCalls suffixFlag m.data = some calls := by
  rw [recvCalls]
  split_ifs with hflag hfits
  · exact ⟨_, rfl⟩
  · exact ⟨_, rfl⟩
  · exact absurd m.msgHeader_fits hfits

/-! ### Sending -/

variable {S}

/-- The last line `AT+PUSHMSG` answers for a result of `espush_msg`. -/
def msgResult (iRet : Int8) : Call :=
  if iRet = 0 then .atResponseOk
  else if iRet = 1 then .atResponse (ascii "CACHED\r\n")
  else .atResponseError

theorem msgResult_cases (iRet : Int8) : msgResult iRet = .atResponseOk ∨
    msgResult iRet = .atResponse (ascii "CACHED\r\n") ∨ msgResult iRet = .atResponseError := by
  rw [msgResult]
  split_ifs
  · exact .inl rfl
  · exact .inr (.inl rfl)
  · exact .inr (.inr rfl)

/-- The length `AT+PUSHMSG` passes for a parameter text of `n` bytes. -/
def pushLen (n : Nat) : UInt16 := (UInt32.ofNat n - 2).toUInt16

theorem pushLen_toNat (n : Nat) : (pushLen n).toNat = (n + (2 ^ 16 - 2)) % 2 ^ 16 := by
  simp only [pushLen, UInt32.toNat_toUInt16, UInt32.toNat_sub, UInt32.toNat_ofNat']
  simp only [show (2 : UInt32).toNat = 2 from rfl]
  omega

theorem invoke_atSetupCmdPushMessage_of_empty {p : Param} (h : p.text = ascii "\r\n")
    (d : Device σ) :
    invoke (atSetupCmdPushMessage S 0) p.block d = some ⟨d, p.block, [.atResponseError]⟩ := by
  have hread : read? (p.block.drop 1) = some p.text := read?_of_notMem p.noNul p.rest
  have hcmp := run_osStrcmp (f := ⟨d, p.block, []⟩) (ascii "\r\n") hread
  simp [invoke, atSetupCmdPushMessage, hcmp, h]

/-- Any other parameter is sent, under a length that is two less than its own. -/
theorem invoke_atSetupCmdPushMessage {p : Param} (h : p.text ≠ ascii "\r\n") {d : Device σ}
    {iRet : Int8} {svc : σ}
    (hanswer : S.espushMsg (p.text ++ 0 :: p.rest) (pushLen p.text.length) d.svc = (iRet, svc)) :
    invoke (atSetupCmdPushMessage S 0) p.block d = some ⟨{ d with svc := svc }, p.block,
      [.espushMsg (p.text ++ 0 :: p.rest) (pushLen p.text.length) iRet, msgResult iRet]⟩ := by
  have hread : read? (p.block.drop 1) = some p.text := read?_of_notMem p.noNul p.rest
  have hcmp := run_osStrcmp (f := ⟨d, p.block, []⟩) (ascii "\r\n") hread
  have hlen := run_osStrlen (f := ⟨d, p.block, []⟩) hread
  have hbuf : p.block.drop 1 = p.text ++ 0 :: p.rest := rfl
  have htwo : UInt32.ofNat (ascii "\r\n").length = 2 := rfl
  have hpush : (UInt32.ofNat p.text.length - 2).toUInt16 = pushLen p.text.length := rfl
  simp only [invoke, atSetupCmdPushMessage, Nat.zero_add, StateT.run_bind, hcmp,
    Option.bind_eq_bind, Option.bind_some, decide_eq_false h, Bool.false_eq_true,
    if_false, hlen, htwo, run_memFrom, hbuf, espushMsg, run_request, hpush, hanswer]
  by_cases hok : iRet = 0
  · simp [msgResult, hok]
  · by_cases hcached : iRet = 1 <;> simp [msgResult, hok, hcached]

theorem invoke_atExecPushFlagSwitch (mem : Bytes) (d : Device σ) :
    invoke atExecPushFlagSwitch mem d =
      some ⟨{ d with suffixFlag := if d.suffixFlag = 0 then 1 else 0 }, mem,
        [.atResponseOk]⟩ := rfl

end EspushAt
