import EspushAt.Device.Primitives

/-!
# Transparent mode

`AT+UARTRANS` hands the UART's receive interrupt to `at_uart_trans_rx_intr`, which
passes every chunk on to the cloud until one begins with `+++`. A chunk is whatever
the interrupt delivers at once; nothing is kept from one chunk to the next.
-/

namespace EspushAt

open CString

variable {σ : Type} (S : Services σ)

/-- `uart_stream` reads exactly the bytes it is given. -/
def uartStream (data : Ptr) (len : Nat) : AtM σ Unit := do
  let bytes ← bytesAt data len
  perform (.uartStream bytes) (S.uartStream bytes)

/-- `len >= 3 && os_memcmp(data, "+++", 3) == 0`: a shorter chunk is not compared. -/
def escapeTest (data : Ptr) (len : Nat) : AtM σ Bool :=
  if 3 ≤ len then osMemcmp data (ascii "+++") else pure false

def atUartTransRxIntr (data : Ptr) (len : Nat) : AtM σ Unit := do
  if ← escapeTest data len then
    atRegisterUartRxIntr none
    atResponse (ascii "\r\nOK\r\n")
  else
    uartStream S data len

def atExecUartTrans : AtM σ Unit := do
  if (← query S.espushServerConnectStatus) ≠ 2 then
    atResponse (ascii "NOT CONNECTED\r\n")
    atResponseOk
  else
    atRegisterUartRxIntr (some .atUartTransRxIntr)
    atResponse (ascii ">")

/-- The receive interrupt of libat: a chunk goes whole to the registered function,
or to AT processing when there is none. -/
def uartRx (len : Nat) : AtM σ Unit := do
  match (← get).rxIntr with
  | some .atUartTransRxIntr => atUartTransRxIntr S 0 len
  | none => emit (.atRx (← bytesAt 0 len))

/-- Chunks that `at_uart_trans_rx_intr` takes for the escape. -/
def isEscape (chunk : Bytes) : Bool := (ascii "+++").isPrefixOf chunk

theorem isEscape_iff {chunk : Bytes} : isEscape chunk = true ↔ ascii "+++" <+: chunk :=
  List.isPrefixOf_iff_prefix

theorem not_isEscape_of_short {chunk : Bytes} (h : chunk.length < 3) :
    isEscape chunk = false := by
  rw [Bool.eq_false_iff, Ne, isEscape_iff]
  intro hpre
  have : 3 ≤ chunk.length := hpre.length_le
  omega

/-- The test for the escape looks at the chunk only, never at what follows it. -/
theorem run_escapeTest (data tail : Bytes) {f : Frame σ} (hmem : f.mem = data ++ tail) :
    (escapeTest 0 data.length).run f = some (isEscape data, f) := by
  rw [escapeTest]
  by_cases hlen : 3 ≤ data.length
  · have hfits : (ascii "+++").length ≤ (f.mem.drop 0).length := by
      rw [hmem, List.drop_zero, List.length_append]
      exact Nat.le_trans hlen (Nat.le_add_right _ _)
    have htake : (f.mem.drop 0).take (ascii "+++").length = data.take (ascii "+++").length := by
      rw [hmem, List.drop_zero]
      exact List.take_append_of_le_length hlen
    have htest : decide (data.take (ascii "+++").length = ascii "+++") = isEscape data := by
      rw [Bool.eq_iff_iff, isEscape_iff, List.prefix_iff_eq_take, decide_eq_true_iff]
      exact eq_comm
    rw [if_pos hlen, run_osMemcmp hfits, htake, htest]
  · rw [if_neg hlen, not_isEscape_of_short (Nat.not_le.mp hlen)]
    rfl

variable {S}

theorem invoke_atUartTransRxIntr (data tail : Bytes) (d : Device σ) :
    invoke (atUartTransRxIntr S 0 data.length) (data ++ tail) d =
      if isEscape data then
        some ⟨{ d with rxIntr := none }, data ++ tail,
          [.atRegisterUartRxIntr none, .atResponse (ascii "\r\nOK\r\n")]⟩
      else
        some ⟨{ d with svc := S.uartStream data d.svc }, data ++ tail, [.uartStream data]⟩ := by
  have htest := run_escapeTest data tail (f := ⟨d, data ++ tail, []⟩) rfl
  by_cases hesc : isEscape data = true
  · simp only [invoke, atUartTransRxIntr, StateT.run_bind, htest, hesc, Option.bind_eq_bind,
      Option.bind_some, if_true, run_atRegisterUartRxIntr, run_atResponse]
    rfl
  · have hbytes : (bytesAt 0 data.length : AtM σ Bytes).run ⟨d, data ++ tail, []⟩ =
        some (data, ⟨d, data ++ tail, []⟩) := by
      rw [run_bytesAt (by simp)]
      simp
    simp only [invoke, atUartTransRxIntr, uartStream, StateT.run_bind, htest, hesc,
      Option.bind_eq_bind, Option.bind_some, if_false, Bool.false_eq_true, hbytes, run_perform]
    rfl

theorem invoke_atExecUartTrans (mem : Bytes) (d : Device σ) :
    invoke (atExecUartTrans S) mem d =
      if S.espushServerConnectStatus d.svc = STATUS_CONNECTED then
        some ⟨{ d with rxIntr := some .atUartTransRxIntr }, mem,
          [.atRegisterUartRxIntr (some .atUartTransRxIntr), .atResponse (ascii ">")]⟩
      else some ⟨d, mem, [.atResponse (ascii "NOT CONNECTED\r\n"), .atResponseOk]⟩ := by
  by_cases hconn : S.espushServerConnectStatus d.svc = 2 <;>
    simp [invoke, atExecUartTrans, hconn]

/-- What one interrupt does, in either mode. -/
theorem invoke_uartRx (data : Bytes) (d : Device σ) :
    invoke (uartRx S data.length) data d =
      match d.rxIntr with
      | none => some ⟨d, data, [.atRx data]⟩
      | some .atUartTransRxIntr =>
          if isEscape data then
            some ⟨{ d with rxIntr := none }, data,
              [.atRegisterUartRxIntr none, .atResponse (ascii "\r\nOK\r\n")]⟩
          else
            some ⟨{ d with svc := S.uartStream data d.svc }, data, [.uartStream data]⟩ := by
  cases hrx : d.rxIntr with
  | none =>
      have hbytes : (bytesAt 0 data.length : AtM σ Bytes).run ⟨d, data, []⟩ =
          some (data, ⟨d, data, []⟩) := by
        rw [run_bytesAt (by simp)]
        simp
      simp [invoke, uartRx, hrx, hbytes]
  | some rx =>
      cases rx with
      | atUartTransRxIntr =>
          have htrans := invoke_atUartTransRxIntr (S := S) data [] d
          rw [List.append_nil] at htrans
          simpa [invoke, uartRx, hrx] using htrans

end EspushAt
