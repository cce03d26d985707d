import EspushAt.Device.Reference

/-!
# What a callback reads of its buffer

Each callback is given a length and a pointer, and memory that goes on behind the data.
Two of them are bounded by the length. `atcmd_callback` reads a C string, so what the
host sees depends on what stands behind the data unless they contain a zero byte.
-/

namespace EspushAt

open CString

variable {σ : Type}

/-- The bytes of a call on the UART, given the lines libat writes for `OK` and `ERROR`. -/
def Call.onUart (ok error : Bytes) : Call → Bytes
  | .atResponse str => str
  | .atPortPrint str => str
  | .atResponseOk => ok
  | .atResponseError => error
  | _ => []

/-- What the world sees of a callback: the UART, the command lines processed, the chunks
streamed to the cloud and the receive function it leaves behind. -/
structure Seen where
  uart : Bytes
  commands : List Bytes
  streams : List Bytes
  mode : Option RxIntr

def seen (ok error : Bytes) (f : Frame σ) : Seen where
  uart := f.calls.flatMap (Call.onUart ok error)
  commands := f.calls.filterMap fun c => match c with
    | .atCmdProcess cmd => some cmd
    | _ => none
  streams := f.calls.filterMap fun c => match c with
    | .uartStream data => some data
    | _ => none
  mode := f.rxIntr

/-- A callback shows the same for any two memories that agree on the data. -/
def ReadsOnly (callback : Nat → AtM σ Unit) (ok error : Bytes) (d : Device σ) (data : Bytes) :
    Prop :=
  ∀ t t' : Bytes, 0 ∈ t → 0 ∈ t' →
    (invoke (callback data.length) (data ++ t) d).map (seen ok error) =
      (invoke (callback data.length) (data ++ t') d).map (seen ok error)

variable {S : Services σ} {ok error : Bytes} {d : Device σ} {data : Bytes}

theorem readsOnly_atRecvPushMsgCb : ReadsOnly (atRecvPushMsgCb 0) ok error d data := by
  have hrun : ∀ t : Bytes, 0 ∈ t →
      (invoke (atRecvPushMsgCb 0 data.length) (data ++ t) d).map (seen ok error) =
        (recvCalls d.suffixFlag data).map fun calls => seen ok error ⟨d, [], calls⟩ := by
    intro t ht
    have hcalls := invoke_atRecvPushMsgCb ⟨data, t, List.ne_nil_of_mem ht⟩ d
    exact (congrArg (Option.map _) hcalls).trans (Option.map_map _ _ _)
  intro t t' ht ht'
  rw [hrun t ht, hrun t' ht']

theorem readsOnly_atUartTransRxIntr :
    ReadsOnly (atUartTransRxIntr S 0) ok error d data := by
  intro t t' _ _
  rw [invoke_atUartTransRxIntr, invoke_atUartTransRxIntr]
  cases isEscape data <;> rfl

/-- With a zero byte among the data the string ends within them. -/
theorem readsOnly_atcmdCallback (hzero : 0 ∈ data) :
    ReadsOnly (atcmdCallback S 0) ok error d data := by
  intro t t' ht ht'
  rw [invoke_atcmdCallback (List.mem_append_right _ ht),
    invoke_atcmdCallback (List.mem_append_right _ ht'), text_append_of_mem hzero,
    text_append_of_mem hzero]
  cases isAT (text data) with
  | false => rfl
  | true =>
      rw [if_pos rfl, if_pos rfl, Option.map_map, Option.map_map]
      rfl

/-- The callback echoes the whole string first. -/
theorem exists_echo {mem : Bytes} (hnul : 0 ∈ mem) (len : Nat) (d : Device σ) :
    ∃ f more, invoke (atcmdCallback S 0 len) mem d = some f ∧
      f.calls = .atResponse (text mem) :: more := by
  rw [invoke_atcmdCallback hnul, dispatched_eq]
  cases isAT (text mem) with
  | false => exact ⟨_, _, rfl, rfl⟩
  | true => exact ⟨_, _, rfl, rfl⟩

/-- Without one, a byte behind the data is echoed with them. -/
theorem not_readsOnly_atcmdCallback (hzero : 0 ∉ data) :
    ¬ ReadsOnly (atcmdCallback S 0) ok error d data := by
  have hecho : ∀ b : UInt8, b ≠ 0 → ∃ f more,
      invoke (atcmdCallback S 0 data.length) (data ++ [b, 0]) d = some f ∧
        (seen ok error f).uart = data ++ b :: more := by
    intro b hb
    have hnul : 0 ∈ data ++ [b, 0] := by simp
    obtain ⟨f, more, hf, hcalls⟩ := exists_echo (S := S) hnul data.length d
    have htext : text (data ++ [b, 0]) = data ++ [b] := by
      rw [text_append_of_notMem hzero]
      simp [text, hb]
    refine ⟨f, more.flatMap (Call.onUart ok error), hf, ?_⟩
    simp [seen, hcalls, htext, Call.onUart]
  intro hreads
  obtain ⟨f, more, hf, huart⟩ := hecho 0x42 (by decide)
  obtain ⟨f', more', hf', huart'⟩ := hecho 0x43 (by decide)
  have hsame := hreads [0x42, 0] [0x43, 0] (by simp) (by simp)
  rw [hf, hf'] at hsame
  have hbytes := congrArg Seen.uart (Option.some.inj hsame)
  rw [huart, huart'] at hbytes
  have hhead := (List.cons.inj (List.append_cancel_left hbytes)).1
  exact absurd hhead (by decide)

/-- The message and the UART callback read only their data; all three do exactly when the
data contain a zero byte. -/
theorem readsOnly_iff (S : Services σ) (ok error : Bytes) (d : Device σ) (data : Bytes) :
    (ReadsOnly (atRecvPushMsgCb 0) ok error d data ∧
        ReadsOnly (atUartTransRxIntr S 0) ok error d data) ∧
      ((ReadsOnly (atRecvPushMsgCb 0) ok error d data ∧
          ReadsOnly (atcmdCallback S 0) ok error d data ∧
          ReadsOnly (atUartTransRxIntr S 0) ok error d data) ↔ 0 ∈ data) := by
  refine ⟨⟨readsOnly_atRecvPushMsgCb, readsOnly_atUartTransRxIntr⟩, ?_⟩
  constructor
  · rintro ⟨-, hreads, -⟩
    by_contra hzero
    exact not_readsOnly_atcmdCallback hzero hreads
  · intro hzero
    exact ⟨readsOnly_atRecvPushMsgCb, readsOnly_atcmdCallback hzero, readsOnly_atUartTransRxIntr⟩

/-- `AT+PUSHCLOSE` from the cloud, without a terminator. -/
theorem not_readsOnly_pushclose :
    ¬ ReadsOnly (atcmdCallback Reference.services 0) (ascii "\r\nOK\r\n") (ascii "\r\nERROR\r\n")
      Reference.device (ascii "AT+PUSHCLOSE") :=
  not_readsOnly_atcmdCallback (by decide)

end EspushAt
