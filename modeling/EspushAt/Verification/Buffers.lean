import EspushAt.Device.Reference

/-!
# Replies and the arrays they are formatted into

Six handlers format a reply into a local array of fixed size, which `os_sprintf` does not
know. The text fits with its terminator whatever the services return; the header of a
message does because its length is that of a buffer in data RAM.
-/

namespace EspushAt

open CString Printf

variable {σ : Type}

/-- A handler formats its reply in an array of `size` bytes, terminator included, and
writes it. -/
structure FormatsWithin (m : AtM σ Unit) (mem : Bytes) (d : Device σ) (size : Nat) (fmt : Bytes)
    (args : List Arg) : Prop where
  fits : (format fmt args).length + 1 ≤ size
  prints : ∃ f, invoke m mem d = some f ∧ .atResponse (format fmt args) ∈ f.calls

/-- Every handler that formats a reply has an array large enough for it. -/
structure RepliesFit (S : Services σ) (d : Device σ) (mem : Bytes) : Prop where
  status : FormatsWithin (atQueryCmdPushStatus S) mem d 8 (ascii "%d\n")
    [.d (S.espushServerConnectStatus d.svc).toInt32]
  serverHost : FormatsWithin (atQueryServerHost S) mem d 16 (ascii "%d")
    [.d (S.espushGetServerHost d.svc).toInt32]
  adcu : FormatsWithin (atQueryADCU S) mem d 16 (ascii "%d\r\n")
    [.d (S.systemAdcRead d.svc).toUInt32.toInt32]
  apps : Connected S d.svc → FormatsWithin (atQueryEspushApps S) mem d 64
    (ascii "+ID:%d\r\n+KEY:%s\r\n") [.d (S.espushGetPushcfg d.svc).appid.toInt32,
      .s (text ((S.espushGetPushcfg d.svc).appkey.val ++ [0]))]
  info : FormatsWithin (atQueryInfo S) mem d 256 infoFormat (infoArgs (S.systemInfo d.svc))
  header : d.suffixFlag ≠ 0 → ∀ m : Push, FormatsWithin (atRecvPushMsgCb 0 m.data.length) m.block d
    16 (ascii "\r\n+MSG,%d:") [.d (Int32.ofNat m.data.length)]

variable {S : Services σ} {d : Device σ} {mem : Bytes}

theorem formatsWithin_apps (hconn : Connected S d.svc) :
    FormatsWithin (atQueryEspushApps S) mem d 64 (ascii "+ID:%d\r\n+KEY:%s\r\n")
      [.d (S.espushGetPushcfg d.svc).appid.toInt32,
        .s (text ((S.espushGetPushcfg d.svc).appkey.val ++ [0]))] := by
  have hrun := invoke_atQueryEspushApps (S := S) mem d
  rw [if_pos (show S.espushServerConnectStatus d.svc = STATUS_CONNECTED from hconn)] at hrun
  exact ⟨length_appsReply_lt _, _, hrun, List.mem_cons_self⟩

theorem formatsWithin_info :
    FormatsWithin (atQueryInfo S) mem d 256 infoFormat (infoArgs (S.systemInfo d.svc)) := by
  have hfits := length_infoReply_lt (S.systemInfo d.svc)
  have hrun := invoke_atQueryInfo (S := S) mem d
  rw [infoReply] at hfits hrun
  exact ⟨hfits, _, hrun, List.mem_cons_of_mem _ List.mem_cons_self⟩

theorem formatsWithin_header (hflag : d.suffixFlag ≠ 0) (m : Push) :
    FormatsWithin (atRecvPushMsgCb 0 m.data.length) m.block d 16 (ascii "\r\n+MSG,%d:")
      [.d (Int32.ofNat m.data.length)] := by
  have hrun := invoke_atRecvPushMsgCb m.toRxBuffer d
  rw [recvCalls, if_neg hflag, if_pos m.msgHeader_fits] at hrun
  exact ⟨m.msgHeader_fits, _, hrun, List.mem_cons_self⟩

/-- Whatever the services return, every formatted reply fits its array. -/
theorem repliesFit (S : Services σ) (d : Device σ) (mem : Bytes) : RepliesFit S d mem where
  status := ⟨length_statusReply_lt _, _, invoke_atQueryCmdPushStatus mem d, List.mem_cons_self⟩
  serverHost := ⟨length_serverHostReply_lt _, _, invoke_atQueryServerHost mem d, List.mem_cons_self⟩
  adcu := ⟨length_adcReply_lt _, _, invoke_atQueryADCU mem d, List.mem_cons_self⟩
  apps := formatsWithin_apps
  info := formatsWithin_info
  header := formatsWithin_header

end EspushAt
