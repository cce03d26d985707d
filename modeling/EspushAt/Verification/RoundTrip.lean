import EspushAt.Verification.Registration

/-!
# What a query prints, given back to a setup command

`AT+PUSH_APPS` and `AT+ESPUSH_TEST?` print unsigned values with `%d`, so from `2^31` on
with a minus sign, and the setup commands read them with `atoi` into an unsigned variable.
The two wraps undo each other on every 32-bit value.
-/

namespace EspushAt

open CString Decimal Printf

variable {σ : Type}

/-- The ID and KEY fields of a reply, whatever follows it: the ID ends with its line, the
KEY has 32 bytes. -/
def readApps (reply : Bytes) : Option (Bytes × Bytes) := do
  let body ← reply.dropPrefix? (ascii "+ID:")
  let key ← (body.dropWhile (· ≠ 0x0D)).dropPrefix? (ascii "\r\n+KEY:")
  let _ ← (key.drop APPKEY_LENGTH).dropPrefix? (ascii "\r\n")
  return (body.takeWhile (· ≠ 0x0D), key.take APPKEY_LENGTH)

/-- The fields of this reply, given to `AT+PUSH_CUR`, register this appid and appkey and
nothing else. -/
def AppsGivenBack (S : Services σ) (d : Device σ) (reply : Bytes) (appid : UInt32)
    (appkey : Bytes) : Prop :=
  ∀ after rest, ∃ id key, readApps (reply ++ after) = some (id, key) ∧
    ∃ (h : 0 ∉ id ++ 0x2C :: key) (f : Frame σ),
      invoke (atSetupCmdPushRegistCur S 0) (Param.block ⟨id ++ 0x2C :: key, rest, h⟩) d = some f ∧
        ∀ appid' appkey', Registers f.calls appid' appkey' ↔ appid' = appid ∧ appkey' = appkey

/-- This reply, given to `AT+ESPUSH_TEST=`, sets this server host. -/
def HostGivenBack (S : Services σ) (d : Device σ) (reply : Bytes) (addr : UInt32) : Prop :=
  ∀ rest, ∃ (h : 0 ∉ reply) (f : Frame σ),
    invoke (atSetupServerHost S 0) (Param.block ⟨reply, rest, h⟩) d = some f ∧
      f.calls = [.espushSetServerHost addr, .atResponseOk]

variable {S : Services σ}

/-- The two fields and what `AT+PUSH_APPS` puts around them. -/
theorem appsReply_eq {cfg : PushConfig} (hkey : 0 ∉ cfg.appkey.val) :
    appsReply cfg = ascii "+ID:" ++ (decimalInt cfg.appid.toInt32.toInt ++
      (ascii "\r\n+KEY:" ++ (cfg.appkey.val ++ ascii "\r\n"))) := by
  have htext : text (cfg.appkey.val ++ [0]) = cfg.appkey.val := by
    rw [text_append_zero, text_eq_self_iff.mpr hkey]
  rw [appsReply, htext]
  rfl

/-- A host reads the fields back whatever bytes the key has. -/
theorem readApps_appsReply {cfg : PushConfig} (hkey : 0 ∉ cfg.appkey.val) (after : Bytes) :
    readApps (appsReply cfg ++ after) =
      some (decimalInt cfg.appid.toInt32.toInt, cfg.appkey.val) := by
  have hline : ∀ back, ascii "\r\n+KEY:" ++ back = 0x0D :: (ascii "\n+KEY:" ++ back) :=
    fun _ => rfl
  have hid := notMem_decimalInt (b := 0x0D) (by decide) (by decide) cfg.appid.toInt32.toInt
  have hdrop : ∀ pre back : Bytes, (pre ++ back).dropPrefix? pre = some back :=
    fun pre back => List.dropPrefix?_append_of_beq back (beq_self_eq_true pre)
  have htake : ∀ back, (cfg.appkey.val ++ back).take APPKEY_LENGTH = cfg.appkey.val :=
    fun back => List.take_left' cfg.appkey.property
  have hskip : ∀ back, (cfg.appkey.val ++ back).drop APPKEY_LENGTH = back :=
    fun back => List.drop_left' cfg.appkey.property
  rw [appsReply_eq hkey]
  simp only [readApps, List.append_assoc, hdrop, Option.bind_eq_bind, Option.bind_some]
  rw [hline, takeWhile_ne_append hid, dropWhile_ne_append hid, ← hline, hdrop]
  simp only [Option.bind_some, hskip, hdrop, htake]
  rfl

theorem appsGivenBack {cfg : PushConfig} (hid : cfg.appid ≠ 0) (hkey : 0 ∉ cfg.appkey.val)
    (d : Device σ) : AppsGivenBack S d (appsReply cfg) cfg.appid cfg.appkey.val := by
  intro after rest
  have hzero := notMem_decimalInt (b := 0) (by decide) (by decide) cfg.appid.toInt32.toInt
  have hcomma := notMem_decimalInt (b := 0x2C) (by decide) (by decide) cfg.appid.toInt32.toInt
  have hread : S.atoi (decimalInt cfg.appid.toInt32.toInt) = cfg.appid.toInt32 :=
    S.atoi_decimalInt _
  have hwell : cfg.appkey.val.length = 32 ∧ S.atoi (decimalInt cfg.appid.toInt32.toInt) ≠ 0 := by
    refine ⟨cfg.appkey.property, ?_⟩
    rw [hread, Ne, ← toUInt32_eq_zero_iff, UInt32.toUInt32_toInt32]
    exact hid
  have hnul : 0 ∉ decimalInt cfg.appid.toInt32.toInt ++ 0x2C :: cfg.appkey.val := by
    simp [hzero, hkey]
  have hrun := invoke_cur_of_split (S := S) (p := ⟨_, rest, hnul⟩) d rfl hcomma
  rw [if_pos hwell, hread, UInt32.toUInt32_toInt32] at hrun
  refine ⟨_, _, readApps_appsReply hkey after, hnul, _, hrun, ?_⟩
  intro appid' appkey'
  simp [Registers]

theorem hostGivenBack (d : Device σ) (addr : UInt32) :
    HostGivenBack S d (serverHostReply addr) addr := by
  intro rest
  have hreply : serverHostReply addr = decimalInt addr.toInt32.toInt := List.append_nil _
  have hnul : 0 ∉ serverHostReply addr := by
    rw [hreply]
    exact notMem_decimalInt (by decide) (by decide) _
  have hread : S.atoi (serverHostReply addr) = addr.toInt32 := by
    rw [hreply]
    exact S.atoi_decimalInt _
  have hrun := invoke_atSetupServerHost (S := S) ⟨serverHostReply addr, rest, hnul⟩ d
  rw [hread, UInt32.toUInt32_toInt32] at hrun
  exact ⟨hnul, _, hrun, rfl⟩

/-- What `AT+PUSH_APPS` prints of a connected device and what `AT+ESPUSH_TEST?` prints of
the server host give the same values back, to any device that is given them. -/
theorem printed_given_back (S : Services σ) (d d' : Device σ) (mem : Bytes) :
    (∀ cfg, S.espushGetPushcfg d.svc = cfg → Connected S d.svc →
        cfg.appid ≠ 0 → 0 ∉ cfg.appkey.val →
        ∃ f reply, invoke (atQueryEspushApps S) mem d = some f ∧
          f.calls = [.atResponse reply, .atResponseOk] ∧
          AppsGivenBack S d' reply cfg.appid cfg.appkey.val) ∧
      ∀ addr, S.espushGetServerHost d.svc = addr →
        ∃ f reply, invoke (atQueryServerHost S) mem d = some f ∧
          f.calls = [.atResponse reply, .atResponseOk] ∧ HostGivenBack S d' reply addr := by
  constructor
  · rintro cfg rfl hconn hid hkey
    have hstatus : S.espushServerConnectStatus d.svc = STATUS_CONNECTED := hconn
    have hrun := invoke_atQueryEspushApps (S := S) mem d
    rw [if_pos hstatus] at hrun
    exact ⟨_, _, hrun, rfl, appsGivenBack hid hkey d'⟩
  · rintro addr rfl
    exact ⟨_, _, invoke_atQueryServerHost mem d, rfl, hostGivenBack d' _⟩

namespace Reference

/-- An appid that prints as -1 and a key with a comma in it. -/
def printed : PushConfig := ⟨0xFFFFFFFF, array32Of (ascii "a,b" ++ List.replicate 29 0x4B), []⟩

/-- A device connected under them. -/
def printedDevice : Device State :=
  { device with svc := { blank with config := printed, status := STATUS_CONNECTED } }

end Reference

theorem printed_given_back_comma :
    ∃ f reply, invoke (atQueryEspushApps Reference.services) [] Reference.printedDevice = some f ∧
      f.calls = [.atResponse reply, .atResponseOk] ∧
      AppsGivenBack Reference.services Reference.device reply Reference.printed.appid
        Reference.printed.appkey.val :=
  (printed_given_back Reference.services Reference.printedDevice Reference.device []).1
    Reference.printed rfl rfl (by decide) (by decide)

end EspushAt
