import EspushAt.Foundations.Machine
import EspushAt.Verification.Identity
import EspushAt.Verification.Numbers

/-!
# Commands in whole runs

What holds of a run whatever its events are. Queries and received messages can be left
out without a trace. Every call with an effect outside the firmware was warranted by the
command that made it and by the state that command met, and the flash is written once for
each command that has something to save.
-/

namespace EspushAt

open CString Transition

variable {σ : Type} (S : Services σ)

/-! ### Queries leave no trace -/

/-- The handlers in the query column of the table. -/
def queryHandlers : List Handler := atCustomCmd.filterMap AtFunctionType.atQueryCmd

/-- Events that only ask or only print: received messages, queries from either side, and
lines from the cloud that dispatch nothing. -/
def observes (e : Event σ) : Bool :=
  match e with
  | .push _ => true
  | .uart _ | .network _ | .restart => false
  | e =>
      match commandOf S e with
      | none => true
      | some (h, _) => queryHandlers.contains h

variable {S} {d : Device σ} {e : Event σ} {f : Frame σ}

theorem outcome_of_query {h : Handler} (hquery : h ∈ queryHandlers) (p : Param) (d : Device σ) :
    (outcome S p d h).1 = d := by
  cases h with
  | atQueryEspushApps =>
      rw [outcome]
      split_ifs <;> rfl
  | atQueryCmdPushStatus => rfl
  | atQueryADCU => rfl
  | atQueryHostname => rfl
  | atQueryGpio => rfl
  | atQueryInfo => rfl
  | atQueryServerHost => rfl
  | _ => exact absurd hquery (by decide)

theorem observes_of_command {h : Handler} {p : Param} (hcommand : commandOf S e = some (h, p)) :
    observes S e = queryHandlers.contains h := by
  cases e with
  | command h' p' =>
      obtain ⟨rfl, -⟩ := Prod.mk.inj (Option.some.inj hcommand)
      rfl
  | cloud b => simp only [observes, hcommand]
  | _ => simp [commandOf] at hcommand

theorem toDevice_of_observes (hobserves : observes S e = true) (hstep : step S d e = some f) :
    f.toDevice = d := by
  cases step_response hstep with
  | @command _ h p mem hcommand =>
      rw [observes_of_command hcommand] at hobserves
      exact outcome_of_query (List.contains_iff_mem.mp hobserves) p d
  | unknown hcommand => rfl
  | push hprints => rfl
  | _ => simp [observes] at hobserves

/-- Of the events that only observe any can be left out of any run, each in its own place:
the other steps start and end in the same states and make the same calls, and so does the
whole run. -/
theorem run_without_observing (S : Services σ) (d : Device σ) {es es' : List (Event σ)}
    (herased : Erased (fun e => observes S e = true) es es') :
    ∃ steps steps', run S d es = some steps ∧ run S d es' = some steps' ∧
      Erased (fun r => observes S r.event = true) steps steps' ∧
      final Frame.toDevice d steps' = final Frame.toDevice d steps := by
  obtain ⟨steps, hrun⟩ := exists_run (S := S) d es
  obtain ⟨steps', hrun', hkept⟩ := erased_of_trace (fun _ _ _ => toDevice_of_observes) herased hrun
  exact ⟨steps, steps', hrun, hrun', hkept⟩

/-- Of two equal queries the first is left out. -/
theorem run_without_observing_query : ∃ steps steps',
    run Reference.services Reference.device [.command .atQueryGpio Reference.noParam,
      .command .atExecPushFlagSwitch Reference.noParam,
      .command .atQueryGpio Reference.noParam] = some steps ∧
    run Reference.services Reference.device [.command .atExecPushFlagSwitch Reference.noParam,
      .command .atQueryGpio Reference.noParam] = some steps' ∧
    Erased (fun r => observes Reference.services r.event = true) steps steps' ∧
    final Frame.toDevice Reference.device steps' = final Frame.toDevice Reference.device steps :=
  run_without_observing _ _ (.drop (by decide) (.keep _ (.keep _ .nil)))

/-! ### Warrants -/

/-- The command of an event, whoever sent it, runs this handler. -/
def Runs (S : Services σ) (e : Event σ) (h : Handler) : Prop := ∃ p, commandOf S e = some (h, p)

/-- The configuration a registration from flash would find: after a restart the one that
the restart left. -/
def configFor (S : Services σ) (d : Device σ) : Event σ → Option EspushCfg
  | .restart => S.readEspushCfg (S.reset d.svc)
  | _ => S.readEspushCfg d.svc

/-- What a registration needs: an identity `AT+PUSH_CUR` accepts, the appid and the first
32 bytes of the key of `AT+PUSH_DEF`, or the identity in flash. Of a key with fewer bytes
the terminator is taken too, and nothing is asked of what follows. -/
inductive MayRegister (S : Services σ) (d : Device σ) (e : Event σ) (appid : UInt32)
    (appkey : Bytes) : Prop where
  | pushCur {p : Param} {a : Bytes}
      (hcommand : commandOf S e = some (.atSetupCmdPushRegistCur, p))
      (htext : p.text = a ++ 0x2C :: appkey) (hfirst : 0x2C ∉ a) (hkey : appkey.length = 32)
      (hid : appid = (S.atoi a).toUInt32) (hne : appid ≠ 0)
  | pushDef {p : Param} {a k : Bytes}
      (hcommand : commandOf S e = some (.atSetupCmdPushRegistDef, p))
      (htext : p.text = a ++ 0x2C :: k) (hfirst : 0x2C ∉ a)
      (hid : appid = (S.atoi a).toUInt32) (hlong : 32 ≤ k.length → appkey = k.take 32)
      (hshort : k.length < 32 → k ++ [0] <+: appkey)
  | flash {cfg : EspushCfg} (hcommand : Runs S e .atExecPushInitial ∨ e = .restart)
      (hread : configFor S d e = some cfg) (hid : appid = cfg.appId)
      (hkey : appkey = cfg.appkey.val)

/-- What a save needs: `AT+PUSH_DEF` with an identity it may register, or `AT+PUSH_SAVE`
over the connection whose identity it keeps. -/
inductive MaySave (S : Services σ) (d : Device σ) (e : Event σ) (appid : UInt32)
    (appkey devid : Bytes) : Prop where
  | pushDef (hcommand : Runs S e .atSetupCmdPushRegistDef)
      (hregister : MayRegister S d e appid appkey) (hdevid : devid = AT_DEV_ANONYMOUS)
  | pushSave (hcommand : Runs S e .atExecEspushSave) (hconn : Connected S d.svc)
      (hid : appid = (S.espushGetPushcfg d.svc).appid)
      (hkey : appkey = (S.espushGetPushcfg d.svc).appkey.val)
      (hdevid : devid = AT_PLUS_SINGLE_DEVICES)

/-- The edge a pin command passes. -/
def edgeOf : Handler → Option UInt8
  | .atSetupGPIOEdgeLow => some 0
  | .atSetupGPIOEdgeHigh => some 1
  | _ => none

/-- What a call needs of the event that made it and of the state that event met. A number
is asked to be the one given where that fits a byte, and the length of a message to be
its text without the line end where that fits 16 bits. -/
def Warranted (S : Services σ) (d : Device σ) (e : Event σ) : Call → Prop
  | .espushRegister appid appkey devid type _ =>
      MayRegister S d e appid appkey ∧ devid = AT_DEV_ANONYMOUS ∧ type = .VER_AT
  | .saveEspushCfg appid appkey devid => MaySave S d e appid appkey devid
  | .espushUnregister => Runs S e .atExecUnPushRegist
  | .espushSingleDeviceInit devid type _ => Runs S e .atExecEspushInit ∧
      devid = S.uuidToString (S.createUuid d.svc).1 ∧ type = .VER_AT
  | .espushMsg buf len _ => ∃ p, commandOf S e = some (.atSetupCmdPushMessage, p) ∧
      p.text ≠ ascii "\r\n" ∧ p.text <+: buf ∧
      (2 ≤ p.text.length → p.text.length < 2 ^ 16 + 2 → len.toNat + 2 = p.text.length)
  | .uartStream data => e = .uart data ∧ d.rxIntr ≠ none ∧ isEscape data = false
  | .atRx data => e = .uart data ∧ d.rxIntr = none
  | .atRegisterUartRxIntr none => d.rxIntr ≠ none ∧ ∃ data, e = .uart data ∧ isEscape data = true
  | .atRegisterUartRxIntr (some _) => Runs S e .atExecUartTrans ∧ Connected S d.svc
  | .espushSetServerHost addr => ∃ p, commandOf S e = some (.atSetupServerHost, p) ∧
      addr = (S.atoi p.text).toUInt32
  | .espushSetHeartbeat sec => ∃ p, commandOf S e = some (.atSetupInterval, p) ∧
      30 ≤ sec.toInt ∧ ∀ n : Nat, p.Gives n → n < 256 → sec.toInt = n
  | .setGpioEdge pin edge _ => ∃ h p, commandOf S e = some (h, p) ∧ edgeOf h = some edge ∧
      pin ≤ 15 ∧ ∀ n : Nat, p.Gives n → n < 256 → pin.toNat = n
  | .espushNetworkCfgBySmartconfig => Runs S e .atExecNetworkCfgTouch
  | .sendClearFlashQueue => Runs S e .atExecListOfflineMsg
  | .wifiStationSetHostname name _ => ∃ p, commandOf S e = some (.atSetupHostName, p) ∧
      name = p.text
  | .systemPrintMeminfo => Runs S e .atQueryInfo
  | .atCmdProcess cmd => ∃ b, e = .cloud b ∧ text b.block = ascii "AT" ++ cmd
  | .atCustomLinkMax _ | .atInit | .atSetCustomInfo _ | .atPortPrint _ | .atCmdArrayRegist _
  | .espushUartStreamCb | .espushAtcmdCb => e = .restart
  | .atResponse _ | .atResponseOk | .atResponseError => True

theorem warranted_msgResult (ret : Int8) : Warranted S d e (msgResult ret) := by
  rcases msgResult_cases ret with h | h | h <;> rw [h] <;> trivial

theorem warranted_edgeResult (ret : UInt8) : Warranted S d e (edgeResult ret) := by
  rcases edgeResult_cases ret with h | h <;> rw [h] <;> trivial

/-- Registering from flash is warranted where the flash is what the event finds there. -/
theorem warranted_fromFlash {svc : σ} (hcommand : Runs S e .atExecPushInitial ∨ e = .restart)
    (hread : configFor S d e = S.readEspushCfg svc) :
    ∀ c ∈ (fromFlash S svc).2, Warranted S d e c := by
  cases hcfg : S.readEspushCfg svc with
  | none => simp [fromFlash, hcfg, Warranted]
  | some info =>
      simp only [fromFlash, hcfg, List.forall_mem_singleton]
      exact ⟨.flash hcommand (hread.trans hcfg) rfl rfl, rfl, rfl⟩

theorem toNat_narrow_of_lt {p : Param} {n : Nat} (hp : p.Gives n) (hn : n < 256) :
    (S.atoi p.text).toUInt32.toUInt8.toNat = n := by
  rw [toNat_narrow (by omega) hp, Nat.mod_eq_of_lt hn]

theorem toInt_ofNat_toNat (b : UInt8) : (Int32.ofNat b.toNat).toInt = b.toNat := by
  have hbyte := b.toNat_lt
  exact Int32.toInt_ofNat_of_lt (by omega)

theorem warranted_edge {h : Handler} {p : Param} {edge : UInt8}
    (hcommand : commandOf S e = some (h, p)) (hedge : edgeOf h = some edge) :
    ∀ c ∈ (edgeOutcome S edge p d).2, Warranted S d e c := by
  rw [edgeOutcome]
  dsimp only
  split_ifs with hpin
  · simp [Warranted]
  · rw [List.forall_mem_cons, List.forall_mem_singleton]
    exact ⟨⟨h, p, hcommand, hedge, UInt8.not_lt.mp hpin, fun _ => toNat_narrow_of_lt⟩,
      warranted_edgeResult _⟩

/-- Every call of a handler is warranted by the command it runs for. -/
theorem warranted_outcome {h : Handler} {p : Param} (hcommand : commandOf S e = some (h, p)) :
    ∀ c ∈ (outcome S p d h).2, Warranted S d e c := by
  have hruns : Runs S e h := ⟨p, hcommand⟩
  have hrestart : e ≠ .restart := by
    rintro rfl
    simp [commandOf] at hcommand
  cases h with
  | atSetupCmdPushRegistDef =>
      rw [outcome]
      split
      · simp [Warranted]
      · rename_i a k hsplit
        obtain ⟨htext, hfirst⟩ := splitComma_eq_some_iff.mp hsplit
        have hregister : MayRegister S d e (S.atoi a).toUInt32 (defKey k p.rest) :=
          .pushDef hcommand htext hfirst rfl (fun hlong => defKey_of_long hlong p.rest)
            (fun hshort => prefix_defKey_of_short hshort p.rest)
        rw [List.forall_mem_cons, List.forall_mem_cons, List.forall_mem_singleton]
        exact ⟨.pushDef hruns hregister rfl, ⟨hregister, rfl, rfl⟩, trivial⟩
  | atSetupCmdPushRegistCur =>
      rw [outcome]
      split
      · simp [Warranted]
      · rename_i a k hsplit
        obtain ⟨htext, hfirst⟩ := splitComma_eq_some_iff.mp hsplit
        split_ifs with hwell
        · have hne : (S.atoi a).toUInt32 ≠ 0 := toUInt32_eq_zero_iff.not.mpr hwell.2
          rw [List.forall_mem_cons, List.forall_mem_singleton]
          exact ⟨⟨.pushCur hcommand htext hfirst hwell.1 rfl hne, rfl, rfl⟩, trivial⟩
        · simp [Warranted]
  | atSetupCmdPushMessage =>
      rw [outcome]
      split_ifs with hempty
      · simp [Warranted]
      · rw [List.forall_mem_cons, List.forall_mem_singleton]
        refine ⟨⟨p, hcommand, hempty, List.prefix_append _ _, ?_⟩, warranted_msgResult _⟩
        intro hlow hhigh
        rw [pushLen_toNat]
        omega
  | atExecPushInitial =>
      have hread : configFor S d e = S.readEspushCfg d.svc := by
        cases e with
        | restart => exact absurd rfl hrestart
        | _ => rfl
      rw [outcome, List.forall_mem_append]
      refine ⟨warranted_fromFlash (.inl hruns) hread, ?_⟩
      split_ifs <;> simp [Warranted]
  | atSetupGPIOEdgeLow => exact warranted_edge hcommand rfl
  | atSetupGPIOEdgeHigh => exact warranted_edge hcommand rfl
  | atSetupInterval =>
      rw [outcome]
      dsimp only
      split_ifs with hlow
      · simp [Warranted]
      · have hge := UInt8.le_iff_toNat_le.mp (UInt8.not_lt.mp hlow)
        rw [List.forall_mem_cons, List.forall_mem_singleton]
        refine ⟨⟨p, hcommand, ?_, ?_⟩, trivial⟩
        · rw [toInt_ofNat_toNat]
          exact Int.ofNat_le.mpr hge
        · intro n hp hn
          rw [toInt_ofNat_toNat, toNat_narrow_of_lt hp hn]
  | atExecUartTrans =>
      rw [outcome]
      split_ifs with hconn
      · rw [List.forall_mem_cons, List.forall_mem_singleton]
        exact ⟨⟨hruns, hconn⟩, trivial⟩
      · simp [Warranted]
  | atExecEspushInit =>
      rw [outcome, List.forall_mem_cons, List.forall_mem_singleton]
      exact ⟨⟨hruns, rfl, rfl⟩, trivial⟩
  | atExecEspushSave =>
      rw [outcome]
      split_ifs with hconn
      · rw [List.forall_mem_cons, List.forall_mem_singleton]
        exact ⟨.pushSave hruns hconn rfl rfl rfl, trivial⟩
      · simp [Warranted]
  | atQueryEspushApps =>
      rw [outcome]
      split_ifs <;> simp [Warranted]
  | _ => simp [outcome, Warranted, hruns, hcommand]

theorem warranted_preamble (e : Event σ) : ∀ c ∈ preamble e, Warranted S d e c := by
  cases e with
  | cloud b =>
      rw [preamble]
      split_ifs with hat
      · have hline : ascii "AT" ++ (text b.block).drop 2 = text b.block :=
          List.prefix_iff_eq_append.mp (List.isPrefixOf_iff_prefix.mp hat)
        simp [Warranted, hline]
      · simp [Warranted]
  | _ => simp [preamble]

theorem warranted_of_step (hstep : step S d e = some f) : ∀ c ∈ f.calls, Warranted S d e c := by
  cases step_response hstep with
  | command mem hcommand =>
      rw [List.forall_mem_append]
      exact ⟨warranted_preamble e, warranted_outcome hcommand⟩
  | @unknown b _ => exact warranted_preamble (.cloud b)
  | received hmode => simp [Warranted, hmode]
  | escape hmode hescape => simp [Warranted, hmode, hescape]
  | stream hmode hescape => simp [Warranted, hmode, hescape]
  | push hprints =>
      intro c hc
      obtain ⟨str, rfl⟩ := hprints c hc
      trivial
  | network change => simp
  | restart =>
      rw [List.forall_mem_append]
      exact ⟨by simp [bootCalls, Warranted], warranted_fromFlash (.inr rfl) rfl⟩

/-- A handler has something to save: `AT+PUSH_DEF` two parts, `AT+PUSH_SAVE` a connection. -/
def Handler.saves (S : Services σ) (d : Device σ) (p : Param) : Handler → Bool
  | .atSetupCmdPushRegistDef => p.text.contains 0x2C
  | .atExecEspushSave => Connected S d.svc
  | _ => false

def savesFlash (S : Services σ) (r : Step σ) : Bool :=
  match commandOf S r.event with
  | none => false
  | some (h, p) => h.saves S r.pre p

theorem countP_isSave_fromFlash (svc : σ) : (fromFlash S svc).2.countP Call.isSave = 0 := by
  cases hcfg : S.readEspushCfg svc <;> simp [fromFlash, hcfg, Call.isSave]

theorem countP_isSave_of_ne {h : Handler} (hdef : h ≠ .atSetupCmdPushRegistDef)
    (hsave : h ≠ .atExecEspushSave) (p : Param) :
    (outcome S p d h).2.countP Call.isSave = 0 := by
  have heffect := handlerEffect_outcome (S := S) h p d
  rw [List.countP_eq_zero]
  intro c hc
  cases c with
  | saveEspushCfg appid appkey devid =>
      exact absurd (heffect.keeps _ _ _ hc) (not_or.mpr ⟨hdef, hsave⟩)
  | _ => simp [Call.isSave]

theorem countP_isSave_outcome (h : Handler) (p : Param) :
    (outcome S p d h).2.countP Call.isSave = (h.saves S d p).toNat := by
  cases h with
  | atSetupCmdPushRegistDef =>
      by_cases hcomma : 0x2C ∈ p.text
      · obtain ⟨a, k, htext, ha⟩ := split_first hcomma
        have hsplit : splitComma p.text = some (a, k) := splitComma_eq_some_iff.mpr ⟨htext, ha⟩
        have hsaves : Handler.saves S d p .atSetupCmdPushRegistDef = true := by
          simpa [Handler.saves] using hcomma
        rw [outcome, hsplit, hsaves]
        rfl
      · have hsaves : Handler.saves S d p .atSetupCmdPushRegistDef = false := by
          simpa [Handler.saves] using hcomma
        rw [outcome, splitComma_of_notMem hcomma, hsaves]
        rfl
  | atExecEspushSave =>
      rw [outcome, Handler.saves]
      split_ifs with hconn
      · rw [decide_eq_true hconn]
        rfl
      · rw [decide_eq_false hconn]
        rfl
  | _ => exact countP_isSave_of_ne (by simp) (by simp) p

theorem countP_isSave_preamble (e : Event σ) : (preamble e).countP Call.isSave = 0 := by
  rw [List.countP_eq_zero]
  intro c hc
  simpa using List.any_eq_false.mp (preamble_plain e).1 c hc

theorem countP_isSave_of_step (hstep : step S d e = some f) :
    f.calls.countP Call.isSave = (savesFlash S ⟨d, e, f⟩).toNat := by
  cases step_response hstep with
  | @command _ h p mem hcommand =>
      rw [List.countP_append, countP_isSave_preamble, Nat.zero_add, countP_isSave_outcome]
      simp only [savesFlash, hcommand]
  | @unknown b hcommand =>
      simp only [savesFlash, hcommand]
      exact countP_isSave_preamble (σ := σ) (.cloud b)
  | @push m calls hprints =>
      have hnone : ∀ c ∈ calls, c.isSave = false := by
        intro c hc
        obtain ⟨str, rfl⟩ := hprints c hc
        rfl
      simpa [savesFlash, commandOf, List.countP_eq_zero] using hnone
  | restart =>
      rw [List.countP_append, countP_isSave_fromFlash]
      rfl
  | _ => rfl

end EspushAt
