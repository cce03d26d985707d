import EspushAt.Device.Reference

/-!
# The identity kept in flash

A step that saves was asked to keep an identity: `AT+PUSH_DEF` the one it registers
itself, `AT+PUSH_SAVE` the one of the connection in force. However many steps without
a save follow, the appid and the appkey of the last one are what a registration from
flash passes. The devid it passes is a literal of the source.
-/

namespace EspushAt

open CString Transition

variable {σ : Type}

/-- What identifies a device to the cloud. -/
@[ext] structure Identity where
  appid : UInt32
  appkey : Bytes
  devid : Bytes
  deriving DecidableEq

/-- The identity a call registers. -/
def Call.registered : Call → Option Identity
  | .espushRegister appid appkey devid _ _ => some ⟨appid, appkey, devid⟩
  | _ => none

def Call.isSave : Call → Bool
  | .saveEspushCfg _ _ _ => true
  | _ => false

abbrev registrations (calls : List Call) : List Identity := calls.filterMap Call.registered

/-- What the proofs need of libespush: what is saved is read back, and nothing but a
save changes it, a restart included. -/
structure KeepsSaved (S : Services σ) : Prop where
  save : ∀ appid appkey devid s, appkey.length = APPKEY_LENGTH →
    ∃ cfg, S.readEspushCfg (S.saveEspushCfg appid appkey devid s) = some cfg ∧
      cfg.appId = appid ∧ cfg.appkey.val = appkey
  unsaved : ∀ s t, Unsaved S s t → S.readEspushCfg t = S.readEspushCfg s
  reset : ∀ s, S.readEspushCfg (S.reset s) = S.readEspushCfg s

section

variable (S : Services σ)

/-- The identity of the connection in force. -/
def inForce (svc : σ) : Identity :=
  let pcfg := S.espushGetPushcfg svc
  ⟨pcfg.appid, pcfg.appkey.val, pcfg.devid⟩

/-- The identity a saving step was asked to keep. -/
def asked (r : Step σ) : Option Identity :=
  if r.result.calls.any Call.isSave then
    match commandOf S r.event with
    | some (.atSetupCmdPushRegistDef, _) => (registrations r.result.calls).head?
    | _ => some (inForce S r.pre.svc)
  else none

/-- An event that makes the device register from flash. -/
def FromFlash (e : Event σ) : Prop :=
  e = .restart ∨ ∃ p, commandOf S e = some (.atExecPushInitial, p)

/-- A change of the connection does not write the flash. -/
def LeavesFlash (e : Event σ) : Prop :=
  ∀ change, e = .network change → ∀ s, S.readEspushCfg (change s) = S.readEspushCfg s

/-- The flash holds the appid and the appkey of an identity. -/
def Holds (i : Identity) (d : Device σ) : Prop :=
  ∃ cfg, S.readEspushCfg d.svc = some cfg ∧ cfg.appId = i.appid ∧ cfg.appkey.val = i.appkey

end

variable {S : Services σ} {r : Step σ} {i : Identity}

/-! ### One step -/

theorem registrations_append (calls more : List Call) :
    registrations (calls ++ more) = registrations calls ++ registrations more :=
  List.filterMap_append

/-- A command from the cloud is echoed without registering or saving anything. -/
theorem preamble_plain (e : Event σ) :
    (preamble e).any Call.isSave = false ∧ registrations (preamble e) = [] := by
  cases e with
  | cloud b =>
      rw [preamble]
      split_ifs <;> exact ⟨rfl, rfl⟩
  | _ => exact ⟨rfl, rfl⟩

theorem asked_of_no_save (h : r.result.calls.any Call.isSave = false) : asked S r = none := by
  rw [asked, h]
  rfl

theorem any_isSave_fromFlash (svc : σ) : (fromFlash S svc).2.any Call.isSave = false := by
  cases hcfg : S.readEspushCfg svc <;> simp [fromFlash, hcfg, Call.isSave]

/-- What a saving command does, by the command it is. -/
inductive Saving (S : Services σ) (r : Step σ) (i : Identity) : Prop where
  | pushDef {p : Param} (hcommand : commandOf S r.event = some (.atSetupCmdPushRegistDef, p))
      (hdevid : i.devid = AT_DEV_ANONYMOUS)
      (hsvc : r.result.svc = S.espushRegister i.appid i.appkey i.devid .VER_AT
        (S.saveEspushCfg i.appid i.appkey i.devid r.pre.svc))
  | pushSave {p : Param} (hcommand : commandOf S r.event = some (.atExecEspushSave, p))
      (hforce : i = inForce S r.pre.svc)
      (hsvc : r.result.svc =
        S.saveEspushCfg i.appid i.appkey AT_PLUS_SINGLE_DEVICES r.pre.svc)

/-- The alternatives for a step: it saved what it was asked to, or the flash reads as
before. -/
def SavesOrKeeps (S : Services σ) (r : Step σ) : Prop :=
  (∃ i, asked S r = some i ∧ Saving S r i) ∨
    asked S r = none ∧ S.readEspushCfg r.result.svc = S.readEspushCfg r.pre.svc

section Command

variable {d : Device σ} {e : Event σ} {p : Param} {mem : Bytes}

theorem savesOrKeeps_def (hcommand : commandOf S e = some (.atSetupCmdPushRegistDef, p)) :
    SavesOrKeeps S ⟨d, e, ⟨(outcome S p d .atSetupCmdPushRegistDef).1, mem,
      preamble e ++ (outcome S p d .atSetupCmdPushRegistDef).2⟩⟩ := by
  obtain ⟨hecho, hnone⟩ := preamble_plain e
  cases hsplit : splitComma p.text with
  | none =>
      simp only [outcome, hsplit]
      refine .inr ⟨asked_of_no_save ?_, rfl⟩
      rw [List.any_append, hecho]
      rfl
  | some ak =>
      obtain ⟨a, k⟩ := ak
      simp only [outcome, hsplit]
      refine .inl ⟨⟨(S.atoi a).toUInt32, defKey k p.rest, AT_DEV_ANONYMOUS⟩, ?_,
        .pushDef hcommand rfl rfl⟩
      rw [asked, if_pos (by simp [Call.isSave]), hcommand, registrations_append, hnone]
      rfl

theorem savesOrKeeps_save (hcommand : commandOf S e = some (.atExecEspushSave, p)) :
    SavesOrKeeps S ⟨d, e, ⟨(outcome S p d .atExecEspushSave).1, mem,
      preamble e ++ (outcome S p d .atExecEspushSave).2⟩⟩ := by
  by_cases hconn : Connected S d.svc
  · simp only [outcome, if_pos hconn]
    refine .inl ⟨inForce S d.svc, ?_, .pushSave hcommand rfl rfl⟩
    rw [asked, if_pos (by simp [Call.isSave]), hcommand]
  · simp only [outcome, if_neg hconn]
    refine .inr ⟨asked_of_no_save ?_, rfl⟩
    rw [List.any_append, (preamble_plain e).1]
    rfl

/-- The handlers that do not save leave the flash as it is. -/
theorem savesOrKeeps_command (hkeeps : KeepsSaved S) {h : Handler}
    (hcommand : commandOf S e = some (h, p)) : SavesOrKeeps S ⟨d, e,
      ⟨(outcome S p d h).1, mem, preamble e ++ (outcome S p d h).2⟩⟩ := by
  by_cases hsaving : h = .atSetupCmdPushRegistDef ∨ h = .atExecEspushSave
  · obtain rfl | rfl := hsaving
    · exact savesOrKeeps_def hcommand
    · exact savesOrKeeps_save hcommand
  · have heffect := handlerEffect_outcome (S := S) h p d
    refine .inr ⟨asked_of_no_save ?_, hkeeps.unsaved _ _ (heffect.saves.resolve_right hsaving)⟩
    rw [List.any_append, (preamble_plain e).1, Bool.false_or, List.any_eq_false]
    intro c hc
    cases c with
    | saveEspushCfg appid appkey devid => exact absurd (heffect.keeps _ _ _ hc) hsaving
    | _ => simp [Call.isSave]

end Command

theorem savesOrKeeps_of_step (hkeeps : KeepsSaved S) {d : Device σ} {e : Event σ} {f : Frame σ}
    (hleaves : LeavesFlash S e) (hstep : step S d e = some f) : SavesOrKeeps S ⟨d, e, f⟩ := by
  cases step_response hstep with
  | command mem hcommand => exact savesOrKeeps_command hkeeps hcommand
  | @unknown b _ => exact .inr ⟨asked_of_no_save (preamble_plain (σ := σ) (.cloud b)).1, rfl⟩
  | received hmode => exact .inr ⟨asked_of_no_save rfl, rfl⟩
  | escape hmode hescape => exact .inr ⟨asked_of_no_save rfl, rfl⟩
  | stream hmode hescape =>
      exact .inr ⟨asked_of_no_save rfl, hkeeps.unsaved _ _ (.uartStream _ .refl)⟩
  | push hprints =>
      refine .inr ⟨asked_of_no_save ?_, rfl⟩
      rw [List.any_eq_false]
      intro c hc
      obtain ⟨str, rfl⟩ := hprints c hc
      simp [Call.isSave]
  | network change => exact .inr ⟨asked_of_no_save rfl, hleaves _ rfl _⟩
  | restart =>
      refine .inr ⟨asked_of_no_save ?_, ?_⟩
      · rw [List.any_append, any_isSave_fromFlash]
        rfl
      · exact (hkeeps.unsaved _ _ (unsaved_fromFlash _)).trans (hkeeps.reset _)

/-! ### Whole runs -/

/-- What a saving step leaves in flash. -/
theorem Saving.holds (hkeeps : KeepsSaved S) (hsaving : Saving S r i)
    (hkey : i.appkey.length = APPKEY_LENGTH) : Holds S i r.result.toDevice := by
  cases hsaving with
  | pushDef hcommand hdevid hsvc =>
      obtain ⟨cfg, hread, hid, happkey⟩ := hkeeps.save i.appid i.appkey i.devid r.pre.svc hkey
      refine ⟨cfg, ?_, hid, happkey⟩
      rw [hsvc]
      exact (hkeeps.unsaved _ _ (.register _ _ _ _ .refl)).trans hread
  | pushSave hcommand hforce hsvc =>
      obtain ⟨cfg, hread, hid, happkey⟩ :=
        hkeeps.save i.appid i.appkey AT_PLUS_SINGLE_DEVICES r.pre.svc hkey
      exact ⟨cfg, by rw [hsvc, hread], hid, happkey⟩

/-- A registration from flash passes what the flash holds, and a literal devid. -/
theorem registrations_of_fromFlash {d : Device σ} {e : Event σ} {f : Frame σ}
    (hkeeps : KeepsSaved S) (hstep : step S d e = some f) (hflash : FromFlash S e)
    (hholds : Holds S i d) :
    registrations f.calls = [⟨i.appid, i.appkey, AT_DEV_ANONYMOUS⟩] := by
  obtain ⟨cfg, hread, hid, hkey⟩ := hholds
  have hcalls : ∀ svc, S.readEspushCfg svc = some cfg →
      registrations (fromFlash S svc).2 = [⟨i.appid, i.appkey, AT_DEV_ANONYMOUS⟩] := by
    intro svc hsvc
    rw [fromFlash, hsvc, ← hid, ← hkey]
    rfl
  cases hflash with
  | inl hrestart =>
      subst hrestart
      rw [step, invoke_userInit] at hstep
      obtain rfl := Option.some.inj hstep
      rw [registrations_append, hcalls (powerOn S d.svc).svc ((hkeeps.reset d.svc).trans hread)]
      rfl
  | inr hcommand =>
      obtain ⟨p, hcommand⟩ := hcommand
      cases step_response hstep with
      | command mem hcommand' =>
          obtain ⟨rfl, rfl⟩ := Prod.mk.inj (Option.some.inj (hcommand.symm.trans hcommand'))
          rw [registrations_append, (preamble_plain e).2, outcome, registrations_append,
            hcalls _ hread, hread]
          rfl
      | unknown hcommand' => exact absurd (hcommand.symm.trans hcommand') (by simp)
      | _ => simp [commandOf] at hcommand

/-- While nothing saves, the flash goes on holding an identity. -/
theorem holds_of_run (hkeeps : KeepsSaved S) {d : Device σ} {es : List (Event σ)}
    {steps : List (Step σ)} (hrun : run S d es = some steps)
    (hleaves : ∀ e ∈ es, LeavesFlash S e) (hquiet : ∀ s ∈ steps, asked S s = none)
    (hholds : Holds S i d) : Holds S i (final Frame.toDevice d steps) := by
  refine (invariant_of_trace (Holds S i) (fun s => LeavesFlash S s.event ∧ asked S s = none)
    ?_ hrun ?_ hholds).1
  · rintro s ⟨cfg, hread, hid, hkey⟩ hstep ⟨hleaves, hquiet⟩
    rcases savesOrKeeps_of_step hkeeps hleaves hstep with ⟨j, hasked, -⟩ | ⟨-, hsame⟩
    · exact absurd (hquiet.symm.trans hasked) (by simp)
    · exact ⟨cfg, hsame.trans hread, hid, hkey⟩
  · intro s hs
    exact ⟨hleaves _ (step_of_mem hrun hs).1, hquiet s hs⟩

/-- Whatever happened before a saving step, and whatever happens after it as long as
nothing saves again, a registration from flash passes the appid and the appkey that
step was asked to keep. It passes the whole identity when the devid is the literal it
uses, as it is for every `AT+PUSH_DEF`. -/
theorem registers_kept_identity (hkeeps : KeepsSaved S) (d : Device σ) {es : List (Event σ)}
    (hleaves : ∀ e ∈ es, LeavesFlash S e) (front mid back : List (Step σ)) {save : Step σ}
    (hrun : run S d es = some (front ++ save :: (mid ++ r :: back)))
    (hasked : asked S save = some i) (hkey : i.appkey.length = APPKEY_LENGTH)
    (hmid : ∀ s ∈ mid, asked S s = none) (hflash : FromFlash S r.event) :
    registrations r.result.calls = [⟨i.appid, i.appkey, AT_DEV_ANONYMOUS⟩] ∧
      (registrations r.result.calls = [i] ↔ i.devid = AT_DEV_ANONYMOUS) ∧
      ∀ p, commandOf S save.event = some (.atSetupCmdPushRegistDef, p) →
        registrations r.result.calls = [i] := by
  -- the saving step leaves the identity in flash
  obtain ⟨hmem, hsavestep⟩ := step_of_mem hrun (r := save) (by simp)
  have hsaving : Saving S save i := by
    rcases savesOrKeeps_of_step hkeeps (hleaves _ hmem) hsavestep with ⟨j, hj, hsaving⟩ | ⟨hnone, -⟩
    · obtain rfl := Option.some.inj (hasked.symm.trans hj)
      exact hsaving
    · exact absurd (hnone.symm.trans hasked) (by simp)
  have hsaved : Holds S i save.result.toDevice := hsaving.holds hkeeps hkey
  -- the steps between leave it there
  rw [List.append_cons] at hrun
  obtain ⟨fs, gs, rfl, -, hrest⟩ := trace_append_inv hrun
  have hafter : final Frame.toDevice d (front ++ [save]) = save.result.toDevice := by
    simp [final]
  rw [hafter] at hrest
  obtain ⟨ms, rs, rfl, hmidrun, hlast⟩ := trace_append_inv hrest
  have hholds := holds_of_run hkeeps hmidrun (fun e he => hleaves e (by simp [he])) hmid hsaved
  rw [← pre_eq_final hrest] at hholds
  -- the registration reads it
  have hregistered :=
    registrations_of_fromFlash hkeeps (step_of_mem hlast (by simp)).2 hflash hholds
  have hwhole : registrations r.result.calls = [i] ↔ i.devid = AT_DEV_ANONYMOUS := by
    rw [hregistered, List.cons.injEq, Identity.ext_iff]
    simp [eq_comm]
  refine ⟨hregistered, hwhole, ?_⟩
  intro p hcommand
  cases hsaving with
  | pushDef _ hdevid _ => exact hwhole.mpr hdevid
  | pushSave hcommand' _ _ => exact absurd (hcommand.symm.trans hcommand') (by simp)

namespace Reference

theorem keepsSaved : KeepsSaved services where
  save appid appkey devid s hkey :=
    ⟨⟨appid, array32Of appkey, devid⟩, rfl, rfl, array32Of_val hkey⟩
  unsaved s t h := by induction h with
    | refl => rfl
    | _ => assumption
  reset s := rfl

/-- `AT+PUSH_CONN`, the connection it starts, `AT+PUSH_SAVE`, `AT+PUSHCLOSE`, and a
restart. -/
def singleDeviceEvents : List (Event State) :=
  [.command .atExecEspushInit noParam, .network (accept 7 (List.replicate 32 0x4B)),
    .command .atExecEspushSave noParam, .command .atExecUnPushRegist noParam, .restart]

theorem leavesFlash_singleDevice : ∀ e ∈ singleDeviceEvents, LeavesFlash services e := by
  intro e he change hchange s
  subst hchange
  simp [singleDeviceEvents] at he
  subst he
  rfl

end Reference

/-- The appid and the appkey come back, whatever became of the connection. -/
theorem registers_kept_identity_single_device : ∃ front save mid r,
    run Reference.services Reference.device
      Reference.singleDeviceEvents = some (front ++ save :: ([mid] ++ [r])) ∧
    registrations r.result.calls = [⟨7, List.replicate 32 0x4B, AT_DEV_ANONYMOUS⟩] := by
  refine ⟨[_, _], _, _, _, rfl, ?_⟩
  exact (registers_kept_identity Reference.keepsSaved _ Reference.leavesFlash_singleDevice
    [_, _] [_] [] rfl rfl rfl (by simp [asked_of_no_save, Call.isSave]) (.inl rfl)).1

/-- The devid does not: the connection was made under the one generated for it. -/
theorem not_registers_whole_identity :
    ¬ ∀ (es : List (Event Reference.State)) front save mid r back i,
      (∀ e ∈ es, LeavesFlash Reference.services e) →
      run Reference.services Reference.device es =
        some (front ++ save :: (mid ++ r :: back)) →
      asked Reference.services save = some i → i.appkey.length = APPKEY_LENGTH →
      (∀ s ∈ mid, asked Reference.services s = none) → FromFlash Reference.services r.event →
      registrations r.result.calls = [i] := by
  intro h
  have hwhole := h Reference.singleDeviceEvents [_, _] _ [_] _ [] _
    Reference.leavesFlash_singleDevice rfl rfl rfl (by simp [asked_of_no_save, Call.isSave])
    (.inl rfl)
  exact absurd hwhole (by decide)

end EspushAt
