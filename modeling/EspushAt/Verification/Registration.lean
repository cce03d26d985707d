import EspushAt.Device.Reference

/-!
# The two registration commands

`AT+PUSH_CUR` and `AT+PUSH_DEF` share their parser, and only the first one looks at
what it parsed. They agree on a parameter without a comma, which both refuse, and on
one whose appid and appkey the first accepts. What `AT+PUSH_CUR` accepts is a grammar of
its own, which the parser decides without looking behind the terminator.
-/

namespace EspushAt

open CString

variable {σ : Type}

/-- The calls register the device under this appid and appkey. -/
def Registers (calls : List Call) (appid : UInt32) (appkey : Bytes) : Prop :=
  ∃ devid type msgcb, .espushRegister appid appkey devid type msgcb ∈ calls

/-- The calls save this appid and appkey. -/
def Saves (calls : List Call) (appid : UInt32) (appkey : Bytes) : Prop :=
  ∃ devid, .saveEspushCfg appid appkey devid ∈ calls

/-- What `AT+PUSH_CUR` and `AT+PUSH_DEF` should have in common on one parameter. -/
structure Agreement (d : Device σ) (cur df : Frame σ) : Prop where
  registers : ∀ appid appkey,
    Registers df.calls appid appkey ↔ Registers cur.calls appid appkey
  saves : ∀ appid appkey, Saves df.calls appid appkey ↔ Registers df.calls appid appkey
  refuses : .atResponseError ∈ cur.calls → .atResponseError ∈ df.calls ∧ df.svc = d.svc

/-- The two commands agree on a parameter, from a state of the device. -/
def RegistrationsAgree (S : Services σ) (d : Device σ) (p : Param) : Prop :=
  ∃ cur df, invoke (atSetupCmdPushRegistCur S 0) p.block d = some cur ∧
    invoke (atSetupCmdPushRegistDef S 0) p.block d = some df ∧ Agreement d cur df

variable {S : Services σ} {d : Device σ} {p : Param} {a k : Bytes}

theorem registrationsAgree_of_notMem (hcomma : 0x2C ∉ p.text) : RegistrationsAgree S d p := by
  refine ⟨_, _, invoke_cur_of_notMem d hcomma, invoke_def_of_notMem d hcomma, ?_⟩
  constructor
  · intro appid appkey
    exact Iff.rfl
  · intro appid appkey
    simp [Saves, Registers]
  · intro _
    exact ⟨by simp, rfl⟩

theorem registrationsAgree_of_wellFormed (htext : p.text = a ++ 0x2C :: k) (ha : 0x2C ∉ a)
    (hwell : k.length = 32 ∧ S.atoi a ≠ 0) : RegistrationsAgree S d p := by
  have hcur := invoke_cur_of_split (S := S) d htext ha
  rw [if_pos hwell] at hcur
  have hkey : (k ++ 0 :: p.rest).take 32 = k := by rw [← hwell.1, List.take_left]
  have hdef := invoke_def_of_split (S := S) d htext ha
  rw [hkey] at hdef
  refine ⟨_, _, hcur, hdef, ?_⟩
  constructor
  · intro appid appkey
    simp [Registers]
  · intro appid appkey
    simp [Saves, Registers]
  · intro herror
    simp at herror

/-- Where `AT+PUSH_CUR` refuses a parameter with a comma, `AT+PUSH_DEF` does not. -/
theorem not_registrationsAgree_of_split (htext : p.text = a ++ 0x2C :: k) (ha : 0x2C ∉ a)
    (hwell : ¬ (k.length = 32 ∧ S.atoi a ≠ 0)) : ¬ RegistrationsAgree S d p := by
  have hcur' := invoke_cur_of_split (S := S) d htext ha
  rw [if_neg hwell] at hcur'
  rintro ⟨cur, df, hcur, hdef, hagree⟩
  obtain rfl := invoke_unique hcur' hcur
  obtain rfl := invoke_unique (invoke_def_of_split d htext ha) hdef
  obtain ⟨herror, -⟩ := hagree.refuses (by simp)
  simp at herror

/-- The commands agree on a parameter exactly when it has no comma, or 32 bytes behind
the first one and a number other than 0 in front of it. -/
theorem registrationsAgree_iff (S : Services σ) (d : Device σ) (p : Param) :
    RegistrationsAgree S d p ↔
      ∀ a k, p.text = a ++ 0x2C :: k → 0x2C ∉ a → k.length = 32 ∧ S.atoi a ≠ 0 := by
  constructor
  · intro hagree a k htext ha
    by_contra hwell
    exact not_registrationsAgree_of_split htext ha hwell hagree
  · intro hwell
    by_cases hcomma : 0x2C ∈ p.text
    · obtain ⟨a, k, htext, ha⟩ := split_first hcomma
      exact registrationsAgree_of_wellFormed htext ha (hwell a k htext ha)
    · exact registrationsAgree_of_notMem hcomma

/-- `AT+PUSH_DEF=7,short`: refused by one command, saved and registered by the other. -/
theorem not_registrationsAgree_short :
    ¬ RegistrationsAgree Reference.services Reference.device
      (Reference.paramOf "7,short" (by decide)) := by
  apply not_registrationsAgree_of_split (a := ascii "7") (k := ascii "short")
    (by decide) (by decide)
  rintro ⟨hlen, -⟩
  exact absurd hlen (by decide)

/-! ### The grammar of `AT+PUSH_CUR` -/

/-- A text `AT+PUSH_CUR` accepts: an id that `atoi` does not read as 0, the first comma,
and a key of 32 bytes, which may have commas of its own. -/
structure IsRegistration (S : Services σ) (s a k : Bytes) : Prop where
  split : s = a ++ 0x2C :: k
  first : 0x2C ∉ a
  length_key : k.length = 32
  id_ne : S.atoi a ≠ 0

/-- What `AT+PUSH_CUR` should do with a parameter. -/
structure FollowsGrammar (S : Services σ) (d : Device σ) (p : Param) (f : Frame σ) : Prop where
  registers : ∀ appid appkey, Registers f.calls appid appkey ↔
    ∃ a, IsRegistration S p.text a appkey ∧ appid = (S.atoi a).toUInt32
  accepts : ∀ a k, IsRegistration S p.text a k →
    f.calls = [.espushRegister (S.atoi a).toUInt32 k AT_DEV_ANONYMOUS .VER_AT .atRecvPushMsgCb,
      .atResponseOk]
  refuses : (∀ a k, ¬ IsRegistration S p.text a k) →
    f.calls = [.atResponseError] ∧ f.toDevice = d
  keeps : ∀ i, f.mem[i]? ≠ p.block[i]? → 0x2C ∈ p.text ∧ i = 1 + p.text.idxOf 0x2C
  -- behind the terminator there may be anything, or no memory at all
  bounded : ∀ rest, ∃ g front,
    invoke (atSetupCmdPushRegistCur S 0) (Param.block ⟨p.text, rest, p.noNul⟩) d = some g ∧
      g.toDevice = f.toDevice ∧ g.calls = f.calls ∧
      f.mem = front ++ p.rest ∧ g.mem = front ++ rest

theorem isRegistration_iff (htext : p.text = a ++ 0x2C :: k) (ha : 0x2C ∉ a) {a' k' : Bytes} :
    IsRegistration S p.text a' k' ↔ (a' = a ∧ k' = k) ∧ k.length = 32 ∧ S.atoi a ≠ 0 := by
  constructor
  · rintro ⟨hsplit, hfirst, hlen, hid⟩
    obtain ⟨rfl, rfl⟩ := split_first_unique (hsplit.symm.trans htext) hfirst ha
    exact ⟨⟨rfl, rfl⟩, hlen, hid⟩
  · rintro ⟨⟨rfl, rfl⟩, hlen, hid⟩
    exact ⟨htext, ha, hlen, hid⟩

theorem not_isRegistration_of_notMem (hcomma : 0x2C ∉ p.text) (a k : Bytes) :
    ¬ IsRegistration S p.text a k := by
  intro hreg
  apply hcomma
  rw [hreg.split]
  exact List.mem_append_right a List.mem_cons_self

/-- Cutting the parameter writes the byte of the first comma and no other. -/
theorem keeps_splitBlock (htext : p.text = a ++ 0x2C :: k) (ha : 0x2C ∉ a) {i : Nat}
    (h : (splitBlock a k p.rest)[i]? ≠ p.block[i]?) :
    0x2C ∈ p.text ∧ i = 1 + p.text.idxOf 0x2C := by
  have hidx : p.text.idxOf 0x2C = a.length := by
    rw [htext, List.idxOf_append_of_notMem ha, List.idxOf_cons_self, Nat.add_zero]
  have hset : splitBlock a k p.rest = p.block.set (1 + a.length) 0 := by
    rw [Param.block_of_split htext]
    simp [splitBlock, Nat.add_comm 1]
  refine ⟨by simp [htext], ?_⟩
  by_contra hne
  rw [hidx] at hne
  rw [hset, List.getElem?_set_ne (Ne.symm hne)] at h
  exact h rfl

theorem followsGrammar_of_notMem (hcomma : 0x2C ∉ p.text) :
    FollowsGrammar S d p ⟨d, p.block, [.atResponseError]⟩ := by
  have hnone : ∀ a k, ¬ IsRegistration S p.text a k := not_isRegistration_of_notMem hcomma
  constructor
  · intro appid appkey
    simp [Registers, hnone]
  · intro a k hreg
    exact absurd hreg (hnone a k)
  · intro _
    exact ⟨rfl, rfl⟩
  · intro i hi
    exact absurd rfl hi
  · intro rest
    refine ⟨_, 0x3D :: (p.text ++ [0]), invoke_cur_of_notMem d hcomma, rfl, rfl, ?_, ?_⟩
    · simp [Param.block]
    · simp [Param.block]

theorem bounded_of_split (htext : p.text = a ++ 0x2C :: k) (ha : 0x2C ∉ a) {f : Frame σ}
    (hrun : invoke (atSetupCmdPushRegistCur S 0) p.block d = some f) (rest : Bytes) :
    ∃ g front,
      invoke (atSetupCmdPushRegistCur S 0) (Param.block ⟨p.text, rest, p.noNul⟩) d = some g ∧
        g.toDevice = f.toDevice ∧ g.calls = f.calls ∧
        f.mem = front ++ p.rest ∧ g.mem = front ++ rest := by
  have hblock : ∀ r, splitBlock a k r = (0x3D :: (a ++ 0 :: (k ++ [0]))) ++ r := by
    simp [splitBlock]
  have hcur := invoke_cur_of_split (S := S) d htext ha
  have hother := invoke_cur_of_split (S := S) (p := ⟨p.text, rest, p.noNul⟩) d htext ha
  split_ifs at hcur hother with hwell
  · obtain rfl := invoke_unique hcur hrun
    exact ⟨_, _, hother, rfl, rfl, hblock _, hblock _⟩
  · obtain rfl := invoke_unique hcur hrun
    exact ⟨_, _, hother, rfl, rfl, hblock _, hblock _⟩

theorem followsGrammar_of_split (htext : p.text = a ++ 0x2C :: k) (ha : 0x2C ∉ a) {f : Frame σ}
    (hrun : invoke (atSetupCmdPushRegistCur S 0) p.block d = some f) :
    FollowsGrammar S d p f := by
  have hiff : ∀ a' k', IsRegistration S p.text a' k' ↔
      (a' = a ∧ k' = k) ∧ k.length = 32 ∧ S.atoi a ≠ 0 :=
    fun a' k' => isRegistration_iff htext ha
  have hbounded := bounded_of_split htext ha hrun
  have hcur := invoke_cur_of_split (S := S) d htext ha
  by_cases hwell : k.length = 32 ∧ S.atoi a ≠ 0
  · rw [if_pos hwell] at hcur
    obtain rfl := invoke_unique hcur hrun
    refine ⟨?_, ?_, ?_, fun i hi => keeps_splitBlock htext ha hi, hbounded⟩
    · intro appid appkey
      simp [Registers, hiff, hwell]
      tauto
    · intro a' k' hreg
      obtain ⟨⟨rfl, rfl⟩, -⟩ := (hiff a' k').mp hreg
      rfl
    · intro hnone
      exact absurd ((hiff a k).mpr ⟨⟨rfl, rfl⟩, hwell⟩) (hnone a k)
  · have hnone : ∀ a' k', ¬ IsRegistration S p.text a' k' := by
      intro a' k' hreg
      exact hwell ((hiff a' k').mp hreg).2
    rw [if_neg hwell] at hcur
    obtain rfl := invoke_unique hcur hrun
    refine ⟨?_, ?_, ?_, fun i hi => keeps_splitBlock htext ha hi, hbounded⟩
    · intro appid appkey
      simp [Registers, hnone]
    · intro a' k' hreg
      exact absurd hreg (hnone a' k')
    · intro _
      exact ⟨rfl, rfl⟩

/-- `AT+PUSH_CUR` returns on every parameter and accepts exactly its grammar. -/
theorem cur_followsGrammar (S : Services σ) (d : Device σ) (p : Param) :
    ∃ f, invoke (atSetupCmdPushRegistCur S 0) p.block d = some f ∧ FollowsGrammar S d p f := by
  have hrun := invoke_runHandler S .atSetupCmdPushRegistCur p d
  refine ⟨_, hrun, ?_⟩
  by_cases hcomma : 0x2C ∈ p.text
  · obtain ⟨a, k, htext, ha⟩ := split_first hcomma
    exact followsGrammar_of_split htext ha hrun
  · rw [← invoke_unique (invoke_cur_of_notMem d hcomma) hrun]
    exact followsGrammar_of_notMem hcomma

end EspushAt
