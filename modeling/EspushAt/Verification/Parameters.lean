import EspushAt.Verification.Registration

/-!
# What the setup handlers take for their parameter

The dispatcher passes what follows the `=`, and each handler decides on its own whether
a line end belongs to it: `AT+PUSHMSG` takes two bytes off the length whatever they are,
`AT+PUSH_CUR` and `AT+HOSTNAME` take the text as it stands. So no convention about the
line end suits all three, and a text shorter than two bytes makes the length of a
message wrap around.
-/

namespace EspushAt

open CString Decimal

variable {σ : Type}

/-! ### The length of a message -/

/-- The end of a command line. -/
def crlf : Bytes := ascii "\r\n"

/-- The messages sent by some calls: as many bytes of each buffer as the length says. -/
def Call.sent : Call → Option Bytes
  | .espushMsg buf len _ => some (buf.take len.toNat)
  | _ => none

/-- `AT+PUSHMSG` passes a length within its text, and sends a text that ends in a line
end without it. -/
def SendsWithin (S : Services σ) (d : Device σ) (p : Param) : Prop :=
  ∃ f, invoke (atSetupCmdPushMessage S 0) p.block d = some f ∧
    ∀ buf len ret, .espushMsg buf len ret ∈ f.calls →
      len.toNat ≤ p.text.length ∧
      ∀ s, p.text = s ++ crlf → len.toNat = s.length ∧ buf.take len.toNat = s

variable {S : Services σ} {d : Device σ} {p : Param}

theorem pushLen_le_iff (n : Nat) : (pushLen n).toNat ≤ n ↔ 2 ≤ n := by
  rw [pushLen_toNat]
  omega

theorem pushLen_eq_iff (n : Nat) : (pushLen (n + 2)).toNat = n ↔ n < 2 ^ 16 := by
  rw [pushLen_toNat]
  omega

/-- The one message among the calls of `AT+PUSHMSG`. -/
theorem espushMsg_of_mem {buf buf' : Bytes} {len len' : UInt16} {ret ret' iRet : Int8}
    (h : .espushMsg buf len ret ∈ [.espushMsg buf' len' ret', msgResult iRet]) :
    buf = buf' ∧ len = len' := by
  have hne : .espushMsg buf len ret ≠ msgResult iRet := by
    rcases msgResult_cases iRet with hreply | hreply | hreply <;> simp [hreply]
  rcases List.mem_cons.mp h with heq | hreply
  · obtain ⟨hbuf, hlen, -⟩ := Call.espushMsg.inj heq
    exact ⟨hbuf, hlen⟩
  · exact absurd (List.mem_singleton.mp hreply) hne

/-- For any text but a bare line end the call is made, with the wrapped length. -/
theorem sendsWithin_iff_pushLen (h : p.text ≠ crlf) :
    SendsWithin S d p ↔ (pushLen p.text.length).toNat ≤ p.text.length ∧
      ∀ s, p.text = s ++ crlf → (pushLen p.text.length).toNat = s.length := by
  have hrun := invoke_atSetupCmdPushMessage (S := S) (d := d) h rfl
  constructor
  · rintro ⟨f, hf, hsends⟩
    obtain rfl := invoke_unique hrun hf
    obtain ⟨hle, hexact⟩ := hsends _ _ _ List.mem_cons_self
    exact ⟨hle, fun s hs => (hexact s hs).1⟩
  · rintro ⟨hle, hexact⟩
    refine ⟨_, hrun, ?_⟩
    intro buf len ret hmem
    obtain ⟨rfl, rfl⟩ := espushMsg_of_mem hmem
    refine ⟨hle, ?_⟩
    intro s hs
    refine ⟨hexact s hs, ?_⟩
    rw [hexact s hs, hs, List.append_assoc, List.take_left]

theorem sendsWithin_crlf (h : p.text = crlf) : SendsWithin S d p := by
  refine ⟨_, invoke_atSetupCmdPushMessage_of_empty h d, ?_⟩
  intro buf len ret hmem
  simp at hmem

/-- The length is within the text exactly when that has two bytes at least, and a text
is sent without its line end exactly when that leaves at most 65535 bytes. -/
theorem sendsWithin_iff (S : Services σ) (d : Device σ) (p : Param) :
    SendsWithin S d p ↔
      2 ≤ p.text.length ∧ (crlf <:+ p.text → p.text.length ≤ 65537) := by
  by_cases hbare : p.text = crlf
  · have hlen : p.text.length = 2 := congrArg List.length hbare
    constructor
    · intro _
      exact ⟨by omega, fun _ => by omega⟩
    · intro _
      exact sendsWithin_crlf hbare
  · rw [sendsWithin_iff_pushLen hbare, pushLen_le_iff]
    refine and_congr_right fun _ => ?_
    have hexact : ∀ s, p.text = s ++ crlf →
        ((pushLen p.text.length).toNat = s.length ↔ p.text.length ≤ 65537) := by
      intro s hs
      have hlen : p.text.length = s.length + 2 := by rw [hs, List.length_append]; rfl
      rw [hlen, pushLen_eq_iff]
      omega
    constructor
    · rintro h ⟨s, hs⟩
      exact (hexact s hs.symm).mp (h s hs.symm)
    · intro h s hs
      exact (hexact s hs).mpr (h ⟨s, hs.symm⟩)

/-- An empty parameter, as the cloud sends it without a terminator: 65534 bytes. -/
theorem not_sendsWithin_empty :
    ¬ SendsWithin Reference.services Reference.device
      Reference.noParam := by
  rw [sendsWithin_iff_pushLen (by decide)]
  rintro ⟨hle, -⟩
  exact absurd hle (by decide)

/-! ### One framing for all -/

/-- The two conventions about what follows the `=`. -/
inductive ParamFraming where
  | bare
  | crlf
  deriving DecidableEq

/-- What a payload is followed by. -/
def ParamFraming.terminator : ParamFraming → Bytes
  | .bare => []
  | .crlf => EspushAt.crlf

theorem ParamFraming.zero_notMem (F : ParamFraming) {s : Bytes} (h : 0 ∉ s) :
    0 ∉ s ++ F.terminator := by
  cases F with
  | bare => simpa [terminator] using h
  | crlf => simpa [terminator, EspushAt.crlf, ascii] using h

/-- A payload as a parameter in a line buffer. -/
def ParamFraming.param (F : ParamFraming) (s : Bytes) (h : 0 ∉ s) (rest : Bytes) : Param :=
  ⟨s ++ F.terminator, rest, F.zero_notMem h⟩

section Framing

variable (S : Services σ) (d : Device σ) (F : ParamFraming) (rest : Bytes)

/-- `AT+PUSH_CUR` registers this appid and appkey and nothing else. -/
def RegistersExactly (n : Nat) (k : Bytes) (h : 0 ∉ decimal n ++ 0x2C :: k) : Prop :=
  ∃ f, invoke (atSetupCmdPushRegistCur S 0) (F.param (decimal n ++ 0x2C :: k) h rest).block d =
      some f ∧
    ∀ appid appkey, Registers f.calls appid appkey ↔ appid = UInt32.ofNat n ∧ appkey = k

/-- `AT+PUSHMSG` sends this message and nothing else. -/
def SendsExactly (s : Bytes) (h : 0 ∉ s) : Prop :=
  ∃ f, invoke (atSetupCmdPushMessage S 0) (F.param s h rest).block d = some f ∧
    f.calls.filterMap Call.sent = [s]

/-- The host names set by some calls. -/
def Call.hostname : Call → Option Bytes
  | .wifiStationSetHostname name _ => some name
  | _ => none

/-- `AT+HOSTNAME` sets this name and nothing else. -/
def NamesExactly (s : Bytes) (h : 0 ∉ s) : Prop :=
  ∃ f, invoke (atSetupHostName S 0) (F.param s h rest).block d = some f ∧
    f.calls.filterMap Call.hostname = [s]

variable {S d F rest}

/-- `atoi` gives a decimal number below `2^31` back, as an appid. -/
theorem atoi_decimal {n : Nat} (h : n < 2 ^ 31) :
    (S.atoi (decimal n)).toUInt32 = UInt32.ofNat n :=
  S.atoi_toUInt32 (atoiValue_decimal n) h

/-- The appkey takes the line end in, so only the bare convention leaves 32 bytes. -/
theorem registersExactly_iff {n : Nat} {k : Bytes} (hpos : 0 < n) (hn : n < 2 ^ 31)
    (hk : k.length = 32) (h : 0 ∉ decimal n ++ 0x2C :: k) :
    RegistersExactly S d F rest n k h ↔ F = .bare := by
  have htext : (F.param (decimal n ++ 0x2C :: k) h rest).text =
      decimal n ++ 0x2C :: (k ++ F.terminator) := by
    simp [ParamFraming.param]
  have hrun := invoke_cur_of_split (S := S) d htext (notMem_decimal (by decide) n)
  have hid : S.atoi (decimal n) ≠ 0 := by
    intro hzero
    have happid : UInt32.ofNat n = 0 := by
      rw [← atoi_decimal (S := S) hn, hzero]
      rfl
    have hmod : n % 2 ^ 32 = 0 := by simpa using congrArg UInt32.toNat happid
    omega
  cases F with
  | bare =>
      have hkey : k ++ ParamFraming.bare.terminator = k := List.append_nil k
      rw [hkey, if_pos ⟨hk, hid⟩, atoi_decimal hn] at hrun
      refine iff_of_true ⟨_, hrun, ?_⟩ rfl
      intro appid appkey
      simp [Registers]
  | crlf =>
      have hlen : (k ++ ParamFraming.crlf.terminator).length ≠ 32 := by
        rw [List.length_append, hk]
        decide
      rw [if_neg (fun hwell => hlen hwell.1)] at hrun
      refine iff_of_false ?_ (by simp)
      rintro ⟨f, hf, hregisters⟩
      obtain rfl := invoke_unique hrun hf
      have hnone := (hregisters (UInt32.ofNat n) k).mpr ⟨rfl, rfl⟩
      simp [Registers] at hnone

theorem sent_msgResult (buf : Bytes) (len : UInt16) (ret iRet : Int8) :
    [.espushMsg buf len ret, msgResult iRet].filterMap Call.sent = [buf.take len.toNat] := by
  have hreply : (msgResult iRet).sent = none := by
    rcases msgResult_cases iRet with h | h | h <;> rw [h] <;> rfl
  have hmsg : (Call.espushMsg buf len ret).sent = some (buf.take len.toNat) := rfl
  rw [List.filterMap_cons_some hmsg, List.filterMap_cons_none hreply, List.filterMap_nil]

/-- What is sent is the front of the memory behind the `=`, as long as the wrapped
length says. -/
theorem sendsExactly_iff_take {s : Bytes} (h : 0 ∉ s) (htext : s ++ F.terminator ≠ crlf) :
    SendsExactly S d F rest s h ↔
      (s ++ F.terminator ++ 0 :: rest).take (pushLen (s ++ F.terminator).length).toNat = s := by
  have hrun := invoke_atSetupCmdPushMessage (S := S) (d := d) (p := F.param s h rest) htext rfl
  constructor
  · rintro ⟨f, hf, hcalls⟩
    obtain rfl := invoke_unique hrun hf
    rw [sent_msgResult] at hcalls
    exact (List.cons.inj hcalls).1
  · intro htake
    refine ⟨_, hrun, ?_⟩
    rw [sent_msgResult]
    exact congrArg (fun b => [b]) htake

/-- Two bytes come off the length, so only a line end behind the message saves it. -/
theorem sendsExactly_iff {s : Bytes} (hne : s ≠ []) (hlen : s.length ≤ 65535) (h : 0 ∉ s) :
    SendsExactly S d F rest s h ↔ F = .crlf := by
  have hpos : 0 < s.length := List.length_pos_iff.mpr hne
  cases F with
  | bare =>
      refine iff_of_false ?_ (by simp)
      by_cases hcrlf : s ++ ParamFraming.bare.terminator = crlf
      · rintro ⟨f, hf, hcalls⟩
        have hrun := invoke_atSetupCmdPushMessage_of_empty (S := S)
          (p := ParamFraming.bare.param s h rest) hcrlf d
        obtain rfl := invoke_unique hrun hf
        exact List.cons_ne_nil s [] hcalls.symm
      · rw [sendsExactly_iff_take h hcrlf]
        intro htake
        have hlength := congrArg List.length htake
        rw [show s ++ ParamFraming.bare.terminator = s from List.append_nil s, List.length_take,
          List.length_append, List.length_cons, pushLen_toNat] at hlength
        omega
  | crlf =>
      refine iff_of_true ?_ rfl
      have hcrlf : s ++ ParamFraming.crlf.terminator ≠ crlf := by
        intro heq
        have hlength := congrArg List.length heq
        rw [List.length_append] at hlength
        simp [ParamFraming.terminator] at hlength
        exact hne hlength
      have hsize : (s ++ ParamFraming.crlf.terminator).length = s.length + 2 := by
        rw [List.length_append]
        rfl
      rw [sendsExactly_iff_take h hcrlf, hsize, (pushLen_eq_iff s.length).mpr (by omega),
        List.append_assoc, List.take_left]

theorem namesExactly_iff {s : Bytes} (h : 0 ∉ s) : NamesExactly S d F rest s h ↔ F = .bare := by
  have hrun := invoke_atSetupHostName (S := S) (F.param s h rest) d rfl
  have hname : NamesExactly S d F rest s h ↔ s ++ F.terminator = s := by
    constructor
    · rintro ⟨f, hf, hcalls⟩
      obtain rfl := invoke_unique hrun hf
      simpa [Call.hostname, ParamFraming.param] using hcalls
    · intro heq
      refine ⟨_, hrun, ?_⟩
      simpa [Call.hostname, ParamFraming.param] using heq
  rw [hname]
  cases F with
  | bare => simp [ParamFraming.terminator]
  | crlf => simp [ParamFraming.terminator, EspushAt.crlf, ascii]

/-- A convention under which the three handlers do what was typed, for every payload. -/
structure SharedFraming (S : Services σ) (d : Device σ) (F : ParamFraming) : Prop where
  registers : ∀ rest n k h, 0 < n → n < 2 ^ 31 → k.length = 32 → RegistersExactly S d F rest n k h
  sends : ∀ rest s h, s ≠ [] → s.length ≤ 65535 → SendsExactly S d F rest s h
  names : ∀ rest s h, NamesExactly S d F rest s h

/-- `AT+PUSH_CUR` and `AT+HOSTNAME` are right for a payload exactly under the bare
convention and `AT+PUSHMSG` exactly under the other one, whatever the payload; so no
convention is shared. -/
theorem no_sharedFraming (S : Services σ) (d : Device σ) :
    (∀ F rest n k h, 0 < n → n < 2 ^ 31 → k.length = 32 →
        (RegistersExactly S d F rest n k h ↔ F = .bare)) ∧
      (∀ F rest s h, s ≠ [] → s.length ≤ 65535 → (SendsExactly S d F rest s h ↔ F = .crlf)) ∧
      (∀ F rest s h, NamesExactly S d F rest s h ↔ F = .bare) ∧
      ∀ F, ¬ SharedFraming S d F := by
  refine ⟨?_, ?_, ?_, ?_⟩
  · intro F rest n k h hpos hn hk
    exact registersExactly_iff hpos hn hk h
  · intro F rest s h hne hlen
    exact sendsExactly_iff hne hlen h
  · intro F rest s h
    exact namesExactly_iff h
  · intro F hshared
    have hnames : F = .bare :=
      (namesExactly_iff (by simp)).mp (hshared.names [] [] (by simp))
    have hsends : F = .crlf := (sendsExactly_iff (by decide) (by decide) (by decide)).mp
      (hshared.sends [] (ascii "a") (by decide) (by decide) (by decide))
    rw [hnames] at hsends
    exact absurd hsends (by decide)

/-- `hi` as a message and `a` as a host name: no convention is right for both. -/
theorem no_framing_for_message_and_hostname :
    ¬ ∃ F, SendsExactly Reference.services Reference.device F []
        (ascii "hi") (by decide) ∧
      NamesExactly Reference.services Reference.device F []
        (ascii "a") (by decide) := by
  rintro ⟨F, hsends, hnames⟩
  rw [sendsExactly_iff (by decide) (by decide)] at hsends
  rw [namesExactly_iff, hsends] at hnames
  exact absurd hnames (by decide)

end Framing

end EspushAt
