import EspushAt.Device.Reference

/-!
# Numbers that are cut to a byte

`AT+INTERVAL` and the two pin commands read a number with `atoi`, put it into a `uint8`
and test what is left of it: the interval against 30, the pin against the last pin of the
table. So a number from 256 on can pass as a small one, and a pin the table leaves out
passes as long as a later one is in it.
-/

namespace EspushAt

open CString Decimal

variable {σ : Type}

/-- The parameter is this number in decimal, as `atoi` reads it. -/
def Param.Gives (p : Param) (n : Nat) : Prop := atoiValue p.text = n

instance (p : Param) (n : Nat) : Decidable (p.Gives n) :=
  inferInstanceAs (Decidable (atoiValue p.text = n))

/-- `AT+INTERVAL` sets the heartbeat to the number given, if that is 30 at least, or
refuses it. -/
def SetsInterval (S : Services σ) (d : Device σ) (p : Param) (n : Nat) : Prop :=
  ∃ f, invoke (atSetupInterval S 0) p.block d = some f ∧
    (30 ≤ n ∧ f.calls = [.espushSetHeartbeat (Int32.ofNat n), .atResponseOk] ∨
      f.calls = [.atResponseError])

/-- The pins of the table. -/
def gpioPins : List Nat := glGpioMap.map UInt8.toNat

/-- The pin a call of `set_gpio_edge` is about. -/
def Call.edgePin : Call → Option Nat
  | .setGpioEdge pin _ _ => some pin.toNat
  | _ => none

/-- A pin command calls `set_gpio_edge` with the number given, if that is a pin of the
table, and refuses every other number without such a call. -/
def DrivesPin (handler : Ptr → AtM σ Unit) (d : Device σ) (p : Param) (n : Nat) : Prop :=
  ∃ f, invoke (handler 0) p.block d = some f ∧
    f.calls.filterMap Call.edgePin = (if n ∈ gpioPins then [n] else []) ∧
    (n ∉ gpioPins → .atResponseError ∈ f.calls)

/-- The three commands apply the number given or refuse it. -/
structure AppliesAsGiven (S : Services σ) (d : Device σ) (p : Param) (n : Nat) : Prop where
  interval : SetsInterval S d p n
  low : DrivesPin (atSetupGPIOEdgeLow S) d p n
  high : DrivesPin (atSetupGPIOEdgeHigh S) d p n

variable {S : Services σ} {d : Device σ} {p : Param} {n : Nat}

theorem Param.gives_of_text (h : p.text = decimal n) : p.Gives n := by
  rw [Gives, h, atoiValue_decimal]

/-- What the `uint8` holds of the number. -/
theorem toNat_narrow (hn : n < 2 ^ 31) (hp : p.Gives n) :
    (S.atoi p.text).toUInt32.toUInt8.toNat = n % 256 := by
  rw [S.atoi_toUInt32 hp hn, UInt32.toNat_toUInt8, UInt32.toNat_ofNat']
  omega

theorem int32OfNat_inj {m n : Nat} (hm : m < 2 ^ 31) (hn : n < 2 ^ 31)
    (h : Int32.ofNat m = Int32.ofNat n) : m = n := by
  have hint := congrArg Int32.toInt h
  rw [Int32.toInt_ofNat_of_lt hm, Int32.toInt_ofNat_of_lt hn] at hint
  exact Int.ofNat_inj.mp hint

/-- The interval set is the number given below 256 only. -/
theorem setsInterval_iff (hn : n < 2 ^ 31) (hp : p.Gives n) :
    SetsInterval S d p n ↔ n < 256 ∨ n % 256 < 30 := by
  have hbyte := toNat_narrow (S := S) hn hp
  have hrun := invoke_atSetupInterval (S := S) p d
  simp only at hrun
  by_cases hlow : (S.atoi p.text).toUInt32.toUInt8 < 30
  · rw [if_pos hlow] at hrun
    have hlt : n % 256 < 30 := by
      rw [← hbyte]
      exact UInt8.lt_iff_toNat_lt.mp hlow
    exact iff_of_true ⟨_, hrun, .inr rfl⟩ (.inr hlt)
  · rw [if_neg hlow, hbyte] at hrun
    have hge : 30 ≤ n % 256 := by
      rw [← hbyte]
      exact UInt8.le_iff_toNat_le.mp (UInt8.not_lt.mp hlow)
    constructor
    · rintro ⟨f, hf, hcalls⟩
      obtain rfl := invoke_unique hrun hf
      rcases hcalls with ⟨-, hcalls⟩ | hcalls
      · have hsec := Call.espushSetHeartbeat.inj (List.cons.inj hcalls).1
        have hsame := int32OfNat_inj (by omega) hn hsec
        omega
      · simp at hcalls
    · intro hsmall
      have hsame : n % 256 = n := by omega
      refine ⟨_, hrun, .inl ⟨by omega, ?_⟩⟩
      rw [hsame]

theorem edgePins_edgeResult (pin edge ret ret' : UInt8) :
    [.setGpioEdge pin edge ret, edgeResult ret'].filterMap Call.edgePin = [pin.toNat] := by
  have hreply : (edgeResult ret').edgePin = none := by
    rcases edgeResult_cases ret' with h | h <;> rw [h] <;> rfl
  have hcall : (Call.setGpioEdge pin edge ret).edgePin = some pin.toNat := rfl
  rw [List.filterMap_cons_some hcall, List.filterMap_cons_none hreply, List.filterMap_nil]

theorem le_of_mem_gpioPins : ∀ n ∈ gpioPins, n ≤ 15 := by decide

/-- Of the numbers whose low byte is no larger than the last pin, only the pins of the
table are treated right. -/
theorem drivesPin_iff (edge : UInt8) (hn : n < 2 ^ 31) (hp : p.Gives n) :
    DrivesPin (atSetupGPIOEdge S edge) d p n ↔ n ∈ gpioPins ∨ 15 < n % 256 := by
  have hbyte := toNat_narrow (S := S) hn hp
  have hpins : n ∈ gpioPins → n ≤ 15 := le_of_mem_gpioPins n
  have hrun := invoke_atSetupGPIOEdge (S := S) p d edge rfl
  by_cases hhigh : (S.atoi p.text).toUInt32.toUInt8 > 15
  · rw [if_pos hhigh] at hrun
    have hgt : 15 < n % 256 := by
      rw [← hbyte]
      exact UInt8.lt_iff_toNat_lt.mp hhigh
    have hout : n ∉ gpioPins := by
      intro hmem
      have := hpins hmem
      omega
    refine iff_of_true ⟨_, hrun, ?_, fun _ => List.mem_cons_self⟩ (.inr hgt)
    rw [if_neg hout]
    rfl
  · rw [if_neg hhigh] at hrun
    have hle : n % 256 ≤ 15 := by
      rw [← hbyte]
      exact UInt8.le_iff_toNat_le.mp (UInt8.not_lt.mp hhigh)
    constructor
    · rintro ⟨f, hf, hpins', -⟩
      obtain rfl := invoke_unique hrun hf
      by_contra hout
      rw [edgePins_edgeResult, if_neg (not_or.mp hout).1] at hpins'
      simp at hpins'
    · intro hin
      have hmem : n ∈ gpioPins := hin.resolve_right (Nat.not_lt.mpr hle)
      have hsame : n % 256 = n := by
        have := hpins hmem
        omega
      refine ⟨_, hrun, ?_, fun hout => absurd hmem hout⟩
      rw [edgePins_edgeResult, hbyte, hsame, if_pos hmem]

/-- `AT+INTERVAL` applies the number given or refuses it exactly when the number is below
256 or its low byte an interval too short; either pin command does exactly when the number
is a pin of the table or its low byte lies beyond the last one. -/
theorem appliesAsGiven_iff (S : Services σ) (d : Device σ) {p : Param} {n : Nat}
    (hn : n < 2 ^ 31) (hp : p.Gives n) :
    (SetsInterval S d p n ↔ n < 256 ∨ n % 256 < 30) ∧
      (DrivesPin (atSetupGPIOEdgeLow S) d p n ↔ n ∈ gpioPins ∨ 15 < n % 256) ∧
      (DrivesPin (atSetupGPIOEdgeHigh S) d p n ↔ n ∈ gpioPins ∨ 15 < n % 256) :=
  ⟨setsInterval_iff hn hp, drivesPin_iff 0 hn hp, drivesPin_iff 1 hn hp⟩

/-- `AT+INTERVAL=300` would set 44 seconds, and as a pin 300 is refused. -/
theorem appliesAsGiven_iff_300 :
    (SetsInterval Reference.services Reference.device
        (Reference.paramOf "300" (by decide)) 300 ↔ 300 < 256 ∨ 300 % 256 < 30) ∧
      (DrivesPin (atSetupGPIOEdgeLow Reference.services) Reference.device
        (Reference.paramOf "300" (by decide)) 300 ↔ 300 ∈ gpioPins ∨ 15 < 300 % 256) ∧
      (DrivesPin (atSetupGPIOEdgeHigh Reference.services) Reference.device
        (Reference.paramOf "300" (by decide)) 300 ↔ 300 ∈ gpioPins ∨ 15 < 300 % 256) :=
  appliesAsGiven_iff _ _ (by decide) (Param.gives_of_text (by decide))

/-- 286 is set as 30 seconds, and pin 6, which the table leaves out, is passed to
`set_gpio_edge`. -/
theorem not_appliesAsGiven_286 :
    ¬ AppliesAsGiven Reference.services Reference.device
        (Reference.paramOf "286" (by decide)) 286 ∧
      ¬ AppliesAsGiven Reference.services Reference.device
        (Reference.paramOf "6" (by decide)) 6 := by
  constructor
  · rintro ⟨⟨f, hrun, hcalls⟩, -, -⟩
    obtain rfl := Option.some.inj hrun
    revert hcalls
    decide
  · rintro ⟨-, ⟨f, hrun, hpins, -⟩, -⟩
    obtain rfl := Option.some.inj hrun
    exact absurd hpins (by decide)

end EspushAt
