import EspushAt.Device.Keys
import EspushAt.Foundations.Machine
import Mathlib.Data.List.Induction

/-!
# What a key does

A key is up or down. While it is down its long press may still be to come and it may be
being checked whether it is up again. `button` is that machine: its outputs are the
presses of the key, each with its time. On a board whose keys have pins of their own every
key is a `button`, however interrupts, callbacks and time are interleaved, so what holds
of the presses of a button holds of the functions the driver calls.
-/

namespace EspushAt

open Transition

variable {κ : Type}

/-! ### The button -/

/-- The times at which the long press and the check are due, when they are. -/
inductive Phase where
  | up
  | down (long check : Option Nat)
  deriving DecidableEq

structure Button where
  phase : Phase
  now : Nat
  deriving DecidableEq

/-- An edge that raises an interrupt, the callbacks of the two timers with the level they
read, and time. -/
inductive ButtonInput where
  | edge
  | long (low : Bool)
  | check (high : Bool)
  | pass (ms : Nat)
  | other

inductive PressKind where
  | long
  | short
  deriving DecidableEq

structure Press where
  kind : PressKind
  time : Nat
  deriving DecidableEq

/-- An edge presses a key that is up, and makes one that is down be checked 50 ms later.
An edge in between would put the check off, but the pin raises none then. -/
def button : Machine Button ButtonInput Press where
  next b
    | .edge =>
        match b.phase with
        | .up => { b with phase := .down (some (b.now + 5000)) none }
        | .down long _ => { b with phase := .down long (some (b.now + 50)) }
    | .long _ =>
        match b.phase with
        | .up => b
        | .down long check => if isDue long b.now then { b with phase := .down none check } else b
    | .check high =>
        match b.phase with
        | .up => b
        | .down long check =>
            if isDue check b.now then
              { b with phase := if high then .up else .down long none }
            else b
    | .pass ms => { b with now := b.now + ms }
    | .other => b
  out b
    | .long low =>
        match b.phase with
        | .up => []
        | .down long _ => if isDue long b.now && low then [⟨.long, b.now⟩] else []
    | .check high =>
        match b.phase with
        | .up => []
        | .down _ check => if isDue check b.now && high then [⟨.short, b.now⟩] else []
    | .edge | .pass _ | .other => []

/-- What a press may be followed by. A long press takes five seconds from the release
before it, and is not repeated; between two releases there are 50 ms. -/
structure Follows (p q : Press) : Prop where
  time_le : p.time ≤ q.time
  long : q.kind = .long → p.kind = .short ∧ p.time + 5000 ≤ q.time
  short : q.kind = .short → p.kind = .short → p.time + 50 ≤ q.time

/-- A state of the button in which its last press was this one. -/
def After (p : Press) (b : Button) : Prop :=
  p.time ≤ b.now ∧
    match b.phase with
    | .up => p.kind = .short
    | .down long check =>
        (∀ t, long = some t → p.kind = .short ∧ p.time + 5000 ≤ t) ∧
          (p.kind = .short → ∀ t, check = some t → p.time + 50 ≤ t)

theorem isDue_eq_true_iff {timer : Option Nat} {now : Nat} :
    isDue timer now = true ↔ ∃ t, timer = some t ∧ t ≤ now := by
  cases timer <;> simp [isDue]

section Presses

variable {b : Button} {p : Press}

theorem after_edge (h : After p b) : After p (button.next b .edge) := by
  obtain ⟨hle, hphase⟩ := h
  obtain ⟨phase, now⟩ := b
  dsimp only at hle
  cases phase with
  | up =>
      refine ⟨hle, ?_, by simp⟩
      rintro t ⟨⟩
      exact ⟨hphase, Nat.add_le_add_right hle 5000⟩
  | down long check =>
      refine ⟨hle, hphase.1, ?_⟩
      rintro _ t ⟨⟩
      exact Nat.add_le_add_right hle 50

/-- An input makes no press, or one that may follow the last. -/
theorem after_step (h : After p b) (i : ButtonInput) :
    (button.out b i = [] ∧ After p (button.next b i)) ∨
      ∃ q, button.out b i = [q] ∧ Follows p q ∧ After q (button.next b i) := by
  obtain ⟨phase, now⟩ := b
  cases i with
  | edge => exact .inl ⟨rfl, after_edge h⟩
  | pass ms => exact .inl ⟨rfl, h.1.trans (Nat.le_add_right _ _), h.2⟩
  | other => exact .inl ⟨rfl, h⟩
  | long low =>
      cases phase with
      | up => exact .inl ⟨rfl, h⟩
      | down long check =>
          cases hdue : isDue long now with
          | false => exact .inl ⟨by simp [button, hdue], by simpa [button, hdue] using h⟩
          | true =>
              obtain ⟨hle, hlong, hcheck⟩ := h
              obtain ⟨t, rfl, ht⟩ := isDue_eq_true_iff.mp hdue
              obtain ⟨hshort, htime⟩ := hlong t rfl
              cases low with
              | false =>
                  refine .inl ⟨by simp [button], ?_⟩
                  simp only [button, hdue, if_true]
                  exact ⟨hle, by simp, hcheck⟩
              | true =>
                  refine .inr ⟨⟨.long, now⟩, by simp [button, hdue], ?_, ?_⟩
                  · exact ⟨hle, fun _ => ⟨hshort, htime.trans ht⟩, by simp⟩
                  · simp only [button, hdue, if_true]
                    exact ⟨Nat.le_refl _, by simp, by simp⟩
  | check high =>
      cases phase with
      | up => exact .inl ⟨rfl, h⟩
      | down long check =>
          cases hdue : isDue check now with
          | false => exact .inl ⟨by simp [button, hdue], by simpa [button, hdue] using h⟩
          | true =>
              obtain ⟨hle, hlong, hcheck⟩ := h
              obtain ⟨t, rfl, ht⟩ := isDue_eq_true_iff.mp hdue
              cases high with
              | false =>
                  refine .inl ⟨by simp [button], ?_⟩
                  simp only [button, hdue, if_true]
                  exact ⟨hle, hlong, by simp⟩
              | true =>
                  refine .inr ⟨⟨.short, now⟩, by simp [button, hdue], ?_, ?_⟩
                  · exact ⟨hle, by simp, fun _ hkind => (hcheck hkind t rfl).trans ht⟩
                  · simp only [button, hdue, if_true]
                    exact ⟨Nat.le_refl _, rfl⟩

/-- Each press may follow the one before it. -/
theorem isChain_outputs (h : After p b) (is : List ButtonInput) :
    (p :: button.outputs b is).IsChain Follows := by
  induction is generalizing p b with
  | nil => exact .singleton p
  | cons i is ih =>
      rw [Machine.outputs_cons]
      obtain ⟨hout, hafter⟩ | ⟨q, hout, hfollows, hafter⟩ := after_step h i
      · rw [hout]
        exact ih hafter
      · rw [hout]
        exact List.isChain_cons_cons.mpr ⟨hfollows, ih hafter⟩

end Presses

/-! ### Where presses come from -/

/-- The edge behind a check: none came since, and the check is due 50 ms after it. -/
def CheckedSince (b : Button) (is : List ButtonInput) (t : Nat) : Prop :=
  ∃ front back, is = front ++ .edge :: back ∧ .edge ∉ back ∧ t = (button.after b front).now + 50

/-- The edge behind a long press: it found the key up, no press came since, and the long
press is due five seconds after it. -/
def HeldSince (b : Button) (is : List ButtonInput) (t : Nat) : Prop :=
  ∃ front back, is = front ++ .edge :: back ∧ (button.after b front).phase = .up ∧
    button.outputs (button.after b front) (.edge :: back) = [] ∧
    t = (button.after b front).now + 5000

/-- Every timer that is armed was armed by an edge. -/
def Origins (b : Button) (is : List ButtonInput) : Prop :=
  ∀ long check, (button.after b is).phase = .down long check →
    (∀ t, long = some t → HeldSince b is t) ∧ (∀ t, check = some t → CheckedSince b is t)

section Origins

variable {b : Button} {is : List ButtonInput} {i : ButtonInput}

theorem CheckedSince.append {t : Nat} (h : CheckedSince b is t) (hi : i ≠ .edge) :
    CheckedSince b (is ++ [i]) t := by
  obtain ⟨front, back, rfl, hedge, ht⟩ := h
  refine ⟨front, back ++ [i], by simp, ?_, ht⟩
  simpa [hedge] using Ne.symm hi

theorem HeldSince.append {t : Nat} (h : HeldSince b is t)
    (hout : button.out (button.after b is) i = []) : HeldSince b (is ++ [i]) t := by
  obtain ⟨front, back, rfl, hup, houts, ht⟩ := h
  refine ⟨front, back ++ [i], by simp, hup, ?_, ht⟩
  rw [Machine.after_append] at hout
  have hlast : button.outputs (button.after (button.after b front) (.edge :: back)) [i] = [] := by
    rw [Machine.outputs_cons, Machine.outputs_nil, hout]
    rfl
  rw [← List.cons_append, Machine.outputs_append, houts, hlast]
  rfl

/-- An input that arms no timer keeps where the armed ones come from. -/
theorem origins_append_of_quiet (h : Origins b is) (hi : i ≠ .edge)
    (hlong : ∀ long check, (button.next (button.after b is) i).phase = .down long check →
      ∃ long' check', (button.after b is).phase = .down long' check' ∧
        (long = none ∨ long = long' ∧ button.out (button.after b is) i = []) ∧
        (check = none ∨ check = check')) : Origins b (is ++ [i]) := by
  intro long check hphase
  rw [Machine.after_append] at hphase
  obtain ⟨long', check', hbefore, hl, hc⟩ := hlong long check hphase
  obtain ⟨hheld, hchecked⟩ := h long' check' hbefore
  constructor
  · rintro t rfl
    obtain hnone | ⟨rfl, hout⟩ := hl
    · exact absurd hnone (by simp)
    · exact (hheld t rfl).append hout
  · rintro t rfl
    obtain hnone | rfl := hc
    · exact absurd hnone (by simp)
    · exact (hchecked t rfl).append hi

theorem origins_edge (h : Origins b is) : Origins b (is ++ [.edge]) := by
  intro long check hphase
  rw [Machine.after_append] at hphase
  have hphase : (button.next (button.after b is) .edge).phase = .down long check := hphase
  rcases hbefore : button.after b is with ⟨phase, now⟩
  rw [hbefore] at hphase
  cases phase with
  | up =>
      obtain ⟨rfl, rfl⟩ := Phase.down.inj hphase
      refine ⟨?_, by simp⟩
      rintro t ⟨⟩
      exact ⟨is, [], rfl, by rw [hbefore], by rw [hbefore]; rfl, by rw [hbefore]⟩
  | down long' check' =>
      obtain ⟨rfl, rfl⟩ := Phase.down.inj hphase
      refine ⟨?_, ?_⟩
      · rintro t rfl
        exact ((h _ _ (congrArg Button.phase hbefore)).1 t rfl).append rfl
      · rintro t ⟨⟩
        exact ⟨is, [], rfl, by simp, by rw [hbefore]⟩

theorem origins_append (h : Origins b is) (i : ButtonInput) : Origins b (is ++ [i]) := by
  cases i with
  | edge => exact origins_edge h
  | pass ms => exact origins_append_of_quiet h (by simp) fun l c hp =>
      ⟨l, c, hp, .inr ⟨rfl, rfl⟩, .inr rfl⟩
  | other => exact origins_append_of_quiet h (by simp) fun l c hp =>
      ⟨l, c, hp, .inr ⟨rfl, rfl⟩, .inr rfl⟩
  | long low =>
      refine origins_append_of_quiet h (by simp) fun l c hp => ?_
      rcases hbefore : button.after b is with ⟨phase, now⟩
      rw [hbefore] at hp
      cases phase with
      | up => simp [button] at hp
      | down l' c' =>
          cases hdue : isDue l' now with
          | true =>
              simp only [button, hdue, if_true] at hp
              obtain ⟨rfl, rfl⟩ := Phase.down.inj hp
              exact ⟨l', c', rfl, .inl rfl, .inr rfl⟩
          | false =>
              simp only [button, hdue, Bool.false_eq_true, if_false] at hp
              obtain ⟨rfl, rfl⟩ := Phase.down.inj hp
              exact ⟨l', c', rfl, .inr ⟨rfl, by simp [button, hdue]⟩, .inr rfl⟩
  | check high =>
      refine origins_append_of_quiet h (by simp) fun l c hp => ?_
      rcases hbefore : button.after b is with ⟨phase, now⟩
      rw [hbefore] at hp
      cases phase with
      | up => simp [button] at hp
      | down l' c' =>
          cases hdue : isDue c' now with
          | true =>
              cases high with
              | true => simp [button, hdue] at hp
              | false =>
                  simp only [button, hdue, if_true, Bool.false_eq_true, if_false] at hp
                  obtain ⟨rfl, rfl⟩ := Phase.down.inj hp
                  exact ⟨l', c', rfl, .inr ⟨rfl, by simp [button]⟩, .inl rfl⟩
          | false =>
              simp only [button, hdue, Bool.false_eq_true, if_false] at hp
              obtain ⟨rfl, rfl⟩ := Phase.down.inj hp
              exact ⟨l', c', rfl, .inr ⟨rfl, by simp [button, hdue]⟩, .inr rfl⟩

/-- From a key that is up, whatever happened, an armed timer comes from an edge. -/
theorem origins_of_up (hup : b.phase = .up) (is : List ButtonInput) : Origins b is := by
  induction is using List.reverseRecOn with
  | nil =>
      intro long check hphase
      exact absurd (hup.symm.trans hphase) (by simp)
  | append_singleton is i ih => exact origins_append ih i

/-- A short press was checked 50 ms after the last interrupt, and a long press comes five
seconds after the edge that pressed the key. -/
theorem origin_of_press (hup : b.phase = .up) {q : Press}
    (hq : q ∈ button.out (button.after b is) i) :
    (q.kind = .short → ∃ t, CheckedSince b is t ∧ t ≤ q.time) ∧
      (q.kind = .long → ∃ t, HeldSince b is t ∧ t ≤ q.time) := by
  have horigins := origins_of_up hup is
  rcases hbefore : button.after b is with ⟨phase, now⟩
  rw [hbefore] at hq
  cases phase with
  | up => cases i <;> simp [button] at hq
  | down long check =>
      obtain ⟨hheld, hchecked⟩ := horigins long check (congrArg Button.phase hbefore)
      cases i with
      | long low =>
          obtain ⟨⟨hdue, -⟩, rfl⟩ : (isDue long now = true ∧ low = true) ∧ q = ⟨.long, now⟩ := by
            simpa [button] using hq
          obtain ⟨t, rfl, ht⟩ := isDue_eq_true_iff.mp hdue
          exact ⟨by simp, fun _ => ⟨t, hheld t rfl, ht⟩⟩
      | check high =>
          obtain ⟨⟨hdue, -⟩, rfl⟩ : (isDue check now = true ∧ high = true) ∧ q = ⟨.short, now⟩ := by
            simpa [button] using hq
          obtain ⟨t, rfl, ht⟩ := isDue_eq_true_iff.mp hdue
          exact ⟨fun _ => ⟨t, hchecked t rfl, ht⟩, by simp⟩
      | _ => simp [button] at hq

theorem now_le_next (b : Button) (i : ButtonInput) : b.now ≤ (button.next b i).now := by
  obtain ⟨phase, now⟩ := b
  cases i with
  | edge => cases phase <;> exact Nat.le_refl now
  | pass ms => exact Nat.le_add_right now ms
  | other => exact Nat.le_refl now
  | long low =>
      cases phase with
      | up => exact Nat.le_refl now
      | down long check =>
          simp only [button]
          split_ifs <;> exact Nat.le_refl now
  | check high =>
      cases phase with
      | up => exact Nat.le_refl now
      | down long check =>
          simp only [button]
          split_ifs <;> exact Nat.le_refl now

theorem now_le_after (b : Button) (is : List ButtonInput) : b.now ≤ (button.after b is).now := by
  induction is generalizing b with
  | nil => exact Nat.le_refl b.now
  | cons i is ih => exact (now_le_next b i).trans (ih (button.next b i))

/-- A check is never further away than 50 ms. -/
theorem CheckedSince.le {t : Nat} (h : CheckedSince b is t) : t ≤ (button.after b is).now + 50 := by
  obtain ⟨front, back, rfl, -, rfl⟩ := h
  rw [Machine.after_append]
  exact Nat.add_le_add_right (now_le_after _ _) 50

theorem eq_of_mem_out_check {high : Bool} {q : Press} (hq : q ∈ button.out b (.check high)) :
    q = ⟨.short, b.now⟩ := by
  obtain ⟨phase, now⟩ := b
  cases phase with
  | up => simp [button] at hq
  | down long check => exact (by simpa [button] using hq : _ ∧ q = ⟨.short, now⟩).2

/-- A release is seen by a check that was pending, in a high level. -/
theorem high_of_mem_out_check {high : Bool} {q : Press} (hq : q ∈ button.out b (.check high)) :
    high = true ∧ ∃ long t, b.phase = .down long (some t) := by
  obtain ⟨phase, now⟩ := b
  cases phase with
  | up => simp [button] at hq
  | down long check =>
      obtain ⟨⟨hdue, hhigh⟩, -⟩ : (isDue check now = true ∧ high = true) ∧ q = ⟨.short, now⟩ := by
        simpa [button] using hq
      obtain ⟨t, rfl, -⟩ := isDue_eq_true_iff.mp hdue
      exact ⟨hhigh, long, t, rfl⟩

theorem eq_of_mem_out_long {low : Bool} {q : Press} (hq : q ∈ button.out b (.long low)) :
    q = ⟨.long, b.now⟩ := by
  obtain ⟨phase, now⟩ := b
  cases phase with
  | up => simp [button] at hq
  | down long check => exact (by simpa [button] using hq : _ ∧ q = ⟨.long, now⟩).2

end Origins

/-! ### Boards -/

/-- The fields of a key that `key_init_single` sets for good. -/
structure KeyConfig (κ : Type) where
  gpioId : UInt8
  gpioName : UInt32
  gpioFunc : UInt8
  longPress : Option κ
  shortPress : Option κ

def SingleKey.config (key : SingleKey κ) : KeyConfig κ :=
  ⟨key.gpioId, key.gpioName, key.gpioFunc, key.longPress, key.shortPress⟩

/-- The keys of a program: each on a pin of its own. -/
structure KeySetup (κ : Type) where
  configs : List (KeyConfig κ)
  nodup : (configs.map KeyConfig.gpioId).Nodup
  pins : ∀ c ∈ configs, c.gpioId < 16

/-- The keys as `key_init_single` makes them. -/
def KeySetup.keys (s : KeySetup κ) : List (SingleKey κ) :=
  s.configs.map fun c => keyInitSingle c.gpioId c.gpioName c.gpioFunc c.longPress c.shortPress

/-- The board once `key_init` has returned. -/
def KeySetup.start (s : KeySetup κ) (intr : UInt8 → GpioIntType) (now : Nat) : Board κ :=
  (keyInit ⟨s.keys, intr, now⟩).board

/-- A key on the pin 12 that tells its presses, and a board that has another one on 14. -/
def KeyConfig.first : KeyConfig PressKind := ⟨12, 0x60000804, 3, some .long, some .short⟩

def KeySetup.pair : KeySetup PressKind where
  configs := [.first, ⟨14, 0x6000080C, 3, some .long, some .short⟩]
  nodup := by decide
  pins := by decide

/-- The first key is pressed and its contact bounces: the check after the first rising edge
finds it low, and a second rising edge starts another one. -/
def bounce : List KeyEvent :=
  [.intr (pinBit 12), .pass 20, .intr (pinBit 12), .pass 50, .fire50ms 0 0, .pass 20,
    .intr (pinBit 12), .pass 50]

/-- The first key is pressed and held. -/
def hold : List KeyEvent := [.intr (pinBit 12), .pass 5000]

/-- A key and the interrupt type of its pin go together: up it waits for a falling edge
with no timer armed, down for a rising edge, and neither while it is being checked. -/
inductive Consistent : SingleKey κ × GpioIntType → Prop where
  | up {key : SingleKey κ} (hlevel : key.keyLevel = 1) (h5s : key.key5s = none)
      (h50ms : key.key50ms = none) : Consistent (key, .GPIO_PIN_INTR_NEGEDGE)
  | down {key : SingleKey κ} (hlevel : key.keyLevel = 0) (h50ms : key.key50ms = none) :
      Consistent (key, .GPIO_PIN_INTR_POSEDGE)
  | checking {key : SingleKey κ} {t : Nat} (hlevel : key.keyLevel = 0)
      (h50ms : key.key50ms = some t) : Consistent (key, .GPIO_PIN_INTR_DISABLE)

/-- What holds of every board of a program. -/
structure Sound (s : KeySetup κ) (b : Board κ) : Prop where
  configs : b.singleKey.map SingleKey.config = s.configs
  consistent : ∀ j v, b.view j = some v → Consistent v

section Boards

variable {s : KeySetup κ} {b : Board κ} {e : KeyEvent} {r : KeyResult κ} {j : Nat}
variable {v : SingleKey κ × GpioIntType}

theorem Sound.nodup (h : Sound s b) : b.pins.Nodup := by
  have hpins : b.pins = s.configs.map KeyConfig.gpioId := by
    rw [← h.configs, List.map_map]
    rfl
  rw [hpins]
  exact s.nodup

theorem config_eventAct (now : Nat) : (eventAct j now v e).1.config = v.1.config := by
  cases e with
  | intr gpioStatus =>
      simp only [eventAct, intrAct]
      split_ifs <;> rfl
  | fire5s i gpioInput =>
      simp only [eventAct]
      split_ifs <;> rfl
  | fire50ms i gpioInput =>
      simp only [eventAct, act50ms]
      split_ifs <;> rfl
  | pass ms => rfl

/-- A key whose check is due is being checked. -/
theorem consistent_eventAct (hv : Consistent v) (now : Nat)
    (hdue : ∀ gpioInput, e = .fire50ms j gpioInput → isDue v.1.key50ms now = true) :
    Consistent (eventAct j now v e) := by
  cases e with
  | intr gpioStatus =>
      simp only [eventAct, intrAct]
      cases hv with
      | up hlevel h5s h50ms =>
          split_ifs
          · exact .up hlevel h5s h50ms
          · exact .down rfl h50ms
      | down hlevel h50ms =>
          rw [hlevel]
          split_ifs with hbit hone
          · exact .down hlevel h50ms
          · exact absurd hone (by decide)
          · exact .checking rfl rfl
      | checking hlevel h50ms =>
          rw [hlevel]
          split_ifs with hbit hone
          · exact .checking hlevel h50ms
          · exact absurd hone (by decide)
          · exact .checking rfl rfl
  | fire5s i gpioInput =>
      simp only [eventAct, act5s]
      split_ifs
      · cases hv with
        | up hlevel h5s h50ms => exact .up hlevel rfl h50ms
        | down hlevel h50ms => exact .down hlevel h50ms
        | checking hlevel h50ms => exact .checking hlevel h50ms
      · exact hv
  | fire50ms i gpioInput =>
      simp only [eventAct, act50ms]
      split_ifs with hij hhigh
      · exact .up rfl rfl rfl
      · subst hij
        have harmed := hdue gpioInput rfl
        cases hv with
        | up hlevel h5s h50ms => simp [isDue, h50ms] at harmed
        | down hlevel h50ms => simp [isDue, h50ms] at harmed
        | checking hlevel h50ms => exact .down hlevel rfl
      · exact hv
  | pass ms => exact hv

/-- The callback that runs finds its timer due. -/
theorem isDue_of_step (hstep : keyStep b e = some r) (hview : b.view j = some v) :
    (∀ gpioInput, e = .fire5s j gpioInput → isDue v.1.key5s b.now = true) ∧
      ∀ gpioInput, e = .fire50ms j gpioInput → isDue v.1.key50ms b.now = true := by
  obtain ⟨key, hkey, rfl⟩ := Option.map_eq_some_iff.mp hview
  constructor
  · rintro gpioInput rfl
    simp only [keyStep, hkey] at hstep
    split_ifs at hstep with hdue
    exact hdue
  · rintro gpioInput rfl
    simp only [keyStep, hkey] at hstep
    split_ifs at hstep with hdue
    exact hdue

theorem sound_of_step (h : Sound s b) (hstep : keyStep b e = some r) : Sound s r.board := by
  obtain ⟨-, -, hview⟩ := stepActs_of_step h.nodup hstep
  constructor
  · rw [← h.configs]
    apply List.ext_getElem?
    intro j
    have hj := congrArg (Option.map fun v : SingleKey κ × GpioIntType => v.1.config) (hview j)
    simp only [Option.map_map, Function.comp_def, config_eventAct] at hj
    simpa [Board.view, Function.comp_def] using hj
  · intro j v hv
    rw [hview] at hv
    obtain ⟨w, hw, rfl⟩ := Option.map_eq_some_iff.mp hv
    exact consistent_eventAct (h.consistent j w hw) b.now (isDue_of_step hstep hw).2

theorem KeySetup.map_config_keys (s : KeySetup κ) : s.keys.map SingleKey.config = s.configs := by
  rw [KeySetup.keys, List.map_map]
  exact List.map_id s.configs

theorem KeySetup.nodup_pins (s : KeySetup κ) (intr : UInt8 → GpioIntType) (now : Nat) :
    (Board.mk s.keys intr now).pins.Nodup := by
  have hpins : (Board.mk s.keys intr now).pins = s.configs.map KeyConfig.gpioId := by
    rw [← s.map_config_keys, List.map_map]
    rfl
  rw [hpins]
  exact s.nodup

/-- The keys after `key_init`. -/
theorem view_start (s : KeySetup κ) (intr : UInt8 → GpioIntType) (now j : Nat) :
    (s.start intr now).view j = ((Board.mk s.keys intr now).view j).map (initAct now) :=
  view_forKeys actsOn_keyInitBody (s.nodup_pins intr now) j

/-- `key_init` leaves every key up, on a pin that waits for a falling edge. -/
theorem sound_start (s : KeySetup κ) (intr : UInt8 → GpioIntType) (now : Nat) :
    Sound s (s.start intr now) := by
  constructor
  · rw [← s.map_config_keys]
    apply List.ext_getElem?
    intro j
    have hj := congrArg (Option.map fun v : SingleKey κ × GpioIntType => v.1.config)
      (view_start s intr now j)
    have hinit : ∀ v : SingleKey κ × GpioIntType, (initAct now v).1.config = v.1.config :=
      fun _ => rfl
    simp only [Option.map_map, Function.comp_def, hinit] at hj
    simpa [Board.view, Function.comp_def] using hj
  · intro j v hv
    rw [view_start] at hv
    obtain ⟨w, hw, rfl⟩ := Option.map_eq_some_iff.mp hv
    obtain ⟨key, hkey, rfl⟩ := Option.map_eq_some_iff.mp hw
    obtain ⟨c, -, rfl⟩ := List.mem_map.mp (List.mem_of_getElem? hkey)
    exact .up rfl rfl rfl

/-- A step of a run of the driver. -/
abbrev KeyStep (κ : Type) := Record (Board κ) KeyEvent (KeyResult κ)

/-- In every state of a run every key is consistent with its pin. -/
theorem run_sound {es : List KeyEvent} {steps : List (KeyStep κ)}
    (h : trace keyStep KeyResult.board b es = some steps) (hb : Sound s b) :
    Sound s (final KeyResult.board b steps) ∧ ∀ r ∈ steps, Sound s r.pre :=
  invariant_of_trace (Sound s) (fun _ => True) (fun _ hpre hstep _ => sound_of_step hpre hstep) h
    (fun _ _ => trivial) hb

end Boards

/-! ### Every key is a button -/

/-- A key as a button. -/
def phaseOf (key : SingleKey κ) : Phase :=
  if key.keyLevel = 1 then .up else .down key.key5s key.key50ms

/-- The interrupt a pin is set to: the next press, the release, or none while the release
is being checked. -/
def Phase.intrType : Phase → GpioIntType
  | .up => .GPIO_PIN_INTR_NEGEDGE
  | .down _ none => .GPIO_PIN_INTR_POSEDGE
  | .down _ (some _) => .GPIO_PIN_INTR_DISABLE

/-- Without an edge no check starts. -/
theorem intrType_of_next {b : Button} {i : ButtonInput} (hi : i ≠ .edge)
    (h : (button.next b i).phase.intrType = .GPIO_PIN_INTR_DISABLE) :
    b.phase.intrType = .GPIO_PIN_INTR_DISABLE := by
  obtain ⟨phase, now⟩ := b
  cases i with
  | edge => exact absurd rfl hi
  | pass ms => exact h
  | other => exact h
  | long low =>
      cases phase with
      | up => exact h
      | down long check =>
          simp only [button] at h
          split_ifs at h <;> cases check <;> exact h
  | check high =>
      cases phase with
      | up => exact h
      | down long check =>
          cases check with
          | none => exact h
          | some t => rfl

theorem intrType_of_after {b : Button} {is : List ButtonInput} (hedge : .edge ∉ is)
    (h : (button.after b is).phase.intrType = .GPIO_PIN_INTR_DISABLE) :
    b.phase.intrType = .GPIO_PIN_INTR_DISABLE := by
  induction is generalizing b with
  | nil => exact h
  | cons i is ih =>
      rw [List.mem_cons, not_or] at hedge
      exact intrType_of_next (Ne.symm hedge.1) (ih hedge.2 h)

def Board.button (b : Board κ) (j : Nat) : Button := ⟨(b.singleKey[j]?).elim .up phaseOf, b.now⟩

/-- An event as an input of the key in some place, on a pin. -/
def KeyEvent.input (j : Nat) (pin : UInt8) : KeyEvent → ButtonInput
  | .intr gpioStatus => if gpioStatus &&& pinBit pin = 0 then .other else .edge
  | .fire5s i gpioInput => if i = j then .long (gpioInputGet gpioInput pin = 0) else .other
  | .fire50ms i gpioInput => if i = j then .check (gpioInputGet gpioInput pin = 1) else .other
  | .pass ms => .pass ms

def keyInput (j : Nat) (pin : UInt8) (r : KeyStep κ) : ButtonInput := r.event.input j pin

/-- The functions among some calls. -/
def functions (calls : List (KeyCall κ)) : List κ :=
  calls.filterMap fun
    | .function f => some f
    | _ => none

/-- An event is not a callback of another key. -/
def KeyEvent.concerns (j : Nat) : KeyEvent → Bool
  | .fire5s i _ | .fire50ms i _ => i = j
  | .intr _ | .pass _ => true

/-- The functions a step calls, with the time, unless it is a callback of another key. -/
def calledFor (j : Nat) (r : KeyStep κ) : List (Nat × κ) :=
  if r.event.concerns j then (functions r.result.calls).map (r.pre.now, ·) else []

/-- The function a press calls, if one is installed, with the time. -/
def KeyConfig.installed (c : KeyConfig κ) (p : Press) : List (Nat × κ) :=
  match p.kind with
  | .long => c.longPress.toList.map (p.time, ·)
  | .short => c.shortPress.toList.map (p.time, ·)

section Buttons

variable {s : KeySetup κ} {b : Board κ} {e : KeyEvent} {r : KeyResult κ} {j now : Nat}
variable {v : SingleKey κ × GpioIntType}

theorem phaseOf_eq_down {key : SingleKey κ} (h : key.keyLevel = 0) :
    phaseOf key = .down key.key5s key.key50ms := by
  rw [phaseOf, h]
  rfl

theorem phaseOf_eq_up {key : SingleKey κ} (h : key.keyLevel = 1) : phaseOf key = .up := if_pos h

theorem Consistent.level (hv : Consistent v) :
    v.1.keyLevel = 1 ∧ v.1.key5s = none ∧ v.1.key50ms = none ∨ v.1.keyLevel = 0 := by
  cases hv with
  | up hlevel h5s h50ms => exact .inl ⟨hlevel, h5s, h50ms⟩
  | down hlevel h50ms => exact .inr hlevel
  | checking hlevel h50ms => exact .inr hlevel

/-- A key that is down waits for a rising edge, or is being checked. -/
theorem Consistent.of_down (hv : Consistent v) (hdown : phaseOf v.1 ≠ .up) :
    v.1.keyLevel = 0 ∧ (v.2 = .GPIO_PIN_INTR_POSEDGE ∨ ∃ t, v.1.key50ms = some t) := by
  cases hv with
  | up hlevel h5s h50ms => exact absurd (phaseOf_eq_up hlevel) hdown
  | down hlevel h50ms => exact ⟨hlevel, .inl rfl⟩
  | checking hlevel h50ms => exact ⟨hlevel, .inr ⟨_, h50ms⟩⟩

theorem Consistent.intr_eq (hv : Consistent v) : v.2 = (phaseOf v.1).intrType := by
  cases hv with
  | up hlevel h5s h50ms => rw [phaseOf_eq_up hlevel]; rfl
  | down hlevel h50ms => rw [phaseOf_eq_down hlevel, h50ms]; rfl
  | checking hlevel h50ms => rw [phaseOf_eq_down hlevel, h50ms]; rfl

/-- An interrupt is an edge for the keys whose bit it has. -/
theorem phaseOf_intrAct (hv : Consistent v) (gpioStatus : UInt32) :
    (⟨phaseOf (intrAct gpioStatus now v).1, now⟩ : Button) =
      button.next ⟨phaseOf v.1, now⟩ ((KeyEvent.intr gpioStatus).input j v.1.gpioId) := by
  rw [intrAct, KeyEvent.input]
  by_cases hbit : gpioStatus &&& pinBit v.1.gpioId = 0
  · rw [if_pos hbit, if_pos hbit]
    rfl
  · rw [if_neg hbit, if_neg hbit]
    obtain ⟨hlevel, -, h50ms⟩ | hlevel := hv.level
    · rw [if_pos hlevel, phaseOf_eq_up hlevel, phaseOf_eq_down rfl, h50ms]
      rfl
    · have hne : v.1.keyLevel ≠ 1 := by
        rw [hlevel]
        decide
      rw [if_neg hne, phaseOf_eq_down hlevel]
      simp [phaseOf, hlevel, button]

theorem phaseOf_act5s (hv : Consistent v) (gpioInput : UInt32)
    (hdue : isDue v.1.key5s now = true) :
    (⟨phaseOf (act5s v).1, now⟩ : Button) =
      button.next ⟨phaseOf v.1, now⟩ ((KeyEvent.fire5s j gpioInput).input j v.1.gpioId) := by
  obtain ⟨-, h5s, -⟩ | hlevel := hv.level
  · simp [h5s, isDue] at hdue
  · rw [KeyEvent.input, if_pos rfl, phaseOf_eq_down hlevel]
    simp [act5s, phaseOf, hlevel, button, hdue]

theorem phaseOf_act50ms (hv : Consistent v) (gpioInput : UInt32)
    (hdue : isDue v.1.key50ms now = true) :
    (⟨phaseOf (act50ms gpioInput v).1, now⟩ : Button) =
      button.next ⟨phaseOf v.1, now⟩ ((KeyEvent.fire50ms j gpioInput).input j v.1.gpioId) := by
  obtain ⟨-, -, h50ms⟩ | hlevel := hv.level
  · simp [h50ms, isDue] at hdue
  · rw [KeyEvent.input, if_pos rfl, phaseOf_eq_down hlevel, act50ms]
    by_cases hhigh : gpioInputGet gpioInput v.1.gpioId = 1
    · simp [phaseOf, button, hdue, hhigh]
    · simp [phaseOf, hlevel, button, hdue, hhigh]

/-- What an event does to a consistent key is what its input does to the button. -/
theorem phaseOf_eventAct (hv : Consistent v)
    (h5s : ∀ gpioInput, e = .fire5s j gpioInput → isDue v.1.key5s now = true)
    (h50ms : ∀ gpioInput, e = .fire50ms j gpioInput → isDue v.1.key50ms now = true) :
    (⟨phaseOf (eventAct j now v e).1, now + e.elapsed⟩ : Button) =
      button.next ⟨phaseOf v.1, now⟩ (e.input j v.1.gpioId) := by
  cases e with
  | intr gpioStatus => exact phaseOf_intrAct hv gpioStatus
  | fire5s i gpioInput =>
      by_cases hij : i = j
      · subst hij
        rw [eventAct, if_pos rfl]
        exact phaseOf_act5s hv gpioInput (h5s gpioInput rfl)
      · rw [eventAct, KeyEvent.input, if_neg hij, if_neg hij]
        rfl
  | fire50ms i gpioInput =>
      by_cases hij : i = j
      · subst hij
        rw [eventAct, if_pos rfl]
        exact phaseOf_act50ms hv gpioInput (h50ms gpioInput rfl)
      · rw [eventAct, KeyEvent.input, if_neg hij, if_neg hij]
        rfl
  | pass ms => rfl

/-! The functions a step calls -/

theorem functions_append (calls more : List (KeyCall κ)) :
    functions (calls ++ more) = functions calls ++ functions more :=
  List.filterMap_append

theorem functions_map (fs : List κ) : functions (fs.map KeyCall.function) = fs := by
  induction fs with
  | nil => rfl
  | cons f fs ih => exact congrArg (f :: ·) ih

/-- The interrupt handler calls no function. -/
theorem functions_keyIntrHandler (gpioStatus : UInt32) (b : Board κ) :
    functions (keyIntrHandler gpioStatus b).calls = [] := by
  have hloop : ∀ (keys : List (SingleKey κ)) (intr : UInt8 → GpioIntType),
      functions (forKeys (keyIntrBody gpioStatus) b.now keys intr).2.2 = [] := by
    intro keys
    induction keys with
    | nil => exact fun _ => rfl
    | cons key keys ih =>
        intro intr
        have hbody : functions
            (afterwards (keyIntrBody gpioStatus) ⟨key, intr, b.now, []⟩).calls = [] := by
          rw [afterwards_keyIntrBody]
          split_ifs <;> rfl
        change functions (_ ++ _) = []
        rw [functions_append, hbody, ih]
        rfl
  exact hloop b.singleKey b.intr

theorem Sound.exists_key (h : Sound s b) {c : KeyConfig κ} (hc : s.configs[j]? = some c) :
    ∃ key, b.singleKey[j]? = some key ∧ key.config = c := by
  rw [← h.configs, List.getElem?_map] at hc
  exact Option.map_eq_some_iff.mp hc

theorem functions_onKey_key5sCb (gpioInput : UInt32) (i : Nat) (key : SingleKey κ) (b : Board κ) :
    functions (onKey (key5sCb gpioInput) i key b).calls =
      if gpioInputGet gpioInput key.gpioId = 0 then key.longPress.toList else [] := by
  rw [onKey, afterwards_key5sCb]
  split_ifs
  · exact functions_map _
  · rfl

theorem functions_onKey_key50msCb (gpioInput : UInt32) (i : Nat) (key : SingleKey κ)
    (b : Board κ) : functions (onKey (key50msCb gpioInput) i key b).calls =
      if gpioInputGet gpioInput key.gpioId = 1 then key.shortPress.toList else [] := by
  rw [onKey, afterwards_key50msCb]
  split_ifs
  · exact functions_map _
  · rfl

/-- The functions called are those installed for the presses of the button. -/
theorem calledFor_eq (h : Sound s b) {key : SingleKey κ} (hkey : b.singleKey[j]? = some key)
    (hstep : keyStep b e = some r) :
    calledFor j ⟨b, e, r⟩ =
      (button.out (b.button j) (e.input j key.gpioId)).flatMap key.config.installed := by
  have hview : b.view j = some (key, b.intr key.gpioId) := by simp [Board.view, hkey]
  have hlevel : key.keyLevel = 1 ∧ key.key5s = none ∧ key.key50ms = none ∨ key.keyLevel = 0 :=
    (h.consistent j _ hview).level
  obtain ⟨h5s, h50ms⟩ := isDue_of_step hstep hview
  have hphase : b.button j = ⟨phaseOf key, b.now⟩ := by simp [Board.button, hkey]
  rw [hphase]
  cases e with
  | intr gpioStatus =>
      obtain rfl := Option.some.inj hstep
      rw [calledFor, functions_keyIntrHandler, KeyEvent.input]
      split_ifs <;> rfl
  | fire5s i gpioInput =>
      by_cases hij : i = j
      · subst hij
        have hdue : isDue key.key5s b.now = true := h5s gpioInput rfl
        obtain ⟨-, hnone, -⟩ | hlevel := hlevel
        · rw [hnone] at hdue
          exact absurd hdue (by simp [isDue])
        · simp only [keyStep, hkey, hdue, if_true] at hstep
          obtain rfl := Option.some.inj hstep
          simp only [calledFor, functions_onKey_key5sCb, phaseOf_eq_down hlevel]
          by_cases hlow : gpioInputGet gpioInput key.gpioId = 0 <;>
            simp [KeyEvent.concerns, KeyEvent.input, button, hdue, hlow, KeyConfig.installed,
              SingleKey.config]
      · simp [calledFor, KeyEvent.concerns, KeyEvent.input, hij, button]
  | fire50ms i gpioInput =>
      by_cases hij : i = j
      · subst hij
        have hdue : isDue key.key50ms b.now = true := h50ms gpioInput rfl
        obtain ⟨-, -, hnone⟩ | hlevel := hlevel
        · rw [hnone] at hdue
          exact absurd hdue (by simp [isDue])
        · simp only [keyStep, hkey, hdue, if_true] at hstep
          obtain rfl := Option.some.inj hstep
          simp only [calledFor, functions_onKey_key50msCb, phaseOf_eq_down hlevel]
          by_cases hhigh : gpioInputGet gpioInput key.gpioId = 1 <;>
            simp [KeyEvent.concerns, KeyEvent.input, button, hdue, hhigh, KeyConfig.installed,
              SingleKey.config]
      · simp [calledFor, KeyEvent.concerns, KeyEvent.input, hij, button]
  | pass ms =>
      obtain rfl := Option.some.inj hstep
      rfl

theorem button_of_step (h : Sound s b) {key : SingleKey κ} (hkey : b.singleKey[j]? = some key)
    (hstep : keyStep b e = some r) :
    r.board.button j = button.next (b.button j) (e.input j key.gpioId) := by
  obtain ⟨-, hnow, hviews⟩ := stepActs_of_step h.nodup hstep
  have hview : b.view j = some (key, b.intr key.gpioId) := by simp [Board.view, hkey]
  obtain ⟨h5s, h50ms⟩ := isDue_of_step hstep hview
  have hafter := hviews j
  rw [hview] at hafter
  obtain ⟨key', hkey', heq⟩ := Option.map_eq_some_iff.mp hafter
  have heq : (key', r.board.intr key'.gpioId) =
    eventAct j b.now (key, b.intr key.gpioId) e := heq
  have hphase := phaseOf_eventAct (h.consistent j _ hview) h5s h50ms
  rw [← heq] at hphase
  have hbefore : b.button j = ⟨phaseOf key, b.now⟩ := by simp [Board.button, hkey]
  have hresult : r.board.button j = ⟨phaseOf key', b.now + e.elapsed⟩ := by
    simp [Board.button, hkey', hnow]
  rw [hbefore, hresult]
  exact hphase

/-- The pin of a key waits for the edge its button has to see next. -/
theorem Sound.intr_eq (h : Sound s b) {c : KeyConfig κ} (hc : s.configs[j]? = some c) :
    b.intr c.gpioId = (b.button j).phase.intrType := by
  obtain ⟨key, hkey, rfl⟩ := h.exists_key hc
  have hview : b.view j = some (key, b.intr key.gpioId) := by simp [Board.view, hkey]
  have hphase : (b.button j).phase = phaseOf key := by simp [Board.button, hkey]
  rw [hphase]
  exact (h.consistent j _ hview).intr_eq

/-- The interrupt of a pin alone is an edge for its key. -/
theorem input_pinBit {pin : UInt8} (hpin : pin < 16) :
    (KeyEvent.intr (pinBit pin)).input j pin = .edge := by
  have hne : pinBit pin &&& pinBit pin ≠ 0 := by
    have hall : ∀ n : Fin 16, pinBit (UInt8.ofNat n) &&& pinBit (UInt8.ofNat n) ≠ 0 := by decide
    have hn := hall ⟨pin.toNat, UInt8.lt_iff_toNat_lt.mp hpin⟩
    rwa [UInt8.ofNat_toNat] at hn
  rw [KeyEvent.input, if_neg hne]

/-- A key that is being checked is up once the callback has read a high level. -/
theorem exists_release (h : Sound s b) {c : KeyConfig κ} (hc : s.configs[j]? = some c)
    {long : Option Nat} {t n : Nat} (hchecking : b.button j = ⟨.down long (some t), n⟩) (ht : t ≤ n)
    {gpioInput : UInt32} (hhigh : gpioInputGet gpioInput c.gpioId = 1) :
    ∃ r, keyStep b (.fire50ms j gpioInput) = some r ∧ r.board.button j = ⟨.up, n⟩ ∧
      calledFor j ⟨b, .fire50ms j gpioInput, r⟩ = c.shortPress.toList.map (n, ·) := by
  obtain ⟨key, hkey, rfl⟩ := h.exists_key hc
  have hbutton : b.button j = ⟨phaseOf key, b.now⟩ := by simp [Board.button, hkey]
  obtain ⟨hphase, rfl⟩ := Button.mk.inj (hbutton.symm.trans hchecking)
  have hcheck : key.key50ms = some t := by
    rw [phaseOf] at hphase
    split_ifs at hphase
    exact (Phase.down.inj hphase).2
  have hdue : isDue key.key50ms b.now = true := isDue_eq_true_iff.mpr ⟨t, hcheck, ht⟩
  have hstep : keyStep b (.fire50ms j gpioInput) =
      some (onKey (key50msCb gpioInput) j key b) := by
    simp only [keyStep, hkey, hdue, if_true]
  have hduecheck : isDue (some t) b.now = true := by rwa [hcheck] at hdue
  have hhigh : gpioInputGet gpioInput key.gpioId = 1 := hhigh
  refine ⟨_, hstep, ?_, ?_⟩
  · rw [button_of_step h hkey hstep, hchecking]
    simp [KeyEvent.input, button, hduecheck, hhigh]
  · rw [calledFor_eq h hkey hstep, hchecking]
    simp [KeyEvent.input, button, hduecheck, hhigh, KeyConfig.installed]

end Buttons

/-! ### Runs -/

section Runs

variable {s : KeySetup κ} {intr : UInt8 → GpioIntType} {now j : Nat} {es : List KeyEvent}
variable {steps : List (KeyStep κ)} {c : KeyConfig κ}

theorem button_start (s : KeySetup κ) (intr : UInt8 → GpioIntType) (now j : Nat) :
    (s.start intr now).button j = ⟨.up, now⟩ := by
  have hstart := view_start s intr now j
  cases hkey : (s.start intr now).singleKey[j]? with
  | none =>
      rw [Board.button, hkey]
      rfl
  | some key =>
      have hlevel : key.keyLevel = 1 := by
        rw [Board.view, hkey] at hstart
        obtain ⟨w, -, hw⟩ := Option.map_eq_some_iff.mp hstart.symm
        exact congrArg (fun v : SingleKey κ × GpioIntType => v.1.keyLevel) hw.symm
      rw [Board.button, hkey]
      exact congrArg (Button.mk · now) (phaseOf_eq_up hlevel)

theorem map_keyInput_of_run {b : Board κ} {pin : UInt8}
    (hrun : trace keyStep KeyResult.board b es = some steps) :
    steps.map (keyInput j pin) = es.map (KeyEvent.input j pin) := by
  rw [← map_event_of_trace hrun, List.map_map]
  rfl

theorem refines_of_run (hc : s.configs[j]? = some c)
    (hrun : trace keyStep KeyResult.board (s.start intr now) es = some steps) :
    (final KeyResult.board (s.start intr now) steps).button j =
        button.after ⟨.up, now⟩ (steps.map (keyInput j c.gpioId)) ∧
      steps.flatMap (calledFor j) =
        (button.outputs ⟨.up, now⟩ (steps.map (keyInput j c.gpioId))).flatMap c.installed := by
  have hsound := (run_sound hrun (sound_start s intr now)).2
  have hrefines := refines_of_trace (button.render c.installed) (fun b : Board κ => b.button j)
    (keyInput j c.gpioId) (calledFor j) hrun ?_
  · rw [button_start, Machine.outputs_render] at hrefines
    exact hrefines
  · intro r hr hstep
    obtain ⟨key, hkey, rfl⟩ := (hsound r hr).exists_key hc
    exact ⟨button_of_step (hsound r hr) hkey hstep, calledFor_eq (hsound r hr) hkey hstep⟩

/-- Every key of a board is a button: the functions called for it are those installed for
the presses of the button, and its pin waits for the edge the button has to see next. -/
theorem run_refines_button (hc : s.configs[j]? = some c)
    (hrun : trace keyStep KeyResult.board (s.start intr now) es = some steps) :
    (final KeyResult.board (s.start intr now) steps).button j =
        button.after ⟨.up, now⟩ (steps.map (keyInput j c.gpioId)) ∧
      (final KeyResult.board (s.start intr now) steps).intr c.gpioId =
        (button.after ⟨.up, now⟩ (steps.map (keyInput j c.gpioId))).phase.intrType ∧
      steps.flatMap (calledFor j) =
        (button.outputs ⟨.up, now⟩ (steps.map (keyInput j c.gpioId))).flatMap c.installed := by
  obtain ⟨hbutton, hcalled⟩ := refines_of_run hc hrun
  refine ⟨hbutton, ?_, hcalled⟩
  rw [← hbutton]
  exact (run_sound hrun (sound_start s intr now)).1.intr_eq hc

theorem exists_bounce : ∃ steps, trace keyStep KeyResult.board
    (KeySetup.pair.start (fun _ => .GPIO_PIN_INTR_DISABLE) 0)
      (bounce ++ [.fire50ms 0 (pinBit 12)]) = some steps :=
  Option.isSome_iff_exists.mp rfl

theorem exists_hold : ∃ steps, trace keyStep KeyResult.board
    (KeySetup.pair.start (fun _ => .GPIO_PIN_INTR_DISABLE) 0)
      (hold ++ [.fire5s 0 0]) = some steps :=
  Option.isSome_iff_exists.mp rfl

theorem run_refines_button_bounce : ∃ steps,
    trace keyStep KeyResult.board
      (KeySetup.pair.start (fun _ => .GPIO_PIN_INTR_DISABLE) 0)
      (bounce ++ [.fire50ms 0 (pinBit 12)]) = some steps ∧
    (final KeyResult.board (KeySetup.pair.start (fun _ => .GPIO_PIN_INTR_DISABLE) 0)
        steps).button 0 = button.after ⟨.up, 0⟩ (steps.map (keyInput 0 KeyConfig.first.gpioId)) ∧
      (final KeyResult.board (KeySetup.pair.start (fun _ => .GPIO_PIN_INTR_DISABLE) 0)
          steps).intr KeyConfig.first.gpioId =
        (button.after ⟨.up, 0⟩ (steps.map (keyInput 0 KeyConfig.first.gpioId))).phase.intrType ∧
      steps.flatMap (calledFor 0) =
        (button.outputs ⟨.up, 0⟩ (steps.map (keyInput 0 KeyConfig.first.gpioId))).flatMap
          KeyConfig.first.installed :=
  have ⟨steps, hrun⟩ := exists_bounce
  ⟨steps, hrun, run_refines_button (s := KeySetup.pair) (c := .first) rfl hrun⟩

/-- The functions called for a key over a run are those installed for the presses of its
button, and these follow each other as after a release at start-up. -/
theorem run_presses (hc : s.configs[j]? = some c)
    (hrun : trace keyStep KeyResult.board (s.start intr now) es = some steps) :
    steps.flatMap (calledFor j) =
        (button.outputs ⟨.up, now⟩ (steps.map (keyInput j c.gpioId))).flatMap c.installed ∧
      (⟨.short, now⟩ :: button.outputs ⟨.up, now⟩
        (steps.map (keyInput j c.gpioId))).IsChain Follows :=
  ⟨(refines_of_run hc hrun).2, isChain_outputs ⟨Nat.le_refl now, rfl⟩ _⟩

theorem run_presses_hold : ∃ steps,
    trace keyStep KeyResult.board
      (KeySetup.pair.start (fun _ => .GPIO_PIN_INTR_DISABLE) 0)
      (hold ++ [.fire5s 0 0]) = some steps ∧
    steps.flatMap (calledFor 0) =
        (button.outputs ⟨.up, 0⟩ (steps.map (keyInput 0 KeyConfig.first.gpioId))).flatMap
          KeyConfig.first.installed ∧
      (⟨.short, 0⟩ :: button.outputs ⟨.up, 0⟩
        (steps.map (keyInput 0 KeyConfig.first.gpioId))).IsChain Follows :=
  have ⟨steps, hrun⟩ := exists_hold
  ⟨steps, hrun, run_presses (s := KeySetup.pair) (c := .first) rfl hrun⟩

/-- The button a step meets is the one the steps before it lead to. -/
theorem button_pre (hc : s.configs[j]? = some c) {front back : List (KeyStep κ)} {r : KeyStep κ}
    (hrun : trace keyStep KeyResult.board (s.start intr now) es = some (front ++ r :: back)) :
    r.pre.button j = button.after ⟨.up, now⟩ (front.map (keyInput j c.gpioId)) := by
  obtain ⟨_, _, _, hfront, -⟩ := trace_append_inv hrun
  rw [pre_eq_final hrun]
  exact (refines_of_run hc hfront).1

/-- The functions a step calls are those for what its input makes of that button. -/
theorem calledFor_pre (hc : s.configs[j]? = some c) {front back : List (KeyStep κ)}
    {r : KeyStep κ}
    (hrun : trace keyStep KeyResult.board (s.start intr now) es = some (front ++ r :: back)) :
    calledFor j r = (button.out (button.after ⟨.up, now⟩ (front.map (keyInput j c.gpioId)))
      (keyInput j c.gpioId r)).flatMap c.installed := by
  have hmem : r ∈ front ++ r :: back := by simp
  have hsound := (run_sound hrun (sound_start s intr now)).2 r hmem
  obtain ⟨key, hkey, rfl⟩ := hsound.exists_key hc
  rw [← button_pre hc hrun]
  exact calledFor_eq hsound hkey (step_of_mem hrun hmem).2

/-- A step that calls a function as a callback of a key makes a press of its button. -/
theorem press_of_called (hc : s.configs[j]? = some c) {front back : List (KeyStep κ)}
    {r : KeyStep κ}
    (hrun : trace keyStep KeyResult.board (s.start intr now) es = some (front ++ r :: back))
    (hcalled : calledFor j r ≠ []) :
    ∃ p, p ∈ button.out (button.after ⟨.up, now⟩ (front.map (keyInput j c.gpioId)))
      (keyInput j c.gpioId r) := by
  apply List.exists_mem_of_ne_nil
  intro hnone
  exact hcalled ((calledFor_pre hc hrun).trans (congrArg (List.flatMap c.installed) hnone))

/-- The last step of a run that ends with some event. -/
theorem exists_last {b : Board κ} {e : KeyEvent}
    (hrun : trace keyStep KeyResult.board b (es ++ [e]) = some steps) :
    ∃ front r, steps = front ++ [r] ∧ r.event = e ∧
      ∀ pin, front.map (keyInput j pin) = es.map (KeyEvent.input j pin) := by
  obtain ⟨front, last, rfl, rfl, hlast⟩ := List.map_eq_append_iff.mp (map_event_of_trace hrun)
  obtain ⟨r, rfl, rfl⟩ := List.map_eq_singleton_iff.mp hlast
  refine ⟨front, r, rfl, rfl, fun pin => ?_⟩
  rw [List.map_map]
  rfl

theorem exists_checked {b : Board κ} (h : Sound s b) (hc : s.configs[j]? = some c)
    {long : Option Nat} {t : Nat} (hchecking : (b.button j).phase = .down long (some t))
    (ht : t ≤ b.now + 50) {gpioInput : UInt32} (hhigh : gpioInputGet gpioInput c.gpioId = 1) :
    ∃ rest, trace keyStep KeyResult.board b [.pass 50, .fire50ms j gpioInput] = some rest ∧
      ((final KeyResult.board b rest).button j).phase = .up ∧
      (final KeyResult.board b rest).intr c.gpioId = .GPIO_PIN_INTR_NEGEDGE ∧
      rest.flatMap (calledFor j) = c.shortPress.toList.map (b.now + 50, ·) := by
  have hpass : keyStep b (.pass 50) = some ⟨{ b with now := b.now + 50 }, []⟩ := rfl
  have hlater := sound_of_step h hpass
  have hbutton : Board.button { b with now := b.now + 50 } j =
      ⟨.down long (some t), b.now + 50⟩ := congrArg (Button.mk · (b.now + 50)) hchecking
  obtain ⟨r, hfire, hup, hcalled⟩ := exists_release hlater hc hbutton ht hhigh
  refine ⟨_, trace_cons hpass (trace_cons hfire rfl), ?_, ?_, ?_⟩
  · exact congrArg Button.phase hup
  · have hintr := (sound_of_step hlater hfire).intr_eq hc
    rwa [hup] at hintr
  · rw [List.flatMap_cons, List.flatMap_cons, hcalled]
    simp [calledFor, functions]

theorem exists_released {b : Board κ} (h : Sound s b) (hc : s.configs[j]? = some c)
    (hnear : ∀ long t, (b.button j).phase = .down long (some t) → t ≤ b.now + 50)
    (hdown : (b.button j).phase ≠ .up) {gpioInput : UInt32}
    (hhigh : gpioInputGet gpioInput c.gpioId = 1) :
    ∃ rising rest, (rising = [] ∨ rising = [.intr (pinBit c.gpioId)] ∧
        b.intr c.gpioId = .GPIO_PIN_INTR_POSEDGE) ∧
      trace keyStep KeyResult.board b (rising ++ [.pass 50, .fire50ms j gpioInput]) = some rest ∧
      ((final KeyResult.board b rest).button j).phase = .up ∧
      (final KeyResult.board b rest).intr c.gpioId = .GPIO_PIN_INTR_NEGEDGE ∧
      rest.flatMap (calledFor j) = c.shortPress.toList.map (b.now + 50, ·) := by
  obtain ⟨key, hkey, rfl⟩ := h.exists_key hc
  have hview : b.view j = some (key, b.intr key.gpioId) := by simp [Board.view, hkey]
  have hbutton : b.button j = ⟨phaseOf key, b.now⟩ := by simp [Board.button, hkey]
  rw [hbutton] at hdown
  obtain ⟨hlevel, hrising | ⟨t, hcheck⟩⟩ := (h.consistent j _ hview).of_down hdown
  · have hedge : keyStep b (.intr (pinBit key.gpioId)) =
        some (keyIntrHandler (pinBit key.gpioId) b) := rfl
    have hinput : (KeyEvent.intr (pinBit key.gpioId)).input j key.gpioId = .edge :=
      input_pinBit (s.pins _ (List.mem_of_getElem? hc))
    have hpressed := button_of_step h hkey hedge
    rw [hinput, hbutton, phaseOf_eq_down hlevel] at hpressed
    obtain ⟨rest, hrest, hup, hintr, hcalled⟩ := exists_checked (sound_of_step h hedge) hc
      (congrArg Button.phase hpressed) (Nat.le_refl _) hhigh
    refine ⟨_, _, .inr ⟨rfl, hrising⟩, trace_cons hedge hrest, hup, hintr, ?_⟩
    rw [List.flatMap_cons, hcalled, calledFor, functions_keyIntrHandler]
    rfl
  · have hchecking : (b.button j).phase = .down key.key5s (some t) := by
      rw [hbutton, ← hcheck]
      exact phaseOf_eq_down hlevel
    obtain ⟨rest, hrest⟩ := exists_checked h hc hchecking (hnear _ t hchecking) hhigh
    exact ⟨[], rest, .inl rfl, hrest⟩

/-- A key that is down can always come up again. Its check is pending, or its pin waits for
the rising edge that starts it; 50 ms later the callback reads a high level, calls the short
press function, and leaves the pin waiting for the next press. -/
theorem run_released (hc : s.configs[j]? = some c)
    (hrun : trace keyStep KeyResult.board (s.start intr now) es = some steps)
    {b : Board κ} (hb : final KeyResult.board (s.start intr now) steps = b)
    (hdown : (b.button j).phase ≠ .up) {gpioInput : UInt32}
    (hhigh : gpioInputGet gpioInput c.gpioId = 1) :
    ∃ rising rest, (rising = [] ∨ rising = [.intr (pinBit c.gpioId)] ∧
        b.intr c.gpioId = .GPIO_PIN_INTR_POSEDGE) ∧
      trace keyStep KeyResult.board b (rising ++ [.pass 50, .fire50ms j gpioInput]) = some rest ∧
      ((final KeyResult.board b rest).button j).phase = .up ∧
      (final KeyResult.board b rest).intr c.gpioId = .GPIO_PIN_INTR_NEGEDGE ∧
      rest.flatMap (calledFor j) = c.shortPress.toList.map (b.now + 50, ·) := by
  have hsound := (run_sound hrun (sound_start s intr now)).1
  have hbutton := (refines_of_run hc hrun).1
  rw [hb] at hsound hbutton
  refine exists_released hsound hc ?_ hdown hhigh
  intro long t hphase
  have horigins := origins_of_up (b := ⟨.up, now⟩) rfl (steps.map (keyInput j c.gpioId))
  rw [hbutton] at hphase
  have hle := ((horigins long (some t) hphase).2 t rfl).le
  rw [← hbutton] at hle
  exact hle

theorem run_released_hold : ∃ steps b,
    trace keyStep KeyResult.board
      (KeySetup.pair.start (fun _ => .GPIO_PIN_INTR_DISABLE) 0)
      (hold ++ [.fire5s 0 0]) = some steps ∧
    final KeyResult.board (KeySetup.pair.start (fun _ => .GPIO_PIN_INTR_DISABLE) 0) steps = b ∧
    ∃ rising rest, (rising = [] ∨ rising = [.intr (pinBit KeyConfig.first.gpioId)] ∧
        b.intr KeyConfig.first.gpioId = .GPIO_PIN_INTR_POSEDGE) ∧
      trace keyStep KeyResult.board b (rising ++ [.pass 50, .fire50ms 0 (pinBit 12)]) = some rest ∧
      ((final KeyResult.board b rest).button 0).phase = .up ∧
      (final KeyResult.board b rest).intr KeyConfig.first.gpioId = .GPIO_PIN_INTR_NEGEDGE ∧
      rest.flatMap (calledFor 0) = KeyConfig.first.shortPress.toList.map (b.now + 50, ·) := by
  obtain ⟨steps, hrun⟩ := exists_hold
  refine ⟨steps, _, hrun, rfl, run_released (s := KeySetup.pair) (c := .first) rfl hrun rfl ?_ rfl⟩
  rw [(refines_of_run (s := KeySetup.pair) (c := .first) rfl hrun).1, map_keyInput_of_run hrun]
  decide

/-- Between the last interrupt and a step that finds the pin disabled it is disabled throughout. -/
theorem intr_disabled_since (hc : s.configs[j]? = some c) {before since back : List (KeyStep κ)}
    {q r : KeyStep κ} (hrun : trace keyStep KeyResult.board (s.start intr now) es =
      some (before ++ q :: since ++ r :: back))
    (hedge : ∀ q' ∈ since, keyInput j c.gpioId q' ≠ .edge)
    (hchecking : (r.pre.button j).phase.intrType = .GPIO_PIN_INTR_DISABLE) :
    ∀ q' ∈ since ++ [r], q'.pre.intr c.gpioId = .GPIO_PIN_INTR_DISABLE := by
  intro q' hq'
  have hmem : q' ∈ before ++ q :: since ++ r :: back := by
    rcases List.mem_append.mp hq' with hin | hin
    · simp [hin]
    · simp [List.mem_singleton.mp hin]
  rw [((run_sound hrun (sound_start s intr now)).2 q' hmem).intr_eq hc]
  rcases List.mem_append.mp hq' with hin | hin
  · obtain ⟨early, late, rfl⟩ := List.append_of_mem hin
    have hquiet : .edge ∉ (q' :: late).map (keyInput j c.gpioId) := by
      rw [List.mem_map, not_exists]
      rintro q'' ⟨hin', heq⟩
      exact hedge q'' (List.mem_append_right _ hin') heq
    have hsplit : before ++ q :: (early ++ q' :: late) ++ r :: back =
        (before ++ q :: early) ++ q' :: (late ++ r :: back) := by simp
    rw [button_pre hc (hsplit ▸ hrun)]
    rw [button_pre hc hrun, ← List.cons_append, ← List.append_assoc, List.map_append,
      Machine.after_append] at hchecking
    exact intrType_of_after hquiet hchecking
  · rw [List.mem_singleton.mp hin]
    exact hchecking

/-- The short press function of a key is called in a high level, 50 ms or more after the last
interrupt of its pin, and from that interrupt to the call the pin raises none: edges of a
bouncing contact do not put the check off. -/
theorem run_settled (hc : s.configs[j]? = some c) {front back : List (KeyStep κ)} {r : KeyStep κ}
    (hrun : trace keyStep KeyResult.board (s.start intr now) es = some (front ++ r :: back))
    {gpioInput : UInt32} (hfire : r.event = .fire50ms j gpioInput) (hcalled : calledFor j r ≠ []) :
    gpioInputGet gpioInput c.gpioId = 1 ∧
    ∃ before q since, front = before ++ q :: since ∧ keyInput j c.gpioId q = .edge ∧
      (∀ q' ∈ since, keyInput j c.gpioId q' ≠ .edge) ∧ q.pre.now + 50 ≤ r.pre.now ∧
      ∀ q' ∈ since ++ [r], q'.pre.intr c.gpioId = .GPIO_PIN_INTR_DISABLE := by
  obtain ⟨p, hp⟩ := press_of_called hc hrun hcalled
  have hinput : keyInput j c.gpioId r = .check (gpioInputGet gpioInput c.gpioId = 1) := by
    simp [keyInput, hfire, KeyEvent.input]
  have horigin := (origin_of_press rfl hp).1
  rw [hinput, ← button_pre hc hrun] at hp
  obtain ⟨hhigh, long, t, hphase⟩ := high_of_mem_out_check hp
  have hchecking : (r.pre.button j).phase.intrType = .GPIO_PIN_INTR_DISABLE := by
    rw [hphase]
    rfl
  obtain rfl := eq_of_mem_out_check hp
  obtain ⟨_, ⟨fi, bi, hsplit, hedge, rfl⟩, ht⟩ := horigin rfl
  obtain ⟨before, rest, rfl, rfl, hrest⟩ := List.map_eq_append_iff.mp hsplit
  obtain ⟨q, since, rfl, hq, rfl⟩ := List.map_eq_cons_iff.mp hrest
  have hquiet : ∀ q' ∈ since, keyInput j c.gpioId q' ≠ .edge := by
    intro q' hq' heq
    exact hedge (heq ▸ List.mem_map_of_mem hq')
  have hdisabled := intr_disabled_since hc hrun hquiet hchecking
  rw [List.append_assoc, List.cons_append] at hrun
  rw [← button_pre hc hrun] at ht
  exact ⟨of_decide_eq_true hhigh, before, q, since, rfl, hq, hquiet, ht, hdisabled⟩

theorem run_settled_bounce : ∃ front r,
    trace keyStep KeyResult.board (KeySetup.pair.start (fun _ => .GPIO_PIN_INTR_DISABLE) 0)
      (bounce ++ [.fire50ms 0 (pinBit 12)]) = some (front ++ [r]) ∧
    gpioInputGet (pinBit 12) KeyConfig.first.gpioId = 1 ∧
    ∃ before q since, front = before ++ q :: since ∧
      keyInput 0 KeyConfig.first.gpioId q = .edge ∧
      (∀ q' ∈ since, keyInput 0 KeyConfig.first.gpioId q' ≠ .edge) ∧
      q.pre.now + 50 ≤ r.pre.now ∧
      ∀ q' ∈ since ++ [r], q'.pre.intr KeyConfig.first.gpioId = .GPIO_PIN_INTR_DISABLE := by
  obtain ⟨steps, hrun⟩ := exists_bounce
  obtain ⟨front, r, rfl, hfire, hfront⟩ := exists_last (j := 0) hrun
  refine ⟨front, r, hrun, run_settled (s := KeySetup.pair) (c := .first) rfl hrun hfire ?_⟩
  rw [calledFor_pre (s := KeySetup.pair) (c := .first) rfl hrun, hfront, keyInput, hfire]
  decide

/-- The long press function of a key is called five seconds or more after an edge that
found the key up, and no function was called for the key since. -/
theorem run_held (hc : s.configs[j]? = some c) {front back : List (KeyStep κ)} {r : KeyStep κ}
    (hrun : trace keyStep KeyResult.board (s.start intr now) es = some (front ++ r :: back))
    {gpioInput : UInt32} (hfire : r.event = .fire5s j gpioInput) (hcalled : calledFor j r ≠ []) :
    ∃ before q since, front = before ++ q :: since ∧ keyInput j c.gpioId q = .edge ∧
      (q.pre.button j).phase = .up ∧ (q :: since).flatMap (calledFor j) = [] ∧
      q.pre.now + 5000 ≤ r.pre.now := by
  obtain ⟨p, hp⟩ := press_of_called hc hrun hcalled
  have hinput : keyInput j c.gpioId r = .long (gpioInputGet gpioInput c.gpioId = 0) := by
    simp [keyInput, hfire, KeyEvent.input]
  have horigin := (origin_of_press rfl hp).2
  rw [hinput, ← button_pre hc hrun] at hp
  obtain rfl := eq_of_mem_out_long hp
  obtain ⟨t, ⟨fi, bi, hsplit, hup, houts, rfl⟩, ht⟩ := horigin rfl
  obtain ⟨before, rest, rfl, rfl, hrest⟩ := List.map_eq_append_iff.mp hsplit
  obtain ⟨q, since, rfl, hq, rfl⟩ := List.map_eq_cons_iff.mp hrest
  obtain ⟨_, _, _, hfront, -⟩ := trace_append_inv hrun
  obtain ⟨_, _, _, hbefore, -⟩ := trace_append_inv hfront
  rw [List.append_assoc, List.cons_append] at hrun
  rw [← button_pre hc hrun] at ht hup
  refine ⟨before, q, since, rfl, hq, hup, ?_, ht⟩
  -- the calls up to the edge are those of the whole front
  have hall := (refines_of_run hc hfront).2
  rw [hsplit, Machine.outputs_append, houts, List.append_nil, ← (refines_of_run hc hbefore).2,
    List.flatMap_append] at hall
  exact List.append_right_eq_self.mp hall

theorem run_held_hold : ∃ front r,
    trace keyStep KeyResult.board (KeySetup.pair.start (fun _ => .GPIO_PIN_INTR_DISABLE) 0)
      (hold ++ [.fire5s 0 0]) = some (front ++ [r]) ∧
    ∃ before q since, front = before ++ q :: since ∧
      keyInput 0 KeyConfig.first.gpioId q = .edge ∧ (q.pre.button 0).phase = .up ∧
      (q :: since).flatMap (calledFor 0) = [] ∧ q.pre.now + 5000 ≤ r.pre.now := by
  obtain ⟨steps, hrun⟩ := exists_hold
  obtain ⟨front, r, rfl, hfire, hfront⟩ := exists_last (j := 0) hrun
  refine ⟨front, r, hrun, run_held (s := KeySetup.pair) (c := .first) rfl hrun hfire ?_⟩
  rw [calledFor_pre (s := KeySetup.pair) (c := .first) rfl hrun, hfront, keyInput, hfire]
  decide

end Runs

end EspushAt
