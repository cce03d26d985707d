import EspushAt.Device.Settings

/-!
# The key driver

`driver/key.c` calls one function when a key was released and another one when it was
held for five seconds. A pin interrupt, a timer of 5 s and a timer of 50 ms for each key
drive it. The clock counts milliseconds; an armed timer is its deadline, and its callback
may run at any time from then on. The level of a pin is whatever the callback reads.
-/

namespace EspushAt

variable {κ : Type}

/-- `GPIO_INT_TYPE`. -/
inductive GpioIntType where
  | GPIO_PIN_INTR_DISABLE
  | GPIO_PIN_INTR_POSEDGE
  | GPIO_PIN_INTR_NEGEDGE
  | GPIO_PIN_INTR_ANYEDGE
  | GPIO_PIN_INTR_LOLEVEL
  | GPIO_PIN_INTR_HILEVEL
  deriving DecidableEq, Repr

/-- `single_key_param`, over the functions `κ` a key can install. A timer is the time it
is due, or `none` when it is not armed. -/
structure SingleKey (κ : Type) where
  keyLevel : UInt8
  gpioId : UInt8
  gpioFunc : UInt8
  gpioName : UInt32
  key5s : Option Nat
  key50ms : Option Nat
  shortPress : Option κ
  longPress : Option κ

/-- What the driver does to the hardware, and the functions it calls. -/
inductive KeyCall (κ : Type) where
  | etsGpioIntrAttach
  | etsGpioIntrDisable
  | etsGpioIntrEnable
  | pinFuncSelect (name : UInt32) (func : UInt8)
  | gpioOutputSet (set clear enable disable : UInt32)
  | gpioRegisterSet (reg value : UInt32)
  | gpioStatusW1tc (bits : UInt32)
  | gpioPinIntrStateSet (pin : UInt8) (state : GpioIntType)
  | function (f : κ)

/-- The driver while it works on one key. -/
structure KeyFrame (κ : Type) where
  key : SingleKey κ
  intr : UInt8 → GpioIntType
  now : Nat
  calls : List (KeyCall κ)

abbrev KeyM (κ : Type) := StateM (KeyFrame κ)

/-- The frame a piece of the driver leaves. -/
def afterwards (m : KeyM κ Unit) (f : KeyFrame κ) : KeyFrame κ := (m.run f).run.2

/-! ### Statements -/

def keyEmit (c : KeyCall κ) : KeyM κ Unit := modify fun f => { f with calls := f.calls ++ [c] }

def gpioPinIntrStateSet (pin : UInt8) (state : GpioIntType) : KeyM κ Unit := do
  modify fun f => { f with intr := Function.update f.intr pin state }
  keyEmit (.gpioPinIntrStateSet pin state)

def setKeyLevel (level : UInt8) : KeyM κ Unit :=
  modify fun f => { f with key := { f.key with keyLevel := level } }

def disarm5s : KeyM κ Unit := modify fun f => { f with key := { f.key with key5s := none } }

def disarm50ms : KeyM κ Unit := modify fun f => { f with key := { f.key with key50ms := none } }

def arm5s (ms : Nat) : KeyM κ Unit :=
  modify fun f => { f with key := { f.key with key5s := some (f.now + ms) } }

def arm50ms (ms : Nat) : KeyM κ Unit :=
  modify fun f => { f with key := { f.key with key50ms := some (f.now + ms) } }

/-- Call a function, unless its pointer is `NULL`. -/
def callInstalled (f : Option κ) : KeyM κ Unit :=
  match f with
  | none => pure ()
  | some f => keyEmit (.function f)

/-! ### The driver -/

/-- A zeroed structure with the given fields. -/
def keyInitSingle (gpioId : UInt8) (gpioName : UInt32) (gpioFunc : UInt8)
    (longPress shortPress : Option κ) : SingleKey κ :=
  { keyLevel := 0, gpioId, gpioFunc, gpioName
    key5s := none, key50ms := none
    shortPress, longPress }

/-- The macro `BIT`, for a pin. -/
def pinBit (pin : UInt8) : UInt32 := 1 <<< pin.toUInt32

/-- The macros `GPIO_PIN_ADDR` and `GPIO_ID_PIN`. -/
def gpioPinAddr (pin : UInt8) : UInt32 := 0x28 + pin.toUInt32 * 4
def gpioIdPin (pin : UInt8) : UInt32 := pin.toUInt32

/-- The body of the loop of `key_init`. The register value has the interrupt type
disabled, the pad driver off and the pin as its own source, which is 0. -/
def keyInitBody : KeyM κ Unit := do
  setKeyLevel 1
  let key := (← get).key
  keyEmit (.pinFuncSelect key.gpioName key.gpioFunc)
  keyEmit (.gpioOutputSet 0 0 0 (gpioIdPin key.gpioId))
  modify fun f => { f with intr := Function.update f.intr key.gpioId .GPIO_PIN_INTR_DISABLE }
  keyEmit (.gpioRegisterSet (gpioPinAddr key.gpioId) 0)
  keyEmit (.gpioStatusW1tc (pinBit key.gpioId))
  gpioPinIntrStateSet key.gpioId .GPIO_PIN_INTR_NEGEDGE

def key5sCb (gpioInput : UInt32) : KeyM κ Unit := do
  disarm5s
  let key := (← get).key
  if 0 = gpioInputGet gpioInput key.gpioId then
    callInstalled key.longPress

def key50msCb (gpioInput : UInt32) : KeyM κ Unit := do
  disarm50ms
  let key := (← get).key
  if 1 = gpioInputGet gpioInput key.gpioId then
    disarm5s
    setKeyLevel 1
    gpioPinIntrStateSet key.gpioId .GPIO_PIN_INTR_NEGEDGE
    callInstalled key.shortPress
  else
    gpioPinIntrStateSet key.gpioId .GPIO_PIN_INTR_POSEDGE

/-- The body of the loop of `key_intr_handler`. -/
def keyIntrBody (gpioStatus : UInt32) : KeyM κ Unit := do
  let key := (← get).key
  if gpioStatus &&& pinBit key.gpioId ≠ 0 then
    gpioPinIntrStateSet key.gpioId .GPIO_PIN_INTR_DISABLE
    keyEmit (.gpioStatusW1tc (gpioStatus &&& pinBit key.gpioId))
    if key.keyLevel = 1 then
      disarm5s
      arm5s 5000
      setKeyLevel 0
      gpioPinIntrStateSet key.gpioId .GPIO_PIN_INTR_POSEDGE
    else
      disarm50ms
      arm50ms 50

/-- `keys_param`, the interrupt types of the pins and the clock. -/
structure Board (κ : Type) where
  singleKey : List (SingleKey κ)
  intr : UInt8 → GpioIntType
  now : Nat

/-- The loop over the keys. -/
def forKeys (body : KeyM κ Unit) (now : Nat) : List (SingleKey κ) → (UInt8 → GpioIntType) →
    List (SingleKey κ) × (UInt8 → GpioIntType) × List (KeyCall κ)
  | [], intr => ([], intr, [])
  | key :: keys, intr =>
      let f := afterwards body ⟨key, intr, now, []⟩
      let (keys', intr', calls) := forKeys body now keys f.intr
      (f.key :: keys', intr', f.calls ++ calls)

/-- A board and the calls that led to it. -/
structure KeyResult (κ : Type) where
  board : Board κ
  calls : List (KeyCall κ)

def keyInit (b : Board κ) : KeyResult κ :=
  let (keys, intr, calls) := forKeys keyInitBody b.now b.singleKey b.intr
  ⟨⟨keys, intr, b.now⟩, [.etsGpioIntrAttach, .etsGpioIntrDisable] ++ calls ++ [.etsGpioIntrEnable]⟩

def keyIntrHandler (gpioStatus : UInt32) (b : Board κ) : KeyResult κ :=
  let (keys, intr, calls) := forKeys (keyIntrBody gpioStatus) b.now b.singleKey b.intr
  ⟨⟨keys, intr, b.now⟩, calls⟩

/-- Run a timer callback on one key of the board. -/
def onKey (body : KeyM κ Unit) (i : Nat) (key : SingleKey κ) (b : Board κ) : KeyResult κ :=
  let f := afterwards body ⟨key, b.intr, b.now, []⟩
  ⟨⟨b.singleKey.set i f.key, f.intr, b.now⟩, f.calls⟩

/-- What happens to the driver: an interrupt with the status it finds, the callback of a
timer of one key with the pin levels it reads, or time. -/
inductive KeyEvent where
  | intr (gpioStatus : UInt32)
  | fire5s (i : Nat) (gpioInput : UInt32)
  | fire50ms (i : Nat) (gpioInput : UInt32)
  | pass (ms : Nat)

/-- A timer is due. -/
def isDue (timer : Option Nat) (now : Nat) : Bool :=
  match timer with
  | none => false
  | some t => t ≤ now

/-- A callback runs only for a key whose timer is armed and due. An interrupt is let in
whatever its pin is set to, so no run of the hardware is left out. -/
def keyStep (b : Board κ) : KeyEvent → Option (KeyResult κ)
  | .intr gpioStatus => some (keyIntrHandler gpioStatus b)
  | .fire5s i gpioInput =>
      match b.singleKey[i]? with
      | none => none
      | some key => if isDue key.key5s b.now then some (onKey (key5sCb gpioInput) i key b) else none
  | .fire50ms i gpioInput =>
      match b.singleKey[i]? with
      | none => none
      | some key =>
          if isDue key.key50ms b.now then some (onKey (key50msCb gpioInput) i key b) else none
  | .pass ms => some ⟨{ b with now := b.now + ms }, []⟩

/-! ### What each part does -/

section Run

variable (f : KeyFrame κ) (gpioInput gpioStatus : UInt32)

/-- The frame after an interrupt: a key that was up starts its long timer, one that was
down starts the check whether it is up again. -/
theorem afterwards_keyIntrBody : afterwards (keyIntrBody gpioStatus) f =
    if gpioStatus &&& pinBit f.key.gpioId = 0 then f
    else if f.key.keyLevel = 1 then
      { f with
        key := { f.key with key5s := some (f.now + 5000), keyLevel := 0 }
        intr := Function.update f.intr f.key.gpioId .GPIO_PIN_INTR_POSEDGE
        calls := f.calls ++ [.gpioPinIntrStateSet f.key.gpioId .GPIO_PIN_INTR_DISABLE,
          .gpioStatusW1tc (gpioStatus &&& pinBit f.key.gpioId),
          .gpioPinIntrStateSet f.key.gpioId .GPIO_PIN_INTR_POSEDGE] }
    else
      { f with
        key := { f.key with key50ms := some (f.now + 50) }
        intr := Function.update f.intr f.key.gpioId .GPIO_PIN_INTR_DISABLE
        calls := f.calls ++ [.gpioPinIntrStateSet f.key.gpioId .GPIO_PIN_INTR_DISABLE,
          .gpioStatusW1tc (gpioStatus &&& pinBit f.key.gpioId)] } := by
  by_cases hbit : gpioStatus &&& pinBit f.key.gpioId = 0
  · simp [afterwards, keyIntrBody, hbit]
  · by_cases hlevel : f.key.keyLevel = 1 <;>
      simp [afterwards, keyIntrBody, hbit, hlevel, gpioPinIntrStateSet, keyEmit, disarm5s, arm5s,
        disarm50ms, arm50ms, setKeyLevel]

theorem afterwards_key5sCb : afterwards (key5sCb gpioInput) f =
    { f with
      key := { f.key with key5s := none }
      calls := f.calls ++ if gpioInputGet gpioInput f.key.gpioId = 0 then
        f.key.longPress.toList.map .function else [] } := by
  by_cases hlow : gpioInputGet gpioInput f.key.gpioId = 0
  · cases hlong : f.key.longPress <;>
      simp [afterwards, key5sCb, disarm5s, callInstalled, keyEmit, hlow, hlong]
  · simp [afterwards, key5sCb, disarm5s, hlow, Ne.symm hlow]

theorem afterwards_key50msCb : afterwards (key50msCb gpioInput) f =
    if gpioInputGet gpioInput f.key.gpioId = 1 then
      { f with
        key := { f.key with key50ms := none, key5s := none, keyLevel := 1 }
        intr := Function.update f.intr f.key.gpioId .GPIO_PIN_INTR_NEGEDGE
        calls := f.calls ++ .gpioPinIntrStateSet f.key.gpioId .GPIO_PIN_INTR_NEGEDGE ::
          f.key.shortPress.toList.map .function }
    else
      { f with
        key := { f.key with key50ms := none }
        intr := Function.update f.intr f.key.gpioId .GPIO_PIN_INTR_POSEDGE
        calls := f.calls ++ [.gpioPinIntrStateSet f.key.gpioId .GPIO_PIN_INTR_POSEDGE] } := by
  by_cases hhigh : gpioInputGet gpioInput f.key.gpioId = 1
  · cases hshort : f.key.shortPress <;>
      simp [afterwards, key50msCb, disarm50ms, disarm5s, setKeyLevel, gpioPinIntrStateSet,
        callInstalled, keyEmit, hhigh, hshort]
  · simp [afterwards, key50msCb, disarm50ms, gpioPinIntrStateSet, keyEmit, hhigh, Ne.symm hhigh]

theorem afterwards_keyInitBody :
    (afterwards keyInitBody f).key = { f.key with keyLevel := 1 } ∧
      (afterwards keyInitBody f).intr =
        Function.update f.intr f.key.gpioId .GPIO_PIN_INTR_NEGEDGE := by
  simp [afterwards, keyInitBody, setKeyLevel, keyEmit, gpioPinIntrStateSet]

end Run

/-- A part of the driver that looks at one key and the interrupt type of its pin, changes
nothing else, and leaves the key on its pin. -/
structure ActsOn (body : KeyM κ Unit)
    (act : Nat → SingleKey κ × GpioIntType → SingleKey κ × GpioIntType) : Prop where
  own : ∀ f, ((afterwards body f).key, (afterwards body f).intr f.key.gpioId) =
    act f.now (f.key, f.intr f.key.gpioId)
  pin : ∀ f, (afterwards body f).key.gpioId = f.key.gpioId
  others : ∀ f pin, pin ≠ f.key.gpioId → (afterwards body f).intr pin = f.intr pin

section Loop

variable {body : KeyM κ Unit} {act : Nat → SingleKey κ × GpioIntType → SingleKey κ × GpioIntType}
variable {now : Nat} {keys : List (SingleKey κ)} {intr : UInt8 → GpioIntType}

theorem map_gpioId_forKeys (hacts : ActsOn body act) :
    (forKeys body now keys intr).1.map SingleKey.gpioId = keys.map SingleKey.gpioId := by
  induction keys generalizing intr with
  | nil => rfl
  | cons key keys ih => exact congrArg₂ List.cons (hacts.pin _) ih

/-- The loop leaves the pins of no key alone. -/
theorem forKeys_intr_of_notMem (hacts : ActsOn body act) {pin : UInt8}
    (hpin : pin ∉ keys.map SingleKey.gpioId) :
    (forKeys body now keys intr).2.1 pin = intr pin := by
  induction keys generalizing intr with
  | nil => rfl
  | cons key keys ih =>
      obtain ⟨hfirst, hrest⟩ := not_or.mp (List.mem_cons.not.mp hpin)
      exact (ih hrest).trans (hacts.others _ _ hfirst)

/-- With every key on a pin of its own, the loop does to each what it would do to that key
alone. -/
theorem forKeys_getElem? (hacts : ActsOn body act) (hnodup : (keys.map SingleKey.gpioId).Nodup)
    {i : Nat} {key : SingleKey κ} (hkey : keys[i]? = some key) :
    ∃ key', (forKeys body now keys intr).1[i]? = some key' ∧
      (key', (forKeys body now keys intr).2.1 key.gpioId) = act now (key, intr key.gpioId) := by
  induction keys generalizing intr i with
  | nil => simp at hkey
  | cons first keys ih =>
      obtain ⟨hfirst, hnodup⟩ := List.nodup_cons.mp hnodup
      cases i with
      | zero =>
          obtain rfl : first = key := by simpa using hkey
          refine ⟨_, rfl, ?_⟩
          rw [← hacts.own ⟨first, intr, now, []⟩]
          exact congrArg _ (forKeys_intr_of_notMem hacts hfirst)
      | succ i =>
          have hkey : keys[i]? = some key := hkey
          obtain ⟨key', hget, hact⟩ :=
            @ih (afterwards body ⟨first, intr, now, []⟩).intr hnodup i hkey
          refine ⟨key', hget, hact.trans ?_⟩
          have hne : key.gpioId ≠ first.gpioId := by
            rintro heq
            exact hfirst (heq ▸ List.mem_map_of_mem (List.mem_of_getElem? hkey))
          rw [hacts.others ⟨first, intr, now, []⟩ _ hne]

end Loop

/-! ### One key of the board -/

/-- What an interrupt, the two timers and start-up do to a key and the interrupt type of
its pin. -/
def intrAct (gpioStatus : UInt32) (now : Nat) (v : SingleKey κ × GpioIntType) :
    SingleKey κ × GpioIntType :=
  if gpioStatus &&& pinBit v.1.gpioId = 0 then v
  else if v.1.keyLevel = 1 then
    ({ v.1 with key5s := some (now + 5000), keyLevel := 0 }, .GPIO_PIN_INTR_POSEDGE)
  else ({ v.1 with key50ms := some (now + 50) }, .GPIO_PIN_INTR_DISABLE)

def act5s (v : SingleKey κ × GpioIntType) : SingleKey κ × GpioIntType :=
  ({ v.1 with key5s := none }, v.2)

def act50ms (gpioInput : UInt32) (v : SingleKey κ × GpioIntType) : SingleKey κ × GpioIntType :=
  if gpioInputGet gpioInput v.1.gpioId = 1 then
    ({ v.1 with key50ms := none, key5s := none, keyLevel := 1 }, .GPIO_PIN_INTR_NEGEDGE)
  else ({ v.1 with key50ms := none }, .GPIO_PIN_INTR_POSEDGE)

def initAct (_now : Nat) (v : SingleKey κ × GpioIntType) : SingleKey κ × GpioIntType :=
  ({ v.1 with keyLevel := 1 }, .GPIO_PIN_INTR_NEGEDGE)

/-- What an event does to the key in some place; a timer belongs to one key. -/
def eventAct (j now : Nat) (v : SingleKey κ × GpioIntType) :
    KeyEvent → SingleKey κ × GpioIntType
  | .intr gpioStatus => intrAct gpioStatus now v
  | .fire5s i _ => if i = j then act5s v else v
  | .fire50ms i gpioInput => if i = j then act50ms gpioInput v else v
  | .pass _ => v

theorem actsOn_keyIntrBody (gpioStatus : UInt32) :
    ActsOn (keyIntrBody (κ := κ) gpioStatus) (intrAct gpioStatus) where
  own f := by
    rw [afterwards_keyIntrBody, intrAct]
    split_ifs <;> simp
  pin f := by
    rw [afterwards_keyIntrBody]
    split_ifs <;> rfl
  others f pin hpin := by
    rw [afterwards_keyIntrBody]
    split_ifs <;> simp [hpin]

theorem actsOn_keyInitBody : ActsOn (keyInitBody (κ := κ)) initAct where
  own f := by
    obtain ⟨hkey, hintr⟩ := afterwards_keyInitBody f
    rw [hkey, hintr, Function.update_self, initAct]
  pin f := by rw [(afterwards_keyInitBody f).1]
  others f pin hpin := by
    rw [(afterwards_keyInitBody f).2]
    exact Function.update_of_ne hpin _ _

theorem actsOn_key5sCb (gpioInput : UInt32) :
    ActsOn (key5sCb (κ := κ) gpioInput) fun _ v => act5s v where
  own f := by rw [afterwards_key5sCb, act5s]
  pin f := by rw [afterwards_key5sCb]
  others f pin _ := by rw [afterwards_key5sCb]

theorem actsOn_key50msCb (gpioInput : UInt32) :
    ActsOn (key50msCb (κ := κ) gpioInput) fun _ v => act50ms gpioInput v where
  own f := by
    rw [afterwards_key50msCb, act50ms]
    split_ifs <;> simp
  pin f := by
    rw [afterwards_key50msCb]
    split_ifs <;> rfl
  others f pin hpin := by
    rw [afterwards_key50msCb]
    split_ifs <;> simp [hpin]

/-- The pins of the keys, in order. -/
def Board.pins (b : Board κ) : List UInt8 := b.singleKey.map SingleKey.gpioId

/-- The key in some place with the interrupt type of its pin. -/
def Board.view (b : Board κ) (j : Nat) : Option (SingleKey κ × GpioIntType) :=
  b.singleKey[j]?.map fun key => (key, b.intr key.gpioId)

section View

variable {body : KeyM κ Unit} {act : Nat → SingleKey κ × GpioIntType → SingleKey κ × GpioIntType}
variable {b : Board κ}

theorem view_forKeys (hacts : ActsOn body act) (hnodup : b.pins.Nodup) (j : Nat) :
    Board.view ⟨(forKeys body b.now b.singleKey b.intr).1,
      (forKeys body b.now b.singleKey b.intr).2.1, b.now⟩ j = (b.view j).map (act b.now) := by
  have hpins : (forKeys body b.now b.singleKey b.intr).1.map SingleKey.gpioId =
      b.singleKey.map SingleKey.gpioId := map_gpioId_forKeys hacts
  cases hkey : b.singleKey[j]? with
  | none =>
      have hlen := congrArg List.length hpins
      rw [List.length_map, List.length_map] at hlen
      have hget : (forKeys body b.now b.singleKey b.intr).1[j]? = none := by
        rw [List.getElem?_eq_none_iff] at hkey ⊢
        omega
      simp [Board.view, hkey, hget]
  | some key =>
      obtain ⟨key', hget, hact⟩ := @forKeys_getElem? _ _ _ b.now _ b.intr hacts hnodup j key hkey
      have hpin : key'.gpioId = key.gpioId := by
        have hat := congrArg (·[j]?) hpins
        simpa [hget, hkey] using hat
      simp only [Board.view, hkey, hget, Option.map_some, hpin, hact]

/-- A timer callback acts on its own key and on no other. -/
theorem view_onKey (hacts : ActsOn body act) (hnodup : b.pins.Nodup) {i : Nat} {key : SingleKey κ}
    (hkey : b.singleKey[i]? = some key) (j : Nat) :
    (onKey body i key b).board.view j =
      (b.view j).map fun v => if i = j then act b.now v else v := by
  have hlt : i < b.singleKey.length := (List.getElem?_eq_some_iff.mp hkey).1
  by_cases hij : i = j
  · subst hij
    have hown := hacts.own ⟨key, b.intr, b.now, []⟩
    have hpin := hacts.pin ⟨key, b.intr, b.now, []⟩
    simp only [Board.view, onKey, List.getElem?_set_self hlt, hkey, Option.map_some, hpin, hown,
      if_true]
  · cases hother : b.singleKey[j]? with
    | none => simp [Board.view, onKey, List.getElem?_set_ne hij, hother]
    | some other =>
        have hne : other.gpioId ≠ key.gpioId := by
          intro heq
          have hj : b.pins[j]? = some other.gpioId := by simp [Board.pins, hother]
          have hi : b.pins[i]? = some key.gpioId := by simp [Board.pins, hkey]
          have hltpins : i < b.pins.length := by simpa [Board.pins] using hlt
          exact hij ((List.getElem?_inj hltpins hnodup).mp (by rw [hi, hj, heq]))
        have hintr := hacts.others ⟨key, b.intr, b.now, []⟩ _ hne
        simp [Board.view, onKey, List.getElem?_set_ne hij, hother, hij, hintr]

theorem pins_onKey (hacts : ActsOn body act) {i : Nat} {key : SingleKey κ}
    (hkey : b.singleKey[i]? = some key) : (onKey body i key b).board.pins = b.pins := by
  have hpin := hacts.pin ⟨key, b.intr, b.now, []⟩
  obtain ⟨hlt, hget⟩ := List.getElem?_eq_some_iff.mp hkey
  have hltpins : i < b.pins.length := by simpa [Board.pins] using hlt
  have hat : b.pins[i] = key.gpioId := by simp [Board.pins, hget]
  rw [Board.pins, onKey, List.map_set, hpin]
  change b.pins.set i key.gpioId = b.pins
  rw [← hat, List.set_getElem_self hltpins]

/-- The time an event takes. -/
def KeyEvent.elapsed : KeyEvent → Nat
  | .pass ms => ms
  | _ => 0

/-- An event keeps the keys on their pins and acts on each of them alone. -/
structure StepActs (b : Board κ) (e : KeyEvent) (b' : Board κ) : Prop where
  pins : b'.pins = b.pins
  now : b'.now = b.now + e.elapsed
  view : ∀ j, b'.view j = (b.view j).map fun v => eventAct j b.now v e

theorem stepActs_of_step (hnodup : b.pins.Nodup) {e : KeyEvent} {r : KeyResult κ}
    (hstep : keyStep b e = some r) : StepActs b e r.board := by
  cases e with
  | intr gpioStatus =>
      obtain rfl := Option.some.inj hstep
      exact ⟨map_gpioId_forKeys (actsOn_keyIntrBody gpioStatus), rfl,
        view_forKeys (actsOn_keyIntrBody gpioStatus) hnodup⟩
  | fire5s i gpioInput =>
      rw [keyStep] at hstep
      split at hstep
      · exact absurd hstep (by simp)
      · rename_i key hkey
        split_ifs at hstep
        obtain rfl := Option.some.inj hstep
        exact ⟨pins_onKey (actsOn_key5sCb gpioInput) hkey, rfl,
          view_onKey (actsOn_key5sCb gpioInput) hnodup hkey⟩
  | fire50ms i gpioInput =>
      rw [keyStep] at hstep
      split at hstep
      · exact absurd hstep (by simp)
      · rename_i key hkey
        split_ifs at hstep
        obtain rfl := Option.some.inj hstep
        exact ⟨pins_onKey (actsOn_key50msCb gpioInput) hkey, rfl,
          view_onKey (actsOn_key50msCb gpioInput) hnodup hkey⟩
  | pass ms =>
      obtain rfl := Option.some.inj hstep
      refine ⟨rfl, rfl, fun j => ?_⟩
      rw [show (fun v : SingleKey κ × GpioIntType => eventAct j b.now v (.pass ms)) = id from rfl,
        Option.map_id]
      rfl

end View

end EspushAt
