import EspushAt.Foundations.Printf
import EspushAt.Device.Types

/-!
# Memory accesses and library calls

The statements handlers are made of: reading and writing the buffer, formatting into
a local array, and calling libat, libespush or the SDK. Each comes with the equation
for running it, so that no later proof unfolds one.
-/

namespace EspushAt

open CString Printf

variable {σ α : Type}

/-! ### Memory -/

def load (p : Ptr) : AtM σ UInt8 := do
  match (← get).mem[p]? with
  | some b => pure b
  | none => failure

def store (p : Ptr) (b : UInt8) : AtM σ Unit := do
  if p < (← get).mem.length then modify fun f => { f with mem := f.mem.set p b }
  else failure

/-- The memory from a pointer on, which is what a library gets with the pointer. -/
def memFrom (p : Ptr) : AtM σ Bytes := do return (← get).mem.drop p

/-- Exactly `len` bytes at a pointer. -/
def bytesAt (p : Ptr) (len : Nat) : AtM σ Bytes := do
  let m := (← get).mem.drop p
  if len ≤ m.length then pure (m.take len) else failure

/-- The C string at a pointer. -/
def cstring (p : Ptr) : AtM σ Bytes := do
  match read? ((← get).mem.drop p) with
  | some s => pure s
  | none => failure

/-- A string in a 32-bit address space never wraps its `size_t`. -/
def osStrlen (p : Ptr) : AtM σ Nat := do return (← cstring p).length

/-- Whether `os_strcmp` of the string at a pointer and a literal is 0. -/
def osStrcmp (p : Ptr) (lit : Bytes) : AtM σ Bool := do return (← cstring p) = lit

/-- Whether `os_memcmp` of the first bytes at a pointer and a literal is 0. -/
def osMemcmp (p : Ptr) (lit : Bytes) : AtM σ Bool := do return (← bytesAt p lit.length) = lit

/-- An argument of type `char[32]`: the callee reads 32 bytes at the pointer. -/
def array32 (p : Ptr) : AtM σ Bytes := do return (← memFrom p).take 32

/-- `os_sprintf` into a local array of `size` bytes. -/
def osSprintf (size : Nat) (fmt : Bytes) (args : List Arg) : AtM σ Bytes :=
  if (format fmt args).length < size then pure (format fmt args) else failure

/-! ### Calls -/

/-- A call whose effect is only that it was made. -/
def emit (c : Call) : AtM σ Unit := modify fun f => { f with calls := f.calls ++ [c] }

/-- A library function that only answers. -/
def query (get : σ → α) : AtM σ α := do return get (← getThe (Frame σ)).svc

/-- A library function that changes the libraries' state. -/
def perform (c : Call) (change : σ → σ) : AtM σ Unit :=
  modify fun f => { f with svc := change f.svc, calls := f.calls ++ [c] }

/-- A library function that changes the libraries' state and returns a result. -/
def request (c : α → Call) (serve : σ → α × σ) : AtM σ α := do
  let (ret, svc) := serve (← getThe (Frame σ)).svc
  modify fun f => { f with svc := svc, calls := f.calls ++ [c ret] }
  return ret

def atResponse (str : Bytes) : AtM σ Unit := emit (.atResponse str)
def atResponseOk : AtM σ Unit := emit .atResponseOk
def atResponseError : AtM σ Unit := emit .atResponseError

def atRegisterUartRxIntr (rx : Option RxIntr) : AtM σ Unit := do
  emit (.atRegisterUartRxIntr rx)
  modify fun f => { f with rxIntr := rx }

/-! ### Running a statement -/

section Run

variable (f : Frame σ)

@[simp] theorem run_emit (c : Call) :
    (emit c).run f = some ((), { f with calls := f.calls ++ [c] }) := rfl

@[simp] theorem run_query (get : σ → α) : (query get).run f = some (get f.svc, f) := rfl

@[simp] theorem run_perform (c : Call) (change : σ → σ) : (perform c change).run f =
    some ((), { f with svc := change f.svc, calls := f.calls ++ [c] }) := rfl

@[simp] theorem run_request (c : α → Call) (serve : σ → α × σ) :
    (request c serve).run f = some ((serve f.svc).1,
      { f with svc := (serve f.svc).2, calls := f.calls ++ [c (serve f.svc).1] }) := rfl

@[simp] theorem run_atResponse (str : Bytes) : (atResponse str).run f =
    some ((), { f with calls := f.calls ++ [.atResponse str] }) := rfl

@[simp] theorem run_atResponseOk : (atResponseOk : AtM σ Unit).run f =
    some ((), { f with calls := f.calls ++ [.atResponseOk] }) := rfl

@[simp] theorem run_atResponseError : (atResponseError : AtM σ Unit).run f =
    some ((), { f with calls := f.calls ++ [.atResponseError] }) := rfl

@[simp] theorem run_atRegisterUartRxIntr (rx : Option RxIntr) :
    (atRegisterUartRxIntr rx).run f = some ((),
      { f with rxIntr := rx, calls := f.calls ++ [.atRegisterUartRxIntr rx] }) := rfl

@[simp] theorem run_memFrom (p : Ptr) : (memFrom p).run f = some (f.mem.drop p, f) := rfl

@[simp] theorem run_array32 (p : Ptr) :
    (array32 p).run f = some ((f.mem.drop p).take 32, f) := rfl

variable {f}

theorem run_load {p : Ptr} {b : UInt8} (h : f.mem[p]? = some b) :
    (load p).run f = some (b, f) := by
  simp [load, h]

theorem run_store {p : Ptr} (b : UInt8) (h : p < f.mem.length) :
    (store p b).run f = some ((), { f with mem := f.mem.set p b }) := by
  simp [store, h]

theorem run_bytesAt {p : Ptr} {len : Nat} (h : len ≤ (f.mem.drop p).length) :
    (bytesAt p len).run f = some ((f.mem.drop p).take len, f) := by
  simp only [bytesAt, StateT.run_bind, StateT.run_get, Option.pure_def, Option.bind_eq_bind,
    Option.bind_some, if_pos h, StateT.run_pure]

theorem run_cstring {p : Ptr} {s : Bytes} (h : read? (f.mem.drop p) = some s) :
    (cstring p).run f = some (s, f) := by
  simp [cstring, h]

theorem run_osStrlen {p : Ptr} {s : Bytes} (h : read? (f.mem.drop p) = some s) :
    (osStrlen p).run f = some (s.length, f) := by
  simp [osStrlen, run_cstring h]

theorem run_osStrcmp {p : Ptr} {s : Bytes} (lit : Bytes) (h : read? (f.mem.drop p) = some s) :
    (osStrcmp p lit).run f = some (decide (s = lit), f) := by
  simp [osStrcmp, run_cstring h]

theorem run_osMemcmp {p : Ptr} {lit : Bytes} (h : lit.length ≤ (f.mem.drop p).length) :
    (osMemcmp p lit).run f = some (decide ((f.mem.drop p).take lit.length = lit), f) := by
  simp [osMemcmp, run_bytesAt h]

theorem run_osSprintf_of_lt {size : Nat} {fmt : Bytes} {args : List Arg}
    (h : (format fmt args).length < size) :
    (osSprintf size fmt args).run f = some (format fmt args, f) := by
  rw [osSprintf, if_pos h]
  rfl

theorem run_osSprintf_of_le {size : Nat} {fmt : Bytes} {args : List Arg}
    (h : size ≤ (format fmt args).length) : (osSprintf size fmt args).run f = none := by
  rw [osSprintf, if_neg (Nat.not_lt.mpr h)]
  rfl

end Run

end EspushAt
