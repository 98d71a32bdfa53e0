/-!
# Errors of the wrappers

`Errno` is what a failed libc call left in `errno`, or what a pthread call
returned; `Error` is the one error type of the wrappers. The numeric codes are
those of FreeBSD's `errno.h`, which the bindings are generated from.
-/

namespace PsPayload

def EINTR : Int32 := 4
def EDEADLK : Int32 := 11
def EINVAL : Int32 := 22
def EAGAIN : Int32 := 35
def ECONNABORTED : Int32 := 53

/-- A POSIX `errno` value. -/
structure Errno where
  code : Int32
  deriving DecidableEq, Repr

namespace Errno

/-- A non-blocking operation would block. `EWOULDBLOCK` is `EAGAIN`. -/
def wouldBlock (e : Errno) : Bool := e.code == EAGAIN

/-- A signal interrupted the call; it may be retried. -/
def interrupted (e : Errno) : Bool := e.code == EINTR

end Errno

/-- A failed SCE call: its name and the negative code it returned. -/
structure SceError where
  op : String
  code : Int32
  deriving DecidableEq, Repr

/-- The error of every wrapper. -/
inductive Error where
  | os (e : Errno)
  | sce (e : SceError)
  | gai (code : Int32)
  | invalidInput (msg : String)
  deriving DecidableEq, Repr

/-- The errno of an OS error. -/
def Error.errno : Error → Option Errno
  | .os e => some e
  | _ => none

abbrev Result (α : Type) : Type := Except Error α

/-- `Option::ok_or(Error::InvalidInput(msg))`. -/
def okOr {α : Type} (o : Option α) (msg : String) : Result α :=
  match o with
  | some a => .ok a
  | none => .error (.invalidInput msg)

@[simp] theorem okOr_some {α : Type} (a : α) (msg : String) : okOr (some a) msg = .ok a := rfl

@[simp] theorem okOr_none {α : Type} (msg : String) :
    okOr (none : Option α) msg = .error (.invalidInput msg) := rfl

theorem okOr_error {α : Type} {o : Option α} {msg : String} {e : Error}
    (h : okOr o msg = .error e) : e = .invalidInput msg := by
  cases o with
  | some a => cases h
  | none => cases h; rfl

theorem okOr_ok {α : Type} {o : Option α} {msg : String} {a : α} (h : okOr o msg = .ok a) :
    o = some a := by
  cases o with
  | some b => cases h; rfl
  | none => cases h

theorem bind_ok {α β : Type} {x : Result α} {f : α → Result β} {b : β}
    (h : (x >>= f) = .ok b) : ∃ a, x = .ok a ∧ f a = .ok b := by
  cases x with
  | error e => cases h
  | ok a => exact ⟨a, rfl, h⟩

/-- `?` fails where its operand does, or where what comes after it does. -/
theorem bind_error {α β : Type} {x : Result α} {f : α → Result β} {e : Error}
    (h : (x >>= f) = .error e) : x = .error e ∨ ∃ a, x = .ok a ∧ f a = .error e := by
  cases x with
  | error e' => cases h; exact .inl rfl
  | ok a => exact .inr ⟨a, rfl, h⟩

end PsPayload
