import PsPayload.Lib.Script
import PsPayload.Lib.Text
import PsPayload.Ps5.Error

/-!
# TCP sockets

What the sockets do with the results of their system calls. `recv` stores
bytes in the caller's buffer, none at the end of the stream, or fails; `send`
takes some bytes from the front of a slice, or fails.
-/

namespace PsPayload

open Lib

/-- What a `recv` returned: the bytes it stored, or its errno. -/
abbrev Recv : Type := Except Errno Bytes

/-- What a `send` returned: how many bytes it took, or its errno. -/
abbrev Send : Type := Except Errno Nat

/-- A `send` that `write_all` does not go on after: an error other than `EINTR`,
or nothing taken. -/
def Send.failed : Send → Bool
  | .ok n => n == 0
  | .error e => !e.interrupted

/-- A `send` that a signal interrupted, and that is made again. -/
def Send.interrupted : Send → Bool
  | .ok _ => false
  | .error e => e.interrupted

namespace TcpStream

/-- `while !buf.is_empty()`. The state is the thread's `errno` and the slice
still to be written. -/
def writeAllTop : Errno × Bytes → Option (Result Unit)
  | (_, []) => some (.ok ())
  | (_, _ :: _) => none

/-- One turn of `write_all` with the result of its `send`. A `send` that takes
nothing is an error, with whatever `errno` an earlier call left. -/
def writeAllBody : Errno × Bytes → Send → Result Unit ⊕ (Errno × Bytes)
  | (errno, buf), .ok n =>
    if n = 0 then .inl (.error (.os errno)) else .inr (errno, buf.drop n)
  | (_, buf), .error e =>
    if (Error.os e).errno.any Errno.interrupted then .inr (e, buf) else .inl (.error (.os e))

/-- `TcpStream::write_all`. -/
def writeAll (errno : Errno) (buf : Bytes) : Script Send Error Unit :=
  .loop writeAllTop writeAllBody (errno, buf)

end TcpStream

/-- `TcpListener::accept`, without the address of the peer: the new descriptor,
or the errno. -/
def TcpListener.accept : Except Errno Int32 → Result Int32
  | .ok fd => .ok fd
  | .error e => .error (.os e)

end PsPayload
