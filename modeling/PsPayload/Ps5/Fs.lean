import PsPayload.Ps5.Net

/-!
# Files

What `File::write_all` does with the results of its `write` calls, which are
those of a `send`: some bytes taken from the front of the slice, or an errno.
-/

namespace PsPayload.File

open Lib

/-- `while !buf.is_empty()`. The state is the slice still to be written. -/
def writeAllTop : Bytes → Option (Result Unit)
  | [] => some (.ok ())
  | _ :: _ => none

/-- One turn of `write_all` with the result of its `write`. Every error ends
it, an interruption too. -/
def writeAllBody (buf : Bytes) : Send → Result Unit ⊕ Bytes
  | .error e => .inl (.error (.os e))
  | .ok n =>
    if n = 0 then
      .inl (.error (.invalidInput "write returned zero (failed to write whole buffer)"))
    else .inr (buf.drop n)

/-- `File::write_all`. -/
def writeAll (buf : Bytes) : Script Send Error Unit :=
  .loop writeAllTop writeAllBody buf

end PsPayload.File
