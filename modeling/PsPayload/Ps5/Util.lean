import PsPayload.Ps5.Error

/-!
# Helpers of the wrappers

C strings, and what the wrappers make of the results of libc calls.
-/

namespace PsPayload

/-- A C string: no NUL in it but the one at its end. -/
abbrev CString : Type := { s : String // Char.ofNat 0 ∉ s.toList }

/-- An owned C string for a `&str`. -/
def cstr (s : String) : Result CString :=
  if h : Char.ofNat 0 ∉ s.toList then .ok ⟨s, h⟩
  else .error (.invalidInput "string contains an interior NUL byte")

theorem cstr_val (c : CString) : cstr c.val = .ok c := dif_pos c.property

theorem val_of_cstr {s : String} {c : CString} (h : cstr s = .ok c) : s = c.val := by
  rw [cstr] at h
  split at h
  · cases h
    rfl
  · cases h

/-- A libc `int` where -1 is a failure. `errno` is the thread's at the moment. -/
def cvtI32 (errno : Errno) (ret : Int32) : Result Int32 :=
  if ret = -1 then .error (.os errno) else .ok ret

/-- A libc pointer where null is a failure. -/
def cvtPtr (errno : Errno) (ptr : UInt64) : Result UInt64 :=
  if ptr = 0 then .error (.os errno) else .ok ptr

end PsPayload
