import PsPayload.Ps5.Fd.Wrapper
import PsPayload.Ps5.WriteAll

/-!
# Whole files

`fs::read` and `fs::write`, with the loops of `read_to_end` and `write_all`, as
programs that make system calls. `open` and `close` are those of the wrappers
of descriptors.
-/

namespace PsPayload.Fs

open Lib

inductive Call where
  | sys (c : Fd.SysCall)
  | read (d : Fd.Desc) (count : Nat)
  | write (d : Fd.Desc) (buf : Bytes)
  deriving DecidableEq

/-- What a call returned. -/
structure Reply extends Fd.SysRet where
  /-- The number of bytes, after `read` and `write`. -/
  size : Send
  /-- The bytes in the buffer, after `read`. -/
  chunk : Bytes

/-- The loop of `read_to_end` carries what has been read. -/
abbrev Routine (α : Type) : Type := Prog Call Reply Bytes α

/-- A function of the wrappers, among these calls. -/
def sys {α : Type} (p : Fd.Routine α) : Routine α := p.embed .sys Reply.toSysRet []

theorem writeAllBody_length {buf rest : Bytes} {r : Send} (ht : File.writeAllTop buf = none)
    (hb : File.writeAllBody buf r = .inr rest) : rest.length < buf.length := by
  match buf, r with
  | b :: buf, .ok n =>
    rw [File.writeAllBody] at hb
    split at hb
    · cases hb
    · obtain rfl := Sum.inr.inj hb
      rw [List.length_drop, List.length_cons]
      omega

/-- `File::write_all`, the state of its loop being `buf`. -/
def writeAll (d : Fd.Desc) (buf : Bytes) : Routine (Result Unit) :=
  match _ : File.writeAllTop buf with
  | some r => .done r
  | none =>
    .call (.write d buf) fun r =>
    match _ : File.writeAllBody buf r.size with
    | .inl r => .done r
    | .inr rest => writeAll d rest
termination_by buf.length
decreasing_by exact writeAllBody_length ‹_› ‹_›

theorem writeAll_nil (d : Fd.Desc) : writeAll d [] = .done (.ok ()) := by
  rw [writeAll]
  rfl

theorem writeAll_of_ne_nil (d : Fd.Desc) {buf : Bytes} (hb : buf ≠ []) :
    writeAll d buf = .call (.write d buf) fun r =>
      (File.writeAllBody buf r.size).elim .done (writeAll d) := by
  rw [writeAll]
  split
  · rename_i ht
    rw [File.writeAllTop_none hb] at ht
    cases ht
  · congr 1
    funext r
    split
    · rename_i hr
      rw [hr, Sum.elim_inl]
    · rename_i hr
      rw [hr, Sum.elim_inr]

/-- One turn of the loop of `read_to_end`. -/
def readTurn (out : Bytes) (r : Reply) : Option Bytes :=
  match r.size with
  | .error _ => none
  | .ok n => if n = 0 then none else some (out ++ r.chunk.take n)

/-- `File::read_to_end`, and `buf` after it. -/
def readToEnd (d : Fd.Desc) (buf : Bytes) : Routine (Result Nat × Bytes) :=
  .loop (.read d 8192) readTurn
    (fun out r =>
      match r.size with
      | .error e => .done (.error (.os e), out)
      | .ok _ => .done (.ok (out.length - buf.length), out))
    buf

/-- A file that is opened, with the flags of the options. -/
theorem sys_open {o : Fd.OpenOptions} {access : Int32} (ha : o.accessFlags = .ok access)
    (path : CString) :
    sys (o.open path.val) =
      .call (.sys (.open path (o.flags access) Fd.DEFAULT_CREATE_MODE)) fun r =>
        .done ((cvtI32 r.errno r.ret).map .file) := by
  rw [Fd.OpenOptions.open, ha, cstr_val]
  refine congrArg (Prog.call _) (funext fun r => ?_)
  cases h : cvtI32 r.errno r.ret with
  | error e =>
    simp only [h]
    rfl
  | ok fd =>
    simp only [h]
    rfl

/-- `fs::read`. The file is closed after its contents have been read. -/
def read (path : String) : Routine (Result Bytes) :=
  (sys (Fd.File.open path)).bind fun
    | .error e => .done (.error e)
    | .ok file => (readToEnd file.desc []).bind fun (r, buf) =>
      sys (file.drop (.done (r.map fun _ => buf)))

/-- `fs::write`. -/
def write (path : String) (contents : Bytes) : Routine (Result Unit) :=
  (sys (Fd.File.create path)).bind fun
    | .error e => .done (.error e)
    | .ok file => (writeAll file.desc contents).bind fun r => sys (file.drop (.done r))

end PsPayload.Fs
