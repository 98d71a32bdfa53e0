import PsPayload.Lib.Text
import PsPayload.Ps5.Fs.File

/-!
# Paths and positions

The methods of `File` that a whole file does without, and the functions that
take a path: `seek`, `set_len`, `sync_all`, `remove_file`, `rename`, `exists`,
`metadata` and `read_to_string`, as programs that make system calls.
-/

namespace PsPayload.Fs

open Lib

/-- What `stat` fills in, as far as `Metadata` reads it. -/
structure Stat where
  size : Int64
  mode : UInt16
  deriving DecidableEq, Repr

inductive PathCall where
  | io (c : Call)
  | lseek (d : Fd.Desc) (off : Int64) (whence : Int32)
  | fsync (d : Fd.Desc)
  | ftruncate (d : Fd.Desc) (len : Int64)
  | unlink (path : CString)
  | rename (old new : CString)
  | access (path : CString) (mode : Int32)
  | stat (path : CString)
  deriving DecidableEq

/-- What a call returned. -/
structure PathReply extends Reply where
  /-- The offset, after `lseek`. -/
  off : Int64
  /-- After `stat`. -/
  stat : Stat
  /-- Whether a `close` that has failed has closed the file all the same. -/
  closed : Bool

abbrev Task (α : Type) : Type := Prog PathCall PathReply Bytes α

/-- A function on whole files, among these calls. -/
def io {α : Type} (p : Routine α) : Task α := p.relabel .io PathReply.toReply

def SEEK_SET : Int32 := 0
def SEEK_CUR : Int32 := 1
def SEEK_END : Int32 := 2
def F_OK : Int32 := 0
def S_IFMT : UInt32 := 0o170000
def S_IFDIR : UInt32 := 0o040000
def S_IFREG : UInt32 := 0o100000

/-- `cvt_i32(c).map(|_| ())`. -/
def status (c : PathCall) : Task (Result Unit) :=
  .call c fun r => .done ((cvtI32 r.errno r.ret).map fun _ => ())

/-- `cstr(path)?`. -/
def withPath {α : Type} (path : String) (k : CString → Task (Result α)) : Task (Result α) :=
  match cstr path with
  | .error e => .done (.error e)
  | .ok cPath => k cPath

theorem withPath_val {α : Type} (path : CString) (k : CString → Task (Result α)) :
    withPath path.val k = k path := by rw [withPath, cstr_val]

/-! ## Methods of `File` -/

inductive SeekFrom where
  | start (n : UInt64)
  | fromEnd (n : Int64)
  | current (n : Int64)
  deriving DecidableEq, Repr

/-- The arguments of `lseek`. -/
def SeekFrom.args : SeekFrom → Int64 × Int32
  | .start n => (n.toInt64, SEEK_SET)
  | .fromEnd n => (n, SEEK_END)
  | .current n => (n, SEEK_CUR)

namespace File

def read (d : Fd.Desc) (len : Nat) : Task (Result Bytes) :=
  .call (.io (.read d len)) fun r =>
  match r.size with
  | .error e => .done (.error (.os e))
  | .ok n => .done (.ok (r.chunk.take n))

def write (d : Fd.Desc) (buf : Bytes) : Task (Result Nat) :=
  .call (.io (.write d buf)) fun r =>
  match r.size with
  | .error e => .done (.error (.os e))
  | .ok n => .done (.ok n)

def seek (d : Fd.Desc) (pos : SeekFrom) : Task (Result UInt64) :=
  .call (.lseek d pos.args.1 pos.args.2) fun r =>
  .done (if r.off = -1 then .error (.os r.errno) else .ok r.off.toUInt64)

def syncAll (d : Fd.Desc) : Task (Result Unit) := status (.fsync d)

def setLen (d : Fd.Desc) (size : UInt64) : Task (Result Unit) :=
  status (.ftruncate d size.toInt64)

end File

/-- `as u64` of a value that is not negative. -/
theorem toUInt64_of_toInt {x : Int64} {n : Nat} (h : x.toInt = n) :
    x.toUInt64 = UInt64.ofNat n := by
  have hb : x.toUInt64.toNat = x.toBitVec.toNat := rfl
  have hx : x.toBitVec.toInt = n := h
  have hlt := x.toBitVec.isLt
  rw [BitVec.toInt_eq_toNat_cond] at hx
  have hn : x.toBitVec.toNat = n := by split at hx <;> omega
  apply UInt64.toNat_inj.mp
  rw [hb, UInt64.toNat_ofNat', hn, Nat.mod_eq_of_lt (by omega)]

theorem lt_of_toInt {x : Int64} {n : Nat} (h : x.toInt = n) : n < 2 ^ 63 := by
  have := Int64.toInt_lt x
  omega

/-! ## Functions of a path -/

structure Metadata where
  stat : Stat
  deriving DecidableEq, Repr

namespace Metadata

def len (m : Metadata) : UInt64 := m.stat.size.toUInt64

def isEmpty (m : Metadata) : Bool := m.len == 0

def isDir (m : Metadata) : Bool := m.stat.mode.toUInt32 &&& S_IFMT == S_IFDIR

def isFile (m : Metadata) : Bool := m.stat.mode.toUInt32 &&& S_IFMT == S_IFREG

end Metadata

def readToString (path : String) : Task (Result Str) :=
  (io (read path)).map fun
    | .error e => .error e
    | .ok bytes => okOr (fromUtf8 bytes) "file contents are not valid UTF-8"

def removeFile (path : String) : Task (Result Unit) :=
  withPath path fun cPath => status (.unlink cPath)

def rename (fromPath toPath : String) : Task (Result Unit) :=
  withPath fromPath fun cFrom => withPath toPath fun cTo => status (.rename cFrom cTo)

/-- `fs::exists`. Every error is a `false`. -/
def pathExists (path : String) : Task Bool :=
  match cstr path with
  | .error _ => .done false
  | .ok cPath => .call (.access cPath F_OK) fun r => .done (r.ret == 0)

def metadata (path : String) : Task (Result Metadata) :=
  withPath path fun cPath =>
  .call (.stat cPath) fun r => .done ((cvtI32 r.errno r.ret).map fun _ => { stat := r.stat })

end PsPayload.Fs
