import PsPayload.Lib.Program
import PsPayload.Ps5.Addr
import PsPayload.Ps5.Util

/-!
# Descriptors and their wrappers

The functions that make, convert and drop the wrappers of a descriptor or of a
directory stream, as programs that make system calls. A call that fails leaves
its reason in `errno`, where the next one may overwrite it.

`?` in a function that owns a wrapper drops the wrapper, which closes it, after
the error has been made and before it is returned (`checked`).
-/

namespace PsPayload.Fd

open Lib

/-- What the kernel gives out. -/
inductive Desc where
  | fd (n : Int32)
  /-- A directory stream. -/
  | dir (p : UInt64)
  deriving DecidableEq, Repr

inductive SysCall where
  | open (path : CString) (flags : Int32) (mode : UInt32)
  | socket (domain ty protocol : Int32)
  | setsockopt (fd level name value : Int32)
  | bind (fd : Int32) (sa : SockaddrIn)
  | listen (fd backlog : Int32)
  | connect (fd : Int32) (sa : SockaddrIn)
  | accept (fd : Int32)
  | opendir (path : CString)
  | close (fd : Int32)
  | closedir (dir : UInt64)
  /-- Any other call: `read`, `write`, `fcntl`, `readdir` and so on. -/
  | io (d : Desc)
  deriving DecidableEq

/-- What a call returned, and `errno` after it. -/
structure SysRet where
  ret : Int32
  /-- The pointer that `opendir` returned. -/
  dir : UInt64
  /-- The peer's address, after `accept`. -/
  sa : SockaddrIn
  errno : Errno
  deriving DecidableEq, Repr

/-- The values that own a descriptor. A raw descriptor is the client's, which
has it from `into_raw_fd` or from a call of its own. -/
inductive Wrapper where
  | file (fd : Int32)
  | tcpStream (fd : Int32)
  | tcpListener (fd : Int32)
  | udpSocket (fd : Int32)
  | readDir (dir : UInt64)
  | raw (fd : Int32)
  deriving DecidableEq, Repr

def Wrapper.desc : Wrapper → Desc
  | .file fd | .tcpStream fd | .tcpListener fd | .udpSocket fd | .raw fd => .fd fd
  | .readDir dir => .dir dir

/-- The loops of these functions carry nothing. -/
abbrev Routine (α : Type) : Type := Prog SysCall SysRet Unit α

def SOCK_STREAM : Int32 := 1
def SOCK_DGRAM : Int32 := 2
def SOL_SOCKET : Int32 := 0xFFFF
def SO_REUSEADDR : Int32 := 4
def O_RDONLY : Int32 := 0
def O_WRONLY : Int32 := 1
def O_RDWR : Int32 := 2
def O_APPEND : Int32 := 0x8
def O_CREAT : Int32 := 0x200
def O_TRUNC : Int32 := 0x400
def O_EXCL : Int32 := 0x800
def DEFAULT_CREATE_MODE : UInt32 := 0o644

/-- The call that a wrapper is closed with. -/
def Wrapper.closeCall : Wrapper → SysCall
  | .file fd | .tcpStream fd | .tcpListener fd | .udpSocket fd | .raw fd => .close fd
  | .readDir dir => .closedir dir

/-- `Drop` for the wrappers; the client closes a raw descriptor itself. -/
def Wrapper.drop {α : Type} (w : Wrapper) (k : Routine α) : Routine α :=
  .call w.closeCall fun _ => k

/-- `cvt_i32(c)?` in a function that owns what is in `owned`. -/
def checked {α : Type} (owned : Option Wrapper) (c : SysCall) (k : Int32 → Routine (Result α)) :
    Routine (Result α) :=
  .call c fun r =>
  match cvtI32 r.errno r.ret with
  | .ok ret => k ret
  | .error e =>
    match owned with
    | none => .done (.error e)
    | some w => w.drop (.done (.error e))

/-- `require_v4(addr)?`. -/
def withV4 {α : Type} (addr : SocketAddr) (k : SockaddrIn → Routine (Result α)) :
    Routine (Result α) :=
  match requireV4 addr with
  | .error e => .done (.error e)
  | .ok v4 => k (toSockaddrIn v4)

/-! ## Files and directories -/

structure OpenOptions where
  read : Bool
  write : Bool
  append : Bool
  truncate : Bool
  create : Bool
  createNew : Bool
  deriving DecidableEq, Repr

def OpenOptions.new : OpenOptions := ⟨false, false, false, false, false, false⟩

def OpenOptions.accessFlags (o : OpenOptions) : Result Int32 :=
  match o.read, o.write || o.append with
  | true, false => .ok O_RDONLY
  | false, true => .ok O_WRONLY
  | true, true => .ok O_RDWR
  | false, false =>
    .error (.invalidInput "OpenOptions: no access mode set (need read and/or write)")

def OpenOptions.flags (o : OpenOptions) (access : Int32) : Int32 :=
  let flags := if o.append then access ||| O_APPEND else access
  if o.createNew then flags ||| (O_CREAT ||| O_EXCL)
  else
    let flags := if o.create then flags ||| O_CREAT else flags
    if o.truncate then flags ||| O_TRUNC else flags

def OpenOptions.open (o : OpenOptions) (path : String) : Routine (Result Wrapper) :=
  match o.accessFlags with
  | .error e => .done (.error e)
  | .ok access =>
  match cstr path with
  | .error e => .done (.error e)
  | .ok cPath =>
  checked none (.open cPath (o.flags access) DEFAULT_CREATE_MODE) fun fd =>
  .done (.ok (.file fd))

def File.open (path : String) : Routine (Result Wrapper) :=
  { OpenOptions.new with read := true }.open path

def File.create (path : String) : Routine (Result Wrapper) :=
  { OpenOptions.new with write := true, create := true, truncate := true }.open path

def readDir (path : String) : Routine (Result Wrapper) :=
  match cstr path with
  | .error e => .done (.error e)
  | .ok cPath =>
  .call (.opendir cPath) fun r =>
  match cvtPtr r.errno r.dir with
  | .error e => .done (.error e)
  | .ok dir => .done (.ok (.readDir dir))

/-! ## Sockets -/

def TcpStream.connect (addr : SocketAddr) : Routine (Result Wrapper) :=
  withV4 addr fun sa =>
  checked none (.socket AF_INET SOCK_STREAM 0) fun fd =>
  let stream := Wrapper.tcpStream fd
  checked stream (.connect fd sa) fun _ =>
  .done (.ok stream)

namespace TcpListener

def bind (addr : SocketAddr) : Routine (Result Wrapper) :=
  withV4 addr fun sa =>
  checked none (.socket AF_INET SOCK_STREAM 0) fun fd =>
  let listener := Wrapper.tcpListener fd
  checked listener (.setsockopt fd SOL_SOCKET SO_REUSEADDR 1) fun _ =>
  checked listener (.bind fd sa) fun _ =>
  checked listener (.listen fd 128) fun _ =>
  .done (.ok listener)

/-- The connection and the peer's address. -/
def accept (listener : Int32) : Routine (Result (Wrapper × SocketAddr)) :=
  .call (.accept listener) fun r =>
  match cvtI32 r.errno r.ret with
  | .error e => .done (.error e)
  | .ok fd => .done (.ok (.tcpStream fd, .v4 (fromSockaddrIn r.sa)))

end TcpListener

/-- `Incoming::next`. -/
def Incoming.next (listener : Int32) : Routine (Result Wrapper) :=
  (TcpListener.accept listener).map fun r => r.map (·.1)

def UdpSocket.bind (addr : SocketAddr) : Routine (Result Wrapper) :=
  withV4 addr fun sa =>
  checked none (.socket AF_INET SOCK_DGRAM 0) fun fd =>
  let sock := Wrapper.udpSocket fd
  checked sock (.bind fd sa) fun _ =>
  .done (.ok sock)

/-! ## Conversions and uses -/

/-- `File::into_raw_fd`, `TcpStream::into_raw_fd`. -/
def intoRawFd : Wrapper → Option Wrapper
  | .file fd | .tcpStream fd => some (.raw fd)
  | .tcpListener _ | .udpSocket _ | .readDir _ | .raw _ => none

/-- `File::from_raw_fd`. -/
def File.fromRawFd : Wrapper → Option Wrapper
  | .raw fd => some (.file fd)
  | .file _ | .tcpStream _ | .tcpListener _ | .udpSocket _ | .readDir _ => none

/-- `TcpStream::from_raw_fd`. -/
def TcpStream.fromRawFd : Wrapper → Option Wrapper
  | .raw fd => some (.tcpStream fd)
  | .file _ | .tcpStream _ | .tcpListener _ | .udpSocket _ | .readDir _ => none

/-- A method that makes `n` more calls on its descriptor. -/
def useDesc (d : Desc) : Nat → Routine Unit
  | 0 => .done ()
  | n + 1 => .call (.io d) fun _ => useDesc d n

end PsPayload.Fd
