import PsPayload.Lib.Atomic
import PsPayload.Ps5.Fd.Wrapper
import PsPayload.Ps5.Net

/-!
# UDP sockets

The methods of `UdpSocket`, as programs that make system calls, and the network
that the calls of any number of threads come to. A datagram that has been sent
arrives once, several times or never, and in any order. `Net.answer i` is what
POSIX says of the calls of thread `i`. The addresses in the network are those of
the calls, in network byte order.
-/

namespace PsPayload.Udp

open Lib

inductive Call where
  | sys (c : Fd.SysCall)
  | sendto (fd : Int32) (buf : Bytes) (sa : SockaddrIn)
  | recvfrom (fd : Int32) (len : Nat)
  | send (fd : Int32) (buf : Bytes)
  | recv (fd : Int32) (len : Nat)
  | fcntl (fd cmd arg : Int32)
  deriving DecidableEq

/-- What a call returned. -/
structure Reply extends Fd.SysRet where
  /-- The number of bytes, after `sendto`, `recvfrom`, `send` and `recv`. -/
  size : Send
  /-- The bytes in the buffer, after `recvfrom` and `recv`. -/
  chunk : Bytes
  /-- Whether a `connect` that has failed has disconnected the socket. -/
  dissolved : Bool

abbrev Task (α : Type) : Type := Prog Call Reply Unit α

/-- A function of the wrappers, among these calls. -/
def sys {α : Type} (p : Fd.Routine α) : Task α := p.embed .sys Reply.toSysRet ()

def F_GETFL : Int32 := 3
def F_SETFL : Int32 := 4
def O_NONBLOCK : Int32 := 4

/-- `set_nonblocking_fd`. -/
def setNonblockingFd (fd : Int32) (nonblocking : Bool) : Task (Result Unit) :=
  .call (.fcntl fd F_GETFL 0) fun r =>
  match cvtI32 r.errno r.ret with
  | .error e => .done (.error e)
  | .ok flags =>
  .call (.fcntl fd F_SETFL
    (if nonblocking then flags ||| O_NONBLOCK else flags &&& ~~~O_NONBLOCK)) fun r =>
  .done ((cvtI32 r.errno r.ret).map fun _ => ())

/-- `cvt_ssize`. -/
def sizeOf (r : Reply) : Result Nat :=
  match r.size with
  | .error e => .error (.os e)
  | .ok n => .ok n

namespace UdpSocket

def sendTo (fd : Int32) (buf : Bytes) (addr : SocketAddr) : Task (Result Nat) :=
  match requireV4 addr with
  | .error e => .done (.error e)
  | .ok v4 => .call (.sendto fd buf (toSockaddrIn v4)) fun r => .done (sizeOf r)

/-- The bytes that have been received, and the sender. -/
def recvFrom (fd : Int32) (len : Nat) : Task (Result (Bytes × SocketAddr)) :=
  .call (.recvfrom fd len) fun r =>
  .done ((sizeOf r).map fun n => (r.chunk.take n, .v4 (fromSockaddrIn r.sa)))

def connect (fd : Int32) (addr : SocketAddr) : Task (Result Unit) :=
  match requireV4 addr with
  | .error e => .done (.error e)
  | .ok v4 => .call (.sys (.connect fd (toSockaddrIn v4))) fun r =>
    .done ((cvtI32 r.errno r.ret).map fun _ => ())

def send (fd : Int32) (buf : Bytes) : Task (Result Nat) :=
  .call (.send fd buf) fun r => .done (sizeOf r)

def recv (fd : Int32) (len : Nat) : Task (Result Bytes) :=
  .call (.recv fd len) fun r => .done ((sizeOf r).map fun n => r.chunk.take n)

def setNonblocking (fd : Int32) (nonblocking : Bool) : Task (Result Unit) :=
  setNonblockingFd fd nonblocking

end UdpSocket

/-! ## The network -/

def EDESTADDRREQ : Int32 := 39
def EISCONN : Int32 := 56

structure Datagram where
  /-- The socket that has sent it. -/
  socket : Int32
  src : SockaddrIn
  dst : SockaddrIn
  data : Bytes
  deriving DecidableEq

/-- The same address and port. -/
def sameAddr (a b : SockaddrIn) : Bool := a.sAddr == b.sAddr && a.sinPort == b.sinPort

/-- `b` is an address of a socket that is bound to `a`: to this address, or to this
port of all addresses. -/
def covers (a b : SockaddrIn) : Bool :=
  a.sinPort == b.sinPort && (a.sAddr == 0 || a.sAddr == b.sAddr)

/-- There is an address that both cover. -/
def overlaps (a b : SockaddrIn) : Bool :=
  a.sinPort == b.sinPort && (a.sAddr == 0 || b.sAddr == 0 || a.sAddr == b.sAddr)

/-- `b` is what a socket may be bound to that asks for `a`. For port 0 the port is
up to the kernel. -/
def fits (a b : SockaddrIn) : Bool :=
  a.sAddr == b.sAddr && (a.sinPort == 0 || a.sinPort == b.sinPort)

structure Socket (ι : Type) where
  /-- The thread that has made it. -/
  owner : ι
  /-- Where it is bound to. -/
  addr : Option SockaddrIn
  /-- What it is connected to. -/
  peer : Option SockaddrIn
  /-- What may have arrived before it was connected. -/
  old : List Datagram
  flags : Int32

/-- A socket that is bound to `a` gets a datagram. -/
def Socket.gets {ι : Type} (s : Socket ι) (a : SockaddrIn) (d : Datagram) : Bool :=
  s.old.contains d || covers a d.dst && s.peer.all (sameAddr d.src)

def Socket.nonblocking {ι : Type} (s : Socket ι) : Bool := s.flags &&& O_NONBLOCK != 0

/-- After `connect`. -/
def Socket.connected {ι : Type} (s : Socket ι) (a sa : SockaddrIn) (sent : List Datagram) :
    Socket ι :=
  { s with peer := some sa, old := s.old ++ sent.filter (s.gets a) }

/-- After a `connect` that has failed, when that has disconnected it first. -/
def Socket.dissolved {ι : Type} (s : Socket ι) : Socket ι := { s with peer := none }

/-- After `F_SETFL`. -/
def Socket.withFlags {ι : Type} (s : Socket ι) (flags : Int32) : Socket ι :=
  { s with flags := flags }

/-- After `bind`. -/
def Socket.boundTo {ι : Type} (s : Socket ι) (a : SockaddrIn) : Socket ι :=
  { s with addr := some a }

structure Net (ι : Type) where
  sockets : Int32 → Option (Socket ι)
  /-- The descriptors that have been in use. -/
  known : List Int32
  sent : List Datagram
  /-- The calls that have failed, by which thread and with which error. -/
  failures : List (ι × Errno)

namespace Net

variable {ι : Type}

def fail (k : Net ι) (i : ι) (e : Errno) : Net ι := { k with failures := k.failures ++ [(i, e)] }

/-- After a call of thread `i` has returned an error that `excused` it. -/
def refuse (k : Net ι) (i : ι) (excused : Bool) (e : Errno) : Net ι :=
  if excused then k else k.fail i e

def setSocket (k : Net ι) (fd : Int32) (s : Option (Socket ι)) : Net ι :=
  { k with sockets := Function.update k.sockets fd s, known := fd :: k.known }

def put (k : Net ι) (d : Datagram) : Net ι := { k with sent := k.sent ++ [d] }

/-- A socket and where it is bound to. -/
def bound (k : Net ι) (fd : Int32) : Option (Socket ι × SockaddrIn) :=
  (k.sockets fd).bind fun s => s.addr.map fun a => (s, a)

/-- No socket is bound to an address of `a`. -/
def free (k : Net ι) (a : SockaddrIn) : Bool :=
  k.known.all fun fd => (k.bound fd).all fun p => !overlaps p.2 a

/-- After a `connect` that has failed. -/
def dissolve (k : Net ι) (fd : Int32) (dissolved : Bool) : Net ι :=
  if dissolved then (k.bound fd).elim k fun p => k.setSocket fd (some p.1.dissolved) else k

/-- After `sendto` or `send`; `r.sa` is the address that the kernel sends from. -/
def sending (k : Net ι) (i : ι) (fd : Int32) (buf : Bytes) (dst : Socket ι → Option SockaddrIn)
    (excuse : Socket ι → Errno → Bool) (r : Reply) : Option (Net ι) :=
  match k.bound fd, r.size with
  | none, .error e => some (k.fail i e)
  | none, .ok _ => none
  | some (s, _), .error e => some (k.refuse i (s.nonblocking && e.wouldBlock || excuse s e) e)
  | some (s, a), .ok n => (dst s).bind fun dst =>
    if n = buf.length ∧ covers a r.sa then some (k.put ⟨fd, r.sa, dst, buf⟩) else none

/-- After `recvfrom` or `recv`. -/
def receiving (k : Net ι) (i : ι) (fd : Int32) (len : Nat) (r : Reply) : Option (Net ι) :=
  match k.bound fd, r.size with
  | none, .error e => some (k.fail i e)
  | none, .ok _ => none
  | some (s, _), .error e => some (k.refuse i (s.nonblocking && e.wouldBlock) e)
  | some (s, a), .ok n =>
    if ∃ d ∈ k.sent, s.gets a d ∧ r.sa = d.src ∧ n = min len d.data.length ∧
        r.chunk.take n = d.data.take len then some k
    else none

variable [DecidableEq ι]

/-- A call of thread `i`. -/
def answer (i : ι) (k : Net ι) : Call → Reply → Option (Net ι)
  | .sys (.socket domain ty _), r =>
    if r.ret = -1 then some (k.fail i r.errno)
    else if domain = AF_INET ∧ ty = Fd.SOCK_DGRAM ∧ 0 ≤ r.ret ∧ (k.sockets r.ret).isNone then
      some (k.setSocket r.ret (some ⟨i, none, none, [], 2⟩))
    else none
  | .sys (.bind fd sa), r =>
    if r.ret = -1 then some (k.fail i r.errno)
    else (k.sockets fd).bind fun s =>
      if s.owner = i ∧ s.addr = none ∧ fits sa r.sa ∧ k.free r.sa then
        some (k.setSocket fd (some (s.boundTo r.sa)))
      else none
  | .sys (.connect fd sa), r =>
    if r.ret = -1 then some ((k.dissolve fd r.dissolved).fail i r.errno)
    else (k.bound fd).map fun p => k.setSocket fd (some (p.1.connected p.2 sa k.sent))
  | .sys (.close fd), _ =>
    (k.sockets fd).bind fun s =>
      if s.owner = i ∧ s.addr = none then some (k.setSocket fd none) else none
  | .sendto fd buf sa, r =>
    k.sending i fd buf (fun s => if s.peer = none then some sa else none)
      (fun s e => s.peer.isSome && e.code == EISCONN) r
  | .send fd buf, r =>
    k.sending i fd buf Socket.peer (fun s e => s.peer.isNone && e.code == EDESTADDRREQ) r
  | .recvfrom fd len, r | .recv fd len, r => k.receiving i fd len r
  | .fcntl fd cmd arg, r =>
    if r.ret = -1 then some (k.fail i r.errno)
    else (k.bound fd).bind fun p =>
      if cmd = F_GETFL then if r.ret = p.1.flags then some k else none
      else if cmd = F_SETFL then some (k.setSocket fd (some (p.1.withFlags arg)))
      else none
  | .sys (.open _ _ _), _ | .sys (.setsockopt _ _ _ _), _ | .sys (.listen _ _), _
  | .sys (.accept _), _ | .sys (.opendir _), _ | .sys (.closedir _), _ | .sys (.io _), _ => none

end Net

end PsPayload.Udp
