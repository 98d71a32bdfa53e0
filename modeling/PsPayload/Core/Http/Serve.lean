import Mathlib.Logic.Function.Basic
import PsPayload.Core.Http.Request
import PsPayload.Core.Http.Response
import PsPayload.Ps5.Thread.Spawn

/-!
# Serving connections

`Server::serve` with the threads it spawns. The accept loop and each connection
thread take their own steps, one label a step, with what the call of that step
returned; their runs are the interleavings. The owner's side of each spawn
belongs to the accept loop.

Calls name their descriptor by its number, and the kernel's table `files` says
what it stands for. A new socket gets a number that is free, and `close` frees
it. A call of a connection's thread on a number that does not stand for that
connection counts in `stray`.

`SIGPIPE` is taken to be ignored by the process, so that a `send` to a peer that is
gone returns an error.
-/

namespace PsPayload.Http

open Lib Thread

def DEFAULT_STACK_SIZE : UInt64 := 128 * 1024

structure Server where
  stackSize : UInt64
  limits : Limits
  deriving DecidableEq, Repr

def Server.new : Server where
  stackSize := DEFAULT_STACK_SIZE
  limits := { maxHeaderBytes := DEFAULT_MAX_HEADER_BYTES, maxBodyBytes := DEFAULT_MAX_BODY_BYTES }

def badRequest : Response := (Response.new 400).text "Bad Request".toList

/-! ## What is done on a connection -/

/-- A call on the descriptor with what it returned, or a call of the handler. -/
inductive Event where
  | recv (r : Recv)
  | call (req : Request) (response : Response)
  | send (buf : Bytes) (r : Send)
  | shutdown
  | close
  deriving DecidableEq

namespace Event

def received : Event → List Recv
  | .recv r => [r]
  | .call _ _ | .send _ _ | .shutdown | .close => []

def calls : Event → List (Request × Response)
  | .call req response => [(req, response)]
  | .recv _ | .send _ _ | .shutdown | .close => []

def sends : Event → List Send
  | .send _ r => [r]
  | .recv _ | .call _ _ | .shutdown | .close => []

/-- The bytes that a `send` took. -/
def sent : Event → Bytes
  | .send buf (.ok n) => buf.take n
  | .send _ (.error _) | .recv _ | .call _ _ | .shutdown | .close => []

end Event

abbrev Trace : Type := List Event

namespace Trace

def received (tr : Trace) : List Recv := tr.flatMap Event.received
def calls (tr : Trace) : List (Request × Response) := tr.flatMap Event.calls
def sends (tr : Trace) : List Send := tr.flatMap Event.sends
def sent (tr : Trace) : Bytes := tr.flatMap Event.sent

end Trace

/-! ## A connection thread -/

/-- Where the closure is: not called yet, dropped without a call, in
`serve_connection`, or returned, with the stream dropped. -/
inductive Phase where
  | idle
  | dropped
  | reading (got : List Recv)
  | handling (req : Request)
  | writing (buf : Bytes)
  | shutdown
  | dropping
  | closed

/-- The head of the loop of `write_all`. -/
def Phase.atWrite (errno : Errno) (buf : Bytes) : Phase :=
  match TcpStream.writeAllTop (errno, buf) with
  | some _ => .shutdown
  | none => .writing buf

/-- A connection, from `accept` on: the spawn of its thread, where that thread
is, the thread's `errno`, and what has been done. -/
structure Conn where
  fd : Int32
  spawn : Spawn Unit
  phase : Phase
  errno : Errno
  trace : Trace

/-- The steps of the spawn, whose handle is dropped at once, then those of
`serve_connection`, then the drop of the stream. The handler may keep state of
its own and make calls, so what it returns, and `errno` then, are part of the
label. -/
inductive Move where
  | spawn (a : Act Unit)
  | recv (r : Recv)
  | call (response : Response) (errno : Errno)
  | send (r : Send)
  | shutdown
  | drop

namespace Move

def byOwner : Move → Bool
  | .spawn a => a.byOwner
  | .recv _ | .call _ _ | .send _ | .shutdown | .drop => false

/-- The step is a call on the descriptor. -/
def operates : Move → Bool
  | .recv _ | .send _ | .shutdown | .drop | .spawn .reclaim => true
  | .call _ _ | .spawn _ => false

/-- It is `close`. -/
def closes : Move → Bool
  | .drop | .spawn .reclaim => true
  | .recv _ | .call _ _ | .send _ | .shutdown | .spawn _ => false

end Move

namespace Conn

def init (server : Server) (fd : Int32) : Conn where
  fd := fd
  spawn := .init (Builder.new.withStackSize server.stackSize)
  phase := .idle
  errno := ⟨0⟩
  trace := []

def record (c : Conn) (e : Event) : Conn := { c with trace := c.trace ++ [e] }

/-- `read_request` with the results of its `recv` calls so far, and what
`serve_connection` does once it has returned. -/
def atRead (limits : Limits) (c : Conn) (got : List Recv) : Conn :=
  { c with
    phase := match (readRequest limits).run got with
      | none => .reading got
      | some (.ok (some req), _) => .handling req
      | some (.ok none, _) => .shutdown
      | some (.error _, _) => .atWrite c.errno badRequest.encode }

/-- What a step of the spawn does to the closure. -/
def afterAct (limits : Limits) (c : Conn) : Act Unit → Option Conn
  | .start => some (c.atRead limits [])
  | .finish () =>
    match c.phase with
    | .closed => some c
    | _ => none
  -- the stream goes with the closure
  | .reclaim => some { c.record .close with phase := .dropped }
  | .join _ => none
  | _ => some c

def step (limits : Limits) (c : Conn) : Move → Option Conn
  | .spawn a => (c.spawn.step a).bind fun spawn => afterAct limits { c with spawn } a
  | .recv r =>
    match c.phase with
    | .reading got =>
      match r with
      | .ok bytes =>
        if bytes.length ≤ READ_CHUNK then some ((c.record (.recv r)).atRead limits (got ++ [r]))
        else none
      | .error e => some (atRead limits { c.record (.recv r) with errno := e } (got ++ [r]))
    | _ => none
  | .call response errno =>
    match c.phase with
    | .handling req =>
      some { c.record (.call req response) with
        errno, phase := .atWrite errno response.encode }
    | _ => none
  | .send r =>
    match c.phase with
    | .writing buf =>
      if r.toOption.all (· ≤ buf.length) then
        match TcpStream.writeAllBody (c.errno, buf) r with
        | .inl _ => some { c.record (.send buf r) with phase := .shutdown }
        | .inr (errno, rest) =>
          some { c.record (.send buf r) with errno, phase := .atWrite errno rest }
      else none
    | _ => none
  | .shutdown =>
    match c.phase with
    | .shutdown => some { c.record .shutdown with phase := .dropping }
    | _ => none
  | .drop =>
    match c.phase with
    | .dropping => some { c.record .close with phase := .closed }
    | _ => none

end Conn

/-! ## The accept loop -/

/-- Where `serve` is. `spawning` lasts until the handle is gone. -/
inductive Loop where
  | binding
  | accepting (listener : Int32)
  | spawning (listener : Int32) (i : Nat)
  | returned (e : Error)
  deriving DecidableEq, Repr

/-- The connection that is being handed to its thread. -/
def Loop.current : Loop → Option Nat
  | .spawning _ i => some i
  | .binding | .accepting _ | .returned _ => none

/-- The loop goes on when `spawn` of connection `i` has failed or its handle is
gone. -/
def Loop.after (i : Nat) (owner : Owner) : Loop → Loop
  | .spawning listener j =>
    if j = i ∧ owner.over then .accepting listener else .spawning listener j
  | loop => loop

/-- What a descriptor stands for. -/
inductive File where
  | listener
  | conn (i : Nat)
  deriving DecidableEq, Repr

structure State where
  loop : Loop
  conns : List Conn
  files : Int32 → Option File
  stray : Nat

/-- The results of `TcpListener::bind` and of `accept`, and the steps of the
connections. -/
inductive Label where
  | bind (r : Result Int32)
  | accept (r : Except Errno Int32)
  | on (i : Nat) (m : Move)

namespace State

def init : State := { loop := .binding, conns := [], files := fun _ => none, stray := 0 }

def close (s : State) (fd : Int32) : State := { s with files := Function.update s.files fd none }

/-- What step `m` of connection `i`, which takes `fd` for its descriptor, does
to the descriptors. -/
def operate (s : State) (i : Nat) (fd : Int32) (m : Move) : State :=
  let s := if m.operates ∧ s.files fd ≠ some (.conn i) then { s with stray := s.stray + 1 } else s
  if m.closes then s.close fd else s

end State

/-- `Server::serve`, one step. -/
def Server.step (server : Server) (s : State) : Label → Option State
  | .bind r =>
    match s.loop with
    | .binding =>
      match r with
      | .ok fd =>
        if s.files fd = none then
          some { s with
            loop := .accepting fd, files := Function.update s.files fd (some .listener) }
        else none
      | .error e => some { s with loop := .returned e }
    | _ => none
  | .accept r =>
    match s.loop with
    | .accepting listener =>
      match TcpListener.accept r with
      | .ok fd =>
        if s.files fd = none then
          let i := s.conns.length
          some { s with
            loop := .spawning listener i, conns := s.conns ++ [.init server fd]
            files := Function.update s.files fd (some (.conn i)) }
        else none
      | .error e =>
        -- interrupted: try again; anything else returns, and drops the listener
        if e.errno.any Errno.interrupted then some s
        else some (State.close { s with loop := .returned e } listener)
    | _ => none
  | .on i m =>
    s.conns[i]?.bind fun c =>
      if m.byOwner ∧ s.loop.current ≠ some i then none
      else
        (c.step server.limits m).map fun c' =>
          { s.operate i c.fd m with
            loop := s.loop.after i c'.spawn.owner, conns := s.conns.set i c' }

end PsPayload.Http
