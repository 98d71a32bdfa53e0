import PsPayload.Lib.Transition
import PsPayload.Ps5.Error

/-!
# Spawning a thread

One call of `Builder::spawn`, with what becomes of its handle and of its
thread. The owner and the thread each take their own steps, one label a step;
their runs are the interleavings. `refs` counts the references to the shared
slot, and the fields after `joinResult` record what has been done.

The closure returns, and `pthread_join` returns 0 only once the start routine
has returned; its other codes may come at any time.
-/

namespace PsPayload.Thread

/-- `cvt_pthread`. -/
def cvtPthread (rc : Int32) : Result Unit := if rc = 0 then .ok () else .error (.os ⟨rc⟩)

structure Builder where
  stackSize : Option UInt64
  deriving DecidableEq, Repr

def Builder.new : Builder := { stackSize := none }

def Builder.withStackSize (_ : Builder) (size : UInt64) : Builder := { stackSize := some size }

/-- What the owner does next. -/
inductive Owner where
  | attrInit (size : UInt64)
  | setStackSize (size : UInt64)
  | create (attr : Bool)
  | attrDestroy (rc : Int32)
  | reclaim (rc : Int32)
  | dropLocal (rc : Int32)
  | failed (rc : Int32)
  | holding
  | taking
  | dropping
  | releasing
  | consumed
  deriving DecidableEq, Repr

/-- `spawn` has failed, or the handle is gone. -/
def Owner.over : Owner → Bool
  | .attrInit _ | .setStackSize _ | .create _ | .attrDestroy _ | .reclaim _ | .dropLocal _ => false
  | .holding | .taking | .dropping | .releasing => false
  | .failed _ | .consumed => true

/-- What the thread does next. -/
inductive Trampoline (T : Type) where
  | absent
  | starting
  | running
  | storing (value : T)
  | dropping
  | returning
  | exited
  deriving DecidableEq, Repr

structure Spawn (T : Type) where
  owner : Owner
  thread : Trampoline T
  refs : Nat
  slot : Option T
  joined : Bool
  joinResult : Option (Result T)
  attrs : Nat
  closureRuns : Nat
  closureDrops : Nat
  packetFrees : Nat
  slotFrees : Nat
  joins : Nat
  detaches : Nat
  produced : List T
  dropped : List T
  deriving DecidableEq, Repr

/-- The steps of the owner, with the codes that its calls return, then those of
the thread. -/
inductive Act (T : Type) where
  | attrInit (rc : Int32)
  | setStackSize (rc : Int32)
  | create (rc : Int32)
  | attrDestroy
  | reclaim
  | dropLocal
  | join (rc : Int32)
  | take
  | drop
  | dropBody
  | dropShared
  | start
  | finish (value : T)
  | store
  | release
  | exit
  deriving DecidableEq, Repr

def Act.byOwner {T : Type} : Act T → Bool
  | .attrInit _ | .setStackSize _ | .create _ | .attrDestroy | .reclaim | .dropLocal => true
  | .join _ | .take | .drop | .dropBody | .dropShared => true
  | .start | .finish _ | .store | .release | .exit => false

namespace Spawn

variable {T : Type}

/-- The slot and the packet are there, with a reference to the slot each in the
packet and in the frame of `spawn`. -/
def init (b : Builder) : Spawn T where
  owner := match b.stackSize with
    | none => .create false
    | some size => .attrInit size
  thread := .absent
  refs := 2
  slot := none
  joined := false
  joinResult := none
  attrs := 0
  closureRuns := 0
  closureDrops := 0
  packetFrees := 0
  slotFrees := 0
  joins := 0
  detaches := 0
  produced := []
  dropped := []

/-- A reference goes; with the last one the slot goes, and what is in it. -/
def dropRef (s : Spawn T) : Spawn T :=
  if s.refs = 1 then
    { s with refs := 0, slot := none, slotFrees := s.slotFrees + 1,
             dropped := s.dropped ++ s.slot.toList }
  else { s with refs := s.refs - 1 }

/-- What `spawn` does with the code that `create_thread` returns. -/
def afterCreate (s : Spawn T) (rc : Int32) : Spawn T :=
  if rc = 0 then { s with owner := .holding } else { s with owner := .reclaim rc }

def step (s : Spawn T) : Act T → Option (Spawn T)
  -- create_thread
  | .attrInit rc =>
    match s.owner with
    | .attrInit size =>
      if rc = 0 then some { s with owner := .setStackSize size, attrs := s.attrs + 1 }
      else some (s.afterCreate rc)
    | _ => none
  | .setStackSize rc =>
    match s.owner with
    | .setStackSize _ =>
      if rc = 0 then some { s with owner := .create true }
      else some { s with owner := .attrDestroy rc }
    | _ => none
  | .create rc =>
    match s.owner with
    | .create attr =>
      let s := if rc = 0 then { s with thread := .starting } else s
      if attr then some { s with owner := .attrDestroy rc } else some (s.afterCreate rc)
    | _ => none
  | .attrDestroy =>
    match s.owner with
    | .attrDestroy rc => some (afterCreate { s with attrs := s.attrs - 1 } rc)
    | _ => none
  -- the error path of spawn
  | .reclaim =>
    match s.owner with
    | .reclaim rc =>
      some (dropRef { s with
        owner := .dropLocal rc, closureDrops := s.closureDrops + 1,
        packetFrees := s.packetFrees + 1 })
    | _ => none
  | .dropLocal =>
    match s.owner with
    | .dropLocal rc => some (dropRef { s with owner := .failed rc })
    | _ => none
  -- JoinHandle::join
  | .join rc =>
    match s.owner with
    | .holding =>
      match cvtPthread rc with
      | .error e => some { s with owner := .dropping, joined := true, joinResult := some (.error e) }
      | .ok () =>
        match s.thread with
        | .exited => some { s with owner := .taking, joined := true, joins := s.joins + 1 }
        | _ => none
    | _ => none
  | .take =>
    match s.owner with
    | .taking =>
      some { s with
        owner := .dropping, slot := none
        joinResult := some (match s.slot with
          | some value => .ok value
          | none => .error (.os ⟨EINVAL⟩)) }
    | _ => none
  -- the handle is dropped
  | .drop =>
    match s.owner with
    | .holding => some { s with owner := .dropping }
    | _ => none
  | .dropBody =>
    match s.owner with
    | .dropping =>
      if s.joined then some { s with owner := .releasing }
      else some { s with owner := .releasing, detaches := s.detaches + 1 }
    | _ => none
  | .dropShared =>
    match s.owner with
    | .releasing => some (dropRef { s with owner := .consumed })
    | _ => none
  -- trampoline
  | .start =>
    match s.thread with
    | .starting =>
      some { s with
        thread := .running, packetFrees := s.packetFrees + 1, closureRuns := s.closureRuns + 1 }
    | _ => none
  | .finish value =>
    match s.thread with
    | .running => some { s with thread := .storing value, produced := s.produced ++ [value] }
    | _ => none
  | .store =>
    match s.thread with
    | .storing value =>
      some { s with
        thread := .dropping, slot := some value, dropped := s.dropped ++ s.slot.toList }
    | _ => none
  | .release =>
    match s.thread with
    | .dropping => some (dropRef { s with thread := .returning })
    | _ => none
  | .exit =>
    match s.thread with
    | .returning => some { s with thread := .exited }
    | _ => none

/-- The value that `join` has returned. -/
def returned (s : Spawn T) : List T :=
  match s.joinResult with
  | some (.ok value) => [value]
  | _ => []

end Spawn

end PsPayload.Thread
