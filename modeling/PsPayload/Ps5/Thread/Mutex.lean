import Mathlib.Logic.Function.Basic
import PsPayload.Ps5.Thread.Spawn

/-!
# Mutexes and condition variables

Any number of threads that lock mutexes, wait on condvars and notify them, one
label a step. A call that blocks is entered with one label and left with
another, and `Condvar::wait` gives up its guard, blocks, and comes back in
steps of their own.

The default pthread mutex is not recursive: `pthread_mutex_lock` returns 0 only
when nobody holds the mutex. `pthread_cond_wait` holds it again whenever it
returns, on an error too, which it may find before it has given the mutex up.
-/

namespace PsPayload.Thread

/-- The guard of a mutex. It stays on the thread that locked it. -/
structure MutexGuard where
  thread : Nat
  mutex : Nat
  deriving DecidableEq, Repr

/-- What `Mutex::lock` returns for the code of `pthread_mutex_lock`. -/
def Mutex.locked (g : MutexGuard) (rc : Int32) : Result MutexGuard := do
  cvtPthread rc
  .ok g

/-- What `Condvar::wait` returns for the code of `pthread_cond_wait`. -/
def Condvar.waited (g : MutexGuard) (rc : Int32) : Result MutexGuard :=
  if rc ≠ 0 then .error (.os ⟨rc⟩) else .ok g

/-- Where a thread is. -/
inductive Phase where
  | running
  /-- In `pthread_mutex_lock`. -/
  | locking (m : Nat)
  /-- In `Condvar::wait`, with its guard forgotten and the mutex held. -/
  | waiting (c m : Nat)
  /-- In `pthread_cond_wait`, with the mutex given up. -/
  | blocked (c m : Nat) (notified : Bool)
  /-- `pthread_cond_wait` has returned. -/
  | woken (m : Nat) (rc : Int32)
  /-- `Condvar::wait` is about to return an error, with its `_guard` rebuilt. -/
  | dropping (m : Nat) (rc : Int32)
  deriving DecidableEq, Repr

def Phase.blockedOn (c : Nat) : Phase → Bool
  | .blocked c' _ _ => c' = c
  | .running | .locking _ | .waiting _ _ | .woken _ _ | .dropping _ _ => false

/-- A notification of `c` finds the thread there. -/
def Phase.notify (c : Nat) : Phase → Phase
  | .blocked c' m notified => .blocked c' m (notified || c' = c)
  | .running => .running
  | .locking m => .locking m
  | .waiting c' m => .waiting c' m
  | .woken m rc => .woken m rc
  | .dropping m rc => .dropping m rc

/-- Why `pthread_cond_wait` returns. -/
inductive Wake where
  | notified
  | spurious
  | failed (rc : Int32)
  deriving DecidableEq, Repr

/-- The code it returns. -/
def Wake.rc : Wake → Int32
  | .notified | .spurious => 0
  | .failed rc => rc

def Wake.possible (notified : Bool) : Wake → Bool
  | .notified => notified
  | .spurious => true
  | .failed rc => rc ≠ 0

/-- The fields after `guards` record what has been done: the guards that client
code has leaked, the locks that succeeded, the calls of `pthread_mutex_unlock`
with whether the caller held the mutex, and what the waits returned. -/
structure Locks where
  phase : Nat → Phase
  owner : Nat → Option Nat
  guards : List MutexGuard
  leaked : List MutexGuard
  acquired : List MutexGuard
  unlocked : List (MutexGuard × Bool)
  waits : List (MutexGuard × Result MutexGuard)

namespace Locks

def init : Locks where
  phase _ := .running
  owner _ := none
  guards := []
  leaked := []
  acquired := []
  unlocked := []
  waits := []

inductive Act where
  | lock (t m : Nat)
  | lockReturns (t m : Nat) (rc : Int32)
  | drop (g : MutexGuard)
  | leak (g : MutexGuard)
  | wait (g : MutexGuard) (c : Nat)
  | block (t c m : Nat)
  | wake (t c m : Nat) (notified : Bool) (w : Wake)
  | refuse (t c m : Nat) (rc : Int32)
  | resume (t m : Nat) (rc : Int32)
  | dropLocal (t m : Nat) (rc : Int32)
  | notifyOne (t c : Nat) (u : Option Nat)
  | notifyAll (t c : Nat)
  deriving DecidableEq, Repr

/-- Thread `t` goes on. -/
def goto (s : Locks) (t : Nat) (p : Phase) : Locks :=
  { s with phase := Function.update s.phase t p }

def setOwner (s : Locks) (m : Nat) (o : Option Nat) : Locks :=
  { s with owner := Function.update s.owner m o }

/-- `Drop for MutexGuard`: `pthread_mutex_unlock` releases the mutex if the
caller holds it. -/
def dropGuard (s : Locks) (g : MutexGuard) : Locks :=
  let held : Bool := s.owner g.mutex = some g.thread
  let s := if held then s.setOwner g.mutex none else s
  { s with guards := s.guards.erase g, unlocked := (g, held) :: s.unlocked }

def step (s : Locks) : Act → Option Locks
  -- Mutex::lock
  | .lock t m => if s.phase t = .running then some (s.goto t (.locking m)) else none
  | .lockReturns t m rc =>
    if s.phase t = .locking m ∧ (rc = 0 → s.owner m = none) then
      match Mutex.locked ⟨t, m⟩ rc with
      | .error _ => some (s.goto t .running)
      | .ok g =>
        some ({ s with guards := g :: s.guards, acquired := g :: s.acquired }.setOwner m (some t)
          |>.goto t .running)
    else none
  -- the end of a guard
  | .drop g =>
    if s.phase g.thread = .running ∧ g ∈ s.guards then some (s.dropGuard g) else none
  | .leak g =>
    if s.phase g.thread = .running ∧ g ∈ s.guards then
      some { s with guards := s.guards.erase g, leaked := g :: s.leaked }
    else none
  -- Condvar::wait
  | .wait g c =>
    if s.phase g.thread = .running ∧ g ∈ s.guards then
      some ({ s with guards := s.guards.erase g }.goto g.thread (.waiting c g.mutex))
    else none
  | .block t c m =>
    if s.phase t = .waiting c m then
      some ((s.setOwner m none).goto t (.blocked c m false))
    else none
  | .wake t c m notified w =>
    if s.phase t = .blocked c m notified ∧ s.owner m = none ∧ w.possible notified then
      some ((s.setOwner m (some t)).goto t (.woken m w.rc))
    else none
  | .refuse t c m rc =>
    if s.phase t = .waiting c m ∧ rc ≠ 0 then some (s.goto t (.woken m rc)) else none
  | .resume t m rc =>
    if s.phase t = .woken m rc then
      let s := { s with guards := ⟨t, m⟩ :: s.guards }
      match Condvar.waited ⟨t, m⟩ rc with
      | .error _ => some (s.goto t (.dropping m rc))
      | .ok g => some ({ s with waits := (⟨t, m⟩, .ok g) :: s.waits }.goto t .running)
    else none
  | .dropLocal t m rc =>
    if s.phase t = .dropping m rc then
      let s := s.dropGuard ⟨t, m⟩
      some ({ s with waits := (⟨t, m⟩, Condvar.waited ⟨t, m⟩ rc) :: s.waits }.goto t .running)
    else none
  -- Condvar::notify_one, Condvar::notify_all
  | .notifyOne t c u =>
    if s.phase t = .running ∧ u.all fun u => (s.phase u).blockedOn c then
      some { s with phase := fun v => if u = some v then (s.phase v).notify c else s.phase v }
    else none
  | .notifyAll t c =>
    if s.phase t = .running then some { s with phase := fun v => (s.phase v).notify c } else none

end Locks

end PsPayload.Thread
