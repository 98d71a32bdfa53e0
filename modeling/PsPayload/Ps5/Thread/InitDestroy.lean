import PsPayload.Ps5.Thread.Spawn

/-!
# Constructing and destroying synchronisation objects

`Mutex::new` and `Condvar::new` build the value before they initialise what is
in it, so that `?` drops the value where that fails, and its destructor runs
on an object that was never initialised. `balanced_iff` says exactly in which
runs the calls on every object balance.
-/

namespace PsPayload.Thread

open Lib

inductive Primitive where
  | mutex
  | condvar
  deriving DecidableEq, Repr

/-- What is done with an object between its construction and its drop. -/
inductive Use where
  | lock
  | unlock
  | wait
  | signal
  | broadcast
  deriving DecidableEq, Repr

/-- A wait uses both a mutex and a condvar. -/
def Use.takes : Use → Primitive → Bool
  | .lock, p | .unlock, p => p = .mutex
  | .wait, _ => true
  | .signal, p | .broadcast, p => p = .condvar

/-- A pthread call on an object: `pthread_mutex_init` or `pthread_cond_init`
with the code it returned, a use, `pthread_mutex_destroy` or
`pthread_cond_destroy`. -/
inductive SyncCall where
  | init (rc : Int32)
  | use (u : Use)
  | destroy
  deriving DecidableEq, Repr

/-- One value of a `Mutex` or a `Condvar`, with the calls made on it so far. -/
structure SyncObject where
  kind : Primitive
  /-- What the constructor returned. -/
  made : Result Unit
  /-- The value is there: it has been returned, and not dropped. -/
  live : Bool
  calls : List SyncCall
  deriving DecidableEq, Repr

namespace SyncObject

/-- `Drop for Mutex`, `Drop for Condvar`. -/
def drop (o : SyncObject) : SyncObject :=
  { o with live := false, calls := o.calls ++ [.destroy] }

/-- The constructors, with the code that their init call returns. -/
def new (kind : Primitive) (rc : Int32) : SyncObject :=
  let built : SyncObject := { kind, made := .ok (), live := true, calls := [.init rc] }
  match cvtPthread rc with
  | .error e => { built.drop with made := .error e } -- the early return drops what is built
  | .ok () => built

/-- A use of the value, or its drop. -/
inductive Act where
  | use (u : Use)
  | drop
  deriving DecidableEq, Repr

def step (o : SyncObject) : Act → Option SyncObject
  | .use u => if o.live ∧ u.takes o.kind then some { o with calls := o.calls ++ [.use u] } else none
  | .drop => if o.live then some o.drop else none

end SyncObject

def Mutex.new (rc : Int32) : SyncObject := .new .mutex rc

def Condvar.new (rc : Int32) : SyncObject := .new .condvar rc

/-- The constructor that is called, with the code its init call returns. -/
inductive Construct where
  | mutex (rc : Int32)
  | condvar (rc : Int32)
  deriving DecidableEq, Repr

def Construct.rc : Construct → Int32
  | .mutex rc | .condvar rc => rc

def Construct.run : Construct → SyncObject
  | .mutex rc => Mutex.new rc
  | .condvar rc => Condvar.new rc

/-- Any number of objects, constructed, used and dropped in any order. -/
def syncStep (objects : List SyncObject) (l : PoolLabel Construct SyncObject.Act) :
    Option (List SyncObject) :=
  poolStep Construct.run SyncObject.step objects l

namespace SyncObject

/-- An object whose init succeeded is destroyed once, after its uses, when it is
dropped; one whose init failed is not. -/
def Balanced (o : SyncObject) : Prop :=
  (.init 0 ∈ o.calls → ∃ uses : List Use,
    o.calls = .init 0 :: uses.map .use ++ if o.live then [] else [.destroy]) ∧
  ∀ rc, rc ≠ 0 → .init rc ∈ o.calls → .destroy ∉ o.calls

variable {o o' : SyncObject} {acts : List Act}

theorem new_ok (kind : Primitive) :
    new kind 0 = { kind, made := .ok (), live := true, calls := [.init 0] } := rfl

theorem new_error (kind : Primitive) {rc : Int32} (h : rc ≠ 0) :
    new kind rc =
      { kind, made := .error (.os ⟨rc⟩), live := false, calls := [.init rc, .destroy] } := by
  rw [new, cvtPthread, if_neg h]
  rfl

theorem run_eq (c : Construct) : ∃ kind, c.run = new kind c.rc := by
  cases c with
  | mutex rc => exact ⟨.mutex, rfl⟩
  | condvar rc => exact ⟨.condvar, rfl⟩

/-- A step: the value is there, and is used or dropped. -/
theorem step_cases {a : Act} (h : step o a = some o') :
    o.live = true ∧ ((∃ u, a = .use u ∧ o' = { o with calls := o.calls ++ [.use u] }) ∨
      a = .drop ∧ o' = o.drop) := by
  cases a with
  | use u =>
    rw [step, Option.ite_none_right_eq_some] at h
    exact ⟨h.1.1, .inl ⟨u, rfl, (Option.some.inj h.2).symm⟩⟩
  | drop =>
    rw [step, Option.ite_none_right_eq_some] at h
    exact ⟨h.1, .inr ⟨rfl, (Option.some.inj h.2).symm⟩⟩

/-- The calls of a value whose init succeeded. -/
def InOrder (o : SyncObject) : Prop :=
  ∃ uses : List Use, o.calls = .init 0 :: uses.map .use ++ if o.live then [] else [.destroy]

theorem InOrder.step {a : Act} (hi : InOrder o) (h : step o a = some o') : InOrder o' := by
  obtain ⟨uses, hc⟩ := hi
  obtain ⟨hl, ⟨u, -, rfl⟩ | ⟨-, rfl⟩⟩ := step_cases h
  · refine ⟨uses ++ [u], ?_⟩
    simp [hc, hl]
  · refine ⟨uses, ?_⟩
    simp [drop, hc, hl]

/-- The calls on an object in any run are decided by the code of its init. -/
theorem run_calls {c : Construct} (h : runFrom SyncObject.step c.run acts = some o) :
    (c.rc = 0 → InOrder o) ∧ (c.rc ≠ 0 → o = c.run) := by
  obtain ⟨kind, hk⟩ := run_eq c
  refine ⟨fun hz => ?_, fun hz => ?_⟩
  · refine invariant (I := fun _ o => InOrder o) ?_ (fun _ _ _ _ _ hi hs => hi.step hs) h
    rw [hk, hz, new_ok]
    exact ⟨[], rfl⟩
  · refine invariant (I := fun _ o => o = c.run) rfl ?_ h
    rintro _ a o o' _ rfl hs
    have hl := (step_cases hs).1
    rw [hk, new_error kind hz] at hl
    cases hl

theorem made_new (kind : Primitive) (rc : Int32) : (new kind rc).made = cvtPthread rc := by
  by_cases hz : rc = 0
  · rw [hz, new_ok]
    rfl
  · rw [new_error kind hz, cvtPthread, if_neg hz]

theorem made_step {a : Act} (h : step o a = some o') : o'.made = o.made := by
  obtain ⟨-, ⟨u, -, rfl⟩ | ⟨-, rfl⟩⟩ := step_cases h
  · rfl
  · rfl

theorem InOrder.balanced (hi : InOrder o) : Balanced o := by
  refine ⟨fun _ => hi, fun rc hz hm => ?_⟩
  obtain ⟨uses, hc⟩ := hi
  have : rc = 0 := by
    rw [hc] at hm
    split at hm
    · simpa using hm
    · simpa using hm
  exact absurd this hz

theorem not_balanced_new (kind : Primitive) {rc : Int32} (h : rc ≠ 0) :
    ¬ Balanced (new kind rc) := by
  rw [new_error kind h]
  exact fun hb => hb.2 rc h (by simp) (by simp)

end SyncObject

theorem cvtPthread_eq_ok_iff {rc : Int32} : cvtPthread rc = .ok () ↔ rc = 0 := by
  rw [cvtPthread]
  split
  · simp [*]
  · simp [*]

/-- An object of a run is balanced exactly if its constructor succeeded. -/
theorem balanced_iff_made {ls : List (PoolLabel Construct SyncObject.Act)}
    {objects : List SyncObject} (h : runFrom syncStep [] ls = some objects) {o : SyncObject}
    (ho : o ∈ objects) : o.Balanced ↔ o.made = .ok () := by
  obtain ⟨i, hi⟩ := List.mem_iff_getElem?.mp ho
  obtain ⟨c, hc⟩ := pool_component h hi
  obtain ⟨kind, hk⟩ := SyncObject.run_eq c
  obtain ⟨hok, herr⟩ := SyncObject.run_calls hc
  have hm : o.made = cvtPthread c.rc := by
    refine invariant (I := fun _ o => o.made = cvtPthread c.rc) ?_ ?_ hc
    · rw [hk, SyncObject.made_new]
    · exact fun _ _ _ _ _ hi hs => (SyncObject.made_step hs).trans hi
  rw [hm, cvtPthread_eq_ok_iff]
  by_cases hz : c.rc = 0
  · exact ⟨fun _ => hz, fun _ => (hok hz).balanced⟩
  · rw [herr hz, hk]
    exact ⟨fun hb => absurd hb (SyncObject.not_balanced_new kind hz), fun h => absurd h hz⟩

/-- A `Mutex::new` that fails with `EAGAIN` destroys what it has not initialised. -/
theorem not_balanced : ¬ ∀ (ls : List (PoolLabel Construct SyncObject.Act))
    (objects : List SyncObject), runFrom syncStep [] ls = some objects →
      ∀ o ∈ objects, o.Balanced := by
  intro h
  have hr : runFrom syncStep [] [.add (.mutex EAGAIN)] = some [Mutex.new EAGAIN] := rfl
  have hz : EAGAIN ≠ 0 := by decide
  exact SyncObject.not_balanced_new .mutex hz (h _ _ hr _ (List.mem_singleton_self _))

/-- The calls on all objects of a run balance exactly if no init call failed. -/
theorem balanced_iff {ls : List (PoolLabel Construct SyncObject.Act)} {objects : List SyncObject}
    (h : runFrom syncStep [] ls = some objects) :
    (∀ o ∈ objects, o.Balanced) ↔ ∀ c, .add c ∈ ls → c.rc = 0 := by
  have hmap : objects.map (·.made) = (addsOf ls).map fun c => cvtPthread c.rc := by
    rw [pool_map (fun _ _ _ hs => SyncObject.made_step hs) h]
    refine List.map_congr_left fun c _ => ?_
    obtain ⟨kind, hk⟩ := SyncObject.run_eq c
    rw [hk, SyncObject.made_new]
  refine ⟨fun hb c hc => ?_, fun hz o ho => ?_⟩
  · have hm : cvtPthread c.rc ∈ objects.map (·.made) := by
      rw [hmap]
      exact List.mem_map_of_mem (mem_addsOf.mpr hc)
    obtain ⟨o, ho, he⟩ := List.mem_map.mp hm
    rw [← cvtPthread_eq_ok_iff, ← he]
    exact (balanced_iff_made h ho).mp (hb o ho)
  · have hm : o.made ∈ objects.map (·.made) := List.mem_map_of_mem ho
    rw [hmap] at hm
    obtain ⟨c, hc, he⟩ := List.mem_map.mp hm
    rw [balanced_iff_made h ho, ← he, cvtPthread_eq_ok_iff]
    exact hz c (mem_addsOf.mp hc)

/-- A mutex that is locked, unlocked and dropped, next to a condvar. -/
def pairRun : List (PoolLabel Construct SyncObject.Act) :=
  [.add (.mutex 0), .add (.condvar 0), .on 0 (.use .lock), .on 1 (.use .signal),
    .on 0 (.use .unlock), .on 0 .drop]

theorem balanced_pairRun :
    ∃ objects, runFrom syncStep [] pairRun = some objects ∧
      ((∀ o ∈ objects, o.Balanced) ↔ ∀ c, .add c ∈ pairRun → c.rc = 0) :=
  ⟨_, rfl, balanced_iff rfl⟩

end PsPayload.Thread
