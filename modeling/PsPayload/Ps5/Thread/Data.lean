import PsPayload.Lib.Sections
import PsPayload.Ps5.Thread.Guards

/-!
# The data behind a mutex

Threads that lock, wait and notify as in `Locks`, and read and write the data
of a mutex through a guard, cell by cell (`Deref`, `DerefMut`). Between two
accesses through one guard any other step may come.

A thread that gets a mutex, from `lock` or back from `pthread_cond_wait`, opens
a section of its own; `sections` puts each access into the section that its
thread has opened last on that mutex. `serializable`: the data is what these
sections give when they are carried out one after the other, in the order in
which the mutexes were got, and every read finds there what it found in the
run.
-/

namespace PsPayload.Thread

open Lib

variable {κ β : Type}

/-- An access to one cell of the data: a read through `deref`, which finds
`value` there, or a write through `deref_mut`. -/
inductive Access (κ β : Type) where
  | read (cell : κ) (value : β)
  | write (cell : κ) (value : β)
  deriving DecidableEq, Repr

/-- The data after an access; there is none where a read finds something else. -/
def Access.apply [DecidableEq κ] [DecidableEq β] (data : κ → β) : Access κ β → Option (κ → β)
  | .read cell value => if data cell = value then some data else none
  | .write cell value => some (Function.update data cell value)

/-- The threads, and the data of each mutex. -/
structure Shared (κ β : Type) where
  locks : Locks
  data : Nat → κ → β

namespace Shared

inductive Label (κ β : Type) where
  | act (a : Locks.Act)
  | access (g : MutexGuard) (x : Access κ β)

def init (data : Nat → κ → β) : Shared κ β where
  locks := .init
  data := data

/-- An access goes through a guard, which is borrowed for it and so has not been
dropped. One that was leaked by reference can still be borrowed. -/
def step [DecidableEq κ] [DecidableEq β] (s : Shared κ β) : Label κ β → Option (Shared κ β)
  | .act a => (s.locks.step a).map fun locks => { s with locks }
  | .access g x =>
    if g ∈ s.locks.guards ∨ g ∈ s.locks.leaked then
      (x.apply (s.data g.mutex)).map fun d =>
        { s with data := Function.update s.data g.mutex d }
    else none

end Shared

/-! ## Sections -/

/-- The mutex that a step gets for a thread. -/
def Locks.Act.acquired : Locks.Act → Option MutexGuard
  | .lockReturns t m rc => if rc = 0 then some ⟨t, m⟩ else none
  | .wake t _ m _ _ => some ⟨t, m⟩
  | .lock _ _ | .drop _ | .leak _ | .wait _ _ | .block _ _ _ | .refuse _ _ _ _ | .resume _ _ _
  | .dropLocal _ _ _ | .notifyOne _ _ _ | .notifyAll _ _ => none

/-- What a thread does to the data of a mutex while it has it. -/
abbrev Critical (κ β : Type) : Type := Section Nat Nat (Access κ β)

namespace Shared

/-- The section that a step opens. -/
def opened (a : Locks.Act) : List (Critical κ β) :=
  a.acquired.toList.map fun g => ⟨g.thread, g.mutex, []⟩

def note (xs : List (Critical κ β)) : Label κ β → List (Critical κ β)
  | .act a => opened a ++ xs
  | .access g x => record g.thread g.mutex x xs

/-- The sections of a run, the newest first. -/
def sections (ls : List (Label κ β)) : List (Critical κ β) := ls.foldl note []

/-- The accesses through the guards of a thread to a mutex, in the order of the run. -/
def accesses (g : MutexGuard) (ls : List (Label κ β)) : List (Access κ β) :=
  ls.filterMap fun
    | .act _ => none
    | .access g' x => if g' = g then some x else none

theorem sections_concat (ls : List (Label κ β)) (l : Label κ β) :
    sections (ls ++ [l]) = note (sections ls) l := by
  rw [sections, List.foldl_append]
  rfl

theorem accesses_concat_act (g : MutexGuard) (ls : List (Label κ β)) (a : Locks.Act) :
    accesses g (ls ++ [.act a]) = accesses g ls := by
  simp [accesses]

theorem accesses_concat_access (g g' : MutexGuard) (ls : List (Label κ β)) (x : Access κ β) :
    accesses g (ls ++ [.access g' x]) = accesses g ls ++ if g' = g then [x] else [] := by
  rw [accesses, List.filterMap_append]
  congr 1
  by_cases h : g' = g
  · simp [h]
  · simp [h]

section Opened

variable {a : Locks.Act} {xs : List (Critical κ β)} {data : Nat → κ → β}

theorem opened_none (h : a.acquired = none) : (opened a : List (Critical κ β)) = [] := by
  rw [opened, h]
  rfl

theorem opened_some {g : MutexGuard} (h : a.acquired = some g) :
    (opened a : List (Critical κ β)) = [⟨g.thread, g.mutex, []⟩] := by
  rw [opened, h]
  rfl

theorem serial_opened [DecidableEq κ] [DecidableEq β] :
    serial Access.apply data (opened a ++ xs) = serial Access.apply data xs := by
  cases ha : a.acquired with
  | none => rw [opened_none ha, List.nil_append]
  | some g => rw [opened_some ha, List.singleton_append, serial_open]

theorem opsOf_opened (t m : Nat) : opsOf t m (opened a ++ xs) = opsOf t m xs := by
  cases ha : a.acquired with
  | none => rw [opened_none ha, List.nil_append]
  | some g => rw [opened_some ha, List.singleton_append, opsOf_open]

end Opened

end Shared

/-! ## The owner of a mutex -/

namespace Locks

variable {s s' : Locks} {a : Act} {m t : Nat}

theorem owner_dropGuard {g : MutexGuard} (h : (s.dropGuard g).owner m = some t) :
    s.owner m = some t := by
  rw [dropGuard] at h
  split at h
  · exact owner_give h
  · exact h

/-- Who gets a mutex that nobody holds is its new owner. -/
theorem owner_taken {u n : Nat} (h : Function.update s.owner n (some u) m = some t) :
    s.owner m = some t ∨ (⟨u, n⟩ : MutexGuard) = ⟨t, m⟩ := by
  rw [Function.update_apply] at h
  split at h
  · rename_i hm
    cases h
    exact .inr (by rw [hm])
  · exact .inl h

/-- The owner of a mutex had it before the step, or gets it. -/
theorem owner_step (h : step s a = some s') (ho : s'.owner m = some t) :
    (s.owner m = some t ∧ ∀ g, a.acquired = some g → s.owner g.mutex = none) ∨
      a.acquired = some ⟨t, m⟩ := by
  cases a with
  | lockReturns u n rc =>
    rw [step, Option.ite_none_right_eq_some] at h
    obtain ⟨⟨-, hn⟩, h⟩ := h
    by_cases hrc : rc = 0
    · rw [hrc, locked_zero] at h
      cases h
      rw [Act.acquired, if_pos hrc]
      refine (owner_taken ho).imp (fun h => ⟨h, fun g hg => ?_⟩) (congrArg some)
      cases hg
      exact hn hrc
    · rw [locked_ne hrc] at h
      cases h
      exact .inl ⟨ho, fun g hg => by rw [Act.acquired, if_neg hrc] at hg; cases hg⟩
  | wake u c n b w =>
    rw [step, Option.ite_none_right_eq_some] at h
    obtain ⟨⟨-, hn, -⟩, h⟩ := h
    cases h
    refine (owner_taken ho).imp (fun h => ⟨h, fun g hg => ?_⟩) (congrArg some)
    cases hg
    exact hn
  | drop g =>
    rw [step, Option.ite_none_right_eq_some] at h
    obtain ⟨-, h⟩ := h
    cases h
    exact .inl ⟨owner_dropGuard ho, fun g hg => by cases hg⟩
  | dropLocal u n rc =>
    rw [step, Option.ite_none_right_eq_some] at h
    obtain ⟨-, h⟩ := h
    cases h
    exact .inl ⟨owner_dropGuard ho, fun g hg => by cases hg⟩
  | block u c n =>
    rw [step, Option.ite_none_right_eq_some] at h
    obtain ⟨-, h⟩ := h
    cases h
    exact .inl ⟨owner_give ho, fun g hg => by cases hg⟩
  | resume u n rc =>
    rw [step, Option.ite_none_right_eq_some] at h
    obtain ⟨-, h⟩ := h
    by_cases hrc : rc = 0
    · subst hrc
      cases h
      exact .inl ⟨ho, fun g hg => by cases hg⟩
    · rw [waited_ne hrc] at h
      cases h
      exact .inl ⟨ho, fun g hg => by cases hg⟩
  | lock u n | leak g | wait g c | refuse u c n rc | notifyOne u c v | notifyAll u c =>
    rw [step, Option.ite_none_right_eq_some] at h
    obtain ⟨-, h⟩ := h
    cases h
    exact .inl ⟨ho, fun g hg => by cases hg⟩

/-- A leaked guard was the owner's, and the mutex stays with it. -/
theorem Inv.owner_of_leaked (hi : Inv s) {g : MutexGuard} (h : g ∈ s.leaked) :
    s.owner g.mutex = some g.thread := by
  have hpos : 0 < s.held g := by
    have := List.count_pos_iff.mpr h
    rw [Locks.held]
    omega
  exact hi.held.owner_eq hpos

end Locks

/-! ## One section after the other -/

namespace Shared

variable [DecidableEq κ] [DecidableEq β] {data : Nat → κ → β} {s s' : Shared κ β}
  {ls : List (Label κ β)}

/-- The owner of a mutex is the one that opened the newest section on it. -/
structure Inv (data : Nat → κ → β) (ls : List (Label κ β)) (s : Shared κ β) : Prop where
  locks : s.locks.Inv
  holder : ∀ t m, s.locks.owner m = some t → holder m (sections ls) = some t
  serial : serial Access.apply data (sections ls) = some s.data
  accesses : ∀ g, opsOf g.thread g.mutex (sections ls) = accesses g ls

theorem inv_init : Inv data [] (init data) where
  locks := Locks.inv_init
  holder t m h := by cases h
  serial := rfl
  accesses g := rfl

theorem inv_act {a : Locks.Act} (hi : Inv data ls s) (h : s.step (.act a) = some s') :
    Inv data (ls ++ [.act a]) s' := by
  obtain ⟨locks, hl, rfl⟩ := Option.map_eq_some_iff.mp h
  refine ⟨Locks.inv_step hi.locks hl, fun t m ho => ?_, ?_, fun g => ?_⟩
  · rw [sections_concat, note]
    rcases Locks.owner_step hl ho with ⟨ho, hfree⟩ | ha
    · cases ha : a.acquired with
      | none =>
        rw [opened_none ha]
        exact hi.holder t m ho
      | some g =>
        -- another mutex: this one has an owner
        have hne : g.mutex ≠ m := fun h => by
          have := hfree g ha
          rw [h, ho] at this
          cases this
        rw [opened_some ha, List.singleton_append, holder_cons_ne hne]
        exact hi.holder t m ho
    · rw [opened_some ha, List.singleton_append, holder_cons_self]
  · rw [sections_concat, note, serial_opened]
    exact hi.serial
  · rw [sections_concat, note, opsOf_opened, accesses_concat_act]
    exact hi.accesses g

theorem inv_access {g : MutexGuard} {x : Access κ β} (hi : Inv data ls s)
    (h : s.step (.access g x) = some s') : Inv data (ls ++ [.access g x]) s' := by
  rw [step, Option.ite_none_right_eq_some] at h
  obtain ⟨hg, h⟩ := h
  obtain ⟨d, hd, rfl⟩ := Option.map_eq_some_iff.mp h
  have ho : s.locks.owner g.mutex = some g.thread :=
    hg.elim hi.locks.owner_of_mem hi.locks.owner_of_leaked
  have hh := hi.holder g.thread g.mutex ho
  refine ⟨hi.locks, fun t m ho => ?_, ?_, fun g' => ?_⟩
  · rw [sections_concat, note, holder_record]
    exact hi.holder t m ho
  · rw [sections_concat, note]
    exact serial_record hh hi.serial hd
  · rw [sections_concat, note, accesses_concat_access, ← hi.accesses g']
    by_cases hgg : g = g'
    · subst hgg
      rw [if_pos rfl]
      exact opsOf_record_self (mem_claims_of_holder hh)
    · rw [if_neg hgg, List.append_nil]
      refine opsOf_record_ne fun h => hgg ?_
      obtain ⟨t, m⟩ := g
      obtain ⟨t', m'⟩ := g'
      rw [MutexGuard.mk.injEq]
      exact ⟨h.1.symm, h.2.symm⟩

theorem run_inv (h : runFrom step (init data) ls = some s) : Inv data ls s := by
  refine invariant (I := Inv data) inv_init (fun ls l s t _ hi h => ?_) h
  cases l with
  | act a => exact inv_act hi h
  | access g x => exact inv_access hi h

/-- However the steps of the threads come one after the other, the sections can
be carried out each as a whole, in the order in which the mutexes were got:
every read finds what it found, the data is the same at the end, and the
accesses of each thread are all there, in the order in which it made them. -/
theorem serializable (data : Nat → κ → β) (ls : List (Label κ β))
    (h : runFrom step (init data) ls = some s) :
    serial Access.apply data (sections ls) = some s.data ∧
      ∀ g, opsOf g.thread g.mutex (sections ls) = accesses g ls :=
  ⟨(run_inv h).serial, (run_inv h).accesses⟩

/-- Two threads add one to a counter each, the second while the first is
waiting, and the first reads it again. -/
def twoIncrements : List (Label Unit Nat) :=
  [.act (.lock 1 0), .act (.lockReturns 1 0 0), .act (.lock 2 0), .access ⟨1, 0⟩ (.read () 0),
    .access ⟨1, 0⟩ (.write () 1), .act (.wait ⟨1, 0⟩ 0), .act (.block 1 0 0),
    .act (.lockReturns 2 0 0), .access ⟨2, 0⟩ (.read () 1), .act (.notifyAll 2 0),
    .access ⟨2, 0⟩ (.write () 2), .act (.drop ⟨2, 0⟩), .act (.wake 1 0 0 true .notified),
    .act (.resume 1 0 0), .access ⟨1, 0⟩ (.read () 2)]

theorem serializable_twoIncrements :
    ∃ s : Shared Unit Nat, runFrom step (init fun _ _ => 0) twoIncrements = some s ∧
      sections twoIncrements = [⟨1, 0, [.read () 2]⟩, ⟨2, 0, [.read () 1, .write () 2]⟩,
        ⟨1, 0, [.read () 0, .write () 1]⟩] ∧
      serial Access.apply (fun _ _ => 0) (sections twoIncrements) = some s.data ∧
      ∀ g, opsOf g.thread g.mutex (sections twoIncrements) = accesses g twoIncrements := by
  have h : runFrom step (init fun _ _ => 0) twoIncrements = some _ := rfl
  exact ⟨_, h, rfl, serializable _ twoIncrements h⟩

end Shared

end PsPayload.Thread
