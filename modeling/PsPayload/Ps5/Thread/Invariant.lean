import PsPayload.Ps5.Thread.Spawn

/-!
# The invariant of a spawn

`Steps` says what each step can do, and `step_cases` that this is all. `Inv`
ties the reference count, the slot and the records of a spawn to where its
owner and its thread are; every step keeps it (`step_inv`), and uses up one of
the steps that are left (`step_rank`).
-/

namespace PsPayload.Thread

open Lib

/-! ## Where a spawn is -/

namespace Owner

/-- References to the slot: the local one, or that of the handle. -/
def holds : Owner → Nat
  | .attrInit _ | .setStackSize _ | .create _ | .attrDestroy _ | .reclaim _ | .dropLocal _ => 1
  | .holding | .taking | .dropping | .releasing => 1
  | .failed _ | .consumed => 0

/-- The packet is not handed over: its reference is the owner's too. -/
def packet : Owner → Nat
  | .attrInit _ | .setStackSize _ | .create _ | .reclaim _ => 1
  | .attrDestroy rc => if rc = 0 then 0 else 1
  | _ => 0

/-- `pthread_create` has succeeded. -/
def created : Owner → Bool
  | .attrInit _ | .setStackSize _ | .create _ | .reclaim _ | .dropLocal _ | .failed _ => false
  | .attrDestroy rc => rc = 0
  | .holding | .taking | .dropping | .releasing | .consumed => true

def reclaimed : Owner → Nat
  | .dropLocal _ | .failed _ => 1
  | _ => 0

/-- The fate of the handle is still open. -/
def early : Owner → Bool
  | .taking | .dropping | .releasing | .consumed => false
  | _ => true

/-- `Drop::drop` has run. -/
def released : Owner → Bool
  | .releasing | .consumed => true
  | _ => false

/-- An attribute object is there. -/
def attr : Owner → Nat
  | .attrInit _ | .create false | .reclaim _ | .dropLocal _ | .failed _ => 0
  | .setStackSize _ | .create true | .attrDestroy _ => 1
  | .holding | .taking | .dropping | .releasing | .consumed => 0

/-- How many steps the owner still takes at most. -/
def rank : Owner → Nat
  | .attrInit _ => 8
  | .setStackSize _ => 7
  | .create _ => 6
  | .attrDestroy _ => 5
  | .holding => 4
  | .taking => 3
  | .dropping | .reclaim _ => 2
  | .releasing | .dropLocal _ => 1
  | .failed _ | .consumed => 0

end Owner

namespace Trampoline

variable {T : Type}

def holds : Trampoline T → Nat
  | .starting | .running | .storing _ | .dropping => 1
  | _ => 0

/-- The packet has been taken. -/
def started : Trampoline T → Nat
  | .absent | .starting => 0
  | _ => 1

/-- The closure has returned. -/
def finished : Trampoline T → Nat
  | .absent | .starting | .running => 0
  | _ => 1

/-- The value is in the slot, or was. -/
def stored : Trampoline T → Bool
  | .dropping | .returning | .exited => true
  | _ => false

/-- The value the closure has returned and the slot does not have yet. -/
def value : Trampoline T → List T
  | .storing v => [v]
  | _ => []

def rank : Trampoline T → Nat
  | .absent | .starting => 5
  | .running => 4
  | .storing _ => 3
  | .dropping => 2
  | .returning => 1
  | .exited => 0

end Trampoline

attribute [simp] Owner.holds Owner.packet Owner.created Owner.reclaimed Owner.early Owner.released
  Owner.attr Trampoline.holds Trampoline.started Trampoline.finished Trampoline.stored
  Trampoline.value

namespace Spawn

variable {T : Type}

/-! ## A reference goes -/

section DropRef

variable (s : Spawn T)

@[simp] theorem dropRef_owner : s.dropRef.owner = s.owner := by unfold dropRef; split <;> rfl
@[simp] theorem dropRef_thread : s.dropRef.thread = s.thread := by unfold dropRef; split <;> rfl
@[simp] theorem dropRef_joined : s.dropRef.joined = s.joined := by unfold dropRef; split <;> rfl
@[simp] theorem dropRef_joinResult : s.dropRef.joinResult = s.joinResult := by
  unfold dropRef; split <;> rfl
@[simp] theorem dropRef_attrs : s.dropRef.attrs = s.attrs := by unfold dropRef; split <;> rfl
@[simp] theorem dropRef_closureRuns : s.dropRef.closureRuns = s.closureRuns := by
  unfold dropRef; split <;> rfl
@[simp] theorem dropRef_closureDrops : s.dropRef.closureDrops = s.closureDrops := by
  unfold dropRef; split <;> rfl
@[simp] theorem dropRef_packetFrees : s.dropRef.packetFrees = s.packetFrees := by
  unfold dropRef; split <;> rfl
@[simp] theorem dropRef_joins : s.dropRef.joins = s.joins := by unfold dropRef; split <;> rfl
@[simp] theorem dropRef_detaches : s.dropRef.detaches = s.detaches := by unfold dropRef; split <;> rfl
@[simp] theorem dropRef_produced : s.dropRef.produced = s.produced := by unfold dropRef; split <;> rfl
@[simp] theorem dropRef_refs : s.dropRef.refs = s.refs - 1 := by
  unfold dropRef; split
  · simp [*]
  · rfl
@[simp] theorem dropRef_slotFrees :
    s.dropRef.slotFrees = if s.refs = 1 then s.slotFrees + 1 else s.slotFrees := by
  unfold dropRef; split <;> rfl
@[simp] theorem dropRef_slot : s.dropRef.slot = if s.refs = 1 then none else s.slot := by
  unfold dropRef; split <;> rfl
@[simp] theorem dropRef_dropped :
    s.dropRef.dropped = if s.refs = 1 then s.dropped ++ s.slot.toList else s.dropped := by
  unfold dropRef; split <;> rfl

end DropRef

/-! ## What a step can do -/

/-- The steps of a spawn, each with where it is taken and what it leads to. -/
inductive Steps (s : Spawn T) : Act T → Spawn T → Prop where
  | attrInit {size : UInt64} (ho : s.owner = .attrInit size) :
    Steps s (.attrInit 0) { s with owner := .setStackSize size, attrs := s.attrs + 1 }
  | attrInitFailed {size : UInt64} {rc : Int32} (ho : s.owner = .attrInit size) (hrc : rc ≠ 0) :
    Steps s (.attrInit rc) { s with owner := .reclaim rc }
  | setStackSize {size : UInt64} (ho : s.owner = .setStackSize size) :
    Steps s (.setStackSize 0) { s with owner := .create true }
  | setStackSizeFailed {size : UInt64} {rc : Int32} (ho : s.owner = .setStackSize size)
    (hrc : rc ≠ 0) : Steps s (.setStackSize rc) { s with owner := .attrDestroy rc }
  | create (ho : s.owner = .create false) :
    Steps s (.create 0) { s with owner := .holding, thread := .starting }
  | createFailed {rc : Int32} (ho : s.owner = .create false) (hrc : rc ≠ 0) :
    Steps s (.create rc) { s with owner := .reclaim rc }
  | createAttr (ho : s.owner = .create true) :
    Steps s (.create 0) { s with owner := .attrDestroy 0, thread := .starting }
  | createAttrFailed {rc : Int32} (ho : s.owner = .create true) (hrc : rc ≠ 0) :
    Steps s (.create rc) { s with owner := .attrDestroy rc }
  | attrDestroy (ho : s.owner = .attrDestroy 0) :
    Steps s .attrDestroy { s with owner := .holding, attrs := s.attrs - 1 }
  | attrDestroyFailed {rc : Int32} (ho : s.owner = .attrDestroy rc) (hrc : rc ≠ 0) :
    Steps s .attrDestroy { s with owner := .reclaim rc, attrs := s.attrs - 1 }
  | reclaim {rc : Int32} (ho : s.owner = .reclaim rc) :
    Steps s .reclaim (dropRef { s with
      owner := .dropLocal rc, closureDrops := s.closureDrops + 1,
      packetFrees := s.packetFrees + 1 })
  | dropLocal {rc : Int32} (ho : s.owner = .dropLocal rc) :
    Steps s .dropLocal (dropRef { s with owner := .failed rc })
  | join (ho : s.owner = .holding) (ht : s.thread = .exited) :
    Steps s (.join 0) { s with owner := .taking, joined := true, joins := s.joins + 1 }
  | joinFailed {rc : Int32} (ho : s.owner = .holding) (hrc : rc ≠ 0) :
    Steps s (.join rc)
      { s with owner := .dropping, joined := true, joinResult := some (.error (.os ⟨rc⟩)) }
  | take {value : T} (ho : s.owner = .taking) (hs : s.slot = some value) :
    Steps s .take { s with owner := .dropping, slot := none, joinResult := some (.ok value) }
  | takeNone (ho : s.owner = .taking) (hs : s.slot = none) :
    Steps s .take
      { s with owner := .dropping, slot := none, joinResult := some (.error (.os ⟨EINVAL⟩)) }
  | drop (ho : s.owner = .holding) : Steps s .drop { s with owner := .dropping }
  | dropBody (ho : s.owner = .dropping) (hj : s.joined = true) :
    Steps s .dropBody { s with owner := .releasing }
  | detach (ho : s.owner = .dropping) (hj : s.joined = false) :
    Steps s .dropBody { s with owner := .releasing, detaches := s.detaches + 1 }
  | dropShared (ho : s.owner = .releasing) :
    Steps s .dropShared (dropRef { s with owner := .consumed })
  | start (ht : s.thread = .starting) :
    Steps s .start { s with
      thread := .running, packetFrees := s.packetFrees + 1, closureRuns := s.closureRuns + 1 }
  | finish (value : T) (ht : s.thread = .running) :
    Steps s (.finish value) { s with thread := .storing value, produced := s.produced ++ [value] }
  | store {value : T} (ht : s.thread = .storing value) :
    Steps s .store { s with
      thread := .dropping, slot := some value, dropped := s.dropped ++ s.slot.toList }
  | release (ht : s.thread = .dropping) : Steps s .release (dropRef { s with thread := .returning })
  | exit (ht : s.thread = .returning) : Steps s .exit { s with thread := .exited }

theorem step_cases {s t : Spawn T} {a : Act T} (h : step s a = some t) : Steps s a t := by
  cases a with
  | attrInit rc =>
    simp only [step] at h
    split at h
    · by_cases hrc : rc = 0
      · subst hrc
        cases h
        exact .attrInit ‹_›
      · simp only [hrc, if_false, afterCreate] at h
        cases h
        exact .attrInitFailed ‹_› hrc
    · cases h
  | setStackSize rc =>
    simp only [step] at h
    split at h
    · by_cases hrc : rc = 0
      · subst hrc
        cases h
        exact .setStackSize ‹_›
      · simp only [hrc, if_false] at h
        cases h
        exact .setStackSizeFailed ‹_› hrc
    · cases h
  | create rc =>
    simp only [step] at h
    split at h
    · rename_i attr ho
      by_cases hrc : rc = 0
      · subst hrc
        cases attr <;> cases h
        · exact .create ho
        · exact .createAttr ho
      · simp only [hrc, if_false, afterCreate] at h
        cases attr <;> cases h
        · exact .createFailed ho hrc
        · exact .createAttrFailed ho hrc
    · cases h
  | attrDestroy =>
    simp only [step, afterCreate] at h
    split at h
    · rename_i rc ho
      by_cases hrc : rc = 0
      · subst hrc
        cases h
        exact .attrDestroy ho
      · simp only [hrc, if_false] at h
        cases h
        exact .attrDestroyFailed ho hrc
    · cases h
  | join rc =>
    simp only [step, cvtPthread] at h
    split at h
    · by_cases hrc : rc = 0
      · subst hrc
        simp only [if_true] at h
        split at h <;> cases h
        exact .join ‹_› ‹_›
      · simp only [hrc, if_false] at h
        cases h
        exact .joinFailed ‹_› hrc
    · cases h
  | take =>
    simp only [step] at h
    split at h <;> cases h
    cases hs : s.slot with
    | none => exact .takeNone ‹_› hs
    | some value => exact .take ‹_› hs
  | dropBody =>
    simp only [step] at h
    split at h
    · split at h <;> cases h
      · exact .dropBody ‹_› ‹_›
      · exact .detach ‹_› (Bool.not_eq_true _ ▸ ‹_›)
    · cases h
  | _ =>
    simp only [step] at h
    split at h <;> cases h
    constructor
    assumption

/-! ## The invariant -/

/-- What has been done, by where the owner and the thread are. -/
structure Ledger (s : Spawn T) : Prop where
  created : s.thread = .absent ↔ s.owner.created = false
  attrs : s.attrs = s.owner.attr
  runs : s.closureRuns = s.thread.started
  drops : s.closureDrops = s.owner.reclaimed
  frees : s.packetFrees = s.closureRuns + s.closureDrops

/-- The references that there are. -/
structure Counted (s : Spawn T) : Prop where
  refs : s.refs = s.owner.holds + s.owner.packet + s.thread.holds
  slotFrees : s.slotFrees = if s.refs = 0 then 1 else 0

/-- The handle, until `join` is through with it. -/
structure Handle (s : Spawn T) : Prop where
  early : s.owner.early → s.joined = false ∧ s.joinResult = none
  taking : s.owner = .taking → s.joined ∧ s.joinResult = none ∧ s.thread = .exited

/-- The value, from the closure to the caller of `join` or to its drop. -/
structure Value (s : Spawn T) : Prop where
  produced : s.produced.length = s.thread.finished
  conserved : s.returned ++ s.dropped ++ s.slot.toList ++ s.thread.value = s.produced
  stored : s.slot.isSome → s.thread.stored
  freed : s.refs = 0 → s.slot = none
  kept : s.refs ≠ 0 → s.dropped = []

section Step

variable {s t : Spawn T} {a : Act T}

theorem step_ledger (hi : Ledger s) (h : step s a = some t) : Ledger t := by
  obtain ⟨created, attrs, runs, drops, frees⟩ := hi
  cases step_cases h with
  | attrInit ho =>
    rw [ho] at created attrs drops
    exact ⟨created, congrArg (· + 1) attrs, runs, drops, frees⟩
  | attrInitFailed ho | setStackSize ho | createFailed ho =>
    rw [ho] at created attrs drops
    exact ⟨created, attrs, runs, drops, frees⟩
  | setStackSizeFailed ho hrc | createAttrFailed ho hrc =>
    rw [ho] at created attrs drops
    exact ⟨by simpa [hrc] using created, attrs, runs, drops, frees⟩
  | create ho | createAttr ho =>
    have ht := created.2 (by simp [ho])
    rw [ho] at attrs drops
    rw [ht] at runs
    exact ⟨by simp, attrs, runs, drops, frees⟩
  | attrDestroy ho =>
    rw [ho] at created attrs drops
    exact ⟨created, congrArg (· - 1) attrs, runs, drops, frees⟩
  | attrDestroyFailed ho hrc =>
    rw [ho] at created attrs drops
    exact ⟨by simpa [hrc] using created, congrArg (· - 1) attrs, runs, drops, frees⟩
  | reclaim ho =>
    rw [ho] at created attrs drops
    exact ⟨by simpa using created, by simpa using attrs, by simpa using runs,
      by simpa using drops, by simp [frees, Nat.add_assoc]⟩
  | dropLocal ho | dropShared ho =>
    rw [ho] at created attrs drops
    exact ⟨by simpa using created, by simpa using attrs, by simpa using runs,
      by simpa using drops, by simpa using frees⟩
  | join ho | joinFailed ho | take ho | takeNone ho | drop ho | dropBody ho | detach ho =>
    rw [ho] at created attrs drops
    exact ⟨created, attrs, runs, drops, frees⟩
  | start ht =>
    rw [ht] at created runs
    refine ⟨by simpa using created, attrs, congrArg (· + 1) runs, drops, ?_⟩
    show s.packetFrees + 1 = s.closureRuns + 1 + s.closureDrops
    omega
  | finish _ ht | store ht | exit ht =>
    rw [ht] at created runs
    exact ⟨by simpa using created, attrs, runs, drops, frees⟩
  | release ht =>
    rw [ht] at created runs
    exact ⟨by simpa using created, by simpa using attrs, by simpa using runs,
      by simpa using drops, by simpa using frees⟩

/-- One reference more than there will be, and it goes. -/
theorem Counted.dropRef (refs : s.refs = s.owner.holds + s.owner.packet + s.thread.holds + 1)
    (slotFrees : s.slotFrees = if s.refs = 0 then 1 else 0) : Counted s.dropRef := by
  have hf : s.slotFrees = 0 := by rw [slotFrees, if_neg (by omega)]
  constructor
  · simp [refs]
  · rw [dropRef_slotFrees, dropRef_refs, hf, refs]
    simp

theorem step_counted (hl : Ledger s) (hi : Counted s) (h : step s a = some t) : Counted t := by
  obtain ⟨refs, slotFrees⟩ := hi
  cases step_cases h with
  | attrInit ho | attrInitFailed ho | setStackSize ho | createFailed ho | attrDestroy ho
  | join ho | joinFailed ho | take ho | takeNone ho | drop ho | dropBody ho | detach ho =>
    rw [ho] at refs
    exact ⟨refs, slotFrees⟩
  | setStackSizeFailed ho hrc | createAttrFailed ho hrc | attrDestroyFailed ho hrc =>
    rw [ho] at refs
    exact ⟨by simpa [hrc] using refs, slotFrees⟩
  -- the reference of the packet goes to the thread
  | create ho | createAttr ho =>
    rw [ho, hl.created.2 (by simp [ho])] at refs
    exact ⟨refs, slotFrees⟩
  | reclaim ho | dropLocal ho | dropShared ho =>
    rw [ho] at refs
    refine Counted.dropRef ?_ slotFrees
    simp only [Owner.holds, Owner.packet] at refs ⊢
    omega
  | start ht | finish _ ht | store ht | exit ht =>
    rw [ht] at refs
    exact ⟨refs, slotFrees⟩
  | release ht =>
    rw [ht] at refs
    exact Counted.dropRef refs slotFrees

theorem Handle.dropRef (hi : Handle s) : Handle s.dropRef :=
  ⟨by simpa using hi.early, by simpa using hi.taking⟩

theorem step_handle (hi : Handle s) (h : step s a = some t) : Handle t := by
  obtain ⟨early, taking⟩ := hi
  cases step_cases h with
  | attrInit ho | attrInitFailed ho | setStackSize ho | setStackSizeFailed ho | create ho
  | createFailed ho | createAttr ho | createAttrFailed ho | attrDestroy ho
  | attrDestroyFailed ho => exact ⟨fun _ => early (by simp [ho]), nofun⟩
  | reclaim ho | dropLocal ho => exact Handle.dropRef ⟨fun _ => early (by simp [ho]), nofun⟩
  | join ho ht => exact ⟨nofun, fun _ => ⟨rfl, (early (by simp [ho])).2, ht⟩⟩
  | joinFailed | take | takeNone | drop | dropBody | detach => exact ⟨nofun, nofun⟩
  | dropShared => exact Handle.dropRef ⟨nofun, nofun⟩
  -- `join` has returned only when the thread takes no more steps
  | start ht | finish _ ht | store ht | exit ht =>
    exact ⟨early, fun ho => absurd (taking ho).2.2 (by simp [ht])⟩
  | release ht =>
    exact Handle.dropRef ⟨early, fun ho => absurd (taking ho).2.2 (by simp [ht])⟩

theorem Value.dropRef (hi : Value s) : Value s.dropRef := by
  obtain ⟨produced, conserved, stored, freed, kept⟩ := hi
  unfold Spawn.dropRef
  split
  · exact ⟨produced, by simpa [returned] using conserved, nofun, fun _ => rfl, fun h => absurd rfl h⟩
  · rename_i hr
    refine ⟨produced, conserved, stored, fun h => ?_, fun h => ?_⟩
    · exact freed (by simp at h; omega)
    · exact kept (by simp at h; omega)

theorem step_value (hl : Ledger s) (hc : Counted s) (hh : Handle s) (hi : Value s)
    (h : step s a = some t) : Value t := by
  obtain ⟨produced, conserved, stored, freed, kept⟩ := hi
  cases step_cases h with
  | create ho | createAttr ho =>
    rw [hl.created.2 (by simp [ho])] at produced conserved stored
    exact ⟨produced, conserved, stored, freed, kept⟩
  | reclaim | dropLocal | dropShared =>
    exact Value.dropRef ⟨produced, conserved, stored, freed, kept⟩
  | joinFailed ho =>
    have hr := (hh.early (by simp [ho])).2
    exact ⟨produced, by simpa [returned, hr] using conserved, stored, freed, kept⟩
  | take ho hs =>
    obtain ⟨-, hr, ht⟩ := hh.taking ho
    have hd := kept (by simp [hc.refs, ho])
    refine ⟨produced, ?_, nofun, fun _ => rfl, fun _ => hd⟩
    simpa [returned, hr, hd, hs, ht] using conserved
  | takeNone ho hs =>
    have hr := (hh.taking ho).2.1
    refine ⟨produced, ?_, nofun, fun _ => rfl, kept⟩
    simpa [returned, hr, hs] using conserved
  | start ht | exit ht =>
    rw [ht] at produced conserved stored
    exact ⟨produced, conserved, stored, freed, kept⟩
  | finish v ht =>
    rw [ht] at produced conserved stored
    refine ⟨by simp [produced], ?_, stored, freed, kept⟩
    show s.returned ++ s.dropped ++ s.slot.toList ++ [v] = s.produced ++ [v]
    simp [← conserved]
  | store ht =>
    -- nothing is in the slot before the thread gets here, and the slot is there
    have hs : s.slot = none :=
      Option.not_isSome_iff_eq_none.1 fun hs => by simpa [ht] using stored hs
    have hr : s.refs ≠ 0 := by simp [hc.refs, ht]
    refine ⟨by simpa [ht] using produced, ?_, fun _ => rfl, fun h => absurd h hr, fun _ => ?_⟩
    · simpa [returned, hs, ht] using conserved
    · simpa [hs] using kept hr
  | release ht =>
    rw [ht] at produced conserved stored
    exact Value.dropRef ⟨produced, conserved, stored, freed, kept⟩
  -- the others leave the value where it is
  | _ => exact ⟨produced, conserved, stored, freed, kept⟩

theorem taking_slot (hc : Counted s) (hh : Handle s) (hi : Value s) (ho : s.owner = .taking) :
    ∃ v, s.slot = some v ∧ s.produced = [v] := by
  obtain ⟨-, hr, ht⟩ := hh.taking ho
  have refs : s.refs = 1 := by simp [hc.refs, ho, ht]
  have hd := hi.kept (by omega)
  have hlen := hi.produced
  have hcon := hi.conserved
  rw [← hcon, ht, hd, returned, hr] at hlen
  cases hs : s.slot with
  | none => simp [hs] at hlen
  | some v => exact ⟨v, rfl, by rw [← hcon, ht, hd, returned, hr, hs]; rfl⟩

/-- What has been done with the thread itself. -/
structure Record (s : Spawn T) : Prop where
  joined : s.joined = true ↔ s.owner = .taking ∨ s.joinResult.isSome
  joins : s.joins = if s.owner = .taking then 1 else s.returned.length
  detaches : s.detaches = if s.owner.released = true ∧ s.joined = false then 1 else 0

theorem Record.dropRef (hi : Record s) : Record s.dropRef := by
  obtain ⟨joined, joins, detaches⟩ := hi
  refine ⟨by simpa using joined, by simpa [returned] using joins, ?_⟩
  rw [dropRef_detaches, detaches, dropRef_owner, dropRef_joined]

theorem step_record (hc : Counted s) (hh : Handle s) (hv : Value s) (hi : Record s)
    (h : step s a = some t) : Record t := by
  obtain ⟨joined, joins, detaches⟩ := hi
  cases step_cases h with
  | attrInit ho | attrInitFailed ho | setStackSize ho | setStackSizeFailed ho | create ho
  | createFailed ho | createAttr ho | createAttrFailed ho | attrDestroy ho
  | attrDestroyFailed ho | drop ho =>
    rw [ho] at joined joins detaches
    exact ⟨by simpa using joined, by simpa [returned] using joins, by simpa using detaches⟩
  | reclaim ho | dropLocal ho | dropShared ho =>
    rw [ho] at joined joins detaches
    exact Record.dropRef ⟨by simpa using joined, by simpa [returned] using joins, by simpa using detaches⟩
  | join ho =>
    have hr := (hh.early (by simp [ho])).2
    rw [ho] at joins detaches
    exact ⟨by simp, by simpa [returned, hr] using joins, by simpa using detaches⟩
  | joinFailed ho =>
    have hr := (hh.early (by simp [ho])).2
    rw [ho] at joins detaches
    exact ⟨by simp, by simpa [returned, hr] using joins, by simpa using detaches⟩
  | take ho =>
    rw [ho] at joined joins detaches
    exact ⟨by simpa using joined, by simpa [returned] using joins, by simpa using detaches⟩
  | takeNone ho hs =>
    -- `join` succeeds only on a thread that has stored its value
    obtain ⟨v, hv, -⟩ := taking_slot hc hh hv ho
    exact absurd hv (by simp [hs])
  | dropBody ho hj | detach ho hj =>
    rw [ho] at joined joins detaches
    exact ⟨by simpa using joined, by simpa [returned] using joins, by simpa [hj] using detaches⟩
  | start | finish | store | exit => exact ⟨joined, joins, detaches⟩
  | release => exact Record.dropRef ⟨joined, joins, detaches⟩

/-- The invariant of a spawn. -/
structure Inv (s : Spawn T) : Prop where
  ledger : Ledger s
  counted : Counted s
  handle : Handle s
  value : Value s
  record : Record s

theorem inv_init (b : Builder) : Inv (init b : Spawn T) := by
  obtain ⟨_ | size⟩ := b <;> refine ⟨?_, ?_, ?_, ?_, ?_⟩ <;> constructor <;> simp [init, returned]

theorem step_inv (hi : Inv s) (h : step s a = some t) : Inv t where
  ledger := step_ledger hi.ledger h
  counted := step_counted hi.ledger hi.counted h
  handle := step_handle hi.handle h
  value := step_value hi.ledger hi.counted hi.handle hi.value h
  record := step_record hi.counted hi.handle hi.value hi.record h

/-- Each step uses up one of the steps that the owner and the thread have left. -/
theorem step_rank (hi : Inv s) (h : step s a = some t) :
    t.owner.rank + t.thread.rank < s.owner.rank + s.thread.rank := by
  have created := hi.ledger.created
  clear hi
  cases step_cases h <;> simp_all [Owner.rank, Trampoline.rank]

end Step

theorem run_inv {b : Builder} {ls : List (Act T)} {s : Spawn T}
    (h : runFrom step (init b) ls = some s) : Inv s :=
  invariant (I := fun _ s => Inv s) (inv_init b) (fun _ _ _ _ _ hi h => step_inv hi h) h

theorem run_length {b : Builder} {ls : List (Act T)} {s : Spawn T}
    (h : runFrom step (init b) ls = some s) : ls.length ≤ 13 := by
  have hrank : (init b : Spawn T).owner.rank + (init b : Spawn T).thread.rank ≤ 13 := by
    obtain ⟨_ | size⟩ := b <;> simp [init, Owner.rank, Trampoline.rank]
  have := length_le_of_decreasing (inv_init b)
    (fun _ _ _ hi h => ⟨step_inv hi h, step_rank hi h⟩) h
  omega

/-! ## The closure -/

section Closure

variable {s t : Spawn T} {a : Act T}

theorem step_start (h : step s .start = some t) : t.thread = .running ∧
    t.closureRuns = s.closureRuns + 1 ∧ t.closureDrops = s.closureDrops := by
  cases step_cases h
  exact ⟨rfl, rfl, rfl⟩

theorem step_reclaim (h : step s .reclaim = some t) :
    t.closureRuns = s.closureRuns ∧ t.closureDrops = s.closureDrops + 1 := by
  cases step_cases h
  exact ⟨dropRef_closureRuns _, dropRef_closureDrops _⟩

/-- Only those two steps take the closure. -/
theorem step_closure (h : step s a = some t) (hs : a ≠ .start) (hr : a ≠ .reclaim) :
    t.closureRuns = s.closureRuns ∧ t.closureDrops = s.closureDrops := by
  cases step_cases h <;> simp_all

/-- A closure that runs does so until it returns. -/
theorem step_running (hi : Inv s) (hr : s.thread = .running) (h : step s a = some t) :
    t.thread = .running ∨ ∃ v, a = .finish v := by
  have created := hi.ledger.created
  clear hi
  cases step_cases h <;> simp_all

theorem step_owner (ha : a.byOwner = false) (h : step s a = some t) : t.owner = s.owner := by
  cases step_cases h with
  | start | finish | store | exit => rfl
  | release => exact dropRef_owner _
  | _ => cases ha

end Closure

end Spawn

end PsPayload.Thread
