import PsPayload.Ps5.Thread.Invariant

/-!
# The result of a thread is handed over

What callers of `spawn` rely on, read off the invariant: the closure, the
packet and the value are each handed over once (`handOff`), and a thread whose
handle is gone has been released, unless its `join` failed (`releasedOnce_iff`).
-/

namespace PsPayload.Thread

open Lib

namespace Spawn

variable {T : Type}

/-! ## What callers rely on -/

/-- Creation failed, or the handle and the thread are both through. -/
def Finished (s : Spawn T) : Prop :=
  (∃ rc, s.owner = .failed rc) ∨ s.owner = .consumed ∧ s.thread = .exited

/-- The hand-off of the closure, of the packet and of the value. -/
structure HandOff (s : Spawn T) : Prop where
  once : s.closureRuns + s.closureDrops ≤ 1 ∧ s.packetFrees = s.closureRuns + s.closureDrops
  failed : ∀ rc, s.owner = .failed rc →
    s.thread = .absent ∧ s.closureRuns = 0 ∧ s.closureDrops = 1 ∧ s.packetFrees = 1 ∧
      s.slotFrees = 1 ∧ s.produced = []
  exited : s.thread = .exited → s.closureRuns = 1 ∧ s.closureDrops = 0 ∧ s.packetFrees = 1
  value : s.produced.length ≤ 1 ∧
    s.returned ++ s.dropped ++ s.slot.toList ++ s.thread.value = s.produced
  finished : s.owner = .consumed → s.thread = .exited → s.slotFrees = 1 ∧ s.slot = none ∧
    ∃ v, s.produced = [v] ∧ (s.returned = [v] ∧ s.dropped = [] ∨ s.returned = [] ∧ s.dropped = [v])
  read : ∀ t, step s .take = some t →
    ∃ v, s.slot = some v ∧ s.produced = [v] ∧ s.thread.holds = 0
  joined : s.joins ≠ 0 →
    s.owner = .taking ∨ ∃ v, s.joinResult = some (.ok v) ∧ s.produced = [v]
  progress : ∀ _ : T, ¬ s.Finished → ∃ a t, step s a = some t

/-- Until the owner is through, it has a step that is not a `join`. -/
theorem owner_progress {s : Spawn T} (ho : s.owner.over = false) :
    ∃ a t, a.byOwner = true ∧ (∀ rc, a ≠ .join rc) ∧ step s a = some t := by
  cases h : s.owner with
  | attrInit size => exact ⟨.attrInit 0, _, rfl, by simp, by simp only [step, h, if_true]; rfl⟩
  | setStackSize size => exact ⟨.setStackSize 0, _, rfl, by simp, by simp only [step, h, if_true]; rfl⟩
  | create attr =>
    refine ⟨.create 0, ?_⟩
    cases attr <;> simp [step, h, Act.byOwner]
  | attrDestroy rc => exact ⟨.attrDestroy, _, rfl, by simp, by simp only [step, h]; rfl⟩
  | reclaim rc => exact ⟨.reclaim, _, rfl, by simp, by simp only [step, h]; rfl⟩
  | dropLocal rc => exact ⟨.dropLocal, _, rfl, by simp, by simp only [step, h]; rfl⟩
  | holding => exact ⟨.drop, _, rfl, by simp, by simp only [step, h]; rfl⟩
  | taking => exact ⟨.take, _, rfl, by simp, by simp only [step, h]; rfl⟩
  | dropping =>
    refine ⟨.dropBody, ?_⟩
    cases hj : s.joined <;> simp [step, h, hj, Act.byOwner]
  | releasing => exact ⟨.dropShared, _, rfl, by simp, by simp only [step, h]; rfl⟩
  | failed rc => simp [h, Owner.over] at ho
  | consumed => simp [h, Owner.over] at ho

theorem Inv.progress {s : Spawn T} (hi : Inv s) (v : T) (hf : ¬ s.Finished) :
    ∃ a t, step s a = some t := by
  have created := hi.ledger.created
  cases ho : s.owner.over with
  | false =>
    obtain ⟨a, t, -, -, h⟩ := owner_progress ho
    exact ⟨a, t, h⟩
  | true =>
    cases hs : s.owner <;> simp only [hs, Owner.over, reduceCtorEq] at ho
    · exact absurd (.inl ⟨_, hs⟩) hf
    · cases ht : s.thread with
      | absent => simp [hs, ht] at created
      | starting => exact ⟨.start, by simp [step, ht]⟩
      | running => exact ⟨.finish v, by simp [step, ht]⟩
      | storing value => exact ⟨.store, by simp [step, ht]⟩
      | dropping => exact ⟨.release, by simp [step, ht]⟩
      | returning => exact ⟨.exit, by simp [step, ht]⟩
      | exited => exact absurd (.inr ⟨hs, ht⟩) hf

theorem Inv.finished {s : Spawn T} (hi : Inv s) (ho : s.owner = .consumed)
    (ht : s.thread = .exited) : s.slotFrees = 1 ∧ s.slot = none ∧ ∃ v, s.produced = [v] ∧
      (s.returned = [v] ∧ s.dropped = [] ∨ s.returned = [] ∧ s.dropped = [v]) := by
  have refs : s.refs = 0 := by simp [hi.counted.refs, ho, ht]
  have hs := hi.value.freed refs
  have hlen := hi.value.produced
  have hcon := hi.value.conserved
  rw [ht] at hlen
  obtain ⟨v, hv⟩ := List.length_eq_one_iff.mp hlen
  refine ⟨by simp [hi.counted.slotFrees, refs], hs, v, hv, ?_⟩
  simp only [hs, ht, Trampoline.value, Option.toList_none, List.append_nil, hv] at hcon
  rcases List.append_eq_singleton_iff.mp hcon with ⟨hr, hd⟩ | ⟨hr, hd⟩
  · exact .inr ⟨hr, hd⟩
  · exact .inl ⟨hr, hd⟩

theorem Inv.joined {s : Spawn T} (hi : Inv s) (hj : s.joins ≠ 0) :
    s.owner = .taking ∨ ∃ v, s.joinResult = some (.ok v) ∧ s.produced = [v] := by
  rw [hi.record.joins] at hj
  split at hj
  · exact .inl ‹_›
  · right
    have hlen := congrArg List.length hi.value.conserved
    have hfin : s.thread.finished ≤ 1 := by cases s.thread <;> simp
    rw [hi.value.produced] at hlen
    have hcon := hi.value.conserved
    rw [returned] at hj hcon
    split at hj
    · rename_i v hv
      rw [returned, hv] at hlen
      simp only [List.length_append, List.length_singleton] at hlen
      have hnil := List.length_eq_zero_iff.mp (by omega : (s.dropped).length = 0)
      have hnil' := List.length_eq_zero_iff.mp (by omega : (s.slot.toList).length = 0)
      have hnil'' := List.length_eq_zero_iff.mp (by omega : (s.thread.value).length = 0)
      rw [hv, hnil, hnil', hnil''] at hcon
      exact ⟨v, hv, hcon.symm⟩
    · exact absurd rfl hj

theorem handOff_of_inv {s : Spawn T} (hi : Inv s) : HandOff s where
  once := by
    refine ⟨?_, hi.ledger.frees⟩
    have created := hi.ledger.created
    rw [hi.ledger.runs, hi.ledger.drops]
    cases ho : s.owner <;> cases ht : s.thread <;> simp_all
  failed := by
    intro rc ho
    have ht := hi.ledger.created.mpr (by rw [ho]; rfl)
    have hr : s.closureRuns = 0 := by rw [hi.ledger.runs, ht]; rfl
    have hd : s.closureDrops = 1 := by rw [hi.ledger.drops, ho]; rfl
    have refs : s.refs = 0 := by simp [hi.counted.refs, ho, ht]
    refine ⟨ht, hr, hd, by rw [hi.ledger.frees, hr, hd], by simp [hi.counted.slotFrees, refs], ?_⟩
    exact List.length_eq_zero_iff.mp (by rw [hi.value.produced, ht]; rfl)
  exited := by
    intro ht
    have hr : s.closureRuns = 1 := by rw [hi.ledger.runs, ht]; rfl
    have hd : s.closureDrops = 0 := by
      have created := hi.ledger.created
      rw [hi.ledger.drops]
      cases ho : s.owner <;> simp_all
    exact ⟨hr, hd, by rw [hi.ledger.frees, hr, hd]⟩
  value := by
    refine ⟨?_, hi.value.conserved⟩
    rw [hi.value.produced]
    cases s.thread <;> simp
  finished := hi.finished
  read := by
    intro t h
    have ho : s.owner = .taking := by
      cases step_cases h <;> assumption
    obtain ⟨v, hs, hp⟩ := taking_slot hi.counted hi.handle hi.value ho
    exact ⟨v, hs, hp, by rw [(hi.handle.taking ho).2.2]; rfl⟩
  joined := hi.joined
  progress := hi.progress

/-- Whatever the codes that the calls return, whatever the owner does, and
however its steps and those of the thread come one after the other. -/
theorem handOff (b : Builder) {ls : List (Act T)} {s : Spawn T}
    (h : runFrom step (init b) ls = some s) : HandOff s ∧ ls.length ≤ 13 :=
  ⟨handOff_of_inv (run_inv h), run_length h⟩

/-- A spawn with its own stack size, joined once its thread has exited. -/
def joinRun : List (Act Nat) :=
  [.attrInit 0, .setStackSize 0, .create 0, .start, .attrDestroy, .finish 7, .store, .release, .exit,
    .join 0, .take, .dropBody, .dropShared]

theorem handOff_joinRun :
    ∃ s : Spawn Nat, s.joinResult = some (.ok 7) ∧ HandOff s ∧ joinRun.length ≤ 13 :=
  ⟨_, rfl, handOff (Builder.new.withStackSize 65536)
    (show runFrom step (init (Builder.new.withStackSize 65536)) joinRun = some _ from rfl)⟩

/-! ## Release -/

/-- One `pthread_join` has succeeded, or one `pthread_detach` was issued. -/
def ReleasedOnce (s : Spawn T) : Prop :=
  s.joins = 1 ∧ s.detaches = 0 ∨ s.joins = 0 ∧ s.detaches = 1

instance (s : Spawn T) : Decidable (ReleasedOnce s) := inferInstanceAs (Decidable (_ ∨ _))

theorem step_joinResult {s t : Spawn T} {a : Act T} (hi : Inv s) (h : step s a = some t) :
    (∃ e, t.joinResult = some (.error e)) ↔
      (∃ e, s.joinResult = some (.error e)) ∨ ∃ rc, rc ≠ 0 ∧ a = .join rc := by
  cases step_cases h with
  | join ho => simp
  | joinFailed ho hrc =>
    have hr := (hi.handle.early (by rw [ho]; rfl)).2
    simp [hrc]
  | take ho =>
    have hr := (hi.handle.taking ho).2.1
    simp [hr]
  | takeNone ho hs =>
    obtain ⟨v, hs', -⟩ := taking_slot hi.counted hi.handle hi.value ho
    rw [hs] at hs'
    cases hs'
  | _ => simp

theorem failedJoin_iff {b : Builder} {ls : List (Act T)} {s : Spawn T}
    (h : runFrom step (init b) ls = some s) :
    (∃ e, s.joinResult = some (.error e)) ↔ ∃ rc, rc ≠ 0 ∧ .join rc ∈ ls := by
  refine invariant (I := fun ls s => (∃ e, s.joinResult = some (.error e)) ↔
    ∃ rc, rc ≠ 0 ∧ .join rc ∈ ls) (by simp [init]) ?_ h
  intro ls a t u ht ih hs
  rw [step_joinResult (run_inv ht) hs, ih]
  refine ⟨fun h => ?_, fun h => ?_⟩
  · rcases h with ⟨rc, hrc, hm⟩ | ⟨rc, hrc, rfl⟩
    · exact ⟨rc, hrc, List.mem_append_left _ hm⟩
    · exact ⟨rc, hrc, List.mem_append_right _ (List.mem_singleton_self _)⟩
  · obtain ⟨rc, hrc, hm⟩ := h
    rcases List.mem_append.mp hm with hm | hm
    · exact .inl ⟨rc, hrc, hm⟩
    · exact .inr ⟨rc, hrc, (List.mem_singleton.mp hm).symm⟩

/-- A handle that is gone has released its thread, unless its `join` failed. -/
theorem releasedOnce_iff_of_inv {s : Spawn T} (hi : Inv s) (ho : s.owner = .consumed) :
    s.ReleasedOnce ↔ ¬ ∃ e, s.joinResult = some (.error e) := by
  have hj := hi.record.joins
  have hd := hi.record.detaches
  have hjd := hi.record.joined
  rw [ReleasedOnce]
  simp only [ho, reduceCtorEq, if_false, false_or, Owner.released, true_and] at hj hd hjd
  cases hr : s.joinResult with
  | none =>
    have : s.joined = false := by simpa [hr] using hjd
    simp [hj, hd, this, returned, hr]
  | some r =>
    have : s.joined = true := by simpa [hr] using hjd
    cases r <;> simp [hj, hd, this, returned, hr]

/-- A thread that is handed its own handle and joins itself: neither joined
nor detached. -/
theorem not_releasedOnce : ¬ ∀ (ls : List (PoolLabel Builder (Act Unit))) (cs : List (Spawn Unit))
    (i : Nat) (s : Spawn Unit), runFrom (poolStep init step) [] ls = some cs → cs[i]? = some s →
      s.owner = .consumed → s.ReleasedOnce := by
  intro hx
  have := hx [.add .new, .on 0 (.create 0), .on 0 .start, .on 0 (.join EDEADLK), .on 0 .dropBody,
    .on 0 .dropShared] _ 0 _ rfl rfl rfl
  exact absurd this (by decide)

/-- In every run of spawns, joins and drops, a thread whose handle is gone has
been released once, exactly if no `pthread_join` on it failed. -/
theorem releasedOnce_iff {ls : List (PoolLabel Builder (Act T))} {cs : List (Spawn T)}
    (h : runFrom (poolStep init step) [] ls = some cs) {i : Nat} {s : Spawn T}
    (hs : cs[i]? = some s) (ho : s.owner = .consumed) :
    s.ReleasedOnce ↔ ∀ rc, .join rc ∈ labelsOf i ls → rc = 0 := by
  obtain ⟨b, hr⟩ := pool_component h hs
  rw [releasedOnce_iff_of_inv (run_inv hr) ho, failedJoin_iff hr]
  refine ⟨fun hn rc hm => ?_, fun hall ⟨rc, hrc, hm⟩ => ?_⟩
  · by_contra hrc
    exact hn ⟨rc, hrc, hm⟩
  · exact hrc (hall rc hm)

/-- Two spawns, one joined and one dropped. -/
def twoRun : List (PoolLabel Builder (Act Unit)) :=
  [.add .new, .on 0 (.create 0), .add .new, .on 1 (.create 0), .on 0 .start, .on 1 .drop,
    .on 0 (.finish ()), .on 0 .store, .on 1 .dropBody, .on 0 .release, .on 0 .exit, .on 0 (.join 0),
    .on 1 .dropShared, .on 0 .take, .on 0 .dropBody, .on 0 .dropShared]

theorem releasedOnce_twoRun :
    ∃ s : Spawn Unit, s.joins = 1 ∧
      (s.ReleasedOnce ↔ ∀ rc, .join rc ∈ labelsOf 0 twoRun → rc = 0) :=
  ⟨_, rfl, releasedOnce_iff (show runFrom (poolStep init step) [] twoRun = some _ from rfl)
    (show _ = some _ from rfl) rfl⟩

end Spawn

end PsPayload.Thread
