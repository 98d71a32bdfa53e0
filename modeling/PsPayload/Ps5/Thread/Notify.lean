import PsPayload.Ps5.Thread.Data

/-!
# Notifications

A thread waits for a change of the data that another thread makes under the
same mutex and then announces with `notify_all`. `Condvar::wait` keeps the mutex
until it is blocked, so that the change comes after that and the notification
finds the thread: it is not lost, whatever else the threads do
(`no_lost_wakeup`).
-/

namespace PsPayload.Thread

open Lib

/-- A thread that does not need to be notified: it is not in a wait, or a
notification has found it. -/
def Phase.settled : Phase → Bool
  | .waiting _ _ => false
  | .blocked _ _ notified => notified
  | .running | .locking _ | .woken _ _ | .dropping _ _ => true

/-- From one phase to another, without a new wait: nothing happens, the thread
blocks, or it is settled. -/
def Phase.Leads (p q : Phase) : Prop :=
  q = p ∨ q.settled = true ∨ ∃ c m, p = .waiting c m ∧ q = .blocked c m false

theorem Phase.Leads.settled {p q : Phase} (h : p.Leads q) (hp : p.settled = true) :
    q.settled = true := by
  rcases h with rfl | h | ⟨c, m, rfl, -⟩
  · exact hp
  · exact h
  · cases hp

/-- A thread that is blocked is settled next, unless it stays where it is. -/
theorem Phase.Leads.blocked {q : Phase} {c m : Nat} (h : (Phase.blocked c m false).Leads q) :
    q = .blocked c m false ∨ q.settled = true := by
  rcases h with rfl | h | ⟨c, m, h, -⟩
  · exact .inl rfl
  · exact .inr h
  · cases h

theorem leads_notify (c : Nat) (p : Phase) : p.Leads (p.notify c) := by
  cases p with
  | blocked c' m b =>
    cases b with
    | true => exact .inl rfl
    | false =>
      by_cases hc : c' = c
      · exact .inr (.inl (by simp [Phase.notify, Phase.settled, hc]))
      · exact .inl (by simp [Phase.notify, hc])
  | running => exact .inl rfl
  | locking m => exact .inl rfl
  | waiting c' m => exact .inl rfl
  | woken m rc => exact .inl rfl
  | dropping m rc => exact .inl rfl

theorem settled_notify_blocked (c m : Nat) (b : Bool) :
    ((Phase.blocked c m b).notify c).settled = true := by
  simp [Phase.notify, Phase.settled]

namespace Locks

variable {s s' : Locks} {a : Act} {u t : Nat} {p : Phase}

/-- Thread `t` goes on, the others stay where they are. -/
theorem leads_goto (h : (s.phase t).Leads p) :
    (s.phase u).Leads (Function.update s.phase t p u) := by
  by_cases hu : u = t
  · subst hu
    rw [Function.update_self]
    exact h
  · rw [Function.update_of_ne hu]
    exact .inl rfl

theorem leads_settled (h : p.settled = true) :
    (s.phase u).Leads (Function.update s.phase t p u) :=
  leads_goto (.inr (.inl h))

theorem phase_dropGuard (s : Locks) (g : MutexGuard) : (s.dropGuard g).phase = s.phase := by
  rw [dropGuard]
  split <;> rfl

theorem leads_step (h : step s a = some s') (hw : ∀ g c, a = .wait g c → g.thread ≠ u) :
    (s.phase u).Leads (s'.phase u) := by
  cases a with
  | wait g c =>
    rw [step, Option.ite_none_right_eq_some] at h
    obtain ⟨-, h⟩ := h
    cases h
    exact .inl (Function.update_of_ne (hw g c rfl).symm ..)
  | block t c m =>
    rw [step, Option.ite_none_right_eq_some] at h
    obtain ⟨hp, h⟩ := h
    cases h
    exact leads_goto (.inr (.inr ⟨c, m, hp, rfl⟩))
  | lockReturns t m rc =>
    rw [step, Option.ite_none_right_eq_some] at h
    obtain ⟨-, h⟩ := h
    by_cases hrc : rc = 0
    · rw [hrc, locked_zero] at h
      cases h
      exact leads_settled rfl
    · rw [locked_ne hrc] at h
      cases h
      exact leads_settled rfl
  | resume t m rc =>
    rw [step, Option.ite_none_right_eq_some] at h
    obtain ⟨-, h⟩ := h
    by_cases hrc : rc = 0
    · subst hrc
      cases h
      exact leads_settled rfl
    · rw [waited_ne hrc] at h
      cases h
      exact leads_settled rfl
  | drop g =>
    rw [step, Option.ite_none_right_eq_some] at h
    obtain ⟨-, h⟩ := h
    cases h
    exact .inl (congrFun (phase_dropGuard s g) u)
  | dropLocal t m rc =>
    rw [step, Option.ite_none_right_eq_some, Option.some.injEq] at h
    obtain ⟨-, rfl⟩ := h
    show (s.phase u).Leads (Function.update (s.dropGuard ⟨t, m⟩).phase t .running u)
    rw [phase_dropGuard]
    exact leads_settled rfl
  | leak g =>
    rw [step, Option.ite_none_right_eq_some] at h
    obtain ⟨-, h⟩ := h
    cases h
    exact .inl rfl
  | notifyOne t c v =>
    rw [step, Option.ite_none_right_eq_some] at h
    obtain ⟨-, h⟩ := h
    cases h
    by_cases hv : v = some u
    · simp only [if_pos hv]
      exact leads_notify c (s.phase u)
    · exact .inl (if_neg hv)
  | notifyAll t c =>
    rw [step, Option.ite_none_right_eq_some] at h
    obtain ⟨-, h⟩ := h
    cases h
    exact leads_notify c (s.phase u)
  | lock t m | wake t c m b w | refuse t c m rc =>
    rw [step, Option.ite_none_right_eq_some] at h
    obtain ⟨-, h⟩ := h
    cases h
    exact leads_settled rfl

theorem step_notifyAll {c : Nat} (h : step s (.notifyAll t c) = some s') :
    s'.phase u = (s.phase u).notify c := by
  rw [step, Option.ite_none_right_eq_some] at h
  obtain ⟨-, h⟩ := h
  cases h
  rfl

theorem step_wait {g : MutexGuard} {c : Nat} (h : step s (.wait g c) = some s') :
    s'.phase g.thread = .waiting c g.mutex := by
  rw [step, Option.ite_none_right_eq_some] at h
  obtain ⟨-, h⟩ := h
  cases h
  exact Function.update_self ..

end Locks

/-! ## In a run -/

namespace Shared

variable {κ β : Type} [DecidableEq κ] [DecidableEq β] {data : Nat → κ → β} {s s' : Shared κ β}
  {ls : List (Label κ β)} {l : Label κ β} {u : Nat}

/-- The label is not a new wait of thread `u`. -/
def KeepsOut (u : Nat) (l : Label κ β) : Prop := ∀ g c, l = .act (.wait g c) → g.thread ≠ u

theorem leads_step (h : s.step l = some s') (hl : KeepsOut u l) :
    (s.locks.phase u).Leads (s'.locks.phase u) := by
  cases l with
  | act a =>
    obtain ⟨locks, ha, rfl⟩ := Option.map_eq_some_iff.mp h
    exact Locks.leads_step ha fun g c hg => hl g c (by rw [hg])
  | access g x =>
    rw [step, Option.ite_none_right_eq_some] at h
    obtain ⟨d, -, rfl⟩ := Option.map_eq_some_iff.mp h.2
    exact .inl rfl

/-- What `Leads` keeps of the phase of a thread holds until it waits again. -/
theorem run_leads {P : Phase → Prop} (hP : ∀ p q : Phase, P p → p.Leads q → P q)
    (hs : P (s.locks.phase u)) (hls : ∀ l ∈ ls, KeepsOut u l)
    (h : runFrom step s ls = some s') : P (s'.locks.phase u) := by
  refine invariant (I := fun ls t => (∀ l ∈ ls, KeepsOut u l) → P (t.locks.phase u))
    (fun _ => hs) (fun ls l t v _ ih hl hls => ?_) h hls
  rw [List.forall_mem_append] at hls
  exact hP _ _ (ih hls.1) (leads_step hl (hls.2 l (List.mem_singleton_self l)))

/-- A thread that waits has given its mutex up before another one gets at the
data. -/
theorem not_waiting {g g' : MutexGuard} {x : Access κ β} {c : Nat} (hi : Inv data ls s)
    (h : s.step (.access g' x) = some s') (hm : g'.mutex = g.mutex)
    (hne : g'.thread ≠ g.thread) : s.locks.phase g.thread ≠ .waiting c g.mutex := by
  intro hp
  rw [step, Option.ite_none_right_eq_some] at h
  have ho := h.1.elim hi.locks.owner_of_mem hi.locks.owner_of_leaked
  have hk : s.locks.owner g.mutex = some g.thread :=
    hi.locks.owner_of_kept (by rw [hp]; rfl)
  rw [hm, hk] at ho
  exact hne (Option.some.inj ho).symm

/-- Until it waits again, a thread that has called `wait` is on its way into
`pthread_cond_wait`, is blocked there, or is settled. -/
theorem run_wait {g : MutexGuard} {c : Nat} {t : Shared κ β}
    (hw : s.step (.act (.wait g c)) = some t) (hls : ∀ l ∈ ls, KeepsOut g.thread l)
    (h : runFrom step t ls = some s') :
    s'.locks.phase g.thread = .waiting c g.mutex ∨
      s'.locks.phase g.thread = .blocked c g.mutex false ∨
      (s'.locks.phase g.thread).settled = true := by
  obtain ⟨locks, hl, rfl⟩ := Option.map_eq_some_iff.mp hw
  refine run_leads (P := fun p => p = .waiting c g.mutex ∨ p = .blocked c g.mutex false ∨
    p.settled = true) (fun p q hp hq => ?_) (.inl (Locks.step_wait hl)) hls h
  rcases hp with rfl | rfl | hp
  · rcases hq with rfl | hq | ⟨c', m', hq, rfl⟩
    · exact .inl rfl
    · exact .inr (.inr hq)
    · cases hq
      exact .inr (.inl rfl)
  · exact .inr hq.blocked
  · exact .inr (.inr (hq.settled hp))

/-- A notification finds a thread that is blocked, and then it stays settled. -/
theorem run_notifyAll {c m t : Nat} {v : Shared κ β}
    (hp : s.locks.phase u = .blocked c m false ∨ (s.locks.phase u).settled = true)
    (hn : s.step (.act (.notifyAll t c)) = some v) (hls : ∀ l ∈ ls, KeepsOut u l)
    (h : runFrom step v ls = some s') : (s'.locks.phase u).settled = true := by
  obtain ⟨locks, hl, rfl⟩ := Option.map_eq_some_iff.mp hn
  refine run_leads (P := fun p => p.settled = true) (fun p q hp hq => hq.settled hp) ?_ hls h
  show (locks.phase u).settled = true
  rw [Locks.step_notifyAll hl]
  rcases hp with hp | hp
  · rw [hp]
    exact settled_notify_blocked c m false
  · exact (leads_notify c _).settled hp

/-- A thread waits, another one then gets at the data, and later somebody calls
`notify_all`. The first does not stay blocked for want of a notification: it
has come back, or it does as soon as the mutex is free. -/
theorem no_lost_wakeup (g g' : MutexGuard) (x : Access κ β) (c t : Nat)
    (as bs cs ds : List (Label κ β)) (hm : g'.mutex = g.mutex) (hne : g'.thread ≠ g.thread)
    (hout : ∀ l ∈ bs ++ cs ++ ds, KeepsOut g.thread l)
    (h : runFrom step (init data) (as ++ .act (.wait g c) :: (bs ++ .access g' x ::
      (cs ++ .act (.notifyAll t c) :: ds))) = some s) :
    (s.locks.phase g.thread).settled = true ∧
      ∀ c' m b, s.locks.phase g.thread = .blocked c' m b → s.locks.owner m = none →
        ∃ s', s.step (.act (.wake g.thread c' m b .notified)) = some s' := by
  simp only [List.forall_mem_append] at hout
  obtain ⟨⟨hbs, hcs⟩, hds⟩ := hout
  obtain ⟨s₁, has, h₁⟩ := runFrom_append_iff.mp h
  rw [runFrom_cons] at h₁
  obtain ⟨s₂, hwait, h₂⟩ := Option.bind_eq_some_iff.mp h₁
  obtain ⟨s₃, hrun, h₃⟩ := runFrom_append_iff.mp h₂
  rw [runFrom_cons] at h₃
  obtain ⟨s₄, haccess, h₄⟩ := Option.bind_eq_some_iff.mp h₃
  obtain ⟨s₅, hrun', h₅⟩ := runFrom_append_iff.mp h₄
  rw [runFrom_cons] at h₅
  obtain ⟨s₆, hnotify, h₆⟩ := Option.bind_eq_some_iff.mp h₅
  have hi : Inv data (as ++ .act (.wait g c) :: bs) s₃ :=
    run_inv (runFrom_append_iff.mpr ⟨s₁, has, by rw [runFrom_cons, hwait]; exact hrun⟩)
  have hblocked := (run_wait hwait hbs hrun).resolve_left (not_waiting hi haccess hm hne)
  have hlocks : s₄.locks = s₃.locks := by
    rw [step, Option.ite_none_right_eq_some] at haccess
    obtain ⟨d, -, rfl⟩ := Option.map_eq_some_iff.mp haccess.2
    rfl
  rw [← hlocks] at hblocked
  have hblocked := run_leads (P := fun p => p = .blocked c g.mutex false ∨ p.settled = true)
    (fun p q hp hq => hp.elim (fun hp => (hp ▸ hq).blocked) fun hp => .inr (hq.settled hp))
    hblocked hcs hrun'
  have hset := run_notifyAll hblocked hnotify hds h₆
  refine ⟨hset, fun c' m b hp ho => ?_⟩
  obtain rfl : b = true := by rwa [hp] at hset
  exact ⟨_, by rw [step, Locks.step, if_pos ⟨hp, ho, rfl⟩, Option.map_some]⟩

/-- `twoIncrements`, up to the point where the second thread unlocks: the first
has been notified before it is awake. -/
theorem no_lost_wakeup_twoIncrements :
    ∃ s : Shared Unit Nat, runFrom step (init fun _ _ => 0) (twoIncrements.take 12) = some s ∧
      (s.locks.phase 1).settled = true ∧
      ∀ c' m b, s.locks.phase 1 = .blocked c' m b → s.locks.owner m = none →
        ∃ s', s.step (.act (.wake 1 c' m b .notified)) = some s' := by
  have h : runFrom step (init fun _ _ => 0) (twoIncrements.take 12) = some _ := rfl
  refine ⟨_, h, no_lost_wakeup ⟨1, 0⟩ ⟨2, 0⟩ (.read () 1) 0 2 (twoIncrements.take 5)
    [.act (.block 1 0 0), .act (.lockReturns 2 0 0)] []
    [.access ⟨2, 0⟩ (.write () 2), .act (.drop ⟨2, 0⟩)] rfl (by decide) ?_ h⟩
  simp [KeepsOut]

end Shared

end PsPayload.Thread
