import PsPayload.Ps5.Thread.Mutex

/-!
# Guards and locks

A thread holds a mutex exactly while it has a live or a leaked guard of it, or
is in a `Condvar::wait` that has not given it up: `Locks.held` counts these,
and is 1 for the owner of the mutex and 0 for everybody else in every run
(`Inv`, `run_inv`). What guards promise follows (`guards_hold`).
-/

namespace PsPayload.Thread

open Lib

/-- The mutex that a thread holds without a guard, inside `Condvar::wait`. -/
def Phase.kept : Phase → Option Nat
  | .waiting _ m | .woken m _ => some m
  | .running | .locking _ | .blocked _ _ _ | .dropping _ _ => none

/-- The mutex that a thread has given up, inside `Condvar::wait`. -/
def Phase.given : Phase → Option Nat
  | .blocked _ m _ => some m
  | .running | .locking _ | .waiting _ _ | .woken _ _ | .dropping _ _ => none

/-- One for the guard `g₀`, and nothing for the others. -/
def one (g₀ g : MutexGuard) : Nat := if g = g₀ then 1 else 0

/-- One for the guard of a mutex that thread `t` counts for. -/
def claim (t : Nat) (g : MutexGuard) : Option Nat → Nat
  | some m => one ⟨t, m⟩ g
  | none => 0

theorem locked_zero (g : MutexGuard) : Mutex.locked g 0 = .ok g := rfl

theorem locked_ne {rc : Int32} (h : rc ≠ 0) (g : MutexGuard) :
    Mutex.locked g rc = .error (.os ⟨rc⟩) := by
  rw [Mutex.locked, cvtPthread, if_neg h]
  rfl

theorem waited_ne {rc : Int32} (h : rc ≠ 0) (g : MutexGuard) :
    Condvar.waited g rc = .error (.os ⟨rc⟩) := if_pos h

theorem claim_none {t : Nat} {g : MutexGuard} : claim t g none = 0 := rfl

theorem claim_some {t m : Nat} {g : MutexGuard} : claim t g (some m) = one ⟨t, m⟩ g := rfl

namespace Locks

variable {s s' : Locks} {g₀ : MutexGuard}

/-- The claims of a thread to a mutex. -/
def held (s : Locks) (g : MutexGuard) : Nat :=
  s.guards.count g + s.leaked.count g + claim g.thread g (s.phase g.thread).kept

/-- The guards that a thread will have back from a mutex it has given up. -/
def given (s : Locks) (g : MutexGuard) : Nat := claim g.thread g (s.phase g.thread).given

/-- Nobody but the owner of a mutex has a claim to it, and the owner has one. -/
def Fits (held : MutexGuard → Nat) (owner : Nat → Option Nat) : Prop :=
  ∀ g, held g = if owner g.mutex = some g.thread then 1 else 0

structure Inv (s : Locks) : Prop where
  held : Fits s.held s.owner
  blocked : ∀ t c m b, s.phase t = .blocked c m b → s.owner m ≠ some t
  dropping : ∀ t m rc, s.phase t = .dropping m rc → ⟨t, m⟩ ∈ s.guards ∧ rc ≠ 0
  unlocked : ∀ u ∈ s.unlocked, u.2 = true
  once : ∀ g, s.acquired.count g = (s.unlocked.map (·.1)).count g + s.held g + s.given g

theorem inv_init : Inv init where
  held g := by simp [held, init, Phase.kept, claim]
  blocked t c m b h := by cases h
  dropping t m rc h := by cases h
  unlocked u h := by cases h
  once g := by simp [held, given, init, Phase.kept, Phase.given, claim]

/-! ## What a step adds and takes -/

theorem count_cons (g₀ g : MutexGuard) (l : List MutexGuard) :
    (g₀ :: l).count g = l.count g + one g₀ g := by
  rw [List.count_cons, one]
  congr 1
  exact if_congr (by rw [beq_iff_eq, eq_comm]) rfl rfl

theorem count_erase {l : List MutexGuard} (h : g₀ ∈ l) (g : MutexGuard) :
    l.count g = (l.erase g₀).count g + one g₀ g := by
  rw [← count_cons]
  exact (List.perm_cons_erase h).count_eq g

/-- What the phase of thread `t` counts for goes, and what its new one counts
for comes. -/
theorem claim_update (k : Phase → Option Nat) (phase : Nat → Phase) (t : Nat) (p : Phase)
    (g : MutexGuard) :
    claim g.thread g (k (Function.update phase t p g.thread)) + claim t g (k (phase t)) =
      claim g.thread g (k (phase g.thread)) + claim t g (k p) := by
  by_cases h : g.thread = t
  · rw [h, Function.update_self, Nat.add_comm]
  · have hz (o : Option Nat) : claim t g o = 0 := by
      cases o with
      | none => rfl
      | some m =>
        refine if_neg fun hg => h ?_
        rw [hg]
    rw [Function.update_of_ne h, hz, hz]

section Fits

variable {held held' : MutexGuard → Nat} {owner : Nat → Option Nat} {t m : Nat}

theorem one_same (g : MutexGuard) : one ⟨t, g.mutex⟩ g = if t = g.thread then 1 else 0 := by
  rw [one]
  refine if_congr ⟨fun h => ?_, fun h => ?_⟩ rfl rfl
  · rw [h]
  · rw [h]

theorem one_other {g : MutexGuard} (h : g.mutex ≠ m) : one ⟨t, m⟩ g = 0 := by
  refine if_neg fun hg => h ?_
  rw [hg]

/-- A claim to a mutex that nobody holds makes its owner. -/
theorem Fits.take (hf : Fits held owner) (ho : owner m = none)
    (h : ∀ g, held' g = held g + one ⟨t, m⟩ g) : Fits held' (Function.update owner m (some t)) := by
  intro g
  have hg := hf g
  by_cases hm : g.mutex = m
  · subst hm
    rw [ho, if_neg (by simp)] at hg
    rw [h g, hg, one_same, Function.update_self, Nat.zero_add]
    simp only [Option.some.injEq]
  · rw [h g, one_other hm, Function.update_of_ne hm]
    exact hg

/-- The owner gives its claim up. -/
theorem Fits.give (hf : Fits held owner) (ho : owner m = some t)
    (h : ∀ g, held g = held' g + one ⟨t, m⟩ g) : Fits held' (Function.update owner m none) := by
  intro g
  have hg := hf g
  by_cases hm : g.mutex = m
  · subst hm
    rw [h g, ho, one_same] at hg
    simp only [Option.some.injEq] at hg
    rw [Function.update_self, if_neg (by simp)]
    omega
  · rw [h g, one_other hm] at hg
    rw [Function.update_of_ne hm]
    exact hg

/-- A claim makes the owner. -/
theorem Fits.owner_eq (hf : Fits held owner) {g : MutexGuard} (h : 0 < held g) :
    owner g.mutex = some g.thread := by
  by_contra hne
  rw [hf g, if_neg hne] at h
  exact absurd h (Nat.lt_irrefl 0)

end Fits

/-! ## One step -/

theorem owner_take {owner : Nat → Option Nat} {m t m' u : Nat} (hu : u ≠ t)
    (h : Function.update owner m (some t) m' = some u) : owner m' = some u := by
  rw [Function.update_apply] at h
  split at h
  · cases h
    exact absurd rfl hu
  · exact h

theorem owner_give {owner : Nat → Option Nat} {m m' u : Nat}
    (h : Function.update owner m none m' = some u) : owner m' = some u := by
  rw [Function.update_apply] at h
  split at h
  · cases h
  · exact h

theorem mem_erase_of_thread_ne {l : List MutexGuard} {g : MutexGuard} (hg : g ∈ l)
    (hne : g.thread ≠ g₀.thread) : g ∈ l.erase g₀ := by
  refine (List.mem_erase_of_ne fun h => hne ?_).mpr hg
  rw [h]

/-- What a step of thread `t`, which is in phase `p` after it, has made of the state. -/
structure Moves (s s' : Locks) (t : Nat) (p : Phase) (owner : Nat → Option Nat)
    (guards leaked acquired : List MutexGuard) (unlocked : List (MutexGuard × Bool)) : Prop where
  phase : s'.phase = Function.update s.phase t p
  owner : s'.owner = owner
  guards : s'.guards = guards
  leaked : s'.leaked = leaked
  acquired : s'.acquired = acquired
  unlocked : s'.unlocked = unlocked

section Moves

variable {t : Nat} {p : Phase} {owner : Nat → Option Nat} {guards leaked acquired : List MutexGuard}
  {unlocked : List (MutexGuard × Bool)}

theorem Moves.held (hm : Moves s s' t p owner guards leaked acquired unlocked) (g : MutexGuard) :
    s'.held g + (s.guards.count g + s.leaked.count g) + claim t g (s.phase t).kept =
      s.held g + (guards.count g + leaked.count g) + claim t g p.kept := by
  have := claim_update Phase.kept s.phase t p g
  rw [Locks.held, Locks.held, hm.phase, hm.guards, hm.leaked]
  omega

theorem Moves.given (hm : Moves s s' t p owner guards leaked acquired unlocked) (g : MutexGuard) :
    s'.given g + claim t g (s.phase t).given = s.given g + claim t g p.given := by
  have := claim_update Phase.given s.phase t p g
  rw [Locks.given, Locks.given, hm.phase]
  omega

/-- What the rest of the invariant asks of a step. -/
theorem Inv.next (hi : Inv s) (hm : Moves s s' t p owner guards leaked acquired unlocked)
    (hfits : Fits s'.held owner) (howner : ∀ u ≠ t, ∀ m, owner m = some u → s.owner m = some u)
    (hguards : ∀ g ∈ s.guards, g.thread ≠ t → g ∈ guards)
    (hblocked : ∀ c m b, p = .blocked c m b → owner m ≠ some t)
    (hdropping : ∀ m rc, p = .dropping m rc → ⟨t, m⟩ ∈ guards ∧ rc ≠ 0)
    (hunlocked : ∀ u ∈ unlocked, u.2 = true)
    (honce : ∀ g, acquired.count g = (unlocked.map (·.1)).count g + s'.held g + s'.given g) :
    Inv s' where
  held := by
    rw [hm.owner]
    exact hfits
  blocked u c m b hu := by
    rw [hm.phase, Function.update_apply] at hu
    rw [hm.owner]
    split at hu
    · rename_i h
      subst h
      exact hblocked c m b hu
    · rename_i h
      exact fun ho => hi.blocked u c m b hu (howner u h m ho)
  dropping u m rc hu := by
    rw [hm.phase, Function.update_apply] at hu
    rw [hm.guards]
    split at hu
    · rename_i h
      subst h
      exact hdropping m rc hu
    · rename_i h
      obtain ⟨hg, hrc⟩ := hi.dropping u m rc hu
      exact ⟨hguards _ hg h, hrc⟩
  unlocked := by
    rw [hm.unlocked]
    exact hunlocked
  once g := by
    rw [hm.acquired, hm.unlocked]
    exact honce g

/-- A step that leaves the owners, and everybody's claims, as they are. -/
theorem Inv.same (hi : Inv s) (hm : Moves s s' t p s.owner guards leaked s.acquired s.unlocked)
    (hclaims : ∀ g, guards.count g + leaked.count g + claim t g p.kept =
      s.guards.count g + s.leaked.count g + claim t g (s.phase t).kept)
    (hgiven : p.given = (s.phase t).given) (hguards : ∀ g ∈ s.guards, g.thread ≠ t → g ∈ guards)
    (hblocked : ∀ c m b, p ≠ .blocked c m b)
    (hdropping : ∀ m rc, p = .dropping m rc → ⟨t, m⟩ ∈ guards ∧ rc ≠ 0) : Inv s' := by
  have hheld (g : MutexGuard) : s'.held g = s.held g := by
    have := hm.held g
    have := hclaims g
    omega
  refine hi.next hm (fun g => ?_) (fun _ _ _ h => h) hguards
    (fun c m b h => absurd h (hblocked c m b)) hdropping hi.unlocked fun g => ?_
  · rw [hheld]
    exact hi.held g
  · have hg := hm.given g
    have := hi.once g
    rw [hgiven] at hg
    rw [hheld]
    omega

end Moves

/-- The guard of a thread that is dropped or forgotten was the owner's. -/
theorem Inv.owner_of_mem (hi : Inv s) (h : g₀ ∈ s.guards) : s.owner g₀.mutex = some g₀.thread := by
  have hpos : 0 < s.held g₀ := by
    have := List.count_pos_iff.mpr h
    rw [Locks.held]
    omega
  exact hi.held.owner_eq hpos

theorem Inv.owner_of_kept (hi : Inv s) {t m : Nat} (h : (s.phase t).kept = some m) :
    s.owner m = some t := by
  have hpos : 0 < s.held ⟨t, m⟩ := by
    show 0 < s.guards.count ⟨t, m⟩ + s.leaked.count ⟨t, m⟩ + claim t ⟨t, m⟩ (s.phase t).kept
    rw [h, claim, one, if_pos rfl]
    omega
  exact hi.held.owner_eq hpos

theorem dropGuard_eq (h : s.owner g₀.mutex = some g₀.thread) :
    s.dropGuard g₀ = { s.setOwner g₀.mutex none with
      guards := s.guards.erase g₀, unlocked := (g₀, true) :: s.unlocked } := by
  rw [dropGuard, decide_eq_true h]
  rfl

section Steps

variable {t m c : Nat} {rc : Int32}

/-- A thread goes from one phase to another in which it holds and waits for what
it did before. -/
theorem Inv.goto {p q : Phase} (hi : Inv s) (hp : s.phase t = q) (hk : p.kept = q.kept)
    (hv : p.given = q.given) (hb : ∀ c m b, p ≠ .blocked c m b)
    (hd : ∀ m rc, p ≠ .dropping m rc) : Inv (s.goto t p) := by
  subst hp
  have hm : Moves s (s.goto t p) t p s.owner s.guards s.leaked s.acquired s.unlocked :=
    ⟨rfl, rfl, rfl, rfl, rfl, rfl⟩
  refine hi.same hm (fun g => ?_) hv (fun _ h _ => h) hb fun m rc h => absurd h (hd m rc)
  rw [hk]

theorem inv_lock (hi : Inv s) (h : step s (.lock t m) = some s') : Inv s' := by
  rw [step, Option.ite_none_right_eq_some] at h
  obtain ⟨hp, h⟩ := h
  cases h
  exact hi.goto hp rfl rfl nofun nofun

theorem inv_lockReturns (hi : Inv s) (h : step s (.lockReturns t m rc) = some s') : Inv s' := by
  rw [step, Option.ite_none_right_eq_some] at h
  obtain ⟨⟨hp, ho⟩, h⟩ := h
  by_cases hrc : rc = 0
  · rw [hrc, locked_zero, Option.some.injEq] at h
    have hm : Moves s s' t .running (Function.update s.owner m (some t)) (⟨t, m⟩ :: s.guards)
        s.leaked (⟨t, m⟩ :: s.acquired) s.unlocked := by
      rw [← h]
      exact ⟨rfl, rfl, rfl, rfl, rfl, rfl⟩
    have hheld (g : MutexGuard) : s'.held g = s.held g + one ⟨t, m⟩ g := by
      have := hm.held g
      rw [count_cons, hp] at this
      simp only [Phase.kept, claim_none] at this
      omega
    refine hi.next hm (hi.held.take (ho hrc) hheld) (fun u hu m h => owner_take hu h)
      (fun g hg _ => List.mem_cons_of_mem _ hg) nofun nofun hi.unlocked fun g => ?_
    have hv := hm.given g
    have := hi.once g
    rw [hp] at hv
    simp only [Phase.given, claim_none] at hv
    rw [count_cons, hheld]
    omega
  · rw [locked_ne hrc] at h
    cases h
    exact hi.goto hp rfl rfl nofun nofun

/-- `Drop for MutexGuard`, in a thread that is outside `pthread_cond_wait`. -/
theorem Inv.drop {p : Phase} (hi : Inv s) (hg₀ : g₀ ∈ s.guards) (hp : s.phase g₀.thread = p)
    (hk : p.kept = none) (hv : p.given = none)
    (hm : Moves s s' g₀.thread .running (Function.update s.owner g₀.mutex none) (s.guards.erase g₀)
      s.leaked s.acquired ((g₀, true) :: s.unlocked)) : Inv s' := by
  have hheld (g : MutexGuard) : s.held g = s'.held g + one g₀ g := by
    have h := hm.held g
    have := count_erase hg₀ g
    rw [hp, hk] at h
    simp only [Phase.kept, claim_none] at h
    omega
  refine hi.next hm (hi.held.give (hi.owner_of_mem hg₀) hheld) (fun u _ m h => owner_give h)
    (fun g hg hne => mem_erase_of_thread_ne hg hne) nofun nofun (fun u hu => ?_) fun g => ?_
  · rcases List.mem_cons.mp hu with rfl | hu
    · rfl
    · exact hi.unlocked u hu
  · have h := hm.given g
    have := hi.once g
    have := hheld g
    rw [hp, hv] at h
    simp only [Phase.given, claim_none] at h
    rw [List.map_cons, count_cons]
    show _ = (s.unlocked.map (·.1)).count g + one g₀ g + _ + _
    omega

theorem inv_drop (hi : Inv s) (h : step s (.drop g₀) = some s') : Inv s' := by
  rw [step, Option.ite_none_right_eq_some] at h
  obtain ⟨⟨hp, hg₀⟩, h⟩ := h
  rw [dropGuard_eq (hi.owner_of_mem hg₀), Option.some.injEq] at h
  refine hi.drop hg₀ hp rfl rfl ?_
  rw [← h]
  refine ⟨?_, rfl, rfl, rfl, rfl, rfl⟩
  rw [← hp, Function.update_eq_self]
  rfl

theorem inv_dropLocal (hi : Inv s) (h : step s (.dropLocal t m rc) = some s') : Inv s' := by
  rw [step, Option.ite_none_right_eq_some] at h
  obtain ⟨hp, h⟩ := h
  have hg₀ := (hi.dropping t m rc hp).1
  rw [dropGuard_eq (hi.owner_of_mem hg₀), Option.some.injEq] at h
  refine hi.drop hg₀ hp rfl rfl ?_
  rw [← h]
  exact ⟨rfl, rfl, rfl, rfl, rfl, rfl⟩

theorem inv_leak (hi : Inv s) (h : step s (.leak g₀) = some s') : Inv s' := by
  rw [step, Option.ite_none_right_eq_some, Option.some.injEq] at h
  obtain ⟨⟨hp, hg₀⟩, h⟩ := h
  have hm : Moves s s' g₀.thread .running s.owner (s.guards.erase g₀) (g₀ :: s.leaked) s.acquired
      s.unlocked := by
    rw [← h]
    refine ⟨?_, rfl, rfl, rfl, rfl, rfl⟩
    rw [← hp, Function.update_eq_self]
  refine hi.same hm (fun g => ?_) ?_ (fun g hg hne => mem_erase_of_thread_ne hg hne) nofun nofun
  · have := count_erase hg₀ g
    rw [hp, count_cons]
    omega
  · rw [hp]

theorem inv_wait (hi : Inv s) (h : step s (.wait g₀ c) = some s') : Inv s' := by
  rw [step, Option.ite_none_right_eq_some, Option.some.injEq] at h
  obtain ⟨⟨hp, hg₀⟩, h⟩ := h
  have hm : Moves s s' g₀.thread (.waiting c g₀.mutex) s.owner (s.guards.erase g₀) s.leaked
      s.acquired s.unlocked := by
    rw [← h]
    exact ⟨rfl, rfl, rfl, rfl, rfl, rfl⟩
  refine hi.same hm (fun g => ?_) ?_ (fun g hg hne => mem_erase_of_thread_ne hg hne) nofun nofun
  · -- the guard goes, and the thread keeps the mutex
    have := count_erase hg₀ g
    rw [hp]
    show _ + one g₀ g = _ + 0
    omega
  · rw [hp]
    rfl

theorem inv_block (hi : Inv s) (h : step s (.block t c m) = some s') : Inv s' := by
  rw [step, Option.ite_none_right_eq_some, Option.some.injEq] at h
  obtain ⟨hp, h⟩ := h
  have hm : Moves s s' t (.blocked c m false) (Function.update s.owner m none) s.guards s.leaked
      s.acquired s.unlocked := by
    rw [← h]
    exact ⟨rfl, rfl, rfl, rfl, rfl, rfl⟩
  have ho : s.owner m = some t := by
    apply hi.owner_of_kept
    rw [hp]
    rfl
  have hheld (g : MutexGuard) : s.held g = s'.held g + one ⟨t, m⟩ g := by
    have h := hm.held g
    rw [hp] at h
    simp only [Phase.kept, claim_none, claim_some] at h
    omega
  refine hi.next hm (hi.held.give ho hheld) (fun u _ m h => owner_give h) (fun g hg _ => hg) ?_
    nofun hi.unlocked fun g => ?_
  · intro c' m' b h
    cases h
    rw [Function.update_self]
    nofun
  · have h := hm.given g
    have := hi.once g
    have := hheld g
    rw [hp] at h
    simp only [Phase.given, claim_none, claim_some] at h
    omega

theorem inv_wake {notified : Bool} {w : Wake} (hi : Inv s)
    (h : step s (.wake t c m notified w) = some s') : Inv s' := by
  rw [step, Option.ite_none_right_eq_some, Option.some.injEq] at h
  obtain ⟨⟨hp, ho, -⟩, h⟩ := h
  have hm : Moves s s' t (.woken m w.rc) (Function.update s.owner m (some t)) s.guards s.leaked
      s.acquired s.unlocked := by
    rw [← h]
    exact ⟨rfl, rfl, rfl, rfl, rfl, rfl⟩
  have hheld (g : MutexGuard) : s'.held g = s.held g + one ⟨t, m⟩ g := by
    have h := hm.held g
    rw [hp] at h
    simp only [Phase.kept, claim_none, claim_some] at h
    omega
  refine hi.next hm (hi.held.take ho hheld) (fun u hu m h => owner_take hu h) (fun g hg _ => hg)
    nofun nofun hi.unlocked fun g => ?_
  have h := hm.given g
  have := hi.once g
  rw [hp] at h
  simp only [Phase.given, claim_none, claim_some] at h
  rw [hheld]
  omega

theorem inv_refuse (hi : Inv s) (h : step s (.refuse t c m rc) = some s') : Inv s' := by
  rw [step, Option.ite_none_right_eq_some] at h
  obtain ⟨⟨hp, -⟩, h⟩ := h
  cases h
  exact hi.goto hp rfl rfl nofun nofun

/-- The guard is rebuilt. -/
theorem Inv.rebuild {p : Phase} (hi : Inv s) (hp : s.phase t = .woken m rc) (hk : p.kept = none)
    (hv : p.given = none) (hb : ∀ c m b, p ≠ .blocked c m b)
    (hd : ∀ m' rc, p = .dropping m' rc → m' = m ∧ rc ≠ 0)
    (hm : Moves s s' t p s.owner (⟨t, m⟩ :: s.guards) s.leaked s.acquired s.unlocked) : Inv s' := by
  refine hi.same hm (fun g => ?_) ?_ (fun g hg _ => List.mem_cons_of_mem _ hg) hb fun m' rc h => ?_
  · rw [hp, hk, count_cons]
    simp only [Phase.kept, claim_none, claim_some]
    omega
  · rw [hp, hv]
    rfl
  · obtain ⟨rfl, hrc⟩ := hd m' rc h
    exact ⟨List.mem_cons_self, hrc⟩

theorem inv_resume (hi : Inv s) (h : step s (.resume t m rc) = some s') : Inv s' := by
  rw [step, Option.ite_none_right_eq_some] at h
  obtain ⟨hp, h⟩ := h
  by_cases hrc : rc = 0
  · subst hrc
    cases h
    exact hi.rebuild (p := .running) hp rfl rfl nofun nofun ⟨rfl, rfl, rfl, rfl, rfl, rfl⟩
  · rw [waited_ne hrc] at h
    cases h
    refine hi.rebuild (p := .dropping m rc) hp rfl rfl nofun ?_ ⟨rfl, rfl, rfl, rfl, rfl, rfl⟩
    intro m' rc h
    cases h
    exact ⟨rfl, hrc⟩

theorem notify_kept (c : Nat) (p : Phase) : (p.notify c).kept = p.kept := by
  cases p <;> rfl

theorem notify_given (c : Nat) (p : Phase) : (p.notify c).given = p.given := by
  cases p <;> rfl

theorem of_notify_blocked {c c' m : Nat} {p : Phase} {b : Bool}
    (h : p.notify c = .blocked c' m b) : ∃ b', p = .blocked c' m b' := by
  cases p with
  | blocked c'' m' b' =>
    cases h
    exact ⟨b', rfl⟩
  | running => cases h
  | locking m' => cases h
  | waiting c'' m' => cases h
  | woken m' rc' => cases h
  | dropping m' rc' => cases h

theorem of_notify_dropping {c m : Nat} {p : Phase} {rc : Int32}
    (h : p.notify c = .dropping m rc) : p = .dropping m rc := by
  cases p with
  | dropping m' rc' => exact h
  | running => cases h
  | locking m' => cases h
  | waiting c' m' => cases h
  | blocked c' m' b => cases h
  | woken m' rc' => cases h

/-- A notification changes no claims. -/
theorem Inv.notify {phase : Nat → Phase} (hi : Inv s)
    (h : ∀ u, phase u = s.phase u ∨ phase u = (s.phase u).notify c) :
    Inv { s with phase := phase } := by
  have hkept (u : Nat) : (phase u).kept = (s.phase u).kept := by
    rcases h u with h | h
    · rw [h]
    · rw [h, notify_kept]
  have hgiven (u : Nat) : (phase u).given = (s.phase u).given := by
    rcases h u with h | h
    · rw [h]
    · rw [h, notify_given]
  have hheld (g : MutexGuard) : ({ s with phase := phase } : Locks).held g = s.held g := by
    rw [Locks.held, hkept]
    rfl
  refine ⟨fun g => ?_, fun u m c b hu => ?_, fun u m rc hu => ?_, hi.unlocked, fun g => ?_⟩
  · rw [hheld]
    exact hi.held g
  · rcases h u with h | h
    · exact hi.blocked u m c b (h.symm.trans hu)
    · obtain ⟨b', hb⟩ := of_notify_blocked (h.symm.trans hu)
      exact hi.blocked u m c b' hb
  · rcases h u with h | h
    · exact hi.dropping u m rc (h.symm.trans hu)
    · exact hi.dropping u m rc (of_notify_dropping (h.symm.trans hu))
  · rw [hheld, given, hgiven]
    exact hi.once g

theorem inv_notifyOne {u : Option Nat} (hi : Inv s) (h : step s (.notifyOne t c u) = some s') :
    Inv s' := by
  rw [step, Option.ite_none_right_eq_some] at h
  obtain ⟨-, h⟩ := h
  cases h
  refine hi.notify (c := c) fun v => ?_
  by_cases hv : u = some v
  · exact .inr (if_pos hv)
  · exact .inl (if_neg hv)

theorem inv_notifyAll (hi : Inv s) (h : step s (.notifyAll t c) = some s') : Inv s' := by
  rw [step, Option.ite_none_right_eq_some] at h
  obtain ⟨-, h⟩ := h
  cases h
  exact hi.notify (c := c) fun v => .inr rfl

end Steps

theorem inv_step {a : Act} (hi : Inv s) (h : step s a = some s') : Inv s' := by
  cases a with
  | lock t m => exact inv_lock hi h
  | lockReturns t m rc => exact inv_lockReturns hi h
  | drop g => exact inv_drop hi h
  | leak g => exact inv_leak hi h
  | wait g c => exact inv_wait hi h
  | block t c m => exact inv_block hi h
  | wake t c m notified w => exact inv_wake hi h
  | refuse t c m rc => exact inv_refuse hi h
  | resume t m rc => exact inv_resume hi h
  | dropLocal t m rc => exact inv_dropLocal hi h
  | notifyOne t c u => exact inv_notifyOne hi h
  | notifyAll t c => exact inv_notifyAll hi h

theorem run_inv {as : List Act} (h : runFrom step init as = some s) : Inv s :=
  invariant (I := fun _ s => Inv s) inv_init (fun _ _ _ _ _ hi h => inv_step hi h) h

/-! ## What guards promise -/

/-- `unlocked` says who called `pthread_mutex_unlock`, and `once` that every
acquisition has been unlocked once, or has its guard, live or leaked, or is in
a `Condvar::wait` that will bring the guard back. -/
structure GuardInvariant (s : Locks) : Prop where
  exclusive : ∀ m, (s.guards.filter (·.mutex = m)).length ≤ 1
  holder : ∀ g ∈ s.guards, s.owner g.mutex = some g.thread
  waiting : ∀ t m, (s.phase t).kept = some m → ⟨t, m⟩ ∉ s.guards
  blocked : ∀ t c m b, s.phase t = .blocked c m b → ⟨t, m⟩ ∉ s.guards ∧ s.owner m ≠ some t
  unlocked : ∀ u ∈ s.unlocked, u.2 = true
  once : ∀ g, s.acquired.count g = (s.unlocked.map (·.1)).count g + s.guards.count g +
    s.leaked.count g + claim g.thread g (s.phase g.thread).kept +
    claim g.thread g (s.phase g.thread).given

/-- What a `Condvar::wait` that was given the guard `g` has done when it returns. -/
def Returned (s s' : Locks) (g : MutexGuard) : Result MutexGuard → Prop
  | .ok g' => g' = g ∧ g ∈ s'.guards ∧ s'.owner g.mutex = some g.thread
  | .error _ => s'.unlocked = (g, true) :: s.unlocked ∧ g ∉ s'.guards ∧ s'.owner g.mutex = none

theorem Inv.guards_le_one (hi : Inv s) (m : Nat) : (s.guards.filter (·.mutex = m)).length ≤ 1 := by
  cases ho : s.owner m with
  | none =>
    have : s.guards.filter (·.mutex = m) = [] := by
      refine List.filter_eq_nil_iff.mpr fun g hg hm => ?_
      rw [decide_eq_true_eq] at hm
      have := hi.owner_of_mem hg
      rw [hm, ho] at this
      cases this
    rw [this]
    exact Nat.zero_le 1
  | some t =>
    -- all of them are the owner's, so they are all the same guard
    have heq : s.guards.filter (·.mutex = m) = s.guards.filter (· == ⟨t, m⟩) := by
      refine List.filter_congr fun g hg => ?_
      have := hi.owner_of_mem hg
      refine Bool.eq_iff_iff.mpr ⟨fun h => ?_, fun h => ?_⟩
      · rw [decide_eq_true_eq] at h
        rw [h, ho] at this
        cases this
        rw [← h, beq_iff_eq]
      · rw [beq_iff_eq] at h
        rw [h, decide_eq_true_eq]
    have hh := hi.held ⟨t, m⟩
    rw [Locks.held, if_pos ho] at hh
    rw [heq, ← List.countP_eq_length_filter]
    show s.guards.count ⟨t, m⟩ ≤ 1
    omega

theorem Inv.guardInvariant (hi : Inv s) : GuardInvariant s := by
  refine ⟨hi.guards_le_one, fun g hg => hi.owner_of_mem hg, fun t m hk hg => ?_,
    fun t c m b hp => ⟨fun hg => hi.blocked t c m b hp (hi.owner_of_mem hg), hi.blocked t c m b hp⟩,
    hi.unlocked, fun g => ?_⟩
  · have hh := hi.held ⟨t, m⟩
    have := List.count_pos_iff.mpr hg
    rw [Locks.held, if_pos (hi.owner_of_mem hg)] at hh
    simp only [hk, claim_some, one, if_pos] at hh
    omega
  · have := hi.once g
    rw [Locks.held, Locks.given] at this
    omega

theorem dropGuard_waits (s : Locks) (g : MutexGuard) : (s.dropGuard g).waits = s.waits := by
  show (if _ then s.setOwner g.mutex none else s).waits = s.waits
  split
  · rfl
  · rfl

/-- A wait returns from `resume`, or from `dropLocal` with an error. -/
theorem waits_step {a : Act} (h : step s a = some s') :
    s'.waits = s.waits ∨ (∃ t m, a = .resume t m 0) ∨ ∃ t m rc, a = .dropLocal t m rc := by
  cases a with
  | resume t m rc =>
    by_cases hrc : rc = 0
    · subst hrc
      exact .inr (.inl ⟨t, m, rfl⟩)
    · rw [step, Option.ite_none_right_eq_some] at h
      obtain ⟨-, h⟩ := h
      rw [waited_ne hrc] at h
      cases h
      exact .inl rfl
  | dropLocal t m rc => exact .inr (.inr ⟨t, m, rc, rfl⟩)
  | lockReturns t m rc =>
    rw [step, Option.ite_none_right_eq_some] at h
    obtain ⟨-, h⟩ := h
    by_cases hrc : rc = 0
    · rw [hrc, locked_zero] at h
      cases h
      exact .inl rfl
    · rw [locked_ne hrc] at h
      cases h
      exact .inl rfl
  | drop g =>
    rw [step, Option.ite_none_right_eq_some] at h
    obtain ⟨-, h⟩ := h
    cases h
    exact .inl (dropGuard_waits s g)
  | lock t m | leak g | wait g c | block t c m | wake t c m notified w | refuse t c m rc
  | notifyOne t c u | notifyAll t c =>
    rw [step, Option.ite_none_right_eq_some] at h
    obtain ⟨-, h⟩ := h
    cases h
    exact .inl rfl

theorem returned_resume {t m : Nat} {g : MutexGuard} {r : Result MutexGuard} (hi : Inv s)
    (h : step s (.resume t m 0) = some s') (hw : s'.waits = (g, r) :: s.waits) :
    Returned s s' g r := by
  have hi' := inv_step hi h
  rw [step, Option.ite_none_right_eq_some] at h
  obtain ⟨-, h⟩ := h
  cases h
  cases hw
  have hg : (⟨t, m⟩ : MutexGuard) ∈ (⟨t, m⟩ :: s.guards) := List.mem_cons_self
  exact ⟨rfl, hg, hi'.owner_of_mem hg⟩

theorem returned_dropLocal {t m : Nat} {rc : Int32} {g : MutexGuard} {r : Result MutexGuard}
    (hi : Inv s) (h : step s (.dropLocal t m rc) = some s') (hw : s'.waits = (g, r) :: s.waits) :
    Returned s s' g r := by
  have hi' := inv_step hi h
  rw [step, Option.ite_none_right_eq_some, Option.some.injEq] at h
  obtain ⟨hp, h⟩ := h
  obtain ⟨hg, hrc⟩ := hi.dropping t m rc hp
  rw [dropGuard_eq (hi.owner_of_mem hg), waited_ne hrc] at h
  have ho : s'.owner m = none := by
    rw [← h]
    exact Function.update_self m none s.owner
  have hu : s'.unlocked = (⟨t, m⟩, true) :: s.unlocked := by rw [← h]; rfl
  have hw' : s'.waits = (⟨t, m⟩, .error (.os ⟨rc⟩)) :: s.waits := by rw [← h]; rfl
  rw [hw', List.cons.injEq, Prod.mk.injEq] at hw
  obtain ⟨⟨rfl, rfl⟩, -⟩ := hw
  refine ⟨hu, fun hg => ?_, ho⟩
  have := hi'.owner_of_mem hg
  rw [ho] at this
  cases this

/-- In every run the guards tell who holds which mutex, a wait that returns
`Ok` brings its guard back with the mutex held, and one that returns `Err` has
released it. -/
theorem guards_hold (as : List Act) (h : runFrom step init as = some s) :
    GuardInvariant s ∧ ∀ a s' g r, step s a = some s' → s'.waits = (g, r) :: s.waits →
      Returned s s' g r := by
  have hi := run_inv h
  refine ⟨hi.guardInvariant, fun a s' g r ha hw => ?_⟩
  rcases waits_step ha with hs | ⟨t, m, rfl⟩ | ⟨t, m, rc, rfl⟩
  · rw [hs] at hw
    exact absurd hw List.ne_cons_self
  · exact returned_resume hi ha hw
  · exact returned_dropLocal hi ha hw

/-- Thread 1 waits, thread 2 locks, notifies it and unlocks, thread 1 has its
guard back and waits again, and `pthread_cond_wait` fails. -/
def failedWait : List Act :=
  [.lock 1 0, .lockReturns 1 0 0, .wait ⟨1, 0⟩ 0, .lock 2 0, .block 1 0 0, .lockReturns 2 0 0,
    .notifyOne 2 0 (some 1), .drop ⟨2, 0⟩, .wake 1 0 0 true .notified, .resume 1 0 0,
    .wait ⟨1, 0⟩ 0, .block 1 0 0, .wake 1 0 0 false (.failed 22), .resume 1 0 22]

theorem guards_hold_failedWait :
    ∃ s s', runFrom step init failedWait = some s ∧ GuardInvariant s ∧
      s.waits = [(⟨1, 0⟩, .ok ⟨1, 0⟩)] ∧ step s (.dropLocal 1 0 22) = some s' ∧
        Returned s s' ⟨1, 0⟩ (.error (.os ⟨22⟩)) :=
  ⟨_, _, rfl, (guards_hold failedWait rfl).1, rfl, rfl,
    (guards_hold failedWait rfl).2 (.dropLocal 1 0 22) _ _ _ rfl rfl⟩

end Locks

end PsPayload.Thread
