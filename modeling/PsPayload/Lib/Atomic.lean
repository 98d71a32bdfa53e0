import Mathlib.Logic.Relation
import PsPayload.Lib.Parallel
import PsPayload.Lib.Refinement

/-!
# Calls that take effect at once

The calls of threads stand for programs, and the calls that these make come in any
order. A program is `Atomic` if it does what the call it stands for does at one moment
between its first call and its end, whatever the others do in the meantime; to those
who see the environment through `abs` nothing happens at its other calls.

`Layer.step` runs threads whose calls are programs, and `Layer.Turn` threads whose
calls take effect at one moment between the call and its return. Both note in
`history` when a call is made and when it returns. Where all programs are atomic, each
run of the first is mirrored by one of the second with the same history
(`mirrors_run`): the calls are linearisable.
-/

namespace Lib.Prog

variable {κ κ' ρ ρ' σ α ω ω' : Type}

/-- What is left of a call that has taken effect: it returns `a`. -/
def returned (a : ρ) (s : ω) (b : ρ) (s' : ω) : Prop := b = a ∧ s' = s

/-- A step of the call: nothing to be seen, or the effect. -/
def Progress (owed owed' : ω → ρ → ω → Prop) (s s' : ω) : Prop :=
  owed' = owed ∧ s' = s ∨ ∃ a, owed s a s' ∧ owed' = returned a

/-- The program does what is `owed` at one moment of its run, while others do what
`R` allows. -/
def Atomic (answer : ω' → κ' → ρ' → Option ω') (R G : ω' → ω' → Prop) (abs : ω' → ω) :
    Prog κ' ρ' σ ρ → (ω → ρ → ω → Prop) → ω' → Prop
  | done a, owed, w => ∀ v, R w v → owed (abs v) a (abs v)
  | call c k, owed, w =>
    ∀ v, R w v → (∃ r, (answer v c r).isSome) ∧ ∀ r u, answer v c r = some u →
      G v u ∧ ∃ owed', Progress owed owed' (abs v) (abs u) ∧ (k r).Atomic answer R G abs owed' u
  | loop c next exit x, owed, w =>
    ∃ J : ω' → σ → Prop, J w x ∧ (∀ w v y, J w y → R w v → J v y) ∧
      ∀ w y, J w y → (∃ r, (answer w c r).isSome) ∧ ∀ r u, answer w c r = some u → G w u ∧
        (∀ z, next y r = some z → abs u = abs w ∧ J u z) ∧
        (next y r = none → ∃ owed', Progress owed owed' (abs w) (abs u) ∧
          (exit y r).Atomic answer R G abs owed' u)

section Atomic

variable {answer : ω' → κ' → ρ' → Option ω'} {R G : ω' → ω' → Prop} {abs : ω' → ω}
  {p : Prog κ' ρ' σ ρ} {owed : ω → ρ → ω → Prop} {w v : ω'} {c : κ'}

/-- A call at which nothing is to be seen, or which is the effect. -/
theorem atomic_next {k : ρ' → Prog κ' ρ' σ ρ} (h : ∀ v, R w v → (∃ r, (answer v c r).isSome) ∧
    ∀ r u, answer v c r = some u → G v u ∧
      (abs u = abs v ∧ (k r).Atomic answer R G abs owed u ∨
        ∃ a, owed (abs v) a (abs u) ∧ (k r).Atomic answer R G abs (returned a) u)) :
    (call c k).Atomic answer R G abs owed w := by
  refine fun v hv => ⟨(h v hv).1, fun r u hu => ?_⟩
  obtain ⟨hg, ⟨habs, hk⟩ | ⟨a, ha, hk⟩⟩ := (h v hv).2 r u hu
  · exact ⟨hg, owed, .inl ⟨rfl, habs⟩, hk⟩
  · exact ⟨hg, returned a, .inr ⟨a, ha, rfl⟩, hk⟩

theorem atomic_returned (a : ρ) (w : ω') :
    (done a : Prog κ' ρ' σ ρ).Atomic answer R G abs (returned a) w :=
  fun _ _ => ⟨rfl, rfl⟩

/-- A program that makes one call, which is the effect. -/
theorem atomic_call {k : ρ' → ρ} (h : ∀ v, R w v → (∃ r, (answer v c r).isSome) ∧
    ∀ r u, answer v c r = some u → G v u ∧ owed (abs v) (k r) (abs u)) :
    (call c fun r => done (k r) : Prog κ' ρ' σ ρ).Atomic answer R G abs owed w := by
  refine atomic_next fun v hv => ⟨(h v hv).1, fun r u hu => ?_⟩
  obtain ⟨hg, ho⟩ := (h v hv).2 r u hu
  exact ⟨hg, .inr ⟨k r, ho, atomic_returned (k r) u⟩⟩

theorem atomic_rely (hT : ∀ u v w, R u v → R v w → R u w) (h : p.Atomic answer R G abs owed w)
    (hv : R w v) : p.Atomic answer R G abs owed v := by
  cases p with
  | done a => exact fun u hu => h u (hT _ _ _ hv hu)
  | call c k => exact fun u hu => h u (hT _ _ _ hv hu)
  | loop c next exit x =>
    obtain ⟨J, hJ, hR, h⟩ := h
    exact ⟨J, hR w v x hJ hv, hR, h⟩

/-- A call of the program, when it is made. -/
theorem atomic_pending (hR : ∀ w, R w w) (h : p.Atomic answer R G abs owed w)
    (hc : p.pending = some c) :
    (∃ r, (answer w c r).isSome) ∧ ∀ r u, answer w c r = some u → G w u ∧
      ∃ owed', Progress owed owed' (abs w) (abs u) ∧
        (p.resume r).Atomic answer R G abs owed' u := by
  cases p with
  | done a => cases hc
  | call c' k =>
    cases hc
    exact h w (hR w)
  | loop c' next exit x =>
    cases hc
    obtain ⟨J, hJ, hJR, h⟩ := h
    refine ⟨(h w x hJ).1, fun r u hu => ?_⟩
    obtain ⟨hg, hz, he⟩ := (h w x hJ).2 r u hu
    refine ⟨hg, ?_⟩
    rw [resume]
    cases hn : next x r with
    | none => exact he hn
    | some z =>
      obtain ⟨habs, hJz⟩ := hz z hn
      exact ⟨owed, .inl ⟨rfl, habs⟩, J, hJz, hJR, h⟩

end Atomic

/-! ## Threads -/

/-- Thread `i` makes a call, or its call returns. -/
inductive Event (ι κ ρ : Type) where
  | call (i : ι) (c : κ)
  | ret (i : ι) (a : ρ)
  deriving DecidableEq

/-- Where a thread is: between two calls, or in a call of which `d` is left. -/
inductive Place (κ ρ δ β : Type) where
  | idle (p : Prog κ ρ Empty β)
  | busy (d : δ) (k : ρ → Prog κ ρ Empty β)

/-- Two threads are at the same place, with what is left as `R` says. -/
inductive Place.Rel {κ ρ δ δ' β : Type} (R : δ → δ' → Prop) : Place κ ρ δ β → Place κ ρ δ' β → Prop
  | idle (p : Prog κ ρ Empty β) : Rel R (idle p) (idle p)
  | busy {d : δ} {d' : δ'} (k : ρ → Prog κ ρ Empty β) (h : R d d') : Rel R (busy d k) (busy d' k)

theorem Place.Rel.mono {κ ρ δ δ' β : Type} {R R' : δ → δ' → Prop} {a : Place κ ρ δ β}
    {b : Place κ ρ δ' β} (hR : ∀ d d', R d d' → R' d d') (h : Rel R a b) : Rel R' a b := by
  cases h with
  | idle p => exact .idle p
  | busy k h => exact .busy k (hR _ _ h)

/-- Threads in an environment, and what has been seen of their calls. -/
structure System (ι κ ρ ω δ : Type) (τ : ι → Type) where
  env : ω
  threads : (i : ι) → Place κ ρ δ (τ i)
  history : List (Event ι κ ρ)

namespace System

variable {ι δ β : Type} {τ : ι → Type}

/-- No thread has made a call. -/
def start (w : ω) (p : (i : ι) → Prog κ ρ Empty (τ i)) : System ι κ ρ ω δ τ where
  env := w
  threads i := .idle (p i)
  history := []

variable [DecidableEq ι] {s : System ι κ ρ ω δ τ} {i : ι} {w : ω} {d : δ}
  {k : ρ → Prog κ ρ Empty (τ i)}

/-- Thread `i` has made the call `c`. -/
def enter (s : System ι κ ρ ω δ τ) (i : ι) (c : κ) (d : δ) (k : ρ → Prog κ ρ Empty (τ i)) :
    System ι κ ρ ω δ τ :=
  { s with threads := Function.update s.threads i (.busy d k), history := s.history ++ [.call i c] }

/-- Its call has gone on. -/
def go (s : System ι κ ρ ω δ τ) (i : ι) (w : ω) (d : δ) (k : ρ → Prog κ ρ Empty (τ i)) :
    System ι κ ρ ω δ τ :=
  { s with env := w, threads := Function.update s.threads i (.busy d k) }

/-- Its call has returned `a`. -/
def leave (s : System ι κ ρ ω δ τ) (i : ι) (a : ρ) (p : Prog κ ρ Empty (τ i)) :
    System ι κ ρ ω δ τ :=
  { s with threads := Function.update s.threads i (.idle p), history := s.history ++ [.ret i a] }

theorem go_self (hi : s.threads i = .busy d k) : s.go i s.env d k = s := by
  rw [go, ← hi, Function.update_eq_self]

@[simp] theorem go_threads_self : (s.go i w d k).threads i = .busy d k := Function.update_self ..

theorem leave_go (a : ρ) (p : Prog κ ρ Empty (τ i)) :
    (s.go i s.env d k).leave i a p = s.leave i a p := by
  rw [leave, go, Function.update_idem, leave]

end System

/-- What thread `i` does next: it makes a call, a call of the program of its call is
answered, or its call returns. -/
inductive Move (ι ρ' : Type) where
  | call (i : ι)
  | answer (i : ι) (r : ρ')
  | ret (i : ι)

def Move.thread {ι : Type} : Move ι ρ' → ι
  | call i | answer i _ | ret i => i

/-- What is left of a call that takes effect at one moment: all of it, or to return `a`. -/
inductive Stage (κ ρ : Type) where
  | waiting (c : κ)
  | returning (a : ρ)

/-! ## Layers -/

/-- The calls `κ` of threads, in an environment `ω`, and the programs in `ω'` that
they stand for. -/
structure Layer (ι κ ρ ω κ' ρ' ω' σ : Type) where
  /-- What a call of a thread does. -/
  does : ι → κ → ω → ρ → ω → Prop
  answer : ι → ω' → κ' → ρ' → Option ω'
  rely : ι → ω' → ω' → Prop
  guarantee : ι → ω' → ω' → Prop
  abs : ω' → ω
  impl : κ → Prog κ' ρ' σ ρ

namespace Layer

variable {ι : Type} {τ : ι → Type} {L : Layer ι κ ρ ω κ' ρ' ω' σ} {I : ω' → Prop} {w : ω'} {i : ι}

/-- The programs are atomic, and keep an invariant `I`. -/
structure Lawful (L : Layer ι κ ρ ω κ' ρ' ω' σ) (I : ω' → Prop) : Prop where
  compatible : Compatible L.rely L.guarantee
  keeps : ∀ {i w v}, I w → L.guarantee i w v → I v
  atomic : ∀ i c w, I w →
    (L.impl c).Atomic (L.answer i) (L.rely i) (L.guarantee i) L.abs (L.does i c) w

variable [DecidableEq ι]

/-- Threads whose calls are programs. -/
def step (L : Layer ι κ ρ ω κ' ρ' ω' σ) (s : System ι κ ρ ω' (Prog κ' ρ' σ ρ) τ) :
    Move ι ρ' → Option (System ι κ ρ ω' (Prog κ' ρ' σ ρ) τ)
  | .call i =>
    match s.threads i with
    | .idle p => p.pending.map fun c => s.enter i c (L.impl c) p.resume
    | .busy _ _ => none
  | .answer i r =>
    match s.threads i with
    | .idle _ => none
    | .busy x k => x.pending.bind fun c =>
      (L.answer i s.env c r).map fun w => s.go i w (x.resume r) k
  | .ret i =>
    match s.threads i with
    | .idle _ => none
    | .busy x k => x.result.map fun a => s.leave i a (k a)

/-- Threads whose calls take effect at one moment: a thread makes a call, its call takes
effect, or returns. -/
inductive Turn (L : Layer ι κ ρ ω κ' ρ' ω' σ) :
    System ι κ ρ ω (Stage κ ρ) τ → System ι κ ρ ω (Stage κ ρ) τ → Prop
  | call {s : System ι κ ρ ω (Stage κ ρ) τ} {i : ι} {p : Prog κ ρ Empty (τ i)} {c : κ}
      (hi : s.threads i = .idle p) (hp : p.pending = some c) :
      Turn L s (s.enter i c (.waiting c) p.resume)
  | effect {s : System ι κ ρ ω (Stage κ ρ) τ} {i : ι} {c : κ} {k : ρ → Prog κ ρ Empty (τ i)}
      {a : ρ} {w : ω} (hi : s.threads i = .busy (.waiting c) k) (h : L.does i c s.env a w) :
      Turn L s (s.go i w (.returning a) k)
  | ret {s : System ι κ ρ ω (Stage κ ρ) τ} {i : ι} {a : ρ} {k : ρ → Prog κ ρ Empty (τ i)}
      (hi : s.threads i = .busy (.returning a) k) : Turn L s (s.leave i a (k a))

/-- Any number of turns. -/
def Turns (L : Layer ι κ ρ ω κ' ρ' ω' σ) :
    System ι κ ρ ω (Stage κ ρ) τ → System ι κ ρ ω (Stage κ ρ) τ → Prop :=
  Relation.ReflTransGen L.Turn

/-! ### Mirroring -/

/-- What a call still does. -/
def owed (L : Layer ι κ ρ ω κ' ρ' ω' σ) (i : ι) : Stage κ ρ → ω → ρ → ω → Prop
  | .waiting c => L.does i c
  | .returning a => returned a

/-- What is left of the program does what is left of the call. -/
def Follows (L : Layer ι κ ρ ω κ' ρ' ω' σ) (i : ι) (w : ω') (x : Prog κ' ρ' σ ρ)
    (d : Stage κ ρ) : Prop :=
  x.Atomic (L.answer i) (L.rely i) (L.guarantee i) L.abs (L.owed i d) w

structure Mirrors (L : Layer ι κ ρ ω κ' ρ' ω' σ) (s : System ι κ ρ ω' (Prog κ' ρ' σ ρ) τ)
    (t : System ι κ ρ ω (Stage κ ρ) τ) : Prop where
  env : t.env = L.abs s.env
  history : t.history = s.history
  threads : ∀ i, (s.threads i).Rel (L.Follows i s.env) (t.threads i)

variable {s u : System ι κ ρ ω' (Prog κ' ρ' σ ρ) τ} {t : System ι κ ρ ω (Stage κ ρ) τ}
  {x : Prog κ' ρ' σ ρ} {d : Stage κ ρ} {k : ρ → Prog κ ρ Empty (τ i)}

omit [DecidableEq ι] in
theorem mirrors_start (L : Layer ι κ ρ ω κ' ρ' ω' σ) (w : ω') (p : (i : ι) → Prog κ ρ Empty (τ i)) :
    L.Mirrors (.start w p) (.start (L.abs w) p) :=
  ⟨rfl, rfl, fun i => .idle (p i)⟩

omit [DecidableEq ι] in
/-- The threads that are between two calls are the same ones. -/
theorem Mirrors.idle_iff (h : L.Mirrors s t) {p : Prog κ ρ Empty (τ i)} :
    t.threads i = .idle p ↔ s.threads i = .idle p := by
  have hi := h.threads i
  revert hi
  cases s.threads i <;> cases t.threads i <;> rintro (_ | _) <;> simp

omit [DecidableEq ι] in
/-- What is left of the call of a thread. -/
theorem Mirrors.exists_stage (h : L.Mirrors s t) (hi : s.threads i = .busy x k) :
    ∃ d, t.threads i = .busy d k ∧ L.Follows i s.env x d := by
  have hrel := h.threads i
  rw [hi] at hrel
  generalize t.threads i = b at hrel
  cases hrel with
  | busy _ hx => exact ⟨_, rfl, hx⟩

theorem Mirrors.update {f : (i : ι) → Place κ ρ (Prog κ' ρ' σ ρ) (τ i)}
    {g : (i : ι) → Place κ ρ (Stage κ ρ) (τ i)} {a : Place κ ρ (Prog κ' ρ' σ ρ) (τ i)}
    {b : Place κ ρ (Stage κ ρ) (τ i)} (h : ∀ j, j ≠ i → (f j).Rel (L.Follows j w) (g j))
    (hi : a.Rel (L.Follows i w) b) (j : ι) :
    (Function.update f i a j).Rel (L.Follows j w) (Function.update g i b j) := by
  by_cases hj : j = i
  · subst hj
    rw [Function.update_self, Function.update_self]
    exact hi
  · rw [Function.update_of_ne hj, Function.update_of_ne hj]
    exact h j hj

theorem Mirrors.enter (h : L.Mirrors s t) (c : κ) (hx : L.Follows i s.env x d) :
    L.Mirrors (s.enter i c x k) (t.enter i c d k) :=
  ⟨h.env, congrArg (· ++ _) h.history, update (fun j _ => h.threads j) (.busy k hx)⟩

theorem Mirrors.leave (h : L.Mirrors s t) (a : ρ) (p : Prog κ ρ Empty (τ i)) :
    L.Mirrors (s.leave i a p) (t.leave i a p) :=
  ⟨h.env, congrArg (· ++ _) h.history, update (fun j _ => h.threads j) (.idle p)⟩

/-- The other threads rely on what a thread guarantees. -/
theorem Mirrors.go (hL : L.Lawful I) (h : L.Mirrors s t) (hg : L.guarantee i s.env w)
    (hx : L.Follows i w x d) : L.Mirrors (s.go i w x k) (t.go i (L.abs w) d k) := by
  refine ⟨rfl, h.history, update (fun j hj => (h.threads j).mono fun y e hy => ?_) (.busy k hx)⟩
  exact atomic_rely (hL.compatible.trans j) hy (hL.compatible.rely i j (Ne.symm hj) _ _ hg)

/-- A call that has not taken effect does so. -/
theorem turns_returning (hi : t.threads i = .busy d k) {a : ρ} {v : ω} (h : L.owed i d t.env a v) :
    L.Turns t (t.go i v (.returning a) k) := by
  cases d with
  | waiting c => exact .single (.effect hi h)
  | returning b =>
    obtain ⟨rfl, rfl⟩ := h
    rw [System.go_self hi]
    exact .refl

theorem Mirrors.step (hL : L.Lawful I) (hs : I s.env) (h : L.Mirrors s t) {m : Move ι ρ'}
    (hu : L.step s m = some u) : I u.env ∧ ∃ v, L.Turns t v ∧ L.Mirrors u v := by
  cases m with
  | call i =>
    rw [Layer.step] at hu
    cases hp : s.threads i with
    | busy x k => simp only [hp, reduceCtorEq] at hu
    | idle p =>
      simp only [hp] at hu
      obtain ⟨c, hc, rfl⟩ := Option.map_eq_some_iff.mp hu
      exact ⟨hs, _, .single (.call (h.idle_iff.mpr hp) hc), h.enter c (hL.atomic i c s.env hs)⟩
  | answer i r =>
    rw [Layer.step] at hu
    cases hp : s.threads i with
    | idle p => simp only [hp, reduceCtorEq] at hu
    | busy x k =>
      simp only [hp] at hu
      obtain ⟨c, hc, hu⟩ := Option.bind_eq_some_iff.mp hu
      obtain ⟨w, hw, rfl⟩ := Option.map_eq_some_iff.mp hu
      obtain ⟨d, hd, hx⟩ := h.exists_stage hp
      obtain ⟨hg, owed, hprog, hx'⟩ := (atomic_pending (hL.compatible.refl i) hx hc).2 r w hw
      refine ⟨hL.keeps hs hg, ?_⟩
      rcases hprog with ⟨rfl, habs⟩ | ⟨a, ha, rfl⟩
      · refine ⟨t, .refl, ?_⟩
        have hgo := Mirrors.go (k := k) hL h hg hx'
        rwa [habs, ← h.env, System.go_self hd] at hgo
      · exact ⟨_, turns_returning hd (h.env ▸ ha), Mirrors.go (d := .returning a) hL h hg hx'⟩
  | ret i =>
    rw [Layer.step] at hu
    cases hp : s.threads i with
    | idle p => simp only [hp, reduceCtorEq] at hu
    | busy x k =>
      simp only [hp] at hu
      obtain ⟨a, ha, rfl⟩ := Option.map_eq_some_iff.mp hu
      obtain ⟨d, hd, hx⟩ := h.exists_stage hp
      obtain rfl := eq_done_of_result ha
      have howed : L.owed i d t.env a t.env := by
        rw [h.env]
        exact hx s.env (hL.compatible.refl i s.env)
      refine ⟨hs, _, .tail (turns_returning hd howed) (.ret System.go_threads_self), ?_⟩
      rw [System.leave_go]
      exact h.leave a (k a)

/-- Every run of the threads has the history of one in which each call takes effect at
one moment. -/
theorem Lawful.mirrors_run (hL : L.Lawful I) (hw : I w) {p : (i : ι) → Prog κ ρ Empty (τ i)}
    {ms : List (Move ι ρ')} (h : runFrom L.step (.start w p) ms = some s) :
    I s.env ∧ ∃ t, L.Turns (.start (L.abs w) p) t ∧ L.Mirrors s t := by
  refine invariant (I := fun _ s => I s.env ∧ ∃ t, L.Turns (.start (L.abs w) p) t ∧ L.Mirrors s t)
    ⟨hw, _, .refl, mirrors_start L w p⟩ ?_ h
  rintro ms m s u - ⟨hs, t, ht, hm⟩ hu
  obtain ⟨hu, v, hv, hm⟩ := hm.step hL hs hu
  exact ⟨hu, v, ht.trans hv, hm⟩

/-- No thread is stuck. -/
theorem Mirrors.progress (hL : L.Lawful I) (h : L.Mirrors s t)
    (hi : ∀ a, s.threads i ≠ .idle (.done a)) : ∃ m, m.thread = i ∧ (L.step s m).isSome := by
  cases hp : s.threads i with
  | idle p =>
    cases hc : p.pending with
    | none =>
      obtain ⟨a, rfl⟩ := eq_done_of_pending hc
      exact absurd hp (hi a)
    | some c => exact ⟨.call i, rfl, by simp only [Layer.step, hp, hc]; rfl⟩
  | busy x k =>
    cases hc : x.pending with
    | none =>
      obtain ⟨a, rfl⟩ := eq_done_of_pending hc
      exact ⟨.ret i, rfl, by simp only [Layer.step, hp]; rfl⟩
    | some c =>
      obtain ⟨d, -, hx⟩ := h.exists_stage hp
      obtain ⟨r, hr⟩ := (atomic_pending (hL.compatible.refl i) hx hc).1
      refine ⟨.answer i r, rfl, ?_⟩
      simp only [Layer.step, hp, hc, Option.bind_some, Option.isSome_map]
      exact hr

end Layer

end Lib.Prog
