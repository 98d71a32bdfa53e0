import PsPayload.Lib.Program
import PsPayload.Lib.Transition

/-!
# Programs in an environment

What a call returns depends on the state of the environment: `answer w c r` is
the state after the call `c`, made in the state `w`, has returned `r`, where it
can return that. A run of a program is a run of the transition system `step`.

`Returns` says of a program that all its runs end, within a number of calls,
and how. `Within` is the same by recursion over the program, with an invariant
for each loop, and `Within.returns` leads from one to the other. `answers` is
the environment that has one answer to each call.
-/

namespace Lib.Prog

variable {κ ρ σ α β ω : Type}

/-- A call and its answer. -/
def step (answer : ω → κ → ρ → Option ω) (s : ω × Prog κ ρ σ α) (r : ρ) :
    Option (ω × Prog κ ρ σ α) :=
  s.2.pending.bind fun c => (answer s.1 c r).map fun w => (w, s.2.resume r)

/-- Every run from `w` goes on until it ends, after at most `n` calls, as `Q` says. -/
def Returns (answer : ω → κ → ρ → Option ω) (Q : ω → α → Prop) (p : Prog κ ρ σ α) (n : Nat)
    (w : ω) : Prop :=
  ∀ rs s, runFrom (step answer) (w, p) rs = some s →
    rs.length ≤ n ∧ (s.2.result = none → ∃ r, (step answer s r).isSome) ∧
      ∀ a, s.2.result = some a → Q s.1 a

/-- The program ends as `Q` says when it is run from `w`, and has `n` calls for
that. A loop is described by an invariant `J` of the calls that are left, the
environment and its state. -/
def Within (answer : ω → κ → ρ → Option ω) (Q : ω → α → Prop) :
    Prog κ ρ σ α → Nat → ω → Prop
  | done a, _, w => Q w a
  | call c k, n, w =>
    ∃ m, n = m + 1 ∧ (∃ r, (answer w c r).isSome) ∧
      ∀ r v, answer w c r = some v → (k r).Within answer Q m v
  | loop c next exit x, n, w =>
    ∃ J : Nat → ω → σ → Prop, J n w x ∧ ∀ n w y, J n w y →
      ∃ m, n = m + 1 ∧ (∃ r, (answer w c r).isSome) ∧
        ∀ r v, answer w c r = some v →
          (∀ z, next y r = some z → J m v z) ∧
          (next y r = none → (exit y r).Within answer Q m v)

section Within

variable {answer : ω → κ → ρ → Option ω} {Q Q' : ω → α → Prop} {p : Prog κ ρ σ α} {n m : Nat}
  {w : ω} {c : κ}

theorem within_call {k : ρ → Prog κ ρ σ α} (hc : ∃ r, (answer w c r).isSome)
    (h : ∀ r v, answer w c r = some v → (k r).Within answer Q n v) :
    (call c k).Within answer Q (n + 1) w :=
  ⟨n, rfl, hc, h⟩

theorem within_loop {next : σ → ρ → Option σ} {exit : σ → ρ → Prog κ ρ σ α} {x : σ}
    (J : Nat → ω → σ → Prop) (hx : J n w x)
    (hc : ∀ n w y, J n w y → ∃ r, (answer w c r).isSome)
    (h : ∀ n w y, J n w y → ∃ m, n = m + 1 ∧ ∀ r v, answer w c r = some v →
      (∀ z, next y r = some z → J m v z) ∧
      (next y r = none → (exit y r).Within answer Q m v)) :
    (loop c next exit x).Within answer Q n w := by
  refine ⟨J, hx, fun n w y hy => ?_⟩
  obtain ⟨m, rfl, hm⟩ := h n w y hy
  exact ⟨m, rfl, hc _ w y hy, hm⟩

theorem within_mono (hQ : ∀ w a, Q w a → Q' w a) (hn : n ≤ m) (h : p.Within answer Q n w) :
    p.Within answer Q' m w := by
  induction p generalizing n m w with
  | done a => exact hQ w a h
  | call c k ih =>
    obtain ⟨n, rfl, hc, h⟩ := h
    obtain ⟨m, rfl⟩ : ∃ k, m = k + 1 := ⟨m - 1, by omega⟩
    exact ⟨m, rfl, hc, fun r v hv => ih r (by omega) (h r v hv)⟩
  | loop c next exit x ih =>
    obtain ⟨J, hJ, h⟩ := h
    refine ⟨fun m w y => ∃ n ≤ m, J n w y, ⟨n, hn, hJ⟩, fun m w y ⟨n, hn, hy⟩ => ?_⟩
    obtain ⟨n, rfl, hc, h⟩ := h n w y hy
    obtain ⟨m, rfl⟩ : ∃ k, m = k + 1 := ⟨m - 1, by omega⟩
    refine ⟨m, rfl, hc, fun r v hv => ?_⟩
    obtain ⟨hz, he⟩ := h r v hv
    exact ⟨fun z hn => ⟨n, by omega, hz z hn⟩, fun hn => ih y r (by omega) (he hn)⟩

theorem within_post (hQ : ∀ w a, Q w a → Q' w a) (h : p.Within answer Q n w) :
    p.Within answer Q' n w :=
  within_mono hQ (Nat.le_refl n) h

theorem within_le (hn : n ≤ m) (h : p.Within answer Q n w) : p.Within answer Q m w :=
  within_mono (fun _ _ h => h) hn h

/-- One program after the other. The first leaves `m` calls. -/
theorem within_bind {f : α → Prog κ ρ σ β} {Q : ω → β → Prop}
    (h : p.Within answer (fun w a => (f a).Within answer Q m w) n w) :
    (p.bind f).Within answer Q (n + m) w := by
  induction p generalizing n w with
  | done a => exact within_le (Nat.le_add_left m n) h
  | call c k ih =>
    obtain ⟨n, rfl, hc, h⟩ := h
    exact ⟨n + m, by omega, hc, fun r v hv => ih r (h r v hv)⟩
  | loop c next exit x ih =>
    obtain ⟨J, hJ, h⟩ := h
    refine ⟨fun k w y => ∃ n, k = n + m ∧ J n w y, ⟨n, rfl, hJ⟩, ?_⟩
    rintro _ w y ⟨n, rfl, hy⟩
    obtain ⟨n, rfl, hc, h⟩ := h n w y hy
    refine ⟨n + m, by omega, hc, fun r v hv => ?_⟩
    obtain ⟨hz, he⟩ := h r v hv
    exact ⟨fun z hn => ⟨n, rfl, hz z hn⟩, fun hn => ih y r (he hn)⟩

theorem within_map {f : α → β} {Q : ω → β → Prop}
    (h : p.Within answer (fun w a => Q w (f a)) n w) : (p.map f).Within answer Q n w :=
  within_bind (m := 0) h

/-! ## Runs -/

theorem within_pending (h : p.Within answer Q n w) (hc : p.pending = some c) :
    ∃ m, n = m + 1 ∧ (∃ r, (answer w c r).isSome) ∧
      ∀ r v, answer w c r = some v → (p.resume r).Within answer Q m v := by
  cases p with
  | done a => cases hc
  | call c' k =>
    cases hc
    exact h
  | loop c' next exit x =>
    cases hc
    obtain ⟨J, hJ, h⟩ := h
    obtain ⟨m, rfl, hc, hx⟩ := h n w x hJ
    refine ⟨m, rfl, hc, fun r v hv => ?_⟩
    obtain ⟨hz, he⟩ := hx r v hv
    rw [resume]
    cases hn : next x r with
    | none => exact he hn
    | some z => exact ⟨J, hz z hn, h⟩

theorem pending_of_result_none (h : p.result = none) : ∃ c, p.pending = some c := by
  cases p with
  | done a => cases h
  | call c k => exact ⟨c, rfl⟩
  | loop c next exit x => exact ⟨c, rfl⟩

theorem eq_done_of_result {a : α} (h : p.result = some a) : p = done a := by
  cases p with
  | done b =>
    cases h
    rfl
  | call c k => cases h
  | loop c next exit x => cases h

/-- A step uses up one of the calls. -/
theorem within_step {s t : ω × Prog κ ρ σ α} {r : ρ} (h : s.2.Within answer Q n s.1)
    (hs : step answer s r = some t) : ∃ m, n = m + 1 ∧ t.2.Within answer Q m t.1 := by
  obtain ⟨c, hc, hs⟩ := Option.bind_eq_some_iff.mp hs
  obtain ⟨v, hv, rfl⟩ := Option.map_eq_some_iff.mp hs
  obtain ⟨m, rfl, -, h⟩ := within_pending h hc
  exact ⟨m, rfl, h r v hv⟩

theorem within_run {rs : List ρ} {s t : ω × Prog κ ρ σ α} (h : s.2.Within answer Q n s.1)
    (hr : runFrom (step answer) s rs = some t) :
    ∃ m, n = rs.length + m ∧ t.2.Within answer Q m t.1 := by
  refine invariant (I := fun rs t => ∃ m, n = rs.length + m ∧ t.2.Within answer Q m t.1)
    ⟨n, by simp, h⟩ ?_ hr
  rintro rs r t u - ⟨m, rfl, ht⟩ hu
  obtain ⟨m, rfl, hu⟩ := within_step ht hu
  refine ⟨m, ?_, hu⟩
  rw [List.length_append, List.length_singleton]
  omega

theorem Within.returns (h : p.Within answer Q n w) : p.Returns answer Q n w := by
  intro rs s hr
  obtain ⟨m, rfl, hs⟩ := within_run (s := (w, p)) h hr
  refine ⟨Nat.le_add_right _ _, fun hn => ?_, fun a ha => ?_⟩
  · obtain ⟨c, hc⟩ := pending_of_result_none hn
    obtain ⟨_, -, ⟨r, hr⟩, -⟩ := within_pending hs hc
    refine ⟨r, ?_⟩
    rw [step, hc, Option.bind_some, Option.isSome_map]
    exact hr
  · rw [eq_done_of_result ha] at hs
    exact hs

/-- A run has ended, or there is a longer one. -/
theorem Returns.ended_or_longer (h : p.Returns answer Q n w) {rs : List ρ} {s : ω × Prog κ ρ σ α}
    (hr : runFrom (step answer) (w, p) rs = some s) :
    (∃ a, s.2 = done a) ∨ ∃ r t, runFrom (step answer) (w, p) (rs ++ [r]) = some t := by
  cases hs : s.2.result with
  | some a => exact .inl ⟨a, eq_done_of_result hs⟩
  | none =>
    obtain ⟨r, ht⟩ := (h rs s hr).2.1 hs
    obtain ⟨t, ht⟩ := Option.isSome_iff_exists.mp ht
    exact .inr ⟨r, t, runFrom_concat_iff.mpr ⟨s, hr, ht⟩⟩

/-- There is a run that ends. -/
theorem Returns.exists_run (h : p.Returns answer Q n w) :
    ∃ rs v a, runFrom (step answer) (w, p) rs = some (v, done a) ∧ Q v a := by
  -- the induction is on the calls that are left
  suffices ∀ k rs s, runFrom (step answer) (w, p) rs = some s → n ≤ rs.length + k →
      ∃ rs v a, runFrom (step answer) (w, p) rs = some (v, done a) by
    obtain ⟨rs, v, a, hr⟩ := this n [] (w, p) runFrom_nil (Nat.le_add_left n 0)
    exact ⟨rs, v, a, hr, (h rs _ hr).2.2 a rfl⟩
  intro k
  induction k with
  | zero =>
    rintro rs ⟨v, q⟩ hr hk
    rcases h.ended_or_longer hr with ⟨a, rfl⟩ | ⟨r, t, ht⟩
    · exact ⟨rs, v, a, hr⟩
    · have hle := (h _ t ht).1
      rw [List.length_append, List.length_singleton] at hle
      omega
  | succ k ih =>
    rintro rs ⟨v, q⟩ hr hk
    rcases h.ended_or_longer hr with ⟨a, rfl⟩ | ⟨r, t, ht⟩
    · exact ⟨rs, v, a, hr⟩
    · refine ih (rs ++ [r]) t ht ?_
      rw [List.length_append, List.length_singleton]
      omega

end Within

/-! ## One answer to each call -/

section Answers

variable [DecidableEq ρ] {f : ω → κ → ρ × ω} {Q : ω → α → Prop} {n : Nat} {w : ω} {c : κ}

/-- The environment that answers with `f`. -/
def answers (f : ω → κ → ρ × ω) (w : ω) (c : κ) (r : ρ) : Option ω :=
  if r = (f w c).1 then some (f w c).2 else none

theorem answers_self (f : ω → κ → ρ × ω) (w : ω) (c : κ) :
    answers f w c (f w c).1 = some (f w c).2 := if_pos rfl

theorem eq_of_answers {r : ρ} {v : ω} (h : answers f w c r = some v) : f w c = (r, v) := by
  rw [answers, Option.ite_none_right_eq_some, Option.some.injEq] at h
  rw [h.1, ← h.2]

theorem exists_answer (f : ω → κ → ρ × ω) (w : ω) (c : κ) : ∃ r, (answers f w c r).isSome :=
  ⟨_, Option.isSome_iff_exists.mpr ⟨_, answers_self f w c⟩⟩

theorem within_answer {k : ρ → Prog κ ρ σ α} {r : ρ} {v : ω} (hf : f w c = (r, v))
    (h : (k r).Within (answers f) Q n v) : (call c k).Within (answers f) Q (n + 1) w := by
  refine within_call (exists_answer f w c) fun r' v' hr => ?_
  rw [eq_of_answers hr, Prod.mk.injEq] at hf
  rw [hf.1, hf.2]
  exact h

end Answers

end Lib.Prog
