import PsPayload.Lib.Environment

/-!
# Calls that are programs

The calls of a client may stand for programs that make other calls: `expand`
puts the program `impl c` for each call `c`. Where each of these programs ends,
and its calls come to what the call `c` does in an environment of its own
(`Implements`), every run of the expanded client ends, and what it has come to
is a run of the client in that environment (`ends_expand`). In `OrFails` a call may
fail there.

`Ends` says that all runs end, without a bound on their calls.
-/

namespace Lib.Prog

variable {κ κ' ρ ρ' σ α β ω ω' : Type}

/-- Every run of the program from a state ends, and as `Q` says. -/
inductive Ends (answer : ω → κ → ρ → Option ω) (Q : ω → α → Prop) : Prog κ ρ σ α → ω → Prop
  | done {a : α} {w : ω} (h : Q w a) : Ends answer Q (done a) w
  | call {p : Prog κ ρ σ α} {c : κ} {w : ω} (hp : p.pending = some c)
      (hc : ∃ r, (answer w c r).isSome)
      (h : ∀ r v, answer w c r = some v → Ends answer Q (p.resume r) v) : Ends answer Q p w

section Ends

variable {answer : ω → κ → ρ → Option ω} {Q Q' : ω → α → Prop} {p : Prog κ ρ σ α} {n : Nat} {w : ω}

theorem ends_mono (hQ : ∀ w a, Q w a → Q' w a) (h : p.Ends answer Q w) : p.Ends answer Q' w := by
  induction h with
  | done h => exact .done (hQ _ _ h)
  | call hp hc _ ih => exact .call hp hc ih

theorem eq_done_of_pending (h : p.pending = none) : ∃ a, p = done a := by
  cases p with
  | done a => exact ⟨a, rfl⟩
  | call c k => cases h
  | loop c next exit x => cases h

/-- A bound on the calls is enough. -/
theorem Within.ends (h : p.Within answer Q n w) : p.Ends answer Q w := by
  induction n generalizing p w with
  | zero =>
    cases hp : p.pending with
    | none =>
      obtain ⟨a, rfl⟩ := eq_done_of_pending hp
      exact .done h
    | some c =>
      obtain ⟨m, hm, -⟩ := within_pending h hp
      omega
  | succ n ih =>
    cases hp : p.pending with
    | none =>
      obtain ⟨a, rfl⟩ := eq_done_of_pending hp
      exact .done h
    | some c =>
      obtain ⟨m, hm, hc, hk⟩ := within_pending h hp
      obtain rfl : n = m := by omega
      exact .call hp hc fun r v hv => ih (hk r v hv)

theorem bind_pending {f : α → Prog κ ρ σ β} {c : κ} (h : p.pending = some c) :
    (p.bind f).pending = some c ∧ ∀ r, (p.bind f).resume r = (p.resume r).bind f := by
  cases p with
  | done a => cases h
  | call c' k => exact ⟨h, fun r => rfl⟩
  | loop c' next exit x =>
    refine ⟨h, fun r => ?_⟩
    rw [bind, resume, resume]
    cases next x r with
    | none => rfl
    | some z => rfl

theorem ends_bind {f : α → Prog κ ρ σ β} {Q : ω → β → Prop}
    (h : p.Ends answer (fun w a => (f a).Ends answer Q w) w) : (p.bind f).Ends answer Q w := by
  induction h with
  | done h => exact h
  | call hp hc _ ih =>
    obtain ⟨hb, hr⟩ := bind_pending hp
    exact .call hb hc fun r v hv => (hr r).symm ▸ ih r v hv

theorem ends_map {f : α → β} {Q : ω → β → Prop} (h : p.Ends answer (fun w a => Q w (f a)) w) :
    (p.map f).Ends answer Q w :=
  ends_bind (ends_mono (fun _ _ h => .done h) h)

end Ends

/-! ## The expansion -/

/-- The program with `impl c` for each call `c`. It has no loops. -/
def expand (impl : κ → Prog κ' ρ' σ ρ) : Prog κ ρ Empty α → Prog κ' ρ' σ α
  | done a => done a
  | call c k => (impl c).bind fun r => (k r).expand impl
  | loop _ _ _ x => x.elim

/-- The program runs from a state to another and ends with a value, where a call
and what it returns lead from state to state as `rel` says. -/
inductive Runs (rel : ω → κ → ρ → ω → Prop) : Prog κ ρ σ α → ω → ω → α → Prop
  | done (a : α) (w : ω) : Runs rel (done a) w w a
  | call {p : Prog κ ρ σ α} {c : κ} {r : ρ} {w v u : ω} {a : α} (hp : p.pending = some c)
      (hc : rel w c r v) (h : Runs rel (p.resume r) v u a) : Runs rel p w u a

theorem runs_done {rel : ω → κ → ρ → ω → Prop} {w u : ω} {a b : α}
    (h : (done a : Prog κ ρ σ α).Runs rel w u b) : u = w ∧ b = a := by
  cases h with
  | done => exact ⟨rfl, rfl⟩
  | call hp _ _ => cases hp

theorem runs_call {rel : ω → κ → ρ → ω → Prop} {c : κ} {k : ρ → Prog κ ρ σ α} {w u : ω} {a : α}
    (h : (call c k).Runs rel w u a) : ∃ r v, rel w c r v ∧ (k r).Runs rel v u a := by
  cases h with
  | call hp hc h =>
    cases hp
    exact ⟨_, _, hc, h⟩

/-- A run that the environment allows. -/
theorem Runs.within {answer : ω → κ → ρ → Option ω} {rel : ω → κ → ρ → ω → Prop}
    {Q : ω → α → Prop} {p : Prog κ ρ σ α} {n : Nat} {w v : ω} {a : α}
    (hrel : ∀ w c r v, rel w c r v → answer w c r = some v)
    (h : p.Runs rel w v a) (hw : p.Within answer Q n w) : Q v a := by
  induction h generalizing n with
  | done a w => exact hw
  | call hp hc _ ih =>
    obtain ⟨m, -, -, hk⟩ := within_pending hw hp
    exact ih (hk _ _ (hrel _ _ _ _ hc))

/-- What `impl` comes to is what a call does, as seen through `abs`. -/
def Implements (answer : ω' → κ' → ρ' → Option ω') (rel : ω → κ → ρ → ω → Prop)
    (I : ω' → Prop) (abs : ω' → ω) (impl : κ → Prog κ' ρ' σ ρ) : Prop :=
  ∀ c w, I w → (impl c).Ends answer (fun v r => I v ∧ rel (abs w) c r (abs v)) w

section Expand

variable {answer : ω' → κ' → ρ' → Option ω'} {rel : ω → κ → ρ → ω → Prop} {I : ω' → Prop}
  {abs : ω' → ω} {impl : κ → Prog κ' ρ' σ ρ}

/-- Every run of the expanded client ends, and is a run of the client. -/
theorem ends_expand (h : Implements answer rel I abs impl) (p : Prog κ ρ Empty α) {w : ω'}
    (hw : I w) :
    (p.expand impl).Ends answer (fun v a => I v ∧ p.Runs rel (abs w) (abs v) a) w := by
  induction p generalizing w with
  | done a => exact .done ⟨hw, .done a _⟩
  | call c k ih =>
    refine ends_bind (ends_mono (fun v r ⟨hv, hr⟩ => ?_) (h c w hw))
    exact ends_mono (fun u a ⟨hu, hrun⟩ => ⟨hu, .call rfl hr hrun⟩) (ih r hv)
  | loop c next exit x => exact x.elim

/-- The value of the program and the state after it, where calls are functions. -/
def evaluate (f : ω → κ → ρ × ω) : Prog κ ρ Empty α → ω → α × ω
  | done a, w => (a, w)
  | call c k, w => (k (f w c).1).evaluate f (f w c).2
  | loop _ _ _ x, _ => x.elim

/-- Where calls are functions, a run comes to the value. -/
theorem Runs.evaluate {f : ω → κ → ρ × ω} {p : Prog κ ρ Empty α} {w v : ω} {a : α}
    (h : p.Runs (fun w c r v => f w c = (r, v)) w v a) : p.evaluate f w = (a, v) := by
  induction h with
  | done a w => rfl
  | @call p c r w u v a hp hc _ ih =>
    cases p with
    | done b => cases hp
    | call c' k =>
      cases hp
      rw [Prog.evaluate, hc]
      exact ih
    | loop c' next exit x => exact x.elim

/-! ## Calls that may fail -/

/-- A call does what it is for, or a failure during the call has spoilt it. The
second component of a state is the number of failures so far. -/
def OrFails (does spoils : ω → κ → ρ → ω → Prop) (s : ω × Nat) (c : κ) (r : ρ) (s' : ω × Nat) :
    Prop :=
  s.2 ≤ s'.2 ∧ (does s.1 c r s'.1 ∨ s.2 < s'.2 ∧ spoils s.1 c r s'.1)

/-- Without a failure all calls do what they are for. -/
theorem Runs.of_orFails {does spoils : ω → κ → ρ → ω → Prop} {p : Prog κ ρ σ α}
    {s s' : ω × Nat} {a : α} (h : p.Runs (OrFails does spoils) s s' a) :
    s.2 ≤ s'.2 ∧ (s'.2 = s.2 → p.Runs does s.1 s'.1 a) := by
  induction h with
  | done a s => exact ⟨Nat.le_refl _, fun _ => .done a _⟩
  | @call p c r s u t a hp hc _ ih =>
    obtain ⟨hle, hrun⟩ := ih
    refine ⟨Nat.le_trans hc.1 hle, fun hs => ?_⟩
    have hsu := hc.1
    have hdoes : does s.1 c r u.1 := hc.2.resolve_right fun h => by
      have := h.1
      omega
    exact .call hp hdoes (hrun (by omega))

end Expand

end Lib.Prog
