import Mathlib.Data.Option.Basic

/-!
# Programs that make calls

A program ends with a value, or makes a call and goes on with what the call
returns; `loop` makes one call again and again and carries a state. Which
results a call may have (`ok`) is up to the environment.

`Always` holds of a program whose calls all satisfy `Q` when they are made, and
whose value satisfies `R` when it ends, both with the log of the calls so far,
newest first. `always_bind` is its rule for programs one after the other,
`always_resume` says that it is kept along every run, and `always_now` reads
off what holds at the moment.
-/

namespace Lib

/-- Makes calls `κ`, which return `ρ`, and ends with an `α`; its loops carry a `σ`. -/
inductive Prog (κ ρ σ α : Type) where
  | done (a : α)
  | call (c : κ) (k : ρ → Prog κ ρ σ α)
  /-- Goes round with another state while `next` has one. -/
  | loop (c : κ) (next : σ → ρ → Option σ) (exit : σ → ρ → Prog κ ρ σ α) (x : σ)

namespace Prog

variable {κ ρ σ α β : Type}

def bind : Prog κ ρ σ α → (α → Prog κ ρ σ β) → Prog κ ρ σ β
  | done a, f => f a
  | call c k, f => call c fun r => (k r).bind f
  | loop c next exit x, f => loop c next (fun y r => (exit y r).bind f) x

def map (f : α → β) (p : Prog κ ρ σ α) : Prog κ ρ σ β := p.bind fun a => done (f a)

/-- The same program with other calls. What its loops carry, which is nothing,
is `y` there. -/
def embed {κ' ρ' σ' : Type} (f : κ → κ') (g : ρ' → ρ) (y : σ') :
    Prog κ ρ Unit α → Prog κ' ρ' σ' α
  | done a => done a
  | call c k => call (f c) fun r => (k (g r)).embed f g y
  | loop c next exit _ =>
    loop (f c) (fun y r => (next () (g r)).map fun _ => y) (fun _ r => (exit () (g r)).embed f g y) y

/-- The same program with other calls, and its loops as they are. -/
def relabel {κ' ρ' : Type} (f : κ → κ') (g : ρ' → ρ) : Prog κ ρ σ α → Prog κ' ρ' σ α
  | done a => done a
  | call c k => call (f c) fun r => (k (g r)).relabel f g
  | loop c next exit x =>
    loop (f c) (fun y r => next y (g r)) (fun y r => (exit y (g r)).relabel f g) x

theorem relabel_bind {κ' ρ' : Type} {f : κ → κ'} {g : ρ' → ρ} (p : Prog κ ρ σ α)
    (q : α → Prog κ ρ σ β) :
    (p.bind q).relabel f g = (p.relabel f g).bind fun a => (q a).relabel f g := by
  induction p with
  | done a => rfl
  | call c k ih => exact congrArg (call (f c)) (funext fun r => ih (g r))
  | loop c next exit x ih =>
    exact congrArg (fun e => loop (f c) (fun y r => next y (g r)) e x)
      (funext fun y => funext fun r => ih y (g r))

/-- The call it has made, unless it has ended. -/
def pending : Prog κ ρ σ α → Option κ
  | done _ => none
  | call c _ => some c
  | loop c _ _ _ => some c

/-- What it has ended with. -/
def result : Prog κ ρ σ α → Option α
  | done a => some a
  | call _ _ => none
  | loop _ _ _ _ => none

/-- The program after its call has returned `r`. -/
def resume (r : ρ) : Prog κ ρ σ α → Prog κ ρ σ α
  | done a => done a
  | call _ k => k r
  | loop c next exit x => (next x r).elim (exit x r) (loop c next exit)

/-- Every call satisfies `Q` and every end `R`. A loop is described by an
invariant `J` of its state. -/
def Always (ok : κ → ρ → Prop) (Q : List (κ × ρ) → κ → Prop) (R : List (κ × ρ) → α → Prop) :
    Prog κ ρ σ α → List (κ × ρ) → Prop
  | done a, l => R l a
  | call c k, l => Q l c ∧ ∀ r, ok c r → (k r).Always ok Q R ((c, r) :: l)
  | loop c next exit x, l =>
    ∃ J : List (κ × ρ) → σ → Prop, J l x ∧ ∀ l y, J l y → Q l c ∧ ∀ r, ok c r →
      (∀ z, next y r = some z → J ((c, r) :: l) z) ∧
      (next y r = none → (exit y r).Always ok Q R ((c, r) :: l))

section Always

variable {ok : κ → ρ → Prop} {Q Q' : List (κ × ρ) → κ → Prop} {R : List (κ × ρ) → α → Prop}
  {l : List (κ × ρ)} {p : Prog κ ρ σ α}

theorem always_call {c : κ} {k : ρ → Prog κ ρ σ α} (hc : Q l c)
    (h : ∀ r, ok c r → (k r).Always ok Q R ((c, r) :: l)) : (call c k).Always ok Q R l :=
  ⟨hc, h⟩

/-- A loop whose state does not matter. -/
theorem always_loop {c : κ} {next : σ → ρ → Option σ} {exit : σ → ρ → Prog κ ρ σ α} {x : σ}
    {J : List (κ × ρ) → Prop} (hl : J l) (hc : ∀ l, J l → Q l c)
    (hn : ∀ l r, J l → ok c r → J ((c, r) :: l))
    (h : ∀ l y r, J l → ok c r → next y r = none → (exit y r).Always ok Q R ((c, r) :: l)) :
    (loop c next exit x).Always ok Q R l :=
  ⟨fun l _ => J l, hl, fun l y hJ =>
    ⟨hc l hJ, fun r hr => ⟨fun _ _ => hn l r hJ hr, fun hy => h l y r hJ hr hy⟩⟩⟩

theorem always_mono {R' : List (κ × ρ) → α → Prop} (hQ : ∀ l c, Q l c → Q' l c)
    (hR : ∀ l a, R l a → R' l a) (h : p.Always ok Q R l) : p.Always ok Q' R' l := by
  induction p generalizing l with
  | done a => exact hR l a h
  | call c k ih => exact ⟨hQ l c h.1, fun r hr => ih r (h.2 r hr)⟩
  | loop c next exit x ih =>
    obtain ⟨J, hJ, h⟩ := h
    refine ⟨J, hJ, fun l y hy => ⟨hQ l c (h l y hy).1, fun r hr => ?_⟩⟩
    obtain ⟨hz, he⟩ := (h l y hy).2 r hr
    exact ⟨hz, fun hn => ih y r (he hn)⟩

theorem always_of_forall (hQ : ∀ l c, Q l c) (hR : ∀ l a, R l a) : p.Always ok Q R l := by
  induction p generalizing l with
  | done a => exact hR l a
  | call c k ih => exact ⟨hQ l c, fun r _ => ih r⟩
  | loop c next exit x ih =>
    exact ⟨fun _ _ => True, trivial, fun l y _ =>
      ⟨hQ l c, fun r _ => ⟨fun _ _ => trivial, fun _ => ih y r⟩⟩⟩

theorem always_bind {f : α → Prog κ ρ σ β} {R : List (κ × ρ) → β → Prop}
    (h : p.Always ok Q (fun l a => (f a).Always ok Q R l) l) : (p.bind f).Always ok Q R l := by
  induction p generalizing l with
  | done a => exact h
  | call c k ih => exact ⟨h.1, fun r hr => ih r (h.2 r hr)⟩
  | loop c next exit x ih =>
    obtain ⟨J, hJ, h⟩ := h
    refine ⟨J, hJ, fun l y hy => ⟨(h l y hy).1, fun r hr => ?_⟩⟩
    obtain ⟨hz, he⟩ := (h l y hy).2 r hr
    exact ⟨hz, fun hn => ih y r (he hn)⟩

theorem always_map {f : α → β} {R : List (κ × ρ) → β → Prop}
    (h : p.Always ok Q (fun l a => R l (f a)) l) : (p.map f).Always ok Q R l :=
  always_bind h

/-- What the environment may make of a call keeps `Always`. -/
theorem always_resume {c : κ} {r : ρ} (h : p.Always ok Q R l) (hc : p.pending = some c)
    (hr : ok c r) : Q l c ∧ (p.resume r).Always ok Q R ((c, r) :: l) := by
  cases p with
  | done a => cases hc
  | call c' k =>
    cases hc
    exact ⟨h.1, h.2 r hr⟩
  | loop c' next exit x =>
    cases hc
    obtain ⟨J, hJ, h⟩ := h
    refine ⟨(h l x hJ).1, ?_⟩
    obtain ⟨hz, he⟩ := (h l x hJ).2 r hr
    rw [resume]
    cases hn : next x r with
    | none => exact he hn
    | some z => exact ⟨J, hz z hn, h⟩

theorem always_result {a : α} (h : p.Always ok Q R l) (ha : p.result = some a) : R l a := by
  cases p with
  | done b =>
    cases ha
    exact h
  | call c k => cases ha
  | loop c next exit x => cases ha

/-- What every call and every end say of the log holds at the moment. -/
theorem always_now {P : List (κ × ρ) → Prop} (hQ : ∀ l c, Q l c → P l) (hR : ∀ l a, R l a → P l)
    (h : p.Always ok Q R l) : P l := by
  cases p with
  | done a => exact hR l a h
  | call c k => exact hQ l c h.1
  | loop c next exit x =>
    obtain ⟨J, hJ, h⟩ := h
    exact hQ l c (h l x hJ).1

end Always

end Prog

end Lib
