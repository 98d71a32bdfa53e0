import Mathlib.Data.List.Infix

/-!
# Routines that ask for answers

A routine asks its environment for one answer after another (the results of
its system calls) and ends in a value or an error. `Script ι ε α` is a routine
run against the answers so far: `none` while it waits for one that is not
there, and otherwise how it ended and the answers it did not ask for.

`Causal` says that nothing but the answers it took decides how it ends;
routines built from `lift`, `>>=` and `loop` are causal. `loop` is a
loop that asks once in each turn, and `loop_invariant` its rule.
-/

namespace Lib

variable {ι ε α β σ : Type}

/-- A routine, run against a list of answers. -/
structure Script (ι ε α : Type) where
  run : List ι → Option (Except ε α × List ι)

namespace Script

instance : Monad (Script ι ε) where
  pure a := ⟨fun s => some (.ok a, s)⟩
  bind m f := ⟨fun s =>
    match m.run s with
    | none => none
    | some (.error e, t) => some (.error e, t)
    | some (.ok a, t) => (f a).run t⟩

/-- A value or an error, without asking. -/
def lift (r : Except ε α) : Script ι ε α := ⟨fun s => some (r, s)⟩

/-- Ends in an error. -/
def fail (e : ε) : Script ι ε α := lift (.error e)

/-- `loop`, run. -/
def loopRun (top : σ → Option (Except ε α)) (body : σ → ι → Except ε α ⊕ σ) (x : σ)
    (s : List ι) : Option (Except ε α × List ι) :=
  match top x with
  | some r => some (r, s)
  | none =>
    match s with
    | [] => none
    | i :: s =>
      match body x i with
      | .inl r => some (r, s)
      | .inr y => loopRun top body y s

/-- A loop from state `x`: it ends at its head if `top` says so, and otherwise
asks and lets `body` end it or go on from another state. -/
def loop (top : σ → Option (Except ε α)) (body : σ → ι → Except ε α ⊕ σ) (x : σ) :
    Script ι ε α :=
  ⟨loopRun top body x⟩

@[simp] theorem run_pure (a : α) (s : List ι) :
    (pure a : Script ι ε α).run s = some (.ok a, s) := rfl

@[simp] theorem run_lift (r : Except ε α) (s : List ι) :
    (lift r : Script ι ε α).run s = some (r, s) := rfl

@[simp] theorem run_fail (e : ε) (s : List ι) :
    (fail e : Script ι ε α).run s = some (.error e, s) := rfl

theorem run_bind (m : Script ι ε α) (f : α → Script ι ε β) (s : List ι) :
    (m >>= f).run s =
      match m.run s with
      | none => none
      | some (.error e, t) => some (.error e, t)
      | some (.ok a, t) => (f a).run t := rfl

theorem run_bind_ok {m : Script ι ε α} {s t : List ι} {a : α} (h : m.run s = some (.ok a, t))
    (f : α → Script ι ε β) : (m >>= f).run s = (f a).run t := by
  rw [run_bind, h]

theorem run_bind_error {m : Script ι ε α} {s t : List ι} {e : ε}
    (h : m.run s = some (.error e, t)) (f : α → Script ι ε β) :
    (m >>= f).run s = some (.error e, t) := by
  rw [run_bind, h]

theorem run_bind_none {m : Script ι ε α} {s : List ι} (h : m.run s = none)
    (f : α → Script ι ε β) : (m >>= f).run s = none := by
  rw [run_bind, h]

section Loop

variable {top : σ → Option (Except ε α)} {body : σ → ι → Except ε α ⊕ σ} {x y : σ} {i : ι}
  {r : Except ε α}

theorem run_loop (s : List ι) : (loop top body x).run s = loopRun top body x s := rfl

theorem loop_end (h : top x = some r) (s : List ι) : (loop top body x).run s = some (r, s) := by
  rw [run_loop, loopRun.eq_def, h]

theorem loop_wait (h : top x = none) : (loop top body x).run [] = none := by
  rw [run_loop, loopRun.eq_def, h]

theorem loop_exit (h : top x = none) (hb : body x i = .inl r) (s : List ι) :
    (loop top body x).run (i :: s) = some (r, s) := by
  rw [run_loop, loopRun.eq_def, h]
  simp only [hb]

theorem loop_next (h : top x = none) (hb : body x i = .inr y) (s : List ι) :
    (loop top body x).run (i :: s) = (loop top body y).run s := by
  rw [run_loop, loopRun.eq_def, h]
  simp only [hb, run_loop]

/-- What holds at the head of a loop in every turn holds at its end, which is
at the head or in the body. -/
theorem loop_invariant {I : σ → Prop} (hI : ∀ x i y, I x → top x = none → body x i = .inr y → I y)
    {s t : List ι} (hx : I x) (h : (loop top body x).run s = some (r, t)) :
    ∃ y, I y ∧ (top y = some r ∨ top y = none ∧ ∃ i, body y i = .inl r) := by
  induction s generalizing x with
  | nil =>
    cases ht : top x with
    | some r' =>
      rw [loop_end ht] at h
      cases h
      exact ⟨x, hx, .inl ht⟩
    | none => simp [loop_wait ht] at h
  | cons i s ih =>
    cases ht : top x with
    | some r' =>
      rw [loop_end ht] at h
      cases h
      exact ⟨x, hx, .inl ht⟩
    | none =>
      cases hb : body x i with
      | inl r' =>
        rw [loop_exit ht hb] at h
        cases h
        exact ⟨x, hx, .inr ⟨ht, i, hb⟩⟩
      | inr y =>
        rw [loop_next ht hb] at h
        exact ih (hI x i y hx ht hb) h

end Loop

/-! ## Causality -/

/-- How the routine ends is decided by the answers it took, whatever follows
them. -/
def Causal (m : Script ι ε α) : Prop :=
  ∀ s r t, m.run s = some (r, t) →
    ∃ used, s = used ++ t ∧ ∀ u, m.run (used ++ u) = some (r, u)

theorem causal_lift (r : Except ε α) : Causal (lift r : Script ι ε α) := by
  intro s r' t h
  cases h
  exact ⟨[], rfl, fun u => rfl⟩

theorem causal_pure (a : α) : Causal (pure a : Script ι ε α) := causal_lift (.ok a)

theorem causal_fail (e : ε) : Causal (fail e : Script ι ε α) := causal_lift (.error e)

theorem causal_bind {m : Script ι ε α} {f : α → Script ι ε β} (hm : Causal m)
    (hf : ∀ a, Causal (f a)) : Causal (m >>= f) := by
  intro s r t h
  rw [run_bind] at h
  split at h
  · cases h
  · rename_i e t' hs
    cases h
    obtain ⟨used, rfl, hu⟩ := hm _ _ _ hs
    exact ⟨used, rfl, fun u => run_bind_error (hu u) f⟩
  · rename_i a t' hs
    obtain ⟨used, rfl, hu⟩ := hm _ _ _ hs
    obtain ⟨used', rfl, hu'⟩ := hf a _ _ _ h
    refine ⟨used ++ used', (List.append_assoc ..).symm, fun u => ?_⟩
    rw [List.append_assoc, run_bind_ok (hu _), hu']

theorem causal_loop (top : σ → Option (Except ε α)) (body : σ → ι → Except ε α ⊕ σ) (x : σ) :
    Causal (loop top body x) := by
  intro s
  induction s generalizing x with
  | nil =>
    intro r t h
    cases ht : top x with
    | some r' =>
      rw [loop_end ht] at h
      cases h
      exact ⟨[], rfl, fun u => loop_end ht u⟩
    | none => simp [loop_wait ht] at h
  | cons i s ih =>
    intro r t h
    cases ht : top x with
    | some r' =>
      rw [loop_end ht] at h
      cases h
      exact ⟨[], rfl, fun u => loop_end ht u⟩
    | none =>
      cases hb : body x i with
      | inl r' =>
        rw [loop_exit ht hb] at h
        cases h
        exact ⟨[i], rfl, fun u => loop_exit ht hb u⟩
      | inr y =>
        rw [loop_next ht hb] at h
        obtain ⟨used, rfl, hu⟩ := ih y r t h
        exact ⟨i :: used, rfl, fun u => (loop_next ht hb _).trans (hu u)⟩

section Causal

variable {m : Script ι ε α} {s t : List ι} {r : Except ε α}

/-- The answer that ends a waiting routine is the last it takes. -/
theorem Causal.rest_nil (hm : Causal m) (hs : m.run s = none) {i : ι}
    (h : m.run (s ++ [i]) = some (r, t)) : t = [] := by
  obtain ⟨used, hus, hu⟩ := hm _ _ _ h
  rcases List.eq_nil_or_concat t with rfl | ⟨t', j, rfl⟩
  · rfl
  · rw [List.concat_eq_append, ← List.append_assoc] at hus
    obtain ⟨rfl, -⟩ := List.append_inj' hus rfl
    simp [hu] at hs

end Causal

end Script

end Lib
