import PsPayload.Lib.Script
import PsPayload.Lib.Transition

/-!
# Loops, turn by turn

A loop is a transition system on its states, whose labels are the answers: a
`turn` leads from one head of the loop to the next. `run_loop_none` and
`run_loop_some` describe a run of the loop by the turns it took, so that the
rules for transition systems apply to it; `asked` lists what it asked in each
turn, and `Script.calls` counts what a routine asks for. `Passes` and `Blames`
say that an answer ends a waiting routine with an error, and that nothing else
ends it so.
-/

namespace Lib.Script

variable {ι ε α β σ : Type} {top : σ → Option (Except ε α)} {body : σ → ι → Except ε α ⊕ σ}
  {x y : σ} {i : ι} {r : Except ε α} {s t : List ι}

/-- The state at the next head of the loop, where there is one. -/
def turn (top : σ → Option (Except ε α)) (body : σ → ι → Except ε α ⊕ σ) (x : σ) (i : ι) :
    Option σ :=
  match top x with
  | some _ => none
  | none => (body x i).getRight?

theorem turn_eq_some_iff : turn top body x i = some y ↔ top x = none ∧ body x i = .inr y := by
  rw [turn]
  split
  · rename_i h
    simp [h]
  · rename_i h
    simp [h]

theorem turn_next (ht : top x = none) (hb : body x i = .inr y) : turn top body x i = some y :=
  turn_eq_some_iff.mpr ⟨ht, hb⟩

/-- A loop that has taken its turns with the first answers goes on with the
others. -/
theorem run_loop_append (h : runFrom (turn top body) x s = some y) (t : List ι) :
    (loop top body x).run (s ++ t) = (loop top body y).run t := by
  induction s generalizing x with
  | nil =>
    cases h
    rfl
  | cons i s ih =>
    rw [runFrom_cons] at h
    obtain ⟨z, hz, h⟩ := Option.bind_eq_some_iff.mp h
    obtain ⟨ht, hb⟩ := turn_eq_some_iff.mp hz
    rw [List.cons_append, loop_next ht hb]
    exact ih h

/-- A loop that waits has taken a turn with every answer. -/
theorem run_loop_none (h : (loop top body x).run s = none) :
    ∃ y, runFrom (turn top body) x s = some y ∧ top y = none := by
  induction s generalizing x with
  | nil =>
    refine ⟨x, runFrom_nil, ?_⟩
    by_contra ht
    obtain ⟨r, hr⟩ := Option.ne_none_iff_exists'.mp ht
    rw [loop_end hr] at h
    simp at h
  | cons i s ih =>
    cases ht : top x with
    | some r => simp [loop_end ht] at h
    | none =>
      cases hb : body x i with
      | inl r => simp [loop_exit ht hb] at h
      | inr y =>
        rw [loop_next ht hb] at h
        obtain ⟨z, hz, hn⟩ := ih h
        refine ⟨z, ?_, hn⟩
        rw [runFrom_cons, turn_next ht hb]
        exact hz

/-- A loop that has ended took turns with the first answers, and then ended at
its head or with the answer of one more turn. -/
theorem run_loop_some (h : (loop top body x).run s = some (r, t)) :
    ∃ used y, runFrom (turn top body) x used = some y ∧
      (s = used ++ t ∧ top y = some r ∨
        ∃ i, s = used ++ i :: t ∧ top y = none ∧ body y i = .inl r) := by
  induction s generalizing x with
  | nil =>
    cases ht : top x with
    | some r' =>
      rw [loop_end ht] at h
      cases h
      exact ⟨[], x, runFrom_nil, .inl ⟨rfl, ht⟩⟩
    | none => simp [loop_wait ht] at h
  | cons i s ih =>
    cases ht : top x with
    | some r' =>
      rw [loop_end ht] at h
      cases h
      exact ⟨[], x, runFrom_nil, .inl ⟨rfl, ht⟩⟩
    | none =>
      cases hb : body x i with
      | inl r' =>
        rw [loop_exit ht hb] at h
        cases h
        exact ⟨[], x, runFrom_nil, .inr ⟨i, rfl, ht, hb⟩⟩
      | inr y =>
        rw [loop_next ht hb] at h
        obtain ⟨used, z, hz, he⟩ := ih h
        refine ⟨i :: used, z, ?_, ?_⟩
        · rw [runFrom_cons, turn_next ht hb]
          exact hz
        · rcases he with ⟨rfl, hr⟩ | ⟨j, rfl, hn, hj⟩
          · exact .inl ⟨rfl, hr⟩
          · exact .inr ⟨j, rfl, hn, hj⟩

/-! ## What a loop asks -/

/-- The state in each turn and the answer it got, the turn the loop ends in
included. -/
def asked (top : σ → Option (Except ε α)) (body : σ → ι → Except ε α ⊕ σ) :
    σ → List ι → List (σ × ι)
  | _, [] => []
  | x, i :: s =>
    match top x with
    | some _ => []
    | none =>
      (x, i) :: match body x i with
        | .inl _ => []
        | .inr y => asked top body y s

@[simp] theorem asked_nil : asked top body x [] = [] := rfl

theorem asked_end (h : top x = some r) (s : List ι) : asked top body x s = [] := by
  cases s with
  | nil => rfl
  | cons i s => simp only [asked, h]

theorem asked_exit (h : top x = none) (hb : body x i = .inl r) (s : List ι) :
    asked top body x (i :: s) = [(x, i)] := by
  simp only [asked, h, hb]

theorem asked_next (h : top x = none) (hb : body x i = .inr y) (s : List ι) :
    asked top body x (i :: s) = (x, i) :: asked top body y s := by
  simp only [asked, h, hb]

theorem asked_ne_nil (h : top x = none) (i : ι) (s : List ι) : asked top body x (i :: s) ≠ [] := by
  simp only [asked, h]
  exact List.cons_ne_nil _ _

theorem asked_append (h : runFrom (turn top body) x s = some y) (t : List ι) :
    asked top body x (s ++ t) = asked top body x s ++ asked top body y t := by
  induction s generalizing x with
  | nil =>
    cases h
    rfl
  | cons i s ih =>
    rw [runFrom_cons] at h
    obtain ⟨z, hz, h⟩ := Option.bind_eq_some_iff.mp h
    obtain ⟨ht, hb⟩ := turn_eq_some_iff.mp hz
    rw [List.cons_append, asked_next ht hb, asked_next ht hb, ih h, List.cons_append]

theorem length_asked (h : runFrom (turn top body) x s = some y) :
    (asked top body x s).length = s.length := by
  induction s generalizing x with
  | nil => rfl
  | cons i s ih =>
    rw [runFrom_cons] at h
    obtain ⟨z, hz, h⟩ := Option.bind_eq_some_iff.mp h
    obtain ⟨ht, hb⟩ := turn_eq_some_iff.mp hz
    rw [asked_next ht hb, List.length_cons, List.length_cons, ih h]

/-- How many answers a routine asks for, the one it waits for included. -/
def calls (m : Script ι ε α) (s : List ι) : Nat :=
  match m.run s with
  | none => s.length + 1
  | some (_, t) => s.length - t.length

theorem calls_none {m : Script ι ε α} (h : m.run s = none) : m.calls s = s.length + 1 := by
  rw [calls, h]

theorem calls_some {m : Script ι ε α} (h : m.run s = some (r, t)) :
    m.calls s = s.length - t.length := by
  rw [calls, h]

theorem calls_congr {m m' : Script ι ε α} (h : m.run s = m'.run s) : m.calls s = m'.calls s := by
  rw [calls, h, calls]

/-- A routine that asks for no more than there is returns. -/
theorem run_of_calls_le {m : Script ι ε α} (h : m.calls s ≤ s.length) :
    ∃ r t, m.run s = some (r, t) := by
  cases hr : m.run s with
  | none =>
    rw [calls_none hr] at h
    omega
  | some p => exact ⟨p.1, p.2, rfl⟩

/-- A loop that is within a bound at each head, and below it where it asks. -/
theorem calls_loop_le {n : Nat}
    (h : ∀ used y, used <+: s → runFrom (turn top body) x used = some y →
      used.length ≤ n ∧ (top y = none → used.length < n)) :
    (loop top body x).calls s ≤ n := by
  cases hr : (loop top body x).run s with
  | none =>
    obtain ⟨y, hy, ht⟩ := run_loop_none hr
    rw [calls_none hr]
    exact (h s y (List.prefix_refl s) hy).2 ht
  | some p =>
    obtain ⟨r, t⟩ := p
    rw [calls_some hr]
    obtain ⟨used, y, hy, ⟨rfl, -⟩ | ⟨i, rfl, ht, -⟩⟩ := run_loop_some hr
    · have := (h used y (List.prefix_append _ _) hy).1
      rw [List.length_append]
      omega
    · have := (h used y (List.prefix_append _ _) hy).2 ht
      rw [List.length_append, List.length_cons]
      omega

section Bind

variable {m : Script ι ε α} {f : α → Script ι ε β}

theorem calls_bind_none (h : m.run s = none) : (m >>= f).calls s = m.calls s := by
  rw [calls_none h, calls_none (run_bind_none h f)]

theorem calls_bind_error {e : ε} (h : m.run s = some (.error e, t)) :
    (m >>= f).calls s = m.calls s := by
  rw [calls_some h, calls_some (run_bind_error h f)]

theorem calls_bind_pure (g : α → β) : (m >>= fun a => pure (g a)).calls s = m.calls s := by
  cases h : m.run s with
  | none => exact calls_bind_none h
  | some p =>
    obtain ⟨r, t⟩ := p
    cases r with
    | error e => exact calls_bind_error h
    | ok a => rw [calls_some h, calls_some ((run_bind_ok h _).trans (run_pure (g a) t))]

/-- What follows a routine asks for its own answers. -/
theorem calls_bind_ok {a : α} (hm : Causal m) (hf : Causal (f a)) (h : m.run s = some (.ok a, t)) :
    (m >>= f).calls s = m.calls s + (f a).calls t := by
  obtain ⟨used, rfl, -⟩ := hm _ _ _ h
  rw [calls_some h, calls, run_bind_ok h, calls]
  cases hr : (f a).run t with
  | none =>
    simp only [List.length_append]
    omega
  | some p =>
    obtain ⟨r, u⟩ := p
    obtain ⟨used', rfl, -⟩ := hf _ _ _ hr
    simp only [List.length_append]
    omega

end Bind

/-! ## Answers that are errors -/

/-- A routine that waits passes on the answer `i` as the error `e`. -/
def Passes (m : Script ι ε α) (i : ι) (e : ε) : Prop :=
  ∀ s t, m.run s = none → m.run (s ++ i :: t) = some (.error e, t)

/-- A routine blames the error `e` on the answer `i`. -/
def Blames (m : Script ι ε α) (i : ι) (e : ε) : Prop :=
  ∀ s t, m.run s = some (.error e, t) → i ∈ s

section Errors

variable {m : Script ι ε α} {f : α → Script ι ε β} {e : ε}

theorem passes_lift (r : Except ε α) (i : ι) (e : ε) : Passes (lift r) i e := by
  intro s t h
  cases h

theorem passes_pure (a : α) (i : ι) (e : ε) : Passes (pure a : Script ι ε α) i e :=
  passes_lift (.ok a) i e

theorem passes_loop (hb : ∀ x, body x i = .inl (.error e)) (x : σ) :
    Passes (loop top body x) i e := by
  intro s t h
  obtain ⟨y, hy, ht⟩ := run_loop_none h
  rw [run_loop_append hy, loop_exit ht (hb y)]

theorem passes_bind (hc : Causal m) (hm : Passes m i e) (hf : ∀ a, Passes (f a) i e) :
    Passes (m >>= f) i e := by
  intro s t h
  rw [run_bind] at h
  split at h
  · rename_i hs
    exact run_bind_error (hm s t hs) f
  · cases h
  · rename_i a u hs
    obtain ⟨used, rfl, hu⟩ := hc _ _ _ hs
    rw [List.append_assoc, run_bind_ok (hu _)]
    exact hf a u t h

theorem blames_lift {r : Except ε α} (h : r ≠ .error e) (i : ι) : Blames (lift r) i e := by
  intro s t hr
  exact absurd (congrArg Prod.fst (Option.some.inj hr)) h

theorem blames_pure (a : α) (i : ι) (e : ε) : Blames (pure a : Script ι ε α) i e :=
  blames_lift (r := .ok a) (by simp) i

theorem blames_loop (ht : ∀ x, top x ≠ some (.error e))
    (hb : ∀ x j, body x j = .inl (.error e) → j = i) (x : σ) : Blames (loop top body x) i e := by
  intro s t h
  obtain ⟨used, y, -, ⟨-, hr⟩ | ⟨j, rfl, -, hj⟩⟩ := run_loop_some h
  · exact absurd hr (ht y)
  · obtain rfl := hb y j hj
    simp

theorem blames_bind (hc : Causal m) (hm : Blames m i e) (hf : ∀ a, Blames (f a) i e) :
    Blames (m >>= f) i e := by
  intro s t h
  rw [run_bind] at h
  split at h
  · cases h
  · rename_i hs
    cases h
    exact hm s t hs
  · rename_i a u hs
    obtain ⟨used, rfl, -⟩ := hc _ _ _ hs
    exact List.mem_append_right used (hf a u t h)

end Errors

end Lib.Script
