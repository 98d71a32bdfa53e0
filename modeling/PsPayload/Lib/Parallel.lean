import Mathlib.Logic.Function.Basic
import PsPayload.Lib.Environment

/-!
# Programs side by side

Threads that each run a program make their calls in one environment, one call
after the other in any order; `answer i` is what it answers to thread `i`. A run
of them all is a run of the transition system `sideStep`.

`Under` is `Within` for a program with others beside it. Between two of its calls
they may change the environment as the relation `R` says, its rely, and its own
calls change it as `G` says, its guarantee. Where each guarantees what the others
rely on, each of them does in every run what it does by itself (`side_by_side`).
-/

namespace Lib.Prog

variable {κ ρ σ α β ω : Type}

/-- The program ends as `Q` says when it is run from `w`, and has `n` calls for
that, while others do what `R` allows. -/
def Under (answer : ω → κ → ρ → Option ω) (R G : ω → ω → Prop) (Q : ω → α → Prop) :
    Prog κ ρ σ α → Nat → ω → Prop
  | done a, _, w => ∀ v, R w v → Q v a
  | call c k, n, w =>
    ∃ m, n = m + 1 ∧ ∀ v, R w v → (∃ r, (answer v c r).isSome) ∧
      ∀ r u, answer v c r = some u → G v u ∧ (k r).Under answer R G Q m u
  | loop c next exit x, n, w =>
    ∃ J : Nat → ω → σ → Prop, J n w x ∧ (∀ n w v y, J n w y → R w v → J n v y) ∧
      ∀ n w y, J n w y → ∃ m, n = m + 1 ∧ (∃ r, (answer w c r).isSome) ∧
        ∀ r u, answer w c r = some u → G w u ∧
          (∀ z, next y r = some z → J m u z) ∧
          (next y r = none → (exit y r).Under answer R G Q m u)

section Under

variable {answer : ω → κ → ρ → Option ω} {R G : ω → ω → Prop} {Q Q' : ω → α → Prop}
  {p : Prog κ ρ σ α} {n m : Nat} {w v : ω} {c : κ}

theorem under_call {k : ρ → Prog κ ρ σ α} (h : ∀ v, R w v → (∃ r, (answer v c r).isSome) ∧
    ∀ r u, answer v c r = some u → G v u ∧ (k r).Under answer R G Q n u) :
    (call c k).Under answer R G Q (n + 1) w :=
  ⟨n, rfl, h⟩

theorem under_mono (hQ : ∀ w a, Q w a → Q' w a) (hn : n ≤ m) (h : p.Under answer R G Q n w) :
    p.Under answer R G Q' m w := by
  induction p generalizing n m w with
  | done a => exact fun v hv => hQ v a (h v hv)
  | call c k ih =>
    obtain ⟨n, rfl, h⟩ := h
    obtain ⟨m, rfl⟩ : ∃ k, m = k + 1 := ⟨m - 1, by omega⟩
    refine under_call fun v hv => ⟨(h v hv).1, fun r u hu => ?_⟩
    obtain ⟨hg, hk⟩ := (h v hv).2 r u hu
    exact ⟨hg, ih r (by omega) hk⟩
  | loop c next exit x ih =>
    obtain ⟨J, hJ, hR, h⟩ := h
    refine ⟨fun m w y => ∃ n ≤ m, J n w y, ⟨n, hn, hJ⟩,
      fun m w v y ⟨n, hn, hy⟩ hv => ⟨n, hn, hR n w v y hy hv⟩, fun m w y ⟨n, hn, hy⟩ => ?_⟩
    obtain ⟨n, rfl, hc, h⟩ := h n w y hy
    obtain ⟨m, rfl⟩ : ∃ k, m = k + 1 := ⟨m - 1, by omega⟩
    refine ⟨m, rfl, hc, fun r u hu => ?_⟩
    obtain ⟨hg, hz, he⟩ := h r u hu
    exact ⟨hg, fun z hn => ⟨n, by omega, hz z hn⟩, fun hn => ih y r (by omega) (he hn)⟩

theorem under_post (hQ : ∀ w a, Q w a → Q' w a) (h : p.Under answer R G Q n w) :
    p.Under answer R G Q' n w :=
  under_mono hQ (Nat.le_refl n) h

theorem under_le (hn : n ≤ m) (h : p.Under answer R G Q n w) : p.Under answer R G Q m w :=
  under_mono (fun _ _ h => h) hn h

/-- One program after the other. -/
theorem under_bind (hR : ∀ w, R w w) {f : α → Prog κ ρ σ β} {Q : ω → β → Prop}
    (h : p.Under answer R G (fun w a => (f a).Under answer R G Q m w) n w) :
    (p.bind f).Under answer R G Q (n + m) w := by
  induction p generalizing n w with
  | done a => exact under_le (Nat.le_add_left m n) (h w (hR w))
  | call c k ih =>
    obtain ⟨n, rfl, h⟩ := h
    refine ⟨n + m, by omega, fun v hv => ⟨(h v hv).1, fun r u hu => ?_⟩⟩
    obtain ⟨hg, hk⟩ := (h v hv).2 r u hu
    exact ⟨hg, ih r hk⟩
  | loop c next exit x ih =>
    obtain ⟨J, hJ, hJR, h⟩ := h
    refine ⟨fun k w y => ∃ n, k = n + m ∧ J n w y, ⟨n, rfl, hJ⟩,
      fun k w v y ⟨n, hk, hy⟩ hv => ⟨n, hk, hJR n w v y hy hv⟩, ?_⟩
    rintro _ w y ⟨n, rfl, hy⟩
    obtain ⟨n, rfl, hc, h⟩ := h n w y hy
    refine ⟨n + m, by omega, hc, fun r u hu => ?_⟩
    obtain ⟨hg, hz, he⟩ := h r u hu
    exact ⟨hg, fun z hn => ⟨n, rfl, hz z hn⟩, fun hn => ih y r (he hn)⟩

/-- What the others do in the meantime does not matter. -/
theorem under_rely (hT : ∀ u v w, R u v → R v w → R u w) (h : p.Under answer R G Q n w) (hv : R w v) :
    p.Under answer R G Q n v := by
  cases p with
  | done a => exact fun u hu => h u (hT _ _ _ hv hu)
  | call c k =>
    obtain ⟨n, rfl, h⟩ := h
    exact under_call fun u hu => h u (hT _ _ _ hv hu)
  | loop c next exit x =>
    obtain ⟨J, hJ, hJR, h⟩ := h
    exact ⟨J, hJR n w v x hJ hv, hJR, h⟩

/-- A call of the program, when it is made. -/
theorem under_pending (hR : ∀ w, R w w) (h : p.Under answer R G Q n w) (hc : p.pending = some c) :
    ∃ m, n = m + 1 ∧ (∃ r, (answer w c r).isSome) ∧
      ∀ r u, answer w c r = some u → G w u ∧ (p.resume r).Under answer R G Q m u := by
  cases p with
  | done a => cases hc
  | call c' k =>
    cases hc
    obtain ⟨n, rfl, h⟩ := h
    exact ⟨n, rfl, h w (hR w)⟩
  | loop c' next exit x =>
    cases hc
    obtain ⟨J, hJ, hJR, h⟩ := h
    obtain ⟨m, rfl, hc, hx⟩ := h n w x hJ
    refine ⟨m, rfl, hc, fun r u hu => ?_⟩
    obtain ⟨hg, hz, he⟩ := hx r u hu
    refine ⟨hg, ?_⟩
    rw [resume]
    cases hn : next x r with
    | none => exact he hn
    | some z => exact ⟨J, hz z hn, hJR, h⟩

theorem under_result (hR : ∀ w, R w w) {a : α} (h : p.Under answer R G Q n w)
    (ha : p.result = some a) : Q w a := by
  rw [eq_done_of_result ha] at h
  exact h w (hR w)

/-- By itself. -/
theorem Under.within (hR : ∀ w, R w w) (h : p.Under answer R G Q n w) :
    p.Within answer Q n w := by
  induction p generalizing n w with
  | done a => exact h w (hR w)
  | call c k ih =>
    obtain ⟨n, rfl, h⟩ := h
    exact within_call (h w (hR w)).1 fun r u hu => ih r ((h w (hR w)).2 r u hu).2
  | loop c next exit x ih =>
    obtain ⟨J, hJ, -, h⟩ := h
    refine ⟨J, hJ, fun n w y hy => ?_⟩
    obtain ⟨m, rfl, hc, h⟩ := h n w y hy
    refine ⟨m, rfl, hc, fun r u hu => ?_⟩
    obtain ⟨-, hz, he⟩ := h r u hu
    exact ⟨hz, fun hn => ih y r (he hn)⟩

end Under

/-! ## Side by side -/

section Side

variable {ι : Type} [DecidableEq ι] {τ : ι → Type}

/-- A call of thread `l.1` and its answer. -/
def sideStep (answer : ι → ω → κ → ρ → Option ω) (s : ω × ((i : ι) → Prog κ ρ σ (τ i)))
    (l : ι × ρ) : Option (ω × ((i : ι) → Prog κ ρ σ (τ i))) :=
  (s.2 l.1).pending.bind fun c =>
    (answer l.1 s.1 c l.2).map fun w => (w, Function.update s.2 l.1 ((s.2 l.1).resume l.2))

/-- The calls of thread `i`. -/
def callsOf (i : ι) (ls : List (ι × ρ)) : Nat := ls.countP fun l => l.1 = i

variable {answer : ι → ω → κ → ρ → Option ω} {s t : ω × ((i : ι) → Prog κ ρ σ (τ i))}
  {ls : List (ι × ρ)} {R G : ι → ω → ω → Prop} {Q : (i : ι) → ω → τ i → Prop} {n : ι → Nat}

theorem callsOf_concat (i : ι) (ls : List (ι × ρ)) (l : ι × ρ) :
    callsOf i (ls ++ [l]) = callsOf i ls + if l.1 = i then 1 else 0 := by
  rw [callsOf, List.countP_append, List.countP_singleton, callsOf]
  simp

/-- The first call of a thread. -/
theorem exists_first {i : ι} (h : callsOf i ls ≠ 0) :
    ∃ as r bs, ls = as ++ (i, r) :: bs ∧ callsOf i as = 0 := by
  induction ls with
  | nil => exact absurd rfl h
  | cons l ls ih =>
    obtain ⟨j, r⟩ := l
    by_cases hj : j = i
    · exact ⟨[], r, ls, by rw [hj, List.nil_append], rfl⟩
    · rw [callsOf, List.countP_cons_of_neg (by simpa using hj)] at h
      obtain ⟨as, r', bs, rfl, has⟩ := ih h
      exact ⟨(j, r) :: as, r', bs, rfl,
        by rw [callsOf, List.countP_cons_of_neg (by simpa using hj)]; exact has⟩

/-- Its last call. -/
theorem exists_last {i : ι} (h : callsOf i ls ≠ 0) :
    ∃ as r bs, ls = as ++ (i, r) :: bs ∧ callsOf i bs = 0 := by
  have hrev : callsOf i ls.reverse ≠ 0 := by rwa [callsOf, List.countP_reverse]
  obtain ⟨as, r, bs, hls, has⟩ := exists_first hrev
  refine ⟨bs.reverse, r, as.reverse, ?_, by rwa [callsOf, List.countP_reverse]⟩
  rw [← List.reverse_reverse ls, hls]
  simp

/-- The calls of the others leave a thread where it is. -/
theorem side_other {i : ι} (h : runFrom (sideStep answer) s ls = some t) (hi : callsOf i ls = 0) :
    t.2 i = s.2 i := by
  refine invariant (I := fun ls t => callsOf i ls = 0 → t.2 i = s.2 i) (fun _ => rfl) ?_ h hi
  rintro ls l t u - ih hu hi
  rw [callsOf_concat] at hi
  have hl : ¬ l.1 = i := fun hl => by
    rw [if_pos hl] at hi
    omega
  obtain ⟨c, -, hu⟩ := Option.bind_eq_some_iff.mp hu
  obtain ⟨w, -, rfl⟩ := Option.map_eq_some_iff.mp hu
  exact (Function.update_of_ne (Ne.symm hl) ..).trans (ih (by omega))

/-- A thread that has gone further than one call could take it: the state before and
after its first call, and before and after its last. -/
theorem exists_two {i : ι} (h : runFrom (sideStep answer) s ls = some t) (h0 : t.2 i ≠ s.2 i)
    (h1 : ∀ r, t.2 i ≠ (s.2 i).resume r) :
    ∃ as r bs r' cs u u' v v', ls = as ++ (i, r) :: (bs ++ (i, r') :: cs) ∧
      runFrom (sideStep answer) s as = some u ∧ u.2 i = s.2 i ∧
      sideStep answer u (i, r) = some u' ∧ runFrom (sideStep answer) u' bs = some v ∧
      sideStep answer v (i, r') = some v' ∧ v'.2 i = t.2 i := by
  obtain ⟨as, r, ms, rfl, has⟩ := exists_first fun hi => h0 (side_other h hi)
  obtain ⟨u, hu, h⟩ := runFrom_append_iff.mp h
  obtain ⟨u', hu', h⟩ := Option.bind_eq_some_iff.mp (runFrom_cons ▸ h)
  have hui := side_other hu has
  have hu'i : u'.2 i = (s.2 i).resume r := by
    obtain ⟨c, -, hc⟩ := Option.bind_eq_some_iff.mp hu'
    obtain ⟨w, -, rfl⟩ := Option.map_eq_some_iff.mp hc
    rw [← hui]
    exact Function.update_self ..
  obtain ⟨bs, r', cs, rfl, hcs⟩ := exists_last fun hi => h1 r ((side_other h hi).trans hu'i)
  obtain ⟨v, hv, h⟩ := runFrom_append_iff.mp h
  obtain ⟨v', hv', h⟩ := Option.bind_eq_some_iff.mp (runFrom_cons ▸ h)
  exact ⟨as, r, bs, r', cs, u, u', v, v', rfl, hu, hui, hu', hv, hv', (side_other h hcs).symm⟩

/-- What the rely and guarantee relations of the threads have to satisfy. -/
structure Compatible (R G : ι → ω → ω → Prop) : Prop where
  refl : ∀ i w, R i w w
  trans : ∀ i u v w, R i u v → R i v w → R i u w
  rely : ∀ i j, i ≠ j → ∀ w v, G i w v → R j w v

/-- `I` is kept, and where it holds, the change is as `E` says. -/
def Keeping (I : ω → Prop) (E : ω → ω → Prop) (w v : ω) : Prop := I w → I v ∧ E w v

omit [DecidableEq ι] in
theorem compatible_keeping {I : ω → Prop} {E F : ι → ω → ω → Prop} (hrefl : ∀ i w, E i w w)
    (htrans : ∀ i u v w, E i u v → E i v w → E i u w)
    (hrely : ∀ i j, i ≠ j → ∀ w v, I w → I v → F i w v → E j w v) :
    Compatible (fun i => Keeping I (E i)) (fun i => Keeping I (F i)) where
  refl i w hw := ⟨hw, hrefl i w⟩
  trans i u v w huv hvw hu := by
    obtain ⟨hv, huv⟩ := huv hu
    obtain ⟨hw, hvw⟩ := hvw hv
    exact ⟨hw, htrans i u v w huv hvw⟩
  rely i j hij w v hg hw := by
    obtain ⟨hv, hf⟩ := hg hw
    exact ⟨hv, hrely i j hij w v hw hv hf⟩

theorem side_step (hc : Compatible R G) {l : ι × ρ} {n : ι → Nat}
    (hs : ∀ i, (s.2 i).Under (answer i) (R i) (G i) (Q i) (n i) s.1)
    (h : sideStep answer s l = some t) :
    G l.1 s.1 t.1 ∧ ∃ m : ι → Nat, (∀ i, n i = m i + if l.1 = i then 1 else 0) ∧
      ∀ i, (t.2 i).Under (answer i) (R i) (G i) (Q i) (m i) t.1 := by
  obtain ⟨j, r⟩ := l
  obtain ⟨c, hp, h⟩ := Option.bind_eq_some_iff.mp h
  obtain ⟨w, hw, rfl⟩ := Option.map_eq_some_iff.mp h
  obtain ⟨k, hk, -, hj⟩ := under_pending (hc.refl j) (hs j) hp
  obtain ⟨hg, hj⟩ := hj r w hw
  refine ⟨hg, fun i => if j = i then k else n i, fun i => ?_, fun i => ?_⟩
  · dsimp only
    split
    · rename_i hi
      rw [← hi, hk]
    · rfl
  · by_cases hi : i = j
    · subst hi
      simpa using hj
    · simp only [Function.update_of_ne hi, if_neg (Ne.symm hi)]
      exact under_rely (hc.trans i) (hs i) (hc.rely j i (Ne.symm hi) _ _ hg)

/-- Every run of the threads: each of them still does what it does by itself. -/
theorem side_run (hc : Compatible R G)
    (hs : ∀ i, (s.2 i).Under (answer i) (R i) (G i) (Q i) (n i) s.1)
    (h : runFrom (sideStep answer) s ls = some t) :
    ∃ m : ι → Nat, (∀ i, n i = callsOf i ls + m i) ∧
      ∀ i, (t.2 i).Under (answer i) (R i) (G i) (Q i) (m i) t.1 := by
  refine invariant (I := fun ls t => ∃ m : ι → Nat, (∀ i, n i = callsOf i ls + m i) ∧
    ∀ i, (t.2 i).Under (answer i) (R i) (G i) (Q i) (m i) t.1)
    ⟨n, fun i => (Nat.zero_add _).symm, hs⟩ ?_ h
  rintro ls l t u - ⟨m, hm, ht⟩ hu
  obtain ⟨-, m', hm', hu⟩ := side_step hc ht hu
  refine ⟨m', fun i => ?_, hu⟩
  rw [hm i, hm' i, callsOf_concat]
  omega

/-- What every guarantee keeps holds in every run. -/
theorem side_invariant (hc : Compatible R G) {I : ω → Prop}
    (hI : ∀ i w v, I w → G i w v → I v) (hw : I s.1)
    (hs : ∀ i, (s.2 i).Under (answer i) (R i) (G i) (Q i) (n i) s.1)
    (h : runFrom (sideStep answer) s ls = some t) : I t.1 := by
  refine invariant (I := fun _ t => I t.1) hw ?_ h
  intro ls l t u ht hI' hu
  obtain ⟨m, -, ht⟩ := side_run hc hs ht
  exact hI l.1 _ _ hI' (side_step hc ht hu).1

/-- Every run of the threads goes on until all have ended: none makes more than
its calls, none is stuck, and each ends as its `Q` says. -/
def Return (answer : ι → ω → κ → ρ → Option ω) (Q : (i : ι) → ω → τ i → Prop) (n : ι → Nat)
    (s : ω × ((i : ι) → Prog κ ρ σ (τ i))) : Prop :=
  ∀ ls t, runFrom (sideStep answer) s ls = some t → ∀ i, callsOf i ls ≤ n i ∧
    ((t.2 i).result = none → ∃ r, (sideStep answer t (i, r)).isSome) ∧
    ∀ a, (t.2 i).result = some a → Q i t.1 a

/-- Threads that each guarantee what the others rely on. -/
theorem side_by_side (hc : Compatible R G)
    (hs : ∀ i, (s.2 i).Under (answer i) (R i) (G i) (Q i) (n i) s.1) :
    Return answer Q n s := by
  intro ls t h i
  obtain ⟨m, hm, ht⟩ := side_run hc hs h
  refine ⟨by rw [hm i]; exact Nat.le_add_right _ _, fun hn => ?_,
    fun a ha => under_result (hc.refl i) (ht i) ha⟩
  obtain ⟨c, hp⟩ := pending_of_result_none hn
  obtain ⟨-, -, ⟨r, hr⟩, -⟩ := under_pending (hc.refl i) (ht i) hp
  refine ⟨r, ?_⟩
  rw [sideStep, hp, Option.bind_some, Option.isSome_map]
  exact hr

end Side

end Lib.Prog
