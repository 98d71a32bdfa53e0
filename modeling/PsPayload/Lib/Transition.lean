import Mathlib.Data.List.Induction

/-!
# Transition systems

A system is a step function: a label leads from a state to at most one state.
`runFrom` takes a list of labels, `invariant` is the rule for what every run
keeps, `length_le_of_decreasing` bounds the length of the runs of a system
whose steps all use something up, `exists_between` finds the moment of a run at
which a number is reached, and `simulation` maps the runs of one system to those
of another.

A pool is a growing list of components of one system, each taking its own
steps: in a run of the pool, a component takes a run of its own
(`pool_component`), and `pool_map` is the rule for what it keeps.
-/

namespace Lib

variable {σ ι ν : Type}

/-- The state after the labels, if each of them is possible in its turn. -/
def runFrom (step : σ → ι → Option σ) (s : σ) (ls : List ι) : Option σ := ls.foldlM step s

section Run

variable {step : σ → ι → Option σ} {s t : σ} {ls ms : List ι} {l : ι}

@[simp] theorem runFrom_nil : runFrom step s [] = some s := rfl

theorem runFrom_cons : runFrom step s (l :: ls) = (step s l).bind (runFrom step · ls) :=
  List.foldlM_cons

theorem runFrom_append_iff :
    runFrom step s (ls ++ ms) = some t ↔
      ∃ u, runFrom step s ls = some u ∧ runFrom step u ms = some t := by
  rw [runFrom, List.foldlM_append]
  exact Option.bind_eq_some_iff

theorem runFrom_concat_iff :
    runFrom step s (ls ++ [l]) = some t ↔ ∃ u, runFrom step s ls = some u ∧ step u l = some t := by
  rw [runFrom_append_iff]
  simp [runFrom_cons]

@[simp] theorem runFrom_singleton : runFrom step s [l] = step s l := by
  simp [runFrom_cons]

/-- What holds at the start and is kept by each step holds after every run,
with the labels taken so far. -/
theorem invariant {I : List ι → σ → Prop} (hinit : I [] s)
    (hstep : ∀ ls l t u, runFrom step s ls = some t → I ls t → step t l = some u → I (ls ++ [l]) u)
    (h : runFrom step s ls = some t) : I ls t := by
  induction ls using List.reverseRecOn generalizing t with
  | nil =>
    cases h
    exact hinit
  | append_singleton ls l ih =>
    obtain ⟨u, hu, hl⟩ := runFrom_concat_iff.mp h
    exact hstep ls l u t hu (ih hu) hl

theorem length_le_of_decreasing {I : σ → Prop} {m : σ → Nat} (hinit : I s)
    (hstep : ∀ l t u, I t → step t l = some u → I u ∧ m u < m t)
    (h : runFrom step s ls = some t) : ls.length + m t ≤ m s := by
  suffices I t ∧ ls.length + m t ≤ m s from this.2
  refine invariant (I := fun ls t => I t ∧ ls.length + m t ≤ m s) ⟨hinit, by simp⟩ ?_ h
  intro ls l t u _ ⟨hi, hle⟩ hl
  have := hstep l t u hi hl
  rw [List.length_append, List.length_singleton]
  exact ⟨this.1, by omega⟩

/-- A number that goes up by one at most in each step takes every value in between. -/
theorem exists_between {I : σ → Prop} {f : σ → Nat}
    (hstep : ∀ s l t, I s → step s l = some t → I t ∧ f t ≤ f s + 1) (hinit : I s)
    (h : runFrom step s ls = some t) {n : Nat} (hs : f s ≤ n) (ht : n ≤ f t) :
    ∃ ls₁ ls₂ u, ls = ls₁ ++ ls₂ ∧ runFrom step s ls₁ = some u ∧
      runFrom step u ls₂ = some t ∧ f u = n := by
  induction ls generalizing s with
  | nil =>
    cases h
    exact ⟨[], [], _, rfl, rfl, rfl, Nat.le_antisymm hs ht⟩
  | cons l ls ih =>
    by_cases hn : f s = n
    · exact ⟨[], l :: ls, s, rfl, rfl, h, hn⟩
    rw [runFrom_cons] at h
    obtain ⟨v, hv, h⟩ := Option.bind_eq_some_iff.mp h
    obtain ⟨hI, hle⟩ := hstep s l v hinit hv
    obtain ⟨ls₁, ls₂, u, rfl, h₁, h₂, hu⟩ := ih hI h (by omega)
    exact ⟨l :: ls₁, ls₂, u, rfl, by rw [runFrom_cons, hv]; exact h₁, h₂, hu⟩

/-- A system whose every step is a run of another one, seen through `f` and
`g`: so are its runs. -/
theorem simulation {τ κ : Type} {step' : τ → κ → Option τ} {f : σ → τ} {g : ι → List κ}
    (hstep : ∀ s l t, step s l = some t → runFrom step' (f s) (g l) = some (f t))
    (h : runFrom step s ls = some t) : runFrom step' (f s) (ls.flatMap g) = some (f t) := by
  induction ls generalizing s with
  | nil =>
    cases h
    rfl
  | cons l ls ih =>
    rw [runFrom_cons] at h
    obtain ⟨u, hu, h⟩ := Option.bind_eq_some_iff.mp h
    rw [List.flatMap_cons, runFrom_append_iff]
    exact ⟨f u, hstep s l u hu, ih h⟩

end Run

/-! ## Pools -/

inductive PoolLabel (ν ι : Type) where
  | add (a : ν)
  | on (i : Nat) (l : ι)
  deriving DecidableEq, Repr

/-- A new component, or a step of one of those there are. -/
def poolStep (init : ν → σ) (step : σ → ι → Option σ) (cs : List σ) :
    PoolLabel ν ι → Option (List σ)
  | .add a => some (cs ++ [init a])
  | .on i l => cs[i]?.bind fun c => (step c l).map fun c' => cs.set i c'

/-- The labels that component `i` takes. -/
def labelsOf (i : Nat) (ls : List (PoolLabel ν ι)) : List ι :=
  ls.filterMap fun
    | .add _ => none
    | .on j l => if j = i then some l else none

theorem labelsOf_concat_add (i : Nat) (ls : List (PoolLabel ν ι)) (a : ν) :
    labelsOf i (ls ++ [.add a]) = labelsOf i ls := by
  simp [labelsOf]

theorem labelsOf_concat_on (i j : Nat) (ls : List (PoolLabel ν ι)) (l : ι) :
    labelsOf i (ls ++ [.on j l]) = if j = i then labelsOf i ls ++ [l] else labelsOf i ls := by
  rw [labelsOf, List.filterMap_append]
  split
  · simp [labelsOf, *]
  · simp [labelsOf, *]

/-- In a run of the pool each component takes a run of its own, with the
labels that are its. -/
theorem pool_component {init : ν → σ} {step : σ → ι → Option σ} {ls : List (PoolLabel ν ι)}
    {cs : List σ} (h : runFrom (poolStep init step) [] ls = some cs) {i : Nat} {c : σ}
    (hc : cs[i]? = some c) : ∃ a, runFrom step (init a) (labelsOf i ls) = some c := by
  suffices ∀ i, (∀ c, cs[i]? = some c → ∃ a, runFrom step (init a) (labelsOf i ls) = some c) ∧
      (cs.length ≤ i → labelsOf i ls = []) from (this i).1 c hc
  clear hc
  refine invariant (I := fun ls cs => ∀ i,
    (∀ c, cs[i]? = some c → ∃ a, runFrom step (init a) (labelsOf i ls) = some c) ∧
      (cs.length ≤ i → labelsOf i ls = [])) (by simp [labelsOf]) ?_ h
  intro ls l cs cs' _ ih hl i
  obtain ⟨ihc, ihn⟩ := ih i
  match l with
  | .add a =>
    cases hl
    rw [labelsOf_concat_add]
    refine ⟨fun c hc => ?_, fun hle => ihn (by simp at hle; omega)⟩
    rw [List.getElem?_append] at hc
    split at hc
    · exact ihc c hc
    · rename_i hle
      rw [List.getElem?_singleton] at hc
      split at hc
      · cases hc
        exact ⟨a, by rw [ihn (by omega), runFrom_nil]⟩
      · cases hc
  | .on j l =>
    obtain ⟨d, hd, hl⟩ := Option.bind_eq_some_iff.mp hl
    obtain ⟨d', hd', rfl⟩ := Option.map_eq_some_iff.mp hl
    have hj := (List.getElem?_eq_some_iff.mp hd).1
    rw [labelsOf_concat_on, List.length_set]
    refine ⟨fun c hc => ?_, fun hle => ?_⟩
    · by_cases hij : j = i
      · subst hij
        rw [List.getElem?_set_self hj] at hc
        cases hc
        obtain ⟨a, ha⟩ := ihc d hd
        exact ⟨a, by rw [if_pos rfl]; exact runFrom_concat_iff.mpr ⟨d, ha, hd'⟩⟩
      · rw [List.getElem?_set_ne hij] at hc
        rw [if_neg hij]
        exact ihc c hc
    · rw [if_neg (by omega)]
      exact ihn hle

/-- What the components were started with. -/
def addsOf (ls : List (PoolLabel ν ι)) : List ν :=
  ls.filterMap fun
    | .add a => some a
    | .on _ _ => none

theorem mem_addsOf {ls : List (PoolLabel ν ι)} {a : ν} : a ∈ addsOf ls ↔ .add a ∈ ls := by
  simp only [addsOf, List.mem_filterMap]
  refine ⟨fun ⟨l, hl, h⟩ => ?_, fun h => ⟨_, h, rfl⟩⟩
  cases l with
  | add b =>
    cases h
    exact hl
  | on i l => cases h

/-- What no step of a component changes is as it was when the component was
added. -/
theorem pool_map {κ : Type} {init : ν → σ} {step : σ → ι → Option σ} {f : σ → κ}
    (hf : ∀ c l c', step c l = some c' → f c' = f c) {ls : List (PoolLabel ν ι)} {cs : List σ}
    (h : runFrom (poolStep init step) [] ls = some cs) :
    cs.map f = (addsOf ls).map fun a => f (init a) := by
  refine invariant (I := fun ls cs => cs.map f = (addsOf ls).map fun a => f (init a)) rfl ?_ h
  intro ls l cs cs' _ ih hl
  rw [addsOf, List.filterMap_append, List.map_append, ← addsOf, ← ih]
  cases l with
  | add a =>
    cases hl
    exact List.map_append
  | on i l =>
    obtain ⟨c, hc, hl⟩ := Option.bind_eq_some_iff.mp hl
    obtain ⟨c', hc', rfl⟩ := Option.map_eq_some_iff.mp hl
    obtain ⟨hi, rfl⟩ := List.getElem?_eq_some_iff.mp hc
    have hm : i < (cs.map f).length := by rwa [List.length_map]
    rw [List.map_set, hf _ _ _ hc', ← List.getElem_map f (h := hm), List.set_getElem_self]
    exact (List.append_nil _).symm

end Lib
