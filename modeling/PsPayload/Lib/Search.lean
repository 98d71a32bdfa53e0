import Mathlib.Data.List.Infix

/-!
# Searching a list for a slice

`findSlice pat l` is the offset of the first occurrence of `pat` in `l`, as a
scan over the windows of `l` finds it. `findSlice_eq_some_iff` and
`findSlice_eq_none_iff` say what it finds; the rest is what a reader that
searches a growing buffer needs:

* `findSlice_append`: what follows an occurrence does not move it;
* `findSlice_of_append`: the first occurrence in a longer list is found in a
  shorter one exactly when it lies in it whole;
* `findSlice_cons`: skipping what cannot start an occurrence.
-/

namespace Lib

variable {α : Type}

/-- The windows of `n` consecutive elements of `l`, in order. -/
def windows (n : Nat) (l : List α) : List (List α) :=
  (List.range (l.length + 1 - n)).map fun i => (l.drop i).take n

/-- The offset of the first window of `l` that is `pat`. -/
def findSlice [DecidableEq α] (pat l : List α) : Option Nat :=
  (windows pat.length l).findIdx? (· == pat)

theorem add_length_le_of_prefix_drop {pat l : List α} (hp : pat ≠ []) {i : Nat}
    (h : pat <+: l.drop i) : i + pat.length ≤ l.length := by
  have hl := h.length_le
  have := List.length_pos_iff.mpr hp
  rw [List.length_drop] at hl
  omega

/-- Whether `pat` starts at `j` depends only on what lies up to its end. -/
theorem prefix_drop_append {pat l r : List α} {j : Nat} (hj : j + pat.length ≤ l.length) :
    pat <+: (l ++ r).drop j ↔ pat <+: l.drop j := by
  rw [List.drop_append_of_le_length (by omega)]
  refine ⟨fun h => ?_, fun h => h.trans (List.prefix_append _ _)⟩
  exact List.prefix_of_prefix_length_le h (List.prefix_append _ _) (by rw [List.length_drop]; omega)

variable [DecidableEq α]

theorem findSlice_eq_some_iff {pat l : List α} (hp : pat ≠ []) {i : Nat} :
    findSlice pat l = some i ↔ pat <+: l.drop i ∧ ∀ j < i, ¬ pat <+: l.drop j := by
  simp only [findSlice, List.findIdx?_eq_some_iff_getElem, windows, List.getElem_map,
    List.getElem_range, List.length_map, List.length_range, beq_iff_eq, List.prefix_iff_eq_take,
    eq_comm (a := pat)]
  refine ⟨fun ⟨_, h, hj⟩ => ?_, fun ⟨h, hj⟩ => ?_⟩
  · exact ⟨h, hj⟩
  · have := add_length_le_of_prefix_drop hp (List.prefix_iff_eq_take.mpr h.symm)
    exact ⟨by omega, h, hj⟩

theorem findSlice_eq_none_iff {pat l : List α} (hp : pat ≠ []) :
    findSlice pat l = none ↔ ∀ i, ¬ pat <+: l.drop i := by
  simp only [findSlice, List.findIdx?_eq_none_iff, windows, List.mem_map, List.mem_range,
    beq_eq_false_iff_ne, forall_exists_index, and_imp, forall_apply_eq_imp_iff₂]
  refine ⟨fun h i hi => ?_, fun h i _ e => ?_⟩
  · have := add_length_le_of_prefix_drop hp hi
    exact h i (by omega) (List.prefix_iff_eq_take.mp hi).symm
  · exact h i (List.prefix_iff_eq_take.mpr e.symm)

theorem findSlice_isSome_iff {pat l : List α} (hp : pat ≠ []) :
    (findSlice pat l).isSome ↔ ∃ i, pat <+: l.drop i := by
  rw [← not_iff_not, Bool.not_eq_true, Option.isSome_eq_false_iff, Option.isNone_iff_eq_none,
    findSlice_eq_none_iff hp, not_exists]

/-- An occurrence lies within the list. -/
theorem findSlice_add_le {pat l : List α} (hp : pat ≠ []) {i : Nat} (h : findSlice pat l = some i) :
    i + pat.length ≤ l.length :=
  add_length_le_of_prefix_drop hp ((findSlice_eq_some_iff hp).mp h).1

/-- The first occurrence stays the first when more follows. -/
theorem findSlice_append {pat l : List α} (hp : pat ≠ []) {i : Nat} (h : findSlice pat l = some i)
    (r : List α) : findSlice pat (l ++ r) = some i := by
  have hl := findSlice_add_le hp h
  rw [findSlice_eq_some_iff hp] at h ⊢
  refine ⟨(prefix_drop_append hl).mpr h.1, fun j hj => ?_⟩
  rw [prefix_drop_append (by omega)]
  exact h.2 j hj

/-- Of the first occurrence in `l ++ r`, the part `l` shows it exactly when
the occurrence ends within `l`. -/
theorem findSlice_of_append {pat l r : List α} (hp : pat ≠ []) {i : Nat}
    (h : findSlice pat (l ++ r) = some i) :
    findSlice pat l = if i + pat.length ≤ l.length then some i else none := by
  split
  · rename_i hl
    rw [findSlice_eq_some_iff hp] at h ⊢
    refine ⟨(prefix_drop_append hl).mp h.1, fun j hj => ?_⟩
    rw [← prefix_drop_append (r := r) (by omega)]
    exact h.2 j hj
  · rename_i hl
    cases hf : findSlice pat l with
    | none => rfl
    | some j =>
      have := findSlice_append hp hf r
      obtain rfl : j = i := by simpa [this] using h
      exact absurd (findSlice_add_le hp hf) hl

theorem findSlice_none_of_append {pat l r : List α} (hp : pat ≠ [])
    (h : findSlice pat (l ++ r) = none) : findSlice pat l = none := by
  cases hf : findSlice pat l with
  | none => rfl
  | some j => simp [findSlice_append hp hf r] at h

/-- One element further, where `pat` does not start here. -/
theorem findSlice_cons {pat l : List α} (hp : pat ≠ []) {a : α} (h : ¬ pat <+: a :: l) :
    findSlice pat (a :: l) = (findSlice pat l).map (· + 1) := by
  cases hf : findSlice pat l with
  | none =>
    rw [findSlice_eq_none_iff hp] at hf
    rw [Option.map_none, findSlice_eq_none_iff hp]
    rintro (_ | i)
    · exact h
    · exact hf i
  | some i =>
    rw [findSlice_eq_some_iff hp] at hf
    rw [Option.map_some, findSlice_eq_some_iff hp]
    refine ⟨hf.1, ?_⟩
    rintro (_ | j) hj
    · exact h
    · exact hf.2 j (by omega)

theorem findSlice_self_append {pat : List α} (hp : pat ≠ []) (r : List α) :
    findSlice pat (pat ++ r) = some 0 := by
  rw [findSlice_eq_some_iff hp]
  exact ⟨List.prefix_append _ _, fun j hj => absurd hj (Nat.not_lt_zero j)⟩

end Lib
