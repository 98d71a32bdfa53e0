import PsPayload.Lib.Search

/-!
# Lines ended by a two-symbol terminator

Text in lines, each ended by the two symbols `cr lf` (`cr ≠ lf`), and a head
of such lines ended by an empty one. `splitLines` splits at every terminator,
from the left. A line may contain `cr` or `lf` alone, but not the terminator:
`splitLines_append` and `splitLines_eq_self` are all a reader needs to know of
the splitting, and `findSlice_head` says that the first empty line after lines
that are not empty is the one that ends them.
-/

namespace Lib

variable {α : Type}

/-- The lines of a text, split at each `cr lf` from the left. -/
def splitLines [DecidableEq α] (cr lf : α) : List α → List (List α)
  | [] => [[]]
  | [a] => [[a]]
  | a :: b :: l =>
    if a = cr ∧ b = lf then [] :: splitLines cr lf l
    else (splitLines cr lf (b :: l)).modifyHead (a :: ·)

/-- Lines with the terminator between them. -/
def joinLines (cr lf : α) (ls : List (List α)) : List α := [cr, lf].intercalate ls

@[simp] theorem joinLines_singleton (cr lf : α) (l : List α) : joinLines cr lf [l] = l := by
  simp [joinLines]

@[simp] theorem joinLines_cons_cons (cr lf : α) (l l' : List α) (ls : List (List α)) :
    joinLines cr lf (l :: l' :: ls) = l ++ cr :: lf :: joinLines cr lf (l' :: ls) := by
  simp [joinLines, List.intercalate_cons_cons]

theorem flatMap_ended (cr lf : α) (l : List α) (ls : List (List α)) :
    ((l :: ls).flatMap fun l => l ++ [cr, lf]) = joinLines cr lf (l :: ls) ++ [cr, lf] := by
  induction ls generalizing l with
  | nil => simp
  | cons l' ls ih =>
    rw [List.flatMap_cons, ih l', joinLines_cons_cons]
    simp

theorem modifyHead_append {f : α → α} {l : List α} (h : l ≠ []) (r : List α) :
    (l ++ r).modifyHead f = l.modifyHead f ++ r := by
  cases l with
  | nil => exact absurd rfl h
  | cons a l => rfl

/-! ## Splitting -/

variable [DecidableEq α] {cr lf : α}

theorem splitLines_ne_nil (l : List α) : splitLines cr lf l ≠ [] := by
  induction l using splitLines.induct cr lf with
  | case1 => simp [splitLines]
  | case2 a => simp [splitLines]
  | case3 a b l h _ => simp [splitLines, h]
  | case4 a b l h ih =>
    rw [splitLines, if_neg h]
    simpa using ih

/-- A terminator splits the text around it, whatever the text is. -/
theorem splitLines_append (hne : cr ≠ lf) (l r : List α) :
    splitLines cr lf (l ++ cr :: lf :: r) = splitLines cr lf l ++ splitLines cr lf r := by
  induction l using splitLines.induct cr lf with
  | case1 => simp [splitLines]
  | case2 a =>
    -- a lone `cr` before the terminator is not part of one
    have h : ¬ (a = cr ∧ cr = lf) := fun h => hne h.2
    simp [splitLines, h]
  | case3 a b l h ih => simpa [splitLines, h] using ih
  | case4 a b l h ih =>
    rw [List.cons_append] at ih
    rw [List.cons_append, List.cons_append, splitLines, if_neg h, ih,
      modifyHead_append (splitLines_ne_nil _), splitLines, if_neg h]

theorem length_splitLines_pos (cr lf : α) (l : List α) : 0 < (splitLines cr lf l).length :=
  List.length_pos_iff.mpr (splitLines_ne_nil l)

/-- A text without a terminator is one line. -/
theorem splitLines_eq_self {l : List α} (h : ¬ [cr, lf] <:+: l) : splitLines cr lf l = [l] := by
  induction l using splitLines.induct cr lf with
  | case1 => rfl
  | case2 a => rfl
  | case3 a b l hab _ =>
    obtain ⟨rfl, rfl⟩ := hab
    exact absurd ⟨[], l, rfl⟩ h
  | case4 a b l hab ih =>
    rw [splitLines, if_neg hab, ih fun hi => h (hi.trans (List.suffix_cons a _).isInfix)]
    rfl

/-- A text with a terminator is more than one line. -/
theorem one_lt_length_splitLines (hne : cr ≠ lf) {l : List α} (h : [cr, lf] <:+: l) :
    1 < (splitLines cr lf l).length := by
  obtain ⟨s, t, rfl⟩ := h
  rw [List.append_assoc, List.cons_append, List.cons_append, List.nil_append,
    splitLines_append hne, List.length_append]
  have := length_splitLines_pos cr lf s
  have := length_splitLines_pos cr lf t
  omega

theorem length_splitLines_eq_one_iff (hne : cr ≠ lf) {l : List α} :
    (splitLines cr lf l).length = 1 ↔ ¬ [cr, lf] <:+: l := by
  refine ⟨fun h hi => ?_, fun h => ?_⟩
  · have := one_lt_length_splitLines hne hi
    omega
  · rw [splitLines_eq_self h, List.length_singleton]

/-- Splitting joined texts splits each of them. -/
theorem splitLines_joinLines (hne : cr ≠ lf) (l : List α) (ls : List (List α)) :
    splitLines cr lf (joinLines cr lf (l :: ls)) = (l :: ls).flatMap (splitLines cr lf) := by
  induction ls generalizing l with
  | nil => simp
  | cons l' ls ih =>
    rw [joinLines_cons_cons, splitLines_append hne, ih, ← List.flatMap_cons]

/-- Splitting undoes joining lines that hold no terminator. -/
theorem splitLines_joinLines_self (hne : cr ≠ lf) {l : List α} {ls : List (List α)}
    (h : ∀ x ∈ l :: ls, ¬ [cr, lf] <:+: x) :
    splitLines cr lf (joinLines cr lf (l :: ls)) = l :: ls := by
  rw [splitLines_joinLines hne]
  generalize l :: ls = xs at h
  induction xs with
  | nil => rfl
  | cons x xs ih =>
    rw [List.forall_mem_cons] at h
    rw [List.flatMap_cons, splitLines_eq_self h.1, ih h.2, List.singleton_append]

/-- As many lines as texts joined: none of the texts holds a terminator. -/
theorem not_infix_of_length_splitLines (hne : cr ≠ lf) {l : List α} {ls : List (List α)}
    (h : (splitLines cr lf (joinLines cr lf (l :: ls))).length = (l :: ls).length) :
    ∀ x ∈ l :: ls, ¬ [cr, lf] <:+: x := by
  rw [splitLines_joinLines hne] at h
  generalize l :: ls = xs at h
  -- each text is at least one line, so none can be two
  have hle (ys : List (List α)) : ys.length ≤ (ys.flatMap (splitLines cr lf)).length := by
    induction ys with
    | nil => simp
    | cons y ys ih =>
      have := length_splitLines_pos cr lf y
      rw [List.flatMap_cons, List.length_append, List.length_cons]
      omega
  induction xs with
  | nil => simp
  | cons x xs ih =>
    have hx := length_splitLines_pos cr lf x
    have hxs := hle xs
    rw [List.flatMap_cons, List.length_append, List.length_cons] at h
    exact List.forall_mem_cons.mpr
      ⟨(length_splitLines_eq_one_iff hne).mp (by omega), ih (by omega)⟩

/-! ## The empty line that ends a head -/

/-- No terminator, nor a slice starting with one, starts within a line and
its end. -/
theorem findSlice_append_line (hne : cr ≠ lf) {pat l : List α} (h : ¬ [cr, lf] <:+: l)
    (r : List α) :
    findSlice (cr :: lf :: pat) (l ++ cr :: r) =
      (findSlice (cr :: lf :: pat) (cr :: r)).map (· + l.length) := by
  induction l with
  | nil => simp
  | cons a l ih =>
    have hl : ¬ [cr, lf] <:+: l := fun hi => h (hi.trans (List.suffix_cons a l).isInfix)
    have ha : ¬ (cr :: lf :: pat) <+: a :: (l ++ cr :: r) := by
      intro hp
      cases l with
      | nil =>
        simp only [List.nil_append, List.cons_prefix_cons] at hp
        exact hne hp.2.1.symm
      | cons b l =>
        simp only [List.cons_append, List.cons_prefix_cons] at hp
        obtain ⟨rfl, rfl, -⟩ := hp
        exact h ⟨[], l, rfl⟩
    rw [List.cons_append, findSlice_cons (by simp) ha, ih hl, Option.map_map]
    rfl

omit [DecidableEq α] in
theorem not_prefix_line (hne : cr ≠ lf) {l : List α} (hl : l ≠ []) (h : ¬ [cr, lf] <:+: l)
    (r : List α) : ¬ [cr, lf] <+: l ++ cr :: r := by
  intro hp
  match l, hl with
  | [a], _ =>
    simp only [List.cons_append, List.nil_append, List.cons_prefix_cons] at hp
    exact hne hp.2.1.symm
  | a :: b :: l, _ =>
    simp only [List.cons_append, List.cons_prefix_cons] at hp
    obtain ⟨rfl, rfl, -⟩ := hp
    exact h ⟨[], l, rfl⟩

/-- A line and its end are skipped where no empty line follows. -/
theorem findSlice_line (hne : cr ≠ lf) {l r : List α} (h : ¬ [cr, lf] <:+: l)
    (hr : ¬ [cr, lf] <+: r) :
    findSlice [cr, lf, cr, lf] (l ++ cr :: lf :: r) =
      (findSlice [cr, lf, cr, lf] r).map (· + (l.length + 2)) := by
  have h₁ : ¬ [cr, lf, cr, lf] <+: cr :: lf :: r := by
    simpa only [List.cons_prefix_cons, true_and] using hr
  have h₂ : ¬ [cr, lf, cr, lf] <+: lf :: r := by
    simp only [List.cons_prefix_cons, hne, false_and, not_false_eq_true]
  rw [findSlice_append_line hne h, findSlice_cons (by simp) h₁, findSlice_cons (by simp) h₂,
    Option.map_map, Option.map_map]
  congr 1
  funext i
  simp only [Function.comp]
  omega

/-- After lines that are not empty, the first empty line is the one that ends
them. -/
theorem findSlice_head (hne : cr ≠ lf) (l : List α) (ls : List (List α))
    (hnil : ∀ x ∈ l :: ls, x ≠ []) (h : ∀ x ∈ l :: ls, ¬ [cr, lf] <:+: x) (rest : List α) :
    findSlice [cr, lf, cr, lf] (joinLines cr lf (l :: ls) ++ cr :: lf :: cr :: lf :: rest) =
      some (joinLines cr lf (l :: ls)).length := by
  induction ls generalizing l with
  | nil =>
    rw [joinLines_singleton, findSlice_append_line hne (h l (by simp)),
      show cr :: lf :: cr :: lf :: rest = [cr, lf, cr, lf] ++ rest from rfl,
      findSlice_self_append (by simp), Option.map_some, Nat.zero_add]
  | cons l' ls ih =>
    have ih := ih l' (fun x hx => hnil x (List.mem_cons_of_mem _ hx))
      fun x hx => h x (List.mem_cons_of_mem _ hx)
    have hl' : ¬ [cr, lf] <+: joinLines cr lf (l' :: ls) ++ cr :: lf :: cr :: lf :: rest := by
      have := not_prefix_line hne (hnil l' (by simp)) (h l' (by simp))
      cases ls with
      | nil => simpa using this (lf :: cr :: lf :: rest)
      | cons l'' ls =>
        simpa using this (lf :: (joinLines cr lf (l'' :: ls) ++ cr :: lf :: cr :: lf :: rest))
    rw [joinLines_cons_cons, List.append_assoc, List.cons_append, List.cons_append,
      findSlice_line hne (h l (by simp)) hl', ih, Option.map_some, List.length_append,
      List.length_cons, List.length_cons]
    congr 1
    omega

end Lib
