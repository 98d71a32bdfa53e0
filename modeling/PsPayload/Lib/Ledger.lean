import Mathlib.Data.List.Perm.Basic

/-!
# Ledgers of resources

Calls create resources, use them and release them; `Accounts` says which. The
ledger is the log of the calls with what they returned, newest first, and
`balance` is what they leave: the resources there are at the moment.

`Books` holds of a ledger whose calls were all given resources that were there,
and whose balance is what somebody owns. `books_next` is the rule for one more
call of an owner that releases only what it owns, and `balance_frame` says that
what others own does not matter to it.
-/

namespace Lib

/-- What the calls `κ`, which return `ρ`, do with the resources `η`. -/
structure Accounts (κ ρ η : Type) where
  uses : κ → List η
  gains : κ → ρ → Option η
  loses : κ → Option η
  loses_uses {c : κ} {h : η} : loses c = some h → h ∈ uses c

namespace Accounts

variable {κ ρ η : Type} [DecidableEq η] (A : Accounts κ ρ η)

/-- What is left of `o` when its owner releases a resource. -/
def without (o : List η) : Option η → List η
  | none => o
  | some h => o.erase h

/-- What is left of `o` after a call. -/
def after (o : List η) (c : κ) (r : ρ) : List η :=
  (A.gains c r).toList ++ without o (A.loses c)

/-- What is left of `o` after the calls of a log. -/
def balance (o : List η) : List (κ × ρ) → List η
  | [] => o
  | (c, r) :: l => A.after (balance o l) c r

/-- Every call was given resources that were there. -/
def Clean : List (κ × ρ) → Prop
  | [] => True
  | (c, _) :: l => (∀ h ∈ A.uses c, h ∈ A.balance [] l) ∧ Clean l

/-- Every call released what the owner of `o` owned. -/
def Solvent (o : List η) : List (κ × ρ) → Prop
  | [] => True
  | (c, _) :: l => (∀ h, A.loses c = some h → h ∈ A.balance o l) ∧ Solvent o l

/-- The resources that the calls created. -/
def gained : List (κ × ρ) → List η
  | [] => []
  | (c, r) :: l => (A.gains c r).toList ++ gained l

/-- The resources that the calls released. -/
def lost : List (κ × ρ) → List η
  | [] => []
  | (c, _) :: l => (A.loses c).toList ++ lost l

structure Books (l : List (κ × ρ)) (owned : List η) : Prop where
  live : (A.balance [] l).Perm owned
  nodup : (A.balance [] l).Nodup
  clean : A.Clean l
  once : ∀ h, (A.gained l).count h = (A.lost l).count h + (A.balance [] l).count h

theorem books_nil : A.Books [] [] := ⟨.nil, .nil, trivial, fun _ => rfl⟩

variable {A} in
theorem Books.perm {l : List (κ × ρ)} {owned owned' : List η} (hb : A.Books l owned)
    (h : owned.Perm owned') : A.Books l owned' :=
  ⟨hb.live.trans h, hb.nodup, hb.clean, hb.once⟩

variable {A} {o rest : List η} {c : κ} {r : ρ} {l : List (κ × ρ)}

theorem without_sublist (o : List η) (x : Option η) : (without o x).Sublist o := by
  cases x with
  | none => exact .refl o
  | some h => exact List.erase_sublist

theorem after_frame (h : ∀ h, A.loses c = some h → h ∈ o) :
    A.after (o ++ rest) c r = A.after o c r ++ rest := by
  rw [after, after, List.append_assoc]
  congr 1
  cases hc : A.loses c with
  | none => rfl
  | some x => exact List.erase_append_left rest (h x hc)

theorem after_perm {o' : List η} (h : o.Perm o') : (A.after o c r).Perm (A.after o' c r) := by
  refine List.Perm.append_left _ ?_
  cases A.loses c with
  | none => exact h
  | some x => exact h.erase x

/-- Calls that release only what their owner has leave the rest as it is. -/
theorem balance_frame (h : A.Solvent o l) (rest : List η) :
    A.balance (o ++ rest) l = A.balance o l ++ rest := by
  induction l with
  | nil => rfl
  | cons x l ih =>
    rw [balance, balance, ih h.2]
    exact after_frame h.1

theorem balance_append (o : List η) (l l' : List (κ × ρ)) :
    A.balance o (l ++ l') = A.balance (A.balance o l') l := by
  induction l with
  | nil => rfl
  | cons x l ih =>
    show A.after (A.balance o (l ++ l')) x.1 x.2 = _
    rw [ih]
    rfl

theorem after_nodup (h : o.Nodup) (hr : ∀ x, A.gains c r = some x → x ∉ o) :
    (A.after o c r).Nodup := by
  have hs := without_sublist o (A.loses c)
  rw [after]
  cases hg : A.gains c r with
  | none => exact h.sublist hs
  | some x => exact List.nodup_cons.mpr ⟨fun hx => hr x hg (hs.subset hx), h.sublist hs⟩

theorem count_after (h : ∀ x, A.loses c = some x → x ∈ o) (x : η) :
    (A.after o c r).count x + (A.loses c).toList.count x =
      o.count x + (A.gains c r).toList.count x := by
  have hw : (without o (A.loses c)).count x + (A.loses c).toList.count x = o.count x := by
    cases hc : A.loses c with
    | none => rfl
    | some y =>
      rw [(List.perm_cons_erase (h y hc)).count_eq x, List.count_cons, Option.toList,
        List.count_singleton]
      rfl
  rw [after, List.count_append]
  omega

/-- One more call, of somebody who owns `o`. -/
theorem books_next (hb : A.Books l (o ++ rest)) (hu : ∀ h ∈ A.uses c, h ∈ o ++ rest)
    (hl : ∀ h, A.loses c = some h → h ∈ o) (hr : ∀ h, A.gains c r = some h → h ∉ A.balance [] l) :
    A.Books ((c, r) :: l) (A.after o c r ++ rest) where
  live := by
    rw [← after_frame hl]
    exact after_perm hb.live
  nodup := after_nodup hb.nodup hr
  clean := ⟨fun h hc => hb.live.mem_iff.mpr (hu h hc), hb.clean⟩
  once x := by
    have hbal (y : η) (hy : A.loses c = some y) : y ∈ A.balance [] l :=
      hb.live.mem_iff.mpr (hu y (A.loses_uses hy))
    have hcount := count_after (r := r) hbal x
    have := hb.once x
    rw [gained, lost, List.count_append, List.count_append]
    show _ = _ + (A.after (A.balance [] l) c r).count x
    omega

end Accounts

end Lib
