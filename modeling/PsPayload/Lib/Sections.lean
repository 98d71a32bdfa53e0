import Mathlib.Logic.Function.Basic
import PsPayload.Lib.Transition

/-!
# Sections

Actors do operations on objects, `apply` being what an operation makes of an
object, where it can be done. What an actor does to an object from getting it
until somebody gets it again is a section. A list of sections has the newest
first, and `serial` carries them out one after the other, the oldest first and
each as a whole.

`record` adds an operation to the newest section that its actor has of its
object. Where nobody has got the object since, this is as good as doing the
operation now (`serial_record`).
-/

namespace Lib

variable {θ ι δ ω : Type}

structure Section (θ ι ω : Type) where
  actor : θ
  object : ι
  ops : List ω
  deriving DecidableEq, Repr

section Serial

variable [DecidableEq ι] (apply : δ → ω → Option δ)

/-- The whole of a section. -/
def Section.step (data : ι → δ) (x : Section θ ι ω) : Option (ι → δ) :=
  (runFrom apply (data x.object) x.ops).map (Function.update data x.object)

def serial (data : ι → δ) (xs : List (Section θ ι ω)) : Option (ι → δ) :=
  runFrom (Section.step apply) data xs.reverse

/-- The actor that got the object last. -/
def holder (i : ι) (xs : List (Section θ ι ω)) : Option θ :=
  (xs.find? (·.object = i)).map (·.actor)

variable {apply} {data data' : ι → δ} {x : Section θ ι ω} {xs : List (Section θ ι ω)} {a : θ}
  {i : ι} {op : ω} {d : δ}

theorem serial_cons :
    serial apply data (x :: xs) = (serial apply data xs).bind (Section.step apply · x) := by
  rw [serial, List.reverse_cons, runFrom, List.foldlM_append]
  exact Option.bind_congr fun _ _ => runFrom_singleton

/-- A section in which nothing is done. -/
theorem serial_open (a : θ) (i : ι) :
    serial apply data (⟨a, i, []⟩ :: xs) = serial apply data xs := by
  rw [serial_cons]
  have : (Section.step apply · ⟨a, i, []⟩ : (ι → δ) → Option (ι → δ)) = some := by
    funext data
    rw [Section.step, runFrom_nil, Option.map_some, Function.update_eq_self]
  rw [this, Option.bind_fun_some]

@[simp] theorem holder_cons_self (a : θ) (i : ι) (ops : List ω) :
    holder i (⟨a, i, ops⟩ :: xs) = some a := by
  rw [holder, List.find?_cons_of_pos (by simp), Option.map_some]

theorem holder_cons_ne (h : x.object ≠ i) : holder i (x :: xs) = holder i xs := by
  rw [holder, List.find?_cons_of_neg (by simpa using h), holder]

/-- Sections of other objects do not meet. -/
theorem Section.step_update (hx : x.object ≠ i) (h : x.step apply data = some data') :
    x.step apply (Function.update data i d) = some (Function.update data' i d) := by
  obtain ⟨v, hv, rfl⟩ := Option.map_eq_some_iff.mp h
  rw [Section.step, Function.update_of_ne hx, hv, Option.map_some, Function.update_comm hx]

theorem Section.step_other (hx : x.object ≠ i) (h : x.step apply data = some data') :
    data' i = data i := by
  obtain ⟨v, -, rfl⟩ := Option.map_eq_some_iff.mp h
  exact Function.update_of_ne hx.symm ..

/-- Who got what, the newest first. -/
def claims (xs : List (Section θ ι ω)) : List (θ × ι) := xs.map fun x => (x.actor, x.object)

theorem mem_claims_of_holder (h : holder i xs = some a) : (a, i) ∈ claims xs := by
  obtain ⟨x, hx, rfl⟩ := Option.map_eq_some_iff.mp h
  obtain rfl : x.object = i := by simpa using List.find?_some hx
  exact List.mem_map.mpr ⟨x, List.mem_of_find?_eq_some hx, rfl⟩

end Serial

section Record

variable [DecidableEq θ] [DecidableEq ι]

/-- Adds an operation to the newest section of `a` on `i`. -/
def record (a : θ) (i : ι) (op : ω) : List (Section θ ι ω) → List (Section θ ι ω)
  | [] => []
  | x :: xs =>
    if x.actor = a ∧ x.object = i then { x with ops := x.ops ++ [op] } :: xs
    else x :: record a i op xs

variable {apply : δ → ω → Option δ} {data e : ι → δ} {x : Section θ ι ω}
  {xs : List (Section θ ι ω)} {a : θ} {i : ι} {op : ω} {d : δ}

theorem serial_record (hh : holder i xs = some a) (hs : serial apply data xs = some e)
    (hop : apply (e i) op = some d) :
    serial apply data (record a i op xs) = some (Function.update e i d) := by
  -- the newest section of the object is that of `a`, and those before it are of others
  induction xs generalizing e with
  | nil => cases hh
  | cons x xs ih =>
    rw [serial_cons] at hs
    obtain ⟨c, hc, hx⟩ := Option.bind_eq_some_iff.mp hs
    by_cases hi : x.object = i
    · subst hi
      have ha : x.actor = a := by
        rw [holder, List.find?_cons_of_pos (by simp), Option.map_some] at hh
        exact Option.some.inj hh
      obtain ⟨v, hv, rfl⟩ := Option.map_eq_some_iff.mp hx
      rw [Function.update_self] at hop
      rw [record, if_pos ⟨ha, rfl⟩, serial_cons, hc, Option.bind_some, Section.step]
      rw [runFrom_concat_iff.mpr ⟨v, hv, hop⟩, Option.map_some, Function.update_idem]
    · rw [holder_cons_ne hi] at hh
      rw [Section.step_other hi hx] at hop
      rw [record, if_neg (fun h => hi h.2), serial_cons, ih hh hc hop, Option.bind_some]
      exact Section.step_update hi hx

/-! ## What `record` keeps -/

theorem holder_record (j : ι) : holder j (record a i op xs) = holder j xs := by
  induction xs with
  | nil => rfl
  | cons x xs ih =>
    rw [record]
    split
    · by_cases hj : x.object = j
      · rw [holder, holder, List.find?_cons_of_pos (by simpa using hj),
          List.find?_cons_of_pos (by simpa using hj)]
        rfl
      · rw [holder_cons_ne hj, holder_cons_ne (by exact hj)]
    · by_cases hj : x.object = j
      · rw [holder, holder, List.find?_cons_of_pos (by simpa using hj),
          List.find?_cons_of_pos (by simpa using hj)]
      · rw [holder_cons_ne hj, holder_cons_ne hj, ih]

/-- The operations of an actor on an object, in the order it did them. -/
def opsOf (a : θ) (i : ι) (xs : List (Section θ ι ω)) : List ω :=
  (xs.reverse.filter fun x => x.actor = a ∧ x.object = i).flatMap (·.ops)

theorem opsOf_cons : opsOf a i (x :: xs) =
    opsOf a i xs ++ if x.actor = a ∧ x.object = i then x.ops else [] := by
  rw [opsOf, List.reverse_cons, List.filter_append, List.flatMap_append, ← opsOf]
  congr 1
  split
  · rename_i h
    rw [List.filter_cons_of_pos (by simpa using h), List.filter_nil, List.flatMap_singleton]
  · rename_i h
    rw [List.filter_cons_of_neg (by simpa using h), List.filter_nil, List.flatMap_nil]

theorem opsOf_open (b : θ) (j : ι) : opsOf a i (⟨b, j, []⟩ :: xs) = opsOf a i xs := by
  rw [opsOf_cons]
  split <;> exact List.append_nil _

theorem opsOf_record_self (h : (a, i) ∈ claims xs) :
    opsOf a i (record a i op xs) = opsOf a i xs ++ [op] := by
  induction xs with
  | nil => cases h
  | cons x xs ih =>
    rw [record]
    split
    · rename_i hx
      rw [opsOf_cons, opsOf_cons, if_pos hx, if_pos hx, List.append_assoc]
    · rename_i hx
      have hm : (a, i) ∈ claims xs := by
        rw [claims, List.map_cons, List.mem_cons] at h
        refine h.resolve_left fun h => hx ?_
        rw [Prod.mk.injEq] at h
        exact ⟨h.1.symm, h.2.symm⟩
      rw [opsOf_cons, opsOf_cons, if_neg hx, ih hm, List.append_nil, List.append_nil]

theorem opsOf_record_ne {b : θ} {j : ι} (h : ¬ (b = a ∧ j = i)) :
    opsOf b j (record a i op xs) = opsOf b j xs := by
  induction xs with
  | nil => rfl
  | cons x xs ih =>
    rw [record]
    split
    · rename_i hx
      have hn : ¬ (x.actor = b ∧ x.object = j) := fun hb =>
        h ⟨hb.1.symm.trans hx.1, hb.2.symm.trans hx.2⟩
      rw [opsOf_cons, opsOf_cons, if_neg hn, if_neg hn]
    · rw [opsOf_cons, opsOf_cons, ih]

end Record

end Lib
