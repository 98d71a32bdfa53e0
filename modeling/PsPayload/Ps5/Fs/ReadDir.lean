import Mathlib.Logic.Function.Basic
import PsPayload.Lib.Environment
import PsPayload.Lib.Lossy
import PsPayload.Ps5.Util

/-!
# Directories

`ReadDir::next` as a program that calls `readdir`, in an environment that has a
directory stream and the thread's `errno` (`answer`). After its entries the
stream has only null pointers to return, and `ends` says which of them are
failures. `within_nexts` is what a number of calls of `next` returns.
-/

namespace PsPayload.ReadDir

open Lib

/-- `dirent`, as far as it is read. -/
structure Dirent where
  dNamlen : Nat
  dName : Vector UInt8 256
  deriving DecidableEq, Repr

structure DirEntry where
  name : Str
  deriving DecidableEq, Repr

inductive Call where
  /-- `readdir`, with what has been stored to `errno` right before it. -/
  | readdir (store : Option Errno) (dir : UInt64)
  /-- What the thread does between two calls of `next`. -/
  | client
  deriving DecidableEq, Repr

/-- The pointer that `readdir` returned, and `errno` after the call. -/
structure Reply where
  ent : Option Dirent
  errno : Errno
  deriving DecidableEq, Repr

/-- The loop carries nothing. -/
abbrev Routine (α : Type) : Type := Prog Call Reply Unit α

def direntName (ent : Dirent) : Str :=
  let max := min ent.dNamlen ent.dName.size
  let bytes := ent.dName.toList.take max
  let end' := bytes.findIdx (· == 0)
  fromUtf8Lossy (bytes.take end')

/-- The names that are skipped. -/
def isDot (ent : Dirent) : Bool :=
  direntName ent = ".".toList || direntName ent = "..".toList

/-- A null pointer with this `errno`: the end, or an error. -/
def nullItem (errno : Errno) : Option (Result DirEntry) :=
  if errno.code = 0 then none else some (.error (.os ⟨errno.code⟩))

def next (dir : UInt64) : Routine (Option (Result DirEntry)) :=
  .loop (.readdir (some ⟨0⟩) dir)
    (fun _ r => r.ent.bind fun ent => if isDot ent then some () else none)
    (fun _ r =>
      match r.ent with
      | none => .done (nullItem r.errno)
      | some ent => .done (some (.ok ⟨direntName ent⟩)))
    ()

/-- The results of `k` calls of `next`. -/
def nexts (dir : UInt64) : Nat → Routine (List (Option (Result DirEntry)))
  | 0 => .done []
  | k + 1 => (next dir).bind fun item => .call .client fun _ => (nexts dir k).map (item :: ·)

/-! ## A directory stream -/

structure Stream where
  /-- The thread's `errno`. -/
  errno : Errno
  /-- The entries that are left. -/
  ents : List Dirent
  /-- How often `readdir` has returned null. -/
  nulls : Nat

/-- What `readdir` leaves in `errno` is arbitrary as long as there are entries.
A null pointer leaves there what `ends` says, or else what was there before. -/
def answer (ends : Nat → Option Errno) (s : Stream) : Call → Reply → Option Stream
  | .client, r => some { s with errno := r.errno }
  | .readdir store _, r =>
    match s.ents with
    | ent :: ents => if r.ent = some ent then some { s with errno := r.errno, ents } else none
    | [] =>
      if r.ent = none ∧ r.errno = (ends s.nulls).getD (store.getD s.errno) then
        some { s with errno := r.errno, nulls := s.nulls + 1 }
      else none

/-- What `next` makes of a null pointer of the stream. -/
def ended (e : Option Errno) : Option (Result DirEntry) := nullItem (e.getD ⟨0⟩)

/-- The entries that `next` returns. -/
def items (ents : List Dirent) : List (Result DirEntry) :=
  (ents.filter fun ent => !isDot ent).map fun ent => .ok ⟨direntName ent⟩

/-- What the call `i` of `next` returns. -/
def yields (ends : Nat → Option Errno) (ents : List Dirent) (i : Nat) :
    Option (Result DirEntry) :=
  (items ents)[i]?.or (ended (ends (i - (items ents).length)))

variable {ends : Nat → Option Errno} {ents : List Dirent} {dir : UInt64}

theorem items_of_dropWhile_cons {ent : Dirent} {rest : List Dirent}
    (h : ents.dropWhile isDot = ent :: rest) :
    items ents = .ok ⟨direntName ent⟩ :: items rest := by
  induction ents with
  | nil => cases h
  | cons ent' ents ih =>
    by_cases hd : isDot ent'
    · rw [List.dropWhile_cons_of_pos hd] at h
      rw [← ih h, items, List.filter_cons_of_neg (by simp [hd]), items]
    · rw [List.dropWhile_cons_of_neg hd] at h
      obtain ⟨rfl, rfl⟩ := List.cons.inj h
      rw [items, List.filter_cons_of_pos (by simp [hd]), List.map_cons, items]

theorem items_of_dropWhile_nil (h : ents.dropWhile isDot = []) : items ents = [] := by
  rw [items, List.map_eq_nil_iff, List.filter_eq_nil_iff]
  simpa using List.dropWhile_eq_nil_iff.mp h

theorem yields_of_dropWhile_cons {ent : Dirent} {rest : List Dirent}
    (h : ents.dropWhile isDot = ent :: rest) (ends : Nat → Option Errno) :
    yields ends ents 0 = some (.ok ⟨direntName ent⟩) ∧
      ∀ i, yields ends ents (i + 1) = yields ends rest i := by
  have hi := items_of_dropWhile_cons h
  refine ⟨?_, fun i => ?_⟩
  · rw [yields, hi, List.getElem?_cons_zero, Option.some_or]
  · rw [yields, yields, hi, List.getElem?_cons_succ, List.length_cons, Nat.add_sub_add_right]

theorem yields_of_dropWhile_nil (h : ents.dropWhile isDot = []) (ends : Nat → Option Errno)
    (i : Nat) : yields ends ents i = ended (ends i) := by
  rw [yields, items_of_dropWhile_nil h, List.getElem?_nil, Option.none_or, List.length_nil,
    Nat.sub_zero]

/-- `next` drops the entries that are skipped. It takes the one after them, or
a null pointer. -/
theorem within_next {nulls : Nat} {errno : Errno} {Q : Stream → Option (Result DirEntry) → Prop}
    (hent : ∀ errno ent rest, ents.dropWhile isDot = ent :: rest →
      Q ⟨errno, rest, nulls⟩ (some (.ok ⟨direntName ent⟩)))
    (hend : ∀ errno, ents.dropWhile isDot = [] → Q ⟨errno, [], nulls + 1⟩ (ended (ends nulls))) :
    (next dir).Within (answer ends) Q (ents.length + 1) ⟨errno, ents, nulls⟩ := by
  refine Prog.within_loop (fun n s _ => s.nulls = nulls ∧ s.ents.length + 1 ≤ n ∧
    s.ents.dropWhile isDot = ents.dropWhile isDot) ⟨rfl, Nat.le_refl _, rfl⟩ ?_ ?_
  · rintro n ⟨errno, _ | ⟨ent, left⟩, i⟩ _ -
    · exact ⟨⟨none, (ends i).getD ⟨0⟩⟩, by simp [answer]⟩
    · exact ⟨⟨some ent, errno⟩, by simp [answer]⟩
  rintro n ⟨errno, left, i⟩ _ ⟨rfl, hn, hleft⟩
  obtain ⟨n, rfl⟩ : ∃ m, n = m + 1 := ⟨n - 1, by omega⟩
  refine ⟨n, rfl, fun r s hr => ?_⟩
  rw [answer] at hr
  match left with
  | [] =>
    obtain ⟨⟨hnull, herrno⟩, hs⟩ := (Option.ite_none_right_eq_some ..).mp hr
    obtain rfl := Option.some.inj hs
    rw [hnull]
    refine ⟨nofun, fun _ => ?_⟩
    rw [herrno]
    exact hend _ hleft.symm
  | ent :: left =>
    obtain ⟨hsome, hs⟩ := (Option.ite_none_right_eq_some ..).mp hr
    obtain rfl := Option.some.inj hs
    rw [hsome, Option.bind_some]
    by_cases hd : isDot ent
    · rw [if_pos hd]
      refine ⟨fun _ _ => ⟨rfl, Nat.le_of_succ_le_succ hn, ?_⟩, nofun⟩
      rw [← hleft, List.dropWhile_cons_of_pos hd]
    · rw [if_neg hd]
      refine ⟨nofun, fun _ => hent _ ent left ?_⟩
      rw [← hleft, List.dropWhile_cons_of_neg hd]

theorem within_nexts (ends : Nat → Option Errno) (dir : UInt64) (k : Nat) (ents : List Dirent)
    (errno : Errno) (nulls : Nat) :
    (nexts dir k).Within (answer ends)
      (fun _ out => out = (List.range k).map (yields (fun n => ends (nulls + n)) ents))
      (k * (ents.length + 2)) ⟨errno, ents, nulls⟩ := by
  induction k generalizing ents errno nulls with
  | zero => rfl
  | succ k ih =>
    have hk : (k + 1) * (ents.length + 2) = (ents.length + 1) + (k * (ents.length + 2) + 1) := by
      rw [Nat.succ_mul]
      omega
    rw [nexts, hk, List.range_succ_eq_map, List.map_cons, List.map_map]
    -- after the call of `next`, the thread goes on and calls it `k` times more
    have hrest {errno : Errno} {rest : List Dirent} {n : Nat} {item : Option (Result DirEntry)}
        (hl : rest.length ≤ ents.length) (hi : yields (fun n => ends (nulls + n)) ents 0 = item)
        (hs : ∀ i, yields (fun n => ends (nulls + n)) ents (i + 1) =
          yields (fun i => ends (n + i)) rest i) :
        Prog.Within (answer ends) (fun _ out => out =
          yields (fun n => ends (nulls + n)) ents 0 ::
            (List.range k).map (yields (fun n => ends (nulls + n)) ents ∘ Nat.succ))
          (.call .client fun _ => (nexts dir k).map (item :: ·)) (k * (ents.length + 2) + 1)
          ⟨errno, rest, n⟩ := by
      refine Prog.within_call ⟨⟨none, errno⟩, rfl⟩ fun r s hr => ?_
      obtain rfl := Option.some.inj hr
      refine Prog.within_map (Prog.within_mono (fun _ out ho => ?_)
        (Nat.mul_le_mul_left k (Nat.add_le_add_right hl 2)) (ih rest r.errno n))
      rw [ho, hi]
      exact congrArg _ (List.map_congr_left fun i _ => (hs i).symm)
    refine Prog.within_bind (within_next (fun errno ent rest h => ?_) fun errno h => ?_)
    · obtain ⟨hi, hs⟩ := yields_of_dropWhile_cons h fun n => ends (nulls + n)
      have hl := (List.dropWhile_suffix (l := ents) isDot).length_le
      rw [h, List.length_cons] at hl
      exact hrest (by omega) hi hs
    · have hy := yields_of_dropWhile_nil h fun n => ends (nulls + n)
      refine hrest (Nat.zero_le _) (hy 0) fun i => ?_
      rw [hy, yields_of_dropWhile_nil rfl, Nat.add_right_comm, Nat.add_assoc]

theorem returns_nexts (ends : Nat → Option Errno) (dir : UInt64) (k : Nat) (ents : List Dirent)
    (errno : Errno) :
    (nexts dir k).Returns (answer ends) (fun _ out => out = (List.range k).map (yields ends ents))
      (k * (ents.length + 2)) ⟨errno, ents, 0⟩ := by
  have h := (within_nexts ends dir k ents errno 0).returns
  simpa only [Nat.zero_add] using h

/-- The entries, and then what is made of the null pointers. -/
theorem map_yields (ends : Nat → Option Errno) (ents : List Dirent) (m : Nat) :
    (List.range ((items ents).length + m)).map (yields ends ents) =
      (items ents).map some ++ (List.range m).map fun i => ended (ends i) := by
  rw [List.range_add, List.map_append, List.map_map]
  congr 1
  · refine List.ext_getElem (by simp) fun i hi _ => ?_
    have hlt : i < (items ents).length := by simpa using hi
    simp [yields, hlt]
  · refine List.map_congr_left fun i _ => ?_
    show yields ends ents ((items ents).length + i) = _
    rw [yields, List.getElem?_eq_none (Nat.le_add_right _ _), Option.none_or,
      Nat.add_sub_cancel_left]

/-! ## Valid entries -/

/-- An entry whose name fits into the array and holds no NUL. -/
structure Entry extends Dirent where
  namlen_le : dNamlen ≤ 255
  no_nul : 0 ∉ dName.toList.take dNamlen

def Entry.rawName (e : Entry) : Bytes := e.dName.toList.take e.dNamlen

theorem direntName_eq (e : Entry) : direntName e.toDirent = fromUtf8Lossy e.rawName := by
  have hmin : min e.dNamlen e.dName.size = e.dNamlen :=
    Nat.min_eq_left (e.namlen_le.trans (show 255 ≤ 256 by decide))
  have hidx : e.rawName.findIdx (· == 0) = e.rawName.length := by
    rw [List.findIdx_eq_length]
    intro b hb
    exact beq_eq_false_iff_ne.mpr fun h => e.no_nul (h ▸ hb)
  have h := congrArg (fun n => fromUtf8Lossy (e.rawName.take n)) hidx
  rw [direntName, hmin]
  rw [List.take_length] at h
  exact h

/-- No other name is decoded as one of those that are skipped. -/
theorem isDot_iff (e : Entry) :
    isDot e.toDirent ↔ e.rawName = utf8 ".".toList ∨ e.rawName = utf8 "..".toList := by
  rw [isDot, direntName_eq, Bool.or_eq_true, decide_eq_true_iff, decide_eq_true_iff,
    fromUtf8Lossy_eq_iff (by decide), fromUtf8Lossy_eq_iff (by decide)]

/-- What a directory with these entries is to list. -/
def listed (entries : List Entry) : List (Result DirEntry) :=
  (entries.filter fun e =>
    e.rawName ≠ utf8 ".".toList ∧ e.rawName ≠ utf8 "..".toList).map fun e =>
      .ok ⟨fromUtf8Lossy e.rawName⟩

theorem items_eq_listed (entries : List Entry) :
    items (entries.map Entry.toDirent) = listed entries := by
  have hd (e : Entry) : (!isDot e.toDirent) = decide
      (e.rawName ≠ utf8 ".".toList ∧ e.rawName ≠ utf8 "..".toList) := by
    rw [Bool.eq_iff_iff, Bool.not_eq_true', ← Bool.not_eq_true, isDot_iff, decide_eq_true_iff,
      not_or]
  rw [items, List.filter_map, List.map_map, listed]
  refine congrArg₂ _ (funext fun e => ?_) (List.filter_congr fun e _ => hd e)
  show Except.ok _ = _
  rw [direntName_eq]

/-- The entries that are not dot entries, once each and in order, and then the
end, whatever is in `errno` at first and between the calls. -/
theorem nexts_listed (ends : Nat → Option Errno) (dir : UInt64) (entries : List Entry)
    (errno : Errno) :
    (nexts dir ((listed entries).length + 1)).Returns (answer (Function.update ends 0 none))
      (fun _ out => out = (listed entries).map some ++ [none])
      (((listed entries).length + 1) * (entries.length + 2))
      ⟨errno, entries.map Entry.toDirent, 0⟩ := by
  have h := returns_nexts (Function.update ends 0 none) dir ((listed entries).length + 1)
    (entries.map Entry.toDirent) errno
  have hmap := map_yields (Function.update ends 0 none) (entries.map Entry.toDirent) 1
  rw [items_eq_listed] at hmap
  rw [List.length_map, hmap] at h
  exact h

/-! ## Streams that fail -/

/-- The null pointer is a failure of the stream. -/
def Fails (e : Option Errno) : Prop := ∃ errno ∈ e, errno.code ≠ 0

/-- A loop that calls `next` ends: there are finitely many items, and after
them every call returns none. -/
def Terminates (ends : Nat → Option Errno) (ents : List Dirent) (dir : UInt64) (errno : Errno) :
    Prop :=
  ∃ items : List (Result DirEntry), ∀ m, ∃ n,
    (nexts dir (items.length + 1 + m)).Returns (answer ends)
      (fun _ out => out = items.map some ++ List.replicate (m + 1) none) n ⟨errno, ents, 0⟩

theorem ended_of_fails {e : Option Errno} (h : Fails e) :
    ended e = some (.error (.os (e.getD ⟨0⟩))) := by
  obtain ⟨errno, rfl, hc⟩ := h
  exact if_neg hc

theorem ended_eq_none_iff {e : Option Errno} : ended e = none ↔ ¬ Fails e := by
  refine ⟨fun h hf => ?_, fun h => ?_⟩
  · rw [ended_of_fails hf] at h
    cases h
  · cases e with
    | none => rfl
    | some errno => exact if_pos (not_not.mp fun hc => h ⟨errno, rfl, hc⟩)

/-- The loop ends only where the failures do, and no failure comes after them. -/
theorem Terminates.fails_iff {errno : Errno} (h : Terminates ends ents dir errno) :
    ∃ j, ∀ i, Fails (ends i) ↔ i < j := by
  obtain ⟨found, h⟩ := h
  -- the results are those of the stream
  have hout (m : Nat) : (List.range (found.length + 1 + m)).map (yields ends ents) =
      found.map some ++ List.replicate (m + 1) none := by
    obtain ⟨n, h⟩ := h m
    obtain ⟨rs, s, out, hr, rfl⟩ := (returns_nexts ends dir _ ents errno).exists_run
    exact (h rs _ hr).2.2 _ rfl
  refine ⟨found.length - (items ents).length, fun i => ?_⟩
  have hi := congrArg (·[(items ents).length + i]?) (hout ((items ents).length + i))
  have hy : yields ends ents ((items ents).length + i) = ended (ends i) := by
    rw [yields, List.getElem?_eq_none (Nat.le_add_right _ _), Option.none_or,
      Nat.add_sub_cancel_left]
  rw [List.getElem?_map, List.getElem?_range (by omega), Option.map_some, hy] at hi
  by_cases hlt : (items ents).length + i < found.length
  · rw [List.getElem?_append_left (by rwa [List.length_map]), List.getElem?_map,
      List.getElem?_eq_getElem hlt, Option.map_some, Option.some.injEq] at hi
    refine ⟨fun _ => by omega, fun _ => by_contra fun hf => ?_⟩
    rw [ended_eq_none_iff.mpr hf] at hi
    cases hi
  · rw [List.getElem?_append_right (by rw [List.length_map]; omega), List.length_map,
      List.getElem?_replicate, if_pos (by omega), Option.some.injEq] at hi
    exact ⟨fun hf => absurd hf (ended_eq_none_iff.mp hi), fun hj => by omega⟩

/-- A directory that fails with the same error again and again has no end. -/
theorem not_terminates : ¬ ∀ (ends : Nat → Option Errno) (ents : List Dirent) (dir : UInt64)
    (errno : Errno), Terminates ends ents dir errno := by
  intro h
  obtain ⟨j, hj⟩ := (h (fun _ => some ⟨5⟩) [] 1 ⟨0⟩).fails_iff
  exact absurd ((hj j).mp ⟨⟨5⟩, rfl, by decide⟩) (Nat.lt_irrefl j)

/-- The loop ends exactly where `readdir` fails finitely often after the
entries, and is at the end of the directory from then on. -/
theorem terminates_iff (ends : Nat → Option Errno) (ents : List Dirent) (dir : UInt64)
    (errno : Errno) :
    Terminates ends ents dir errno ↔ ∃ j, ∀ i, Fails (ends i) ↔ i < j := by
  refine ⟨fun h => h.fails_iff, fun ⟨j, hj⟩ => ?_⟩
  refine ⟨items ents ++ (List.range j).map fun i => .error (.os ((ends i).getD ⟨0⟩)),
    fun m => ⟨((items ents).length + (j + (m + 1))) * (ents.length + 2), ?_⟩⟩
  have hlen : (items ents).length + j + 1 + m = (items ents).length + (j + (m + 1)) := by omega
  have hfail : (List.range j).map (fun i => ended (ends i)) =
      (List.range j).map fun i => some (.error (.os ((ends i).getD ⟨0⟩))) :=
    List.map_congr_left fun i hi => ended_of_fails ((hj i).mpr (List.mem_range.mp hi))
  have hnone : (List.range (m + 1)).map (fun i => ended (ends (j + i))) =
      List.replicate (m + 1) none := by
    refine List.eq_replicate_iff.mpr ⟨by simp, List.forall_mem_map.mpr fun i _ => ?_⟩
    exact ended_eq_none_iff.mpr fun hf => absurd ((hj _).mp hf) (by omega)
  have h := returns_nexts ends dir ((items ents).length + (j + (m + 1))) ents errno
  rw [map_yields, List.range_add, List.map_append, hfail, List.map_map] at h
  rw [List.length_append, List.length_map, List.length_range, hlen, List.map_append, List.map_map,
    ← hnone, List.append_assoc]
  exact h

end PsPayload.ReadDir
