import Mathlib.Algebra.BigOperators.Group.Finset.Piecewise
import Mathlib.Algebra.Order.BigOperators.Group.Finset
import Mathlib.Data.Fintype.BigOperators
import PsPayload.Ps5.Fs.Threads

/-!
# A file that several threads append to

Threads open the same path with `append(true)` and `write_all` a buffer each,
while others `fs::read` the file. `Volume.writes` says which thread has written
what. `appends_kept`: no byte that a thread has written is lost or overwritten,
what a thread has written is in the order of its buffer, and what a reader gets
is the whole file as it was at a moment between two of its calls.
-/

namespace PsPayload.Fs

open Lib

/-- What a thread does with the file. -/
inductive Job where
  | append (o : Fd.OpenOptions) (buf : Bytes)
  | read

namespace Job

def Out : Job → Type
  | append _ _ => Result Unit
  | read => Result Bytes

def run (path : CString) : (j : Job) → Task j.Out
  | append o buf => io (writeWith o path.val buf)
  | read => io (Fs.read path.val)

def data : Job → Bytes
  | append _ buf => buf
  | read => []

/-- The file is opened for appending, neither truncated nor to be created anew. -/
def Appends : Job → Prop
  | append o _ => o.append = true ∧ o.truncate = false ∧ o.createNew = false
  | read => True

/-- What it has read. -/
def got : (j : Job) → j.Out → Option Bytes
  | append _ _, _ => none
  | read, (r : Result Bytes) => r.toOption

/-- The calls of a job, for a file that does not get longer than `bound`. -/
def calls (bound : Nat) : Job → Nat
  | append _ buf => buf.length + 2
  | read => bound + 3

end Job

namespace Volume

variable {ι : Type}

/-- All that has been written. -/
def pieces (k : Volume ι) : Bytes := k.writes.flatMap fun e => e.2.2

variable [DecidableEq ι]

/-- What thread `i` has written. -/
def writtenBy (k : Volume ι) (i : ι) : Bytes :=
  (k.writes.filter fun e => e.1 = i).flatMap fun e => e.2.2

variable {i j : ι} {k k' : Volume ι} {fd : Int32} {f : Handle ι} {data : Bytes}

omit [DecidableEq ι] in
theorem pieces_written : (k.written i fd f data).pieces = k.pieces ++ data := by
  rw [pieces, written, List.flatMap_append, List.flatMap_singleton, pieces]

theorem writtenBy_self : (k.written i fd f data).writtenBy i = k.writtenBy i ++ data := by
  rw [writtenBy, written, List.filter_append, List.flatMap_append, writtenBy]
  simp

theorem writtenBy_of_ne (h : j ≠ i) : (k.written i fd f data).writtenBy j = k.writtenBy j := by
  rw [writtenBy, written, List.filter_append, List.flatMap_append, writtenBy]
  simp [h.symm]

/-- The pieces are those of the threads. -/
theorem length_pieces [Fintype ι] (k : Volume ι) :
    k.pieces.length = ∑ i, (k.writtenBy i).length := by
  obtain ⟨names, files, fresh, descs, writes, failures⟩ := k
  rw [pieces]
  simp only [writtenBy]
  induction writes with
  | nil => simp
  | cons e writes ih =>
    have hcons : ∀ i, ((List.filter (fun e => decide (e.1 = i)) (e :: writes)).flatMap
        fun e => e.2.2).length = (if e.1 = i then e.2.2.length else 0) +
          ((List.filter (fun e => decide (e.1 = i)) writes).flatMap fun e => e.2.2).length := by
      intro i
      rw [List.filter_cons]
      by_cases hi : e.1 = i
      · simp [hi]
      · simp [hi]
    rw [List.flatMap_cons, List.length_append, ih, Finset.sum_congr rfl fun i _ => hcons i,
      Finset.sum_add_distrib, Finset.sum_ite_eq, if_pos (Finset.mem_univ _)]

/-! ## What the threads leave alone -/

/-- The path names `x`, which holds what it held at first and all pieces. -/
structure Appended (job : ι → Job) (path : CString) (x : Nat) (old : Bytes) (k₀ k : Volume ι) :
    Prop where
  name : k.names path = some x
  contents : k.files x = old ++ k.pieces
  part : ∀ i, k.writtenBy i <+: (job i).data
  since : k₀.failures <+: k.failures

/-- What a thread relies on. -/
structure Relies (i : ι) (k k' : Volume ι) : Prop where
  keeps : ∀ {fd f}, k.Has i fd f → k'.Has i fd f
  mine : k'.writtenBy i = k.writtenBy i
  writes : k.writes <+: k'.writes
  failures : k.failures <+: k'.failures

/-- What a thread guarantees: it writes once, or not at all. -/
structure Guarantees (job : ι → Job) (i : ι) (k k' : Volume ι) : Prop where
  others : ∀ {fd f}, k.descs fd = some f → f.owner ≠ i → k'.descs fd = some f
  theirs : ∀ j, j ≠ i → k'.writtenBy j = k.writtenBy j
  writes : k'.writes = k.writes ∨ job i ≠ .read ∧ ∃ e, k'.writes = k.writes ++ [e]
  failures : k.failures <+: k'.failures

section Rules

variable {job : ι → Job} {path : CString} {x : Nat} {old : Bytes} {k₀ : Volume ι}

theorem Guarantees.writes_prefix (h : Guarantees job i k k') : k.writes <+: k'.writes := by
  rcases h.writes with h | ⟨-, e, h⟩
  · rw [h]
  · rw [h]
    exact List.prefix_append ..

theorem Guarantees.length_writes (h : Guarantees job i k k') :
    k'.writes.length ≤ k.writes.length + 1 := by
  rcases h.writes with h | ⟨-, e, h⟩
  · rw [h]
    exact Nat.le_succ _
  · rw [h, List.length_append, List.length_singleton]

theorem Guarantees.writes_read (h : Guarantees job i k k') (hj : job i = .read) :
    k'.writes = k.writes :=
  h.writes.resolve_right fun h => h.1 hj

theorem relies_refl (i : ι) (k : Volume ι) : Relies i k k :=
  ⟨id, rfl, List.prefix_refl _, List.prefix_refl _⟩

theorem relies_trans {i : ι} {k k' k'' : Volume ι} (h : Relies i k k') (h' : Relies i k' k'') :
    Relies i k k'' :=
  ⟨fun hd => h'.keeps (h.keeps hd), h'.mine.trans h.mine, h.writes.trans h'.writes,
    h.failures.trans h'.failures⟩

theorem relies_of_guarantees {i j : ι} (hij : i ≠ j) (h : Guarantees job i k k') :
    Relies j k k' where
  keeps hd := ⟨h.others hd.1 fun ho => hij (ho.symm.trans hd.2), hd.2⟩
  mine := h.theirs j hij.symm
  writes := h.writes_prefix
  failures := h.failures

theorem compatible_appended (job : ι → Job) (path : CString) (x : Nat) (old : Bytes)
    (k₀ : Volume ι) :
    Prog.Compatible (fun i => Prog.Keeping (Appended job path x old k₀) (Relies i))
      (fun i => Prog.Keeping (Appended job path x old k₀) (Guarantees job i)) :=
  Prog.compatible_keeping relies_refl (fun _ _ _ _ => relies_trans)
    fun _ _ hij _ _ _ _ => relies_of_guarantees hij

/-- A descriptor of its own, or a free one, is what a thread changes. -/
theorem guarantees_setDesc (hfd : ∀ f, k.descs fd = some f → f.owner = i) (g : Option (Handle ι)) :
    Guarantees job i k (k.setDesc fd g) :=
  ⟨others_setDesc hfd g, fun _ _ => rfl, .inl rfl, List.prefix_refl _⟩

theorem appended_setDesc (h : Appended job path x old k₀ k) (fd : Int32) (g : Option (Handle ι)) :
    Appended job path x old k₀ (k.setDesc fd g) :=
  ⟨h.name, h.contents, h.part, h.since⟩

theorem thread_appended (i : ι) :
    Thread i k₀ (Appended job path x old k₀) (Relies i) (Guarantees job i) where
  refl := relies_refl i
  trans _ _ _ := relies_trans
  keeps _ he := he.keeps
  since hk := hk.since
  failures _ he := he.failures
  still _ := ⟨fun h _ => h, fun _ _ => rfl, .inl rfl, List.prefix_refl _⟩
  fail hk hF _ :=
    ⟨⟨hk.name, hk.contents, hk.part, hk.since.trans (failures_fail ..)⟩,
      hF.others, hF.theirs, hF.writes, hF.failures.trans (failures_fail ..)⟩
  move hk hd _ := ⟨appended_setDesc hk _ _, guarantees_setDesc (owner_of_has hd) _⟩
  close hk hd := ⟨appended_setDesc hk _ _, guarantees_setDesc (owner_of_has hd) _⟩

/-- The file does not get longer than this. -/
theorem Appended.length_le [Fintype ι] (h : Appended job path x old k₀ k) :
    (k.files x).length ≤ old.length + ∑ i, (job i).data.length := by
  rw [h.contents, List.length_append, length_pieces]
  exact Nat.add_le_add_left (Finset.sum_le_sum fun i _ => (h.part i).length_le) _

theorem Appended.grows (h : Appended job path x old k₀ k) (h' : Appended job path x old k₀ k')
    (hw : k.writes <+: k'.writes) : k.files x <+: k'.files x := by
  obtain ⟨more, hmore⟩ := hw
  rw [h.contents, h'.contents, pieces, pieces, ← hmore, List.flatMap_append, ← List.append_assoc]
  exact List.prefix_append ..

omit [DecidableEq ι] in
/-- The file as it was after some number of writes, which was not less than `m`. -/
def Seen (old : Bytes) (m : Nat) (k : Volume ι) (c : Bytes) : Prop :=
  ∃ n, m ≤ n ∧ n ≤ k.writes.length ∧ c = old ++ (k.writes.take n).flatMap fun e => e.2.2

omit [DecidableEq ι] in
theorem Seen.mono {m : Nat} {c : Bytes} (h : Seen old m k c) (hw : k.writes <+: k'.writes) :
    Seen old m k' c := by
  obtain ⟨n, hm, hn, rfl⟩ := h
  obtain ⟨more, hmore⟩ := hw
  refine ⟨n, hm, Nat.le_trans hn (hmore ▸ (List.prefix_append ..).length_le), ?_⟩
  rw [← hmore, List.take_append_of_le_length hn]

theorem Appended.seen {m : Nat} (h : Appended job path x old k₀ k) (hm : m ≤ k.writes.length) :
    Seen old m k (k.files x) :=
  ⟨k.writes.length, hm, Nat.le_refl _, by rw [h.contents, List.take_length, pieces]⟩

theorem reader_appended [Fintype ι] (i : ι) (m : Nat) :
    Reader i (Appended job path x old k₀) (Relies i) x (Seen old m)
      (old.length + ∑ i, (job i).data.length) where
  grows hk hk' he _ _ := hk.grows hk' he.writes
  stays _ hk' he _ _ := fun ⟨_, hm, hn, _⟩ =>
    hk'.seen (Nat.le_trans (Nat.le_trans hm hn) he.writes.length_le)
  lasts _ he hc := hc.mono he.writes
  same _ hw hc := hc.mono (hw ▸ List.prefix_refl _)
  bounded hk _ _ := hk.length_le

/-- A descriptor for appending, and what has been written through it. -/
def Appending (i : ι) (x : Nat) (k : Volume ι) (f : Handle ι) (d : Bytes) : Prop :=
  f.file = x ∧ f.writable = true ∧ f.append = true ∧ k.writtenBy i = d

omit [DecidableEq ι] in
theorem written_append (ha : f.append = true) :
    (k.written i fd f data).files = Function.update k.files f.file (k.files f.file ++ data) := by
  rw [written_files, writeOffset, if_pos ha, splice_end]

theorem writer_appended (hi : job i ≠ .read) :
    Writer i (Appended job path x old k₀) (Relies i) (Guarantees job i) (Appending i x)
      (job i).data where
  writable hD := hD.2.1
  stays _ he _ hD := ⟨hD.1, hD.2.1, hD.2.2.1, he.mine.trans hD.2.2.2⟩
  writes := by
    rintro k fd f d data hk hd ⟨rfl, hwr, ha, rfl⟩ hpre
    have hfiles : (k.written i fd f data).files f.file = k.files f.file ++ data := by
      rw [written_append ha, Function.update_self]
    refine ⟨⟨⟨hk.name, ?_, fun j => ?_, hk.since⟩, others_setDesc (owner_of_has hd) _,
      fun j hj => writtenBy_of_ne hj, .inr ⟨hi, _, rfl⟩, List.prefix_refl _⟩, rfl, hwr, ha,
      writtenBy_self⟩
    · rw [hfiles, hk.contents, pieces_written, List.append_assoc]
    · by_cases hj : j = i
      · rw [hj, writtenBy_self]
        exact hpre
      · rw [writtenBy_of_ne hj]
        exact hk.part j

end Rules

/-! ## The jobs -/

/-- All has been written, or a call of the thread has failed. -/
def WroteAll (k₀ : Volume ι) (i : ι) (buf : Bytes) (k : Volume ι) (r : Result Unit) : Prop :=
  r = .ok () ∧ k.writtenBy i = buf ∨ ∃ e, r = .error (.os e) ∧ FailedSince k₀ i e k

/-- What has been read is as `M` says, or a call of the thread has failed. -/
def ReadSome (k₀ : Volume ι) (i : ι) (M : Volume ι → Bytes → Prop) (k : Volume ι)
    (r : Result Bytes) : Prop :=
  (∃ c, r = .ok c ∧ M k c) ∨ ∃ e, r = .error (.os e) ∧ FailedSince k₀ i e k

/-- What a job of thread `i` has come to. -/
def Post (k₀ : Volume ι) (i : ι) (M : Volume ι → Bytes → Prop) (k : Volume ι) :
    (j : Job) → j.Out → Prop
  | .append _ buf, r => WroteAll k₀ i buf k r
  | .read, r => ReadSome k₀ i M k r

omit [DecidableEq ι] in
theorem flags_append (i : ι) {o : Fd.OpenOptions}
    (ho : o.append = true ∧ o.truncate = false ∧ o.createNew = false) :
    ∃ access, o.accessFlags = .ok access ∧ (∀ c, opened (o.flags access) (some c) = some c) ∧
      ∀ x, (handle i x (o.flags access)).writable = true ∧
        (handle i x (o.flags access)).append = true := by
  obtain ⟨read, write, append, truncate, create, createNew⟩ := o
  obtain ⟨rfl, rfl, rfl⟩ := ho
  cases read <;> cases write <;> cases create <;>
    exact ⟨_, rfl, fun c => rfl, fun x => ⟨rfl, rfl⟩⟩

section Jobs

variable {job : ι → Job} {path : CString} {x : Nat} {old : Bytes} {k₀ : Volume ι}

theorem appended_open (i : ι) (flags : Int32) {y : Nat} (hk : Appended job path x old k₀ k)
    (hy : k.names path = some y) (hd : k.descs fd = none) :
    y = x ∧ Appended job path x old k₀ (k.setDesc fd (some (handle i y flags))) ∧
      Guarantees job i k (k.setDesc fd (some (handle i y flags))) :=
  ⟨Option.some.inj (hy.symm.trans hk.name), appended_setDesc hk _ _,
    guarantees_setDesc (owner_of_none hd) _⟩

theorem under_append {o : Fd.OpenOptions} {buf : Bytes}
    (ho : o.append = true ∧ o.truncate = false ∧ o.createNew = false)
    (hw : Writer i (Appended job path x old k₀) (Relies i) (Guarantees job i) (Appending i x) buf)
    (hk : Appended job path x old k₀ k) (hnone : k.writtenBy i = []) :
    (io (writeWith o path.val buf)).Under (answer i)
      (Prog.Keeping (Appended job path x old k₀) (Relies i))
      (Prog.Keeping (Appended job path x old k₀) (Guarantees job i))
      (WroteAll k₀ i buf) (buf.length + 2) k := by
  obtain ⟨access, ha, hsame, hflags⟩ := flags_append i ho
  have ht : Thread i k₀ (Appended job path x old k₀) (Relies i) (Guarantees job i) :=
    thread_appended i
  rw [io_writeWith ha]
  refine under_open ht (writeTo · buf) (fun v hv => ⟨x, hv.name⟩) hsame
    (fun v y fd hv he hy hd => ?_) (fun w e _ hf => .inr ⟨e, rfl, hf⟩) hk
  obtain ⟨rfl, hI, hF⟩ := appended_open i (o.flags access) hv hy hd
  refine ⟨⟨hI, hF⟩, under_writeTo ht hw (fun v g u w hD _ _ hwrites _ _ he => .inl ⟨rfl, ?_⟩)
    (fun w e _ hf => .inr ⟨e, rfl, hf⟩) hI ⟨Function.update_self .., rfl⟩
    ⟨rfl, (hflags _).1, (hflags _).2, he.mine.trans hnone⟩⟩
  rw [he.mine, writtenBy, hwrites]
  exact hD.2.2.2

theorem under_read [Fintype ι] {m : Nat} (hk : Appended job path x old k₀ k)
    (hm : m ≤ k.writes.length) :
    (io (read path.val)).Under (answer i)
      (Prog.Keeping (Appended job path x old k₀) (Relies i))
      (Prog.Keeping (Appended job path x old k₀) (Guarantees job i))
      (ReadSome k₀ i (Seen old m)) (old.length + ∑ i, (job i).data.length + 3) k := by
  have ht : Thread i k₀ (Appended job path x old k₀) (Relies i) (Guarantees job i) :=
    thread_appended i
  rw [io_read]
  refine under_open ht readFrom (fun v hv => ⟨x, hv.name⟩) (fun c => rfl)
    (fun v y fd hv he hy hd => ?_) (fun w e _ hf => .inr ⟨e, rfl, hf⟩) hk
  obtain ⟨rfl, hI, hF⟩ := appended_open i Fd.O_RDONLY hv hy hd
  exact ⟨⟨hI, hF⟩, under_readFrom ht (reader_appended i m) (fun w c _ hc => .inl ⟨c, rfl, hc⟩)
    (fun w e _ hf => .inr ⟨e, rfl, hf⟩) hI ⟨Function.update_self .., rfl⟩ rfl rfl rfl
    (hI.seen (Nat.le_trans hm he.writes.length_le))⟩

theorem under_job [Fintype ι] {m : Nat} (hj : (job i).Appends) (hk : Appended job path x old k₀ k)
    (hnone : k.writtenBy i = []) (hm : m ≤ k.writes.length) :
    ((job i).run path).Under (answer i) (Prog.Keeping (Appended job path x old k₀) (Relies i))
      (Prog.Keeping (Appended job path x old k₀) (Guarantees job i))
      (fun k a => Post k₀ i (Seen old m) k (job i) a)
      ((job i).calls (old.length + ∑ i, (job i).data.length)) k := by
  have hw : job i ≠ .read → Writer i (Appended job path x old k₀) (Relies i) (Guarantees job i)
    (Appending i x) (job i).data := writer_appended
  cases hjob : job i with
  | append o buf =>
    rw [hjob] at hj hw
    exact under_append hj (hw (fun h => by cases h)) hk hnone
  | read => exact under_read hk hm

end Jobs

/-! ## The moment of a reader -/

section Moment

variable {job : ι → Job} {path : CString} {x : Nat} {old c : Bytes} {k₀ : Volume ι} {m : ι → Nat}
  {s t : Volume ι × ((i : ι) → Task (job i).Out)} {ls : List (ι × PathReply)}

theorem Post.got {M : Volume ι → Bytes → Prop} {j : Job} {a : j.Out} (h : Post k₀ i M k j a)
    (hg : j.got a = some c) : M k c := by
  cases j with
  | append o buf => cases hg
  | read =>
    rcases h with ⟨c', rfl, h⟩ | ⟨e, rfl, -⟩
    · cases hg
      exact h
    · cases hg

theorem Post.imp {M M' : Volume ι → Bytes → Prop} {j : Job} {a : j.Out} (h : Post k₀ i M k j a)
    (hM : ∀ c, j.got a = some c → M' k c) : Post k₀ i M' k j a := by
  cases j with
  | append o buf => exact h
  | read =>
    rcases h with ⟨c, rfl, -⟩ | ⟨e, rfl, hf⟩
    · exact .inl ⟨c, rfl, hM c rfl⟩
    · exact .inr ⟨e, rfl, hf⟩

theorem read_of_got {j : Job} {a : j.Out} (h : j.got a = some c) : j = .read := by
  cases j with
  | append o buf => cases h
  | read => rfl

/-- Before its first call a job has read nothing. -/
theorem got_run {j : Job} {a : j.Out} (h : (j.run path).result = some a) : j.got a = none := by
  cases j with
  | append o buf => rfl
  | read =>
    have hread : (io (read path.val) : Task (Result Bytes)).result = some a := h
    rw [io_read] at hread
    cases hread

/-- Nor after it. -/
theorem got_resume {j : Job} {a : j.Out} {r : PathReply}
    (h : ((j.run path).resume r).result = some a) : j.got a = none := by
  cases j with
  | append o buf => rfl
  | read =>
    have hread : ((io (read path.val) : Task (Result Bytes)).resume r).result = some a := h
    rw [io_read, Prog.resume] at hread
    by_cases hr : r.ret = -1
    · rw [if_pos hr] at hread
      cases hread
      rfl
    · rw [if_neg hr] at hread
      cases hread

/-- A state of a run. Thread `i` gets the file as it is after `m i` writes or more. -/
def Going (job : ι → Job) (path : CString) (x : Nat) (old : Bytes) (k₀ : Volume ι) (m : ι → Nat)
    (s : Volume ι × ((i : ι) → Task (job i).Out)) : Prop :=
  Appended job path x old k₀ s.1 ∧ ∃ n : ι → Nat, ∀ i, (s.2 i).Under (answer i)
    (Prog.Keeping (Appended job path x old k₀) (Relies i))
    (Prog.Keeping (Appended job path x old k₀) (Guarantees job i))
    (fun k a => Post k₀ i (Seen old (m i)) k (job i) a) (n i) s.1

theorem going_step (h : Going job path x old k₀ m s) {l : ι × PathReply}
    (hl : Prog.sideStep answer s l = some t) :
    Going job path x old k₀ m t ∧ Guarantees job l.1 s.1 t.1 := by
  obtain ⟨hs, n, hn⟩ := h
  obtain ⟨hg, n', -, ht⟩ := Prog.side_step (compatible_appended job path x old k₀) hn hl
  obtain ⟨hI, hF⟩ := hg hs
  exact ⟨⟨hI, n', ht⟩, hF⟩

theorem going_run (h : Going job path x old k₀ m s)
    (hl : runFrom (Prog.sideStep answer) s ls = some t) :
    Going job path x old k₀ m t ∧ s.1.writes <+: t.1.writes := by
  refine invariant (I := fun _ t => Going job path x old k₀ m t ∧ s.1.writes <+: t.1.writes)
    ⟨h, List.prefix_refl _⟩ ?_ hl
  rintro ls l t u - ⟨ht, hw⟩ hu
  obtain ⟨hu, hF⟩ := going_step ht hu
  exact ⟨hu, hw.trans hF.writes_prefix⟩

/-- A reader that has not begun does not get the file as it was before. -/
theorem going_begin [Fintype ι] (hi : job i = .read) (h : Going job path x old k₀ m s)
    (hs : s.2 i = (job i).run path) :
    Going job path x old k₀ (Function.update m i s.1.writes.length) s := by
  obtain ⟨hk, n, hn⟩ := h
  have hnone : s.1.writtenBy i = [] := by
    have hpart := hk.part i
    rw [hi] at hpart
    exact List.prefix_nil.mp hpart
  refine ⟨hk, Function.update n i ((job i).calls (old.length + ∑ i, (job i).data.length)),
    fun j => ?_⟩
  by_cases hj : j = i
  · subst hj
    rw [Function.update_self, Function.update_self, hs]
    exact under_job (by rw [hi]; exact trivial) hk hnone (Nat.le_refl _)
  · rw [Function.update_of_ne hj, Function.update_of_ne hj]
    exact hn j

/-- Between two calls of thread `i` the file of the path has been `c`. -/
def Held (path : CString) (s : Volume ι × ((i : ι) → Task (job i).Out)) (ls : List (ι × PathReply))
    (i : ι) (c : Bytes) : Prop :=
  ∃ ls₁ ls₂ t, ls = ls₁ ++ ls₂ ∧ runFrom (Prog.sideStep answer) s ls₁ = some t ∧
    0 < Prog.callsOf i ls₁ ∧ 0 < Prog.callsOf i ls₂ ∧ t.1.contents path = some c

/-- What a reader has got is the file at some moment of its run: since its first call
there have been as many writes as it has seen, and they were there before its last. -/
theorem held [Fintype ι] (hs : Going job path x old k₀ m s)
    (hrun : ∀ i, s.2 i = (job i).run path)
    (h : runFrom (Prog.sideStep answer) s ls = some t) {a : (job i).Out}
    (ha : (t.2 i).result = some a) (hg : (job i).got a = some c) : Held path s ls i c := by
  have hi := read_of_got hg
  obtain ⟨as, r, bs, r', cs, u, u', v, v', rfl, has, hu, hu', hbs, hv', hv⟩ :=
    Prog.exists_two h (i := i)
      (fun ht => by rw [ht, hrun] at ha; rw [got_run ha] at hg; cases hg)
      (fun r ht => by rw [ht, hrun] at ha; rw [got_resume ha] at hg; cases hg)
  obtain ⟨hgo, -⟩ := going_run hs has
  replace hgo := going_begin hi hgo (hu.trans (hrun i))
  obtain ⟨hgo', hF⟩ := going_step hgo hu'
  obtain ⟨hgov, -⟩ := going_run hgo' hbs
  obtain ⟨⟨-, n, hn⟩, hF'⟩ := going_step hgov hv'
  -- what has been read, when the last call has returned
  obtain ⟨w, hle, hw, rfl⟩ := Post.got
    (Prog.under_result ((compatible_appended ..).refl i) (hn i) (by rw [hv]; exact ha)) hg
  rw [Function.update_self, ← hF.writes_read hi] at hle
  rw [hF'.writes_read hi] at hw ⊢
  -- the moment with as many writes
  obtain ⟨bs₁, bs₂, z, rfl, hz, hz', hlen⟩ := exists_between
    (I := Going job path x old k₀ (Function.update m i u.1.writes.length))
    (f := fun t => t.1.writes.length)
    (fun s l t hs hl => ⟨(going_step hs hl).1, (going_step hs hl).2.length_writes⟩) hgo' hbs hle hw
  obtain ⟨hgoz, -⟩ := going_run hgo' hz
  obtain ⟨-, more, hmore⟩ := going_run hgoz hz'
  refine ⟨as ++ (i, r) :: bs₁, bs₂ ++ (i, r') :: cs, z, by simp, ?_, ?_, ?_, ?_⟩
  · exact runFrom_append_iff.mpr ⟨u, has, by rw [runFrom_cons, hu']; exact hz⟩
  · rw [Prog.callsOf, List.countP_append, List.countP_cons_of_pos (by simp)]
    omega
  · rw [Prog.callsOf, List.countP_append, List.countP_cons_of_pos (by simp)]
    omega
  · rw [contents, hgoz.1.name, Option.map_some, hgoz.1.contents, pieces, ← hmore, ← hlen,
      List.take_left]

end Moment

/-- Whatever the order of the calls, and whichever of them fail: the file holds
what it held and then all that has been written, each thread's part of that is the
beginning of its buffer and, once `write_all` has succeeded, all of it, and a reader
gets the whole file as it was at a moment between its first call and its last. No
thread is stuck or makes calls for ever, and an error is that of a call of the thread
itself that has failed. -/
theorem appends_kept [Fintype ι] {job : ι → Job} (hjob : ∀ i, (job i).Appends) {path : CString}
    {x : Nat} {old : Bytes} {k : Volume ι} (hname : k.names path = some x)
    (hold : k.files x = old) (hnone : k.writes = []) {ls : List (ι × PathReply)}
    {s : Volume ι × ((i : ι) → Task (job i).Out)}
    (h : runFrom (Prog.sideStep answer) (k, fun i => (job i).run path) ls = some s) :
    s.1.contents path = some (old ++ s.1.pieces) ∧ ∀ i, s.1.writtenBy i <+: (job i).data ∧
      Prog.callsOf i ls ≤ (job i).calls (old.length + ∑ i, (job i).data.length) ∧
      ((s.2 i).result = none → ∃ r, (Prog.sideStep answer s (i, r)).isSome) ∧
      ∀ a, (s.2 i).result = some a →
        Post k i (fun _ c => Held path (k, fun i => (job i).run path) ls i c) s.1 (job i) a := by
  have hby : ∀ i, k.writtenBy i = [] := fun i => by rw [writtenBy, hnone]; rfl
  have hk : Appended job path x old k k :=
    ⟨hname, by rw [hold, pieces, hnone]; exact (List.append_nil _).symm,
      fun i => by rw [hby i]; exact List.nil_prefix, List.prefix_refl _⟩
  have hs := fun i => under_job (m := 0) (hjob i) hk (hby i) (Nat.zero_le _)
  have hgo : Going job path x old k (fun _ => 0) (k, fun i => (job i).run path) := ⟨hk, _, hs⟩
  obtain ⟨⟨hkept, -⟩, -⟩ := going_run hgo h
  refine ⟨by rw [contents, hkept.name, Option.map_some, hkept.contents],
    fun i => ⟨hkept.part i, ?_⟩⟩
  obtain ⟨hcalls, hgoes, hends⟩ :=
    Prog.side_by_side (s := (k, _)) (compatible_appended job path x old k) hs ls s h i
  exact ⟨hcalls, hgoes, fun a ha => (hends a ha).imp fun c hg => held hgo (fun _ => rfl) h ha hg⟩

/-- A volume with one file of one byte. -/
def logVolume : Volume Bool where
  names path := if path.val = "/log" then some 0 else none
  files _ := [9]
  fresh := 1
  descs _ := none
  writes := []
  failures := []

def logPath : CString := ⟨"/log", by decide⟩

/-- One thread appends two bytes, and another reads. -/
def logJob (appender : Bool) : Job :=
  if appender then .append { Fd.OpenOptions.new with append := true } [1, 2] else .read

/-- Both open the file. -/
def logRun : List (Bool × PathReply) := [(true, reply 3 (.ok 0)), (false, reply 4 (.ok 0))]

/-- Then a byte is written. -/
theorem appends_kept_logRun : ∃ s : Volume Bool × ((i : Bool) → Task (logJob i).Out),
    runFrom (Prog.sideStep answer) (logVolume, fun i => (logJob i).run logPath)
      (logRun ++ [(true, reply 0 (.ok 1))]) = some s ∧
      s.1.contents logPath = some [9, 1] ∧ s.1.writtenBy true <+: [1, 2] := by
  have hjob : ∀ i, (logJob i).Appends := by
    rintro (_ | _)
    · exact trivial
    · exact ⟨rfl, rfl, rfl⟩
  obtain ⟨s, hs⟩ : ∃ s, runFrom (Prog.sideStep answer)
      (logVolume, fun i => (logJob i).run logPath) logRun = some s := ⟨_, rfl⟩
  have hp : (s.2 true).pending = some (.io (.write (.fd 3) [1, 2])) := by
    cases hs
    show ((io (writeWith { Fd.OpenOptions.new with append := true } logPath.val [1, 2])).resume
      (reply 3 (.ok 0))).pending = _
    rw [io_writeWith rfl]
    exact writeTo_pending 3 [1, 2] (by decide)
  obtain ⟨t, ht⟩ : ∃ t, Prog.sideStep answer s (true, reply 0 (.ok 1)) = some t ∧
      t.1.pieces = [1] := by
    rw [Prog.sideStep, hp]
    cases hs
    exact ⟨_, rfl, rfl⟩
  have h := runFrom_concat_iff.mpr ⟨s, hs, ht.1⟩
  obtain ⟨hc, hall⟩ := appends_kept hjob rfl rfl rfl h
  exact ⟨t, h, by rw [hc, ht.2]; rfl, (hall true).1⟩

end Volume

end PsPayload.Fs
