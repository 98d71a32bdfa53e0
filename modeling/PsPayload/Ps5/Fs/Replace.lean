import Mathlib.Algebra.Order.BigOperators.Group.Finset
import Mathlib.Data.Fintype.BigOperators
import PsPayload.Ps5.Fs.Threads

/-!
# A file that is replaced while it is read

Threads replace the file of a path: each does `fs::write` to a path of its own and
then `fs::rename`s that to the path, while others `fs::read` it. `reads_whole`:
who reads the path gets contents that somebody has put there, never a part of them
or a mixture, and never finds the path without a file.
-/

namespace PsPayload.Fs

open Lib

/-- `fs::write` to another path, and `fs::rename`. -/
def replace (tmp path : String) (contents : Bytes) : Task (Result Unit) :=
  (io (write tmp contents)).bind fun
    | .error e => .done (.error e)
    | .ok () => rename tmp path

/-- What a thread does with the file of the path. -/
inductive Update where
  | read
  | replace (tmp : CString) (contents : Bytes)

namespace Update

def Out : Update → Type
  | read => Result Bytes
  | replace _ _ => Result Unit

def run (path : CString) : (u : Update) → Task u.Out
  | read => io (Fs.read path.val)
  | replace tmp contents => Fs.replace tmp.val path.val contents

def size : Update → Nat
  | read => 0
  | replace _ contents => contents.length

/-- The calls of a thread, for files that are not longer than `bound`. -/
def calls (bound : Nat) : Update → Nat
  | read => bound + 3
  | replace _ contents => contents.length + 3

end Update

/-- The paths that are written to are different from the path and from each other. -/
structure Apart {ι : Type} (job : ι → Update) (path : CString) : Prop where
  path : ∀ {i tmp c}, job i = .replace tmp c → tmp ≠ path
  each : ∀ {i j tmp c c'}, job i = .replace tmp c → job j = .replace tmp c' → i = j

namespace Volume

variable {ι : Type} {job : ι → Update} {path : CString} {old : Bytes} {i j : ι}
  {k₀ k k' : Volume ι} {fd : Int32} {f : Handle ι}

/-- Contents that the path has had from the beginning, or that somebody puts there. -/
def Whole (job : ι → Update) (old c : Bytes) : Prop :=
  c = old ∨ ∃ i tmp, job i = .replace tmp c

/-- The path has got the contents of some thread. -/
def Replaced (job : ι → Update) (path : CString) (k : Volume ι) : Prop :=
  ∃ i tmp c, job i = .replace tmp c ∧ k.contents path = some c

/-- The file of the path, and those that are being read, are not among those that
are being written. -/
structure Replacing (job : ι → Update) (path : CString) (old : Bytes) (k₀ k : Volume ι) :
    Prop where
  path : ∃ x, k.names path = some x ∧ Whole job old (k.files x)
  distinct : k.Distinct
  opened : ∀ {fd f}, k.descs fd = some f → f.file < k.fresh
  reading : ∀ {fd f}, k.descs fd = some f → job f.owner = .read →
    Whole job old (k.files f.file) ∧ ∀ {i tmp c}, job i = .replace tmp c → k.names tmp ≠ some f.file
  since : k₀.failures <+: k.failures

/-- What a thread relies on. -/
structure Unharmed (job : ι → Update) (path : CString) (i : ι) (k k' : Volume ι) : Prop where
  keeps : ∀ {fd f}, k.Has i fd f → k'.Has i fd f
  failures : k.failures <+: k'.failures
  reading : ∀ {fd f}, job i = .read → k.Has i fd f → k'.files f.file = k.files f.file
  writing : ∀ {tmp c}, job i = .replace tmp c → k'.names tmp = k.names tmp ∧
    ∀ x, k.names tmp = some x → k'.files x = k.files x
  replaced : Replaced job path k → Replaced job path k'

/-- What a thread guarantees: it changes no path but its own and the common one,
and no file but the one that its own path names. -/
structure Confined (job : ι → Update) (path : CString) (i : ι) (k k' : Volume ι) : Prop where
  others : ∀ {fd f}, k.descs fd = some f → f.owner ≠ i → k'.descs fd = some f
  failures : k.failures <+: k'.failures
  names : ∀ p, p ≠ path → (∀ c, job i ≠ .replace p c) → k'.names p = k.names p
  files : ∀ x, x < k.fresh → (∀ tmp c, job i = .replace tmp c → k.names tmp ≠ some x) →
    k'.files x = k.files x
  replaced : Replaced job path k → Replaced job path k'

/-! ## The rules -/

theorem unharmed_refl (i : ι) (k : Volume ι) : Unharmed job path i k k :=
  ⟨id, List.prefix_refl _, fun _ _ => rfl, fun _ => ⟨rfl, fun _ _ => rfl⟩, id⟩

theorem unharmed_trans {k'' : Volume ι} (h : Unharmed job path i k k')
    (h' : Unharmed job path i k' k'') : Unharmed job path i k k'' where
  keeps hd := h'.keeps (h.keeps hd)
  failures := h.failures.trans h'.failures
  reading hj hd := (h'.reading hj (h.keeps hd)).trans (h.reading hj hd)
  writing hj := by
    obtain ⟨hn, hfiles⟩ := h.writing hj
    obtain ⟨hn', hfiles'⟩ := h'.writing hj
    exact ⟨hn'.trans hn, fun x hx => (hfiles' x (hn.trans hx)).trans (hfiles x hx)⟩
  replaced hr := h'.replaced (h.replaced hr)

theorem unharmed_of_confined (ha : Apart job path) (hij : i ≠ j) (hk : Replacing job path old k₀ k)
    (h : Confined job path i k k') : Unharmed job path j k k' where
  keeps hd := ⟨h.others hd.1 fun ho => hij (ho.symm.trans hd.2), hd.2⟩
  failures := h.failures
  reading hj hd := by
    refine h.files _ (hk.opened hd.1) fun tmp c hi => ?_
    exact (hk.reading hd.1 (by rw [hd.2]; exact hj)).2 hi
  writing hj := by
    refine ⟨h.names _ (ha.path hj) fun c hi => hij (ha.each hi hj), fun x hx => ?_⟩
    refine h.files x (hk.distinct.named hx) fun tmp c hi hx' => ?_
    obtain rfl := hk.distinct.inj hx hx'
    exact hij (ha.each hi hj)
  replaced := h.replaced

theorem compatible_replacing (ha : Apart job path) (old : Bytes) (k₀ : Volume ι) :
    Prog.Compatible (fun i => Prog.Keeping (Replacing job path old k₀) (Unharmed job path i))
      (fun i => Prog.Keeping (Replacing job path old k₀) (Confined job path i)) :=
  Prog.compatible_keeping unharmed_refl (fun _ _ _ _ => unharmed_trans)
    fun _ _ hij _ _ hk _ => unharmed_of_confined ha hij hk

/-- A descriptor of its own, or a free one, is closed, moved or opened. -/
theorem confined_setDesc (hfd : ∀ f, k.descs fd = some f → f.owner = i) (g : Option (Handle ι)) :
    Confined job path i k (k.setDesc fd g) :=
  ⟨others_setDesc hfd g, List.prefix_refl _, fun _ _ _ => rfl, fun _ _ _ => rfl, id⟩

theorem replacing_setDesc (hk : Replacing job path old k₀ k) (fd : Int32) (g : Option (Handle ι))
    (hg : ∀ f, g = some f → f.file < k.fresh ∧ (job f.owner = .read →
      Whole job old (k.files f.file) ∧
        ∀ {i tmp c}, job i = .replace tmp c → k.names tmp ≠ some f.file)) :
    Replacing job path old k₀ (k.setDesc fd g) := by
  have hdesc : ∀ {fd' f}, (k.setDesc fd g).descs fd' = some f →
      k.descs fd' = some f ∨ g = some f := by
    intro fd' f hf
    rw [setDesc_descs, Function.update_apply] at hf
    split at hf
    · exact .inr hf
    · exact .inl hf
  refine ⟨hk.path, hk.distinct.congr rfl rfl, fun hf => ?_, fun hf hj => ?_, hk.since⟩
  · exact (hdesc hf).elim hk.opened fun h => (hg _ h).1
  · exact (hdesc hf).elim (fun h => hk.reading h hj) fun h => (hg _ h).2 hj

theorem thread_replacing (i : ι) :
    Thread i k₀ (Replacing job path old k₀) (Unharmed job path i) (Confined job path i) where
  refl := unharmed_refl i
  trans _ _ _ := unharmed_trans
  keeps _ he := he.keeps
  since hk := hk.since
  failures _ he := he.failures
  still _ := ⟨fun h _ => h, List.prefix_refl _, fun _ _ _ => rfl, fun _ _ _ => rfl, id⟩
  fail hk hF _ :=
    ⟨⟨hk.path, hk.distinct.congr rfl rfl, hk.opened, hk.reading,
      hk.since.trans (failures_fail ..)⟩,
      hF.others, hF.failures.trans (failures_fail ..), hF.names, hF.files, hF.replaced⟩
  move hk hd n := by
    refine ⟨replacing_setDesc hk _ _ fun f hf => ?_, confined_setDesc (owner_of_has hd) _⟩
    obtain rfl := Option.some.inj hf
    have hopen := hk.opened hd.1
    have hread := hk.reading hd.1
    exact ⟨hopen, hread⟩
  close hk hd := ⟨replacing_setDesc hk _ _ nofun, confined_setDesc (owner_of_has hd) _⟩

/-! ## Reading -/

/-- The file of the path is none of those that are being written. -/
theorem not_written (ha : Apart job path) (hk : Replacing job path old k₀ k) {x : Nat}
    (hx : k.names path = some x) {tmp : CString} {c : Bytes} (hj : job i = .replace tmp c) :
    k.names tmp ≠ some x :=
  fun h => ha.path hj (hk.distinct.inj h hx)

theorem whole_at {x : Nat} (hk : Replacing job path old k₀ k) (hx : k.names path = some x) :
    Whole job old (k.files x) := by
  obtain ⟨y, hy, hw⟩ := hk.path
  obtain rfl := Option.some.inj (hx.symm.trans hy)
  exact hw

theorem length_whole [Fintype ι] {c : Bytes} (hw : Whole job old c) :
    c.length ≤ old.length + ∑ i, (job i).size := by
  rcases hw with rfl | ⟨i, tmp, hi⟩
  · exact Nat.le_add_right _ _
  · have hle : (job i).size ≤ ∑ i, (job i).size :=
      Finset.single_le_sum (f := fun i => (job i).size) (fun _ _ => Nat.zero_le _)
        (Finset.mem_univ i)
    rw [hi, Update.size] at hle
    exact Nat.le_trans hle (Nat.le_add_left _ _)

theorem reader_replacing [Fintype ι] (hj : job i = .read) (x : Nat) (c : Bytes) :
    Reader i (Replacing job path old k₀) (Unharmed job path i) x (fun _ d => d = c)
      (old.length + ∑ i, (job i).size) where
  grows := by
    rintro k k' fd f hk - he hd rfl
    rw [he.reading hj hd]
  stays := by
    rintro k k' fd f hk - he hd rfl hc
    rw [he.reading hj hd, hc]
  lasts _ _ hc := hc
  same _ _ hc := hc
  bounded := by
    rintro k fd f hk hd rfl
    exact length_whole (hk.reading hd.1 (by rw [hd.2]; exact hj)).1

/-- Whole contents have been read, or a call of the thread has failed. -/
def ReadWhole (job : ι → Update) (old : Bytes) (k₀ : Volume ι) (i : ι) (k : Volume ι)
    (r : Result Bytes) : Prop :=
  (∃ c, r = .ok c ∧ Whole job old c) ∨ ∃ e, r = .error (.os e) ∧ FailedSince k₀ i e k

theorem under_readWhole [Fintype ι] (ha : Apart job path) (hj : job i = .read)
    (hk : Replacing job path old k₀ k) :
    (io (read path.val)).Under (answer i)
      (Prog.Keeping (Replacing job path old k₀) (Unharmed job path i))
      (Prog.Keeping (Replacing job path old k₀) (Confined job path i))
      (ReadWhole job old k₀ i) (old.length + ∑ i, (job i).size + 3) k := by
  have ht : Thread i k₀ (Replacing job path old k₀) (Unharmed job path i) (Confined job path i) :=
    thread_replacing i
  rw [io_read]
  refine under_open ht readFrom (fun v hv => hv.path.imp fun _ => And.left) (fun c => rfl)
    (fun v x fd hv _ hx hd => ?_) (fun w e _ hf => .inr ⟨e, rfl, hf⟩) hk
  have hw := whole_at hv hx
  have hI := replacing_setDesc hv fd (some (handle i x Fd.O_RDONLY)) fun f hf => by
    obtain rfl := Option.some.inj hf
    exact ⟨hv.distinct.named hx, fun _ => ⟨hw, not_written ha hv hx⟩⟩
  -- the file stays as it is while it is open
  refine ⟨⟨hI, confined_setDesc (owner_of_none hd) _⟩,
    under_readFrom ht (reader_replacing hj x (v.files x)) (fun w c _ hc => ?_)
      (fun w e _ hf => .inr ⟨e, rfl, hf⟩) hI ⟨Function.update_self .., rfl⟩ rfl rfl rfl rfl⟩
  exact .inl ⟨c, rfl, hc ▸ hw⟩

/-! ## Writing and renaming -/

section Write

variable {tmp : CString} {c d : Bytes}

theorem replaced_of_contents (h : k'.contents path = k.contents path)
    (hr : Replaced job path k) : Replaced job path k' := by
  obtain ⟨i, tmp, c, hj, hc⟩ := hr
  exact ⟨i, tmp, c, hj, h.trans hc⟩

theorem reading_ne_fileAt (hk : Replacing job path old k₀ k) (hj : job i = .replace tmp c)
    (hf : k.descs fd = some f) (hr : job f.owner = .read) : f.file ≠ k.fileAt tmp := by
  intro h
  rcases fileAt_cases k tmp with hn | ⟨-, hn⟩
  · exact (hk.reading hf hr).2 hj (by rw [h]; exact hn)
  · have := hk.opened hf
    omega

theorem not_reading (hj : job i = .replace tmp c) : job i ≠ .read := by
  rw [hj]
  exact nofun

/-- The path of a thread is opened and the file emptied, or a new one made. -/
theorem replacing_create (ha : Apart job path) (hk : Replacing job path old k₀ k)
    (hj : job i = .replace tmp c) (hd : k.descs fd = none) (flags : Int32) (d : Bytes) :
    Replacing job path old k₀ (k.openAt i tmp flags d fd) ∧
      Confined job path i k (k.openAt i tmp flags d fd) := by
  have hpath := ha.path hj
  have hdesc : ∀ {fd' f}, (k.openAt i tmp flags d fd).descs fd' = some f →
      k.descs fd' = some f ∨ f = handle i (k.fileAt tmp) flags := by
    intro fd' f hf
    rw [openAt_descs, Function.update_apply] at hf
    split at hf
    · exact .inr (Option.some.inj hf).symm
    · exact .inl hf
  obtain ⟨x, hx, hw⟩ := hk.path
  have hxne := hk.distinct.ne_fileAt hpath.symm hx
  refine ⟨⟨⟨x, (openAt_names_of_ne hpath.symm).trans hx, by rw [openAt_files_of_ne hxne]; exact hw⟩,
    hk.distinct.openAt, ?_, ?_, hk.since⟩,
    ⟨others_setDesc (owner_of_none hd) _, List.prefix_refl _,
    fun p _ hp => openAt_names_of_ne fun h => hp c (h ▸ hj), ?_, ?_⟩⟩
  · intro fd' f hf
    rcases hdesc hf with hf | rfl
    · exact Nat.lt_of_lt_of_le (hk.opened hf) le_openAt_fresh
    · exact hk.distinct.fileAt_lt
  · intro fd' f hf hr
    rcases hdesc hf with hf | rfl
    · have hne := reading_ne_fileAt hk hj hf hr
      obtain ⟨hw, hn⟩ := hk.reading hf hr
      refine ⟨by rw [openAt_files_of_ne hne]; exact hw, fun {j p c'} hj' => ?_⟩
      by_cases h : p = tmp
      · rw [h, openAt_names_self]
        exact fun h => hne (Option.some.inj h).symm
      · rw [openAt_names_of_ne h]
        exact hn hj'
    · exact absurd hr (not_reading hj)
  · intro y hy hn
    refine openAt_files_of_ne fun h => ?_
    rcases fileAt_cases k tmp with h' | ⟨-, h'⟩
    · exact hn tmp c hj (h ▸ h')
    · omega
  · refine replaced_of_contents ?_
    rw [contents, contents, openAt_names_of_ne hpath.symm, hx, Option.map_some, Option.map_some,
      openAt_files_of_ne hxne]

/-- The file that the path of a thread names is written. -/
theorem replacing_written (ha : Apart job path) (hk : Replacing job path old k₀ k)
    (hj : job i = .replace tmp c) (hd : k.Has i fd f) (hf : k.names tmp = some f.file) (data : Bytes) :
    Replacing job path old k₀ (k.written i fd f data) ∧
      Confined job path i k (k.written i fd f data) := by
  have hat : k.fileAt tmp = f.file := by rw [fileAt, hf, Option.getD_some]
  have hfile : ∀ x, x ≠ f.file → (k.written i fd f data).files x = k.files x :=
    fun x hx => Function.update_of_ne hx ..
  have hdesc : ∀ {fd' g}, (k.written i fd f data).descs fd' = some g →
      k.descs fd' = some g ∨ g.file = f.file ∧ g.owner = i := by
    intro fd' g hg
    rw [written_descs, Function.update_apply] at hg
    split at hg
    · obtain rfl := Option.some.inj hg
      exact .inr ⟨rfl, hd.2⟩
    · exact .inl hg
  obtain ⟨x, hx, hw⟩ := hk.path
  have hxne : x ≠ f.file := hat ▸ hk.distinct.ne_fileAt (ha.path hj).symm hx
  refine ⟨⟨⟨x, hx, by rw [hfile x hxne]; exact hw⟩, hk.distinct.congr rfl rfl, fun hg => ?_,
      fun hg hr => ?_, hk.since⟩,
    ⟨others_setDesc (owner_of_has hd) _, List.prefix_refl _, fun _ _ _ => rfl, fun y _ hn => hfile y fun h =>
      hn tmp c hj (h ▸ hf), replaced_of_contents ?_⟩⟩
  · rcases hdesc hg with hg | ⟨hg, -⟩
    · exact hk.opened hg
    · rw [hg]
      exact hk.distinct.named hf
  · rcases hdesc hg with hg | ⟨-, ho⟩
    · rw [hfile _ (hat ▸ reading_ne_fileAt hk hj hg hr)]
      exact hk.reading hg hr
    · rw [ho] at hr
      exact absurd hr (not_reading hj)
  · show (k.names path).map (k.written i fd f data).files = (k.names path).map k.files
    rw [hx, Option.map_some, Option.map_some, hfile x hxne]

theorem writer_replacing (ha : Apart job path) (hj : job i = .replace tmp c) (buf : Bytes) :
    Writer i (Replacing job path old k₀) (Unharmed job path i) (Confined job path i)
      (Filling tmp) buf where
  writable hD := hD.2.1
  stays _ he _ hD := by
    obtain ⟨hn, hwr, hap, ho, hc⟩ := hD
    obtain ⟨hname, hfiles⟩ := he.writing hj
    exact ⟨hname.trans hn, hwr, hap, ho, (hfiles _ hn).trans hc⟩
  writes hk hd hD _ := ⟨replacing_written ha hk hj hd hD.1 _, (hD.written _).2⟩

/-- The file that a thread has written gets the path. -/
theorem replacing_renamed (ha : Apart job path) (hk : Replacing job path old k₀ k)
    (hj : job i = .replace tmp c) {y : Nat} (hy : k.names tmp = some y) (hc : k.files y = c) :
    Replacing job path old k₀ (k.renamed tmp path y) ∧ Confined job path i k (k.renamed tmp path y) ∧
      Replaced job path (k.renamed tmp path y) := by
  have hpath := ha.path hj
  have hself : (k.renamed tmp path y).names path = some y := Function.update_self ..
  have hwhole : Replaced job path (k.renamed tmp path y) :=
    ⟨i, tmp, c, hj, by rw [contents, hself, Option.map_some]; exact congrArg some hc⟩
  refine ⟨⟨⟨y, hself, .inr ⟨i, tmp, by rw [hj]; exact congrArg _ hc.symm⟩⟩,
    hk.distinct.renamed hy, hk.opened, ?_, hk.since⟩,
    ⟨fun h _ => h, List.prefix_refl _, fun p hp hn => ?_, fun _ _ _ => rfl, fun _ => hwhole⟩, hwhole⟩
  · intro fd f hf hr
    obtain ⟨hw, hn⟩ := hk.reading hf hr
    refine ⟨hw, fun {j p c'} hj' hp => ?_⟩
    rcases renamed_cases hp with ⟨hp, -⟩ | ⟨-, -, hp⟩
    · exact ha.path hj' hp
    · exact hn hj' hp
  · have hne : p ≠ tmp := fun h => hn c (h ▸ hj)
    rw [renamed_names, Function.update_of_ne hp, Function.update_of_ne hne]

/-- The path has got new contents, or a call of the thread has failed. -/
def HasReplaced (job : ι → Update) (path : CString) (k₀ : Volume ι) (i : ι) (k : Volume ι)
    (r : Result Unit) : Prop :=
  r = .ok () ∧ Replaced job path k ∨ ∃ e, r = .error (.os e) ∧ FailedSince k₀ i e k

/-- The contents have been written to the path of the thread. -/
def Written (tmp : CString) (c : Bytes) (k₀ : Volume ι) (i : ι) (k : Volume ι) (r : Result Unit) :
    Prop :=
  r = .ok () ∧ (∃ y, k.names tmp = some y ∧ k.files y = c) ∨
    ∃ e, r = .error (.os e) ∧ FailedSince k₀ i e k

theorem written_unharmed {r : Result Unit} (hj : job i = .replace tmp c) (h : Written tmp c k₀ i k r)
    (he : Unharmed job path i k k') : Written tmp c k₀ i k' r := by
  rcases h with ⟨hr, y, hy, hc⟩ | ⟨e, hr, hf⟩
  · obtain ⟨hn, hfiles⟩ := he.writing hj
    exact .inl ⟨hr, y, hn.trans hy, (hfiles y hy).trans hc⟩
  · exact .inr ⟨e, hr, hf.mono he.failures⟩

theorem under_write (ha : Apart job path) (hj : job i = .replace tmp c)
    (hk : Replacing job path old k₀ k) :
    (io (write tmp.val c)).Under (answer i)
      (Prog.Keeping (Replacing job path old k₀) (Unharmed job path i))
      (Prog.Keeping (Replacing job path old k₀) (Confined job path i))
      (fun v r => Replacing job path old k₀ v ∧ Written tmp c k₀ i v r) (c.length + 2) k := by
  have ht : Thread i k₀ (Replacing job path old k₀) (Unharmed job path i) (Confined job path i) :=
    thread_replacing i
  rw [write_eq, io_writeWith rfl]
  refine Prog.under_call fun v hv => ⟨exists_open i v .., fun r u hu => ?_⟩
  obtain ⟨hv, -⟩ := hv hk
  rcases answer_open hu with ⟨hr, rfl⟩ | ⟨hr, -, hd, d, hd', rfl⟩
  · have hnot : openError (Fd.OpenOptions.flags { Fd.OpenOptions.new with
        write := true, create := true, truncate := true } Fd.O_WRONLY) (v.contents tmp) = none := by
      exact openError_of_opened (opened_create _)
    rw [hnot, refuse_none, if_pos hr]
    refine ⟨fun _ => ht.fails hv _, fun w hw => ?_⟩
    obtain ⟨hfail, -⟩ := ht.fails hv r.errno
    obtain ⟨hw, he⟩ := hw hfail
    exact ⟨hw, .inr ⟨_, rfl, (ht.failed hv _).mono he.failures⟩⟩
  · rw [opened_create] at hd'
    obtain rfl := Option.some.inj hd'
    obtain ⟨hI, hF⟩ := replacing_create ha hv hj hd (Fd.OpenOptions.flags { Fd.OpenOptions.new with
      write := true, create := true, truncate := true } Fd.O_WRONLY) []
    rw [if_neg hr]
    refine ⟨fun _ => ⟨hI, hF⟩, under_writeTo ht (writer_replacing ha hj c)
      (fun v g u w hD hfiles hnames _ hu hw he => ⟨hw, written_unharmed hj ?_ he⟩)
      (fun w e hw hf => ⟨hw, .inr ⟨e, rfl, hf⟩⟩) hI ⟨Function.update_self .., rfl⟩
      ⟨Function.update_self .., rfl, rfl, rfl, Function.update_self ..⟩⟩
    exact .inl ⟨rfl, g.file, by rw [hnames]; exact hD.1, by rw [hfiles]; exact hD.2.2.2.2⟩

theorem under_replace (ha : Apart job path) (hj : job i = .replace tmp c)
    (hk : Replacing job path old k₀ k) :
    (replace tmp.val path.val c).Under (answer i)
      (Prog.Keeping (Replacing job path old k₀) (Unharmed job path i))
      (Prog.Keeping (Replacing job path old k₀) (Confined job path i))
      (HasReplaced job path k₀ i) (c.length + 3) k := by
  have ht : Thread i k₀ (Replacing job path old k₀) (Unharmed job path i) (Confined job path i) :=
    thread_replacing i
  refine Prog.under_bind (m := 1) (fun w hw => ⟨hw, unharmed_refl i w⟩)
    (Prog.under_post (fun v r h => ?_) (under_write ha hj hk))
  obtain ⟨hv, h⟩ := h
  cases r with
  | error e =>
    obtain ⟨n, hn, hf⟩ := h.resolve_left fun h => by cases h.1
    exact fun w hw => .inr ⟨n, by rw [← hn], hf.mono (hw hv).2.failures⟩
  | ok a =>
    dsimp only
    rw [rename, withPath_val, withPath_val]
    refine Prog.under_call fun u hu => ⟨exists_rename i u tmp path, fun r w hw => ?_⟩
    obtain ⟨hu, he⟩ := hu hv
    obtain ⟨y, hy, hc⟩ : ∃ y, u.names tmp = some y ∧ u.files y = c :=
      (written_unharmed hj h he).elim And.right fun ⟨_, h, _⟩ => by cases h
    rcases answer_rename hw with ⟨hr, rfl⟩ | ⟨hr, z, hz, rfl⟩
    · have hnot : u.missing tmp = none := missing_of_name hy
      rw [hnot, refuse_none, cvtI32, if_pos hr]
      refine ⟨fun _ => ht.fails hu _, fun w hw => ?_⟩
      obtain ⟨hfail, -⟩ := ht.fails hu r.errno
      exact .inr ⟨_, rfl, (ht.failed hu _).mono (hw hfail).2.failures⟩
    · obtain rfl := Option.some.inj (hy.symm.trans hz)
      obtain ⟨hI, hF, hrep⟩ := replacing_renamed ha hu hj hy hc
      rw [cvtI32, if_neg hr]
      exact ⟨fun _ => ⟨hI, hF⟩, fun w hw => .inl ⟨rfl, (hw hI).2.replaced hrep⟩⟩

end Write

/-! ## Side by side -/

/-- What thread `i` has come to. -/
def Outcome (job : ι → Update) (path : CString) (old : Bytes) (k₀ : Volume ι) (i : ι)
    (k : Volume ι) : (u : Update) → u.Out → Prop
  | .read, r => ReadWhole job old k₀ i k r
  | .replace _ _, r => HasReplaced job path k₀ i k r

theorem under_update [Fintype ι] (ha : Apart job path) (hk : Replacing job path old k₀ k) (i : ι) :
    ((job i).run path).Under (answer i)
      (Prog.Keeping (Replacing job path old k₀) (Unharmed job path i))
      (Prog.Keeping (Replacing job path old k₀) (Confined job path i))
      (fun k a => Outcome job path old k₀ i k (job i) a)
      ((job i).calls (old.length + ∑ i, (job i).size)) k := by
  have hread := fun hj => under_readWhole ha (i := i) hj hk
  have hreplace := fun (tmp : CString) (c : Bytes) (hj : job i = .replace tmp c) =>
    under_replace ha hj hk
  cases hj : job i with
  | read => exact hread hj
  | replace tmp c => exact hreplace tmp c hj

/-- Whatever the order of the calls, and whichever of them fail: the path always
names a file, and that holds what it held at first or the whole contents of some
thread. Every reader that does not fail gets such contents, and once a thread has
replaced the file, the path has the contents of one of them. No thread is stuck or
makes calls for ever, and an error is that of a call of the thread itself that has
failed. -/
theorem reads_whole [Fintype ι] [DecidableEq ι] (ha : Apart job path) {k : Volume ι}
    (hold : k.contents path = some old) (hdistinct : k.Distinct)
    (hdescs : ∀ fd, k.descs fd = none) {ls : List (ι × PathReply)}
    {s : Volume ι × ((i : ι) → Task (job i).Out)}
    (h : runFrom (Prog.sideStep answer) (k, fun i => (job i).run path) ls = some s) :
    (∃ c, s.1.contents path = some c ∧ Whole job old c) ∧ ∀ i,
      Prog.callsOf i ls ≤ (job i).calls (old.length + ∑ i, (job i).size) ∧
      ((s.2 i).result = none → ∃ r, (Prog.sideStep answer s (i, r)).isSome) ∧
      ∀ a, (s.2 i).result = some a → Outcome job path old k i s.1 (job i) a := by
  obtain ⟨x, hx, hc⟩ := Option.map_eq_some_iff.mp hold
  have hdesc : ∀ {fd f}, k.descs fd ≠ some f := fun h => by rw [hdescs] at h; cases h
  have hk : Replacing job path old k k :=
    ⟨⟨x, hx, .inl hc⟩, hdistinct, fun h => absurd h hdesc, fun h => absurd h hdesc,
      List.prefix_refl _⟩
  have hc := compatible_replacing ha old k
  have hs := under_update ha hk
  have hkept := Prog.side_invariant (s := (k, fun i => (job i).run path)) hc
    (fun i w v hw hg => (hg hw).1) hk hs h
  obtain ⟨y, hy, hw⟩ := hkept.path
  refine ⟨⟨_, by rw [contents, hy, Option.map_some], hw⟩, fun i => ?_⟩
  exact Prog.side_by_side (s := (k, _)) hc hs ls s h i

def configPath : CString := ⟨"/config", by decide⟩

def configTmp : CString := ⟨"/config.tmp", by decide⟩

/-- A volume with one file of one byte. -/
def configVolume : Volume Bool where
  names path := if path = configPath then some 0 else none
  files _ := [9]
  fresh := 1
  descs _ := none
  writes := []
  failures := []

/-- One thread replaces the file, and another reads it. -/
def configJob (writer : Bool) : Update :=
  if writer then .replace configTmp [1, 2] else .read

/-- Both open their files. -/
def configRun : List (Bool × PathReply) := [(true, reply 3 (.ok 0)), (false, reply 4 (.ok 0))]

/-- Then the new contents are written, and the path has still the old ones. -/
theorem reads_whole_configRun : ∃ s : Volume Bool × ((i : Bool) → Task (configJob i).Out),
    runFrom (Prog.sideStep answer) (configVolume, fun i => (configJob i).run configPath)
      (configRun ++ [(true, reply 0 (.ok 2))]) = some s ∧ s.1.writes = [(true, 1, [1, 2])] ∧
      ∃ c, s.1.contents configPath = some c ∧ Whole configJob [9] c := by
  have hone : ∀ {p x}, configVolume.names p = some x → p = configPath ∧ 0 = x := by
    intro p x hp
    rw [configVolume, Option.ite_none_right_eq_some, Option.some.injEq] at hp
    exact hp
  have ha : Apart configJob configPath := by
    refine ⟨?_, ?_⟩
    · rintro (_ | _) tmp c h
      · cases h
      · cases h
        decide
    · rintro (_ | _) (_ | _) tmp c c' h h'
      · rfl
      · cases h
      · cases h'
      · rfl
  obtain ⟨s, hs⟩ : ∃ s, runFrom (Prog.sideStep answer)
      (configVolume, fun i => (configJob i).run configPath) configRun = some s := ⟨_, rfl⟩
  have hp : (s.2 true).pending = some (.io (.write (.fd 3) [1, 2])) := by
    cases hs
    show ((replace configTmp.val configPath.val [1, 2]).resume (reply 3 (.ok 0))).pending = _
    rw [replace, write_eq, io_writeWith rfl]
    exact (Prog.bind_pending (writeTo_pending 3 [1, 2] (by decide))).1
  obtain ⟨t, ht, hw⟩ : ∃ t, Prog.sideStep answer s (true, reply 0 (.ok 2)) = some t ∧
      t.1.writes = [(true, 1, [1, 2])] := by
    rw [Prog.sideStep, hp]
    cases hs
    exact ⟨_, rfl, rfl⟩
  have h := runFrom_concat_iff.mpr ⟨s, hs, ht⟩
  exact ⟨t, h, hw, (reads_whole ha rfl ⟨fun hp => by rw [← (hone hp).2]; decide,
    fun hp hq => (hone hp).1.trans (hone hq).1.symm⟩ (fun _ => rfl) h).1⟩

end Volume

end PsPayload.Fs
