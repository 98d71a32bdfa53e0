import PsPayload.Ps5.Fs.Volume

/-!
# Whole files beside other threads

`write_all` and `fs::read` of a thread whose calls come between those of other
threads. What the others may do is a parameter, with what it has to leave alone
(`Thread`): the descriptors of the thread, and of the files that it has open as
much as `P` says. An error is always that of a call of the thread itself
(`FailedSince`).
-/

namespace PsPayload.Fs

open Lib

theorem io_open {o : Fd.OpenOptions} {access : Int32} (ha : o.accessFlags = .ok access)
    (path : CString) :
    io (sys (o.open path.val)) =
      .call (.io (.sys (.open path (o.flags access) Fd.DEFAULT_CREATE_MODE))) fun r =>
        .done ((cvtI32 r.errno r.ret).map .file) := by
  rw [sys_open ha]
  rfl

theorem io_writeAll (d : Fd.Desc) {buf : Bytes} (hb : buf ≠ []) :
    io (writeAll d buf) = .call (.io (.write d buf)) fun r =>
      (File.writeAllBody buf r.size).elim .done fun rest => io (writeAll d rest) := by
  rw [writeAll_of_ne_nil d hb]
  refine congrArg (Prog.call _) (funext fun r => ?_)
  dsimp only
  cases File.writeAllBody buf r.size with
  | inl r => rfl
  | inr rest => rfl

/-- `fs::read` after `open`. -/
def readFrom (fd : Int32) : Task (Result Bytes) :=
  (io (readToEnd (.fd fd) [])).bind fun p =>
  .call (.io (.sys (.close fd))) fun _ => .done (p.1.map fun _ => p.2)

theorem io_read (path : CString) :
    io (read path.val) =
      .call (.io (.sys (.open path Fd.O_RDONLY Fd.DEFAULT_CREATE_MODE))) fun r =>
        if r.ret = -1 then .done (.error (.os r.errno)) else readFrom r.ret := by
  rw [read, io, Prog.relabel_bind, ← io, Fd.File.open, io_open rfl]
  refine congrArg (Prog.call _) (funext fun r => ?_)
  by_cases hr : r.ret = -1
  · simp only [cvtI32, if_pos hr]
    rfl
  · simp only [cvtI32, if_neg hr]
    exact Prog.relabel_bind _ _

/-- A file that is opened with these options, and then `write_all`. -/
def writeWith (o : Fd.OpenOptions) (path : String) (contents : Bytes) : Routine (Result Unit) :=
  (sys (o.open path)).bind fun
    | .error e => .done (.error e)
    | .ok file => (writeAll file.desc contents).bind fun r => sys (file.drop (.done r))

/-- `fs::write` is `File::create` and then `write_all`. -/
theorem write_eq (path : String) (contents : Bytes) :
    write path contents = writeWith
      { Fd.OpenOptions.new with write := true, create := true, truncate := true } path contents :=
  rfl

/-- `writeWith` after `open`. -/
def writeTo (fd : Int32) (contents : Bytes) : Task (Result Unit) :=
  (io (writeAll (.fd fd) contents)).bind fun r =>
  .call (.io (.sys (.close fd))) fun _ => .done r

theorem writeTo_pending (fd : Int32) (contents : Bytes) (hc : contents ≠ []) :
    (writeTo fd contents).pending = some (.io (.write (.fd fd) contents)) := by
  rw [writeTo, io_writeAll _ hc]
  rfl

theorem io_writeWith {o : Fd.OpenOptions} {access : Int32} (ha : o.accessFlags = .ok access)
    (path : CString) (contents : Bytes) :
    io (writeWith o path.val contents) =
      .call (.io (.sys (.open path (o.flags access) Fd.DEFAULT_CREATE_MODE))) fun r =>
        if r.ret = -1 then .done (.error (.os r.errno)) else writeTo r.ret contents := by
  rw [writeWith, io, Prog.relabel_bind, ← io, io_open ha]
  refine congrArg (Prog.call _) (funext fun r => ?_)
  by_cases hr : r.ret = -1
  · simp only [cvtI32, if_pos hr]
    rfl
  · simp only [cvtI32, if_neg hr]
    exact Prog.relabel_bind _ _

namespace Volume

variable {ι : Type} {i : ι} {I : Volume ι → Prop} {E F : Volume ι → Volume ι → Prop}
  {k₀ k k' : Volume ι} {fd : Int32} {f : Handle ι} {e : Errno}

/-- A call of thread `i` has failed after `k₀`, with the error `e`. -/
def FailedSince (k₀ : Volume ι) (i : ι) (e : Errno) (k : Volume ι) : Prop :=
  ∃ new, k.failures = k₀.failures ++ new ∧ (i, e) ∈ new

theorem failedSince_fail (h : k₀.failures <+: k.failures) (i : ι) (e : Errno) :
    FailedSince k₀ i e (k.fail i e) := by
  obtain ⟨new, hnew⟩ := h
  refine ⟨new ++ [(i, e)], ?_, List.mem_append_right _ (List.mem_singleton_self _)⟩
  rw [fail, ← hnew, List.append_assoc]

theorem FailedSince.mono (h : FailedSince k₀ i e k) (hk : k.failures <+: k'.failures) :
    FailedSince k₀ i e k' := by
  obtain ⟨new, hnew, hm⟩ := h
  obtain ⟨more, hmore⟩ := hk
  exact ⟨new ++ more, by rw [← hmore, hnew, List.append_assoc], List.mem_append_left _ hm⟩

theorem FailedSince.lt (h : FailedSince k₀ i e k) : k₀.failures.length < k.failures.length := by
  obtain ⟨new, hnew, hm⟩ := h
  rw [hnew, List.length_append]
  exact Nat.lt_add_of_pos_right (List.length_pos_of_mem hm)

/-- A file that thread `i` has open. -/
def Has (i : ι) (k : Volume ι) (fd : Int32) (f : Handle ι) : Prop :=
  k.descs fd = some f ∧ f.owner = i

/-- What thread `i`, which has begun after `k₀`, relies on and guarantees, whatever it
does. -/
structure Thread (i : ι) (k₀ : Volume ι) (I : Volume ι → Prop) (E F : Volume ι → Volume ι → Prop) :
    Prop where
  refl : ∀ k, E k k
  trans : ∀ k k' k'', E k k' → E k' k'' → E k k''
  keeps : ∀ {k k' fd f}, I k → E k k' → k.Has i fd f → k'.Has i fd f
  since : ∀ {k}, I k → k₀.failures <+: k.failures
  failures : ∀ {k k'}, I k → E k k' → k.failures <+: k'.failures
  still : ∀ k, F k k
  fail : ∀ {k k'}, I k' → F k k' → ∀ e, I (k'.fail i e) ∧ F k (k'.fail i e)
  move : ∀ {k fd f}, I k → k.Has i fd f → ∀ n,
    I (k.setDesc fd (some { f with offset := n })) ∧ F k (k.setDesc fd (some { f with offset := n }))
  close : ∀ {k fd f}, I k → k.Has i fd f → I (k.setDesc fd none) ∧ F k (k.setDesc fd none)

theorem Thread.fails (ht : Thread i k₀ I E F) (hk : I k) (e : Errno) :
    I (k.fail i e) ∧ F k (k.fail i e) :=
  ht.fail hk (ht.still k) e

theorem Thread.failed (ht : Thread i k₀ I E F) (hk : I k) (e : Errno) :
    FailedSince k₀ i e (k.fail i e) :=
  failedSince_fail (ht.since hk) i e

theorem has_setDesc (h : k.Has i fd f) (n : Nat) :
    (k.setDesc fd (some { f with offset := n })).Has i fd { f with offset := n } :=
  ⟨Function.update_self .., h.2⟩

/-- A thread that changes a descriptor of its own, or a free one, leaves those of
the others alone. -/
theorem others_setDesc (hfd : ∀ f, k.descs fd = some f → f.owner = i) (g : Option (Handle ι))
    {fd' : Int32} {f' : Handle ι} (h : k.descs fd' = some f') (hn : f'.owner ≠ i) :
    (k.setDesc fd g).descs fd' = some f' := by
  by_cases hne : fd' = fd
  · subst hne
    exact absurd (hfd f' h) hn
  · exact (Function.update_of_ne hne ..).trans h

theorem owner_of_has (h : k.Has i fd f) : ∀ g, k.descs fd = some g → g.owner = i := by
  intro g hg
  obtain rfl := Option.some.inj (h.1.symm.trans hg)
  exact h.2

theorem owner_of_none (h : k.descs fd = none) : ∀ g, k.descs fd = some g → g.owner = i := by
  intro g hg
  rw [h] at hg
  cases hg

/-- What a thread relies on for the file `x` that it reads. `P k c` says that `c` may
be what it has read. -/
structure Reader (i : ι) (I : Volume ι → Prop) (E : Volume ι → Volume ι → Prop) (x : Nat)
    (P : Volume ι → Bytes → Prop) (bound : Nat) : Prop where
  grows : ∀ {k k' fd f}, I k → I k' → E k k' → k.Has i fd f → f.file = x →
    k.files x <+: k'.files x
  stays : ∀ {k k' fd f}, I k → I k' → E k k' → k.Has i fd f → f.file = x →
    P k (k.files x) → P k' (k'.files x)
  lasts : ∀ {k k' c}, I k → E k k' → P k c → P k' c
  same : ∀ {k k' c}, k'.files = k.files → k'.writes = k.writes → P k c → P k' c
  bounded : ∀ {k fd f}, I k → k.Has i fd f → f.file = x → (k.files x).length ≤ bound

/-- The loop reads a file from its beginning to the end that it has then. -/
theorem under_readToEnd (ht : Thread i k₀ I E F) {x : Nat} {P : Volume ι → Bytes → Prop}
    {bound : Nat} (hp : Reader i I E x P bound) (hk : I k) (hd : k.Has i fd f) (hx : f.file = x)
    (hr : f.readable = true) (ho : f.offset = 0) (hP : P k (k.files x)) :
    (io (readToEnd (.fd fd) [])).Under (answer i) (Prog.Keeping I E) (Prog.Keeping I F)
      (fun v p => I v ∧ ∃ g, v.Has i fd g ∧ g.file = x ∧
        ((∃ c, p = (.ok c.length, c) ∧ P v c) ∨
          ∃ e, p.1 = .error (.os e) ∧ FailedSince k₀ i e v))
      (bound + 1) k := by
  -- what has been read is the file up to the offset
  refine ⟨fun n v out => I v ∧ ∃ g, v.Has i fd g ∧ g.file = x ∧ g.readable = true ∧
    out = (v.files x).take g.offset ∧ g.offset ≤ (v.files x).length ∧
    bound + 1 ≤ n + g.offset ∧ P v (v.files x), ?_, ?_, ?_⟩
  · exact ⟨hk, f, hd, hx, hr, by rw [ho]; rfl, by omega, by omega, hP⟩
  · rintro n v u out ⟨hv, g, hg, hx, hgr, rfl, hle, hn, hP⟩ hu
    obtain ⟨hu, he⟩ := hu hv
    obtain ⟨rest, hrest⟩ := hp.grows hv hu he hg hx
    refine ⟨hu, g, ht.keeps hv he hg, hx, hgr, ?_, ?_, hn, hp.stays hv hu he hg hx hP⟩
    · rw [← hrest, List.take_append_of_le_length hle]
    · rw [← hrest, List.length_append]
      omega
  · rintro n v out ⟨hv, g, hg, hx, hgr, rfl, hle, hn, hP⟩
    have hbound := hp.bounded hv hg hx
    obtain ⟨m, rfl⟩ : ∃ m, n = m + 1 := ⟨n - 1, by omega⟩
    refine ⟨m, rfl, exists_read hg.1, fun r u hu => ?_⟩
    rcases answer_readable hg.1 hgr hu with ⟨e, hs, rfl⟩ | ⟨size, hs, htr, hc, rfl⟩
    · refine ⟨fun _ => ht.fails hv e, fun z hz => ?_, fun _ => ?_⟩
      · simp [readTurn, hs] at hz
      · simp only [hs]
        intro u hu
        obtain ⟨hfail, -⟩ := ht.fails hv e
        obtain ⟨hu, he⟩ := hu hfail
        exact ⟨hu, g, ht.keeps hfail he hg, hx,
          .inr ⟨e, rfl, (ht.failed hv e).mono (ht.failures hfail he)⟩⟩
    obtain ⟨hu, hF⟩ := ht.move hv hg (g.offset + size)
    have hgu := has_setDesc hg (g.offset + size)
    have hPu : P (v.setDesc fd (some { g with offset := g.offset + size })) (v.files x) :=
      hp.same (k := v) rfl rfl hP
    have hlen : (v.available g 8192).length = min 8192 ((v.files x).length - g.offset) := by
      rw [available, List.length_take, List.length_drop, hx]
    refine ⟨fun _ => ⟨hu, hF⟩, fun z hz => ?_, fun hz => ?_⟩
    · -- some bytes more
      have hsize : size ≠ 0 := by
        rintro rfl
        simp [readTurn, hs] at hz
      have hle := htr.1
      refine ⟨hu, _, hgu, hx, hgr, ?_, ?_, ?_, hPu⟩
      · simp only [readTurn, hs, if_neg hsize, Option.some.injEq] at hz
        rw [← hz, hc, available, hx, List.take_take, Nat.min_eq_left (by omega)]
        exact List.take_add.symm
      · show g.offset + size ≤ (v.files x).length
        omega
      · show bound + 1 ≤ m + (g.offset + size)
        omega
    · -- the end of the file
      obtain rfl : size = 0 := by
        by_contra hsize
        simp [readTurn, hs, hsize] at hz
      have hend := htr.2 rfl
      have hwhole : (v.files x).take g.offset = v.files x :=
        List.take_of_length_le (by omega)
      simp only [hs, hwhole]
      intro w hw
      obtain ⟨hw, he⟩ := hw hu
      exact ⟨hw, _, ht.keeps hu he hgu, hx, .inl ⟨_, rfl, hp.lasts hu he hPu⟩⟩

/-- What a thread relies on for a file that it writes. `D k f d` says that `d` has
been written so far. -/
structure Writer (i : ι) (I : Volume ι → Prop) (E F : Volume ι → Volume ι → Prop)
    (D : Volume ι → Handle ι → Bytes → Prop) (buf : Bytes) : Prop where
  writable : ∀ {k f d}, D k f d → f.writable = true
  stays : ∀ {k k' fd f d}, I k → E k k' → k.Has i fd f → D k f d → D k' f d
  writes : ∀ {k fd f d data}, I k → k.Has i fd f → D k f d → d ++ data <+: buf →
    (I (k.written i fd f data) ∧ F k (k.written i fd f data)) ∧
      D (k.written i fd f data) { f with offset := k.writeOffset f + data.length } (d ++ data)

/-- The loop writes what there is left of the buffer. -/
theorem under_writeAll (ht : Thread i k₀ I E F) {D : Volume ι → Handle ι → Bytes → Prop}
    {buf d : Bytes} (hw : Writer i I E F D buf) (hk : I k) (hd : k.Has i fd f) (hD : D k f d)
    (rest : Bytes) (hbuf : d ++ rest = buf) :
    (io (writeAll (.fd fd) rest)).Under (answer i) (Prog.Keeping I E) (Prog.Keeping I F)
      (fun v r => I v ∧ ∃ g, v.Has i fd g ∧
        (r = .ok () ∧ D v g buf ∨ ∃ e, r = .error (.os e) ∧ FailedSince k₀ i e v))
      rest.length k := by
  induction hl : rest.length using Nat.strong_induction_on generalizing k f d rest with
  | _ len ih =>
  by_cases hr : rest = []
  · subst hr
    rw [List.append_nil] at hbuf
    subst hbuf
    rw [writeAll_nil]
    intro v hv
    obtain ⟨hv, he⟩ := hv hk
    exact ⟨hv, f, ht.keeps hk he hd, .inl ⟨rfl, hw.stays hk he hd hD⟩⟩
  have hpos := List.length_pos_iff.mpr hr
  obtain ⟨m, rfl⟩ : ∃ m, len = m + 1 := ⟨len - 1, by omega⟩
  rw [io_writeAll _ hr]
  refine Prog.under_call fun v hv => ?_
  obtain ⟨hv, he⟩ := hv hk
  have hdv := ht.keeps hk he hd
  have hDv := hw.stays hk he hd hD
  refine ⟨exists_write hdv.1, fun r u hu => ?_⟩
  rcases answer_writable hdv.1 (hw.writable hDv) hu with ⟨e, hs, rfl⟩ | ⟨size, hs, htr, rfl⟩
  · refine ⟨fun _ => ht.fails hv e, ?_⟩
    rw [hs]
    intro u hu
    obtain ⟨hfail, -⟩ := ht.fails hv e
    obtain ⟨hu, he⟩ := hu hfail
    exact ⟨hu, f, ht.keeps hfail he hdv,
      .inr ⟨e, rfl, (ht.failed hv e).mono (ht.failures hfail he)⟩⟩
  -- some bytes are written, and the loop goes on with the rest of them
  have hsize : size ≠ 0 := fun hz => by have := htr.2 hz; omega
  rw [if_neg hsize]
  have hbody : File.writeAllBody rest r.size = .inr (rest.drop size) := by
    rw [hs]
    exact if_neg hsize
  have hwhole : d ++ rest.take size ++ rest.drop size = buf := by
    rw [List.append_assoc, List.take_append_drop, hbuf]
  have hdrop : (rest.drop size).length < m + 1 := by
    rw [List.length_drop]
    omega
  obtain ⟨⟨hu, hF⟩, hDu⟩ := hw.writes hv hdv hDv ⟨_, hwhole⟩
  refine ⟨fun _ => ⟨hu, hF⟩, ?_⟩
  rw [hbody, Sum.elim_inr]
  exact Prog.under_le (Nat.le_of_lt_succ hdrop)
    (ih _ hdrop hu ⟨Function.update_self .., hdv.2⟩ hDu _ hwhole rfl)

/-- What has been written to the file of a path, through a descriptor that is at
the end of it. -/
def Filling (path : CString) (k : Volume ι) (f : Handle ι) (d : Bytes) : Prop :=
  k.names path = some f.file ∧ f.writable = true ∧ f.append = false ∧ f.offset = d.length ∧
    k.files f.file = d

theorem Filling.written {path : CString} {d : Bytes} (h : Filling path k f d) (data : Bytes) :
    (k.written i fd f data).files f.file = d ++ data ∧
      Filling path (k.written i fd f data) { f with offset := k.writeOffset f + data.length }
        (d ++ data) := by
  obtain ⟨hn, hw, ha, ho, rfl⟩ := h
  have hoff : k.writeOffset f = (k.files f.file).length := by
    rw [writeOffset, ha, if_neg Bool.false_ne_true, ho]
  have hfile : (k.written i fd f data).files f.file = k.files f.file ++ data := by
    rw [written_files, Function.update_self, hoff, splice_end]
  exact ⟨hfile, hn, hw, ha, by rw [hoff, List.length_append], hfile⟩

/-! ## From `open` to `close` -/

theorem openAt_same {path : CString} {x : Nat} (hn : k.names path = some x) (flags : Int32) :
    k.openAt i path flags (k.files x) fd = k.setDesc fd (some (handle i x flags)) := by
  rw [openAt_of_name hn, Function.update_eq_self]
  rfl

/-- A file that is always there, and that `open` leaves as it is. -/
theorem under_open (ht : Thread i k₀ I E F) {α : Type} {path : CString} {flags : Int32}
    {mode : UInt32} (cont : Int32 → Task (Result α)) {Q : Volume ι → Result α → Prop} {n : Nat}
    (hname : ∀ v, I v → ∃ x, v.names path = some x)
    (hflags : ∀ c, opened flags (some c) = some c)
    (hopen : ∀ v x fd, I v → E k v → v.names path = some x → v.descs fd = none →
      (I (v.setDesc fd (some (handle i x flags))) ∧
        F v (v.setDesc fd (some (handle i x flags)))) ∧
      (cont fd).Under (answer i) (Prog.Keeping I E) (Prog.Keeping I F) Q n
        (v.setDesc fd (some (handle i x flags))))
    (herr : ∀ w e, I w → FailedSince k₀ i e w → Q w (.error (.os e))) (hk : I k) :
    (Prog.call (.io (.sys (.open path flags mode))) fun r =>
      if r.ret = -1 then .done (.error (.os r.errno)) else cont r.ret).Under (answer i)
      (Prog.Keeping I E) (Prog.Keeping I F) Q (n + 1) k := by
  refine Prog.under_call fun v hv => ⟨exists_open i v path flags mode, fun r u hu => ?_⟩
  obtain ⟨hv, he⟩ := hv hk
  obtain ⟨x, hx⟩ := hname v hv
  have hcontents : v.contents path = some (v.files x) := by rw [contents, hx, Option.map_some]
  rcases answer_open hu with ⟨hr, rfl⟩ | ⟨hr, -, hd, c, hc, rfl⟩
  · have hnot : openError flags (v.contents path) = none := by
      rw [hcontents]
      exact openError_of_opened (hflags _)
    rw [hnot, refuse_none, if_pos hr]
    refine ⟨fun _ => ht.fails hv _, fun w hw => ?_⟩
    obtain ⟨hfail, -⟩ := ht.fails hv r.errno
    obtain ⟨hw, hew⟩ := hw hfail
    exact herr w _ hw ((ht.failed hv _).mono (ht.failures hfail hew))
  · rw [hcontents, hflags] at hc
    obtain rfl := Option.some.inj hc
    rw [openAt_same hx, if_neg hr]
    obtain ⟨hF, hcont⟩ := hopen v x r.ret hv he hx hd
    exact ⟨fun _ => hF, hcont⟩

/-- A file of the thread is closed. `close` may fail, and the files are what they were. -/
theorem under_close (ht : Thread i k₀ I E F) {α : Type} {a : α} {Q : Volume ι → α → Prop}
    (hd : k.Has i fd f) (hk : I k)
    (h : ∀ u w w', u.files = w.files → u.names = w.names → u.writes = w.writes →
      w.failures <+: u.failures → I w → I u → I w' → E k w → E u w' → Q w' a) :
    (Prog.call (.io (.sys (.close fd))) fun _ => .done a : Task α).Under (answer i)
      (Prog.Keeping I E) (Prog.Keeping I F) Q 1 k := by
  refine Prog.under_call fun w hw => ?_
  obtain ⟨hw, he⟩ := hw hk
  have hdw := ht.keeps hk he hd
  refine ⟨exists_close hdw.1, fun r u hu => ?_⟩
  obtain ⟨hF, hfiles, hnames, hwrites, hfailures⟩ : (I u ∧ F w u) ∧ u.files = w.files ∧
      u.names = w.names ∧ u.writes = w.writes ∧ w.failures <+: u.failures := by
    have hclose := ht.close hw hdw
    rcases answer_close hu with rfl | rfl | rfl
    · exact ⟨hclose, rfl, rfl, rfl, List.prefix_refl _⟩
    · exact ⟨ht.fails hw _, rfl, rfl, rfl, failures_fail ..⟩
    · exact ⟨ht.fail hclose.1 hclose.2 _, rfl, rfl, rfl, failures_fail ..⟩
  refine ⟨fun _ => hF, fun w' hw' => ?_⟩
  obtain ⟨hw', he'⟩ := hw' hF.1
  exact h u w w' hfiles hnames hwrites hfailures hw hF.1 hw' he he'

theorem under_readFrom (ht : Thread i k₀ I E F) {x : Nat} {P : Volume ι → Bytes → Prop}
    {bound : Nat} (hp : Reader i I E x P bound) {Q : Volume ι → Result Bytes → Prop}
    (hok : ∀ w c, I w → P w c → Q w (.ok c))
    (herr : ∀ w e, I w → FailedSince k₀ i e w → Q w (.error (.os e)))
    (hk : I k) (hd : k.Has i fd f) (hx : f.file = x) (hr : f.readable = true) (ho : f.offset = 0)
    (hP : P k (k.files x)) :
    (readFrom fd).Under (answer i) (Prog.Keeping I E) (Prog.Keeping I F) Q (bound + 2) k := by
  refine Prog.under_bind (m := 1) (fun w hw => ⟨hw, ht.refl w⟩)
    (Prog.under_post (fun v p h => ?_) (under_readToEnd ht hp hk hd hx hr ho hP))
  obtain ⟨hv, g, hg, -, h⟩ := h
  refine under_close ht hg hv fun u w w' hfiles _ hwrites hfailures hw hu hw' he he' => ?_
  rcases h with ⟨c, rfl, hc⟩ | ⟨e, he1, hf⟩
  · exact hok w' c hw' (hp.lasts hu he' (hp.same hfiles hwrites (hp.lasts hv he hc)))
  · rw [he1]
    exact herr w' e hw' (((hf.mono (ht.failures hv he)).mono hfailures).mono (ht.failures hu he'))

theorem under_writeTo (ht : Thread i k₀ I E F) {D : Volume ι → Handle ι → Bytes → Prop}
    {buf : Bytes} (hw : Writer i I E F D buf) {Q : Volume ι → Result Unit → Prop}
    (hok : ∀ v g u w, D v g buf → u.files = v.files → u.names = v.names → u.writes = v.writes →
      I u → I w → E u w → Q w (.ok ()))
    (herr : ∀ w e, I w → FailedSince k₀ i e w → Q w (.error (.os e)))
    (hk : I k) (hd : k.Has i fd f) (hD : D k f []) :
    (writeTo fd buf).Under (answer i) (Prog.Keeping I E) (Prog.Keeping I F) Q (buf.length + 1) k := by
  refine Prog.under_bind (m := 1) (fun w hw => ⟨hw, ht.refl w⟩)
    (Prog.under_post (fun v r h => ?_) (under_writeAll ht hw hk hd hD buf (List.nil_append _)))
  obtain ⟨hv, g, hg, h⟩ := h
  refine under_close ht hg hv fun u w w' hfiles hnames hwrites hfailures hIw hu hw' he he' => ?_
  rcases h with ⟨rfl, hDv⟩ | ⟨e, rfl, hf⟩
  · exact hok w g u w' (hw.stays hv he hg hDv) hfiles hnames hwrites hu hw' he'
  · exact herr w' e hw' (((hf.mono (ht.failures hv he)).mono hfailures).mono (ht.failures hu he'))

end Volume

end PsPayload.Fs
