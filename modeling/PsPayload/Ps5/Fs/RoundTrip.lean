import PsPayload.Ps5.Fs.Threads

/-!
# A file that is written and read back

`fs::write` and `fs::read` of one thread by itself. `read_write`: whatever there is
at first, and however the kernel cuts the calls, both end, and where no call fails
`fs::read` returns what `fs::write` has written. `within_write` and `within_read` say
what they come to otherwise, and `exists_read_write` that one free descriptor is enough
for both to succeed.
-/

namespace PsPayload.Fs

open Lib

namespace Volume

variable {k k' : Volume Unit} {path : CString}

/-! ## Reading -/

/-- The files and their names are as they were. -/
structure Same (k k' : Volume Unit) : Prop where
  names : k'.names = k.names
  files : k'.files = k.files
  fresh : k'.fresh = k.fresh
  failures : k.failures <+: k'.failures

theorem same_refl (k : Volume Unit) : Same k k := ⟨rfl, rfl, rfl, List.prefix_refl _⟩

theorem Same.contents (h : Same k k') : k'.contents = k.contents := by
  funext path
  rw [Volume.contents, Volume.contents, h.names, h.files]

theorem Same.distinct (h : Same k k') (hk : k.Distinct) : k'.Distinct :=
  hk.congr h.names h.fresh

theorem same_fail (k : Volume Unit) (e : Errno) : Same k (k.fail () e) :=
  ⟨rfl, rfl, rfl, failures_fail ..⟩

/-- A call that is refused changes nothing. -/
theorem same_refuse (k : Volume Unit) (why : Option Errno) (e : Errno) :
    Same k (k.refuse () why e) := by
  rcases refuse_cases k () why e with ⟨h, -⟩ | h
  · rw [h]
    exact same_refl k
  · rw [h]
    exact same_fail k e

theorem thread_same (k : Volume Unit) : Thread () k (Same k) Eq (fun _ _ => True) where
  refl _ := rfl
  trans _ _ _ := Eq.trans
  keeps _ he hd := he ▸ hd
  since hk := hk.failures
  failures _ he := he ▸ List.prefix_refl _
  still _ := trivial
  fail hk _ _ := ⟨⟨hk.names, hk.files, hk.fresh, hk.failures.trans (failures_fail ..)⟩, trivial⟩
  move hk _ _ := ⟨⟨hk.names, hk.files, hk.fresh, hk.failures⟩, trivial⟩
  close hk _ := ⟨⟨hk.names, hk.files, hk.fresh, hk.failures⟩, trivial⟩

theorem reader_same (k : Volume Unit) (x : Nat) :
    Reader () (Same k) Eq x (fun _ c => c = k.files x) (k.files x).length where
  grows _ _ he _ _ := he ▸ List.prefix_refl _
  stays _ _ he _ _ hc := he ▸ hc
  lasts _ _ hc := hc
  same _ _ hc := hc
  bounded hk _ _ := by rw [hk.files]

/-- What a function has come to that leaves the files as they are: it returns `r`, or
the error of a call that has failed. -/
def Got (k : Volume Unit) {α : Type} (r : Result α) (v : Volume Unit) (s : Result α) : Prop :=
  Same k v ∧ (s = r ∨ ∃ e, s = .error (.os e) ∧ FailedSince k () e v)

theorem within_read {x : Nat} (hn : k.names path = some x) :
    (io (read path.val)).Within (answer ()) (Got k (.ok (k.files x))) ((k.files x).length + 3) k := by
  rw [io_read]
  refine (under_open (thread_same k) readFrom (fun v hv => ⟨x, by rw [hv.names]; exact hn⟩)
    (fun c => rfl) (fun v y fd hv _ hy hd => ?_) (fun w e hw hf => ⟨hw, .inr ⟨e, rfl, hf⟩⟩)
    (same_refl k)).within fun w hw => ⟨hw, rfl⟩
  obtain rfl := Option.some.inj (hn.symm.trans (hv.names ▸ hy))
  have hsame : Same k (v.setDesc fd (some (handle () x Fd.O_RDONLY))) :=
    ⟨hv.names, hv.files, hv.fresh, hv.failures⟩
  exact ⟨⟨hsame, trivial⟩, under_readFrom (thread_same k) (reader_same k x)
    (fun w c hw hc => ⟨hw, .inl (by rw [hc])⟩) (fun w e hw hf => ⟨hw, .inr ⟨e, rfl, hf⟩⟩)
    hsame ⟨Function.update_self .., rfl⟩ rfl rfl rfl (congrFun hv.files x)⟩

/-! ## Writing -/

/-- All but file `y` is as it was in `k`, and that is part of a buffer. -/
structure Fills (k₀ k : Volume Unit) (y : Nat) (buf : Bytes) (k' : Volume Unit) : Prop where
  names : k'.names = k.names
  fresh : k'.fresh = k.fresh
  files : ∀ x, x ≠ y → k'.files x = k.files x
  part : k'.files y <+: buf
  failures : k₀.failures <+: k'.failures

theorem thread_fills (k₀ k : Volume Unit) (y : Nat) (buf : Bytes) :
    Thread () k₀ (Fills k₀ k y buf) Eq (fun _ _ => True) where
  refl _ := rfl
  trans _ _ _ := Eq.trans
  keeps _ he hd := he ▸ hd
  since hk := hk.failures
  failures _ he := he ▸ List.prefix_refl _
  still _ := trivial
  fail hk _ _ :=
    ⟨⟨hk.names, hk.fresh, hk.files, hk.part, hk.failures.trans (failures_fail ..)⟩, trivial⟩
  move hk _ _ := ⟨⟨hk.names, hk.fresh, hk.files, hk.part, hk.failures⟩, trivial⟩
  close hk _ := ⟨⟨hk.names, hk.fresh, hk.files, hk.part, hk.failures⟩, trivial⟩

theorem writer_fills {k₀ : Volume Unit} {y : Nat} (hy : k.names path = some y) (buf : Bytes) :
    Writer () (Fills k₀ k y buf) Eq (fun _ _ => True) (Filling path) buf where
  writable hD := hD.2.1
  stays _ he _ hD := he ▸ hD
  writes := by
    intro v fd f d data hv hd hD hpre
    obtain rfl : y = f.file := Option.some.inj (hy.symm.trans (hv.names ▸ hD.1))
    refine ⟨⟨⟨hv.names, hv.fresh, fun x hx => ?_, ?_, hv.failures⟩, trivial⟩, (hD.written data).2⟩
    · exact (Function.update_of_ne hx ..).trans (hv.files x hx)
    · rw [(hD.written data).1]
      exact hpre

/-- What `fs::write` has come to: `open` has failed, or the file of the path has the
buffer, or a part of it where another call has failed. -/
def Wrote (k : Volume Unit) (path : CString) (buf : Bytes) (v : Volume Unit) (r : Result Unit) :
    Prop :=
  Same k v ∧ (∃ e, r = .error (.os e) ∧ FailedSince k () e v) ∨
    ∃ flags fd, Fills k (k.openAt () path flags [] fd) (k.fileAt path) buf v ∧
      (r = .ok () ∧ v.files (k.fileAt path) = buf ∨
        ∃ e, r = .error (.os e) ∧ FailedSince k () e v)

theorem within_write (k : Volume Unit) (path : CString) (buf : Bytes) :
    (io (write path.val buf)).Within (answer ()) (Wrote k path buf) (buf.length + 2) k := by
  rw [write_eq, io_writeWith rfl]
  refine Prog.within_call (exists_open () k ..) fun r v hv => ?_
  rcases answer_open hv with ⟨hr, rfl⟩ | ⟨hr, -, hd, c, hc, rfl⟩
  · rw [if_pos hr, openError_of_opened (opened_create _), refuse_none]
    exact .inl ⟨same_fail k _, _, rfl, failedSince_fail (List.prefix_refl _) ..⟩
  · rw [opened_create] at hc
    obtain rfl := Option.some.inj hc
    rw [if_neg hr]
    obtain ⟨flags, hflags⟩ : ∃ flags, flags = Fd.OpenOptions.flags { Fd.OpenOptions.new with
      write := true, create := true, truncate := true } Fd.O_WRONLY := ⟨_, rfl⟩
    rw [← hflags]
    have hfile : (k.openAt () path flags [] r.ret).files (k.fileAt path) = [] :=
      Function.update_self ..
    have hfills : Fills k (k.openAt () path flags [] r.ret) (k.fileAt path) buf
        (k.openAt () path flags [] r.ret) :=
      ⟨rfl, rfl, fun _ _ => rfl, by rw [hfile]; exact List.nil_prefix, List.prefix_refl _⟩
    have h := under_writeTo (Q := Wrote k path buf) (thread_fills k _ _ buf)
      (writer_fills openAt_names_self buf) (fun v g u w hD hfiles hnames _ hu hw he => ?_)
      (fun w e hw hf => ?_) hfills ⟨Function.update_self .., rfl⟩
      ⟨openAt_names_self, by rw [hflags]; rfl, by rw [hflags]; rfl, rfl, hfile⟩
    · exact h.within fun w hw => ⟨hw, rfl⟩
    · subst he
      have hname : some (k.fileAt path) = some g.file := by
        rw [← hD.1, ← hnames, hu.names, openAt_names_self]
      refine .inr ⟨flags, r.ret, hu, .inl ⟨rfl, ?_⟩⟩
      rw [hfiles, Option.some.inj hname]
      exact hD.2.2.2.2
    · exact .inr ⟨flags, r.ret, hw, .inr ⟨e, rfl, hf⟩⟩

/-! ## The round trip -/

theorem not_failedSince {k v : Volume Unit} {e : Errno} (hv : v.failures = k.failures) :
    ¬ FailedSince k () e v := fun h => by
  have := h.lt
  rw [hv] at this
  omega

theorem Got.ok {v : Volume Unit} {c : Bytes} {r : Result Bytes} (h : Got k (.ok c) v r)
    (hv : v.failures = k.failures) : r = .ok c :=
  h.2.resolve_right fun ⟨_, _, hf⟩ => not_failedSince hv hf

theorem Wrote.file {v : Volume Unit} {buf : Bytes} (h : Wrote k path buf v (.ok ())) :
    ∃ x, v.names path = some x ∧ v.files x = buf := by
  rcases h with ⟨-, e, h, -⟩ | ⟨flags, fd, hfills, ⟨-, hfile⟩ | ⟨e, h, -⟩⟩
  · cases h
  · exact ⟨_, by rw [hfills.names]; exact openAt_names_self, hfile⟩
  · cases h

/-- `fs::write` and then `fs::read` of a path, whatever there is at first. Both end,
and as long as no call fails they succeed and what is read is what was written. -/
theorem read_write (path : CString) (contents : Bytes) (k : Volume Unit) :
    (io (write path.val contents)).Returns (answer ())
      (fun k' r => (k'.failures = k.failures → r = .ok ()) ∧
        (r = .ok () → (io (read path.val)).Returns (answer ())
          (fun k'' s => k''.failures = k'.failures → s = .ok contents) (contents.length + 3) k'))
      (contents.length + 2) k := by
  refine (Prog.within_post (fun k' r h => ⟨fun hk => ?_, fun hr => ?_⟩)
    (within_write k path contents)).returns
  · rcases h with ⟨-, e, -, hf⟩ | ⟨-, -, -, ⟨h, -⟩ | ⟨e, -, hf⟩⟩
    · exact absurd hf (not_failedSince hk)
    · exact h
    · exact absurd hf (not_failedSince hk)
  · subst hr
    obtain ⟨x, hn, rfl⟩ := h.file
    exact (Prog.within_post (fun k'' s h => h.ok) (within_read hn)).returns

/-! ## Without failures -/

/-- A call that does not fail. -/
def Calm (k : Volume Unit) (c : PathCall) (r : PathReply) (k' : Volume Unit) : Prop :=
  k.answer () c r = some k' ∧ k'.failures = k.failures

section Calm

variable {α : Type} {p : Task α} {a : α} {fd : Int32} {f : Handle Unit}

theorem ne_of_nonneg (h : 0 ≤ fd) : fd ≠ -1 := by
  rintro rfl
  exact absurd h (by decide)

theorem calm_open {flags : Int32} {mode : UInt32} {c : Bytes}
    (hc : opened flags (k.contents path) = some c) (hfd : 0 ≤ fd) (hd : k.descs fd = none) :
    Calm k (.io (.sys (.open path flags mode))) (reply fd (.ok 0)) (k.openAt () path flags c fd) := by
  refine ⟨?_, rfl⟩
  have hret : (reply fd (.ok 0)).ret = fd := rfl
  rw [answer, hret, if_neg (ne_of_nonneg hfd), hc, Option.bind_some,
    if_pos ⟨hfd, by rw [hd]; rfl⟩]

theorem calm_close (hd : k.descs fd = some f) :
    Calm k (.io (.sys (.close fd))) (reply 0 (.ok 0)) (k.setDesc fd none) := by
  refine ⟨?_, rfl⟩
  rw [answer, hd, Option.bind_some]
  rfl

/-- A `write` that takes everything. -/
theorem calm_write {buf : Bytes} (hd : k.descs fd = some f) (hw : f.writable = true)
    (hb : buf ≠ []) :
    Calm k (.io (.write (.fd fd) buf)) (reply 0 (.ok buf.length)) (k.written () fd f buf) := by
  have hlen : buf.length ≠ 0 := fun h => hb (List.length_eq_zero_iff.mp h)
  refine ⟨?_, rfl⟩
  have hsize : (reply 0 (.ok buf.length)).size = .ok buf.length := rfl
  rw [answer, hd, Option.bind_some, hsize]
  dsimp only
  rw [if_pos ⟨hw, Nat.le_refl _, id⟩, if_neg hlen, List.take_length]

/-- What a `read` returns that gets everything. -/
def full (data : Bytes) (count : Nat) : PathReply :=
  { reply 0 (.ok data.length) with chunk := data ++ List.replicate (count - data.length) 0 }

theorem calm_read (count : Nat) (hd : k.descs fd = some f) (hr : f.readable = true) :
    Calm k (.io (.read (.fd fd) count)) (full (k.available f count) count)
      (k.setDesc fd (some { f with offset := f.offset + (k.available f count).length })) := by
  have hlen : (k.available f count).length ≤ count := List.length_take_le ..
  refine ⟨?_, rfl⟩
  have hsize : (full (k.available f count) count).size = .ok (k.available f count).length := rfl
  have hchunk : (full (k.available f count) count).chunk =
      k.available f count ++ List.replicate (count - (k.available f count).length) 0 := rfl
  have hcount : (full (k.available f count) count).chunk.length = count := by
    rw [hchunk, List.length_append, List.length_replicate]
    omega
  have htake : (full (k.available f count) count).chunk.take (k.available f count).length =
      (k.available f count).take (k.available f count).length := by
    rw [hchunk, List.take_left, List.take_length]
  rw [answer, hd, Option.bind_some, hsize]
  dsimp only
  rw [if_pos ⟨hr, ⟨Nat.le_refl _, id⟩, hcount, htake⟩]

theorem failures_of_runs {v : Volume Unit} (h : p.Runs Calm k v a) : v.failures = k.failures := by
  induction h with
  | done a k => rfl
  | call _ hc _ ih => exact ih.trans hc.2

/-- `close` and then the result. -/
theorem runs_close (hd : k.descs fd = some f) :
    (Prog.call (.io (.sys (.close fd))) fun _ => .done a : Task α).Runs Calm k
      (k.setDesc fd none) a :=
  .call rfl (calm_close hd) (.done a _)

theorem runs_writeTo (hd : k.descs fd = some f) (hw : f.writable = true) (buf : Bytes) :
    ∃ v, (writeTo fd buf).Runs Calm k v (.ok ()) ∧ v.descs fd = none := by
  by_cases hb : buf = []
  · rw [writeTo, hb, writeAll_nil]
    exact ⟨_, runs_close hd, Function.update_self ..⟩
  · refine ⟨(k.written () fd f buf).setDesc fd none, ?_, Function.update_self ..⟩
    have hbody : File.writeAllBody buf (.ok buf.length) = .inr [] := by
      rw [← List.drop_length (l := buf)]
      exact if_neg fun h => hb (List.length_eq_zero_iff.mp h)
    rw [writeTo, io_writeAll _ hb]
    refine .call rfl (calm_write hd hw hb) ?_
    have hsize : (reply 0 (.ok buf.length)).size = .ok buf.length := rfl
    rw [Prog.bind, Prog.resume, hsize, hbody, Sum.elim_inr, writeAll_nil]
    exact runs_close (Function.update_self ..)

/-- The loop of `read_to_end`, with whatever comes after it. -/
def readLoop (fd : Int32) (exit : Bytes → PathReply → Task α) (out : Bytes) : Task α :=
  .loop (.io (.read (.fd fd) 8192)) (fun y r => readTurn y r.toReply) exit out

/-- At the end of the file. -/
theorem exists_runs_exit {exit : Bytes → PathReply → Task α}
    (hexit : ∀ {v g}, v.descs fd = some g → ∀ out r, ∃ u a, (exit out r).Runs Calm v u a)
    (hd : k.descs fd = some f) (hr : f.readable = true) (hend : k.available f 8192 = [])
    (out : Bytes) : ∃ u a, (readLoop fd exit out).Runs Calm k u a := by
  have hstep := calm_read 8192 hd hr
  rw [hend] at hstep
  obtain ⟨u, a, h⟩ := hexit (v := k.setDesc fd _) (Function.update_self ..) out (full [] 8192)
  exact ⟨u, a, .call rfl hstep h⟩

theorem exists_runs_loop {exit : Bytes → PathReply → Task α}
    (hexit : ∀ {v g}, v.descs fd = some g → ∀ out r, ∃ u a, (exit out r).Runs Calm v u a) (n : Nat)
    (hd : k.descs fd = some f) (hr : f.readable = true)
    (hn : (k.files f.file).length - f.offset ≤ n) (out : Bytes) :
    ∃ u a, (readLoop fd exit out).Runs Calm k u a := by
  induction n generalizing k f out with
  | zero =>
    refine exists_runs_exit hexit hd hr ?_ out
    rw [available, List.drop_eq_nil_of_le (by omega), List.take_nil]
  | succ n ih =>
    obtain ⟨data, hdata⟩ : ∃ data, data = k.available f 8192 := ⟨_, rfl⟩
    by_cases hz : data.length = 0
    · exact exists_runs_exit hexit hd hr (hdata ▸ List.length_eq_zero_iff.mp hz) out
    have hstep := calm_read 8192 hd hr
    rw [← hdata] at hstep
    have hturn : readTurn out (full data 8192).toReply =
        some (out ++ (full data 8192).chunk.take data.length) := if_neg hz
    obtain ⟨u, a, h⟩ := ih (k := k.setDesc fd (some { f with offset := f.offset + data.length }))
      (f := { f with offset := f.offset + data.length }) (Function.update_self ..) hr
      (by show (k.files f.file).length - (f.offset + data.length) ≤ n; omega)
      (out ++ (full data 8192).chunk.take data.length)
    refine ⟨u, a, .call rfl hstep ?_⟩
    rw [readLoop, Prog.resume, hturn, Option.elim_some]
    exact h

theorem exists_runs_readFrom (hd : k.descs fd = some f) (hr : f.readable = true) :
    ∃ u r, (readFrom fd).Runs Calm k u r := by
  refine exists_runs_loop (fun {v g} hg out r => ?_) _ hd hr (Nat.le_refl _) []
  cases hs : r.size with
  | error e =>
    simp only [hs]
    exact ⟨_, _, runs_close hg⟩
  | ok n =>
    simp only [hs]
    exact ⟨_, _, runs_close hg⟩

end Calm

/-- One free descriptor is enough for a run without failures. -/
theorem exists_read_write (path : CString) (contents : Bytes) {k : Volume Unit} {fd : Int32}
    (hfd : 0 ≤ fd) (hd : k.descs fd = none) :
    ∃ v u, (io (write path.val contents)).Runs Calm k v (.ok ()) ∧
      (io (read path.val)).Runs Calm v u (.ok contents) := by
  have hret : (reply fd (.ok 0)).ret ≠ -1 := ne_of_nonneg hfd
  obtain ⟨v, hwrite, hdv⟩ : ∃ v, (io (write path.val contents)).Runs Calm k v (.ok ()) ∧
      v.descs fd = none := by
    obtain ⟨v, h, hdv⟩ := runs_writeTo (k := k.openAt () path _ [] fd) (Function.update_self ..)
      (f := handle () (k.fileAt path) (Fd.OpenOptions.flags { Fd.OpenOptions.new with
        write := true, create := true, truncate := true } Fd.O_WRONLY)) rfl contents
    rw [write_eq, io_writeWith rfl]
    refine ⟨v, .call rfl (calm_open (opened_create _) hfd hd) ?_, hdv⟩
    rw [Prog.resume, if_neg hret]
    exact h
  obtain ⟨x, hn, rfl⟩ :=
    (hwrite.within (fun _ _ _ _ h => h.1) (within_write k path contents)).file
  have hread : ∃ u r, (io (read path.val)).Runs Calm v u r := by
    have hc : opened Fd.O_RDONLY (v.contents path) = some (v.files x) := by
      rw [Volume.contents, hn]
      rfl
    have hopen : (v.openAt () path Fd.O_RDONLY (v.files x) fd).descs fd =
        some (handle () (v.fileAt path) Fd.O_RDONLY) := Function.update_self ..
    obtain ⟨u, r, h⟩ := exists_runs_readFrom hopen rfl
    rw [io_read]
    refine ⟨u, r, .call rfl (calm_open hc hfd hdv) ?_⟩
    rw [Prog.resume, if_neg hret]
    exact h
  obtain ⟨u, r, hread⟩ := hread
  have hgot := hread.within (fun _ _ _ _ h => h.1) (within_read hn)
  rw [hgot.ok (failures_of_runs hread)] at hread
  exact ⟨v, u, hwrite, hread⟩

end Volume

end PsPayload.Fs
