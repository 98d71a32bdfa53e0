import PsPayload.Core.Http.Request

/-!
# What `readRequest` makes of a delivered stream

A stream of bytes is delivered in reads (`Segmentation`). The first loop ends
in one of three ways, decided by the lengths of the buffer at its head
(`readEnds`): it finds the blank line (`readHead_found`), it meets the limit
on a buffer without one (`readHead_limit`), or it takes all of the stream
(`readHead_pass`). The second loop reads the body whatever the cuts are
(`readBody_ok`). Together, `readRequest_found` gives the answer to a head that
is found as a function of the stream alone (`answer`).
-/

namespace PsPayload.Http

open Lib

/-- A `recv` at the end of the stream. -/
def eof : Recv := .ok []

/-- A stream cut into the reads that deliver it. -/
structure Segmentation (stream : Bytes) where
  reads : List Bytes
  ne_nil : ∀ r ∈ reads, r ≠ []
  length_le : ∀ r ∈ reads, r.length ≤ READ_CHUNK
  flatten : reads.flatten = stream

/-- The lengths of a buffer of `n` bytes before each of the reads and after
the last. -/
def readEnds : Nat → List Bytes → List Nat
  | n, [] => [n]
  | n, r :: rs => n :: readEnds (n + r.length) rs

theorem mem_readEnds_self (n : Nat) (rs : List Bytes) : n ∈ readEnds n rs := by
  cases rs <;> simp [readEnds]

theorem le_of_mem_readEnds {n m : Nat} {rs : List Bytes} (h : m ∈ readEnds n rs) : n ≤ m := by
  induction rs generalizing n with
  | nil => simp [readEnds] at h; omega
  | cons r rs ih =>
    rw [readEnds, List.mem_cons] at h
    rcases h with rfl | h
    · exact Nat.le_refl m
    · have := ih h
      omega

theorem length_mem_readEnds (n : Nat) (rs : List Bytes) :
    n + rs.flatten.length ∈ readEnds n rs := by
  induction rs generalizing n with
  | nil => simp [readEnds]
  | cons r rs ih =>
    rw [readEnds, List.flatten_cons, List.length_append, ← Nat.add_assoc]
    exact List.mem_cons_of_mem _ (ih _)

namespace Segmentation

variable {stream : Bytes}

/-- The results of the `recv` calls that deliver the stream. -/
def recvs (seg : Segmentation stream) : List Recv := seg.reads.map .ok

/-- How much of the stream has arrived at each head of the first loop. -/
def ends (seg : Segmentation stream) : List Nat := readEnds 0 seg.reads

theorem length_mem_ends (seg : Segmentation stream) : stream.length ∈ seg.ends := by
  have := length_mem_readEnds 0 seg.reads
  rwa [seg.flatten, Nat.zero_add] at this

end Segmentation

/-! ## The blank line in a growing buffer -/

theorem findDoubleCrlf_append {buf : Bytes} {h : Nat} (hf : findDoubleCrlf buf = some h)
    (r : Bytes) : findDoubleCrlf (buf ++ r) = some h :=
  findSlice_append (by simp) hf r

theorem findDoubleCrlf_of_append {buf r : Bytes} {h : Nat}
    (hf : findDoubleCrlf (buf ++ r) = some h) :
    findDoubleCrlf buf = if h + 4 ≤ buf.length then some h else none :=
  findSlice_of_append (by simp) hf

theorem findDoubleCrlf_none_of_append {buf r : Bytes} (hf : findDoubleCrlf (buf ++ r) = none) :
    findDoubleCrlf buf = none :=
  findSlice_none_of_append (by simp) hf

theorem findDoubleCrlf_add_le {buf : Bytes} {h : Nat} (hf : findDoubleCrlf buf = some h) :
    h + 4 ≤ buf.length :=
  findSlice_add_le (by simp) hf

theorem findDoubleCrlf_take {s : Bytes} {h : Nat} (hf : findDoubleCrlf s = some h) (n : Nat) :
    findDoubleCrlf (s.take n) = if h + 4 ≤ n then some h else none := by
  have hl := findDoubleCrlf_add_le hf
  rw [← List.take_append_drop n s] at hf
  rw [findDoubleCrlf_of_append hf, List.length_take]
  congr 1
  exact propext (by omega)

/-! ## The first loop -/

section Head

variable (limits : Limits) {buf : Bytes} {reads : List Bytes} {h : Nat}

theorem readHeadTop_some (hf : findDoubleCrlf buf = some h) :
    readHeadTop limits buf = some (.ok (some (buf, h))) := by
  rw [readHeadTop, hf]

theorem readHeadTop_none (hf : findDoubleCrlf buf = none)
    (hl : buf.length ≤ limits.maxHeaderBytes.toNat) : readHeadTop limits buf = none := by
  rw [readHeadTop, hf]
  exact if_neg (by omega)

theorem readHeadTop_limit (hf : findDoubleCrlf buf = none)
    (hl : limits.maxHeaderBytes.toNat < buf.length) :
    readHeadTop limits buf = some (.error (.invalidInput "request head exceeds limit")) := by
  rw [readHeadTop, hf]
  exact if_pos hl

theorem readHeadBody_cons (buf : Bytes) {r : Bytes} (hr : r ≠ []) :
    readHeadBody buf (.ok r) = .inr (buf ++ r) := by
  cases r with
  | nil => exact absurd rfl hr
  | cons b r => rfl

/-- The blank line is found where no buffer without it is over the limit. -/
theorem readHead_found (buf : Bytes) (hne : ∀ r ∈ reads, r ≠ [])
    (hf : findDoubleCrlf (buf ++ reads.flatten) = some h)
    (hadm : ∀ n ∈ readEnds buf.length reads, n < h + 4 → n ≤ limits.maxHeaderBytes.toNat)
    (tail : List Recv) :
    ∃ got left, reads = got ++ left ∧ h + 4 ≤ (buf ++ got.flatten).length ∧
      (Script.loop (readHeadTop limits) readHeadBody buf).run (reads.map .ok ++ tail) =
        some (.ok (some (buf ++ got.flatten, h)), left.map .ok ++ tail) := by
  induction reads generalizing buf with
  | nil =>
    rw [List.flatten_nil, List.append_nil] at hf
    exact ⟨[], [], rfl, by simpa using findDoubleCrlf_add_le hf,
      by simpa using Script.loop_end (readHeadTop_some limits hf) _⟩
  | cons r reads ih =>
    have hb := findDoubleCrlf_of_append hf
    by_cases hl : h + 4 ≤ buf.length
    · rw [if_pos hl] at hb
      exact ⟨[], r :: reads, rfl, by simpa using hl,
        by simpa using Script.loop_end (readHeadTop_some limits hb) _⟩
    · rw [if_neg hl] at hb
      rw [List.forall_mem_cons] at hne
      have ht := readHeadTop_none limits hb (hadm _ (mem_readEnds_self _ _) (by omega))
      obtain ⟨got, left, rfl, hg, he⟩ := ih (buf ++ r) hne.2 (by simpa using hf)
        fun n hn => hadm n (by
          rw [List.length_append] at hn
          exact List.mem_cons_of_mem _ hn)
      refine ⟨r :: got, left, rfl, by simpa using hg, ?_⟩
      rw [List.map_cons, List.cons_append, Script.loop_next ht (readHeadBody_cons buf hne.1), he]
      simp

/-- The limit is met at the head of a turn whose buffer is over it without the
blank line. -/
theorem readHead_limit (buf : Bytes) (hne : ∀ r ∈ reads, r ≠ []) {n : Nat}
    (hn : n ∈ readEnds buf.length reads) (hl : limits.maxHeaderBytes.toNat < n)
    (hf : findDoubleCrlf ((buf ++ reads.flatten).take n) = none) (tail : List Recv) :
    ∃ rest, (Script.loop (readHeadTop limits) readHeadBody buf).run (reads.map .ok ++ tail) =
      some (.error (.invalidInput "request head exceeds limit"), rest) := by
  induction reads generalizing buf with
  | nil =>
    simp only [readEnds, List.mem_singleton] at hn
    subst hn
    simp only [List.flatten_nil, List.append_nil, List.take_length] at hf
    exact ⟨_, Script.loop_end (readHeadTop_limit limits hf hl) _⟩
  | cons r reads ih =>
    have hb : findDoubleCrlf buf = none := by
      refine findDoubleCrlf_none_of_append (r := (r :: reads).flatten.take (n - buf.length)) ?_
      rwa [List.take_append, List.take_of_length_le (le_of_mem_readEnds hn)] at hf
    by_cases hbl : limits.maxHeaderBytes.toNat < buf.length
    · exact ⟨_, Script.loop_end (readHeadTop_limit limits hb hbl) _⟩
    · rw [List.forall_mem_cons] at hne
      rw [readEnds, List.mem_cons] at hn
      have hn := hn.resolve_left (by rintro rfl; exact hbl hl)
      have ht := readHeadTop_none limits hb (by omega)
      rw [List.map_cons, List.cons_append, Script.loop_next ht (readHeadBody_cons buf hne.1)]
      exact ih (buf ++ r) hne.2 (by rwa [List.length_append]) (by simpa using hf)

/-- Without the blank line, and within the limit, all reads go into the buffer. -/
theorem readHead_pass (buf : Bytes) (hne : ∀ r ∈ reads, r ≠ [])
    (hf : findDoubleCrlf (buf ++ reads.flatten) = none)
    (hl : (buf ++ reads.flatten).length ≤ limits.maxHeaderBytes.toNat) (tail : List Recv) :
    (Script.loop (readHeadTop limits) readHeadBody buf).run (reads.map .ok ++ tail) =
      (Script.loop (readHeadTop limits) readHeadBody (buf ++ reads.flatten)).run tail := by
  induction reads generalizing buf with
  | nil => simp
  | cons r reads ih =>
    rw [List.forall_mem_cons] at hne
    rw [List.flatten_cons, ← List.append_assoc] at hf hl ⊢
    have ht : readHeadTop limits buf = none := by
      refine readHeadTop_none limits ?_ ?_
      · rw [List.append_assoc] at hf
        exact findDoubleCrlf_none_of_append hf
      · simp only [List.length_append] at hl
        omega
    rw [List.map_cons, List.cons_append, Script.loop_next ht (readHeadBody_cons buf hne.1)]
    exact ih (buf ++ r) hne.2 hf hl

end Head

/-! ## The second loop -/

theorem readBodyTop_none {n : UInt64} {body : Bytes} (h : body.length < n.toNat) :
    readBodyTop n body = none := if_pos h

theorem readBodyTop_some {n : UInt64} {body : Bytes} (h : n.toNat ≤ body.length) :
    readBodyTop n body = some (.ok body) := if_neg (by omega)

theorem readBodyBody_cons (body : Bytes) {r : Bytes} (hr : r ≠ []) :
    readBodyBody body (.ok r) = .inr (body ++ r) := by
  cases r with
  | nil => exact absurd rfl hr
  | cons b r => rfl

/-- Reads that do not complete the body all go into it. -/
theorem readBody_pass {n : UInt64} {body : Bytes} {reads : List Bytes} (hne : ∀ r ∈ reads, r ≠ [])
    (hl : (body ++ reads.flatten).length < n.toNat) (tail : List Recv) :
    (readBody n body).run (reads.map .ok ++ tail) =
      (readBody n (body ++ reads.flatten)).run tail := by
  rw [readBody]
  induction reads generalizing body with
  | nil => simp [readBody]
  | cons r reads ih =>
    rw [List.forall_mem_cons] at hne
    rw [List.flatten_cons, ← List.append_assoc] at hl ⊢
    have ht : body.length < n.toNat := by
      simp only [List.length_append] at hl
      omega
    rw [List.map_cons, List.cons_append,
      Script.loop_next (readBodyTop_none ht) (readBodyBody_cons body hne.1)]
    exact ih hne.2 hl

/-- The body is the first bytes after the head, or all of them where the
stream ends before they are there. -/
theorem readBody_ok {n : UInt64} (body : Bytes) {reads : List Bytes} (hne : ∀ r ∈ reads, r ≠ [])
    (tail : List Recv)
    (hend : n.toNat ≤ (body ++ reads.flatten).length ∨ ∃ t, tail = eof :: t) :
    ∃ b rest, (readBody n body).run (reads.map .ok ++ tail) = some (.ok b, rest) ∧
      b.take n.toNat = (body ++ reads.flatten).take n.toNat := by
  rw [readBody]
  induction reads generalizing body with
  | nil =>
    rw [List.flatten_nil, List.append_nil] at hend ⊢
    by_cases hl : body.length < n.toNat
    · obtain ⟨t, rfl⟩ := hend.resolve_left (by omega)
      exact ⟨body, t, Script.loop_exit (readBodyTop_none hl) rfl _, rfl⟩
    · exact ⟨body, _, Script.loop_end (readBodyTop_some (by omega)) _, rfl⟩
  | cons r reads ih =>
    rw [List.forall_mem_cons] at hne
    by_cases hl : body.length < n.toNat
    · rw [List.map_cons, List.cons_append,
        Script.loop_next (readBodyTop_none hl) (readBodyBody_cons body hne.1), List.flatten_cons,
        ← List.append_assoc]
      exact ih (body ++ r) hne.2 (by simpa using hend)
    · refine ⟨body, _, Script.loop_end (readBodyTop_some (by omega)) _, ?_⟩
      rw [List.take_append_of_le_length (by omega)]

/-! ## The whole function -/

section Rest

variable {limits : Limits} {buf : Bytes} {headEnd : Nat}

theorem readRest_error {e : Error} (hp : parseHead (buf.take headEnd) = .error e)
    (s : List Recv) : (readRest limits buf headEnd).run s = some (.error e, s) := by
  rw [readRest, hp]
  exact Script.run_bind_error (Script.run_lift _ _) _

theorem readRest_limit {head : Head} (hp : parseHead (buf.take headEnd) = .ok head)
    (hl : limits.maxBodyBytes < contentLength head.headers) (s : List Recv) :
    (readRest limits buf headEnd).run s =
      some (.error (.invalidInput "request body exceeds limit"), s) := by
  rw [readRest, hp, Script.run_bind_ok (Script.run_lift _ _)]
  simp only
  rw [if_pos hl, Script.run_fail]

theorem readRest_ok {head : Head} (hp : parseHead (buf.take headEnd) = .ok head)
    (hl : ¬ limits.maxBodyBytes < contentLength head.headers) (s : List Recv) :
    (readRest limits buf headEnd).run s =
      (readBody (contentLength head.headers) (buf.drop (headEnd + 4)) >>= fun body =>
        pure (some { head with
          body := body.take (contentLength head.headers).toNat })).run s := by
  rw [readRest, hp, Script.run_bind_ok (Script.run_lift _ _)]
  simp only
  rw [if_neg hl]

end Rest

/-- The answer to a stream whose head is found, with the blank line at `h`. -/
def answer (limits : Limits) (stream : Bytes) (h : Nat) : Result (Option Request) := do
  let head ← parseHead (stream.take h)
  if limits.maxBodyBytes < contentLength head.headers then
    .error (.invalidInput "request body exceeds limit")
  else
    .ok (some { head with
      body := (stream.drop (h + 4)).take (contentLength head.headers).toNat })

/-- No buffer without the blank line is over the limit. -/
def Admitted (limits : Limits) (ends : List Nat) (h : Nat) : Prop :=
  ∀ n ∈ ends, n < h + 4 → n ≤ limits.maxHeaderBytes.toNat

instance (limits : Limits) (ends : List Nat) (h : Nat) : Decidable (Admitted limits ends h) :=
  inferInstanceAs (Decidable (∀ n ∈ ends, _))

/-- Some read ends beyond the limit and before the end of the blank line. -/
def ReadEndsInWindow (limits : Limits) (ends : List Nat) (h : Nat) : Prop :=
  ∃ n ∈ ends, limits.maxHeaderBytes.toNat < n ∧ n < h + 4

instance (limits : Limits) (ends : List Nat) (h : Nat) :
    Decidable (ReadEndsInWindow limits ends h) :=
  inferInstanceAs (Decidable (∃ n ∈ ends, _))

theorem admitted_iff {limits : Limits} {ends : List Nat} {h : Nat} :
    Admitted limits ends h ↔ ¬ ReadEndsInWindow limits ends h := by
  refine ⟨fun ha ⟨n, hm, hl, hlt⟩ => ?_, fun hw n hm hlt => ?_⟩
  · exact absurd (ha n hm hlt) (by omega)
  · by_contra hl
    exact hw ⟨n, hm, by omega, hlt⟩

section Answer

variable {limits : Limits} {stream : Bytes} {h : Nat}

/-- A blank line within the limit is found before the limit is met. -/
theorem admitted_of_le (ends : List Nat) (hl : h + 4 ≤ limits.maxHeaderBytes.toNat) :
    Admitted limits ends h := fun _ _ hn => by omega

/-- A head that is found leaves the rest of the stream to `readRest`. -/
theorem readRequest_found_run (seg : Segmentation stream) (hf : findDoubleCrlf stream = some h)
    (hadm : Admitted limits seg.ends h) (tail : List Recv) :
    ∃ (buf : Bytes) (left : List Bytes), buf ++ left.flatten = stream ∧ h + 4 ≤ buf.length ∧
      (∀ r ∈ left, r ≠ []) ∧
      (readRequest limits).run (seg.recvs ++ tail) =
        (readRest limits buf h).run (left.map .ok ++ tail) := by
  obtain ⟨got, left, hr, hg, he⟩ := readHead_found limits [] seg.ne_nil
    (by rwa [List.nil_append, seg.flatten]) hadm tail
  rw [List.nil_append] at he hg
  refine ⟨got.flatten, left, ?_, hg, fun r hm => seg.ne_nil r (by simp [hr, hm]), ?_⟩
  · rw [← List.flatten_append, ← hr, seg.flatten]
  · exact Script.run_bind_ok (m := readHead limits) he _

/-- Which streams are answered with a request. -/
theorem answer_ok_iff {req : Request} :
    answer limits stream h = .ok (some req) ↔
      ∃ head, parseHead (stream.take h) = .ok head ∧
        ¬ limits.maxBodyBytes < contentLength head.headers ∧
        req = { head with
          body := (stream.drop (h + 4)).take (contentLength head.headers).toNat } := by
  rw [answer]
  cases hp : parseHead (stream.take h) with
  | error e => simp [bind, Except.bind]
  | ok head =>
    simp only [bind, Except.bind]
    by_cases hl : limits.maxBodyBytes < contentLength head.headers
    · rw [if_pos hl]
      exact ⟨nofun, fun ⟨_, he, hn, _⟩ => (by cases he; exact absurd hl hn)⟩
    · rw [if_neg hl]
      exact ⟨fun he => (by cases he; exact ⟨head, rfl, hl, rfl⟩),
        fun ⟨_, he, _, hr⟩ => (by cases he; rw [hr])⟩

theorem readRequest_found (seg : Segmentation stream) (hf : findDoubleCrlf stream = some h)
    (hadm : Admitted limits seg.ends h) (tail : List Recv)
    (hend : (∀ req, answer limits stream h = .ok (some req) →
      h + 4 + (contentLength req.headers).toNat ≤ stream.length) ∨ ∃ t, tail = eof :: t) :
    ∃ rest, (readRequest limits).run (seg.recvs ++ tail) = some (answer limits stream h, rest) := by
  obtain ⟨buf, left, rfl, hg, hne, he⟩ := readRequest_found_run seg hf hadm tail
  have ht : (buf ++ left.flatten).take h = buf.take h := List.take_append_of_le_length (by omega)
  have hd : (buf ++ left.flatten).drop (h + 4) = buf.drop (h + 4) ++ left.flatten :=
    List.drop_append_of_le_length hg
  rw [he]
  cases hp : parseHead (buf.take h) with
  | error e => exact ⟨_, (readRest_error hp _).trans (by rw [answer, ht, hp]; rfl)⟩
  | ok head =>
    by_cases hb : limits.maxBodyBytes < contentLength head.headers
    · refine ⟨left.map .ok ++ tail, (readRest_limit hp hb _).trans ?_⟩
      rw [answer, ht, hp]
      simp only [bind, Except.bind, if_pos hb]
    · have ha := answer_ok_iff.mpr ⟨head, ht.symm ▸ hp, hb, rfl⟩
      obtain ⟨b, rest, hr, hbt⟩ := readBody_ok (n := contentLength head.headers)
        (buf.drop (h + 4)) hne tail (by
          refine hend.imp_left fun hend => ?_
          have := hend _ ha
          simp only [List.length_append, List.length_drop] at this ⊢
          omega)
      rw [readRest_ok hp hb, ha, hd, ← hbt]
      exact ⟨rest, Script.run_bind_ok hr _⟩

/-- A body that is incomplete when the reads are used up is waited for, and a
failing `recv` then is the answer. -/
theorem readRequest_short (seg : Segmentation stream) (hf : findDoubleCrlf stream = some h)
    (hadm : Admitted limits seg.ends h) {req : Request}
    (ha : answer limits stream h = .ok (some req))
    (hs : stream.length < h + 4 + (contentLength req.headers).toNat) :
    (readRequest limits).run seg.recvs = none ∧
    ∀ e tail, (readRequest limits).run (seg.recvs ++ .error e :: tail) =
      some (.error (.os e), tail) := by
  obtain ⟨head, hp, hl, rfl⟩ := answer_ok_iff.mp ha
  replace hs : stream.length < h + 4 + (contentLength head.headers).toNat := hs
  have hrun (tail : List Recv) : (readRequest limits).run (seg.recvs ++ tail) =
      (readBody (contentLength head.headers) (stream.drop (h + 4)) >>= fun body =>
        pure (some { head with
          body := body.take (contentLength head.headers).toNat })).run tail := by
    obtain ⟨buf, left, rfl, hg, hne, he⟩ := readRequest_found_run seg hf hadm tail
    rw [List.take_append_of_le_length (by omega)] at hp
    rw [List.drop_append_of_le_length (by omega), he, readRest_ok hp hl, Script.run_bind,
      readBody_pass hne, Script.run_bind]
    simp only [List.length_append, List.length_drop] at hs ⊢
    omega
  have ht : readBodyTop (contentLength head.headers) (stream.drop (h + 4)) = none := by
    have hle := findDoubleCrlf_add_le hf
    refine readBodyTop_none ?_
    rw [List.length_drop]
    omega
  refine ⟨?_, fun e tail => ?_⟩
  · have := hrun []
    rw [List.append_nil] at this
    exact this.trans (Script.run_bind_none (m := readBody _ _) (Script.loop_wait ht) _)
  · rw [hrun]
    exact Script.run_bind_error (m := readBody _ _) (Script.loop_exit ht rfl _) _

theorem readRequest_limit (seg : Segmentation stream) {n : Nat} (hn : n ∈ seg.ends)
    (hl : limits.maxHeaderBytes.toNat < n) (hf : findDoubleCrlf (stream.take n) = none)
    (tail : List Recv) :
    ∃ rest, (readRequest limits).run (seg.recvs ++ tail) =
      some (.error (.invalidInput "request head exceeds limit"), rest) := by
  obtain ⟨rest, he⟩ := readHead_limit limits [] seg.ne_nil hn hl
    (by rwa [List.nil_append, seg.flatten]) tail
  exact ⟨rest, Script.run_bind_error (m := readHead limits) he _⟩

/-- A stream without the blank line, and within the limit, is read to its end. -/
theorem readRequest_pass (limits : Limits) (seg : Segmentation stream) (hf : findDoubleCrlf stream = none)
    (hl : stream.length ≤ limits.maxHeaderBytes.toNat) :
    (readRequest limits).run seg.recvs = none ∧
    (∀ tail, (readRequest limits).run (seg.recvs ++ eof :: tail) =
      some (if stream = [] then .ok none
        else .error (.invalidInput "connection closed mid-request"), tail)) ∧
    ∀ e tail, (readRequest limits).run (seg.recvs ++ .error e :: tail) =
      some (.error (.os e), tail) := by
  have hpass := fun tail => readHead_pass limits [] seg.ne_nil
    (by rwa [List.nil_append, seg.flatten]) (by rwa [List.nil_append, seg.flatten]) tail
  simp only [List.nil_append, seg.flatten] at hpass
  have ht := readHeadTop_none limits hf hl
  refine ⟨?_, fun tail => ?_, fun e tail => ?_⟩
  · have := hpass []
    rw [List.append_nil, Script.loop_wait ht] at this
    exact Script.run_bind_none (m := readHead limits) this _
  · by_cases hs : stream = []
    · have hb : readHeadBody stream eof = .inl (.ok none) := if_pos hs
      rw [if_pos hs]
      exact Script.run_bind_ok (m := readHead limits) ((hpass _).trans (Script.loop_exit ht hb _)) _
    · have hb : readHeadBody stream eof =
          .inl (.error (.invalidInput "connection closed mid-request")) := if_neg hs
      rw [if_neg hs]
      exact Script.run_bind_error (m := readHead limits)
        ((hpass _).trans (Script.loop_exit ht hb _)) _
  · exact Script.run_bind_error (m := readHead limits)
      ((hpass _).trans (Script.loop_exit ht rfl _)) _

end Answer

end PsPayload.Http
