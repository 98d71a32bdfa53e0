import PsPayload.Core.Http.Bounds
import PsPayload.Core.Http.ContentLength

/-!
# Signals while a request is read

A `recv` that a signal interrupts ends `readRequest` with that error
(`passes_readRequest`), and nothing else does (`blames_readRequest`). So an
interruption leaves the result unchanged exactly where it comes after
`readRequest` has returned, and the reads before the first one say whether it
has (`run_ne_none_iff`, `signalSafe_iff`).
-/

namespace PsPayload

open Lib Script

/-- A `recv` that a signal interrupted. -/
def Recv.interrupted : Recv → Bool
  | .ok _ => false
  | .error e => e.interrupted

namespace Http

/-- The same reads without the interruptions. -/
def uninterrupted (s : List Recv) : List Recv := s.filter (!·.interrupted)

/-- Interruptions leave the result unchanged. -/
def SignalSafe (limits : Limits) (s : List Recv) : Prop :=
  ((readRequest limits).run s).map (·.1) = ((readRequest limits).run (uninterrupted s)).map (·.1)

/-- The bytes that each `recv` stored. -/
def readsOf (s : List Recv) : List Bytes :=
  s.filterMap fun
    | .ok (b :: bytes) => some (b :: bytes)
    | .ok [] => none
    | .error _ => none

/-- A head without the blank line is over the limit at some read. -/
def HeadOverLimit (limits : Limits) (reads : List Bytes) : Prop :=
  ∃ n ∈ readEnds 0 reads, limits.maxHeaderBytes.toNat < n ∧
    findDoubleCrlf (reads.flatten.take n) = none

/-- The head has arrived, and so has the body it declares, unless it does not
parse or declares too much. -/
def RequestArrived (limits : Limits) (stream : Bytes) : Prop :=
  ∃ h, findDoubleCrlf stream = some h ∧ (WellFormed (stream.take h) →
    readAs (declaredLengths (stream.take h)) ≤ limits.maxBodyBytes.toNat →
    h + 4 + readAs (declaredLengths (stream.take h)) ≤ stream.length)

/-- Reads that need no others after them: the stream has ended or failed, the
head is refused for its size, or the request has arrived. -/
def Settled (limits : Limits) (s : List Recv) : Prop :=
  (∃ r ∈ s, r = eof ∨ ∃ e, r = .error e) ∨ HeadOverLimit limits (readsOf s) ∨
    RequestArrived limits (readsOf s).flatten

/-- No interruption comes before the reads are settled. -/
def SettledBeforeSignal (limits : Limits) (s : List Recv) : Prop :=
  (∀ r ∈ s, r.interrupted = false) ∨ Settled limits (s.takeWhile (!·.interrupted))

/-! ## What an error of `recv` does -/

section Errors

variable {limits : Limits} {e : Errno}

theorem passes_readHead (limits : Limits) (e : Errno) :
    Passes (readHead limits) (.error e) (.os e) := by
  have hb : ∀ buf, readHeadBody buf (.error e) = .inl (.error (.os e)) := fun _ => rfl
  exact passes_loop hb []

theorem passes_readBody (n : UInt64) (body : Bytes) (e : Errno) :
    Passes (readBody n body) (.error e) (.os e) := by
  have hb : ∀ body, readBodyBody body (.error e) = .inl (.error (.os e)) := fun _ => rfl
  exact passes_loop hb body

theorem passes_readRest (limits : Limits) (buf : Bytes) (headEnd : Nat) (e : Errno) :
    Passes (readRest limits buf headEnd) (.error e) (.os e) := by
  refine passes_bind (causal_lift _) (passes_lift _ _ _) fun head => ?_
  simp only
  split
  · exact passes_lift _ _ _
  · exact passes_bind (causal_loop _ _ _) (passes_readBody _ _ e) fun _ => passes_pure _ _ _

/-- An error of `recv` ends `readRequest`, which waits for it. -/
theorem passes_readRequest (limits : Limits) (e : Errno) :
    Passes (readRequest limits) (.error e) (.os e) := by
  refine passes_bind (causal_loop _ _ _) (passes_readHead limits e) fun r => ?_
  cases r with
  | none => exact passes_pure _ _ _
  | some found => exact passes_readRest limits found.1 found.2 e

theorem blames_readHead (limits : Limits) (e : Errno) :
    Blames (readHead limits) (.error e) (.os e) := by
  refine blames_loop (fun buf h => ?_) (fun buf r h => ?_) []
  · rw [readHeadTop] at h
    split at h
    · cases h
    · split at h
      · cases h
      · cases h
  · obtain ⟨e', rfl, hx⟩ | ⟨-, hx | hx⟩ := readHeadBody_eq_inl h
    · cases hx
      rfl
    · cases hx
    · cases hx

theorem blames_readBody (n : UInt64) (body : Bytes) (e : Errno) :
    Blames (readBody n body) (.error e) (.os e) := by
  refine blames_loop (fun body h => ?_) (fun body r h => ?_) body
  · rw [readBodyTop] at h
    split at h
    · cases h
    · cases h
  · cases r with
    | error e' =>
      cases h
      rfl
    | ok bytes =>
      cases bytes with
      | nil => cases h
      | cons b bytes => cases h

theorem blames_readRest (limits : Limits) (buf : Bytes) (headEnd : Nat) (e : Errno) :
    Blames (readRest limits buf headEnd) (.error e) (.os e) := by
  have hp : parseHead (buf.take headEnd) ≠ .error (.os e) := by
    intro hp
    obtain ⟨msg, -, he⟩ := parseHead_error hp
    cases he
  refine blames_bind (causal_lift _) (blames_lift hp _) fun head => ?_
  have hl : (Except.error (.invalidInput "request body exceeds limit") :
      Result (Option Request)) ≠ .error (.os e) := by simp
  simp only
  split
  · exact blames_lift hl _
  · exact blames_bind (causal_loop _ _ _) (blames_readBody _ _ e) fun _ => blames_pure _ _ _

/-- Nothing but an error of `recv` is reported as one. -/
theorem blames_readRequest (limits : Limits) (e : Errno) :
    Blames (readRequest limits) (.error e) (.os e) := by
  refine blames_bind (causal_loop _ _ _) (blames_readHead limits e) fun r => ?_
  cases r with
  | none => exact blames_pure _ _ _
  | some found => exact blames_readRest limits found.1 found.2 e

end Errors

/-! ## When the reads are enough -/

section Settled

variable {limits : Limits} {s : List Recv}

/-- A `recv` that stores something. -/
def IsData (r : Recv) : Prop := ∃ bytes : Bytes, bytes ≠ [] ∧ r = .ok bytes

theorem isData_of_turns {top : Bytes → Option (Result α)} {body : Bytes → Recv → Result α ⊕ Bytes}
    (hb : ∀ buf r buf', body buf r = .inr buf' → IsData r) {buf buf' : Bytes}
    (h : runFrom (turn top body) buf s = some buf') : ∀ r ∈ s, IsData r := by
  refine invariant (I := fun s _ => ∀ r ∈ s, IsData r) (by simp) ?_ h
  intro s r buf buf' _ ih ht
  rw [List.forall_mem_append, List.forall_mem_singleton]
  exact ⟨ih, hb _ _ _ (turn_eq_some_iff.mp ht).2⟩

theorem isData_headBuffer {used : List Recv} {buf : Bytes}
    (h : headBuffer limits used = some buf) : ∀ r ∈ used, IsData r := by
  refine isData_of_turns (fun buf r buf' hb => ?_) h
  obtain ⟨bytes, rfl, hne, -⟩ := readHeadBody_eq_inr hb
  exact ⟨bytes, hne, rfl⟩

theorem isData_bodyBuffer {n : UInt64} {used : List Recv} {start body : Bytes}
    (h : bodyBuffer n start used = some body) : ∀ r ∈ used, IsData r := by
  refine isData_of_turns (fun buf r buf' hb => ?_) h
  obtain ⟨bytes, rfl, hne, -⟩ := readBodyBody_eq_inr hb
  exact ⟨bytes, hne, rfl⟩

theorem isData_readRest {buf : Bytes} {headEnd : Nat}
    (h : (readRest limits buf headEnd).run s = none) : ∀ r ∈ s, IsData r := by
  cases hp : parseHead (buf.take headEnd) with
  | error e => simp [readRest_error hp] at h
  | ok head =>
    by_cases hl : limits.maxBodyBytes < contentLength head.headers
    · simp [readRest_limit hp hl] at h
    · rw [readRest_ok hp hl, run_bind] at h
      split at h
      · rename_i hb
        obtain ⟨body, hy, -⟩ := run_loop_none hb
        exact isData_bodyBuffer hy
      · cases h
      · cases h

/-- While it waits, all reads have stored something. -/
theorem isData_of_waiting (h : (readRequest limits).run s = none) : ∀ r ∈ s, IsData r := by
  rw [readRequest, run_bind] at h
  split at h
  · rename_i hr
    obtain ⟨buf, hy, -⟩ := run_loop_none hr
    exact isData_headBuffer hy
  · cases h
  · rename_i found t hr
    cases found with
    | none => cases h
    | some found =>
      obtain ⟨buf, headEnd⟩ := found
      obtain ⟨used, rfl, hb, -⟩ := readHead_some hr
      rw [List.forall_mem_append]
      exact ⟨isData_headBuffer hb, isData_readRest h⟩

theorem map_readsOf (h : ∀ r ∈ s, IsData r) : (readsOf s).map .ok = s := by
  induction s with
  | nil => rfl
  | cons r s ih =>
    rw [List.forall_mem_cons] at h
    obtain ⟨⟨bytes, hne, rfl⟩, h⟩ := h
    obtain ⟨b, bytes, rfl⟩ := List.exists_cons_of_ne_nil hne
    exact congrArg (Except.ok (b :: bytes) :: ·) (ih h)

theorem mem_readsOf {bytes : Bytes} (h : bytes ∈ readsOf s) : bytes ≠ [] ∧ .ok bytes ∈ s := by
  obtain ⟨r, hr, hb⟩ := List.mem_filterMap.mp h
  cases r with
  | error e => cases hb
  | ok bs =>
    cases bs with
    | nil => cases hb
    | cons b bs =>
      cases hb
      exact ⟨by simp, hr⟩

/-- The stream that the reads deliver. -/
def segmentationOf (s : List Recv) (hs : ∀ bytes, .ok bytes ∈ s → bytes.length ≤ READ_CHUNK) :
    Segmentation (readsOf s).flatten where
  reads := readsOf s
  ne_nil _ h := (mem_readsOf h).1
  length_le _ h := hs _ (mem_readsOf h).2
  flatten := rfl

/-- All of a stream that is not refused for the size of its head fits. -/
theorem length_le_of_not_headOverLimit {reads : List Bytes}
    (hf : findDoubleCrlf reads.flatten = none) (h : ¬ HeadOverLimit limits reads) :
    reads.flatten.length ≤ limits.maxHeaderBytes.toNat := by
  by_contra hl
  have hm := length_mem_readEnds 0 reads
  rw [Nat.zero_add] at hm
  exact h ⟨_, hm, by omega, by rwa [List.take_length]⟩

/-- A head that is over the limit is so before the end of its blank line. -/
theorem headOverLimit_iff {reads : List Bytes} {h : Nat}
    (hf : findDoubleCrlf reads.flatten = some h) :
    HeadOverLimit limits reads ↔ ReadEndsInWindow limits (readEnds 0 reads) h := by
  refine exists_congr fun n => and_congr_right fun _ => and_congr_right fun _ => ?_
  rw [findDoubleCrlf_take hf n]
  split
  · simp [*]
  · simp [Nat.lt_of_not_le ‹_›]

theorem run_data_ne_none_iff (limits : Limits) {stream : Bytes} (seg : Segmentation stream) :
    (readRequest limits).run seg.recvs ≠ none ↔
      HeadOverLimit limits seg.reads ∨ RequestArrived limits stream := by
  have hfl := seg.flatten
  cases hf : findDoubleCrlf stream with
  | none =>
    have hr : ¬ RequestArrived limits stream := by
      rintro ⟨h, hf', -⟩
      simp [hf] at hf'
    by_cases ho : HeadOverLimit limits seg.reads
    · obtain ⟨n, hm, hl, hn⟩ := ho
      obtain ⟨rest, he⟩ := readRequest_limit seg hm hl (by rwa [hfl] at hn) []
      rw [List.append_nil] at he
      simp only [he, ne_eq, reduceCtorEq, not_false_iff, true_iff]
      exact .inl ⟨n, hm, hl, hn⟩
    · have hle := length_le_of_not_headOverLimit (by rwa [hfl]) ho
      have hn := (readRequest_pass limits seg hf (by rwa [hfl] at hle)).1
      simp [hn, ho, hr]
  | some h =>
    rw [headOverLimit_iff (by rwa [hfl])]
    by_cases hw : ReadEndsInWindow limits seg.ends h
    · obtain ⟨rest, he⟩ := (readRequest_headLimit_iff limits hf seg []).mpr hw
      rw [List.append_nil] at he
      simp only [he, ne_eq, reduceCtorEq, not_false_iff, true_iff]
      exact .inl hw
    have hadm := admitted_iff.mpr hw
    by_cases hs : ∃ req, answer limits stream h = .ok (some req) ∧
        stream.length < h + 4 + (contentLength req.headers).toNat
    · obtain ⟨req, ha, hs⟩ := hs
      obtain ⟨hwf, hl, hN⟩ := wellFormed_of_answer ha
      have hn := (readRequest_short seg hf hadm ha hs).1
      refine ⟨fun hne => absurd hn hne, fun hor => ?_⟩
      obtain ⟨h', hf', harr⟩ := hor.resolve_left hw
      obtain rfl : h = h' := Option.some.inj (hf.symm.trans hf')
      have := harr hwf hl
      omega
    · obtain ⟨rest, he⟩ := readRequest_found seg hf hadm [] (.inl fun req ha => by
        by_contra hl
        exact hs ⟨req, ha, by omega⟩)
      rw [List.append_nil] at he
      simp only [he, ne_eq, reduceCtorEq, not_false_iff, true_iff]
      refine .inr ⟨h, hf, fun hwf hl => ?_⟩
      obtain ⟨req, ha, hN⟩ := answer_of_wellFormed hwf hl
      by_contra hlt
      exact hs ⟨req, ha, by omega⟩

/-- `read_request` returns with the reads there are exactly if they settle it. -/
theorem run_ne_none_iff (hs : ∀ bytes, .ok bytes ∈ s → bytes.length ≤ READ_CHUNK) :
    (readRequest limits).run s ≠ none ↔ Settled limits s := by
  by_cases hd : ∀ r ∈ s, IsData r
  · have hseg := run_data_ne_none_iff limits (segmentationOf s hs)
    rw [show (segmentationOf s hs).recvs = s from map_readsOf hd] at hseg
    have hno : ¬ ∃ r ∈ s, r = eof ∨ ∃ e, r = .error e := by
      rintro ⟨r, hr, he⟩
      obtain ⟨bytes, hne, rfl⟩ := hd r hr
      rcases he with he | ⟨e, he⟩
      · exact hne (Except.ok.inj he)
      · cases he
    exact hseg.trans (or_iff_right hno).symm
  · refine ⟨fun _ => .inl ?_, fun _ hn => hd (isData_of_waiting hn)⟩
    obtain ⟨r, hd⟩ := not_forall.mp hd
    obtain ⟨hr, hd⟩ := Classical.not_imp.mp hd
    cases r with
    | error e => exact ⟨_, hr, .inr ⟨e, rfl⟩⟩
    | ok bytes =>
      by_cases hb : bytes = []
      · subst hb
        exact ⟨_, hr, .inl rfl⟩
      · exact absurd ⟨bytes, hb, rfl⟩ hd

end Settled

/-! ## Interruptions -/

section Interrupted

variable {limits : Limits} {s : List Recv}

theorem not_mem_uninterrupted {e : Errno} (he : e.interrupted = true) :
    .error e ∉ uninterrupted s := by
  simp [uninterrupted, Recv.interrupted, he]

/-- The reads up to the first interruption, and it. -/
theorem split_at_interruption (h : ¬ ∀ r ∈ s, r.interrupted = false) :
    ∃ e t, e.interrupted = true ∧ s = s.takeWhile (!·.interrupted) ++ .error e :: t := by
  induction s with
  | nil => simp at h
  | cons r s ih =>
    by_cases hr : r.interrupted = true
    · cases r with
      | ok bytes => cases hr
      | error e =>
        refine ⟨e, s, hr, ?_⟩
        rw [List.takeWhile_cons_of_neg (by simp [hr])]
        rfl
    · rw [List.forall_mem_cons, not_and] at h
      obtain ⟨e, t, he, hs⟩ := ih (h (Bool.eq_false_iff.mpr hr))
      refine ⟨e, t, he, ?_⟩
      rw [List.takeWhile_cons_of_pos (by simp [hr]), List.cons_append, ← hs]

theorem uninterrupted_append {pre t : List Recv} {e : Errno}
    (hpre : ∀ r ∈ pre, r.interrupted = false) (he : e.interrupted = true) :
    uninterrupted (pre ++ .error e :: t) = pre ++ uninterrupted t := by
  rw [uninterrupted, List.filter_append, List.filter_eq_self.mpr (by simpa using hpre),
    List.filter_cons_of_neg (by simpa [Recv.interrupted] using he), uninterrupted]

set_option maxRecDepth 10000 in
/-- A signal interrupts the first `recv`, and the request comes with the second. -/
theorem not_signalSafe : ¬ SignalSafe ⟨100, 100⟩ [.error ⟨EINTR⟩, .ok lineStream] := by
  intro h
  have hr : ((readRequest ⟨100, 100⟩).run [.error ⟨EINTR⟩, .ok lineStream]).map (·.1) =
      some (.error (.os ⟨EINTR⟩)) := rfl
  have hu : ((readRequest ⟨100, 100⟩).run (uninterrupted [.error ⟨EINTR⟩, .ok lineStream])).map
      (·.1) = some (.ok (some ⟨['A'], ['B'], ['C'], [], []⟩)) := by decide
  rw [SignalSafe, hr, hu] at h
  cases h

/-- Interruptions leave the result unchanged exactly if the reads before the
first one settle it. -/
theorem signalSafe_iff (limits : Limits) (s : List Recv)
    (hs : ∀ bytes, .ok bytes ∈ s → bytes.length ≤ READ_CHUNK) :
    SignalSafe limits s ↔ SettledBeforeSignal limits s := by
  by_cases hi : ∀ r ∈ s, r.interrupted = false
  · refine ⟨fun _ => .inl hi, fun _ => ?_⟩
    have hu : uninterrupted s = s := List.filter_eq_self.mpr (by simpa using hi)
    rw [SignalSafe, hu]
  obtain ⟨e, t, he, heq⟩ := split_at_interruption hi
  have hpre : ∀ r ∈ s.takeWhile (!·.interrupted), r.interrupted = false := by
    intro r hr
    simpa using List.mem_takeWhile_imp hr
  rw [SettledBeforeSignal, or_iff_right hi, SignalSafe]
  generalize s.takeWhile (!·.interrupted) = pre at heq hpre ⊢
  subst heq
  rw [uninterrupted_append hpre he, ← run_ne_none_iff (fun bytes hb => hs bytes (by simp [hb]))]
  cases hr : (readRequest limits).run pre with
  | none =>
    refine ⟨fun h => ?_, fun h => absurd rfl h⟩
    rw [passes_readRequest limits e pre t hr, Option.map_some] at h
    obtain ⟨⟨r, u⟩, hru, rfl⟩ := Option.map_eq_some_iff.mp h.symm
    -- the run without interruptions has none to blame
    rcases List.mem_append.mp (blames_readRequest limits e _ _ hru) with hm | hm
    · have hn : e.interrupted = false := hpre _ hm
      simp [he] at hn
    · exact absurd hm (not_mem_uninterrupted he)
  | some p =>
    obtain ⟨r, u⟩ := p
    obtain ⟨used, rfl, hu⟩ := causal_readRequest limits _ _ _ hr
    simp only [List.append_assoc, hu, Option.map_some, ne_eq, reduceCtorEq, not_false_iff]

/-- A request that has arrived before the signal does. -/
def lateSignal : List Recv := [.ok lineStream, .error ⟨EINTR⟩]

theorem signalSafe_lateSignal :
    (∀ bytes, .ok bytes ∈ lateSignal → bytes.length ≤ READ_CHUNK) ∧
      (SignalSafe ⟨100, 100⟩ lateSignal ↔ SettledBeforeSignal ⟨100, 100⟩ lateSignal) := by
  have hl : lineStream.length ≤ READ_CHUNK := by decide
  have hs : ∀ bytes, .ok bytes ∈ lateSignal → bytes.length ≤ READ_CHUNK := by
    simp [lateSignal, hl]
  exact ⟨hs, signalSafe_iff ⟨100, 100⟩ lateSignal hs⟩

end Interrupted

end Http

end PsPayload
