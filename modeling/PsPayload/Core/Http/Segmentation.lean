import PsPayload.Core.Http.ReadRequest

/-!
# Where the reads end, and what that decides

The cuts in a stream decide whether its head is refused for its size, and
nothing else: a head whose blank line lies within the limit is answered the
same under every segmentation (`readRequest_segmentation`), and the limit is
met exactly where a read ends beyond it and before the end of the blank line
(`readRequest_headLimit_iff`).
-/

namespace PsPayload.Http

open Lib

variable {limits : Limits} {stream : Bytes} {h : Nat}

/-! ## The same answer under every segmentation -/

/-- A blank line ends within the limit, or there is none. -/
def HeadDecided (limits : Limits) (stream : Bytes) : Prop :=
  (∃ head rest, stream = head ++ [13, 10, 13, 10] ++ rest ∧
    head.length + 4 ≤ limits.maxHeaderBytes.toNat) ∨
  ¬ [13, 10, 13, 10] <:+: stream

theorem findDoubleCrlf_none_iff : findDoubleCrlf stream = none ↔ ¬ [13, 10, 13, 10] <:+: stream := by
  rw [findDoubleCrlf, findSlice_eq_none_iff (by simp), ← not_exists, not_iff_not]
  refine ⟨fun ⟨i, hi⟩ => ?_, fun h => ?_⟩
  · exact hi.isInfix.trans (List.drop_suffix i stream).isInfix
  · obtain ⟨s, t, rfl⟩ := h
    exact ⟨s.length, by simp⟩

/-- The first blank line is no later than any other. -/
theorem findDoubleCrlf_le (head rest : Bytes) :
    ∃ h ≤ head.length, findDoubleCrlf (head ++ [13, 10, 13, 10] ++ rest) = some h := by
  have hs : (findDoubleCrlf (head ++ [13, 10, 13, 10])).isSome :=
    (findSlice_isSome_iff (by simp)).mpr ⟨head.length, by simp⟩
  obtain ⟨h, hf⟩ := Option.isSome_iff_exists.mp hs
  have hl := findDoubleCrlf_add_le hf
  refine ⟨h, ?_, findDoubleCrlf_append hf rest⟩
  simp only [List.length_append, List.length_cons, List.length_nil] at hl
  omega

theorem HeadDecided.find (hd : HeadDecided limits stream) :
    findDoubleCrlf stream = none ∨
      ∃ h, findDoubleCrlf stream = some h ∧ h + 4 ≤ limits.maxHeaderBytes.toNat := by
  rcases hd with ⟨head, rest, rfl, hl⟩ | hn
  · obtain ⟨h, hle, hf⟩ := findDoubleCrlf_le head rest
    exact .inr ⟨h, hf, by omega⟩
  · exact .inl (findDoubleCrlf_none_iff.mpr hn)

/-- The answer to a stream that the peer then closes, whatever the cuts. -/
def closedAnswer (limits : Limits) (stream : Bytes) : Result (Option Request) :=
  match findDoubleCrlf stream with
  | some h => answer limits stream h
  | none =>
    if limits.maxHeaderBytes.toNat < stream.length then
      .error (.invalidInput "request head exceeds limit")
    else if stream = [] then .ok none
    else .error (.invalidInput "connection closed mid-request")

theorem readRequest_closed (hd : HeadDecided limits stream) (seg : Segmentation stream) :
    ∃ rest, (readRequest limits).run (seg.recvs ++ [eof]) =
      some (closedAnswer limits stream, rest) := by
  rw [closedAnswer]
  rcases hd.find with hf | ⟨h, hf, hl⟩
  · rw [hf]
    by_cases hm : limits.maxHeaderBytes.toNat < stream.length
    · simp only
      rw [if_pos hm]
      exact readRequest_limit seg seg.length_mem_ends hm (by rwa [List.take_length]) _
    · simp only
      rw [if_neg hm]
      exact ⟨[], (readRequest_pass limits seg hf (by omega)).2.1 []⟩
  · rw [hf]
    exact readRequest_found seg hf (admitted_of_le _ hl) _ (.inr ⟨[], rfl⟩)

/-- The answer is decided by the bytes of the head and the declared body. -/
theorem answer_congr {stream' : Bytes} {req : Request}
    (ha : answer limits stream h = .ok (some req))
    (ht : stream'.take (h + 4 + (contentLength req.headers).toNat) =
      stream.take (h + 4 + (contentLength req.headers).toNat)) :
    answer limits stream' h = .ok (some req) := by
  have hh : stream'.take h = stream.take h := by
    have := congrArg (List.take h) ht
    rwa [List.take_take, List.take_take, Nat.min_eq_left (by omega)] at this
  obtain ⟨head, hp, hl, rfl⟩ := answer_ok_iff.mp ha
  refine answer_ok_iff.mpr ⟨head, hh ▸ hp, hl, ?_⟩
  rw [List.take_drop, List.take_drop, ht]

/-- The first blank line is decided by the bytes up to its end. -/
theorem findDoubleCrlf_congr {stream' : Bytes} {n : Nat} (hf : findDoubleCrlf stream = some h)
    (hn : h + 4 ≤ n) (ht : stream'.take n = stream.take n) :
    findDoubleCrlf stream' = some h := by
  have := findDoubleCrlf_take hf n
  rw [if_pos hn, ← ht] at this
  rw [← List.take_append_drop n stream']
  exact findDoubleCrlf_append this _

/-- However two deliveries of a stream cut it, they get the same answer; and
an answer that is a request depends on nothing beyond its body, under any
segmentation and whatever follows. -/
theorem readRequest_segmentation (limits : Limits) (stream : Bytes)
    (hd : HeadDecided limits stream) :
    (∀ seg seg' : Segmentation stream, ∃ r rest rest',
      (readRequest limits).run (seg.recvs ++ [eof]) = some (r, rest) ∧
      (readRequest limits).run (seg'.recvs ++ [eof]) = some (r, rest')) ∧
    ∀ (seg : Segmentation stream) (req : Request) (rest : List Recv) (h : Nat),
      (readRequest limits).run (seg.recvs ++ [eof]) = some (.ok (some req), rest) →
      findDoubleCrlf stream = some h →
      h + 4 + (contentLength req.headers).toNat ≤ stream.length →
      ∀ stream' : Bytes, h + 4 + (contentLength req.headers).toNat ≤ stream'.length →
        stream'.take (h + 4 + (contentLength req.headers).toNat) =
          stream.take (h + 4 + (contentLength req.headers).toNat) →
        ∀ (seg' : Segmentation stream') (tail : List Recv), ∃ rest',
          (readRequest limits).run (seg'.recvs ++ tail) = some (.ok (some req), rest') := by
  refine ⟨fun seg seg' => ?_, fun seg req rest h hr hf _ stream' hl' ht seg' tail => ?_⟩
  · obtain ⟨rest, he⟩ := readRequest_closed hd seg
    obtain ⟨rest', he'⟩ := readRequest_closed hd seg'
    exact ⟨_, rest, rest', he, he'⟩
  · obtain ⟨h', hf', hle⟩ := hd.find.resolve_left (by simp [hf])
    obtain rfl : h = h' := Option.some.inj (hf.symm.trans hf')
    obtain ⟨rest', he⟩ := readRequest_closed hd seg
    rw [closedAnswer, hf] at he
    have ha := (Prod.mk.inj (Option.some.inj (he.symm.trans hr))).1
    have ha' := answer_congr ha ht
    have hf' := findDoubleCrlf_congr hf (by omega) ht
    obtain ⟨rest'', he''⟩ := readRequest_found seg' hf' (admitted_of_le seg'.ends hle)
      tail (.inl fun req' hr' => by
        obtain rfl : req = req' := Option.some.inj (Except.ok.inj (ha'.symm.trans hr'))
        exact hl')
    exact ⟨rest'', he''.trans (by rw [ha'])⟩

/-- A request with one byte of body and one byte more. -/
def lengthStream : Bytes := utf8 "A B C\r\nContent-Length:1\r\n\r\nxy".toList

/-- `lengthStream`, cut within the blank line and before the body. -/
def lengthReads : Segmentation lengthStream where
  reads := [lengthStream.take 24, (lengthStream.drop 24).take 3, lengthStream.drop 27]
  ne_nil := by decide
  length_le := by decide
  flatten := by decide

/-- `lengthStream`, in one read. -/
def lengthRead : Segmentation lengthStream where
  reads := [lengthStream]
  ne_nil := by decide
  length_le := by decide
  flatten := by decide

set_option maxRecDepth 10000 in
theorem readRequest_segmentation_lengthStream :
    (∃ r rest rest', (readRequest ⟨27, 1⟩).run (lengthReads.recvs ++ [eof]) = some (r, rest) ∧
      (readRequest ⟨27, 1⟩).run (lengthRead.recvs ++ [eof]) = some (r, rest')) ∧
    ∃ rest, (readRequest ⟨27, 1⟩).run (lengthReads.recvs ++ []) =
      some (.ok (some ⟨['A'], ['B'], ['C'], [("Content-Length".toList, ['1'])], [120]⟩), rest) := by
  have hd : HeadDecided ⟨27, 1⟩ lengthStream :=
    .inl ⟨lengthStream.take 23, [120, 121], by decide, by decide⟩
  have hs := readRequest_segmentation ⟨27, 1⟩ lengthStream hd
  exact ⟨hs.1 lengthReads lengthRead,
    hs.2 lengthRead _ [eof] 23 (by decide) (by decide) (by decide) lengthStream (by decide)
      (by decide) lengthReads []⟩

/-! ## The limit on the head -/

theorem parseHeaders_error {lines : List Str} {e : Error} (h : parseHeaders lines = .error e) :
    e = .invalidInput "malformed header line" := by
  induction lines with
  | nil => cases h
  | cons line lines ih =>
    rw [parseHeaders] at h
    split at h
    · exact ih h
    · obtain h | ⟨field, -, h⟩ := bind_error h
      · exact okOr_error h
      · obtain h | ⟨fields, -, h⟩ := bind_error h
        · exact ih h
        · cases h

/-- What can be wrong with a head. -/
def headErrors : List String :=
  ["request head is not valid UTF-8", "missing request line", "missing method",
    "missing request target", "missing HTTP version", "malformed header line"]

theorem parseHead_error {head : Bytes} {e : Error} (h : parseHead head = .error e) :
    ∃ msg ∈ headErrors, e = .invalidInput msg := by
  obtain h | ⟨text, -, h⟩ := bind_error h
  · exact ⟨_, by simp [headErrors], okOr_error h⟩
  obtain h | ⟨line, -, h⟩ := bind_error h
  · exact ⟨_, by simp [headErrors], okOr_error h⟩
  obtain h | ⟨method, -, h⟩ := bind_error h
  · exact ⟨_, by simp [headErrors], okOr_error h⟩
  obtain h | ⟨target, -, h⟩ := bind_error h
  · exact ⟨_, by simp [headErrors], okOr_error h⟩
  obtain h | ⟨version, -, h⟩ := bind_error h
  · exact ⟨_, by simp [headErrors], okOr_error h⟩
  obtain h | ⟨headers, -, h⟩ := bind_error h
  · exact ⟨_, by simp [headErrors], parseHeaders_error h⟩
  · cases h

/-- Only a failing `recv` makes the second loop fail. -/
theorem readBody_error {n : UInt64} {body : Bytes} {s t : List Recv} {e : Error}
    (h : (readBody n body).run s = some (.error e, t)) : ∃ errno, e = .os errno := by
  obtain ⟨y, -, ht | ⟨-, i, hb⟩⟩ :=
    Script.loop_invariant (I := fun _ => True) (fun _ _ _ _ _ _ => trivial) trivial h
  · rw [readBodyTop] at ht
    split at ht <;> cases ht
  · match i with
    | .error errno =>
      cases hb
      exact ⟨errno, rfl⟩
    | .ok [] => cases hb
    | .ok (_ :: _) => cases hb

theorem readRest_ne_headLimit {buf : Bytes} {headEnd : Nat} {s t : List Recv} :
    (readRest limits buf headEnd).run s ≠
      some (.error (.invalidInput "request head exceeds limit"), t) := by
  intro h
  cases hp : parseHead (buf.take headEnd) with
  | error e =>
    rw [readRest_error hp] at h
    obtain ⟨msg, hm, rfl⟩ := parseHead_error hp
    cases h
    exact absurd hm (by decide)
  | ok head =>
    by_cases hl : limits.maxBodyBytes < contentLength head.headers
    · rw [readRest_limit hp hl] at h
      simp at h
    · rw [readRest_ok hp hl, Script.run_bind] at h
      split at h
      · cases h
      · rename_i hb
        obtain ⟨errno, he⟩ := readBody_error hb
        cases h
        cases he
      · cases h

/-- The head is refused for its size where it is not admitted. -/
theorem readRequest_headLimit_iff (limits : Limits) (hf : findDoubleCrlf stream = some h)
    (seg : Segmentation stream) (tail : List Recv) :
    (∃ rest, (readRequest limits).run (seg.recvs ++ tail) =
      some (.error (.invalidInput "request head exceeds limit"), rest)) ↔
    ReadEndsInWindow limits seg.ends h := by
  refine ⟨fun ⟨rest, hr⟩ => ?_, fun ⟨n, hm, hl, hlt⟩ => ?_⟩
  · by_contra hn
    obtain ⟨buf, left, -, -, -, he⟩ := readRequest_found_run seg hf (admitted_iff.mpr hn) tail
    exact readRest_ne_headLimit (he.symm.trans hr)
  · refine readRequest_limit seg hm hl ?_ tail
    rw [findDoubleCrlf_take hf, if_neg (by omega)]

/-- A head is refused for its size exactly when it is longer than the limit. -/
def HeadLimitExact (limits : Limits) (stream : Bytes) (h : Nat) (seg : Segmentation stream) :
    Prop :=
  ∀ tail, (∃ rest, (readRequest limits).run (seg.recvs ++ tail) =
    some (.error (.invalidInput "request head exceeds limit"), rest)) ↔
      limits.maxHeaderBytes.toNat < h

/-- A request with nothing but its request line, in one read. -/
def lineStream : Bytes := utf8 "A B C\r\n\r\n".toList

def lineRead : Segmentation lineStream where
  reads := [lineStream]
  ne_nil := by decide
  length_le := by decide
  flatten := by decide

set_option maxRecDepth 10000 in
/-- A head of five bytes is accepted where the limit is four. -/
theorem not_headLimitExact : ¬ ∀ (limits : Limits) (stream : Bytes) (h : Nat)
    (seg : Segmentation stream), findDoubleCrlf stream = some h →
      HeadLimitExact limits stream h seg := by
  intro hx
  obtain ⟨rest, hr⟩ := (hx ⟨4, 0⟩ lineStream 5 lineRead (by decide) []).mpr (by decide)
  have : (readRequest ⟨4, 0⟩).run (lineRead.recvs ++ []) =
      some (.ok (some ⟨['A'], ['B'], ['C'], [], []⟩), []) := by decide
  exact absurd (this.symm.trans hr) (by simp)

theorem headLimitExact_iff (hf : findDoubleCrlf stream = some h) (seg : Segmentation stream) :
    HeadLimitExact limits stream h seg ↔
      (h ≤ limits.maxHeaderBytes.toNat ∧ ¬ ReadEndsInWindow limits seg.ends h) ∨
      (limits.maxHeaderBytes.toNat < h ∧ ReadEndsInWindow limits seg.ends h) := by
  have hiff (tail) := readRequest_headLimit_iff limits hf seg tail
  refine ⟨fun hx => ?_, fun h tail => ?_⟩
  · have := (hiff []).symm.trans (hx [])
    by_cases hl : limits.maxHeaderBytes.toNat < h
    · exact .inr ⟨hl, this.mpr hl⟩
    · exact .inl ⟨by omega, fun hw => hl (this.mp hw)⟩
  · rcases h with ⟨hl, hw⟩ | ⟨hl, hw⟩
    · exact (hiff tail).trans ⟨fun hw' => absurd hw' hw, fun hgt => by omega⟩
    · exact (hiff tail).trans ⟨fun _ => hl, fun _ => hw⟩

theorem headLimitExact_lineStream :
    HeadLimitExact ⟨4, 0⟩ lineStream 5 lineRead ↔
      (5 ≤ (4 : UInt64).toNat ∧ ¬ ReadEndsInWindow ⟨4, 0⟩ lineRead.ends 5) ∨
      ((4 : UInt64).toNat < 5 ∧ ReadEndsInWindow ⟨4, 0⟩ lineRead.ends 5) :=
  headLimitExact_iff (by decide) lineRead

end PsPayload.Http
