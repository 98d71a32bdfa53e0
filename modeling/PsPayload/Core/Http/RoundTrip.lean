import PsPayload.Core.Http.ReadRequest

/-!
# Parsing undoes serialising

`serialise` writes a request in the form of the protocol, and `Serialisable`
says which requests that form can carry. `readRequest_serialise`: whatever the
cuts, `readRequest` gives back such a request, with everything that follows it
left out.
-/

namespace PsPayload.Http

open Lib

def requestLine (req : Request) : Str := req.method ++ ' ' :: req.target ++ ' ' :: req.version

/-- The head, with the blank line that ends it. -/
def serialiseHead (req : Request) : Bytes :=
  utf8 (requestLine req ++ crlf ++ (req.headers.flatMap fun field => headerLine field ++ crlf) ++
    crlf)

def serialise (req : Request) : Bytes := serialiseHead req ++ req.body

/-- A request that its serialisation can carry, within the limits. -/
structure Serialisable (limits : Limits) (req : Request) : Prop where
  token : ∀ s ∈ [req.method, req.target, req.version],
    s ≠ [] ∧ ' ' ∉ s ∧ '\r' ∉ s ∧ '\n' ∉ s
  name : ∀ field ∈ req.headers,
    Trimmed field.1 ∧ ':' ∉ field.1 ∧ '\r' ∉ field.1 ∧ '\n' ∉ field.1
  value : ∀ field ∈ req.headers, Trimmed field.2 ∧ '\r' ∉ field.2 ∧ '\n' ∉ field.2
  length_eq : ∀ field ∈ req.headers.find? (named "content-length"),
    field.2 = decimal req.body.length
  length_isSome : req.body ≠ [] → (req.headers.find? (named "content-length")).isSome
  head_le : (serialiseHead req).length ≤ limits.maxHeaderBytes.toNat
  body_le : req.body.length ≤ limits.maxBodyBytes.toNat

/-! ## Lines -/

theorem no_crlf {s : Str} (h : '\r' ∉ s) : ¬ ['\r', '\n'] <:+: s :=
  fun hi => h (hi.subset (by simp))

theorem parseHeader_headerLine {field : Str × Str} (hc : ':' ∉ field.1) (hn : Trimmed field.1)
    (hv : Trimmed field.2) : parseHeader (headerLine field) = some field := by
  rw [parseHeader, headerLine, splitOnce_append hc, Option.map_some]
  simp only
  rw [hn.trim_eq, trim_cons (by decide), hv.trim_eq]

theorem parseHeaders_map_headerLine {fields : List (Str × Str)}
    (h : ∀ field ∈ fields, parseHeader (headerLine field) = some field) :
    parseHeaders (fields.map headerLine) = .ok fields := by
  induction fields with
  | nil => rfl
  | cons field fields ih =>
    rw [List.forall_mem_cons] at h
    have hl : headerLine field ≠ [] := by simp [headerLine]
    rw [List.map_cons, parseHeaders, if_neg hl, h.1, ih h.2]
    rfl

theorem splitOn_requestLine {req : Request} (hm : ' ' ∉ req.method) (ht : ' ' ∉ req.target)
    (hv : ' ' ∉ req.version) :
    (requestLine req).splitOn ' ' = [req.method, req.target, req.version] := by
  rw [requestLine, List.append_assoc, List.cons_append, List.splitOn_append_cons_self,
    List.splitOn_append_cons_self, List.splitOn_eq_singleton hm, List.splitOn_eq_singleton ht,
    List.splitOn_eq_singleton hv]
  rfl

/-- The lines of the head. -/
def headLines (req : Request) : List Str := requestLine req :: req.headers.map headerLine

theorem serialiseHead_eq (req : Request) :
    serialiseHead req = utf8 (joinLines '\r' '\n' (headLines req)) ++ [13, 10, 13, 10] := by
  have : requestLine req ++ crlf ++ (req.headers.flatMap fun field => headerLine field ++ crlf) =
      joinLines '\r' '\n' (headLines req) ++ ['\r', '\n'] := by
    rw [headLines, ← flatMap_ended, List.flatMap_cons, List.flatMap_map]
    rfl
  rw [serialiseHead, this, List.append_assoc, utf8_append]
  rfl

section Serialisable

variable {limits : Limits} {req : Request}

theorem Serialisable.line_ne_nil (_hs : Serialisable limits req) : ∀ l ∈ headLines req, l ≠ [] := by
  rw [headLines, List.forall_mem_cons, List.forall_mem_map]
  exact ⟨by simp [requestLine], fun field _ => by simp [headerLine]⟩

theorem Serialisable.line (hs : Serialisable limits req) :
    ∀ l ∈ headLines req, ¬ ['\r', '\n'] <:+: l := by
  have ht := hs.token
  simp only [List.forall_mem_cons] at ht
  rw [headLines, List.forall_mem_cons, List.forall_mem_map]
  refine ⟨no_crlf ?_, fun field hf => no_crlf ?_⟩
  · simp [requestLine, ht.1, ht.2.1, ht.2.2.1]
  · simp [headerLine, hs.name field hf, hs.value field hf]

theorem findDoubleCrlf_serialise (hs : Serialisable limits req) (extra : Bytes) :
    findDoubleCrlf (serialise req ++ extra) =
      some (utf8 (joinLines '\r' '\n' (headLines req))).length := by
  rw [serialise, serialiseHead_eq, List.append_assoc]
  exact findSlice_utf8_head (by decide) (by decide) (by decide) hs.line_ne_nil hs.line _

theorem parseHead_serialise (hs : Serialisable limits req) :
    parseHead (utf8 (joinLines '\r' '\n' (headLines req))) =
      .ok { method := req.method, target := req.target, version := req.version,
            headers := req.headers } := by
  have ht := hs.token
  simp only [List.forall_mem_cons] at ht
  have hp := parseHeaders_map_headerLine fun field hf =>
    parseHeader_headerLine (hs.name field hf).2.1 (hs.name field hf).1 (hs.value field hf).1
  rw [parseHead, fromUtf8_utf8, headLines, okOr_some]
  simp only [bind, Except.bind]
  rw [splitLines_joinLines_self (by decide) hs.line]
  simp only [List.getElem?_cons_zero, okOr_some, List.drop_one, List.tail_cons, hp]
  rw [splitOn_requestLine ht.1.2.1 ht.2.1.2.1 ht.2.2.1.2.1]
  rfl

theorem contentLength_serialise (hs : Serialisable limits req) :
    (contentLength req.headers).toNat = req.body.length := by
  have hb := hs.body_le
  have hlt : req.body.length < UInt64.size := Nat.lt_of_le_of_lt hb limits.maxBodyBytes.toNat_lt
  cases hf : req.headers.find? (named "content-length") with
  | none =>
    have hb : req.body = [] := by
      by_contra hb
      have := hs.length_isSome hb
      simp [hf] at this
    rw [contentLength_none hf, hb]
    rfl
  | some field =>
    have ht := (hs.value field (List.mem_of_find?_eq_some hf)).1.trim_eq
    rw [contentLength_some hf, ht, hs.length_eq field hf, parseUsize_decimal hlt, Option.getD_some]
    exact Nat.mod_eq_of_lt hlt

/-- Whatever follows the request, and however all of it is cut, the request
is read back. -/
theorem readRequest_serialise (hs : Serialisable limits req) (extra : Bytes)
    (seg : Segmentation (serialise req ++ extra)) (tail : List Recv) :
    ∃ rest, (readRequest limits).run (seg.recvs ++ tail) = some (.ok (some req), rest) := by
  have hf := findDoubleCrlf_serialise hs extra
  have hle := hs.head_le
  rw [serialiseHead_eq, List.length_append] at hle
  have ht : (serialise req ++ extra).take (utf8 (joinLines '\r' '\n' (headLines req))).length =
      utf8 (joinLines '\r' '\n' (headLines req)) := by
    rw [serialise, serialiseHead_eq, List.append_assoc, List.append_assoc, List.take_left]
  have hd : (serialise req ++ extra).drop
      ((utf8 (joinLines '\r' '\n' (headLines req))).length + 4) = req.body ++ extra := by
    rw [serialise, serialiseHead_eq, List.append_assoc]
    exact List.drop_left' (List.length_append ..)
  have hl : ¬ limits.maxBodyBytes < contentLength req.headers := by
    have := hs.body_le
    rw [UInt64.lt_iff_toNat_lt, contentLength_serialise hs]
    omega
  have ha : answer limits (serialise req ++ extra)
      (utf8 (joinLines '\r' '\n' (headLines req))).length = .ok (some req) := by
    refine answer_ok_iff.mpr ⟨_, ht ▸ parseHead_serialise hs, hl, ?_⟩
    rw [hd, contentLength_serialise hs, List.take_left]
  obtain ⟨rest, he⟩ := readRequest_found seg hf (admitted_of_le _ hle) tail (.inl fun req' ha' => by
      obtain rfl : req = req' := Option.some.inj (Except.ok.inj (ha.symm.trans ha'))
      rw [contentLength_serialise hs, serialise, serialiseHead_eq]
      simp
      omega)
  exact ⟨rest, he.trans (by rw [ha])⟩

end Serialisable

/-- A request whose body holds a blank line of its own. -/
def postRequest : Request where
  method := "POST".toList
  target := "/a?b=1".toList
  version := "HTTP/1.1".toList
  headers := [("Host".toList, "ps5".toList), ("content-LENGTH".toList, "6".toList)]
  body := [13, 10, 13, 10, 65, 66]

/-- `postRequest` and two bytes more, cut within the blank line. -/
def postReads : Segmentation (serialise postRequest ++ [0, 1]) where
  reads := [(serialise postRequest).take 53, (serialise postRequest).drop 53, [0, 1]]
  ne_nil := by decide
  length_le := by decide
  flatten := by decide

theorem readRequest_serialise_postRequest :
    ∃ rest, (readRequest ⟨54, 6⟩).run (postReads.recvs ++ [eof]) =
      some (.ok (some postRequest), rest) :=
  readRequest_serialise
    { token := by decide
      name := by decide
      value := by decide
      length_eq := by decide
      length_isSome := by decide
      head_le := by decide
      body_le := by decide } [0, 1] postReads [eof]

end PsPayload.Http
