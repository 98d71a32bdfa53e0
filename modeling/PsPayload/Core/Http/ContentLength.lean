import PsPayload.Core.Http.Segmentation

/-!
# The length a request declares

`readRequest` reads the first `Content-Length` as a `usize`, takes 0 where
that fails, and does not look at the others. `bodyHonest_iff` says exactly
when the body of an accepted request is nevertheless the one that every
`Content-Length` of it declares.
-/

namespace PsPayload.Http

open Lib

/-! ## What a head declares -/

/-- The fields in the lines of a head, the request line aside. -/
def fieldsOf (head : Bytes) : List (Str × Str) :=
  (((fromUtf8 head).map (splitLines '\r' '\n')).getD []).tail.filterMap parseHeader

/-- A head that parses: UTF-8, with three parts or more in the request line
and a colon in each further line that is not empty. -/
def WellFormed (head : Bytes) : Prop :=
  ∃ text ∈ fromUtf8 head, ∃ line lines, splitLines '\r' '\n' text = line :: lines ∧
    3 ≤ (line.splitOn ' ').length ∧ ∀ l ∈ lines, l = [] ∨ ':' ∈ l

/-- The values of the `Content-Length` fields of a head. -/
def declaredLengths (head : Bytes) : List Str :=
  ((fieldsOf head).filter (named "content-length")).map (·.2)

/-- The length that the first of these values is taken for. -/
def readAs (values : List Str) : Nat :=
  ((values.head?.bind fun v => parseUsize (trim v)).getD 0).toNat

theorem parseHeader_isSome_iff {line : Str} : (parseHeader line).isSome ↔ ':' ∈ line := by
  rw [parseHeader, Option.isSome_map, ← not_iff_not, Option.not_isSome_iff_eq_none,
    splitOnce_eq_none_iff]

theorem parseHeaders_of_colon {lines : List Str} (h : ∀ l ∈ lines, l = [] ∨ ':' ∈ l) :
    parseHeaders lines = .ok (lines.filterMap parseHeader) := by
  induction lines with
  | nil => rfl
  | cons line lines ih =>
    rw [List.forall_mem_cons] at h
    rw [parseHeaders, ih h.2]
    by_cases hl : line = []
    · rw [if_pos hl, hl, List.filterMap_cons_none rfl]
    · obtain ⟨field, hf⟩ := Option.isSome_iff_exists.mp
        (parseHeader_isSome_iff.mpr (h.1.resolve_left hl))
      rw [if_neg hl, hf, List.filterMap_cons_some hf]
      rfl

theorem colon_of_parseHeaders {lines : List Str} {fields : List (Str × Str)}
    (h : parseHeaders lines = .ok fields) : ∀ l ∈ lines, l = [] ∨ ':' ∈ l := by
  induction lines generalizing fields with
  | nil => simp
  | cons line lines ih =>
    rw [parseHeaders] at h
    rw [List.forall_mem_cons]
    split at h
    · exact ⟨.inl ‹_›, ih h⟩
    · obtain ⟨field, hf, h⟩ := bind_ok h
      obtain ⟨fields', hfs, -⟩ := bind_ok h
      refine ⟨.inr (parseHeader_isSome_iff.mp ?_), ih hfs⟩
      rw [okOr_ok hf]
      rfl

/-- A head that parses has the fields of its lines. -/
theorem parseHead_of_wellFormed {bytes : Bytes} (h : WellFormed bytes) :
    ∃ head, parseHead bytes = .ok head ∧ head.headers = fieldsOf bytes := by
  obtain ⟨text, ht, line, lines, hs, hp, hc⟩ := h
  obtain ⟨m, t, v, rest, hm⟩ : ∃ m t v rest, line.splitOn ' ' = m :: t :: v :: rest := by
    match line.splitOn ' ', hp with
    | m :: t :: v :: rest, _ => exact ⟨m, t, v, rest, rfl⟩
  refine ⟨⟨m, t, v, lines.filterMap parseHeader⟩, ?_, ?_⟩
  · rw [parseHead, Option.mem_def.mp ht, okOr_some]
    simp only [bind, Except.bind, hs, List.getElem?_cons_zero, okOr_some, List.drop_one,
      List.tail_cons, parseHeaders_of_colon hc, hm]
    rfl
  · rw [fieldsOf, Option.mem_def.mp ht, Option.map_some, Option.getD_some, hs, List.tail_cons]

theorem wellFormed_of_parseHead {bytes : Bytes} {head : Head} (h : parseHead bytes = .ok head) :
    WellFormed bytes := by
  obtain ⟨text, ht, h⟩ := bind_ok h
  obtain ⟨line, hl, h⟩ := bind_ok h
  obtain ⟨method, -, h⟩ := bind_ok h
  obtain ⟨target, -, h⟩ := bind_ok h
  obtain ⟨version, hv, h⟩ := bind_ok h
  obtain ⟨headers, hh, -⟩ := bind_ok h
  have hl := okOr_ok hl
  have hv := okOr_ok hv
  cases hs : splitLines '\r' '\n' text with
  | nil => exact absurd hs (splitLines_ne_nil text)
  | cons line' lines =>
    rw [hs, List.getElem?_cons_zero] at hl
    cases hl
    rw [hs, List.drop_one, List.tail_cons] at hh
    refine ⟨text, okOr_ok ht, line, lines, hs, ?_, colon_of_parseHeaders hh⟩
    exact (List.getElem?_eq_some_iff.mp hv).1

theorem headers_of_parseHead {bytes : Bytes} {head : Head} (h : parseHead bytes = .ok head) :
    head.headers = fieldsOf bytes := by
  obtain ⟨head', h', hf⟩ := parseHead_of_wellFormed (wellFormed_of_parseHead h)
  obtain rfl : head = head' := Except.ok.inj (h.symm.trans h')
  exact hf

theorem contentLength_fieldsOf (head : Bytes) :
    (contentLength (fieldsOf head)).toNat = readAs (declaredLengths head) := by
  rw [readAs, declaredLengths, List.head?_map, List.head?_filter]
  cases hf : (fieldsOf head).find? (named "content-length") with
  | none => rw [contentLength_none hf]; rfl
  | some field => rw [contentLength_some hf]; rfl

/-! ## Which deliveries give a request -/

section Answer

variable {limits : Limits} {stream : Bytes} {h : Nat}

/-- A head that parses, and declares a body that is allowed. -/
theorem answer_of_wellFormed (hw : WellFormed (stream.take h))
    (hl : readAs (declaredLengths (stream.take h)) ≤ limits.maxBodyBytes.toNat) :
    ∃ req, answer limits stream h = .ok (some req) ∧
      (contentLength req.headers).toNat = readAs (declaredLengths (stream.take h)) := by
  obtain ⟨head, hp, hh⟩ := parseHead_of_wellFormed hw
  have hN : (contentLength head.headers).toNat = readAs (declaredLengths (stream.take h)) := by
    rw [hh, contentLength_fieldsOf]
  have hle : ¬ limits.maxBodyBytes < contentLength head.headers := by
    rw [UInt64.lt_iff_toNat_lt]
    omega
  exact ⟨_, answer_ok_iff.mpr ⟨head, hp, hle, rfl⟩, hN⟩

theorem wellFormed_of_answer {req : Request} (ha : answer limits stream h = .ok (some req)) :
    WellFormed (stream.take h) ∧
      readAs (declaredLengths (stream.take h)) ≤ limits.maxBodyBytes.toNat ∧
      (contentLength req.headers).toNat = readAs (declaredLengths (stream.take h)) := by
  obtain ⟨head, hp, hl, rfl⟩ := answer_ok_iff.mp ha
  have hN : (contentLength head.headers).toNat = readAs (declaredLengths (stream.take h)) := by
    rw [headers_of_parseHead hp, contentLength_fieldsOf]
  rw [UInt64.lt_iff_toNat_lt] at hl
  exact ⟨wellFormed_of_parseHead hp, by omega, hN⟩

end Answer

/-- What comes after the reads: nothing so far, the close of the peer, or a
failing `recv`. -/
inductive Ending where
  | waiting
  | closed
  | failed (e : Errno)
  deriving DecidableEq, Repr

def Ending.recvs : Ending → List Recv
  | .waiting => []
  | .closed => [eof]
  | .failed e => [.error e]

variable {limits : Limits} {stream : Bytes} {h : Nat}

theorem readRequest_ne_ok_of_none (hf : findDoubleCrlf stream = none) (seg : Segmentation stream)
    (ending : Ending) (req : Request) (rest : List Recv) :
    (readRequest limits).run (seg.recvs ++ ending.recvs) ≠ some (.ok (some req), rest) := by
  by_cases hl : limits.maxHeaderBytes.toNat < stream.length
  · obtain ⟨rest', he⟩ := readRequest_limit seg seg.length_mem_ends hl
      (by rwa [List.take_length]) ending.recvs
    simp [he]
  · obtain ⟨hw, hc, hfail⟩ := readRequest_pass limits seg hf (by omega)
    match ending with
    | .waiting =>
      rw [Ending.recvs, List.append_nil, hw]
      simp
    | .closed =>
      rw [Ending.recvs, hc]
      split <;> simp
    | .failed e =>
      rw [Ending.recvs, hfail]
      simp

theorem readRequest_ok_iff (seg : Segmentation stream) (ending : Ending) (req : Request) :
    (∃ rest, (readRequest limits).run (seg.recvs ++ ending.recvs) = some (.ok (some req), rest)) ↔
      ∃ h, findDoubleCrlf stream = some h ∧ ¬ ReadEndsInWindow limits seg.ends h ∧
        answer limits stream h = .ok (some req) ∧
        (h + 4 + (contentLength req.headers).toNat ≤ stream.length ∨ ending = .closed) := by
  refine ⟨fun ⟨rest, hr⟩ => ?_, fun ⟨h, hf, hw, ha, hc⟩ => ?_⟩
  · cases hf : findDoubleCrlf stream with
    | none => exact absurd hr (readRequest_ne_ok_of_none hf seg ending req rest)
    | some h =>
      have hw : ¬ ReadEndsInWindow limits seg.ends h := by
        intro hw
        obtain ⟨rest', he⟩ := (readRequest_headLimit_iff limits hf seg ending.recvs).mpr hw
        simp [he] at hr
      have hadm := admitted_iff.mpr hw
      -- a request whose body is still incomplete is answered at the end only
      by_cases hs : ∃ req', answer limits stream h = .ok (some req') ∧
          stream.length < h + 4 + (contentLength req'.headers).toNat
      · obtain ⟨req', ha, hs⟩ := hs
        obtain ⟨hn, hfail⟩ := readRequest_short seg hf hadm ha hs
        match ending with
        | .waiting => simp [Ending.recvs, hn] at hr
        | .failed e => simp [Ending.recvs, hfail] at hr
        | .closed =>
          obtain ⟨rest', he⟩ := readRequest_found seg hf hadm _ (.inr ⟨[], rfl⟩)
          have := (Prod.mk.inj (Option.some.inj (he.symm.trans hr))).1
          exact ⟨h, rfl, hw, this, .inr rfl⟩
      · obtain ⟨rest', he⟩ := readRequest_found seg hf hadm ending.recvs
          (.inl fun req' ha => by
            by_contra hlt
            exact hs ⟨req', ha, by omega⟩)
        have ha := (Prod.mk.inj (Option.some.inj (he.symm.trans hr))).1
        refine ⟨h, rfl, hw, ha, .inl ?_⟩
        by_contra hlt
        exact hs ⟨req, ha, by omega⟩
  · rw [← ha]
    refine readRequest_found seg hf (admitted_iff.mpr hw) _ (hc.imp (fun hl req' ha' => ?_) ?_)
    · obtain rfl : req = req' := Option.some.inj (Except.ok.inj (ha.symm.trans ha'))
      exact hl
    · rintro rfl
      exact ⟨[], rfl⟩

/-! ## When the body is the declared one -/

/-- A declared value that the body of a request honours, `after` being all
that follows the head. -/
def Honours (limits : Limits) (after : Bytes) (ending : Ending) (declared : Str) (body : Bytes) :
    Prop :=
  IsNumeral declared ∧ value declared ≤ limits.maxBodyBytes.toNat ∧
    (value declared ≤ after.length ∧ body = after.take (value declared) ∨
      after.length < value declared ∧ ending = .closed ∧ body = after)

/-- A request that is accepted honours every `Content-Length` it carries, and no two
of them differ. -/
def BodyHonest (limits : Limits) (stream : Bytes) (seg : Segmentation stream) (ending : Ending) :
    Prop :=
  ∀ req rest, (readRequest limits).run (seg.recvs ++ ending.recvs) =
      some (.ok (some req), rest) →
    ∃ h, findDoubleCrlf stream = some h ∧
      (∀ field ∈ req.headers, named "content-length" field →
        Honours limits (stream.drop (h + 4)) ending field.2 req.body) ∧
      ∀ field ∈ req.headers, named "content-length" field →
        ∀ field' ∈ req.headers, named "content-length" field' → value field.2 = value field'.2

/-- What a delivery has to declare, where it is not refused or still waited for
whatever it declares. -/
def LengthsAgree (limits : Limits) (stream : Bytes) (ends : List Nat) (ending : Ending) : Prop :=
  ∀ h, findDoubleCrlf stream = some h → ¬ ReadEndsInWindow limits ends h →
    WellFormed (stream.take h) →
    readAs (declaredLengths (stream.take h)) ≤ limits.maxBodyBytes.toNat →
    (h + 4 + readAs (declaredLengths (stream.take h)) ≤ stream.length ∨ ending = .closed) →
      (∀ v ∈ declaredLengths (stream.take h),
        IsNumeral v ∧ value v ≤ limits.maxBodyBytes.toNat) ∧
      ∀ v ∈ declaredLengths (stream.take h), ∀ w ∈ declaredLengths (stream.take h),
        value v = value w

theorem mem_declaredLengths {head : Bytes} {v : Str} :
    v ∈ declaredLengths head ↔
      ∃ field ∈ fieldsOf head, named "content-length" field ∧ field.2 = v := by
  simp only [declaredLengths, List.mem_map, List.mem_filter, and_assoc]

section Declared

variable {after : Bytes} {ending : Ending} {v : Str}

/-- The bytes that a value asks for honour it, where they are all there or the peer has
closed. -/
theorem honours_take (hn : IsNumeral v) (hl : value v ≤ limits.maxBodyBytes.toNat)
    (hc : value v ≤ after.length ∨ ending = .closed) :
    Honours limits after ending v (after.take (value v)) := by
  refine ⟨hn, hl, ?_⟩
  by_cases hle : value v ≤ after.length
  · exact .inl ⟨hle, rfl⟩
  · exact .inr ⟨by omega, hc.resolve_left hle, List.take_of_length_le (by omega)⟩

theorem readAs_cons {vs : List Str} (hn : IsNumeral v) (hl : value v < UInt64.size) :
    readAs (v :: vs) = value v := by
  rw [readAs, List.head?_cons, Option.bind_some, hn.trimmed.trim_eq, parseUsize_eq hn,
    if_pos hl, Option.getD_some]
  exact Nat.mod_eq_of_lt hl

end Declared

/-- A request that declares `2 ^ 64` bytes and has none. -/
def oversizedStream : Bytes := utf8 "A B C\r\nContent-Length:18446744073709551616\r\n\r\n".toList

def oversizedRead : Segmentation oversizedStream where
  reads := [oversizedStream]
  ne_nil := by decide
  length_le := by decide
  flatten := by decide

set_option maxRecDepth 10000 in
/-- It is accepted with an empty body, where at most 100 bytes are allowed. -/
theorem not_bodyHonest : ¬ ∀ (limits : Limits) (stream : Bytes) (seg : Segmentation stream)
    (ending : Ending), BodyHonest limits stream seg ending := by
  intro hb
  have hr : (readRequest ⟨100, 100⟩).run (oversizedRead.recvs ++ Ending.closed.recvs) =
      some (.ok (some ⟨['A'], ['B'], ['C'],
        [("Content-Length".toList, "18446744073709551616".toList)], []⟩), [eof]) := by decide
  obtain ⟨h, -, hall, -⟩ := hb ⟨100, 100⟩ oversizedStream oversizedRead .closed _ _ hr
  have := (hall _ (List.mem_singleton_self _) (by decide)).2.1
  exact absurd this (by decide)

theorem bodyHonest_iff (limits : Limits) (stream : Bytes) (seg : Segmentation stream)
    (ending : Ending) :
    BodyHonest limits stream seg ending ↔ LengthsAgree limits stream seg.ends ending := by
  refine ⟨fun hb h hf hw hwf hl hc => ?_, fun ha req rest hr => ?_⟩
  · obtain ⟨head, hp, hh⟩ := parseHead_of_wellFormed hwf
    have hN : (contentLength head.headers).toNat = readAs (declaredLengths (stream.take h)) := by
      rw [hh, contentLength_fieldsOf]
    rw [← hN] at hl hc
    have hle : ¬ limits.maxBodyBytes < contentLength head.headers := by
      rw [UInt64.lt_iff_toNat_lt]
      omega
    have ha := answer_ok_iff.mpr ⟨head, hp, hle, rfl⟩
    obtain ⟨rest, hr⟩ := (readRequest_ok_iff seg ending _).mpr ⟨h, hf, hw, ha, hc⟩
    obtain ⟨h', -, hall, heq⟩ := hb _ _ hr
    refine ⟨fun v hv => ?_, fun v hv w hw => ?_⟩
    · obtain ⟨field, hm, hn, rfl⟩ := mem_declaredLengths.mp hv
      obtain ⟨hnum, hle, -⟩ := hall field (hh ▸ hm) hn
      exact ⟨hnum, hle⟩
    · obtain ⟨field, hm, hn, rfl⟩ := mem_declaredLengths.mp hv
      obtain ⟨field', hm', hn', rfl⟩ := mem_declaredLengths.mp hw
      exact heq field (hh ▸ hm) hn field' (hh ▸ hm') hn'
  · obtain ⟨h, hf, hw, hans, hc⟩ := (readRequest_ok_iff seg ending req).mp ⟨rest, hr⟩
    obtain ⟨head, hp, hl, rfl⟩ := answer_ok_iff.mp hans
    have hh := headers_of_parseHead hp
    have hN : (contentLength head.headers).toNat = readAs (declaredLengths (stream.take h)) := by
      rw [hh, contentLength_fieldsOf]
    replace hc : h + 4 + (contentLength head.headers).toNat ≤ stream.length ∨ ending = .closed := hc
    rw [UInt64.lt_iff_toNat_lt, hN] at hl
    obtain ⟨hnum, hsame⟩ := ha h hf hw (wellFormed_of_parseHead hp) (by omega) (hN ▸ hc)
    have hdecl : ∀ field ∈ head.headers, named "content-length" field →
        field.2 ∈ declaredLengths (stream.take h) := fun field hm hn =>
      mem_declaredLengths.mpr ⟨field, hh ▸ hm, hn, rfl⟩
    refine ⟨h, hf, fun field hm hn => ?_, fun field hm hn field' hm' hn' =>
      hsame _ (hdecl field hm hn) _ (hdecl field' hm' hn')⟩
    have hv := hdecl field hm hn
    show Honours limits _ ending field.2 (List.take (contentLength head.headers).toNat _)
    -- the body is read by the first value
    cases hd : declaredLengths (stream.take h) with
    | nil => simp [hd] at hv
    | cons v vs =>
      have hm : v ∈ declaredLengths (stream.take h) := by simp [hd]
      have hlt : value v < UInt64.size :=
        Nat.lt_of_le_of_lt (hnum v hm).2 limits.maxBodyBytes.toNat_lt
      have hread : readAs (v :: vs) = value field.2 := by
        rw [readAs_cons (hnum v hm).1 hlt, hsame v hm field.2 hv]
      rw [hN, hd, hread]
      rw [hN, hd, hread] at hc
      refine honours_take (hnum _ hv).1 (hnum _ hv).2 (hc.imp_left fun hc => ?_)
      rw [List.length_drop]
      omega

end PsPayload.Http
