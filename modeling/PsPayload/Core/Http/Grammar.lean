import PsPayload.Core.Http.ContentLength

/-!
# Which heads are accepted

`parseHead` looks at the first three parts of the request line and at the
colons of the further lines, and takes what it finds. A head that it accepts
is a head of the grammar (`Grammatical`) exactly where it also keeps the
clauses that `parseHead` leaves out (`Strict`, `grammatical_iff`);
`onlyWellFormed_iff` says for which deliveries that makes a difference.
-/

namespace PsPayload.Http

open Lib

/-- The one version that the server speaks. -/
def http11 : Str := "HTTP/1.1".toList

/-- A head of the grammar: a method, a target and the version, with a space
between them and none in them, and lines with a name before their first colon. -/
def Grammatical (head : Bytes) : Prop :=
  ∃ text ∈ fromUtf8 head, ∃ method target lines,
    splitLines '\r' '\n' text = (method ++ ' ' :: (target ++ ' ' :: http11)) :: lines ∧
    (method ≠ [] ∧ ' ' ∉ method) ∧ (target ≠ [] ∧ ' ' ∉ target) ∧
    ∀ line ∈ lines, ∃ name value, line = name ++ ':' :: value ∧ name ≠ [] ∧ ':' ∉ name

/-- What `parseHead` does not look at: that no part of the request line is
empty and none follows the third, which is the version, and that no further
line begins with its colon. -/
def Strict (head : Bytes) : Prop :=
  ∀ text ∈ fromUtf8 head, ∀ line lines, splitLines '\r' '\n' text = line :: lines →
    (line.splitOn ' ').length ≤ 3 ∧ [] ∉ line.splitOn ' ' ∧
    (line.splitOn ' ')[2]? = some http11 ∧ ∀ l ∈ lines, ∃ c ∈ l.head?, c ≠ ':'

/-- A request is accepted with a head of the grammar only, and every other
head that is there gives an error. -/
def OnlyWellFormed (limits : Limits) (stream : Bytes) (seg : Segmentation stream)
    (ending : Ending) : Prop :=
  (∀ req rest, (readRequest limits).run (seg.recvs ++ ending.recvs) =
      some (.ok (some req), rest) →
    ∃ h, findDoubleCrlf stream = some h ∧ Grammatical (stream.take h)) ∧
  ∀ h, findDoubleCrlf stream = some h → ¬ Grammatical (stream.take h) →
    ∃ e rest, (readRequest limits).run (seg.recvs ++ ending.recvs) = some (.error e, rest)

/-- A head that nothing refuses, neither its size, nor its parse, nor the length
it declares, nor a failing `recv` before its body is there, is strict. -/
def StrictUnlessRefused (limits : Limits) (stream : Bytes) (ends : List Nat) (ending : Ending) :
    Prop :=
  ∀ h, findDoubleCrlf stream = some h → ¬ ReadEndsInWindow limits ends h →
    WellFormed (stream.take h) →
    readAs (declaredLengths (stream.take h)) ≤ limits.maxBodyBytes.toNat →
    (h + 4 + readAs (declaredLengths (stream.take h)) ≤ stream.length ∨
      ending = .waiting ∨ ending = .closed) →
    Strict (stream.take h)

/-! ## The grammar and the parser -/

section Head

variable {head : Bytes}

theorem splitOn_threeParts {method target version : Str} (hm : ' ' ∉ method) (ht : ' ' ∉ target)
    (hv : ' ' ∉ version) :
    (method ++ ' ' :: (target ++ ' ' :: version)).splitOn ' ' = [method, target, version] := by
  rw [List.splitOn_append_cons_self_of_not_mem hm, List.splitOn_append_cons_self_of_not_mem ht,
    List.splitOn_eq_singleton hv]

theorem space_notMem_http11 : ' ' ∉ http11 := by decide

theorem http11_ne_nil : http11 ≠ [] := by decide

theorem Grammatical.wellFormed (hg : Grammatical head) : WellFormed head := by
  obtain ⟨text, ht, method, target, lines, hs, hm, hta, hl⟩ := hg
  refine ⟨text, ht, _, lines, hs, ?_, fun l hmem => .inr ?_⟩
  · rw [splitOn_threeParts hm.2 hta.2 space_notMem_http11]
    exact Nat.le_refl 3
  · obtain ⟨name, value, rfl, -, -⟩ := hl l hmem
    simp

theorem Grammatical.strict (hg : Grammatical head) : Strict head := by
  obtain ⟨text, ht, method, target, lines, hs, hm, hta, hl⟩ := hg
  intro text' ht' line lines' hs'
  obtain rfl : text = text' := Option.some.inj (ht.symm.trans ht')
  obtain ⟨rfl, rfl⟩ := List.cons.inj (hs.symm.trans hs')
  rw [splitOn_threeParts hm.2 hta.2 space_notMem_http11]
  refine ⟨Nat.le_refl 3, ?_, rfl, fun l hmem => ?_⟩
  · simp only [List.mem_cons, List.not_mem_nil, or_false, not_or]
    exact ⟨hm.1.symm, hta.1.symm, http11_ne_nil.symm⟩
  · obtain ⟨name, value, rfl, hne, hc⟩ := hl l hmem
    obtain ⟨c, name, rfl⟩ := List.exists_cons_of_ne_nil hne
    refine ⟨c, rfl, ?_⟩
    rintro rfl
    simp at hc

/-- The line at its first colon. -/
theorem name_of_colon {line : Str} (hc : line = [] ∨ ':' ∈ line)
    (hf : ∃ c ∈ line.head?, c ≠ ':') :
    ∃ name value, line = name ++ ':' :: value ∧ name ≠ [] ∧ ':' ∉ name := by
  obtain ⟨c, hcl, hne⟩ := hf
  have hmem : ':' ∈ line := hc.resolve_left (by rintro rfl; cases hcl)
  obtain ⟨name, value, rfl, hn⟩ := List.eq_append_cons_of_mem hmem
  refine ⟨name, value, rfl, ?_, hn⟩
  rintro rfl
  exact hne (Option.some.inj hcl).symm

/-- The grammar is what the parser looks at and what it leaves out. -/
theorem grammatical_iff : Grammatical head ↔ WellFormed head ∧ Strict head := by
  refine ⟨fun hg => ⟨hg.wellFormed, hg.strict⟩, fun ⟨hw, hst⟩ => ?_⟩
  obtain ⟨text, ht, line, lines, hs, hp, hc⟩ := hw
  obtain ⟨hle, hnil, hv, hf⟩ := hst text ht line lines hs
  obtain ⟨method, target, version, hparts⟩ : ∃ m t v, line.splitOn ' ' = [m, t, v] :=
    List.length_eq_three.mp (by omega)
  have hspace : ∀ part ∈ line.splitOn ' ', ' ' ∉ part := fun _ => not_mem_of_mem_splitOn
  have hline : line = method ++ ' ' :: (target ++ ' ' :: version) := by
    have hline := congrArg [' '].intercalate hparts
    rw [List.intercalate_splitOn] at hline
    rw [hline]
    simp [List.intercalate_cons_cons]
  rw [hparts] at hnil hv hspace
  obtain rfl : version = http11 := Option.some.inj hv
  simp only [List.mem_cons, List.not_mem_nil, or_false, not_or] at hnil
  refine ⟨text, ht, method, target, lines, hline ▸ hs, ⟨Ne.symm hnil.1, hspace method (by simp)⟩,
    ⟨Ne.symm hnil.2.1, hspace target (by simp)⟩, fun l hl => ?_⟩
  exact name_of_colon (hc l hl) (hf l hl)

end Head

/-! ## Which deliveries are answered as the grammar has it -/

section Delivery

variable {limits : Limits} {stream : Bytes} {ending : Ending} {h : Nat}

/-- What is not answered with a request is answered with an error. -/
theorem answer_error (hn : ∀ req, answer limits stream h ≠ .ok (some req)) :
    ∃ e, answer limits stream h = .error e := by
  cases hp : parseHead (stream.take h) with
  | error e => exact ⟨e, by rw [answer, hp]; rfl⟩
  | ok head =>
    by_cases hl : limits.maxBodyBytes < contentLength head.headers
    · refine ⟨.invalidInput "request body exceeds limit", ?_⟩
      rw [answer, hp]
      exact if_pos hl
    · exact absurd (answer_ok_iff.mpr ⟨head, hp, hl, rfl⟩) (hn _)

/-- Which heads that are there give an error. -/
theorem readRequest_error_iff (seg : Segmentation stream) (ending : Ending)
    (hf : findDoubleCrlf stream = some h) :
    (∃ e rest, (readRequest limits).run (seg.recvs ++ ending.recvs) = some (.error e, rest)) ↔
      ReadEndsInWindow limits seg.ends h ∨ ∀ req, answer limits stream h = .ok (some req) →
        stream.length < h + 4 + (contentLength req.headers).toNat ∧ ∃ e, ending = .failed e := by
  by_cases hw : ReadEndsInWindow limits seg.ends h
  · obtain ⟨rest, he⟩ := (readRequest_headLimit_iff limits hf seg ending.recvs).mpr hw
    exact ⟨fun _ => .inl hw, fun _ => ⟨_, rest, he⟩⟩
  have hadm := admitted_iff.mpr hw
  by_cases hn : ∀ req, answer limits stream h ≠ .ok (some req)
  · obtain ⟨e, ha⟩ := answer_error hn
    obtain ⟨rest, he⟩ := readRequest_found seg hf hadm ending.recvs
      (.inl fun req hr => absurd hr (hn req))
    exact ⟨fun _ => .inr fun req hr => absurd hr (hn req), fun _ => ⟨e, rest, by rw [he, ha]⟩⟩
  obtain ⟨req, ha⟩ := not_forall_not.mp hn
  by_cases hc : h + 4 + (contentLength req.headers).toNat ≤ stream.length ∨ ending = .closed
  · obtain ⟨rest, he⟩ := (readRequest_ok_iff seg ending req).mpr ⟨h, hf, hw, ha, hc⟩
    refine ⟨fun ⟨_, _, he'⟩ => by simp [he] at he', fun hr => ?_⟩
    obtain ⟨hs, e, rfl⟩ := hr.resolve_left hw req ha
    exact absurd hs (by simpa using hc)
  · have hs : stream.length < h + 4 + (contentLength req.headers).toNat := by omega
    obtain ⟨hwait, hfail⟩ := readRequest_short seg hf hadm ha hs
    cases ending with
    | waiting =>
      refine ⟨fun ⟨_, _, he⟩ => ?_, fun hr => ?_⟩
      · simp [Ending.recvs, hwait] at he
      · obtain ⟨-, e, he⟩ := hr.resolve_left hw req ha
        cases he
    | closed => exact absurd (.inr rfl) hc
    | failed e =>
      refine ⟨fun _ => .inr fun req' ha' => ?_, fun _ => ⟨.os e, [], hfail e []⟩⟩
      obtain rfl : req = req' := Option.some.inj (Except.ok.inj (ha.symm.trans ha'))
      exact ⟨hs, e, rfl⟩

end Delivery

/-- Two spaces in the request line. -/
def spacesStream : Bytes := utf8 "GET  /x HTTP/1.1\r\n\r\n".toList

def spacesRead : Segmentation spacesStream where
  reads := [spacesStream]
  ne_nil := by decide
  length_le := by decide
  flatten := by decide

set_option maxRecDepth 10000 in
/-- They make a request for nothing, in version `/x`. -/
theorem not_onlyWellFormed : ¬ ∀ (limits : Limits) (stream : Bytes) (seg : Segmentation stream)
    (ending : Ending), OnlyWellFormed limits stream seg ending := by
  intro ho
  have hr : (readRequest ⟨100, 100⟩).run (spacesRead.recvs ++ Ending.waiting.recvs) =
      some (.ok (some ⟨"GET".toList, [], "/x".toList, [], []⟩), []) := by decide
  obtain ⟨h, hf, hg⟩ := (ho ⟨100, 100⟩ spacesStream spacesRead .waiting).1 _ _ hr
  have h16 : findDoubleCrlf spacesStream = some 16 := by decide
  obtain rfl : 16 = h := Option.some.inj (h16.symm.trans hf)
  obtain ⟨-, hnil, -⟩ := hg.strict "GET  /x HTTP/1.1".toList (by decide)
    "GET  /x HTTP/1.1".toList [] (by decide)
  exact hnil (by decide)

/-- The heads that are accepted are those of the grammar where the heads that
are not refused are strict. -/
theorem onlyWellFormed_iff (limits : Limits) (stream : Bytes) (seg : Segmentation stream)
    (ending : Ending) :
    OnlyWellFormed limits stream seg ending ↔
      StrictUnlessRefused limits stream seg.ends ending := by
  refine ⟨fun ⟨_, ho⟩ h hf hw hwf hl hc => ?_,
    fun hst => ⟨fun req rest hr => ?_, fun h hf hg => ?_⟩⟩
  · by_contra hst
    have hg : ¬ Grammatical (stream.take h) := fun hg => hst hg.strict
    obtain ⟨req, ha, hN⟩ := answer_of_wellFormed hwf hl
    have he := (readRequest_error_iff seg ending hf).mp (ho h hf hg)
    obtain ⟨hs, e, rfl⟩ := he.resolve_left hw req ha
    rw [hN] at hs
    simp only [reduceCtorEq, or_false] at hc
    omega
  · obtain ⟨h, hf, hw, ha, hc⟩ := (readRequest_ok_iff seg ending req).mp ⟨rest, hr⟩
    obtain ⟨hwf, hl, hN⟩ := wellFormed_of_answer ha
    refine ⟨h, hf, grammatical_iff.mpr ⟨hwf, hst h hf hw hwf hl ?_⟩⟩
    rw [← hN]
    exact hc.imp_right .inr
  · rw [readRequest_error_iff seg ending hf]
    by_contra hn
    obtain ⟨hw, hn⟩ := not_or.mp hn
    obtain ⟨req, hn⟩ := not_forall.mp hn
    obtain ⟨ha, hn⟩ := Classical.not_imp.mp hn
    obtain ⟨hwf, hl, hN⟩ := wellFormed_of_answer ha
    refine hg (grammatical_iff.mpr ⟨hwf, hst h hf hw hwf hl ?_⟩)
    rw [← hN]
    cases ending with
    | waiting => exact .inr (.inl rfl)
    | closed => exact .inr (.inr rfl)
    | failed e =>
      refine .inl ?_
      by_contra hs
      exact hn ⟨by omega, e, rfl⟩

end PsPayload.Http
