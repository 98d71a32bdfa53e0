import PsPayload.Core.Http.Encode

/-!
# The content type of a response

`text`, `html` and `json` replace the body and append a `Content-Type` header.
`lastDecides_iff` says for which builder chains the head still has one content
type, that of the last of these calls.
-/

namespace PsPayload.Http.Response

open Lib

/-- The content type and the body that a call sets. -/
def Call.content : Call → Option (Str × Bytes)
  | .text s => some ("text/plain; charset=utf-8".toList, utf8 s)
  | .html s => some ("text/html; charset=utf-8".toList, utf8 s)
  | .json s => some ("application/json".toList, utf8 s)
  | .status _ | .header _ _ | .body _ => none

/-- What `encode` puts before the body. -/
def head (r : Response) : Bytes := r.encode.take (r.encode.length - r.body.length)

/-- The values of the `Content-Type` lines of the head. -/
def contentTypes (r : Response) : List Str :=
  ((fieldsOf r.head).filter (named "content-type")).map (·.2)

/-- The last call that sets a content type has set the body too, and its type is
the only one in the head. -/
def LastDecides (status : UInt16) (calls : List Call) : Prop :=
  ∃ before call after ct body, calls = before ++ call :: after ∧
    call.content = some (ct, body) ∧ (∀ c ∈ after, c.content = none) ∧
    (build status (before ++ [call])).body = body ∧ contentTypes (build status calls) = [ct]

/-- The fields that the lines of a header are read as. -/
def readField (field : Str × Str) : List (Str × Str) :=
  (splitLines '\r' '\n' (headerLine field)).filterMap parseHeader

/-- The content types that a header brings into the head. -/
def fieldTypes (field : Str × Str) : List Str :=
  if isAutomatic field.1 then []
  else ((readField field).filter (named "content-type")).map (·.2)

/-! ## The head, line by line -/

theorem head_eq (r : Response) :
    r.head = utf8 (joinLines '\r' '\n' r.lines ++ '\r' :: '\n' :: ([] ++ '\r' :: '\n' :: [])) := by
  rw [head, encode_eq, List.length_append, Nat.add_sub_cancel, List.take_left, utf8_append]
  rfl

theorem fieldsOf_head (r : Response) : fieldsOf r.head = r.fields.flatMap readField := by
  have hne : '\r' ≠ '\n' := by decide
  have hs : splitLines '\r' '\n' r.statusLine = [r.statusLine] :=
    splitLines_eq_self (no_crlf r.not_mem_statusLine)
  -- the two lines that end the head are empty
  have he : (splitLines '\r' '\n' [] ++ splitLines '\r' '\n' []).filterMap parseHeader = [] := by
    decide
  rw [fieldsOf, head_eq, fromUtf8_utf8, Option.map_some, Option.getD_some,
    splitLines_append hne, splitLines_append hne, lines, splitLines_joinLines hne,
    List.flatMap_cons, hs, List.cons_append, List.cons_append, List.tail_cons,
    List.filterMap_append, List.nil_append, he, List.append_nil, List.flatMap_map,
    List.filterMap_flatMap]
  rfl

/-- A header that is one line is read as it was set. -/
theorem readField_eq {field : Str × Str} (hr : '\r' ∉ field.1 ∧ '\r' ∉ field.2)
    (hc : ':' ∉ field.1) (hn : Trimmed field.1) (hv : Trimmed field.2) :
    readField field = [field] := by
  have hl : '\r' ∉ headerLine field := by simp [headerLine, hr.1, hr.2]
  rw [readField, splitLines_eq_self (no_crlf hl),
    List.filterMap_cons_some (parseHeader_headerLine hc hn hv), List.filterMap_nil]

theorem readField_automatic (r : Response) : ∀ field ∈ r.automatic, readField field = [field] := by
  have hr := r.automatic_line
  have hn : ':' ∉ r.contentLengthField.1 := show ':' ∉ "Content-Length".toList by decide
  have ht : Trimmed r.contentLengthField.1 := show Trimmed "Content-Length".toList by decide
  rw [automatic, List.forall_mem_cons, List.forall_mem_singleton] at hr ⊢
  exact ⟨readField_eq hr.1 hn ht (isNumeral_decimal _).trimmed,
    readField_eq hr.2 (by decide) (by decide) (by decide)⟩

/-- The content types of the head are those that the headers bring, in order. -/
theorem contentTypes_eq (r : Response) : r.contentTypes = r.headers.flatMap fieldTypes := by
  have ha : (r.automatic.flatMap readField).filter (named "content-type") = [] := by
    rw [List.flatMap_congr r.readField_automatic, List.flatMap_singleton', automatic,
      List.filter_cons_of_neg, List.filter_cons_of_neg (by decide), List.filter_nil]
    exact show ¬ eqIgnoreAsciiCase "Content-Length".toList "content-type".toList = true by decide
  rw [contentTypes, fieldsOf_head, fields, List.flatMap_append, List.filter_append, ha,
    List.append_nil, kept]
  induction r.headers with
  | nil => rfl
  | cons field headers ih =>
    rw [List.flatMap_cons, fieldTypes, ← ih]
    by_cases hf : isAutomatic field.1
    · rw [List.filter_cons_of_neg (by simp [hf]), if_pos hf, List.nil_append]
    · rw [List.filter_cons_of_pos (by simp [hf]), if_neg hf, List.flatMap_cons,
        List.filter_append, List.map_append]

/-! ## Chains -/

/-- The content types that a call brings into the head. -/
def Call.types (call : Call) : List Str := call.headers.flatMap fieldTypes

theorem contentTypes_build (status : UInt16) (calls : List Call) :
    contentTypes (build status calls) = calls.flatMap Call.types := by
  rw [contentTypes_eq, build_headers, List.flatMap_assoc]
  rfl

theorem fieldTypes_eq {field : Str × Str} (ha : ¬ isAutomatic field.1)
    (hread : readField field = [field]) (hn : named "content-type" field) :
    fieldTypes field = [field.2] := by
  rw [fieldTypes, if_neg ha, hread, List.filter_cons_of_pos hn, List.filter_nil,
    List.map_singleton]

/-- A content type that a call sets is one line of the head. -/
theorem fieldTypes_contentType {ct : Str} (hr : '\r' ∉ ct) (ht : Trimmed ct) :
    fieldTypes ("Content-Type".toList, ct) = [ct] := by
  have ha : ¬ isAutomatic "Content-Type".toList := by decide
  have hn : eqIgnoreAsciiCase "Content-Type".toList "content-type".toList := by decide
  have hr' : '\r' ∉ "Content-Type".toList := by decide
  have hc : ':' ∉ "Content-Type".toList := by decide
  have ht' : Trimmed "Content-Type".toList := by decide
  generalize "Content-Type".toList = name at *
  exact fieldTypes_eq ha (readField_eq ⟨hr', hr⟩ hc ht' ht) hn

/-- The header and the body that a content call sets. -/
theorem apply_content {call : Call} {ct : Str} {body : Bytes}
    (h : call.content = some (ct, body)) (r : Response) :
    call.headers = [("Content-Type".toList, ct)] ∧ '\r' ∉ ct ∧ Trimmed ct ∧
      (r.apply call).body = body := by
  cases call with
  | text s =>
    obtain ⟨rfl, rfl⟩ := Prod.mk.inj (Option.some.inj h)
    exact ⟨rfl, by decide, by decide, rfl⟩
  | html s =>
    obtain ⟨rfl, rfl⟩ := Prod.mk.inj (Option.some.inj h)
    exact ⟨rfl, by decide, by decide, rfl⟩
  | json s =>
    obtain ⟨rfl, rfl⟩ := Prod.mk.inj (Option.some.inj h)
    exact ⟨rfl, by decide, by decide, rfl⟩
  | status status => cases h
  | header name value => cases h
  | body body => cases h

theorem types_of_content {call : Call} {ct : Str} {body : Bytes}
    (h : call.content = some (ct, body)) : call.types = [ct] := by
  obtain ⟨hh, hr, ht, -⟩ := apply_content h ok
  rw [Call.types, hh, List.flatMap_singleton, fieldTypes_contentType hr ht]

/-- A call that sets no content type brings one only as a header. -/
theorem types_eq_nil_iff {call : Call} (h : call.content = none) :
    call.types = [] ↔ ∀ name value, call = .header name value → fieldTypes (name, value) = [] := by
  cases call with
  | header name value => simp [Call.types, Call.headers]
  | status status => simp [Call.types, Call.headers]
  | body body => simp [Call.types, Call.headers]
  | text s => cases h
  | html s => cases h
  | json s => cases h

theorem body_of_content {call : Call} {ct : Str} {body : Bytes}
    (h : call.content = some (ct, body)) (status : UInt16) (before : List Call) :
    (build status (before ++ [call])).body = body := by
  rw [build, List.foldl_append, List.foldl_cons, List.foldl_nil]
  exact (apply_content h _).2.2.2

/-- Where the last content call decides, no other call brings a content type. -/
theorem LastDecides.types_eq_nil {status : UInt16} {calls : List Call}
    (h : LastDecides status calls) : ∃ before call after, calls = before ++ call :: after ∧
      call.content.isSome ∧ ∀ c ∈ before ++ after, c.types = [] := by
  obtain ⟨before, call, after, ct, body, rfl, hc, -, -, ht⟩ := h
  rw [contentTypes_build, List.flatMap_append, List.flatMap_cons, types_of_content hc] at ht
  have hl := congrArg List.length ht
  rw [List.length_append, List.length_append, List.length_singleton] at hl
  refine ⟨before, call, after, rfl, by rw [hc]; rfl, ?_⟩
  rw [← List.flatMap_eq_nil_iff, List.flatMap_append, List.append_eq_nil_iff,
    ← List.length_eq_zero_iff, ← List.length_eq_zero_iff]
  omega

theorem content_of_types_eq_nil {call : Call} (h : call.types = []) : call.content = none := by
  cases hc : call.content with
  | none => rfl
  | some content => exact absurd ((types_of_content hc).symm.trans h) (List.cons_ne_nil _ _)

theorem LastDecides.countP {status : UInt16} {calls : List Call} (h : LastDecides status calls) :
    calls.countP (·.content.isSome) = 1 := by
  obtain ⟨before, call, after, rfl, hc, hn⟩ := h.types_eq_nil
  have hz : (before ++ after).countP (·.content.isSome) = 0 := List.countP_eq_zero.mpr
    fun c hm => by simp [content_of_types_eq_nil (hn c hm)]
  rw [List.countP_append] at hz
  rw [List.countP_append, List.countP_cons_of_pos (p := fun c : Call => c.content.isSome) hc]
  omega

/-- A second content call replaces the body and adds a second content type. -/
theorem not_lastDecides : ¬ ∀ (status : UInt16) (calls : List Call),
    (∀ name value, Call.header name value ∈ calls →
      ¬ eqIgnoreAsciiCase name "content-type".toList) →
    (∃ call ∈ calls, call.content.isSome) → LastDecides status calls := by
  intro h
  have h := h 200 [.text "a".toList, .json "\x7b\x7d".toList] (by simp) ⟨_, List.mem_cons_self, rfl⟩
  exact absurd h.countP (by decide)

/-- The last content call decides the type exactly where it is the only one and
no header is read as a content type. -/
theorem lastDecides_iff (status : UInt16) (calls : List Call) :
    LastDecides status calls ↔ calls.countP (·.content.isSome) = 1 ∧
      ∀ name value, Call.header name value ∈ calls → fieldTypes (name, value) = [] := by
  refine ⟨fun h => ⟨h.countP, fun name value hm => ?_⟩, fun ⟨hc, hh⟩ => ?_⟩
  · obtain ⟨before, call, after, rfl, hc, hn⟩ := h.types_eq_nil
    have hm : Call.header name value ∈ before ++ after := by
      rcases List.mem_append.mp hm with hm | hm
      · exact List.mem_append_left _ hm
      · rcases List.mem_cons.mp hm with rfl | hm
        · exact absurd hc (by simp [Call.content])
        · exact List.mem_append_right _ hm
    exact (types_eq_nil_iff rfl).mp (hn _ hm) name value rfl
  · obtain ⟨call, hm, hs⟩ := List.countP_pos_iff.mp (by rw [hc]; exact Nat.one_pos)
    obtain ⟨before, after, rfl⟩ := List.append_of_mem hm
    rw [List.countP_append, List.countP_cons_of_pos (p := fun c : Call => c.content.isSome) hs] at hc
    have hb : ∀ c ∈ before ++ after, c.content = none := by
      have hz : (before ++ after).countP (·.content.isSome) = 0 := by
        rw [List.countP_append]
        omega
      simpa using List.countP_eq_zero.mp hz
    have ht : ∀ c ∈ before ++ after, c.types = [] := fun c hc =>
      (types_eq_nil_iff (hb c hc)).mpr fun name value he => hh name value <| by
        subst he
        rcases List.mem_append.mp hc with hc | hc
        · exact List.mem_append_left _ hc
        · exact List.mem_append_right _ (List.mem_cons_of_mem _ hc)
    obtain ⟨⟨ct, body⟩, hcall⟩ := Option.isSome_iff_exists.mp hs
    refine ⟨before, call, after, ct, body, rfl, hcall,
      fun c hc => hb c (List.mem_append_right _ hc), body_of_content hcall status before, ?_⟩
    rw [← List.flatMap_eq_nil_iff, List.flatMap_append, List.append_eq_nil_iff] at ht
    rw [contentTypes_build, List.flatMap_append, List.flatMap_cons, ht.1, ht.2,
      types_of_content hcall, List.nil_append, List.append_nil]

end PsPayload.Http.Response
