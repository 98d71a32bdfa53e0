import PsPayload.Core.Http.Response
import PsPayload.Core.Http.RoundTrip
import PsPayload.Core.Http.ContentLength

/-!
# The lines of an encoded response

`encode_eq`: the head is the status line, one line for each header that is
kept and two lines more, then the blank line and the body. Where no header
holds a line end, a reader finds exactly these lines (`decode_encode`), and
`framed_iff` says for which builder chains the reader of this server does.
-/

namespace PsPayload.Http

open Lib

namespace Response

/-- The headers that are sent as they were set. -/
def kept (r : Response) : List (Str × Str) := r.headers.filter fun field => !isAutomatic field.1

/-- The headers that `encode` adds. -/
def automatic (r : Response) : List (Str × Str) := [r.contentLengthField, connectionField]

def fields (r : Response) : List (Str × Str) := r.kept ++ r.automatic

def lines (r : Response) : List Str := r.statusLine :: r.fields.map headerLine

theorem foldl_encodeHeader (headers : List (Str × Str)) (head : Str) :
    headers.foldl encodeHeader head =
      head ++ (headers.filter fun field => !isAutomatic field.1).flatMap
        fun field => headerLine field ++ crlf := by
  induction headers generalizing head with
  | nil => simp
  | cons field headers ih =>
    rw [List.foldl_cons, ih, encodeHeader]
    by_cases ha : isAutomatic field.1
    · rw [if_pos ha, List.filter_cons_of_neg (by simp [ha])]
    · rw [if_neg ha, List.filter_cons_of_pos (by simp [ha]), List.flatMap_cons, List.append_assoc]

theorem encode_eq (r : Response) :
    r.encode = utf8 (joinLines '\r' '\n' r.lines) ++ [13, 10, 13, 10] ++ r.body := by
  have hl : joinLines '\r' '\n' r.lines ++ ['\r', '\n'] =
      r.statusLine ++ crlf ++ (r.fields.flatMap fun field => headerLine field ++ crlf) := by
    rw [lines, ← flatMap_ended, List.flatMap_cons, List.flatMap_map]
    rfl
  have he : r.encode = utf8 (joinLines '\r' '\n' r.lines ++ ['\r', '\n'] ++ crlf) ++ r.body := by
    rw [hl, encode, foldl_encodeHeader, fields, List.flatMap_append, kept, automatic]
    simp only [List.flatMap_cons, List.flatMap_nil, List.append_assoc, List.nil_append]
  rw [he, List.append_assoc, utf8_append]
  rfl

theorem not_mem_statusLine (r : Response) : '\r' ∉ r.statusLine := by
  have hp : '\r' ∉ reasonPhrase r.status := by
    unfold reasonPhrase
    split <;> decide
  have hd : '\r' ∉ decimal r.status.toNat := fun h =>
    absurd ((isNumeral_decimal _).2 _ h) (by decide)
  have hv : '\r' ∉ httpVersion := by decide
  simp [statusLine, hv, hd, hp]

theorem line_ne_nil (r : Response) : ∀ l ∈ r.lines, l ≠ [] := by
  rw [lines, List.forall_mem_cons, List.forall_mem_map]
  exact ⟨by simp [statusLine], fun field _ => by simp [headerLine]⟩

/-- A line end in a header line is in the name or in the value. -/
theorem crlf_infix_headerLine {field : Str × Str} :
    ['\r', '\n'] <:+: headerLine field ↔ ['\r', '\n'] <:+: field.1 ∨ ['\r', '\n'] <:+: field.2 := by
  obtain ⟨k, v⟩ := field
  rw [headerLine]
  refine ⟨fun h => ?_, fun h => ?_⟩
  · induction k with
    | nil =>
      simp only [List.nil_append, List.infix_cons_iff, List.cons_prefix_cons] at h
      simpa using h
    | cons c k ih =>
      rw [List.cons_append, List.infix_cons_iff] at h
      rcases h with h | h
      · refine .inl ?_
        cases k with
        | nil => simp [List.cons_prefix_cons] at h
        | cons d k =>
          simp only [List.cons_append, List.cons_prefix_cons] at h
          obtain ⟨rfl, rfl, -⟩ := h
          exact ⟨[], k, rfl⟩
      · exact (ih h).imp_left fun h => h.trans (List.suffix_cons c k).isInfix
  · rcases h with h | h
    · exact h.trans (List.prefix_append _ _).isInfix
    · refine h.trans ?_
      exact ((List.suffix_cons _ _).trans ((List.suffix_cons _ _).trans
        (List.suffix_append _ _))).isInfix

theorem automatic_line (r : Response) : ∀ field ∈ r.automatic, '\r' ∉ field.1 ∧ '\r' ∉ field.2 := by
  have hd : '\r' ∉ decimal r.body.length := fun h =>
    absurd ((isNumeral_decimal _).2 _ h) (by decide)
  have hn : '\r' ∉ r.contentLengthField.1 := show '\r' ∉ "Content-Length".toList by decide
  rw [automatic, List.forall_mem_cons, List.forall_mem_singleton]
  exact ⟨⟨hn, hd⟩, by decide, by decide⟩

/-- The lines hold no line end where the headers that are kept hold none. -/
theorem line_iff (r : Response) : (∀ l ∈ r.lines, ¬ ['\r', '\n'] <:+: l) ↔
    ∀ field ∈ r.kept, ¬ ['\r', '\n'] <:+: field.1 ∧ ¬ ['\r', '\n'] <:+: field.2 := by
  simp only [lines, fields, List.forall_mem_cons, List.forall_mem_map, List.forall_mem_append,
    crlf_infix_headerLine, not_or]
  have ha := r.automatic_line
  exact ⟨fun h => h.2.1, fun h => ⟨no_crlf r.not_mem_statusLine, h, fun field hf =>
    ⟨no_crlf (ha field hf).1, no_crlf (ha field hf).2⟩⟩⟩

theorem findDoubleCrlf_encode {r : Response} (h : ∀ l ∈ r.lines, ¬ ['\r', '\n'] <:+: l) :
    findDoubleCrlf r.encode = some (utf8 (joinLines '\r' '\n' r.lines)).length := by
  rw [encode_eq]
  exact findSlice_utf8_head (by decide) (by decide) (by decide) r.line_ne_nil h _

theorem take_encode (r : Response) :
    r.encode.take (utf8 (joinLines '\r' '\n' r.lines)).length =
      utf8 (joinLines '\r' '\n' r.lines) := by
  rw [encode_eq, List.append_assoc, List.take_left]

theorem drop_encode (r : Response) :
    r.encode.drop ((utf8 (joinLines '\r' '\n' r.lines)).length + 4) = r.body := by
  rw [encode_eq]
  exact List.drop_left' (List.length_append ..)

/-! ## Decoding -/

/-- What a reader makes of the bytes of a response. -/
structure Decoded where
  status : Nat
  headers : List (Str × Str)
  body : Bytes
  leftover : Bytes
  deriving DecidableEq, Repr

/-- The code in a status line: the numeral between its first two spaces. -/
def decodeStatusLine (line : Str) : Option Nat := do
  let (version, rest) ← splitOnce ' ' line
  let (code, _) ← splitOnce ' ' rest
  if version = httpVersion ∧ IsNumeral code then some (value code) else none

/-- A header line at its first colon, the value without the space around it. -/
def decodeField (line : Str) : Option (Str × Str) :=
  (splitOnce ':' line).map fun (name, v) => (name, trim v)

/-- The format of a message: the status line and the header lines up to the
first blank line, then as many bytes as the first `Content-Length` says. -/
def decode (bytes : Bytes) : Option Decoded := do
  let headEnd ← findSlice [13, 10, 13, 10] bytes
  let text ← fromUtf8 (bytes.take headEnd)
  let (line, lines) ← (splitLines '\r' '\n' text).head?.map (·, (splitLines '\r' '\n' text).tail)
  let status ← decodeStatusLine line
  let headers ← lines.mapM decodeField
  let (_, length) ← headers.find? (named "content-length")
  let rest := bytes.drop (headEnd + 4)
  if IsNumeral length ∧ value length ≤ rest.length then
    some { status, headers, body := rest.take (value length), leftover := rest.drop (value length) }
  else none

/-- A header that a message can carry as it is. -/
def WellFormedField (field : Str × Str) : Prop :=
  field.1 ≠ [] ∧ (∀ c ∈ field.1, ¬ isWhitespace c ∧ c ≠ ':' ∧ c ≠ '\r' ∧ c ≠ '\n') ∧
    Trimmed field.2 ∧ '\r' ∉ field.2 ∧ '\n' ∉ field.2

instance (field : Str × Str) : Decidable (WellFormedField field) :=
  have := fun p [DecidablePred p] => List.decidableBAll p field.1
  inferInstanceAs (Decidable (_ ∧ _))

theorem decodeStatusLine_statusLine (r : Response) :
    decodeStatusLine r.statusLine = some r.status.toNat := by
  have hv : ' ' ∉ httpVersion := by decide
  have hd : ' ' ∉ decimal r.status.toNat := fun h =>
    absurd ((isNumeral_decimal _).2 _ h) (by decide)
  rw [decodeStatusLine, statusLine, splitOnce_append hv]
  simp only [bind, Option.bind, splitOnce_append hd]
  rw [if_pos ⟨trivial, isNumeral_decimal _⟩, value_decimal]

theorem decodeField_headerLine {field : Str × Str} (hn : ':' ∉ field.1) (hv : Trimmed field.2) :
    decodeField (headerLine field) = some field := by
  rw [decodeField, headerLine, splitOnce_append hn, Option.map_some]
  simp only
  rw [trim_cons (by decide), hv.trim_eq]

theorem decodeField_automatic (r : Response) :
    ∀ field ∈ r.automatic, decodeField (headerLine field) = some field := by
  have hn : ':' ∉ r.contentLengthField.1 := show ':' ∉ "Content-Length".toList by decide
  have hv : Trimmed r.contentLengthField.2 := (isNumeral_decimal _).trimmed
  rw [automatic, List.forall_mem_cons, List.forall_mem_singleton]
  exact ⟨decodeField_headerLine hn hv, decodeField_headerLine (by decide) (by decide)⟩

theorem mapM_decodeField {fields : List (Str × Str)}
    (h : ∀ field ∈ fields, decodeField (headerLine field) = some field) :
    (fields.map headerLine).mapM decodeField = some fields := by
  induction fields with
  | nil => rfl
  | cons field fields ih =>
    rw [List.forall_mem_cons] at h
    rw [List.map_cons, List.mapM_cons, h.1, ih h.2]
    rfl

theorem not_named_of_kept (r : Response) :
    ∀ field ∈ r.kept, ¬ named "content-length" field ∧ ¬ named "connection" field := by
  intro field hf
  have := (List.mem_filter.mp hf).2
  rw [isAutomatic, Bool.not_or, Bool.and_eq_true, Bool.not_eq_true', Bool.not_eq_true'] at this
  exact ⟨Bool.eq_false_iff.mp this.1, Bool.eq_false_iff.mp this.2⟩

theorem find_contentLength (r : Response) :
    r.fields.find? (named "content-length") = some r.contentLengthField := by
  have hk : r.kept.find? (named "content-length") = none :=
    List.find?_eq_none.mpr fun field hf => (r.not_named_of_kept field hf).1
  have hn : named "content-length" r.contentLengthField :=
    show eqIgnoreAsciiCase "Content-Length".toList "content-length".toList = true by decide
  rw [fields, List.find?_append, hk, Option.none_or, automatic, List.find?_cons_of_pos hn]

theorem decode_encode_fields {r : Response} (hw : ∀ field ∈ r.headers, WellFormedField field) :
    decode r.encode = some
      { status := r.status.toNat, headers := r.fields, body := r.body, leftover := [] } := by
  have hk : ∀ field ∈ r.kept, WellFormedField field := fun field hf =>
    hw field (List.mem_of_mem_filter hf)
  have hl : ∀ l ∈ r.lines, ¬ ['\r', '\n'] <:+: l := r.line_iff.mpr fun field hf =>
    ⟨no_crlf fun hc => ((hk field hf).2.1 _ hc).2.2.1 rfl,
      no_crlf (hk field hf).2.2.2.1⟩
  have hfields : ∀ field ∈ r.fields, decodeField (headerLine field) = some field :=
    List.forall_mem_append.mpr ⟨fun field hf => decodeField_headerLine
      (fun hc => ((hk field hf).2.1 _ hc).2.1 rfl) (hk field hf).2.2.1, r.decodeField_automatic⟩
  have hfind : findSlice [13, 10, 13, 10] r.encode = _ := findDoubleCrlf_encode hl
  have hv : value r.contentLengthField.2 = r.body.length := value_decimal _
  have hn : IsNumeral r.contentLengthField.2 := isNumeral_decimal _
  rw [decode, hfind]
  simp only [bind, Option.bind]
  rw [take_encode, fromUtf8_utf8]
  simp only [drop_encode]
  rw [lines, splitLines_joinLines_self (by decide) hl, List.head?_cons, Option.map_some,
    List.tail_cons]
  simp only [decodeStatusLine_statusLine, mapM_decodeField hfields, find_contentLength]
  rw [hv, if_pos ⟨hn, Nat.le_refl _⟩, List.take_length, List.drop_length]

/-- Decoding gives back what was encoded, with nothing left over. -/
theorem decode_encode (status : UInt16) (headers : List (Str × Str)) (body : Bytes)
    (hw : ∀ field ∈ headers, WellFormedField field) :
    decode (encode { status, headers, body }) = some {
      status := status.toNat
      headers := (headers.filter fun field => !isAutomatic field.1) ++
        [("Content-Length".toList, decimal body.length), ("Connection".toList, "close".toList)]
      body := body
      leftover := [] } :=
  decode_encode_fields hw

/-- A response with a status of its own, a header that is left out and a blank
line in its body. -/
def teapot : Response where
  status := 418
  headers := [("X-A".toList, "b: c".toList), ("CONNECTION".toList, "keep".toList)]
  body := [13, 10, 13, 10]

set_option maxRecDepth 10000 in
theorem decode_encode_teapot :
    decode (encode { status := 418, headers := teapot.headers, body := [13, 10, 13, 10] }) = some {
      status := 418
      headers := (teapot.headers.filter fun field => !isAutomatic field.1) ++
        [("Content-Length".toList, decimal 4), ("Connection".toList, "close".toList)]
      body := [13, 10, 13, 10]
      leftover := [] } :=
  decode_encode 418 teapot.headers [13, 10, 13, 10] (by decide)

/-! ## Framing -/

/-- The framing that `encode` is meant to give: the blank line is before the
body, the lines are those of the headers, and one line each is read as the
length and as the connection option. -/
def Framed (r : Response) : Prop :=
  ∃ h, findDoubleCrlf r.encode = some h ∧ r.encode.drop (h + 4) = r.body ∧
    (∃ text ∈ fromUtf8 (r.encode.take h),
      splitLines '\r' '\n' text = r.statusLine :: (r.kept ++ r.automatic).map headerLine) ∧
    (∃ name, (fieldsOf (r.encode.take h)).filter (named "content-length") =
      [(name, decimal r.body.length)]) ∧
    ∃ name, (fieldsOf (r.encode.take h)).filter (named "connection") = [(name, "close".toList)]

/-- A header that is left out, or that is one line and is not read as one that
is added. -/
def Harmless (field : Str × Str) : Prop :=
  isAutomatic field.1 ∨ ¬ ['\r', '\n'] <:+: field.1 ∧ ¬ ['\r', '\n'] <:+: field.2 ∧
    ¬ isAutomatic (trim (field.1.takeWhile (· ≠ ':')))

instance (field : Str × Str) : Decidable (Harmless field) :=
  inferInstanceAs (Decidable (_ ∨ _))

/-- The name a header line is read under. -/
theorem parseHeader_headerLine_fst (field : Str × Str) :
    ∃ v, parseHeader (headerLine field) = some (trim (field.1.takeWhile (· ≠ ':')), v) := by
  obtain ⟨k, v⟩ := field
  rw [parseHeader, headerLine]
  obtain ⟨r, hr⟩ : ∃ r, k ++ ':' :: ' ' :: v = k.takeWhile (· ≠ ':') ++ ':' :: r := by
    have hk := List.takeWhile_append_dropWhile (p := fun c => c ≠ ':') (l := k)
    cases hd : k.dropWhile (· ≠ ':') with
    | nil =>
      rw [hd, List.append_nil] at hk
      exact ⟨' ' :: v, by rw [hk]⟩
    | cons c d =>
      have hc := List.head?_dropWhile_not (fun c => decide (c ≠ ':')) k
      rw [hd] at hc hk
      obtain rfl : c = ':' := by simpa using hc
      refine ⟨d ++ ':' :: ' ' :: v, ?_⟩
      rw [← List.cons_append, ← List.append_assoc, hk]
  have hn : ':' ∉ k.takeWhile (· ≠ ':') := fun h => by
    have := List.mem_takeWhile_imp h
    simp at this
  exact ⟨trim r, by rw [hr, splitOnce_append hn, Option.map_some]⟩

/-- The fields that the lines of the kept headers are read as. -/
def readKept (r : Response) : List (Str × Str) := (r.kept.map headerLine).filterMap parseHeader

theorem filter_readKept_eq_nil_iff (r : Response) (name : String) :
    r.readKept.filter (named name) = [] ↔
      ∀ field ∈ r.kept, ¬ eqIgnoreAsciiCase (trim (field.1.takeWhile (· ≠ ':'))) name.toList := by
  rw [List.filter_eq_nil_iff, readKept]
  refine ⟨fun h field hf => ?_, fun h read hr => ?_⟩
  · obtain ⟨v, hp⟩ := parseHeader_headerLine_fst field
    exact h _ (List.mem_filterMap.mpr ⟨_, List.mem_map_of_mem hf, hp⟩)
  · obtain ⟨line, hl, hp⟩ := List.mem_filterMap.mp hr
    obtain ⟨field, hf, rfl⟩ := List.mem_map.mp hl
    obtain ⟨v, hp'⟩ := parseHeader_headerLine_fst field
    obtain rfl := Option.some.inj (hp'.symm.trans hp)
    exact h field hf

theorem parseHeader_automatic (r : Response) :
    (r.automatic.map headerLine).filterMap parseHeader = r.automatic := by
  have hn : ':' ∉ r.contentLengthField.1 := show ':' ∉ "Content-Length".toList by decide
  have ht : Trimmed r.contentLengthField.1 := show Trimmed "Content-Length".toList by decide
  have hp := parseHeader_headerLine hn ht (isNumeral_decimal _).trimmed
  have hp' : parseHeader (headerLine connectionField) = some connectionField :=
    parseHeader_headerLine (by decide) (by decide) (by decide)
  rw [automatic, List.map_cons, List.map_singleton, List.filterMap_cons_some hp,
    List.filterMap_cons_some hp', List.filterMap_nil]

theorem fieldsOf_encode {r : Response} (hl : ∀ l ∈ r.lines, ¬ ['\r', '\n'] <:+: l) :
    fieldsOf (utf8 (joinLines '\r' '\n' r.lines)) = r.readKept ++ r.automatic := by
  rw [fieldsOf, fromUtf8_utf8, Option.map_some, Option.getD_some, lines,
    splitLines_joinLines_self (by decide) hl, List.tail_cons, fields, List.map_append,
    List.filterMap_append, parseHeader_automatic, readKept]

theorem filter_automatic (r : Response) :
    r.automatic.filter (named "content-length") = [r.contentLengthField] ∧
    r.automatic.filter (named "connection") = [connectionField] := by
  have h₁ : named "content-length" r.contentLengthField :=
    show eqIgnoreAsciiCase "Content-Length".toList "content-length".toList = true by decide
  have h₂ : ¬ named "connection" r.contentLengthField :=
    show ¬ eqIgnoreAsciiCase "Content-Length".toList "connection".toList = true by decide
  rw [automatic]
  refine ⟨?_, ?_⟩
  · rw [List.filter_cons_of_pos h₁, List.filter_cons_of_neg (by decide), List.filter_nil]
  · rw [List.filter_cons_of_neg h₂, List.filter_cons_of_pos (by decide), List.filter_nil]

theorem framed_of_harmless {r : Response} (h : ∀ field ∈ r.headers, Harmless field) :
    r.Framed := by
  have hk : ∀ field ∈ r.kept, _ := fun field hf =>
    (h field (List.mem_of_mem_filter hf)).resolve_left (by simpa using (List.mem_filter.mp hf).2)
  have hl := r.line_iff.mpr fun field hf => ⟨(hk field hf).1, (hk field hf).2.1⟩
  have hcl := (r.filter_readKept_eq_nil_iff "content-length").mpr fun field hf hn =>
    (hk field hf).2.2 (by simp only [isAutomatic, hn, Bool.true_or])
  have hcon := (r.filter_readKept_eq_nil_iff "connection").mpr fun field hf hn =>
    (hk field hf).2.2 (by simp only [isAutomatic, hn, Bool.or_true])
  refine ⟨_, findDoubleCrlf_encode hl, r.drop_encode, ⟨joinLines '\r' '\n' r.lines, ?_, ?_⟩, ?_⟩
  · rw [take_encode, fromUtf8_utf8]
    rfl
  · exact splitLines_joinLines_self (by decide) hl
  · rw [take_encode, fieldsOf_encode hl, List.filter_append, List.filter_append, hcl, hcon,
      r.filter_automatic.1, r.filter_automatic.2]
    exact ⟨⟨_, rfl⟩, _, rfl⟩

theorem harmless_of_framed {r : Response} (hfr : r.Framed) : ∀ field ∈ r.headers, Harmless field := by
  obtain ⟨h, hf, hd, ⟨text, ht, hs⟩, ⟨n₁, h₁⟩, n₂, h₂⟩ := hfr
  -- what follows the blank line is as long as the body, so it is the one before the body
  obtain rfl : h = (utf8 (joinLines '\r' '\n' r.lines)).length := by
    have hle := findDoubleCrlf_add_le hf
    have := congrArg List.length hd
    rw [encode_eq, List.length_append, List.length_append] at hle
    rw [encode_eq, List.length_drop, List.length_append, List.length_append] at this
    simp only [List.length_cons, List.length_nil] at this hle
    omega
  rw [take_encode] at ht h₁ h₂
  rw [fromUtf8_utf8, Option.mem_some_iff] at ht
  subst ht
  have hl : ∀ l ∈ r.lines, ¬ ['\r', '\n'] <:+: l :=
    not_infix_of_length_splitLines (by decide) (congrArg List.length hs)
  rw [fieldsOf_encode hl, List.filter_append] at h₁ h₂
  rw [r.filter_automatic.1] at h₁
  rw [r.filter_automatic.2] at h₂
  have hnil {l : List (Str × Str)} {a b : Str × Str} (he : l ++ [a] = [b]) : l = [] := by
    have := congrArg List.length he
    simpa using this
  have hcl := (r.filter_readKept_eq_nil_iff _).mp (hnil h₁)
  have hcon := (r.filter_readKept_eq_nil_iff _).mp (hnil h₂)
  intro field hm
  by_cases ha : isAutomatic field.1
  · exact .inl ha
  · have hk : field ∈ r.kept := List.mem_filter.mpr ⟨hm, by simpa using ha⟩
    have hc := r.line_iff.mp hl field hk
    refine .inr ⟨hc.1, hc.2, fun hauto => ?_⟩
    rcases Bool.or_eq_true_iff.mp hauto with hn | hn
    · exact hcl field hk hn
    · exact hcon field hk hn

/-- What a builder call adds to the headers. -/
def Call.headers : Call → List (Str × Str)
  | .header name value => [(name, value)]
  | .text _ => [("Content-Type".toList, "text/plain; charset=utf-8".toList)]
  | .html _ => [("Content-Type".toList, "text/html; charset=utf-8".toList)]
  | .json _ => [("Content-Type".toList, "application/json".toList)]
  | _ => []

theorem apply_headers (r : Response) (call : Call) :
    (r.apply call).headers = r.headers ++ call.headers := by
  cases call <;> simp [apply, Call.headers, withStatus, withHeader, withBody, text, html, json,
    withContentType]

theorem build_headers (status : UInt16) (calls : List Call) :
    (build status calls).headers = calls.flatMap Call.headers := by
  suffices ∀ r : Response, (calls.foldl apply r).headers = r.headers ++ calls.flatMap Call.headers by
    rw [build, this]
    rfl
  induction calls with
  | nil => simp
  | cons call calls ih =>
    intro r
    rw [List.foldl_cons, ih, apply_headers, List.flatMap_cons, List.append_assoc]

/-- A padded name passes the filter and is read as a second length. -/
theorem not_framed_build :
    ¬ ∀ (status : UInt16) (calls : List Call), (build status calls).Framed := by
  intro hx
  have hf := hx 200 [.header "Content-Length ".toList "5".toList]
  exact absurd (harmless_of_framed hf _ (List.mem_singleton_self _)) (by decide)

/-- A builder chain is framed exactly where each header it sets is harmless. -/
theorem framed_build_iff (status : UInt16) (calls : List Call) :
    (build status calls).Framed ↔
      ∀ name value, Call.header name value ∈ calls → Harmless (name, value) := by
  refine ⟨fun h name value hm => ?_, fun h => ?_⟩
  · refine harmless_of_framed h _ ?_
    rw [build_headers]
    exact List.mem_flatMap.mpr ⟨_, hm, List.mem_singleton_self _⟩
  · refine framed_of_harmless ?_
    rw [build_headers]
    intro field hf
    obtain ⟨call, hc, hf⟩ := List.mem_flatMap.mp hf
    match call with
    | .header name value =>
      obtain rfl := List.mem_singleton.mp hf
      exact h name value hc
    | .text _ =>
      obtain rfl := List.mem_singleton.mp hf
      decide
    | .html _ =>
      obtain rfl := List.mem_singleton.mp hf
      decide
    | .json _ =>
      obtain rfl := List.mem_singleton.mp hf
      decide

end Response

end PsPayload.Http
