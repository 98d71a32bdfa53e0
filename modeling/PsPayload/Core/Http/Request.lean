import PsPayload.Ps5.Net

/-!
# Reading a request

`readRequest` is `read_request` run against the results of its `recv` calls,
in its three parts: `readHead` reads until the blank line that ends the head,
`parseHead` parses the head, and `readBody` reads the body that its
`Content-Length` declares.
-/

namespace PsPayload.Http

open Lib

def DEFAULT_MAX_HEADER_BYTES : UInt64 := 64 * 1024
def DEFAULT_MAX_BODY_BYTES : UInt64 := 8 * 1024 * 1024
def READ_CHUNK : Nat := 4096

/-- Size limits applied while parsing a request. -/
structure Limits where
  maxHeaderBytes : UInt64
  maxBodyBytes : UInt64
  deriving DecidableEq, Repr

/-- A parsed request. -/
structure Request where
  method : Str
  target : Str
  version : Str
  headers : List (Str × Str)
  body : Bytes
  deriving DecidableEq, Repr

/-- What the head of a request holds. -/
structure Head where
  method : Str
  target : Str
  version : Str
  headers : List (Str × Str)
  deriving DecidableEq, Repr

def crlf : Str := ['\r', '\n']

/-- A header field as a line. -/
def headerLine (field : Str × Str) : Str := field.1 ++ ':' :: ' ' :: field.2

/-- The offset of the first blank line in `buf`. -/
def findDoubleCrlf (buf : Bytes) : Option Nat := findSlice [13, 10, 13, 10] buf

/-! ## The head -/

/-- The head of the first loop: the buffer and the offset of the blank line
once it is there, and the limit on a buffer without one. -/
def readHeadTop (limits : Limits) (buf : Bytes) : Option (Result (Option (Bytes × Nat))) :=
  match findDoubleCrlf buf with
  | some pos => some (.ok (some (buf, pos)))
  | none =>
    if limits.maxHeaderBytes.toNat < buf.length then
      some (.error (.invalidInput "request head exceeds limit"))
    else none

/-- One turn of the first loop with the result of its `recv`. -/
def readHeadBody (buf : Bytes) : Recv → Result (Option (Bytes × Nat)) ⊕ Bytes
  | .error e => .inl (.error (.os e))
  | .ok [] =>
    -- end of stream before a full head
    if buf = [] then .inl (.ok none)
    else .inl (.error (.invalidInput "connection closed mid-request"))
  | .ok bytes => .inr (buf ++ bytes)

/-- Reads until the blank line: the buffer and its offset, or `none` where the
peer closed before sending anything. -/
def readHead (limits : Limits) : Script Recv Error (Option (Bytes × Nat)) :=
  .loop (readHeadTop limits) readHeadBody []

/-- A header line at its first colon, both sides trimmed. -/
def parseHeader (line : Str) : Option (Str × Str) :=
  (splitOnce ':' line).map fun (name, value) => (trim name, trim value)

/-- The header lines, empty ones skipped. -/
def parseHeaders : List Str → Result (List (Str × Str))
  | [] => .ok []
  | line :: lines =>
    if line = [] then parseHeaders lines
    else do
      let field ← okOr (parseHeader line) "malformed header line"
      let fields ← parseHeaders lines
      .ok (field :: fields)

/-- The request line and the header lines. -/
def parseHead (head : Bytes) : Result Head := do
  let text ← okOr (fromUtf8 head) "request head is not valid UTF-8"
  let lines := splitLines '\r' '\n' text
  let requestLine ← okOr lines[0]? "missing request line"
  let parts := requestLine.splitOn ' '
  let method ← okOr parts[0]? "missing method"
  let target ← okOr parts[1]? "missing request target"
  let version ← okOr parts[2]? "missing HTTP version"
  let headers ← parseHeaders (lines.drop 1)
  .ok { method, target, version, headers }

/-! ## The body -/

/-- Whether a header name is `name`, in any letter case. -/
def named (name : String) (field : Str × Str) : Bool := eqIgnoreAsciiCase field.1 name.toList

/-- The length in the first `Content-Length` header, and 0 where there is none
or it does not parse. -/
def contentLength (headers : List (Str × Str)) : UInt64 :=
  ((headers.find? (named "content-length")).bind fun (_, v) => parseUsize (trim v)).getD 0

theorem contentLength_some {headers : List (Str × Str)} {field : Str × Str}
    (h : headers.find? (named "content-length") = some field) :
    contentLength headers = (parseUsize (trim field.2)).getD 0 := by
  rw [contentLength, h]
  rfl

theorem contentLength_none {headers : List (Str × Str)}
    (h : headers.find? (named "content-length") = none) : contentLength headers = 0 := by
  rw [contentLength, h]
  rfl

/-- `while body.len() < content_length`. -/
def readBodyTop (contentLength : UInt64) (body : Bytes) : Option (Result Bytes) :=
  if body.length < contentLength.toNat then none else some (.ok body)

/-- One turn of the second loop with the result of its `recv`. -/
def readBodyBody (body : Bytes) : Recv → Result Bytes ⊕ Bytes
  | .error e => .inl (.error (.os e))
  | .ok [] => .inl (.ok body) -- a short body: what arrived is handed over
  | .ok bytes => .inr (body ++ bytes)

/-- Reads on from the bytes that came after the head. -/
def readBody (contentLength : UInt64) (body : Bytes) : Script Recv Error Bytes :=
  .loop (readBodyTop contentLength) readBodyBody body

/-- Parses the head that ends at `headEnd` and reads the body. -/
def readRest (limits : Limits) (buf : Bytes) (headEnd : Nat) :
    Script Recv Error (Option Request) := do
  let head ← Script.lift (parseHead (buf.take headEnd))
  let contentLength := contentLength head.headers
  if limits.maxBodyBytes < contentLength then
    .fail (.invalidInput "request body exceeds limit")
  else
    let body ← readBody contentLength (buf.drop (headEnd + 4)) -- skip the CRLF CRLF
    pure (some { head with body := body.take contentLength.toNat })

/-- `read_request`. -/
def readRequest (limits : Limits) : Script Recv Error (Option Request) := do
  match ← readHead limits with
  | none => pure none
  | some (buf, headEnd) => readRest limits buf headEnd

theorem causal_readRest (limits : Limits) (buf : Bytes) (headEnd : Nat) :
    (readRest limits buf headEnd).Causal := by
  refine Script.causal_bind (Script.causal_lift _) fun head => ?_
  simp only
  split
  · exact Script.causal_fail _
  · exact Script.causal_bind (Script.causal_loop _ _ _) fun body => Script.causal_pure _

theorem causal_readRequest (limits : Limits) : (readRequest limits).Causal := by
  refine Script.causal_bind (Script.causal_loop _ _ _) fun r => ?_
  match r with
  | none => exact Script.causal_pure _
  | some (buf, headEnd) => exact causal_readRest limits buf headEnd

end PsPayload.Http
