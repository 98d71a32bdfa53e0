import PsPayload.Core.Http.Request

/-!
# Responses

`Response` with its builder methods, and the bytes it is sent as. A chain of
builder calls is a list of `Call`s (`build`).
-/

namespace PsPayload.Http

open Lib

structure Response where
  status : UInt16
  headers : List (Str × Str)
  body : Bytes
  deriving DecidableEq, Repr

/-- The headers that `encode` adds, in any letter case. -/
def isAutomatic (name : Str) : Bool :=
  eqIgnoreAsciiCase name "content-length".toList || eqIgnoreAsciiCase name "connection".toList

/-- The reason phrase of common status codes. -/
def reasonPhrase (status : UInt16) : Str :=
  String.toList <|
    match status.toNat with
    | 200 => "OK"
    | 201 => "Created"
    | 204 => "No Content"
    | 301 => "Moved Permanently"
    | 302 => "Found"
    | 304 => "Not Modified"
    | 400 => "Bad Request"
    | 401 => "Unauthorized"
    | 403 => "Forbidden"
    | 404 => "Not Found"
    | 405 => "Method Not Allowed"
    | 413 => "Payload Too Large"
    | 431 => "Request Header Fields Too Large"
    | 500 => "Internal Server Error"
    | 503 => "Service Unavailable"
    | _ => "OK"

namespace Response

/-- No headers and an empty body. -/
def new (status : UInt16) : Response := { status, headers := [], body := [] }

def ok : Response := new 200

def withStatus (r : Response) (status : UInt16) : Response := { r with status }

/-- Appends a header field. -/
def withHeader (r : Response) (name value : Str) : Response :=
  { r with headers := r.headers ++ [(name, value)] }

/-- Sets the body, without a content type. -/
def withBody (r : Response) (body : Bytes) : Response := { r with body }

def withContentType (r : Response) (ct : Str) : Response := r.withHeader "Content-Type".toList ct

def text (r : Response) (body : Str) : Response :=
  (r.withContentType "text/plain; charset=utf-8".toList).withBody (utf8 body)

def html (r : Response) (body : Str) : Response :=
  (r.withContentType "text/html; charset=utf-8".toList).withBody (utf8 body)

def json (r : Response) (body : Str) : Response :=
  (r.withContentType "application/json".toList).withBody (utf8 body)

def httpVersion : Str := "HTTP/1.1".toList

def statusLine (r : Response) : Str :=
  httpVersion ++ ' ' :: (decimal r.status.toNat ++ ' ' :: reasonPhrase r.status)

/-- One turn of the loop of `encode`. -/
def encodeHeader (head : Str) (field : Str × Str) : Str :=
  if isAutomatic field.1 then head else head ++ (headerLine field ++ crlf)

def contentLengthField (r : Response) : Str × Str :=
  ("Content-Length".toList, decimal r.body.length)

def connectionField : Str × Str := ("Connection".toList, "close".toList)

/-- `Response::encode`. -/
def encode (r : Response) : Bytes :=
  let head := r.headers.foldl encodeHeader (r.statusLine ++ crlf)
  let head := head ++ (headerLine r.contentLengthField ++ crlf)
  let head := head ++ (headerLine connectionField ++ crlf ++ crlf)
  utf8 head ++ r.body

/-- A builder call. -/
inductive Call where
  | status (status : UInt16)
  | header (name value : Str)
  | body (body : Bytes)
  | text (body : Str)
  | html (body : Str)
  | json (body : Str)
  deriving DecidableEq, Repr

def apply (r : Response) : Call → Response
  | .status status => r.withStatus status
  | .header name value => r.withHeader name value
  | .body body => r.withBody body
  | .text body => r.text body
  | .html body => r.html body
  | .json body => r.json body

/-- A chain of calls on a response with status `status`; `ok` is `new 200`. -/
def build (status : UInt16) (calls : List Call) : Response := calls.foldl apply (new status)

end Response

end PsPayload.Http
