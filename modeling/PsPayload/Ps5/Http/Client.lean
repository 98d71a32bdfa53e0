import PsPayload.Lib.Program
import PsPayload.Lib.Text
import PsPayload.Ps5.Util

/-!
# The HTTP client

`Client` over the SCE stack: the calls it makes, with their arguments, and its
functions as programs that make them. A call returns a code and, where it was
given a pointer, what it has stored there.
-/

namespace PsPayload.Sce

open Lib

inductive Call where
  | sceNetInit
  | sceNetPoolCreate (name : String) (size flags : Int32)
  | sceNetPoolDestroy (memid : Int32)
  | sceSslInit (poolSize : Nat)
  | sceSslTerm (sslCtxId : Int32)
  | sceHttp2Init (netMemId sslCtxId : Int32) (poolSize : Nat) (maxConnections : Int32)
  | sceHttp2Term (libCtxId : Int32)
  | sceHttp2CreateTemplate (libCtxId : Int32) (userAgent : CString) (autoRedirect http2 : Int32)
  | sceHttp2DeleteTemplate (tmplId : Int32)
  | sceHttp2CreateRequestWithURL (tmplId : Int32) (method url : CString) (contentLength : UInt64)
  | sceHttp2DeleteRequest (reqId : Int32)
  /-- No data is the null pointer. -/
  | sceHttp2SendRequest (reqId : Int32) (data : Option Bytes) (size : Nat)
  | sceHttp2GetStatusCode (reqId : Int32)
  | sceHttp2ReadData (reqId : Int32) (size : Nat)
  deriving DecidableEq

/-- What a call returned. -/
structure Reply where
  ret : Int32
  /-- `*status_code`, after `sceHttp2GetStatusCode`. -/
  status : Int32
  /-- The buffer, after `sceHttp2ReadData`. -/
  chunk : Bytes
  deriving DecidableEq, Repr

def NET_POOL_SIZE : Int32 := 32 * 1024
def SSL_POOL_SIZE : Nat := 256 * 1024
def HTTP2_POOL_SIZE : Nat := 256 * 1024
def HTTP2_MAX_CONNECTIONS : Int32 := 1
def HTTP2_AUTO_REDIRECT : Int32 := 3
def HTTP2_ENABLE : Int32 := 1
def READ_CHUNK : Nat := 0x1000

/-- A function of the client. Its loops carry what they have read. -/
abbrev Routine (α : Type) : Type := Prog Call Reply Bytes α

structure Client where
  netMemId : Int32
  sslCtxId : Int32
  libCtxId : Int32
  tmplId : Int32
  deriving DecidableEq, Repr

/-- A completed response. -/
structure Response where
  status : UInt16
  body : Bytes
  deriving DecidableEq, Repr

namespace Client

def new (userAgent : String) : Routine (Result Client) :=
  match cstr userAgent with
  | .error e => .done (.error e)
  | .ok agent =>
  .call .sceNetInit fun rc =>
  if rc.ret ≠ 0 then .done (.error (.sce ⟨"sceNetInit", rc.ret⟩)) else
  .call (.sceNetPoolCreate "ps5_http" NET_POOL_SIZE 0) fun net =>
  if net.ret < 0 then .done (.error (.sce ⟨"sceNetPoolCreate", net.ret⟩)) else
  .call (.sceSslInit SSL_POOL_SIZE) fun ssl =>
  if ssl.ret < 0 then
    .call (.sceNetPoolDestroy net.ret) fun _ =>
    .done (.error (.sce ⟨"sceSslInit", ssl.ret⟩))
  else
  .call (.sceHttp2Init net.ret ssl.ret HTTP2_POOL_SIZE HTTP2_MAX_CONNECTIONS) fun lib =>
  if lib.ret < 0 then
    .call (.sceSslTerm ssl.ret) fun _ =>
    .call (.sceNetPoolDestroy net.ret) fun _ =>
    .done (.error (.sce ⟨"sceHttp2Init", lib.ret⟩))
  else
  .call (.sceHttp2CreateTemplate lib.ret agent HTTP2_AUTO_REDIRECT HTTP2_ENABLE) fun tmpl =>
  if tmpl.ret < 0 then
    .call (.sceHttp2Term lib.ret) fun _ =>
    .call (.sceSslTerm ssl.ret) fun _ =>
    .call (.sceNetPoolDestroy net.ret) fun _ =>
    .done (.error (.sce ⟨"sceHttp2CreateTemplate", tmpl.ret⟩))
  else
  .done (.ok ⟨net.ret, ssl.ret, lib.ret, tmpl.ret⟩)

/-- The bytes read so far, after a read that brought some. -/
def readNext (bodyBuf : Bytes) (n : Reply) : Option Bytes :=
  if n.ret < 0 then none
  else if n.ret = 0 then none
  else some (bodyBuf ++ n.chunk.take n.ret.toNatClampNeg)

/-- After a read that failed, or that found the end. -/
def readExit (status : Int32) (bodyBuf : Bytes) (n : Reply) : Routine (Result Response) :=
  if n.ret < 0 then .done (.error (.sce ⟨"sceHttp2ReadData", n.ret⟩))
  else .done (.ok ⟨status.toUInt32.toUInt16, bodyBuf⟩)

/-- Does not delete the request: that is up to the caller. -/
def runRequest (reqId : Int32) (body : Bytes) : Routine (Result Response) :=
  let data := if body.isEmpty then none else some body
  .call (.sceHttp2SendRequest reqId data body.length) fun rc =>
  if rc.ret ≠ 0 then .done (.error (.sce ⟨"sceHttp2SendRequest", rc.ret⟩)) else
  .call (.sceHttp2GetStatusCode reqId) fun rc =>
  if rc.ret ≠ 0 then .done (.error (.sce ⟨"sceHttp2GetStatusCode", rc.ret⟩)) else
  .loop (.sceHttp2ReadData reqId READ_CHUNK) readNext (readExit rc.status) []

/-- What `request` returns for what came of the request and the code of its
deletion. -/
def deleted (result : Result Response) (del : Int32) : Result Response :=
  match result with
  | .ok resp => if del ≠ 0 then .error (.sce ⟨"sceHttp2DeleteRequest", del⟩) else .ok resp
  | .error e => .error e

def request (c : Client) (method url : String) (body : Bytes) : Routine (Result Response) :=
  match cstr method with
  | .error e => .done (.error e)
  | .ok methodC =>
  match cstr url with
  | .error e => .done (.error e)
  | .ok urlC =>
  .call (.sceHttp2CreateRequestWithURL c.tmplId methodC urlC (UInt64.ofNat body.length)) fun req =>
  if req.ret < 0 then .done (.error (.sce ⟨"sceHttp2CreateRequestWithURL", req.ret⟩)) else
  (runRequest req.ret body).bind fun result =>
  .call (.sceHttp2DeleteRequest req.ret) fun del =>
  .done (deleted result del.ret)

def get (c : Client) (url : String) : Routine (Result Response) := c.request "GET" url []

/-- `Drop for Client`. -/
def drop (c : Client) : Routine Unit :=
  .call (.sceHttp2DeleteTemplate c.tmplId) fun _ =>
  .call (.sceHttp2Term c.libCtxId) fun _ =>
  .call (.sceSslTerm c.sslCtxId) fun _ =>
  .call (.sceNetPoolDestroy c.netMemId) fun _ =>
  .done ()

end Client

end PsPayload.Sce
