import PsPayload.Lib.Environment
import PsPayload.Ps5.Http.Client

/-!
# What comes of a request

`Results` are the results of the SCE calls that a request makes, whatever it
makes of them, and `Results.reply` the environment that answers with them.
`request_outcome`: `Client::request` returns the whole body where every call
succeeds, and the error of the first one that fails where one does.
-/

namespace PsPayload.Sce

open Lib

/-- The buffer after a read that stored `bytes` in it. -/
structure Chunk where
  bytes : Bytes
  /-- What the read left as it was. -/
  rest : Bytes
  nonempty : bytes ≠ []
  full : bytes.length + rest.length = READ_CHUNK
  deriving DecidableEq, Repr

/-- What the calls of a request return. -/
structure Results where
  create : Int32
  send : Int32
  getStatus : Int32
  status : UInt16
  /-- The reads that bring data. -/
  reads : List Chunk
  /-- The read after them: the end, or a failure. -/
  last : Int32
  last_nonpos : last ≤ 0
  delete : Int32
  deriving DecidableEq

namespace Results

/-- The bytes that the reads bring. -/
def body (res : Results) : Bytes := res.reads.flatMap (·.bytes)

/-- The reply to a call, and the results that are left. -/
def reply (res : Results) : Call → Reply × Results
  | .sceHttp2CreateRequestWithURL _ _ _ _ => (⟨res.create, 0, []⟩, res)
  | .sceHttp2SendRequest _ _ _ => (⟨res.send, 0, []⟩, res)
  | .sceHttp2GetStatusCode _ => (⟨res.getStatus, res.status.toUInt32.toInt32, []⟩, res)
  | .sceHttp2ReadData _ size =>
    match res.reads with
    | [] => (⟨res.last, 0, List.replicate size 0⟩, res)
    | chunk :: reads =>
      (⟨Int32.ofNat chunk.bytes.length, 0, chunk.bytes ++ chunk.rest⟩, { res with reads })
  | .sceHttp2DeleteRequest _ => (⟨res.delete, 0, []⟩, res)
  -- the calls that a request does not make
  | .sceNetInit | .sceNetPoolCreate _ _ _ | .sceNetPoolDestroy _ | .sceSslInit _ | .sceSslTerm _
  | .sceHttp2Init _ _ _ _ | .sceHttp2Term _ | .sceHttp2CreateTemplate _ _ _ _
  | .sceHttp2DeleteTemplate _ => (⟨0, 0, []⟩, res)

end Results

/-- The failure of `cstr`. -/
def nulError (s : String) : Option Error :=
  if Char.ofNat 0 ∈ s.toList then some (.invalidInput "string contains an interior NUL byte")
  else none

/-- The failure of an SCE call, where its code is one. -/
def sceError (op : String) (code : Int32) (failed : Bool) : Option Error :=
  if failed then some (.sce ⟨op, code⟩) else none

/-- What can fail in a request, in this order. -/
def failures (method url : String) (res : Results) : List (Option Error) :=
  [nulError method, nulError url,
    sceError "sceHttp2CreateRequestWithURL" res.create (res.create < 0),
    sceError "sceHttp2SendRequest" res.send (res.send ≠ 0),
    sceError "sceHttp2GetStatusCode" res.getStatus (res.getStatus ≠ 0),
    sceError "sceHttp2ReadData" res.last (res.last < 0),
    sceError "sceHttp2DeleteRequest" res.delete (res.delete ≠ 0)]

/-- Nothing fails in a request. -/
def Succeeds (method url : String) (res : Results) : Prop :=
  Char.ofNat 0 ∉ method.toList ∧ Char.ofNat 0 ∉ url.toList ∧ 0 ≤ res.create ∧ res.send = 0 ∧
    res.getStatus = 0 ∧ res.last = 0 ∧ res.delete = 0

/-- The outcome of a request in terms of its failures. -/
def outcome (fs : List (Option Error)) (res : Results) : Result Response :=
  match fs.findSome? id with
  | some e => .error e
  | none => .ok ⟨res.status, res.body⟩

section Outcome

variable {fs : List (Option Error)} {res : Results}

theorem outcome_some (e : Error) : outcome (some e :: fs) res = .error e := rfl

theorem outcome_none : outcome (none :: fs) res = outcome fs res := rfl

theorem outcome_nil : outcome [] res = .ok ⟨res.status, res.body⟩ := rfl

theorem outcome_eq_ok_iff {resp : Response} : outcome fs res = .ok resp ↔
    (∀ f ∈ fs, f = none) ∧ resp = ⟨res.status, res.body⟩ := by
  rw [outcome]
  cases hf : fs.findSome? id with
  | some e =>
    obtain ⟨f, hm, he⟩ := List.exists_of_findSome?_eq_some hf
    refine ⟨nofun, fun h => ?_⟩
    rw [id, h.1 f hm] at he
    cases he
  | none =>
    rw [List.findSome?_eq_none_iff] at hf
    rw [Except.ok.injEq, eq_comm]
    exact ⟨fun h => ⟨hf, h⟩, fun h => h.2⟩

theorem outcome_eq_error_iff {e : Error} :
    outcome fs res = .error e ↔ fs.findSome? id = some e := by
  rw [outcome]
  cases fs.findSome? id with
  | some e' => rw [Except.error.injEq, Option.some.injEq]
  | none => exact ⟨nofun, nofun⟩

end Outcome

section Failures

variable {op : String} {code : Int32} {failed : Prop} [Decidable failed]

theorem sceError_pos (h : failed) : sceError op code failed = some (.sce ⟨op, code⟩) := by
  rw [sceError, decide_eq_true h]
  rfl

theorem sceError_neg (h : ¬ failed) : sceError op code failed = none := by
  rw [sceError, decide_eq_false h]
  rfl

theorem sceError_eq_none_iff : sceError op code failed = none ↔ ¬ failed := by
  refine ⟨fun h hf => ?_, sceError_neg⟩
  rw [sceError_pos hf] at h
  cases h

theorem nulError_eq_none_iff {s : String} : nulError s = none ↔ Char.ofNat 0 ∉ s.toList := by
  rw [nulError]
  split
  · simp [*]
  · simp [*]

theorem nulError_eq {s : String} {e : Error} (h : cstr s = .error e) : nulError s = some e := by
  rw [cstr] at h
  split at h
  · cases h
  · rename_i hn
    cases h
    exact if_pos (not_not.mp hn)

theorem nulError_none {s : String} {c : CString} (h : cstr s = .ok c) : nulError s = none := by
  rw [cstr] at h
  split at h
  · rename_i hn
    exact if_neg hn
  · cases h

/-- Nothing fails exactly where every string and every code is in order. -/
theorem failures_eq_none_iff (method url : String) (res : Results) :
    (∀ f ∈ failures method url res, f = none) ↔ Succeeds method url res := by
  have hlast : ¬ res.last < 0 ↔ res.last = 0 :=
    ⟨fun h => Int32.le_antisymm res.last_nonpos (Int32.not_lt.mp h), fun h => by rw [h]; decide⟩
  simp only [failures, List.forall_mem_cons, sceError_eq_none_iff, nulError_eq_none_iff, hlast,
    Int32.not_lt, ne_eq, not_not]
  exact ⟨fun ⟨hm, hu, hc, hs, hg, hl, hd, _⟩ => ⟨hm, hu, hc, hs, hg, hl, hd⟩,
    fun ⟨hm, hu, hc, hs, hg, hl, hd⟩ => ⟨hm, hu, hc, hs, hg, hl, hd, by simp⟩⟩

end Failures

/-! ## The reads -/

theorem chunk_ret (chunk : Chunk) : (Int32.ofNat chunk.bytes.length).toInt = chunk.bytes.length := by
  have hf := chunk.full
  rw [READ_CHUNK] at hf
  exact Int32.toInt_ofNat_of_lt (by omega)

/-- A read that brings data goes on with it. -/
theorem readNext_chunk (bodyBuf : Bytes) (chunk : Chunk) :
    Client.readNext bodyBuf
        ⟨Int32.ofNat chunk.bytes.length, 0, chunk.bytes ++ chunk.rest⟩ =
      some (bodyBuf ++ chunk.bytes) := by
  have hret := chunk_ret chunk
  have hpos := List.length_pos_iff.mpr chunk.nonempty
  have hneg : ¬ Int32.ofNat chunk.bytes.length < 0 := by
    rw [Int32.lt_iff_toInt_lt, hret]
    exact Int.not_lt.mpr (Int.natCast_nonneg _)
  have hzero : Int32.ofNat chunk.bytes.length ≠ 0 := by
    rw [Ne, ← Int32.toInt_inj, hret]
    exact Int.natCast_ne_zero.mpr hpos.ne'
  rw [Client.readNext, if_neg hneg, if_neg hzero, Int32.toNatClampNeg, hret, Int.toNat_natCast,
    List.take_left]

/-- The last read ends the loop. -/
theorem readNext_last {last : Int32} (h : last ≤ 0) (bodyBuf chunk : Bytes) :
    Client.readNext bodyBuf ⟨last, 0, chunk⟩ = none := by
  rw [Client.readNext]
  split
  · rfl
  · rename_i hn
    exact if_pos (Int32.le_antisymm h (Int32.not_lt.mp hn))

theorem readExit_last (res : Results) (chunk : Bytes) :
    Client.readExit res.status.toUInt32.toInt32 res.body ⟨res.last, 0, chunk⟩ =
      .done (outcome [sceError "sceHttp2ReadData" res.last (res.last < 0)] res) := by
  rw [Client.readExit]
  split
  · rename_i h
    rw [sceError_pos h, outcome_some]
  · rename_i h
    rw [sceError_neg h, outcome_none, outcome_nil, UInt32.toUInt32_toInt32,
      UInt16.toUInt16_toUInt32]

/-- The results after some of the reads, which have brought `bodyBuf`. -/
def Drained (res : Results) (n : Nat) (v : Results) (bodyBuf : Bytes) : Prop :=
  n = v.reads.length + 1 ∧ v = { res with reads := v.reads } ∧ bodyBuf ++ v.body = res.body

theorem within_reads (reqId : Int32) (res : Results) :
    (Prog.loop (.sceHttp2ReadData reqId READ_CHUNK) Client.readNext
        (Client.readExit res.status.toUInt32.toInt32) []).Within (Prog.answers Results.reply)
      (fun v r => v.delete = res.delete ∧
        r = outcome [sceError "sceHttp2ReadData" res.last (res.last < 0)] res)
      (res.reads.length + 1) res := by
  refine Prog.within_loop (Drained res) ⟨rfl, rfl, rfl⟩ (fun _ v _ _ => Prog.exists_answer _ v _) ?_
  rintro _ v bodyBuf ⟨rfl, hv, hb⟩
  refine ⟨v.reads.length, rfl, fun r u hr => ?_⟩
  have hr := Prog.eq_of_answers hr
  rw [Results.reply] at hr
  cases hreads : v.reads with
  | nil =>
    rw [hreads] at hr hv
    cases hr
    have hlast : v.last = res.last := by rw [hv]
    refine ⟨fun z hz => ?_, fun _ => ?_⟩
    · rw [readNext_last v.last_nonpos] at hz
      cases hz
    · have hbody : bodyBuf = res.body := by
        rw [← hb, Results.body, hreads]
        exact (List.append_nil _).symm
      rw [hbody, hlast, readExit_last]
      exact ⟨by rw [hv], rfl⟩
  | cons chunk reads =>
    rw [hreads] at hr hv
    cases hr
    refine ⟨fun z hz => ?_, fun hn => ?_⟩
    · rw [readNext_chunk] at hz
      cases hz
      refine ⟨rfl, by rw [hv], ?_⟩
      rw [← hb, List.append_assoc]
      congr 1
      rw [Results.body, Results.body, hreads, List.flatMap_cons]
    · rw [readNext_chunk] at hn
      cases hn

theorem within_runRequest (reqId : Int32) (body : Bytes) (res : Results) :
    (Client.runRequest reqId body).Within (Prog.answers Results.reply)
      (fun v r => v.delete = res.delete ∧ r = outcome
        [sceError "sceHttp2SendRequest" res.send (res.send ≠ 0),
          sceError "sceHttp2GetStatusCode" res.getStatus (res.getStatus ≠ 0),
          sceError "sceHttp2ReadData" res.last (res.last < 0)] res)
      (res.reads.length + 3) res := by
  refine Prog.within_answer rfl ?_
  by_cases hs : res.send ≠ 0
  · rw [if_pos hs, sceError_pos hs]
    exact ⟨rfl, rfl⟩
  rw [if_neg hs, sceError_neg hs]
  refine Prog.within_answer rfl ?_
  by_cases hg : res.getStatus ≠ 0
  · rw [if_pos hg, sceError_pos hg]
    exact ⟨rfl, rfl⟩
  rw [if_neg hg, sceError_neg hg]
  exact within_reads reqId res

/-- The deletion counts only after everything else has succeeded. -/
theorem deleted_outcome (fs : List (Option Error)) (res : Results) :
    Client.deleted (outcome fs res) res.delete =
      outcome (fs ++ [sceError "sceHttp2DeleteRequest" res.delete (res.delete ≠ 0)]) res := by
  rw [outcome, outcome, List.findSome?_append]
  cases fs.findSome? id with
  | some e => rfl
  | none =>
    rw [Client.deleted]
    split
    · rename_i h
      rw [sceError_pos h]
      rfl
    · rename_i h
      rw [sceError_neg h]
      rfl

theorem within_request (c : Client) (method url : String) (body : Bytes) (res : Results) :
    (c.request method url body).Within (Prog.answers Results.reply)
      (fun _ r => r = outcome (failures method url res) res) (res.reads.length + 5) res := by
  rw [Client.request, failures]
  cases hm : cstr method with
  | error e =>
    rw [nulError_eq hm]
    rfl
  | ok methodC =>
    rw [nulError_none hm, outcome_none]
    cases hu : cstr url with
    | error e =>
      rw [nulError_eq hu]
      rfl
    | ok urlC =>
      rw [nulError_none hu, outcome_none]
      refine Prog.within_answer rfl ?_
      by_cases hc : res.create < 0
      · rw [if_pos hc, sceError_pos hc]
        rfl
      rw [if_neg hc, sceError_neg hc, outcome_none]
      refine Prog.within_bind (m := 1)
        (Prog.within_post ?_ (within_runRequest _ body res))
      rintro v r ⟨hd, rfl⟩
      refine Prog.within_answer rfl ?_
      rw [hd]
      exact deleted_outcome _ res

/-- `request` returns the status and the whole body exactly where nothing
fails, and otherwise the error of the first failure. -/
theorem request_outcome (c : Client) (method url : String) (body : Bytes) (res : Results) :
    (c.request method url body).Returns (Prog.answers Results.reply)
      (fun _ r =>
        (∀ resp, r = .ok resp ↔ Succeeds method url res ∧ resp = ⟨res.status, res.body⟩) ∧
        ∀ e, r = .error e ↔ (failures method url res).findSome? id = some e)
      (res.reads.length + 5) res := by
  refine (Prog.within_post ?_ (within_request c method url body res)).returns
  rintro - r rfl
  refine ⟨fun resp => ?_, fun e => outcome_eq_error_iff⟩
  rw [outcome_eq_ok_iff, failures_eq_none_iff]

end PsPayload.Sce
