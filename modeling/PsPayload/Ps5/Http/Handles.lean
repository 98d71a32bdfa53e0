import Mathlib.Data.List.Infix
import PsPayload.Lib.Ownership
import PsPayload.Ps5.Http.Client

/-!
# The handles of the HTTP client

Which handles each SCE call creates, uses and releases, and that any number of
clients and requests leave none behind: each function of the client is sound
on its own (`sound_new`, `sound_request`, `sound_drop`), and releases what it
owns in the reverse of the order it was created in (`Chain`). `handle_ledger`
says what follows for all of them together.
-/

namespace PsPayload.Sce

open Lib

inductive Kind where
  | netPool
  | sslContext
  | http2Context
  | template
  | request
  deriving DecidableEq, Repr

structure Handle where
  kind : Kind
  id : Int32
  deriving DecidableEq, Repr

/-- The handles that a call is given. -/
def Call.uses : Call → List Handle
  | .sceNetInit | .sceNetPoolCreate _ _ _ | .sceSslInit _ => []
  | .sceNetPoolDestroy memid => [⟨.netPool, memid⟩]
  | .sceSslTerm sslCtxId => [⟨.sslContext, sslCtxId⟩]
  | .sceHttp2Init netMemId sslCtxId _ _ => [⟨.netPool, netMemId⟩, ⟨.sslContext, sslCtxId⟩]
  | .sceHttp2Term libCtxId | .sceHttp2CreateTemplate libCtxId _ _ _ => [⟨.http2Context, libCtxId⟩]
  | .sceHttp2DeleteTemplate tmplId | .sceHttp2CreateRequestWithURL tmplId _ _ _ =>
    [⟨.template, tmplId⟩]
  | .sceHttp2DeleteRequest reqId | .sceHttp2SendRequest reqId _ _ | .sceHttp2GetStatusCode reqId
  | .sceHttp2ReadData reqId _ => [⟨.request, reqId⟩]

/-- The kind of the handle that a call creates. -/
def Call.creates : Call → Option Kind
  | .sceNetPoolCreate _ _ _ => some .netPool
  | .sceSslInit _ => some .sslContext
  | .sceHttp2Init _ _ _ _ => some .http2Context
  | .sceHttp2CreateTemplate _ _ _ _ => some .template
  | .sceHttp2CreateRequestWithURL _ _ _ _ => some .request
  | .sceNetInit | .sceNetPoolDestroy _ | .sceSslTerm _ | .sceHttp2Term _
  | .sceHttp2DeleteTemplate _ | .sceHttp2DeleteRequest _ | .sceHttp2SendRequest _ _ _
  | .sceHttp2GetStatusCode _ | .sceHttp2ReadData _ _ => none

/-- The handle that a call releases, whatever code it returns. -/
def Call.loses : Call → Option Handle
  | .sceNetPoolDestroy memid => some ⟨.netPool, memid⟩
  | .sceSslTerm sslCtxId => some ⟨.sslContext, sslCtxId⟩
  | .sceHttp2Term libCtxId => some ⟨.http2Context, libCtxId⟩
  | .sceHttp2DeleteTemplate tmplId => some ⟨.template, tmplId⟩
  | .sceHttp2DeleteRequest reqId => some ⟨.request, reqId⟩
  | .sceNetInit | .sceNetPoolCreate _ _ _ | .sceSslInit _ | .sceHttp2Init _ _ _ _
  | .sceHttp2CreateTemplate _ _ _ _ | .sceHttp2CreateRequestWithURL _ _ _ _
  | .sceHttp2SendRequest _ _ _ | .sceHttp2GetStatusCode _ | .sceHttp2ReadData _ _ => none

/-- The handle that a call has created: a negative code is a failure. -/
def Call.gains (c : Call) (r : Reply) : Option Handle :=
  if r.ret < 0 then none else c.creates.map (⟨·, r.ret⟩)

theorem Call.loses_uses {c : Call} {h : Handle} (hl : c.loses = some h) : h ∈ c.uses := by
  cases c <;> cases hl <;> exact List.mem_singleton.mpr rfl

def accounts : Accounts Call Reply Handle := ⟨Call.uses, Call.gains, Call.loses, Call.loses_uses⟩

/-- A read brings at most the buffer full, and leaves it as long as it is. -/
def Call.possible : Call → Reply → Bool
  | .sceHttp2ReadData _ size, r => r.ret.toInt ≤ size && r.chunk.length == size
  | .sceNetInit, _ | .sceNetPoolCreate _ _ _, _ | .sceNetPoolDestroy _, _ | .sceSslInit _, _
  | .sceSslTerm _, _ | .sceHttp2Init _ _ _ _, _ | .sceHttp2Term _, _
  | .sceHttp2CreateTemplate _ _ _ _, _ | .sceHttp2DeleteTemplate _, _
  | .sceHttp2CreateRequestWithURL _ _ _ _, _ | .sceHttp2DeleteRequest _, _
  | .sceHttp2SendRequest _ _ _, _ | .sceHttp2GetStatusCode _, _ => true

/-- The handles of a client, newest first. -/
def Client.handles (c : Client) : List Handle :=
  [⟨.template, c.tmplId⟩, ⟨.http2Context, c.libCtxId⟩, ⟨.sslContext, c.sslCtxId⟩,
    ⟨.netPool, c.netMemId⟩]

inductive Op where
  | new (userAgent : String)
  | request (method url : String) (body : Bytes)
  | get (url : String)
  | drop
  deriving DecidableEq, Repr

/-- What a function has returned. -/
inductive Outcome where
  | client (r : Result Client)
  | response (r : Result Response)
  | dropped
  deriving DecidableEq

/-- `new` or a request has returned an error. -/
def Outcome.failed : Outcome → Bool
  | .client (.error _) | .response (.error _) => true
  | .client (.ok _) | .response (.ok _) | .dropped => false

def Outcome.gives : Outcome → Option Client
  | .client (.ok c) => some c
  | .client (.error _) | .response _ | .dropped => none

def Op.body : Op → Receiver Client → Option (Routine Outcome)
  | .new userAgent, .alone => some ((Client.new userAgent).map .client)
  | .request method url body, .borrowed c => some ((c.request method url body).map .response)
  | .get url, .borrowed c => some ((c.get url).map .response)
  | .drop, .taken c => some (c.drop.map fun _ => .dropped)
  | .new _, .borrowed _ | .new _, .taken _ | .request _ _ _, .alone | .request _ _ _, .taken _
  | .get _, .alone | .get _, .taken _ | .drop, .alone | .drop, .borrowed _ => none

/-- `Client` and its functions. -/
def api : Api Call Reply Bytes Handle Client Op Outcome where
  toAccounts := accounts
  possible := Call.possible
  owns := Client.handles
  body := Op.body
  gives := Outcome.gives

/-- The handles that a function may own, newest first: those of a client, or
its own request. -/
def order : Receiver Client → List Kind
  | .borrowed _ => [.request]
  | .alone | .taken _ => [.template, .http2Context, .sslContext, .netPool]

/-- None of the handles is there without the older ones. -/
def Chain (r : Receiver Client) (o : List Handle) : Prop := o.map (·.kind) <:+ order r

/-! ## One call

`o` is what the function owns before the call. -/

section Calls

variable {β : Type} {recv : Receiver Client} {R : List (Call × Reply) → β → Prop}
  {l : List (Call × Reply)} {o : List Handle} {c : Call} {k : Reply → Routine β} {x : Kind}

theorem gains_of_creates (hc : c.creates = none) (r : Reply) : c.gains r = none := by
  rw [Call.gains, hc]
  exact ite_self none

theorem own_plain (ho : api.balance (api.given recv) l = o) (hP : Chain recv o)
    (hu : ∀ h ∈ c.uses, h ∈ o ++ api.lent recv) (hc : c.creates = none) (hl : c.loses = none)
    (hk : ∀ r l, api.balance (api.given recv) l = o →
      (k r).Always api.ok (api.Own recv (Chain recv)) R l) :
    (Prog.call c k).Always api.ok (api.Own recv (Chain recv)) R l :=
  Api.own_plain ho hP hu (gains_of_creates hc) hl fun r _ hb => hk r _ hb

/-- A call that creates a handle, or fails. -/
theorem own_create (ho : api.balance (api.given recv) l = o) (hP : Chain recv o)
    (hu : ∀ h ∈ c.uses, h ∈ o ++ api.lent recv) (hc : c.creates = some x) (hl : c.loses = none)
    (hfail : ∀ r l, r.ret < 0 → api.balance (api.given recv) l = o →
      (k r).Always api.ok (api.Own recv (Chain recv)) R l)
    (hk : ∀ r l, ¬ r.ret < 0 → api.balance (api.given recv) l = ⟨x, r.ret⟩ :: o →
      (k r).Always api.ok (api.Own recv (Chain recv)) R l) :
    (Prog.call c k).Always api.ok (api.Own recv (Chain recv)) R l := by
  refine Api.own_create ho hP hu hl fun r _ hb => ?_
  rw [show api.gains c r = c.gains r from rfl, Call.gains, hc] at hb
  by_cases hr : r.ret < 0
  · rw [if_pos hr] at hb
    exact hfail r _ hr hb
  · rw [if_neg hr] at hb
    exact hk r _ hr hb

/-- The newest handle is released. -/
theorem own_release {h : Handle} (ho : api.balance (api.given recv) l = h :: o)
    (hP : Chain recv (h :: o)) (hu : c.uses = [h]) (hc : c.creates = none) (hl : c.loses = some h)
    (hk : ∀ r l, api.balance (api.given recv) l = o →
      (k r).Always api.ok (api.Own recv (Chain recv)) R l) :
    (Prog.call c k).Always api.ok (api.Own recv (Chain recv)) R l :=
  Api.own_release ho hP hu (gains_of_creates hc) hl fun r _ hb => hk r _ hb

end Calls

/-! ## One function -/

/-- `recv` keeps to the rules, and to the order. -/
def Keeps (recv : Receiver Client) (p : Routine Outcome) : Prop :=
  p.Always api.ok (api.Own recv (Chain recv)) (api.Done recv (Chain recv)) []

theorem chain_nil (recv : Receiver Client) : Chain recv [] := List.nil_suffix

theorem Chain.tail {recv : Receiver Client} {h : Handle} {o : List Handle}
    (hc : Chain recv (h :: o)) : Chain recv o := by
  rw [Chain, List.map_cons] at hc
  exact (List.suffix_cons _ _).trans hc

theorem keeps_new (userAgent : String) : Keeps .alone ((Client.new userAgent).map .client) := by
  apply Prog.always_map
  -- every failure has released what had been created
  have hfailed (l : List (Call × Reply)) (e : Error) (hl : api.balance (api.given .alone) l = []) :
      api.Done .alone (Chain .alone) l (.client (.error e)) :=
    Api.own_done hl (chain_nil _) .nil
  have h₄ (c : Client) : Chain .alone c.handles := List.suffix_refl _
  have h₃ (a b c : Int32) : Chain .alone [⟨.http2Context, c⟩, ⟨.sslContext, b⟩, ⟨.netPool, a⟩] :=
    (h₄ ⟨a, b, c, 0⟩).tail
  have h₂ (a b : Int32) : Chain .alone [⟨.sslContext, b⟩, ⟨.netPool, a⟩] := (h₃ a b 0).tail
  have h₁ (a : Int32) : Chain .alone [⟨.netPool, a⟩] := (h₂ a 0).tail
  rw [Client.new]
  cases cstr userAgent with
  | error e => exact hfailed [] e rfl
  | ok agent =>
    refine own_plain (o := []) rfl (chain_nil _) nofun rfl rfl fun rc l ho => ?_
    by_cases hrc : rc.ret ≠ 0
    · rw [if_pos hrc]
      exact hfailed l _ ho
    rw [if_neg hrc]
    refine own_create ho (chain_nil _) nofun rfl rfl (fun net l hn ho => ?_) fun net l hn ho => ?_
    · rw [if_pos hn]
      exact hfailed l _ ho
    rw [if_neg hn]
    refine own_create ho (h₁ _) nofun rfl rfl (fun ssl l hn ho => ?_) fun ssl l hn ho => ?_
    · rw [if_pos hn]
      refine own_release ho (h₁ _) rfl rfl rfl fun _ l ho => ?_
      exact hfailed l _ ho
    rw [if_neg hn]
    refine own_create ho (h₂ _ _) (by simp [Call.uses]) rfl rfl (fun lib l hn ho => ?_)
      fun lib l hn ho => ?_
    · rw [if_pos hn]
      refine own_release ho (h₂ _ _) rfl rfl rfl fun _ l ho => ?_
      refine own_release ho (h₁ _) rfl rfl rfl fun _ l ho => ?_
      exact hfailed l _ ho
    rw [if_neg hn]
    refine own_create ho (h₃ _ _ _) (by simp [Call.uses]) rfl rfl (fun tmpl l hn ho => ?_)
      fun tmpl l hn ho => ?_
    · rw [if_pos hn]
      refine own_release ho (h₃ _ _ _) rfl rfl rfl fun _ l ho => ?_
      refine own_release ho (h₂ _ _) rfl rfl rfl fun _ l ho => ?_
      refine own_release ho (h₁ _) rfl rfl rfl fun _ l ho => ?_
      exact hfailed l _ ho
    rw [if_neg hn]
    exact Api.own_done ho (h₄ ⟨net.ret, ssl.ret, lib.ret, tmpl.ret⟩) (.refl _)

/-- Whatever comes of the request, its handle is still there. -/
theorem always_runRequest {c : Client} {reqId : Int32} {body : Bytes} {l : List (Call × Reply)}
    (ho : api.balance (api.given (.borrowed c)) l = [⟨.request, reqId⟩]) :
    (Client.runRequest reqId body).Always api.ok (api.Own (.borrowed c) (Chain (.borrowed c)))
      (fun l _ => api.balance (api.given (.borrowed c)) l = [⟨.request, reqId⟩]) l := by
  have hP : Chain (.borrowed c) [⟨.request, reqId⟩] :=
    show [Kind.request] <:+ [Kind.request] from List.suffix_refl _
  refine own_plain ho hP (by simp [Call.uses]) rfl rfl fun rc l ho => ?_
  by_cases hrc : rc.ret ≠ 0
  · rw [if_pos hrc]
    exact ho
  rw [if_neg hrc]
  refine own_plain ho hP (by simp [Call.uses]) rfl rfl fun rc l ho => ?_
  by_cases hrc : rc.ret ≠ 0
  · rw [if_pos hrc]
    exact ho
  rw [if_neg hrc]
  refine Api.own_loop ho hP (by simp [api, accounts, Call.uses]) rfl (fun r => ?_)
    fun y r l ho => ?_
  · exact gains_of_creates rfl r
  · rw [Client.readExit]
    split
    · exact ho
    · exact ho

theorem keeps_request (c : Client) (method url : String) (body : Bytes) :
    Keeps (.borrowed c) ((c.request method url body).map .response) := by
  apply Prog.always_map
  have hdone (l : List (Call × Reply)) (r : Result Response)
      (hl : api.balance (api.given (.borrowed c)) l = []) :
      api.Done (.borrowed c) (Chain (.borrowed c)) l (.response r) :=
    Api.own_done hl (chain_nil _) .nil
  rw [Client.request]
  cases cstr method with
  | error e => exact hdone [] _ rfl
  | ok methodC =>
    cases cstr url with
    | error e => exact hdone [] _ rfl
    | ok urlC =>
      refine own_create (o := []) rfl (chain_nil _) ?_ rfl rfl (fun req l hn ho => ?_)
        fun req l hn ho => ?_
      · -- the template is the client's
        intro h hh
        rw [List.mem_singleton.mp hh]
        exact List.mem_cons_self
      · rw [if_pos hn]
        exact hdone l _ ho
      rw [if_neg hn]
      apply Prog.always_bind
      refine Prog.always_mono (fun _ _ h => h) (fun l result ho => ?_) (always_runRequest ho)
      refine own_release ho ?_ rfl rfl rfl fun del l ho => ?_
      · show [Kind.request] <:+ [Kind.request]
        exact List.suffix_refl _
      · exact hdone l _ ho

theorem keeps_drop (c : Client) : Keeps (.taken c) (c.drop.map fun _ => .dropped) := by
  apply Prog.always_map
  have h₄ : Chain (.taken c) c.handles := List.suffix_refl _
  refine own_release (l := []) rfl h₄ rfl rfl rfl fun _ l ho => ?_
  refine own_release ho h₄.tail rfl rfl rfl fun _ l ho => ?_
  refine own_release ho h₄.tail.tail rfl rfl rfl fun _ l ho => ?_
  refine own_release ho h₄.tail.tail.tail rfl rfl rfl fun _ l ho => ?_
  exact Api.own_done ho (chain_nil _) .nil

/-- Every function keeps to the rules. -/
theorem keeps_body (op : Op) (recv : Receiver Client) (p : Routine Outcome)
    (h : op.body recv = some p) : Keeps recv p := by
  rcases op with userAgent | ⟨method, url, body⟩ | url | _
  · rcases recv with _ | c | c
    · cases h
      exact keeps_new userAgent
    · cases h
    · cases h
  · rcases recv with _ | c | c
    · cases h
    · cases h
      exact keeps_request c method url body
    · cases h
  · rcases recv with _ | c | c
    · cases h
    · cases h
      exact keeps_request c "GET" url []
    · cases h
  · rcases recv with _ | c | c
    · cases h
    · cases h
    · cases h
      exact keeps_drop c

theorem sound : api.Sound := Api.sound_of_own (P := fun _ => Chain) keeps_body

/-! ## All of them together -/

/-- In `live` the clients there are own their handles, and the functions that
are running own what they have created and not released, which they do in the
order of `ordered`. A client that has requests in progress is there, and so is
its template. A function that has `failed` leaves every ledger as it was. -/
structure HandleLedger (w : World Call Reply Bytes Client Op Outcome) : Prop where
  live : (accounts.balance [] w.log).Perm
    (w.values.reduceOption.flatMap Client.handles ++ w.procs.flatMap api.owned)
  nodup : (accounts.balance [] w.log).Nodup
  clean : accounts.Clean w.log
  once : ∀ h, (accounts.gained w.log).count h =
    (accounts.lost w.log).count h + (accounts.balance [] w.log).count h
  ordered : ∀ p ∈ w.procs, Chain p.recv (accounts.balance (api.given p.recv) p.log)
  lent : ∀ p ∈ w.procs, ∀ c, p.recv = .borrowed c → p.returned = false →
    w.value p.index = some c ∧ ∀ h ∈ c.handles, h ∈ accounts.balance [] w.log
  failed : ∀ p ∈ w.procs, ∀ a, p.prog.result = some a → a.failed = true →
    ∀ l, accounts.balance [] (p.log ++ l) = accounts.balance [] l

theorem gives_of_failed {a : Outcome} (h : a.failed = true) : a.gives = none := by
  rcases a with (e | c) | r | _
  · rfl
  · cases h
  · rfl
  · rfl

/-- A function that fails was given nothing to own, and gives nothing back. -/
theorem always_failed (op : Op) (recv : Receiver Client) (p : Routine Outcome)
    (h : op.body recv = some p) : p.Always api.ok (fun _ _ => True)
      (fun _ a => a.failed = true → api.given recv = [] ∧ api.gives a = none) [] := by
  rcases op with userAgent | ⟨method, url, body⟩ | url | _
  · rcases recv with _ | c | c
    · exact Prog.always_of_forall (fun _ _ => trivial) fun _ _ h => ⟨rfl, gives_of_failed h⟩
    · cases h
    · cases h
  · rcases recv with _ | c | c
    · cases h
    · exact Prog.always_of_forall (fun _ _ => trivial) fun _ _ h => ⟨rfl, gives_of_failed h⟩
    · cases h
  · rcases recv with _ | c | c
    · cases h
    · exact Prog.always_of_forall (fun _ _ => trivial) fun _ _ h => ⟨rfl, gives_of_failed h⟩
    · cases h
  · rcases recv with _ | c | c
    · cases h
    · cases h
    · cases h
      apply Prog.always_map
      exact Prog.always_of_forall (fun _ _ => trivial) fun _ _ h => nomatch h

/-- In every run of any number of clients and requests the handles that are
there are the clients' and those of the functions that are running, each is
released once and in its order, and no call is given another. -/
theorem handle_ledger (ls : List (WorldLabel Reply Op))
    {w : World Call Reply Bytes Client Op Outcome} (h : runFrom api.step World.init ls = some w) : HandleLedger w where
  live := by
    have hv : w.values.flatMap api.ownsOption = w.values.reduceOption.flatMap Client.handles :=
      Api.flatMap_ownsOption w.values
    rw [← hv]
    exact (Api.run_inv sound h).books.live
  nodup := (Api.run_inv sound h).books.nodup
  clean := (Api.run_inv sound h).books.clean
  once := (Api.run_inv sound h).books.once
  ordered := Api.run_own (P := fun _ => Chain) keeps_body h
  lent p hp c hc hr := by
    have hi := Api.run_inv sound h
    have hv := hi.lends p hp c hc hr
    exact ⟨hv, fun x hx => hi.books.live.mem_iff.mpr
      (List.mem_append_left _ (Api.owns_subset hv hx))⟩
  failed := Api.run_failed sound always_failed h

/-- A client is made and has a request in progress, while another one is not
made because of `sceSslInit`. -/
def twoClients : List (WorldLabel Reply Op) :=
  let ret (n : Int32) : Reply := ⟨n, 0, []⟩
  [.call (.new "a"), .answer 0 (ret 0), .answer 0 (ret 1), .answer 0 (ret 2), .answer 0 (ret 3),
    .call (.new "b"), .answer 1 (ret 0), .answer 0 (ret 4), .finish 0, .answer 1 (ret 5),
    .borrow (.get "u") 0, .answer 1 (ret (-1)), .answer 2 (ret 7), .answer 1 (ret 0)]

theorem handle_ledger_twoClients :
    ∃ w, runFrom api.step World.init twoClients = some w ∧ HandleLedger w ∧
      accounts.balance [] w.log = [⟨.request, 7⟩, ⟨.template, 4⟩, ⟨.http2Context, 3⟩,
        ⟨.sslContext, 2⟩, ⟨.netPool, 1⟩] :=
  ⟨_, rfl, handle_ledger twoClients rfl, rfl⟩

end PsPayload.Sce
