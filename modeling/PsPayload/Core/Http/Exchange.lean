import PsPayload.Core.Http.Encode
import PsPayload.Core.Http.Interrupt
import PsPayload.Core.Http.Lifecycle

/-!
# A request and its response

A server together with the other ends of its connections. A peer sends bytes
and closes when it likes, and `recv` returns the next bytes that the peer has
sent, in any portions, or the end of the stream once it has closed.

`exchange`: a peer that has sent a serialised request is never waited for, the
handler is called once, on that request, and what is sent back is the response of
the handler, to which it is decoded if its header fields are well-formed.
-/

namespace PsPayload.Http

open Lib Thread

/-! ## The peers -/

/-- The other end of a connection: what it has sent, and whether it has closed. -/
structure Peer where
  stream : Bytes
  closed : Bool
  deriving DecidableEq, Repr

/-- The bytes that these calls have stored. -/
def arrived (got : List Recv) : Bytes :=
  got.flatMap fun
    | .ok bytes => bytes
    | .error _ => []

/-- What `recv` may return after the calls `got`. -/
def Peer.Delivers (p : Peer) (got : List Recv) : Recv → Prop
  | .ok bytes =>
    arrived got ++ bytes <+: p.stream ∧ (bytes = [] → p.closed = true ∧ arrived got = p.stream)
  | .error _ => True

instance (p : Peer) (got : List Recv) (r : Recv) : Decidable (p.Delivers got r) :=
  match r with
  | .ok _ => inferInstanceAs (Decidable (_ ∧ _))
  | .error _ => inferInstanceAs (Decidable True)

/-- A server and its peers, by the number of the connection. -/
structure World where
  server : State
  peers : Nat → Peer

namespace World

inductive Label where
  | send (i : Nat) (bytes : Bytes)
  | close (i : Nat)
  | server (l : Http.Label)

def init : World := { server := .init, peers := fun _ => ⟨[], false⟩ }

/-- A connection gets from `recv` what its peer has sent. -/
def Allows (w : World) : Http.Label → Prop
  | .on i (.recv r) => ∀ c ∈ w.server.conns[i]?, (w.peers i).Delivers c.trace.received r
  | .bind _ | .accept _ | .on _ (.spawn _) | .on _ (.call _ _) | .on _ (.send _) => True
  | .on _ .shutdown | .on _ .drop => True

instance (w : World) (l : Http.Label) : Decidable (w.Allows l) :=
  match l with
  | .on i (.recv _) => inferInstanceAs (Decidable (∀ c ∈ w.server.conns[i]?, _))
  | .bind _ | .accept _ | .on _ (.spawn _) | .on _ (.call _ _) | .on _ (.send _) =>
    inferInstanceAs (Decidable True)
  | .on _ .shutdown | .on _ .drop => inferInstanceAs (Decidable True)

def step (server : Server) (w : World) : Label → Option World
  | .send i bytes =>
    if (w.peers i).closed then none
    else some { w with
      peers := Function.update w.peers i { w.peers i with stream := (w.peers i).stream ++ bytes } }
  | .close i =>
    some { w with peers := Function.update w.peers i { w.peers i with closed := true } }
  | .server l =>
    if w.Allows l then (server.step w.server l).map fun server => { w with server } else none

/-- The steps of the server among those of the world. -/
def Label.ofServer : Label → List Http.Label
  | .server l => [l]
  | .send _ _ | .close _ => []

end World

/-! ## What arrives -/

/-- The `recv` calls of a connection, as long as none of them fails: portions of
what the peer has sent, and then perhaps the end of the stream. -/
def Delivered (p : Peer) (got : List Recv) : Prop :=
  (∀ e, .error e ∉ got) → ∃ (reads : List Bytes) (k : Nat), got = reads.map .ok ++ List.replicate k eof ∧
    (∀ r ∈ reads, r ≠ [] ∧ r.length ≤ READ_CHUNK) ∧ reads.flatten <+: p.stream ∧
    (k ≠ 0 → p.closed = true ∧ reads.flatten = p.stream)

section Delivered

variable {p : Peer} {got : List Recv} {r : Recv}

theorem arrived_reads (reads : List Bytes) (k : Nat) :
    arrived (reads.map .ok ++ List.replicate k eof) = reads.flatten := by
  have heof : arrived (List.replicate k eof) = [] :=
    List.flatMap_eq_nil_iff.mpr fun r hr => by rw [(List.mem_replicate.mp hr).2]; rfl
  rw [arrived, List.flatMap_append, ← arrived, ← arrived, heof, List.append_nil, arrived,
    List.flatMap_map]
  exact List.flatMap_id'

theorem delivered_nil (p : Peer) : Delivered p [] :=
  fun _ => ⟨[], 0, rfl, nofun, List.nil_prefix, nofun⟩

theorem delivered_send (h : Delivered p got) (hp : p.closed = false) (bytes : Bytes) :
    Delivered { p with stream := p.stream ++ bytes } got := by
  intro hok
  obtain ⟨reads, k, hg, hr, hpre, hk⟩ := h hok
  refine ⟨reads, k, hg, hr, hpre.trans (List.prefix_append _ _), fun hk0 => ?_⟩
  rw [(hk hk0).1] at hp
  cases hp

theorem delivered_close (h : Delivered p got) : Delivered { p with closed := true } got := by
  intro hok
  obtain ⟨reads, k, hg, hr, hpre, hk⟩ := h hok
  exact ⟨reads, k, hg, hr, hpre, fun hk0 => ⟨rfl, (hk hk0).2⟩⟩

theorem delivered_recv (h : Delivered p got) (hd : p.Delivers got r)
    (hl : ∀ bytes, r = .ok bytes → bytes.length ≤ READ_CHUNK) : Delivered p (got ++ [r]) := by
  intro hok
  obtain ⟨reads, k, rfl, hr, hpre, hk⟩ := h fun e he => hok e (List.mem_append_left _ he)
  cases r with
  | error e => exact absurd (List.mem_append_right _ (List.mem_singleton_self _)) (hok e)
  | ok bytes =>
    obtain ⟨hd, hend⟩ := hd
    rw [arrived_reads] at hd hend
    by_cases hb : bytes = []
    · subst hb
      refine ⟨reads, k + 1, ?_, hr, hpre, fun _ => hend rfl⟩
      rw [List.append_assoc, List.replicate_succ', eof]
    · -- there was more to come, so the stream has not ended before
      obtain rfl : k = 0 := by
        by_contra hk0
        have := hd.length_le
        rw [List.length_append, (hk hk0).2] at this
        exact hb (List.length_eq_zero_iff.mp (by omega))
      refine ⟨reads ++ [bytes], 0, ?_, ?_, ?_, nofun⟩
      · simp
      · rw [List.forall_mem_append, List.forall_mem_singleton]
        exact ⟨hr, hb, hl bytes rfl⟩
      · simpa using hd

end Delivered

theorem Conn.step_received {limits : Limits} {c c' : Conn} {m : Move}
    (h : c.step limits m = some c') :
    (∀ r, m ≠ .recv r) ∧ c'.trace.received = c.trace.received ∨
      ∃ r, m = .recv r ∧ c'.trace.received = c.trace.received ++ [r] ∧
        ∀ bytes, r = .ok bytes → bytes.length ≤ READ_CHUNK := by
  cases m with
  | recv r =>
    refine .inr ⟨r, rfl, ?_⟩
    simp only [step] at h
    split at h
    · split at h
      · split at h
        · rename_i hl
          cases h
          exact ⟨Trace.received_concat _ _, fun bytes hb => by cases hb; exact hl⟩
        · cases h
      · cases h
        exact ⟨Trace.received_concat _ _, fun bytes hb => by cases hb⟩
    · cases h
  | spawn a =>
    refine .inl ⟨fun r hr => (by cases hr), ?_⟩
    obtain ⟨spawn, -, h⟩ := Option.bind_eq_some_iff.mp h
    cases a with
    | start =>
      cases h
      rfl
    | reclaim =>
      cases h
      exact (Trace.received_concat _ _).trans (List.append_nil _)
    | finish v =>
      simp only [afterAct] at h
      split at h
      · cases h
        rfl
      · cases h
    | join rc => cases h
    | _ =>
      cases h
      rfl
  | _ =>
    refine .inl ⟨fun r hr => (by cases hr), ?_⟩
    simp only [step] at h
    (repeat' split at h) <;> cases h <;>
      exact (Trace.received_concat _ _).trans (List.append_nil _)

namespace World

variable {server : Server} {w w' : World} {ls : List Label}

theorem step_server {l : Label} (h : step server w l = some w') :
    runFrom server.step w.server l.ofServer = some w'.server := by
  cases l with
  | send i bytes =>
    rw [step] at h
    split at h
    · cases h
    · cases h
      rfl
  | close i =>
    cases h
    rfl
  | server l =>
    rw [step, Option.ite_none_right_eq_some] at h
    obtain ⟨s, hs, rfl⟩ := Option.map_eq_some_iff.mp h.2
    rw [Label.ofServer, runFrom_singleton]
    exact hs

theorem server_run (h : runFrom (step server) .init ls = some w) :
    runFrom server.step .init (ls.flatMap Label.ofServer) = some w.server :=
  simulation (f := World.server) (g := Label.ofServer) (fun _ _ _ => step_server) h

/-- What the connections have got is what their peers have sent. -/
def Consistent (w : World) : Prop :=
  ∀ (i : Nat) (c : Conn), w.server.conns[i]? = some c → Delivered (w.peers i) c.trace.received

theorem consistent_peer {i : Nat} {p : Peer} (hw : w.Consistent)
    (hp : ∀ got, Delivered (w.peers i) got → Delivered p got) :
    Consistent { w with peers := Function.update w.peers i p } := by
  intro j c hc
  show Delivered (Function.update w.peers i p j) c.trace.received
  rw [Function.update_apply]
  split
  · rename_i hj
    exact hp _ (hj ▸ hw j c hc)
  · exact hw j c hc

theorem consistent_server {l : Http.Label} {s : State} (hw : w.Consistent) (hl : w.Allows l)
    (h : server.step w.server l = some s) : Consistent { w with server := s } := by
  cases l with
  | bind r => obtain ⟨-, ⟨fd, -, -, rfl⟩ | ⟨e, -, rfl⟩⟩ := Server.step_bind h <;> exact hw
  | accept r =>
    cases r with
    | ok fd =>
      obtain ⟨listener, -, -, rfl⟩ := Server.step_accept_ok h
      intro i c hc
      simp only [List.getElem?_append, List.getElem?_singleton] at hc
      split at hc
      · exact hw i c hc
      · split at hc
        · cases hc
          exact delivered_nil _
        · cases hc
    | error e =>
      obtain ⟨listener, -, ⟨-, rfl⟩ | ⟨-, rfl⟩⟩ := Server.step_accept_error h <;> exact hw
  | on i m =>
    obtain ⟨c, c', hc, hs, -, rfl⟩ := Server.step_on h
    have hlen := (List.getElem?_eq_some_iff.mp hc).1
    intro j d hd
    by_cases hj : i = j
    · subst hj
      rw [List.getElem?_set_self hlen] at hd
      cases hd
      rcases Conn.step_received hs with ⟨-, hr⟩ | ⟨r, rfl, hr, hb⟩
      · rw [hr]
        exact hw i c hc
      · rw [hr]
        exact delivered_recv (hw i c hc) (hl c hc) hb
    · rw [List.getElem?_set_ne hj] at hd
      exact hw j d hd

theorem consistent_init : Consistent .init := fun i c hc => by simp [init, State.init] at hc

theorem run_consistent (h : runFrom (step server) .init ls = some w) : w.Consistent := by
  refine invariant (I := fun _ w => Consistent w) consistent_init (fun ls l w w' _ hw h => ?_) h
  cases l with
  | send i bytes =>
    rw [step] at h
    split at h
    · cases h
    · rename_i hc
      cases h
      exact consistent_peer hw fun got hd => delivered_send hd (by simpa using hc) bytes
  | close i =>
    cases h
    exact consistent_peer hw fun got hd => delivered_close hd
  | server l =>
    rw [step, Option.ite_none_right_eq_some] at h
    obtain ⟨s, hs, rfl⟩ := Option.map_eq_some_iff.mp h.2
    exact consistent_server hw h.1 hs

end World

/-! ## The request is read -/

section Serialised

variable {limits : Limits} {req : Request}

/-- A serialised request is what its stream is answered with, whatever follows. -/
theorem answer_serialise (hs : Serialisable limits req) (extra : Bytes) :
    ∃ h, findDoubleCrlf (serialise req ++ extra) = some h ∧
      h + 4 ≤ limits.maxHeaderBytes.toNat ∧
      answer limits (serialise req ++ extra) h = .ok (some req) ∧
      h + 4 + (contentLength req.headers).toNat ≤ (serialise req ++ extra).length := by
  have hle := hs.head_le
  have hbody := hs.body_le
  rw [serialiseHead_eq, List.length_append] at hle
  refine ⟨_, findDoubleCrlf_serialise hs extra, hle, ?_, ?_⟩
  · refine answer_ok_iff.mpr ⟨{ req with }, ?_, ?_, ?_⟩
    · rw [serialise, serialiseHead_eq, List.append_assoc, List.append_assoc, List.take_left]
      exact parseHead_serialise hs
    · rw [UInt64.lt_iff_toNat_lt, contentLength_serialise hs]
      omega
    · have hd : (serialise req ++ extra).drop
          ((utf8 (joinLines '\r' '\n' (headLines req))).length + 4) = req.body ++ extra := by
        rw [serialise, serialiseHead_eq, List.append_assoc]
        exact List.drop_left' (List.length_append ..)
      simp only [contentLength_serialise hs]
      rw [hd, List.take_left]
  · rw [contentLength_serialise hs, serialise, serialiseHead_eq]
    simp only [List.length_append, List.length_cons, List.length_nil]
    omega

theorem run_serialise (hs : Serialisable limits req) {extra : Bytes}
    (seg : Segmentation (serialise req ++ extra)) (tail : List Recv) :
    ∃ rest, (readRequest limits).run (seg.recvs ++ tail) = some (.ok (some req), rest) := by
  obtain ⟨h, hf, hle, ha, hlen⟩ := answer_serialise hs extra
  rw [← ha]
  refine readRequest_found seg hf (admitted_of_le _ hle) tail (.inl fun req' ha' => ?_)
  obtain rfl : req = req' := Option.some.inj (Except.ok.inj (ha.symm.trans ha'))
  exact hlen

/-- While the request is being read there is more of it to come. -/
theorem more_to_come (hs : Serialisable limits req) {extra : Bytes} {p : Peer} {got : List Recv}
    (hp : p.stream = serialise req ++ extra) (hd : Delivered p got)
    (h : (readRequest limits).run got = none) :
    ∃ b, p.Delivers got (.ok [b]) := by
  have hdata := isData_of_waiting h
  have hok : ∀ e, .error e ∉ got := fun e he => by
    obtain ⟨bytes, -, hb⟩ := hdata _ he
    cases hb
  obtain ⟨reads, k, rfl, hr, hpre, -⟩ := hd hok
  obtain rfl : k = 0 := by
    by_contra hk
    obtain ⟨bytes, hb, he⟩ := hdata eof
      (List.mem_append_right _ (List.mem_replicate.mpr ⟨hk, rfl⟩))
    cases he
    exact hb rfl
  obtain ⟨rest, hrest⟩ := hpre
  cases rest with
  | nil =>
    -- all of it has been read, and the function would have returned
    obtain ⟨stream, closed⟩ := p
    subst hp
    rw [List.append_nil] at hrest
    let seg : Segmentation (serialise req ++ extra) :=
      ⟨reads, fun r h => (hr r h).1, fun r h => (hr r h).2, hrest⟩
    obtain ⟨t, hrun⟩ := run_serialise hs seg (List.replicate 0 eof)
    exact absurd (h.symm.trans hrun) nofun
  | cons b rest =>
    refine ⟨b, ?_, nofun⟩
    rw [arrived_reads, ← hrest]
    exact ⟨rest, by simp⟩

end Serialised

/-! ## The exchange -/

/-- A connection that has a step of its own has one that its peer allows, where
the peer has sent a request. -/
theorem World.progress {server : Server} {ls : List World.Label} {w : World} {i : Nat} {c : Conn}
    {req : Request} {extra : Bytes} (h : runFrom (World.step server) .init ls = some w)
    (hc : w.server.conns[i]? = some c) (hs : Serialisable server.limits req)
    (hp : (w.peers i).stream = serialise req ++ extra) (hf : ¬ c.spawn.Finished) :
    ∃ m w', World.step server w (.server (.on i m)) = some w' := by
  have hrun := World.server_run h
  have hi := run_inv hrun
  have hci := conn_inv hrun hc
  have hstep : ∀ {m t}, server.step w.server (.on i m) = some t → w.Allows (.on i m) →
      ∃ m w', World.step server w (.server (.on i m)) = some w' := by
    intro m t ht ha
    exact ⟨m, _, by rw [World.step, if_pos ha, ht, Option.map_some]⟩
  by_cases hr : ∃ got, c.phase = .reading got
  · obtain ⟨got, hph⟩ := hr
    have hfits := hci.fits
    rw [hph] at hfits
    obtain ⟨hn, hg, -⟩ := hfits
    obtain ⟨b, hb⟩ := more_to_come hs hp (World.run_consistent h i c hc) (hg ▸ hn)
    obtain ⟨t, ht⟩ : ∃ t, server.step w.server (.on i (.recv (.ok [b]))) = some t :=
      step_of_conn hc (by simp only [Conn.step, hph]; rfl) nofun
    refine hstep ht fun d hd => ?_
    obtain rfl : c = d := Option.some.inj (hc.symm.trans hd)
    exact hb
  · obtain ⟨m, t, ht⟩ := Http.progress hi hci hc hf
    refine hstep ht ?_
    cases m with
    | recv r =>
      obtain ⟨d, d', hd, hstep, -⟩ := Server.step_on ht
      obtain rfl : c = d := Option.some.inj (hc.symm.trans hd)
      simp only [Conn.step] at hstep
      split at hstep
      · exact absurd ⟨_, ‹_›⟩ hr
      · cases hstep
    | _ => trivial

end PsPayload.Http
