import PsPayload.Core.Http.Connection
import PsPayload.Lib.Transition

/-!
# The connections of a server

In a run of `Server.step` every connection takes a run of its own (`conn_run`),
so `Conn.Inv` holds of it. `State.Inv` is about what connections share: the
accept loop, which hands one connection at a time to its thread, and the
descriptor table. `lifecycle` puts the two together.
-/

namespace PsPayload.Http

open Lib Thread

variable {server : Server} {s t : State} {i : Nat} {m : Move}

/-! ## What a step can do -/

namespace Server

theorem step_bind {r : Result Int32} (h : server.step s (.bind r) = some t) :
    s.loop = .binding ∧
      ((∃ fd, r = .ok fd ∧ s.files fd = none ∧ t = { s with
          loop := .accepting fd, files := Function.update s.files fd (some .listener) }) ∨
        ∃ e, r = .error e ∧ t = { s with loop := .returned e }) := by
  simp only [step] at h
  split at h
  · rename_i hl
    split at h
    · split at h
      · rename_i hf
        cases h
        exact ⟨hl, .inl ⟨_, rfl, hf, rfl⟩⟩
      · cases h
    · cases h
      exact ⟨hl, .inr ⟨_, rfl, rfl⟩⟩
  · cases h

theorem step_accept_ok {fd : Int32} (h : server.step s (.accept (.ok fd)) = some t) :
    ∃ listener, s.loop = .accepting listener ∧ s.files fd = none ∧
      t = { s with
        loop := .spawning listener s.conns.length, conns := s.conns ++ [.init server fd]
        files := Function.update s.files fd (some (.conn s.conns.length)) } := by
  simp only [step, TcpListener.accept] at h
  split at h
  · rename_i listener hl
    split at h
    · rename_i hf
      cases h
      exact ⟨listener, hl, hf, rfl⟩
    · cases h
  · cases h

theorem step_accept_error {e : Errno} (h : server.step s (.accept (.error e)) = some t) :
    ∃ listener, s.loop = .accepting listener ∧
      (e.interrupted = true ∧ t = s ∨
        e.interrupted = false ∧ t = State.close { s with loop := .returned (.os e) } listener) := by
  simp only [step, TcpListener.accept, Error.errno, Option.any_some] at h
  split at h
  · rename_i listener hl
    cases he : e.interrupted with
    | true =>
      simp only [he, if_true] at h
      cases h
      exact ⟨listener, hl, .inl ⟨rfl, rfl⟩⟩
    | false =>
      simp only [he, Bool.false_eq_true, if_false] at h
      cases h
      exact ⟨listener, hl, .inr ⟨rfl, rfl⟩⟩
  · cases h

theorem step_on (h : server.step s (.on i m) = some t) :
    ∃ c c', s.conns[i]? = some c ∧ c.step server.limits m = some c' ∧
      (m.byOwner = true → s.loop.current = some i) ∧
      t = { s.operate i c.fd m with
        loop := s.loop.after i c'.spawn.owner, conns := s.conns.set i c' } := by
  obtain ⟨c, hc, h⟩ := Option.bind_eq_some_iff.mp h
  split at h
  · cases h
  · rename_i hn
    obtain ⟨c', hc', rfl⟩ := Option.map_eq_some_iff.mp h
    refine ⟨c, c', hc, hc', fun hm => ?_, rfl⟩
    by_contra hl
    exact hn ⟨hm, hl⟩

end Server

/-! ## Each connection on its own -/

/-- What a label does to the connections. -/
def Label.pool : Label → List (PoolLabel Int32 Move)
  | .accept (.ok fd) => [.add fd]
  | .on i m => [.on i m]
  | .bind _ | .accept (.error _) => []

theorem step_conns {l : Label} (h : server.step s l = some t) :
    runFrom (poolStep (Conn.init server) (Conn.step server.limits)) s.conns l.pool =
      some t.conns := by
  match l with
  | .bind r =>
    obtain ⟨-, ⟨fd, -, -, rfl⟩ | ⟨e, -, rfl⟩⟩ := Server.step_bind h <;> rfl
  | .accept (.ok fd) =>
    obtain ⟨listener, -, -, rfl⟩ := Server.step_accept_ok h
    rfl
  | .accept (.error e) =>
    obtain ⟨listener, -, ⟨-, rfl⟩ | ⟨-, rfl⟩⟩ := Server.step_accept_error h <;> rfl
  | .on i m =>
    obtain ⟨c, c', hc, hc', -, rfl⟩ := Server.step_on h
    rw [Label.pool, runFrom_singleton, poolStep, hc, Option.bind_some, hc']
    rfl

/-- The connections of a server are a pool of connection threads. -/
theorem conns_run {ls : List Label} (h : runFrom server.step .init ls = some s) :
    runFrom (poolStep (Conn.init server) (Conn.step server.limits)) [] (ls.flatMap Label.pool) =
      some s.conns :=
  simulation (f := State.conns) (g := Label.pool) (fun _ _ _ => step_conns) h

theorem conn_run {ls : List Label} {c : Conn} (h : runFrom server.step .init ls = some s)
    (hc : s.conns[i]? = some c) :
    ∃ fd, runFrom (Conn.step server.limits) (Conn.init server fd)
      (labelsOf i (ls.flatMap Label.pool)) = some c :=
  pool_component (conns_run h) hc

theorem conn_inv {ls : List Label} {c : Conn} (h : runFrom server.step .init ls = some s)
    (hc : s.conns[i]? = some c) : c.Inv server.limits := by
  obtain ⟨fd, hr⟩ := conn_run h hc
  exact invariant (I := fun _ c => Conn.Inv server.limits c) (Conn.inv_init server fd)
    (fun _ _ _ _ _ hi hl => Conn.step_inv hi hl) hr

/-! ## What connections share -/

/-- The listener, while `serve` has it. -/
def Loop.listener : Loop → Option Int32
  | .accepting listener | .spawning listener _ => some listener
  | .binding | .returned _ => none

@[simp] theorem listener_after (loop : Loop) (owner : Owner) :
    (loop.after i owner).listener = loop.listener := by
  cases loop with
  | spawning listener j =>
    simp only [Loop.after]
    split <;> rfl
  | _ => rfl

theorem current_after (loop : Loop) (owner : Owner) :
    (loop.after i owner).current =
      if loop.current = some i ∧ owner.over = true then none else loop.current := by
  cases loop with
  | spawning listener j =>
    by_cases hj : j = i ∧ owner.over = true
    · simp [Loop.after, Loop.current, hj]
    · simp only [Loop.after, Loop.current, Option.some_inj, if_neg hj]
  | _ => simp [Loop.after, Loop.current]

structure State.Inv (s : State) : Prop where
  current : ∀ i, s.loop.current = some i ↔ ∃ c, s.conns[i]? = some c ∧ c.spawn.owner.over = false
  listener : ∀ fd, s.loop.listener = some fd → s.files fd = some .listener
  files : ∀ i c, s.conns[i]? = some c → .close ∉ c.trace → s.files c.fd = some (.conn i)
  stray : s.stray = 0

theorem inv_init : State.Inv .init where
  current := by simp [State.init, Loop.current]
  listener := nofun
  files := by simp [State.init]
  stray := rfl

/-- A call on a descriptor that stands for its connection. -/
theorem operate_eq {fd : Int32} (h : m.operates = true → s.files fd = some (.conn i)) :
    s.operate i fd m = if m.closes = true then s.close fd else s := by
  have hn : ¬ (m.operates = true ∧ s.files fd ≠ some (.conn i)) := fun hx => hx.2 (h hx.1)
  rw [State.operate, if_neg hn]

theorem operates_of_closes (h : m.closes = true) : m.operates = true := by
  cases m with
  | spawn a => cases a <;> first | rfl | cases h
  | drop => rfl
  | _ => cases h

section Step

theorem bind_inv {r : Result Int32} (hi : s.Inv) (h : server.step s (.bind r) = some t) :
    t.Inv := by
  obtain ⟨hl, ⟨fd, -, hf, rfl⟩ | ⟨e, -, rfl⟩⟩ := Server.step_bind h
  · refine ⟨fun i => ?_, fun fd' h => ?_, fun i c hc ho => ?_, hi.stray⟩
    · rw [← hi.current i, hl]
      rfl
    · cases h
      exact Function.update_self ..
    · have := hi.files i c hc ho
      rw [← this]
      exact Function.update_of_ne (fun h => by rw [h, hf] at this; cases this) ..
  · refine ⟨fun i => ?_, nofun, hi.files, hi.stray⟩
    rw [← hi.current i, hl]
    rfl

theorem accept_ok_inv {fd : Int32} (hi : s.Inv) (h : server.step s (.accept (.ok fd)) = some t) :
    t.Inv := by
  obtain ⟨listener, hl, hf, rfl⟩ := Server.step_accept_ok h
  have hold : ∀ (i : Nat) (c : Conn), s.conns[i]? = some c → c.spawn.owner.over = true := by
    intro i c hc
    by_contra ho
    have := (hi.current i).mpr ⟨c, hc, by simpa using ho⟩
    rw [hl] at this
    cases this
  have hne : ∀ {fd' : Int32} {f : File}, s.files fd' = some f → fd' ≠ fd := by
    intro fd' f hfd he
    rw [he, hf] at hfd
    cases hfd
  refine ⟨fun i => ?_, fun fd' h => ?_, fun i c hc ho => ?_, hi.stray⟩
  · simp only [Loop.current, Option.some_inj, List.getElem?_append, List.getElem?_singleton]
    refine ⟨fun h => ?_, fun ⟨c, hc, ho⟩ => ?_⟩
    · subst h
      exact ⟨.init server fd, by simp, rfl⟩
    · split at hc
      · rw [hold i c hc] at ho
        cases ho
      · split at hc
        · omega
        · cases hc
  · cases h
    have := hi.listener listener (by rw [hl]; rfl)
    rw [← this]
    exact Function.update_of_ne (hne this) ..
  · simp only [List.getElem?_append, List.getElem?_singleton] at hc
    split at hc
    · have := hi.files i c hc ho
      rw [← this]
      exact Function.update_of_ne (hne this) ..
    · split at hc
      · cases hc
        rw [show i = s.conns.length by omega]
        exact Function.update_self ..
      · cases hc

theorem accept_error_inv {e : Errno} (hi : s.Inv)
    (h : server.step s (.accept (.error e)) = some t) : t.Inv := by
  obtain ⟨listener, hl, ⟨-, rfl⟩ | ⟨-, rfl⟩⟩ := Server.step_accept_error h
  · exact hi
  · refine ⟨fun i => ?_, nofun, fun i c hc ho => ?_, hi.stray⟩
    · rw [State.close, ← hi.current i, hl]
      rfl
    · have hf := hi.files i c hc ho
      have := hi.listener listener (by rw [hl]; rfl)
      rw [← hf]
      exact Function.update_of_ne (fun h => by rw [h, this] at hf; cases hf) ..

theorem on_inv {c c' : Conn} (hi : s.Inv) (hci : c.Inv server.limits) (hc : s.conns[i]? = some c)
    (hs : c.step server.limits m = some c') (hm : m.byOwner = true → s.loop.current = some i) :
    State.Inv { s.operate i c.fd m with
      loop := s.loop.after i c'.spawn.owner, conns := s.conns.set i c' } := by
  have hlen := (List.getElem?_eq_some_iff.mp hc).1
  obtain ⟨hfd, es, htr, hcl⟩ := Conn.step_trace hs
  have hop : m.operates = true → s.files c.fd = some (.conn i) := fun hm =>
    hi.files i c hc (Conn.step_open hci hm hs)
  have hown : s.loop.current = some i ∨
      c'.spawn.owner.over = c.spawn.owner.over ∧ c.spawn.owner.over = true := by
    cases hb : m.byOwner with
    | true => exact .inl (hm hb)
    | false =>
      cases ho : c.spawn.owner.over with
      | true => exact .inr ⟨by rw [Conn.step_owner hb hs, ho], rfl⟩
      | false => exact .inl ((hi.current i).mpr ⟨c, hc, ho⟩)
  have hne : ∀ {fd : Int32} {f : File}, m.closes = true → s.files fd = some f → f ≠ .conn i →
      fd ≠ c.fd := by
    intro fd f hcl hf hn he
    rw [he, hop (operates_of_closes hcl)] at hf
    cases hf
    exact hn rfl
  rw [operate_eq hop]
  refine ⟨fun j => ?_, fun fd h => ?_, fun j d hd ho => ?_, ?_⟩
  · simp only [current_after]
    by_cases hj : i = j
    · subst hj
      simp only [List.getElem?_set_self hlen, Option.some_inj, exists_eq_left']
      rcases hown with hown | ⟨hsame, ho⟩
      · rw [hown]
        cases c'.spawn.owner.over <;> simp
      · have hno : s.loop.current ≠ some i := by
          intro h
          obtain ⟨d, hd, hod⟩ := (hi.current i).mp h
          rw [hc] at hd
          cases hd
          rw [ho] at hod
          cases hod
        simp [hno, hsame, ho]
    · rw [List.getElem?_set_ne hj, ← hi.current j]
      split
      · rename_i h
        simp [h.1, hj]
      · rfl
  · rw [listener_after] at h
    have hf := hi.listener fd h
    split
    · rename_i hcl
      rw [← hf]
      exact Function.update_of_ne (hne hcl hf nofun) ..
    · exact hf
  · by_cases hj : i = j
    · subst hj
      rw [List.getElem?_set_self hlen] at hd
      cases hd
      rw [htr, List.mem_append, not_or] at ho
      have hn : ¬ m.closes = true := fun h => ho.2 (by rw [hcl h]; exact List.mem_singleton_self _)
      rw [if_neg hn, hfd]
      exact hi.files i c hc ho.1
    · rw [List.getElem?_set_ne hj] at hd
      have hf := hi.files j d hd ho
      split
      · rename_i hcl
        rw [← hf]
        exact Function.update_of_ne (hne hcl hf fun h => hj (File.conn.inj h).symm) ..
      · exact hf
  · split
    · exact hi.stray
    · exact hi.stray

end Step

theorem run_inv {ls : List Label} (h : runFrom server.step .init ls = some s) : s.Inv := by
  refine invariant (I := fun _ s => State.Inv s) inv_init (fun ls l s t hs hi h => ?_) h
  match l with
  | .bind r => exact bind_inv hi h
  | .accept (.ok fd) => exact accept_ok_inv hi h
  | .accept (.error e) => exact accept_error_inv hi h
  | .on i m =>
    obtain ⟨c, c', hc, hc', hm, rfl⟩ := Server.step_on h
    exact on_inv hi (conn_inv hs hc) hc hc' hm

/-! ## Progress -/

theorem step_of_conn {c c' : Conn} (hc : s.conns[i]? = some c)
    (hs : c.step server.limits m = some c') (hm : m.byOwner = true → s.loop.current = some i) :
    ∃ t, server.step s (.on i m) = some t := by
  have hn : ¬ (m.byOwner = true ∧ s.loop.current ≠ some i) := fun h => h.2 (hm h.1)
  exact ⟨_, by rw [Server.step, hc, Option.bind_some, if_neg hn, hs]; rfl⟩

/-- The loop can go on handing over a connection. -/
theorem progress_owner {c : Conn} (hi : s.Inv) (hc : s.conns[i]? = some c)
    (ho : c.spawn.owner.over = false) :
    ∃ m t, m.byOwner = true ∧ server.step s (.on i m) = some t := by
  obtain ⟨a, spawn, ha, hj, hs⟩ := Spawn.owner_progress ho
  obtain ⟨c', hc'⟩ := Conn.step_of_spawn server.limits ha hj hs
  obtain ⟨t, ht⟩ := step_of_conn hc hc' fun _ => (hi.current i).mpr ⟨c, hc, ho⟩
  exact ⟨.spawn a, t, ha, ht⟩

theorem progress {c : Conn} (hi : s.Inv) (hci : c.Inv server.limits) (hc : s.conns[i]? = some c)
    (hf : ¬ c.spawn.Finished) : ∃ m t, server.step s (.on i m) = some t := by
  cases ho : c.spawn.owner.over with
  | false =>
    obtain ⟨m, t, -, h⟩ := progress_owner hi hc ho
    exact ⟨m, t, h⟩
  | true =>
    obtain ⟨m, c', hm, hs⟩ := Conn.progress hci ho hf
    obtain ⟨t, ht⟩ := step_of_conn hc hs (by rw [hm]; exact nofun)
    exact ⟨m, t, ht⟩

/-! ## The lifecycle of every connection -/

/-- Whatever the calls return, and however the steps of the accept loop and of
the connection threads come one after the other. -/
theorem lifecycle (server : Server) {ls : List Label} {s : State}
    (h : runFrom server.step .init ls = some s) :
    s.stray = 0 ∧ ∀ (i : Nat) (c : Conn), s.conns[i]? = some c →
      c.Lifecycle server.limits ∧
        (c.spawn.Finished ∨ ∃ m t, server.step s (.on i m) = some t) := by
  have hi := run_inv h
  refine ⟨hi.stray, fun i c hc => ?_⟩
  have hci := conn_inv h hc
  refine ⟨Conn.lifecycle_of_inv hci, ?_⟩
  by_cases hf : c.spawn.Finished
  · exact .inl hf
  · exact .inr (progress hi hci hc hf)

/-- Two connections. The first sends a request, and its answer goes out in two
parts. The spawn for the second fails, and its descriptor is used again. -/
def twoConns : List Label :=
  [.bind (.ok 3), .accept (.error ⟨EINTR⟩), .accept (.ok 4), .on 0 (.spawn (.attrInit 0)),
    .on 0 (.spawn (.setStackSize 0)), .on 0 (.spawn (.create 0)), .on 0 (.spawn .start),
    .on 0 (.spawn .attrDestroy), .on 0 (.recv (.ok [71, 32, 47, 32, 72, 13])),
    .on 0 (.spawn .drop), .on 0 (.spawn .dropBody), .on 0 (.recv (.ok [10, 13, 10])),
    .on 0 (.call .ok ⟨0⟩), .on 0 (.spawn .dropShared), .accept (.ok 5), .on 0 (.send (.ok 50)),
    .on 1 (.spawn (.attrInit 12)), .on 1 (.spawn .reclaim), .on 0 (.send (.ok 7)), .on 0 .shutdown,
    .on 1 (.spawn .dropLocal), .accept (.ok 5), .on 0 .drop, .on 0 (.spawn (.finish ())),
    .on 0 (.spawn .store), .on 0 (.spawn .release), .on 0 (.spawn .exit)]

set_option maxRecDepth 4000 in
theorem lifecycle_twoConns : ∃ (s : State) (c : Conn),
    runFrom Server.new.step .init twoConns = some s ∧ s.conns[0]? = some c ∧ s.stray = 0 ∧
      c.spawn.thread = .exited ∧ Answered Server.new.limits c.trace := by
  have h : runFrom Server.new.step .init twoConns = some _ := rfl
  obtain ⟨hs, hc⟩ := lifecycle Server.new h
  exact ⟨_, _, h, rfl, hs, rfl, ((hc 0 _ rfl).1.exited rfl).2⟩

end PsPayload.Http
