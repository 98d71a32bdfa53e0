import PsPayload.Core.Http.Lifecycle

/-!
# The accept loop

`serve` returns with the first result of `bind` or `accept` that it does not
retry (`run_returned`), and only then. What it returns for should be a failure
of the listener. It retries `EINTR` alone, so it is one exactly if no other
`accept` fails for a reason that is not the listener's (`resilient_iff`), and
`ECONNABORTED` is such a reason.
-/

namespace PsPayload.Http

open Lib Thread

variable {server : Server} {s t : State}

/-! ## What the loop returns with -/

namespace Label

/-- The error that `serve` returns with after the label. -/
def fatal : Label → Option Error
  | .bind (.error e) => some e
  | .accept (.error e) => if e.interrupted then none else some (.os e)
  | .bind (.ok _) | .accept (.ok _) | .on _ _ => none

/-- A connection is accepted. -/
def accepts : Label → Bool
  | .accept (.ok _) => true
  | .accept (.error _) | .bind _ | .on _ _ => false

end Label

/-- The one fatal label of a run that has returned, or none. -/
def Returned (ls : List Label) : Loop → Prop
  | .returned e => ∃ l, l.fatal = some e ∧ ls.filter (·.fatal.isSome) = [l]
  | .binding | .accepting _ | .spawning _ _ => ls.filter (·.fatal.isSome) = []

theorem Returned.concat {ls : List Label} {l : Label} {loop : Loop} (h : Returned ls loop)
    (hl : l.fatal = none) : Returned (ls ++ [l]) loop := by
  have : (ls ++ [l]).filter (·.fatal.isSome) = ls.filter (·.fatal.isSome) := by
    simp [List.filter_append, hl]
  cases loop <;> simpa only [Returned, this] using h

theorem Returned.of_fatal {ls : List Label} {l : Label} {e : Error}
    (h : ls.filter (·.fatal.isSome) = []) (hl : l.fatal = some e) :
    Returned (ls ++ [l]) (.returned e) :=
  ⟨l, hl, by simp [List.filter_append, h, hl]⟩

theorem Returned.after {ls : List Label} {loop : Loop} (h : Returned ls loop) (i : Nat)
    (owner : Owner) : Returned ls (loop.after i owner) := by
  cases loop with
  | spawning listener j =>
    rw [Loop.after]
    split
    · exact h
    · exact h
  | _ => exact h

theorem run_returned {ls : List Label} (h : runFrom server.step .init ls = some s) :
    Returned ls s.loop := by
  have hinit : Returned [] State.init.loop := rfl
  refine invariant (I := fun ls s => Returned ls s.loop) hinit (fun ls l s t _ hi h => ?_) h
  match l with
  | .bind (.ok fd) =>
    obtain ⟨hl, ⟨_, -, -, rfl⟩ | ⟨e, he, -⟩⟩ := Server.step_bind h
    · rw [hl] at hi
      exact (show Returned ls (.accepting fd) from hi).concat rfl
    · cases he
  | .bind (.error e) =>
    obtain ⟨hl, ⟨_, he, -⟩ | ⟨e, he, rfl⟩⟩ := Server.step_bind h
    · cases he
    · cases he
      rw [hl] at hi
      exact .of_fatal hi rfl
  | .accept (.ok fd) =>
    obtain ⟨listener, hl, -, rfl⟩ := Server.step_accept_ok h
    rw [hl] at hi
    exact (show Returned ls (.spawning listener _) from hi).concat rfl
  | .accept (.error e) =>
    obtain ⟨listener, hl, ⟨he, rfl⟩ | ⟨he, rfl⟩⟩ := Server.step_accept_error h
    · exact hi.concat (by simp [Label.fatal, he])
    · rw [hl] at hi
      exact .of_fatal hi (by simp [Label.fatal, he])
  | .on i m =>
    obtain ⟨c, c', -, -, -, rfl⟩ := Server.step_on h
    exact (hi.after i _).concat rfl

theorem fatal_eq_some {l : Label} {e : Error} (h : l.fatal = some e) :
    l = .bind (.error e) ∨ ∃ n, n.interrupted = false ∧ l = .accept (.error n) ∧ e = .os n := by
  match l with
  | .bind (.error e') =>
    cases h
    exact .inl rfl
  | .accept (.error n) =>
    cases hn : n.interrupted with
    | true => simp [Label.fatal, hn] at h
    | false =>
      rw [Label.fatal, hn] at h
      cases h
      exact .inr ⟨n, hn, rfl, rfl⟩

theorem mem_of_returned {ls : List Label} {e : Error} (h : Returned ls (.returned e)) :
    .bind (.error e) ∈ ls ∨ ∃ n, n.interrupted = false ∧ .accept (.error n) ∈ ls ∧ e = .os n := by
  obtain ⟨l, hl, hf⟩ := h
  have hm : l ∈ ls := List.mem_of_mem_filter (by rw [hf]; exact List.mem_singleton_self l)
  rcases fatal_eq_some hl with rfl | ⟨n, hn, rfl, he⟩
  · exact .inl hm
  · exact .inr ⟨n, hn, hm, he⟩

/-- A run with a fatal label has returned with its error, and has no other. -/
theorem eq_of_fatal {ls : List Label} {loop : Loop} {l : Label} (h : Returned ls loop) (hm : l ∈ ls)
    {e : Error} (hl : l.fatal = some e) :
    loop = .returned e ∧ ∀ l' ∈ ls, l'.fatal.isSome = true → l' = l := by
  have hf : l ∈ ls.filter (·.fatal.isSome) := List.mem_filter.mpr ⟨hm, by rw [hl]; rfl⟩
  cases loop with
  | returned e' =>
    obtain ⟨l', hl', hls⟩ := h
    rw [hls, List.mem_singleton] at hf
    subst hf
    rw [hl] at hl'
    cases hl'
    refine ⟨rfl, fun l' hm' hl' => ?_⟩
    have hf' : l' ∈ ls.filter (·.fatal.isSome) := List.mem_filter.mpr ⟨hm', hl'⟩
    rwa [hls, List.mem_singleton] at hf'
  | _ =>
    rw [show ls.filter (·.fatal.isSome) = [] from h] at hf
    cases hf

/-! ## Every connection is dispatched -/

theorem run_accepted {ls : List Label} (h : runFrom server.step .init ls = some s) :
    s.conns.length = (ls.filter Label.accepts).length := by
  refine invariant (I := fun ls s => s.conns.length = (ls.filter Label.accepts).length)
    rfl (fun ls l s t _ hi h => ?_) h
  rw [List.filter_append, List.length_append]
  match l with
  | .bind r => obtain ⟨-, ⟨_, -, -, rfl⟩ | ⟨e, -, rfl⟩⟩ := Server.step_bind h <;> exact hi
  | .accept (.ok fd) =>
    obtain ⟨listener, -, -, rfl⟩ := Server.step_accept_ok h
    rw [List.length_append, hi]
    rfl
  | .accept (.error e) =>
    obtain ⟨listener, -, ⟨-, rfl⟩ | ⟨-, rfl⟩⟩ := Server.step_accept_error h <;> exact hi
  | .on i m =>
    obtain ⟨c, c', -, -, -, rfl⟩ := Server.step_on h
    rw [List.length_set]
    exact hi

/-- `spawn` was called for the connection: it has failed, or there is a
thread. -/
def Conn.Dispatched (c : Conn) : Prop :=
  (∃ rc, c.spawn.owner = .failed rc) ∨ c.spawn.thread ≠ .absent

theorem dispatched_of_over {limits : Limits} {c : Conn} (hi : c.Inv limits)
    (ho : c.spawn.owner.over = true) : c.Dispatched := by
  have hc := hi.spawn.ledger.created
  cases hs : c.spawn.owner <;> simp only [hs, Owner.over, reduceCtorEq] at ho
  · exact .inl ⟨_, hs⟩
  · rw [hs] at hc
    exact .inr fun ht => by cases hc.mp ht

/-- No client stops the loop: it returns only for a failure of `bind` or of the
listener (`own` says which errnos of `accept` are such), and what it has
accepted is dispatched, in steps of its own that never have to wait. -/
structure Resilient (server : Server) (own : Errno → Bool) (ls : List Label) (s : State) : Prop where
  returned : ∀ e, s.loop = .returned e →
    .bind (.error e) ∈ ls ∨ ∃ n, own n = true ∧ .accept (.error n) ∈ ls ∧ e = .os n
  accepting : ∀ listener fd, s.loop = .accepting listener → s.files fd = none →
    ∃ t, server.step s (.accept (.ok fd)) = some t
  accepted : s.conns.length = (ls.filter Label.accepts).length
  dispatched : ∀ (i : Nat) (c : Conn), s.conns[i]? = some c → c.Dispatched ∨
    s.loop.current = some i ∧ ∃ m t, m.byOwner = true ∧ server.step s (.on i m) = some t
  handing : ∀ (i : Nat) (c : Conn), s.conns[i]? = some c →
    ((labelsOf i (ls.flatMap Label.pool)).filter Move.byOwner).length ≤ 13

theorem dispatched_run {ls : List Label} (h : runFrom server.step .init ls = some s) (i : Nat)
    (c : Conn) (hc : s.conns[i]? = some c) : c.Dispatched ∨
      s.loop.current = some i ∧ ∃ m t, m.byOwner = true ∧ server.step s (.on i m) = some t := by
  have hi := run_inv h
  cases ho : c.spawn.owner.over with
  | true => exact .inl (dispatched_of_over (conn_inv h hc) ho)
  | false => exact .inr ⟨(hi.current i).mpr ⟨c, hc, ho⟩, progress_owner hi hc ho⟩

/-- The errnos with which `accept` fails for the listening socket itself: `EBADF`,
`EINVAL`, `ENOTSOCK` and `EOPNOTSUPP`. -/
def listenerFailed (e : Errno) : Bool := [9, 22, 38, 45].contains e.code

/-- A client that is gone before it is accepted stops the loop. -/
theorem not_resilient : ¬ ∀ (server : Server) (ls : List Label) (s : State),
    runFrom server.step .init ls = some s → Resilient server listenerFailed ls s := by
  intro hx
  have hres := hx .new [.bind (.ok 3), .accept (.error ⟨ECONNABORTED⟩)] _ rfl
  rcases hres.returned _ rfl with hb | ⟨n, hown, -, he⟩
  · simp at hb
  · cases he
    exact absurd hown (by decide)

/-- Whichever errnos of `accept` are those of a failure of the listener itself, the
loop is resilient in a run exactly if each `accept` that failed in it was
interrupted, or failed for the listener. -/
theorem resilient_iff (server : Server) (own : Errno → Bool) {ls : List Label} {s : State}
    (h : runFrom server.step .init ls = some s) :
    Resilient server own ls s ↔
      ∀ n, .accept (.error n) ∈ ls → n.interrupted = true ∨ own n = true := by
  have hr := run_returned h
  refine ⟨fun hres n hm => ?_, fun hall => ?_⟩
  · cases hn : n.interrupted with
    | true => exact .inl rfl
    | false =>
      right
      have hfatal : (Label.accept (.error n)).fatal = some (.os n) := by simp [Label.fatal, hn]
      obtain ⟨hl, huniq⟩ := eq_of_fatal hr hm hfatal
      rcases hres.returned _ hl with hb | ⟨n', hown, -, he⟩
      · cases huniq _ hb rfl
      · cases he
        exact hown
  · refine ⟨fun e hl => ?_, fun listener fd hl hf => ?_, run_accepted h, dispatched_run h,
      fun i c hc => ?_⟩
    · rw [hl] at hr
      rcases mem_of_returned hr with hb | ⟨n, hn, hm, he⟩
      · exact .inl hb
      · rcases hall n hm with hn' | hown
        · rw [hn] at hn'
          cases hn'
        · exact .inr ⟨n, hown, hm, he⟩
    · exact ⟨_, by simp only [Server.step, hl, TcpListener.accept, hf, if_true]; rfl⟩
    · obtain ⟨fd, hc⟩ := conn_run h hc
      exact Conn.length_handing hc

/-- The listener fails while a connection is being served. -/
def badListener : List Label :=
  [.bind (.ok 3), .accept (.error ⟨EINTR⟩), .accept (.ok 4), .on 0 (.spawn (.attrInit 12)),
    .on 0 (.spawn .reclaim), .on 0 (.spawn .dropLocal), .accept (.error ⟨9⟩)]

theorem resilient_badListener : ∃ s : State,
    runFrom Server.new.step .init badListener = some s ∧ s.loop = .returned (.os ⟨9⟩) ∧
      Resilient Server.new listenerFailed badListener s := by
  have h : runFrom Server.new.step .init badListener = some _ := rfl
  refine ⟨_, h, rfl, (resilient_iff Server.new listenerFailed h).mpr fun n hn => ?_⟩
  simp only [badListener, List.mem_cons, Label.accept.injEq, Except.error.injEq, reduceCtorEq,
    List.not_mem_nil, false_or, or_false] at hn
  rcases hn with rfl | rfl
  · exact .inl rfl
  · exact .inr (by decide)

end PsPayload.Http
