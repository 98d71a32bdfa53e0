import PsPayload.Core.Http.Lifecycle

/-!
# The descriptors of a server

`State.Inv` says that what is open has its descriptor. `State.Owned` is the
converse: what is in the descriptor table is the listener that the loop has, or
a connection that has not been closed. A server that goes on accepting for ever
so has no more descriptors than connections that are being served, and one that
has returned leaves none once its threads are through (`no_descriptor_leak`).
-/

namespace PsPayload.Http

open Lib Thread

variable {server : Server} {s t : State}

namespace Conn

variable {limits : Limits} {c c' : Conn} {m : Move}

theorem close_mem_step (h : c.step limits m = some c') (hc : .close ∈ c'.trace) :
    .close ∈ c.trace ∨ m.closes = true := by
  cases m with
  | spawn a =>
    obtain ⟨spawn, -, h⟩ := Option.bind_eq_some_iff.mp h
    cases a with
    | reclaim => exact .inr rfl
    | finish v =>
      simp only [afterAct] at h
      split at h
      · cases h
        exact .inl hc
      · cases h
    | join rc => cases h
    | _ =>
      cases h
      exact .inl hc
  | drop => exact .inr rfl
  | _ =>
    left
    simp only [step] at h
    (repeat' split at h) <;> cases h <;> simpa [record, atRead] using hc

end Conn

/-- What is in the table is in use. -/
structure State.Owned (s : State) : Prop where
  listener : ∀ fd, s.files fd = some .listener → s.loop.listener = some fd
  conn : ∀ fd i, s.files fd = some (.conn i) →
    ∃ c, s.conns[i]? = some c ∧ c.fd = fd ∧ .close ∉ c.trace

theorem owned_init : State.Owned .init := ⟨nofun, nofun⟩

/-- An entry of the table after one for `fd` has been made. -/
theorem files_update {files : Int32 → Option File} {fd fd' : Int32} {f f' : File}
    (h : Function.update files fd (some f) fd' = some f') :
    fd' = fd ∧ f' = f ∨ files fd' = some f' := by
  rw [Function.update_apply] at h
  split at h
  · cases h
    exact .inl ⟨‹_›, rfl⟩
  · exact .inr h

/-- An entry of the table after `close`. -/
theorem files_close {fd fd' : Int32} {f : File} (h : (s.close fd).files fd' = some f) :
    fd' ≠ fd ∧ s.files fd' = some f := by
  simp only [State.close, Function.update_apply] at h
  split at h
  · cases h
  · exact ⟨‹_›, h⟩

theorem bind_owned {r : Result Int32} (ho : s.Owned) (h : server.step s (.bind r) = some t) :
    t.Owned := by
  obtain ⟨hl, ⟨fd, -, -, rfl⟩ | ⟨e, -, rfl⟩⟩ := Server.step_bind h
  · refine ⟨fun fd' h => ?_, fun fd' i h => ?_⟩
    · rcases files_update h with ⟨rfl, -⟩ | h
      · rfl
      · have := ho.listener fd' h
        rw [hl] at this
        cases this
    · rcases files_update h with ⟨-, h⟩ | h
      · cases h
      · exact ho.conn fd' i h
  · refine ⟨fun fd' h => ?_, ho.conn⟩
    have := ho.listener fd' h
    rw [hl] at this
    cases this

theorem accept_ok_owned {fd : Int32} (ho : s.Owned)
    (h : server.step s (.accept (.ok fd)) = some t) : t.Owned := by
  obtain ⟨listener, hl, -, rfl⟩ := Server.step_accept_ok h
  refine ⟨fun fd' h => ?_, fun fd' i h => ?_⟩
  · rcases files_update h with ⟨-, h⟩ | h
    · cases h
    · have := ho.listener fd' h
      rw [hl] at this
      exact this
  · rcases files_update h with ⟨rfl, hf⟩ | h
    · cases hf
      exact ⟨.init server fd', List.getElem?_concat_length, rfl, nofun⟩
    · obtain ⟨c, hc, hfd, hn⟩ := ho.conn fd' i h
      refine ⟨c, ?_, hfd, hn⟩
      rw [List.getElem?_append_left (List.getElem?_eq_some_iff.mp hc).1]
      exact hc

theorem accept_error_owned {e : Errno} (ho : s.Owned)
    (h : server.step s (.accept (.error e)) = some t) : t.Owned := by
  obtain ⟨listener, hl, ⟨-, rfl⟩ | ⟨-, rfl⟩⟩ := Server.step_accept_error h
  · exact ho
  · refine ⟨fun fd' h => ?_, fun fd' i h => ho.conn fd' i (files_close h).2⟩
    obtain ⟨hne, h⟩ := files_close h
    have := ho.listener fd' h
    rw [hl] at this
    exact absurd (Option.some.inj this).symm hne

theorem on_owned {i : Nat} {m : Move} {c c' : Conn} (hi : s.Inv) (ho : s.Owned)
    (hci : c.Inv server.limits) (hc : s.conns[i]? = some c)
    (hs : c.step server.limits m = some c') :
    State.Owned { s.operate i c.fd m with
      loop := s.loop.after i c'.spawn.owner, conns := s.conns.set i c' } := by
  have hlen := (List.getElem?_eq_some_iff.mp hc).1
  have hop : m.operates = true → s.files c.fd = some (.conn i) := fun hm =>
    hi.files i c hc (Conn.step_open hci hm hs)
  rw [operate_eq hop]
  have hfile : ∀ {fd f}, (if m.closes = true then s.close c.fd else s).files fd = some f →
      s.files fd = some f ∧ (m.closes = true → fd ≠ c.fd) := by
    intro fd f h
    split at h
    · exact ⟨(files_close h).2, fun _ => (files_close h).1⟩
    · exact ⟨h, fun h => absurd h ‹_›⟩
  refine ⟨fun fd h => ?_, fun fd j h => ?_⟩
  · rw [listener_after]
    exact ho.listener fd (hfile h).1
  · obtain ⟨h, hcl⟩ := hfile h
    obtain ⟨d, hd, hfd, hn⟩ := ho.conn fd j h
    by_cases hj : i = j
    · subst hj
      rw [hc] at hd
      cases hd
      refine ⟨c', List.getElem?_set_self hlen, ?_, fun hmem => ?_⟩
      · rw [(Conn.step_trace hs).1, hfd]
      · rcases Conn.close_mem_step hs hmem with hmem | hm
        · exact hn hmem
        · exact hcl hm hfd.symm
    · exact ⟨d, by rw [List.getElem?_set_ne hj]; exact hd, hfd, hn⟩

theorem run_owned {ls : List Label} (h : runFrom server.step .init ls = some s) : s.Owned := by
  refine invariant (I := fun _ s => State.Owned s) owned_init (fun ls l s t hs ho h => ?_) h
  cases l with
  | bind r => exact bind_owned ho h
  | accept r =>
    cases r with
    | ok fd => exact accept_ok_owned ho h
    | error e => exact accept_error_owned ho h
  | on i m =>
    obtain ⟨c, c', hc, hc', -, rfl⟩ := Server.step_on h
    exact on_owned (run_inv hs) ho (conn_inv hs hc) hc hc'

/-- A connection whose spawn has failed, or whose thread is through, is closed. -/
theorem closed_of_finished {limits : Limits} {c : Conn} (hi : c.Inv limits)
    (hf : c.spawn.Finished) : .close ∈ c.trace := by
  have hl := Conn.lifecycle_of_inv hi
  rcases hf with ⟨rc, hf⟩ | ⟨-, ht⟩
  · rw [hl.failed rc hf]
    exact List.mem_singleton_self _
  · exact (hl.exited ht).1

/-- At any time the descriptors of the server are that of the listener, until
`serve` returns, and one for each connection that has not been closed yet, its
own. Once `serve` has returned and the threads are through there are none. -/
theorem no_descriptor_leak (server : Server) {ls : List Label} {s : State}
    (h : runFrom server.step .init ls = some s) :
    (∀ fd, s.files fd = some .listener ↔ s.loop.listener = some fd) ∧
    (∀ fd i, s.files fd = some (.conn i) ↔
      ∃ c, s.conns[i]? = some c ∧ c.fd = fd ∧ .close ∉ c.trace) ∧
    ((∃ e, s.loop = .returned e) → (∀ c ∈ s.conns, c.spawn.Finished) → ∀ fd, s.files fd = none) := by
  have hi := run_inv h
  have ho := run_owned h
  refine ⟨fun fd => ⟨ho.listener fd, hi.listener fd⟩, fun fd i => ⟨ho.conn fd i, ?_⟩, ?_⟩
  · rintro ⟨c, hc, rfl, hn⟩
    exact hi.files i c hc hn
  · rintro ⟨e, hl⟩ hall fd
    cases hf : s.files fd with
    | none => rfl
    | some f =>
      cases f with
      | listener =>
        have := ho.listener fd hf
        rw [hl] at this
        cases this
      | conn i =>
        obtain ⟨c, hc, -, hn⟩ := ho.conn fd i hf
        exact absurd (closed_of_finished (conn_inv h hc) (hall c (List.mem_of_getElem? hc))) hn

/-- The spawn for a connection fails, and then the listener does. -/
def emptied : List Label :=
  [.bind (.ok 3), .accept (.ok 4), .on 0 (.spawn (.attrInit 12)), .on 0 (.spawn .reclaim),
    .on 0 (.spawn .dropLocal), .accept (.error ⟨9⟩)]

theorem no_descriptor_leak_emptied : ∃ s : State,
    runFrom Server.new.step .init emptied = some s ∧ s.loop = .returned (.os ⟨9⟩) ∧
      ∀ fd, s.files fd = none := by
  have h : runFrom Server.new.step .init emptied = some _ := rfl
  refine ⟨_, h, rfl, (no_descriptor_leak Server.new h).2.2 ⟨_, rfl⟩ fun c hc => ?_⟩
  obtain rfl := List.mem_singleton.mp hc
  exact .inl ⟨12, rfl⟩

end PsPayload.Http
