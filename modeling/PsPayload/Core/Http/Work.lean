import PsPayload.Core.Http.Bounds
import PsPayload.Core.Http.Interrupt
import PsPayload.Core.Http.Lifecycle

/-!
# The work on a connection

A connection is over after a number of steps that is known beforehand, up to
the `send` calls that signals interrupt: so many reads as the limits allow, one
call of the handler, at most one `send` for each byte of the answer, and the
steps that hand the connection to its thread and end it (`bounded_work`). A
peer that sends slowly, or takes its answer a byte at a time, does not keep the
thread longer than that.

`Spent` says, phase by phase, how long the trace is.
-/

namespace PsPayload.Http

open Lib Thread

/-- The reads that the limits allow. -/
def maxReads (limits : Limits) : Nat :=
  limits.maxHeaderBytes.toNat + 1 + limits.maxBodyBytes.toNat

namespace Trace

/-- The `send` calls that were interrupted. -/
def interrupts (tr : Trace) : Nat := (tr.sends.filter Send.interrupted).length

@[simp] theorem interrupts_send (tr : Trace) (buf : Bytes) (r : Send) :
    interrupts (tr ++ [.send buf r]) = tr.interrupts + if Send.interrupted r then 1 else 0 := by
  rw [interrupts, sends_concat, List.filter_append, List.length_append, ← interrupts]
  cases h : Send.interrupted r <;> simp [Event.sends, h]

end Trace

/-- How much has been done in each phase. Nothing but `recv` calls before the
handler; and every `send` that is not interrupted takes a byte or more. -/
def Spent (limits : Limits) (tr : Trace) : Phase → Prop
  | .idle => tr = []
  | .dropped => tr = [.close]
  | .reading got => tr = got.map .recv ∧ ∀ bytes, .ok bytes ∈ got → bytes.length ≤ READ_CHUNK
  | .handling _ => tr.length ≤ maxReads limits
  | .writing buf =>
    tr.length ≤ maxReads limits + 1 + tr.sent.length + tr.interrupts ∧ buf ≠ []
  | .shutdown => tr.length ≤ maxReads limits + 2 + tr.sent.length + tr.interrupts
  | .dropping => tr.length ≤ maxReads limits + 3 + tr.sent.length + tr.interrupts
  | .closed => tr.length ≤ maxReads limits + 4 + tr.sent.length + tr.interrupts

section Spent

variable {limits : Limits} {tr : Trace} {got : List Recv} {r : Recv}

/-- A read that the function has asked for. -/
theorem length_le_of_waiting (hw : (readRequest limits).run got = none)
    (hc : ∀ bytes, .ok bytes ∈ got → bytes.length ≤ READ_CHUNK) :
    got.length + 1 ≤ maxReads limits := by
  have hs : ∀ r ∈ got, InChunk r := by
    intro r hr
    obtain ⟨bytes, -, rfl⟩ := isData_of_waiting hw r hr
    exact ⟨bytes, rfl, hc bytes hr⟩
  have := calls_readRequest limits hs
  rw [Script.calls_none hw] at this
  exact this

theorem spent_atWrite {buf : Bytes} (errno : Errno)
    (h : tr.length ≤ maxReads limits + 1 + tr.sent.length + tr.interrupts) :
    Spent limits tr (.atWrite errno buf) := by
  cases buf with
  | nil => exact Nat.le_trans h (by omega)
  | cons b buf => exact ⟨h, List.cons_ne_nil b buf⟩

/-- A turn of the read loops, or the first. -/
theorem spent_atRead {c : Conn} (htr : c.trace = got.map .recv)
    (hc : ∀ bytes, .ok bytes ∈ got → bytes.length ≤ READ_CHUNK)
    (hl : got.length ≤ maxReads limits) : Spent limits c.trace (c.atRead limits got).phase := by
  have hlen : c.trace.length ≤ maxReads limits := by rwa [htr, List.length_map]
  simp only [Conn.atRead]
  split
  · exact ⟨htr, hc⟩
  · exact hlen
  · exact Nat.le_trans hlen (by omega)
  · exact spent_atWrite _ (Nat.le_trans hlen (by omega))

theorem spent_recv {c : Conn} (hw : (readRequest limits).run got = none)
    (hs : Spent limits tr (.reading got)) (hr : ∀ bytes, r = .ok bytes → bytes.length ≤ READ_CHUNK)
    (hc : c.trace = tr ++ [.recv r]) :
    Spent limits c.trace (c.atRead limits (got ++ [r])).phase := by
  obtain ⟨htr, hg⟩ := hs
  refine spent_atRead (by rw [hc, htr, List.map_append, List.map_singleton]) (fun bytes h => ?_) ?_
  · rcases List.mem_append.mp h with h | h
    · exact hg bytes h
    · exact hr bytes (List.mem_singleton.mp h).symm
  · rw [List.length_append, List.length_singleton]
    exact length_le_of_waiting hw hg

/-- A `send` that `write_all` goes on after was interrupted, or took a byte. -/
theorem sent_or_interrupted {errno errno' : Errno} {buf rest : Bytes} {r : Send} (hb : buf ≠ [])
    (hn : r.toOption.all (· ≤ buf.length) = true)
    (h : TcpStream.writeAllBody (errno, buf) r = .inr (errno', rest)) :
    1 ≤ (Event.send buf r).sent.length + if Send.interrupted r then 1 else 0 := by
  obtain ⟨hf, -⟩ := writeAllBody_inr h
  cases r with
  | ok n =>
    have hn0 : n ≠ 0 := by simpa [Send.failed] using hf
    have := List.length_pos_iff.mpr hb
    simp only [Event.sent, List.length_take]
    omega
  | error e =>
    have he : e.interrupted = true := by simpa [Send.failed] using hf
    simp [Send.interrupted, he]

theorem spent_send {errno errno' : Errno} {buf rest : Bytes} {r : Send}
    (hs : Spent limits tr (.writing buf)) (hn : r.toOption.all (· ≤ buf.length) = true)
    (h : TcpStream.writeAllBody (errno, buf) r = .inr (errno', rest)) :
    Spent limits (tr ++ [.send buf r]) (.atWrite errno' rest) := by
  obtain ⟨hl, hb⟩ := hs
  have := sent_or_interrupted hb hn h
  refine spent_atWrite _ ?_
  rw [List.length_append, List.length_singleton, Trace.sent_concat, List.length_append,
    Trace.interrupts_send]
  omega

theorem spent_failed {buf : Bytes} {r : Send} (hs : Spent limits tr (.writing buf)) :
    Spent limits (tr ++ [.send buf r]) .shutdown := by
  have hl := hs.1
  show (tr ++ [Event.send buf r]).length ≤ _
  rw [List.length_append, List.length_singleton, Trace.sent_concat, List.length_append,
    Trace.interrupts_send]
  omega

/-- A step that neither receives nor sends. -/
theorem spent_concat {e : Event} {n : Nat} (hs : e.sends = []) (hb : e.sent = [])
    (h : tr.length ≤ n + tr.sent.length + tr.interrupts) :
    (tr ++ [e]).length ≤ n + 1 + (Trace.sent (tr ++ [e])).length + Trace.interrupts (tr ++ [e]) := by
  rw [List.length_append, List.length_singleton, Trace.sent_concat, hb, List.append_nil,
    Trace.interrupts, Trace.sends_concat, hs, List.append_nil, ← Trace.interrupts]
  omega

end Spent

/-! ## One connection -/

namespace Conn

variable {limits : Limits} {c c' : Conn} {m : Move}

theorem spent_serve (hm : ∀ a, m ≠ .spawn a) (hi : Inv limits c)
    (hs : Spent limits c.trace c.phase) (h : c.step limits m = some c') :
    Spent limits c'.trace c'.phase := by
  have hf := hi.fits
  cases m with
  | spawn a => exact absurd rfl (hm a)
  | recv r =>
    simp only [step] at h
    split at h
    · rename_i got hp
      rw [hp] at hf hs
      split at h
      · split at h
        · rename_i hl
          cases h
          exact spent_recv hf.1 hs (fun bytes hb => by cases hb; exact hl) rfl
        · cases h
      · cases h
        exact spent_recv hf.1 hs (fun bytes hb => by cases hb) rfl
    · cases h
  | call response errno =>
    simp only [step] at h
    split at h
    · rename_i req hp
      rw [hp] at hs
      cases h
      refine spent_atWrite _ ?_
      have := spent_concat (e := .call req response) (n := maxReads limits) rfl rfl
        (Nat.le_trans hs (by omega))
      exact this
    · cases h
  | send r =>
    simp only [step] at h
    split at h
    · rename_i buf hp
      rw [hp] at hs
      split at h
      · rename_i hn
        split at h
        · cases h
          exact spent_failed hs
        · rename_i hb
          cases h
          exact spent_send hs hn hb
      · cases h
    · cases h
  | shutdown =>
    simp only [step] at h
    split at h
    · rename_i hp
      rw [hp] at hs
      cases h
      exact spent_concat (e := .shutdown) rfl rfl hs
    · cases h
  | drop =>
    simp only [step] at h
    split at h
    · rename_i hp
      rw [hp] at hs
      cases h
      exact spent_concat (e := .close) rfl rfl hs
    · cases h

theorem spent_spawn {a : Act Unit} {spawn : Spawn Unit} (hi : Inv limits c)
    (hs : Spent limits c.trace c.phase) (ha : c.spawn.step a = some spawn)
    (h : afterAct limits { c with spawn } a = some c') : Spent limits c'.trace c'.phase := by
  have hsi := Spawn.step_inv hi.spawn ha
  cases a with
  | start =>
    obtain ⟨-, hr, hd⟩ := Spawn.step_start ha
    obtain ⟨-, -, htr⟩ := idle_of_taken hi hsi (by omega)
    cases h
    exact spent_atRead (c := { c with spawn }) htr nofun (Nat.zero_le _)
  | reclaim =>
    obtain ⟨hr, hd⟩ := Spawn.step_reclaim ha
    obtain ⟨-, -, htr⟩ := idle_of_taken hi hsi (by omega)
    cases h
    show c.trace ++ [.close] = [.close]
    rw [htr, List.nil_append]
  | finish v =>
    simp only [afterAct] at h
    split at h
    · cases h
      exact hs
    · cases h
  | join rc => cases h
  | _ =>
    cases h
    exact hs

theorem spent_step (hi : Inv limits c) (hs : Spent limits c.trace c.phase)
    (h : c.step limits m = some c') : Spent limits c'.trace c'.phase := by
  by_cases hm : ∃ a, m = .spawn a
  · obtain ⟨a, rfl⟩ := hm
    obtain ⟨spawn, ha, h⟩ := Option.bind_eq_some_iff.mp h
    exact spent_spawn hi hs ha h
  · exact spent_serve (fun a ha => hm ⟨a, ha⟩) hi hs h

theorem length_trace (hi : Inv limits c) (hs : Spent limits c.trace c.phase) :
    c.trace.length ≤ maxReads limits + 4 + c.trace.sent.length + c.trace.interrupts := by
  have hf := hi.fits
  cases hp : c.phase with
  | idle =>
    rw [hp] at hs
    rw [show c.trace = [] from hs]
    exact Nat.zero_le _
  | dropped =>
    rw [hp] at hs
    rw [show c.trace = [.close] from hs, List.length_singleton]
    omega
  | reading got =>
    rw [hp] at hf hs
    have hl := length_le_of_waiting hf.1 hs.2
    have : c.trace.length = got.length := by rw [hs.1, List.length_map]
    omega
  | handling req =>
    rw [hp] at hs
    exact Nat.le_trans hs (by omega)
  | writing buf =>
    rw [hp] at hs
    exact Nat.le_trans hs.1 (by omega)
  | shutdown | dropping | closed =>
    rw [hp] at hs
    exact Nat.le_trans hs (by omega)

/-- Every step is one of the spawn, or something that is done on the connection. -/
theorem length_step (h : c.step limits m = some c') :
    1 + c.trace.length ≤ m.acts.length + c'.trace.length := by
  cases m with
  | spawn a =>
    obtain ⟨-, es, htr, -⟩ := step_trace h
    rw [htr, List.length_append, Move.acts, List.length_singleton]
    omega
  | _ =>
    simp only [step] at h
    (repeat' split at h) <;> cases h <;> simp [Move.acts, record, atRead, Nat.add_comm]

theorem length_run {server : Server} {fd : Int32} {ms : List Move}
    (h : runFrom (step limits) (init server fd) ms = some c) :
    ms.length ≤ (ms.flatMap Move.acts).length + c.trace.length := by
  refine invariant (I := fun ms (c : Conn) =>
    ms.length ≤ (ms.flatMap Move.acts).length + c.trace.length) (Nat.zero_le _) ?_ h
  intro ms m c c' _ ih hs
  have := length_step hs
  rw [List.length_append, List.length_singleton, List.flatMap_append, List.length_append,
    List.flatMap_singleton]
  omega

theorem spent_run {server : Server} {fd : Int32} {ms : List Move}
    (h : runFrom (step limits) (init server fd) ms = some c) :
    Inv limits c ∧ Spent limits c.trace c.phase :=
  invariant (I := fun _ (c : Conn) => Inv limits c ∧ Spent limits c.trace c.phase)
    ⟨inv_init server fd, rfl⟩
    (fun _ _ _ _ _ hi hl => ⟨step_inv hi.1 hl, spent_step hi.1 hi.2 hl⟩) h

end Conn

/-- Whatever its peer does, and whatever the other connections do, a connection
takes a bounded number of steps: those of the spawn and of the end, the reads
that the limits allow, one for each byte of the answer, and the `send` calls
that are interrupted. -/
theorem bounded_work (server : Server) {ls : List Label} {s : State}
    (h : runFrom server.step .init ls = some s) (i : Nat) (c : Conn)
    (hc : s.conns[i]? = some c) :
    (labelsOf i (ls.flatMap Label.pool)).length ≤ 17 + maxReads server.limits +
      (answerTo server.limits c.trace).length + c.trace.interrupts := by
  obtain ⟨fd, hr⟩ := conn_run h hc
  obtain ⟨hi, hs⟩ := Conn.spent_run hr
  have htr := Conn.length_trace hi hs
  have hlen := Conn.length_run hr
  have hacts := Spawn.run_length (b := Builder.new.withStackSize server.stackSize)
    (simulation (f := Conn.spawn) (g := Move.acts) (fun _ _ _ => Conn.step_acts) hr)
  have hsent := (fits_sent hi.fits).2.length_le
  omega

theorem bounded_work_twoConns : ∃ (s : State) (c : Conn),
    runFrom Server.new.step .init twoConns = some s ∧ s.conns[0]? = some c ∧
      (labelsOf 0 (twoConns.flatMap Label.pool)).length ≤ 17 + maxReads Server.new.limits +
        (answerTo Server.new.limits c.trace).length + c.trace.interrupts := by
  have h : runFrom Server.new.step .init twoConns = some _ := rfl
  exact ⟨_, _, h, rfl, bounded_work Server.new h 0 _ rfl⟩

end PsPayload.Http
