import PsPayload.Core.Http.Serve
import PsPayload.Ps5.Thread.HandOff

/-!
# The life of a connection

`Fits` says, phase by phase, what has been done on a connection; each step of
its thread and of its spawn keeps it (`Conn.step_inv`). `Conn.lifecycle` reads
off what holds of every connection, and `Conn.progress` says that its thread is
never stuck.
-/

namespace PsPayload.Http

open Lib Thread

namespace Trace

variable (tr : Trace) (e : Event)

@[simp] theorem received_concat : received (tr ++ [e]) = tr.received ++ e.received := by
  simp [received]

@[simp] theorem calls_concat : calls (tr ++ [e]) = tr.calls ++ e.calls := by simp [calls]

@[simp] theorem sends_concat : sends (tr ++ [e]) = tr.sends ++ e.sends := by simp [sends]

@[simp] theorem sent_concat : sent (tr ++ [e]) = tr.sent ++ e.sent := by simp [sent]

end Trace

/-! ## What is sent -/

/-- What is to be sent: the response to the request, or a 400 for an error. -/
def answerTo (limits : Limits) (tr : Trace) : Bytes :=
  match (readRequest limits).run tr.received with
  | some (.ok (some _), _) => tr.calls.flatMap fun call => call.2.encode
  | some (.error _, _) => ((Response.new 400).text "Bad Request".toList).encode
  | some (.ok none, _) | none => []

set_option maxRecDepth 10000 in
/-- The 400, byte by byte. -/
example : ((Response.new 400).text "Bad Request".toList).encode = utf8
    ("HTTP/1.1 400 Bad Request\r\nContent-Type: text/plain; charset=utf-8\r\n" ++
      "Content-Length: 11\r\nConnection: close\r\n\r\nBad Request").toList := by decide

/-- The request that `read_request` returned, if it returned one. -/
def requests : Result (Option Request) → List Request
  | .ok (some req) => [req]
  | .ok none | .error _ => []

/-- The read has ended, and the handler has been called on what it returned. -/
def Handled (limits : Limits) (tr : Trace) : Prop :=
  ∃ r, (readRequest limits).run tr.received = some (r, []) ∧ tr.calls.map Prod.fst = requests r

/-- The answer is sent, up to the first `send` that failed. -/
structure Answered (limits : Limits) (tr : Trace) : Prop where
  handled : Handled limits tr
  sent : tr.sent <+: answerTo limits tr
  whole : (∀ r ∈ tr.sends, r.failed = false) → tr.sent = answerTo limits tr

/-- Nothing has been handled yet. -/
structure Unanswered (tr : Trace) : Prop where
  calls : tr.calls = []
  sends : tr.sends = []
  sent : tr.sent = []
  opened : .close ∉ tr

attribute [simp] Event.received Event.calls Event.sends Event.sent

section Trace

variable {limits : Limits} {tr tr' : Trace}

theorem answerTo_congr (hr : tr'.received = tr.received) (hc : tr'.calls = tr.calls) :
    answerTo limits tr' = answerTo limits tr := by
  rw [answerTo, answerTo, hr, hc]

theorem answerTo_send (buf : Bytes) (r : Send) :
    answerTo limits (tr ++ [.send buf r]) = answerTo limits tr :=
  answerTo_congr (by simp) (by simp)

theorem Handled.congr (h : Handled limits tr) (hr : tr'.received = tr.received)
    (hc : tr'.calls = tr.calls) : Handled limits tr' := by
  rw [Handled, hr, hc]
  exact h

/-- The answer stands, whatever is done after it that is not a `send`. -/
theorem Answered.congr (h : Answered limits tr) (hr : tr'.received = tr.received)
    (hc : tr'.calls = tr.calls) (hs : tr'.sends = tr.sends) (hb : tr'.sent = tr.sent) :
    Answered limits tr' where
  handled := h.handled.congr hr hc
  sent := by rw [hb, answerTo_congr hr hc]; exact h.sent
  whole := by rw [hs, hb, answerTo_congr hr hc]; exact h.whole

end Trace

section WriteAll

variable {errno errno' : Errno} {buf rest : Bytes} {r : Send} {x : Result Unit}

theorem writeAllBody_inl (h : TcpStream.writeAllBody (errno, buf) r = .inl x) :
    r.failed = true ∧ (Event.send buf r).sent = [] := by
  cases r with
  | ok n =>
    simp only [TcpStream.writeAllBody] at h
    split at h
    · rename_i hn
      exact ⟨by simp [Send.failed, hn], by simp [hn]⟩
    · cases h
  | error e =>
    refine ⟨?_, rfl⟩
    by_contra he
    have hi : e.interrupted = true := by simpa [Send.failed] using he
    simp [TcpStream.writeAllBody, Error.errno, hi] at h

theorem writeAllBody_inr (h : TcpStream.writeAllBody (errno, buf) r = .inr (errno', rest)) :
    r.failed = false ∧ (Event.send buf r).sent ++ rest = buf := by
  cases r with
  | ok n =>
    simp only [TcpStream.writeAllBody] at h
    split at h
    · cases h
    · rename_i hn
      cases h
      exact ⟨by simpa [Send.failed] using hn, List.take_append_drop n buf⟩
  | error e =>
    by_cases hi : e.interrupted = true
    · simp only [TcpStream.writeAllBody, Error.errno, Option.any_some, hi, if_true] at h
      cases h
      exact ⟨by simp [Send.failed, hi], rfl⟩
    · simp [TcpStream.writeAllBody, Error.errno, hi] at h

end WriteAll

/-! ## Phases -/

/-- What has been done in each phase. -/
def Fits (limits : Limits) (tr : Trace) : Phase → Prop
  | .idle => tr = []
  | .dropped => tr = [.close]
  | .reading got =>
    (readRequest limits).run got = none ∧ tr.received = got ∧ Unanswered tr
  | .handling req =>
    (readRequest limits).run tr.received = some (.ok (some req), []) ∧ Unanswered tr
  | .writing buf =>
    Handled limits tr ∧ tr.sent ++ buf = answerTo limits tr ∧
      (∀ r ∈ tr.sends, r.failed = false) ∧ .close ∉ tr
  | .shutdown | .dropping => Answered limits tr ∧ .close ∉ tr
  | .closed => ∃ pre, tr = pre ++ [.close] ∧ .close ∉ pre ∧ Answered limits pre

section Fits

variable {limits : Limits} {tr : Trace}

theorem fits_atWrite {buf : Bytes} (errno : Errno) (hd : Handled limits tr)
    (hb : tr.sent ++ buf = answerTo limits tr) (hs : ∀ r ∈ tr.sends, r.failed = false)
    (hc : .close ∉ tr) : Fits limits tr (.atWrite errno buf) := by
  match buf with
  | [] =>
    rw [List.append_nil] at hb
    exact ⟨⟨hd, hb ▸ List.prefix_rfl, fun _ => hb⟩, hc⟩
  | _ :: _ => exact ⟨hd, hb, hs, hc⟩

theorem fits_atRead {c : Conn} {got : List Recv} (hr : c.trace.received = got)
    (hu : Unanswered c.trace)
    (hend : ∀ r t, (readRequest limits).run got = some (r, t) → t = []) :
    Fits limits c.trace (c.atRead limits got).phase := by
  subst hr
  simp only [Conn.atRead]
  split
  · rename_i h
    exact ⟨h, rfl, hu⟩
  · rename_i req t h
    obtain rfl := hend _ _ h
    exact ⟨h, hu⟩
  · rename_i t h
    obtain rfl := hend _ _ h
    have ha : answerTo limits c.trace = [] := by simp [answerTo, h]
    refine ⟨⟨⟨.ok none, h, by simp [hu.calls, requests]⟩, ?_, fun _ => ?_⟩, hu.opened⟩
    · rw [hu.sent]
      exact List.nil_prefix
    · rw [hu.sent, ha]
  · rename_i e t h
    obtain rfl := hend _ _ h
    refine fits_atWrite _ ⟨.error e, h, by simp [hu.calls, requests]⟩ ?_ ?_ hu.opened
    · rw [hu.sent, answerTo, h]
      rfl
    · simp [hu.sends]

/-- A turn of the read loops. -/
theorem fits_recv {c : Conn} {got : List Recv} {r : Recv} (h : Fits limits tr (.reading got))
    (hc : c.trace = tr ++ [.recv r]) : Fits limits c.trace (c.atRead limits (got ++ [r])).phase := by
  obtain ⟨hn, hg, hu⟩ := h
  refine fits_atRead (by simp [hc, hg]) ?_ fun r' t ht =>
    (causal_readRequest limits).rest_nil hn ht
  rw [hc]
  exact ⟨by simp [hu.calls], by simp [hu.sends], by simp [hu.sent], by simp [hu.opened]⟩

theorem fits_call {req : Request} (response : Response) (errno : Errno)
    (h : Fits limits tr (.handling req)) :
    Fits limits (tr ++ [.call req response]) (.atWrite errno response.encode) := by
  obtain ⟨hr, hu⟩ := h
  have hr' : (readRequest limits).run (Trace.received (tr ++ [.call req response])) =
      some (.ok (some req), []) := by simpa using hr
  refine fits_atWrite _ ⟨_, hr', by simp [hu.calls, requests]⟩ ?_ ?_ ?_
  · rw [answerTo, hr']
    simp [hu.calls, hu.sent]
  · simp [hu.sends]
  · simp [hu.opened]

theorem fits_send_inl {errno : Errno} {buf : Bytes} {r : Send} {x : Result Unit}
    (h : Fits limits tr (.writing buf)) (hb : TcpStream.writeAllBody (errno, buf) r = .inl x) :
    Fits limits (tr ++ [.send buf r]) .shutdown := by
  obtain ⟨hd, hs, -, hc⟩ := h
  obtain ⟨hf, hn⟩ := writeAllBody_inl hb
  refine ⟨⟨hd.congr (by simp) (by simp), ?_, fun hall => ?_⟩, by simp [hc]⟩
  · rw [answerTo_send, Trace.sent_concat, hn, List.append_nil, ← hs]
    exact List.prefix_append _ _
  · have := hall r (by simp)
    rw [hf] at this
    cases this

theorem fits_send_inr {errno errno' : Errno} {buf rest : Bytes} {r : Send}
    (h : Fits limits tr (.writing buf))
    (hb : TcpStream.writeAllBody (errno, buf) r = .inr (errno', rest)) :
    Fits limits (tr ++ [.send buf r]) (.atWrite errno' rest) := by
  obtain ⟨hd, hs, hall, hc⟩ := h
  obtain ⟨hf, hn⟩ := writeAllBody_inr hb
  refine fits_atWrite _ (hd.congr (by simp) (by simp)) ?_ ?_ (by simp [hc])
  · rw [answerTo_send, ← hs, Trace.sent_concat, List.append_assoc, hn]
  · intro r' hr'
    rw [Trace.sends_concat, List.mem_append] at hr'
    rcases hr' with hr' | hr'
    · exact hall r' hr'
    · rw [List.mem_singleton.mp hr', hf]

/-- At any time: the calls of the handler and what is sent. -/
theorem fits_sent {ph : Phase} (h : Fits limits tr ph) :
    (tr.calls = [] ∨ Handled limits tr) ∧ tr.sent <+: answerTo limits tr := by
  cases ph with
  | idle =>
    rw [show tr = [] from h]
    exact ⟨.inl rfl, List.nil_prefix⟩
  | dropped =>
    rw [show tr = [.close] from h]
    exact ⟨.inl rfl, List.nil_prefix⟩
  | reading got => exact ⟨.inl h.2.2.calls, by rw [h.2.2.sent]; exact List.nil_prefix⟩
  | handling req => exact ⟨.inl h.2.calls, by rw [h.2.sent]; exact List.nil_prefix⟩
  | writing buf => exact ⟨.inr h.1, ⟨buf, h.2.1⟩⟩
  | shutdown => exact ⟨.inr h.1.handled, h.1.sent⟩
  | dropping => exact ⟨.inr h.1.handled, h.1.sent⟩
  | closed =>
    obtain ⟨pre, rfl, -, ha⟩ := h
    have ha' : Answered limits (pre ++ [.close]) :=
      ha.congr (by simp) (by simp) (by simp) (by simp)
    exact ⟨.inr ha'.handled, ha'.sent⟩

end Fits

/-! ## The invariant of a connection -/

/-- `serve_connection` has been called, and the stream is not dropped yet. -/
def Phase.serving : Phase → Bool
  | .idle | .dropped | .closed => false
  | .reading _ | .handling _ | .writing _ | .shutdown | .dropping => true

theorem serving_atWrite (errno : Errno) (buf : Bytes) : (Phase.atWrite errno buf).serving = true := by
  cases buf <;> rfl

theorem fits_open {limits : Limits} {tr : Trace} {ph : Phase} (h : Fits limits tr ph)
    (hp : ph.serving = true) : .close ∉ tr := by
  cases ph with
  | idle | dropped | closed => cases hp
  | reading got => exact h.2.2.opened
  | handling req => exact h.2.opened
  | writing buf => exact h.2.2.2
  | shutdown => exact h.2
  | dropping => exact h.2

/-- The steps of the spawn among those of the connection. -/
def Move.acts : Move → List (Act Unit)
  | .spawn a => [a]
  | .recv _ | .call _ _ | .send _ | .shutdown | .drop => []

namespace Conn

variable {limits : Limits} {c c' : Conn} {m : Move}

theorem serving_atRead (got : List Recv) : (c.atRead limits got).phase.serving = true := by
  simp only [atRead]
  split
  · rfl
  · rfl
  · rfl
  · exact serving_atWrite _ _

/-- The phase goes with the closure of the spawn. -/
structure Inv (limits : Limits) (c : Conn) : Prop where
  spawn : c.spawn.Inv
  idle : c.phase = .idle ↔ c.spawn.closureRuns = 0 ∧ c.spawn.closureDrops = 0
  dropped : c.phase = .dropped ↔ c.spawn.closureDrops ≠ 0
  running : c.phase.serving = true → c.spawn.thread = .running
  fits : Fits limits c.trace c.phase

theorem inv_init (server : Server) (fd : Int32) : Inv limits (init server fd) where
  spawn := Spawn.inv_init (Builder.new.withStackSize server.stackSize)
  idle := iff_of_true rfl ⟨rfl, rfl⟩
  dropped := iff_of_false nofun (fun h => h rfl)
  running := nofun
  fits := rfl

theorem step_spawn_eq (hm : ∀ a, m ≠ .spawn a) (h : c.step limits m = some c') :
    c'.spawn = c.spawn := by
  cases m with
  | spawn a => exact absurd rfl (hm a)
  | _ =>
    simp only [step] at h
    (repeat' split at h) <;> cases h <;> rfl

/-- A step of `serve_connection`, or the drop of the stream. -/
theorem step_serve (hm : ∀ a, m ≠ .spawn a) (hf : Fits limits c.trace c.phase)
    (h : c.step limits m = some c') :
    c.phase.serving = true ∧ (c'.phase.serving = true ∨ c'.phase = .closed) ∧
      Fits limits c'.trace c'.phase := by
  cases m with
  | spawn a => exact absurd rfl (hm a)
  | recv r =>
    simp only [step] at h
    split at h
    · rename_i got hp
      rw [hp] at hf ⊢
      split at h
      · split at h
        · cases h
          exact ⟨rfl, .inl (serving_atRead _), fits_recv hf rfl⟩
        · cases h
      · cases h
        exact ⟨rfl, .inl (serving_atRead _), fits_recv hf rfl⟩
    · cases h
  | call response errno =>
    simp only [step] at h
    split at h
    · rename_i req hp
      rw [hp] at hf ⊢
      cases h
      exact ⟨rfl, .inl (serving_atWrite _ _), fits_call _ _ hf⟩
    · cases h
  | send r =>
    simp only [step] at h
    split at h
    · rename_i buf hp
      rw [hp] at hf ⊢
      split at h
      · split at h
        · rename_i hb
          cases h
          exact ⟨rfl, .inl rfl, fits_send_inl hf hb⟩
        · rename_i hb
          cases h
          exact ⟨rfl, .inl (serving_atWrite _ _), fits_send_inr hf hb⟩
      · cases h
    · cases h
  | shutdown =>
    simp only [step] at h
    split at h
    · rename_i hp
      rw [hp] at hf ⊢
      cases h
      refine ⟨rfl, .inl rfl, ?_, by simp [record, hf.2]⟩
      exact hf.1.congr (by simp [record]) (by simp [record]) (by simp [record]) (by simp [record])
    · cases h
  | drop =>
    simp only [step] at h
    split at h
    · rename_i hp
      rw [hp] at hf ⊢
      cases h
      exact ⟨rfl, .inr rfl, _, rfl, hf.2, hf.1⟩
    · cases h

/-- The closure is not taken twice. -/
theorem idle_of_taken {spawn : Spawn Unit} (hi : Inv limits c) (hs : spawn.Inv)
    (hc : spawn.closureRuns + spawn.closureDrops =
      c.spawn.closureRuns + c.spawn.closureDrops + 1) :
    c.spawn.closureRuns = 0 ∧ c.spawn.closureDrops = 0 ∧ c.trace = [] := by
  have once := (Spawn.handOff_of_inv hs).once.1
  have hr : c.spawn.closureRuns = 0 := by omega
  have hd : c.spawn.closureDrops = 0 := by omega
  have hf := hi.fits
  rw [hi.idle.mpr ⟨hr, hd⟩] at hf
  exact ⟨hr, hd, hf⟩

theorem step_spawn {a : Act Unit} {spawn : Spawn Unit} (hi : Inv limits c)
    (hs : c.spawn.step a = some spawn) (h : afterAct limits { c with spawn } a = some c') :
    Inv limits c' := by
  have hsi := Spawn.step_inv hi.spawn hs
  cases a with
  | start =>
    obtain ⟨ht, hr, hd⟩ := Spawn.step_start hs
    obtain ⟨hr', hd', htr⟩ := idle_of_taken hi hsi (by omega)
    cases h
    refine ⟨hsi, iff_of_false ?_ ?_, iff_of_false ?_ ?_, fun _ => ht, ?_⟩
    · exact fun hp => absurd (serving_atRead _) (by rw [hp]; exact nofun)
    · simp only [atRead]
      omega
    · exact fun hp => absurd (serving_atRead _) (by rw [hp]; exact nofun)
    · simp only [atRead]
      omega
    · have hu : Unanswered ({ c with spawn } : Conn).trace := by
        rw [htr]
        exact ⟨rfl, rfl, rfl, nofun⟩
      refine fits_atRead (by rw [htr]; rfl) hu fun r t hr => ?_
      obtain ⟨used, hu, -⟩ := causal_readRequest limits _ _ _ hr
      exact (List.append_eq_nil_iff.mp hu.symm).2
  | reclaim =>
    obtain ⟨hr, hd⟩ := Spawn.step_reclaim hs
    obtain ⟨-, -, htr⟩ := idle_of_taken hi hsi (by omega)
    cases h
    refine ⟨hsi, iff_of_false nofun ?_, iff_of_true rfl ?_, nofun, ?_⟩
    · simp only [record]
      omega
    · simp only [record]
      omega
    · simp [record, htr, Fits]
  | finish v =>
    obtain ⟨hr, hd⟩ := Spawn.step_closure hs nofun nofun
    simp only [afterAct] at h
    split at h
    · rename_i hp
      cases h
      refine ⟨hsi, by rw [hr, hd]; exact hi.idle, by rw [hd]; exact hi.dropped, ?_, hi.fits⟩
      simp [hp, Phase.serving]
    · cases h
  | join rc => cases h
  | _ =>
    obtain ⟨hr, hd⟩ := Spawn.step_closure hs nofun nofun
    have ht := fun hp => Spawn.step_running hi.spawn (hi.running hp) hs
    cases h
    refine ⟨hsi, by rw [hr, hd]; exact hi.idle, by rw [hd]; exact hi.dropped, fun hp => ?_, hi.fits⟩
    simpa using ht hp

theorem step_inv (hi : Inv limits c) (h : c.step limits m = some c') : Inv limits c' := by
  by_cases hm : ∃ a, m = .spawn a
  · obtain ⟨a, rfl⟩ := hm
    obtain ⟨spawn, hs, h⟩ := Option.bind_eq_some_iff.mp h
    exact step_spawn hi hs h
  · have hs := step_spawn_eq (fun a ha => hm ⟨a, ha⟩) h
    obtain ⟨hp, hp', hf⟩ := step_serve (fun a ha => hm ⟨a, ha⟩) hi.fits h
    have hn : c.phase ≠ .idle ∧ c.phase ≠ .dropped :=
      ⟨fun h => by simp [h, Phase.serving] at hp, fun h => by simp [h, Phase.serving] at hp⟩
    have hn' : c'.phase ≠ .idle ∧ c'.phase ≠ .dropped := by
      rcases hp' with hp' | hp'
      · exact ⟨fun h => by simp [h, Phase.serving] at hp', fun h => by simp [h, Phase.serving] at hp'⟩
      · simp [hp']
    refine ⟨hs ▸ hi.spawn, ?_, ?_, fun _ => hs ▸ hi.running hp, hf⟩
    · rw [hs, ← hi.idle]
      exact iff_of_false hn'.1 hn.1
    · rw [hs, ← hi.dropped]
      exact iff_of_false hn'.2 hn.2

theorem afterAct_spawn {a : Act Unit} (h : afterAct limits c a = some c') : c'.spawn = c.spawn := by
  cases a with
  | finish v =>
    simp only [afterAct] at h
    split at h <;> cases h
    rfl
  | join rc => cases h
  | _ => cases h; rfl

/-- Only the accept loop moves the owner. -/
theorem step_owner (hm : m.byOwner = false) (h : c.step limits m = some c') :
    c'.spawn.owner = c.spawn.owner := by
  cases m with
  | spawn a =>
    obtain ⟨spawn, hs, h⟩ := Option.bind_eq_some_iff.mp h
    rw [afterAct_spawn h]
    exact Spawn.step_owner hm hs
  | _ => rw [step_spawn_eq (by simp) h]

theorem step_acts (h : c.step limits m = some c') :
    runFrom Spawn.step c.spawn m.acts = some c'.spawn := by
  cases m with
  | spawn a =>
    obtain ⟨spawn, hs, h⟩ := Option.bind_eq_some_iff.mp h
    rw [Move.acts, runFrom_singleton, hs, afterAct_spawn h]
  | _ =>
    rw [step_spawn_eq (by simp) h]
    rfl

theorem length_byOwner_le (ms : List Move) :
    (ms.filter Move.byOwner).length ≤ (ms.flatMap Move.acts).length := by
  induction ms with
  | nil => rfl
  | cons m ms ih =>
    rw [List.flatMap_cons, List.length_append, List.filter_cons]
    split
    · rename_i hm
      cases m with
      | spawn a =>
        rw [List.length_cons, Move.acts, List.length_singleton]
        omega
      | _ => cases hm
    · omega

/-- Handing a connection over takes a bounded number of steps. -/
theorem length_handing {server : Server} {fd : Int32} {ms : List Move}
    (h : runFrom (step limits) (init server fd) ms = some c) :
    (ms.filter Move.byOwner).length ≤ 13 := by
  have hs := simulation (f := Conn.spawn) (g := Move.acts) (fun _ _ _ => step_acts) h
  have := Spawn.run_length (b := Builder.new.withStackSize server.stackSize) hs
  exact (length_byOwner_le ms).trans this

/-! ## The descriptor -/

theorem step_trace (h : c.step limits m = some c') :
    c'.fd = c.fd ∧ ∃ es, c'.trace = c.trace ++ es ∧ (m.closes = true → es = [.close]) := by
  cases m with
  | spawn a =>
    obtain ⟨spawn, -, h⟩ := Option.bind_eq_some_iff.mp h
    cases a with
    | start =>
      cases h
      exact ⟨rfl, [], (List.append_nil _).symm, nofun⟩
    | reclaim =>
      cases h
      exact ⟨rfl, _, rfl, fun _ => rfl⟩
    | finish v =>
      simp only [afterAct] at h
      split at h
      · cases h
        exact ⟨rfl, [], (List.append_nil _).symm, nofun⟩
      · cases h
    | join rc => cases h
    | _ =>
      cases h
      exact ⟨rfl, [], (List.append_nil _).symm, nofun⟩
  | drop =>
    simp only [step] at h
    split at h <;> cases h
    exact ⟨rfl, _, rfl, fun _ => rfl⟩
  | _ =>
    simp only [step] at h
    (repeat' split at h) <;> cases h <;> exact ⟨rfl, _, rfl, nofun⟩

/-- A call on the descriptor finds it open. -/
theorem step_open (hi : Inv limits c) (hm : m.operates = true) (h : c.step limits m = some c') :
    .close ∉ c.trace := by
  by_cases hs : ∃ a, m = .spawn a
  · obtain ⟨a, rfl⟩ := hs
    obtain ⟨spawn, hs, -⟩ := Option.bind_eq_some_iff.mp h
    cases a with
    | reclaim =>
      obtain ⟨hr, hd⟩ := Spawn.step_reclaim hs
      rw [(idle_of_taken hi (Spawn.step_inv hi.spawn hs) (by omega)).2.2]
      nofun
    | _ => simp [Move.operates] at hm
  · obtain ⟨hp, -⟩ := step_serve (fun a ha => hs ⟨a, ha⟩) hi.fits h
    exact fits_open hi.fits hp

/-! ## What holds of every connection -/

/-- The handler is called at most once, on the request that was read. What is
sent is a prefix of the one answer, and all of it if no `send` fails. The
descriptor is closed once, by the thread or by the spawn that failed, and
nothing is done after that. -/
structure Lifecycle (limits : Limits) (c : Conn) : Prop where
  called : c.trace.calls = [] ∨ ∃ req response, c.trace.calls = [(req, response)] ∧
    (readRequest limits).run c.trace.received = some (.ok (some req), [])
  sent : c.trace.sent <+: answerTo limits c.trace
  silent : c.trace.received.head? = some (.ok []) → c.trace.calls = [] ∧ c.trace.sent = []
  closed : .close ∈ c.trace → ∃ pre, c.trace = pre ++ [.close] ∧ .close ∉ pre
  failed : ∀ rc, c.spawn.owner = .failed rc → c.trace = [.close]
  exited : c.spawn.thread = .exited → .close ∈ c.trace ∧ Answered limits c.trace

theorem run_closed_at_once (limits : Limits) {rs : List Recv} (h : rs.head? = some (.ok [])) :
    ∃ t, (readRequest limits).run rs = some (.ok none, t) := by
  obtain ⟨t, rfl⟩ := List.head?_eq_some_iff.mp h
  exact ⟨t, rfl⟩

theorem lifecycle_of_inv (hi : Inv limits c) : Lifecycle limits c where
  called := by
    rcases (fits_sent hi.fits).1 with hc | ⟨r, hr, hc⟩
    · exact .inl hc
    · match r with
      | .ok (some req) =>
        obtain ⟨⟨req', response⟩, hcall, rfl⟩ := List.map_eq_singleton_iff.mp hc
        exact .inr ⟨_, response, hcall, hr⟩
      | .ok none | .error _ => exact .inl (List.map_eq_nil_iff.mp hc)
  sent := (fits_sent hi.fits).2
  silent := by
    intro h
    obtain ⟨t, ht⟩ := run_closed_at_once limits h
    obtain ⟨hc, hs⟩ := fits_sent hi.fits
    have ha : answerTo limits c.trace = [] := by rw [answerTo, ht]
    rw [ha] at hs
    refine ⟨?_, List.prefix_nil.mp hs⟩
    rcases hc with hc | ⟨r, hr, hc⟩
    · exact hc
    · rw [ht] at hr
      cases hr
      exact List.map_eq_nil_iff.mp hc
  closed := by
    intro h
    have hf := hi.fits
    cases hp : c.phase with
    | idle =>
      rw [hp] at hf
      rw [show c.trace = [] from hf] at h
      cases h
    | dropped =>
      rw [hp] at hf
      exact ⟨[], hf, nofun⟩
    | closed =>
      rw [hp] at hf
      obtain ⟨pre, htr, hn, -⟩ := hf
      exact ⟨pre, htr, hn⟩
    | _ => exact absurd h (fits_open hf (by rw [hp]; rfl))
  failed := by
    intro rc ho
    have hd : c.spawn.closureDrops = 1 := ((Spawn.handOff_of_inv hi.spawn).failed rc ho).2.2.1
    have hf := hi.fits
    rw [hi.dropped.mpr (by omega)] at hf
    exact hf
  exited := by
    intro ht
    obtain ⟨hr, hd, -⟩ := (Spawn.handOff_of_inv hi.spawn).exited ht
    have hf := hi.fits
    cases hp : c.phase with
    | idle => exact absurd (hi.idle.mp hp).1 (by omega)
    | dropped => exact absurd hd (hi.dropped.mp hp)
    | closed =>
      rw [hp] at hf
      obtain ⟨pre, htr, hn, ha⟩ := hf
      rw [htr]
      exact ⟨by simp, ha.congr (by simp) (by simp) (by simp) (by simp)⟩
    | _ =>
      have := hi.running (by rw [hp]; rfl)
      rw [ht] at this
      cases this

/-! ## Progress -/

/-- The steps of the owner are open to the accept loop. -/
theorem step_of_spawn (limits : Limits) {a : Act Unit} {spawn : Spawn Unit} (ha : a.byOwner = true)
    (hj : ∀ rc, a ≠ .join rc) (hs : c.spawn.step a = some spawn) :
    ∃ c', c.step limits (.spawn a) = some c' := by
  rw [step, hs, Option.bind_some]
  cases a with
  | start | finish | store | release | exit => cases ha
  | join rc => exact absurd rfl (hj rc)
  | _ => exact ⟨_, rfl⟩

/-- `serve_connection` can always go on; what its calls return is taken to be
the least there is. -/
theorem progress_serving (h : c.phase.serving = true) :
    ∃ m c', m.byOwner = false ∧ c.step limits m = some c' := by
  cases hp : c.phase with
  | idle | dropped | closed => simp [hp, Phase.serving] at h
  | reading got => exact ⟨.recv (.ok []), _, rfl, by simp only [step, hp]; rfl⟩
  | handling req => exact ⟨.call Response.ok ⟨0⟩, _, rfl, by simp only [step, hp]; rfl⟩
  | writing buf => exact ⟨.send (.ok 0), _, rfl, by simp only [step, hp]; rfl⟩
  | shutdown => exact ⟨.shutdown, _, rfl, by simp only [step, hp]; rfl⟩
  | dropping => exact ⟨.drop, _, rfl, by simp only [step, hp]; rfl⟩

/-- Once the handle is gone, a thread that has not exited can go on. -/
theorem progress (hi : Inv limits c) (ho : c.spawn.owner.over = true) (hf : ¬ c.spawn.Finished) :
    ∃ m c', m.byOwner = false ∧ c.step limits m = some c' := by
  have hl := hi.spawn.ledger
  cases hs : c.spawn.owner <;> simp only [hs, Owner.over, reduceCtorEq] at ho
  · exact absurd (.inl ⟨_, hs⟩) hf
  cases ht : c.spawn.thread with
  | absent =>
    have := hl.created.mp ht
    simp [hs] at this
  | starting => exact ⟨.spawn .start, _, rfl, by simp only [step, Spawn.step, ht]; rfl⟩
  | running =>
    cases hp : c.phase.serving with
    | true => exact progress_serving hp
    | false =>
      cases hph : c.phase with
      | idle =>
        have := (hi.idle.mp hph).1
        simp [hl.runs, ht] at this
      | dropped =>
        have := hi.dropped.mp hph
        simp [hl.drops, hs] at this
      | closed =>
        refine ⟨.spawn (.finish ()), ?_⟩
        simp [step, Spawn.step, ht, afterAct, hph, Move.byOwner, Act.byOwner]
      | _ => simp [hph, Phase.serving] at hp
  | storing value => exact ⟨.spawn .store, _, rfl, by simp only [step, Spawn.step, ht]; rfl⟩
  | dropping => exact ⟨.spawn .release, _, rfl, by simp only [step, Spawn.step, ht]; rfl⟩
  | returning => exact ⟨.spawn .exit, _, rfl, by simp only [step, Spawn.step, ht]; rfl⟩
  | exited => exact absurd (.inr ⟨hs, ht⟩) hf

end Conn

end PsPayload.Http
