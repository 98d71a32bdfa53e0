import Mathlib.Data.Set.Finite.Lattice
import PsPayload.Lib.Loop
import PsPayload.Ps5.Fs

/-!
# Writing a whole buffer

`TcpStream.writeAll` against every sequence of `send` results. `writeAll_cases`
says what it does with them: it uses results that do not fail, for as long as
they have not taken the buffer, and what the kernel accepted is the front of the
buffer that they took. How the loop ends and whether it does are read off it
(`writeAll_delivers`), and so is where its errors come from (`genuine_iff`).
`File.writeAll` agrees with it as long as no signal interrupts a `write`
(`writersAgree_iff`).
-/

namespace PsPayload

open Lib Script

/-- How many bytes a `send` took. -/
def Send.taken : Send → Nat
  | .ok n => n
  | .error _ => 0

/-- How many bytes a sequence of `send` calls took. -/
def taken : List Send → Nat
  | [] => 0
  | r :: sends => r.taken + taken sends

/-- A call of a writer: the slice it offered and what came back. -/
abbrev Call : Type := Bytes × Send

/-- The bytes that the kernel accepted in a call. -/
def Call.accepted (c : Call) : Bytes := c.1.take c.2.taken

/-- The bytes that the kernel accepted over all calls. -/
def delivered (calls : List Call) : Bytes := calls.flatMap Call.accepted

/-- The calls that `TcpStream::write_all` makes. -/
def TcpStream.writeAllCalls (errno : Errno) (buf : Bytes) (sends : List Send) : List Call :=
  (asked writeAllTop writeAllBody (errno, buf) sends).map fun (x, r) => (x.2, r)

/-- The calls that `File::write_all` makes. -/
def File.writeAllCalls (buf : Bytes) (writes : List Send) : List Call :=
  asked File.writeAllTop File.writeAllBody buf writes

theorem taken_append (s t : List Send) : taken (s ++ t) = taken s + taken t := by
  induction s with
  | nil => exact (Nat.zero_add _).symm
  | cons r s ih => rw [List.cons_append, taken, ih, taken, Nat.add_assoc]

theorem delivered_cons (c : Call) (cs : List Call) :
    delivered (c :: cs) = c.accepted ++ delivered cs := List.flatMap_cons

theorem Send.taken_failed {r : Send} (h : r.failed = true) : r.taken = 0 := by
  cases r with
  | ok n => simpa [Send.failed, Send.taken] using h
  | error e => rfl

theorem Send.taken_pos {r : Send} (hf : r.failed = false) (hi : r.interrupted = false) :
    0 < r.taken := by
  cases r with
  | ok n => simpa [Send.failed, Send.taken, Nat.pos_iff_ne_zero] using hf
  | error e =>
    have he : e.interrupted = false := hi
    simp [Send.failed, he] at hf

/-- Each result that neither fails nor is an interruption takes something. -/
theorem length_filter_le_taken {sends : List Send} (hs : ∀ q ∈ sends, q.failed = false) :
    (sends.filter (!·.interrupted)).length ≤ taken sends := by
  induction sends with
  | nil => exact Nat.le_refl 0
  | cons r sends ih =>
    rw [List.forall_mem_cons] at hs
    have hlen : taken (r :: sends) = r.taken + taken sends := rfl
    have hle := ih hs.2
    by_cases hi : r.interrupted = true
    · rw [List.filter_cons_of_neg (by simp [hi])]
      omega
    · have hpos := Send.taken_pos hs.1 (Bool.eq_false_iff.mpr hi)
      rw [List.filter_cons_of_pos (by simp [hi]), List.length_cons]
      omega

namespace TcpStream

variable {errno errno' : Errno} {buf rest : Bytes} {r : Send} {sends : List Send}

/-! ## One turn -/

theorem writeAllTop_none (errno : Errno) (h : buf ≠ []) : writeAllTop (errno, buf) = none := by
  cases buf with
  | nil => exact absurd rfl h
  | cons b buf => rfl

/-- A result that does not fail leaves the rest after the bytes it took. -/
theorem writeAllBody_goesOn (errno : Errno) (buf : Bytes) (h : r.failed = false) :
    ∃ errno', writeAllBody (errno, buf) r = .inr (errno', buf.drop r.taken) := by
  cases r with
  | ok n =>
    have hn : n ≠ 0 := by simpa [Send.failed] using h
    exact ⟨errno, if_neg hn⟩
  | error e =>
    have he : e.interrupted = true := by simpa [Send.failed] using h
    exact ⟨e, by simp [writeAllBody, Error.errno, he, Send.taken]⟩

/-- A result that fails ends the loop with an error. -/
theorem writeAllBody_failed (errno : Errno) (buf : Bytes) (h : r.failed = true) :
    ∃ e, writeAllBody (errno, buf) r = .inl (.error (.os e)) ∧
      (r = .ok 0 ∧ e = errno ∨ r = .error e ∧ e.interrupted = false) := by
  cases r with
  | ok n =>
    have hn : n = 0 := by simpa [Send.failed] using h
    subst hn
    exact ⟨errno, rfl, .inl ⟨rfl, rfl⟩⟩
  | error e =>
    have he : e.interrupted = false := by simpa [Send.failed] using h
    exact ⟨e, by simp [writeAllBody, Error.errno, he], .inr ⟨rfl, he⟩⟩

/-! ## All turns -/

/-- The results that `writeAll` uses do not fail; what was accepted is the front
of the buffer that they took; and it waits for more, returns, or fails with
the result after them. -/
theorem writeAll_cases (errno : Errno) (buf : Bytes) (sends : List Send) :
    ∃ used tail, sends = used ++ tail ∧ (∀ q ∈ used, q.failed = false) ∧
      delivered (writeAllCalls errno buf sends) = buf.take (taken used) ∧
      (tail = [] ∧ taken used < buf.length ∧ (writeAll errno buf).run sends = none ∨
        buf.length ≤ taken used ∧ (writeAll errno buf).run sends = some (.ok (), tail) ∨
        ∃ r rest e, tail = r :: rest ∧ r.failed = true ∧ taken used < buf.length ∧
          (writeAll errno buf).run sends = some (.error (.os e), rest) ∧
          (r = .ok 0 ∨ r = .error e ∧ e.interrupted = false)) := by
  induction sends generalizing errno buf with
  | nil =>
    refine ⟨[], [], rfl, by simp, by simp [writeAllCalls, delivered, taken], ?_⟩
    by_cases hb : buf = []
    · subst hb
      have ht : writeAllTop (errno, []) = some (.ok ()) := rfl
      exact .inr (.inl ⟨Nat.zero_le _, loop_end ht _⟩)
    · exact .inl ⟨rfl, List.length_pos_iff.mpr hb, loop_wait (writeAllTop_none errno hb)⟩
  | cons r sends ih =>
    by_cases hb : buf = []
    · subst hb
      have ht : writeAllTop (errno, []) = some (.ok ()) := rfl
      refine ⟨[], r :: sends, rfl, by simp, ?_, .inr (.inl ⟨Nat.zero_le _, loop_end ht _⟩)⟩
      rw [writeAllCalls, asked_end ht]
      rfl
    have ht := writeAllTop_none errno hb
    have hl : 0 < buf.length := List.length_pos_iff.mpr hb
    by_cases hr : r.failed = true
    · obtain ⟨e, he, hre⟩ := writeAllBody_failed errno buf hr
      refine ⟨[], r :: sends, rfl, by simp, ?_, .inr (.inr ⟨r, sends, e, rfl, hr, hl,
        loop_exit ht he _, hre.imp_left And.left⟩)⟩
      rw [writeAllCalls, asked_exit ht he]
      simp [delivered, Call.accepted, Send.taken_failed hr, taken]
    · obtain ⟨errno', he⟩ := writeAllBody_goesOn errno buf (Bool.eq_false_iff.mpr hr)
      obtain ⟨used, tail, rfl, hu, hd, hend⟩ := ih errno' (buf.drop r.taken)
      have hrun : (writeAll errno buf).run (r :: (used ++ tail)) =
          (writeAll errno' (buf.drop r.taken)).run (used ++ tail) := loop_next ht he _
      have hlen : taken (r :: used) = r.taken + taken used := rfl
      refine ⟨r :: used, tail, rfl, ?_, ?_, ?_⟩
      · rw [List.forall_mem_cons]
        exact ⟨Bool.eq_false_iff.mpr hr, hu⟩
      · rw [writeAllCalls, asked_next ht he, List.map_cons, delivered_cons, hlen, List.take_add]
        exact congrArg (_ ++ ·) hd
      · rw [List.length_drop] at hend
        rw [hrun, hlen]
        refine hend.imp ?_ (Or.imp ?_ ?_)
        · exact fun ⟨h, hlt, hn⟩ => ⟨h, by omega, hn⟩
        · exact fun ⟨hle, hn⟩ => ⟨by omega, hn⟩
        · exact fun ⟨q, rest, e, h, hq, hlt, hn⟩ => ⟨q, rest, e, h, hq, by omega, hn⟩

/-- Results that do not fail and leave some of the buffer lead to the turn that
offers the rest of it. -/
theorem runFrom_writeAll (errno : Errno) (buf : Bytes) (hs : ∀ q ∈ sends, q.failed = false)
    (hl : taken sends < buf.length) :
    ∃ errno', runFrom (turn writeAllTop writeAllBody) (errno, buf) sends =
      some (errno', buf.drop (taken sends)) := by
  induction sends generalizing errno buf with
  | nil => exact ⟨errno, by simp [taken]⟩
  | cons r sends ih =>
    rw [List.forall_mem_cons] at hs
    have hlen : taken (r :: sends) = r.taken + taken sends := rfl
    have hb : buf ≠ [] := List.length_pos_iff.mp (by omega)
    obtain ⟨errno', he⟩ := writeAllBody_goesOn errno buf hs.1
    obtain ⟨errno'', hr⟩ := ih errno' (buf.drop r.taken) hs.2
      (by rw [List.length_drop]; omega)
    refine ⟨errno'', ?_⟩
    rw [runFrom_cons, turn_next (writeAllTop_none errno hb) he, hlen, ← List.drop_drop]
    exact hr

/-- The first result that fails while some of the buffer is left ends the loop. -/
theorem writeAll_failed (errno : Errno) (buf : Bytes) (hs : ∀ q ∈ sends, q.failed = false)
    (hl : taken sends < buf.length) (hr : r.failed = true) (rest : List Send) :
    ∃ e, (writeAll errno buf).run (sends ++ r :: rest) = some (.error (.os e), rest) := by
  obtain ⟨errno', h⟩ := runFrom_writeAll errno buf hs hl
  have hb : buf.drop (taken sends) ≠ [] := by simpa using hl
  obtain ⟨e, he, -⟩ := writeAllBody_failed errno' (buf.drop (taken sends)) hr
  refine ⟨e, ?_⟩
  rw [writeAll, run_loop_append h]
  exact loop_exit (writeAllTop_none errno' hb) he rest

/-! ## Delivery -/

/-- Results that do not fail deliver the buffer if they take it. -/
theorem delivered_eq_iff (errno : Errno) (buf : Bytes) (hs : ∀ q ∈ sends, q.failed = false) :
    delivered (writeAllCalls errno buf sends) = buf ↔ buf.length ≤ taken sends := by
  obtain ⟨used, tail, rfl, hu, hd, hend⟩ := writeAll_cases errno buf sends
  rw [hd, List.take_eq_self_iff, taken_append]
  rcases hend with ⟨rfl, -, -⟩ | ⟨hle, -⟩ | ⟨r, rest, _, rfl, hf, -⟩
  · simp [taken]
  · exact ⟨fun _ => by omega, fun _ => hle⟩
  · have := hs r (by simp)
    simp [hf] at this

/-- As many results that are not interruptions as there are bytes are enough. -/
theorem writeAll_returns (errno : Errno) (buf : Bytes)
    (h : buf.length ≤ (sends.filter (!·.interrupted)).length) :
    (writeAll errno buf).run sends ≠ none := by
  obtain ⟨used, tail, rfl, hu, -, ⟨rfl, hlt, -⟩ | ⟨-, hr⟩ | ⟨_, _, _, -, -, -, hr, -⟩⟩ :=
    writeAll_cases errno buf sends
  · rw [List.append_nil] at h
    have := length_filter_le_taken hu
    omega
  · simp [hr]
  · simp [hr]

/-- The bytes that the kernel accepts are at any time the front of the buffer,
in order; `write_all` returns `Ok` exactly when they are the whole buffer, fails
exactly at the first result that fails while some of it is left, and returns
unless its `send` is interrupted again and again. -/
theorem writeAll_delivers (errno : Errno) (buf : Bytes) (sends : List Send) :
    delivered (writeAllCalls errno buf sends) <+: buf ∧
    ((∃ rest, (writeAll errno buf).run sends = some (.ok (), rest)) ↔
      delivered (writeAllCalls errno buf sends) = buf) ∧
    (∀ rest, (∃ e, (writeAll errno buf).run sends = some (.error e, rest)) ↔
      ∃ used r, sends = used ++ r :: rest ∧ (∀ q ∈ used, q.failed = false) ∧ r.failed = true ∧
        delivered (writeAllCalls errno buf used) ≠ buf) ∧
    ∀ f : Nat → Send, {i | (f i).interrupted = true}.Finite →
      ∃ n, (writeAll errno buf).run ((List.range n).map f) ≠ none := by
  refine ⟨?_, ?_, fun rest => ⟨?_, ?_⟩, fun f hf => ?_⟩
  · obtain ⟨used, tail, -, -, hd, -⟩ := writeAll_cases errno buf sends
    rw [hd]
    exact List.take_prefix _ _
  · obtain ⟨used, tail, rfl, hu, hd, hend⟩ := writeAll_cases errno buf sends
    rw [hd, List.take_eq_self_iff]
    rcases hend with ⟨-, hlt, hr⟩ | ⟨hle, hr⟩ | ⟨_, _, _, -, -, hlt, hr, -⟩
    · simp [hr, hlt]
    · simp [hr, hle]
    · simp [hr, hlt]
  · rintro ⟨e, h⟩
    obtain ⟨used, tail, rfl, hu, hd, hend⟩ := writeAll_cases errno buf sends
    rcases hend with ⟨-, -, hr⟩ | ⟨-, hr⟩ | ⟨r, rest', e', rfl, hf, hlt, hr, -⟩
    · simp [hr] at h
    · simp [hr] at h
    · rw [hr] at h
      cases h
      refine ⟨used, r, rfl, hu, hf, ?_⟩
      rw [Ne, delivered_eq_iff errno buf hu]
      omega
  · rintro ⟨used, r, rfl, hu, hf, hne⟩
    rw [Ne, delivered_eq_iff errno buf hu] at hne
    obtain ⟨e, h⟩ := writeAll_failed errno buf hu (by omega) hf rest
    exact ⟨.os e, h⟩
  · obtain ⟨m, hm⟩ := hf.bddAbove
    have hlate (k : Nat) : (f (m + 1 + k)).interrupted = false := by
      by_contra hi
      have hmem : m + 1 + k ∈ {i | (f i).interrupted = true} := Bool.eq_true_of_not_eq_false hi
      have := hm hmem
      omega
    have hall : (((List.range buf.length).map fun k => f (m + 1 + k)).filter
        (!·.interrupted)).length = buf.length := by
      rw [List.filter_eq_self.mpr (by simp [hlate]), List.length_map, List.length_range]
    refine ⟨m + 1 + buf.length, writeAll_returns errno buf ?_⟩
    rw [List.range_add, List.map_append, List.map_map, List.filter_append, List.length_append]
    show buf.length ≤ _ + (((List.range buf.length).map fun k => f (m + 1 + k)).filter _).length
    omega

/-! ## Errors -/

/-- An OS error is the errno that the last `send` set: a failure, and none that
`write_all` retries. -/
def Genuine (errno : Errno) (buf : Bytes) (sends : List Send) : Prop :=
  ∀ e rest, (writeAll errno buf).run sends = some (.error (.os e), rest) →
    ∃ used, sends = used ++ .error e :: rest ∧ e.code ≠ 0 ∧ e.interrupted = false

/-- A `send` takes nothing while some of the buffer is left, after others that
were short or interrupted. -/
def NoProgress (buf : Bytes) (sends : List Send) : Prop :=
  ∃ used rest, sends = used ++ .ok 0 :: rest ∧ (∀ q ∈ used, q.failed = false) ∧
    taken used < buf.length

/-- A `send` that takes nothing is reported as the errno of an earlier call. -/
theorem not_genuine : ¬ Genuine ⟨0⟩ [1, 2] [.ok 1, .error ⟨EINTR⟩, .ok 0] := by
  intro h
  obtain ⟨used, -, -, hi⟩ := h ⟨EINTR⟩ [] rfl
  revert hi
  decide

/-- The errors of `write_all` are genuine unless a `send` takes nothing. -/
theorem genuine_iff (errno : Errno) (buf : Bytes)
    (hk : ∀ e, Except.error e ∈ sends → e.code ≠ 0) :
    Genuine errno buf sends ↔ ¬ NoProgress buf sends := by
  refine ⟨?_, fun hp e rest h => ?_⟩
  · rintro hg ⟨used, rest, rfl, hu, hl⟩
    obtain ⟨e, he⟩ := writeAll_failed errno buf hu hl (r := .ok 0) rfl rest
    obtain ⟨used', hs, -⟩ := hg e rest he
    obtain ⟨-, hr⟩ := List.append_inj' hs rfl
    cases hr
  · obtain ⟨used, tail, rfl, hu, -, ⟨-, -, hr⟩ | ⟨-, hr⟩ | ⟨r, rest', e', rfl, -, hl, hr, hre⟩⟩ :=
      writeAll_cases errno buf sends
    · simp [hr] at h
    · simp [hr] at h
    · rw [hr] at h
      cases h
      rcases hre with rfl | ⟨rfl, hi⟩
      · exact absurd ⟨used, rest, rfl, hu, hl⟩ hp
      · exact ⟨used, rfl, hk e (by simp), hi⟩

def shortSends : List Send := [.ok 1, .error ⟨EINTR⟩, .error ⟨EAGAIN⟩]

theorem genuine_shortSends :
    (∀ e, Except.error e ∈ shortSends → e.code ≠ 0) ∧
      (Genuine ⟨0⟩ [1, 2] shortSends ↔ ¬ NoProgress [1, 2] shortSends) := by
  have hk : ∀ e, Except.error e ∈ shortSends → e.code ≠ 0 := by
    simp [shortSends, EINTR, EAGAIN]
  exact ⟨hk, genuine_iff ⟨0⟩ [1, 2] hk⟩

end TcpStream

/-! ## The two writers -/

/-- The writers offer the same slices, deliver the same bytes and end alike, in
`Ok` or in `Err`. -/
def WritersAgree (errno : Errno) (buf : Bytes) (results : List Send) : Prop :=
  (File.writeAllCalls buf results).map (·.1) =
      (TcpStream.writeAllCalls errno buf results).map (·.1) ∧
    delivered (File.writeAllCalls buf results) =
      delivered (TcpStream.writeAllCalls errno buf results) ∧
    ((File.writeAll buf).run results).map (·.1.isOk) =
      ((TcpStream.writeAll errno buf).run results).map (·.1.isOk)

/-- A signal interrupts a call while some of the buffer is left, after others
that took something. -/
def InterruptedMidway (buf : Bytes) (results : List Send) : Prop :=
  ∃ used e rest, results = used ++ .error e :: rest ∧ e.interrupted = true ∧
    (∀ q ∈ used, ∃ n, n ≠ 0 ∧ q = .ok n) ∧ taken used < buf.length

namespace File

variable {buf : Bytes} {n : Nat}

theorem writeAllTop_none (h : buf ≠ []) : writeAllTop buf = none := by
  cases buf with
  | nil => exact absurd rfl h
  | cons b buf => rfl

/-- Short writes that leave some of the buffer lead to the turn that offers the
rest of it. -/
theorem runFrom_writeAll (buf : Bytes) {writes : List Send}
    (hs : ∀ q ∈ writes, ∃ n, n ≠ 0 ∧ q = .ok n) (hl : taken writes < buf.length) :
    runFrom (turn writeAllTop writeAllBody) buf writes = some (buf.drop (taken writes)) := by
  induction writes generalizing buf with
  | nil => simp [taken]
  | cons r writes ih =>
    rw [List.forall_mem_cons] at hs
    obtain ⟨⟨n, hn, rfl⟩, hs⟩ := hs
    have hlen : taken (.ok n :: writes) = n + taken writes := rfl
    have hb : buf ≠ [] := List.length_pos_iff.mp (by omega)
    have he : writeAllBody buf (.ok n) = .inr (buf.drop n) := if_neg hn
    have hr := ih (buf.drop n) hs (by rw [List.length_drop]; omega)
    rw [runFrom_cons, turn_next (writeAllTop_none hb) he, hlen, ← List.drop_drop]
    exact hr

end File

section Agree

variable {errno : Errno} {buf : Bytes} {results rest : List Send} {r : Send}

theorem writersAgree_nil (errno : Errno) (results : List Send) :
    WritersAgree errno [] results := by
  have hf : File.writeAllTop [] = some (.ok ()) := rfl
  have ht : TcpStream.writeAllTop (errno, []) = some (.ok ()) := rfl
  rw [WritersAgree, File.writeAllCalls, TcpStream.writeAllCalls, asked_end hf, asked_end ht,
    File.writeAll, TcpStream.writeAll, loop_end hf, loop_end ht]
  exact ⟨rfl, rfl, rfl⟩

/-- A result that ends both writers with an error. -/
theorem writersAgree_exit {e e' : Error} (hb : buf ≠ [])
    (hf : File.writeAllBody buf r = .inl (.error e))
    (ht : TcpStream.writeAllBody (errno, buf) r = .inl (.error e')) (rest : List Send) :
    WritersAgree errno buf (r :: rest) := by
  have hft := File.writeAllTop_none hb
  have htt := TcpStream.writeAllTop_none errno hb
  rw [WritersAgree, File.writeAllCalls, TcpStream.writeAllCalls, asked_exit hft hf,
    asked_exit htt ht, File.writeAll, TcpStream.writeAll, loop_exit hft hf, loop_exit htt ht]
  exact ⟨rfl, rfl, rfl⟩

/-- A short write keeps the writers in step. -/
theorem writersAgree_next {n : Nat} (hb : buf ≠ []) (hn : n ≠ 0)
    (h : WritersAgree errno (buf.drop n) rest) : WritersAgree errno buf (.ok n :: rest) := by
  have hft := File.writeAllTop_none hb
  have htt := TcpStream.writeAllTop_none errno hb
  have hf : File.writeAllBody buf (.ok n) = .inr (buf.drop n) := if_neg hn
  have ht : TcpStream.writeAllBody (errno, buf) (.ok n) = .inr (errno, buf.drop n) := if_neg hn
  obtain ⟨hs, hd, hr⟩ := h
  rw [WritersAgree, File.writeAllCalls, TcpStream.writeAllCalls, asked_next hft hf,
    asked_next htt ht, File.writeAll, TcpStream.writeAll, loop_next hft hf, loop_next htt ht,
    List.map_cons, List.map_cons, List.map_cons, delivered_cons, delivered_cons]
  exact ⟨congrArg (buf :: ·) hs, congrArg (_ ++ ·) hd, hr⟩

theorem InterruptedMidway.next {n : Nat} (hn : n ≠ 0)
    (h : InterruptedMidway (buf.drop n) rest) : InterruptedMidway buf (.ok n :: rest) := by
  obtain ⟨used, e, rest, rfl, hi, hu, hl⟩ := h
  refine ⟨.ok n :: used, e, rest, rfl, hi, ?_, ?_⟩
  · rw [List.forall_mem_cons]
    exact ⟨⟨n, hn, rfl⟩, hu⟩
  · have hlen : taken (.ok n :: used) = n + taken used := rfl
    rw [List.length_drop] at hl
    omega

theorem writersAgree_of_not_interrupted (errno : Errno) (buf : Bytes)
    (h : ¬ InterruptedMidway buf results) : WritersAgree errno buf results := by
  induction results generalizing buf with
  | nil =>
    by_cases hb : buf = []
    · subst hb
      exact writersAgree_nil errno []
    rw [WritersAgree, File.writeAll, TcpStream.writeAll, loop_wait (File.writeAllTop_none hb),
      loop_wait (TcpStream.writeAllTop_none errno hb)]
    exact ⟨rfl, rfl, rfl⟩
  | cons r results ih =>
    by_cases hb : buf = []
    · subst hb
      exact writersAgree_nil errno (r :: results)
    cases r with
    | ok n =>
      by_cases hn : n = 0
      · subst hn
        exact writersAgree_exit hb rfl rfl results
      · have hnext := fun hi => h (InterruptedMidway.next hn hi)
        exact writersAgree_next hb hn (ih (buf.drop n) hnext)
    | error e =>
      have hi : e.interrupted = false := by
        by_contra hi
        exact h ⟨[], e, results, rfl, Bool.eq_true_of_not_eq_false hi, by simp,
          List.length_pos_iff.mpr hb⟩
      have ht : TcpStream.writeAllBody (errno, buf) (.error e) = .inl (.error (.os e)) := by
        simp [TcpStream.writeAllBody, Error.errno, hi]
      exact writersAgree_exit hb rfl ht results

/-- An interrupted call ends `File::write_all` only. -/
theorem not_writersAgree (errno : Errno) (h : InterruptedMidway buf results) :
    ¬ WritersAgree errno buf results := by
  obtain ⟨used, e, rest, rfl, hi, hu, hl⟩ := h
  rintro ⟨hs, -, hr⟩
  have hg : ∀ q ∈ used, q.failed = false := by
    intro q hq
    obtain ⟨n, hn, rfl⟩ := hu q hq
    simpa [Send.failed] using hn
  have hb : buf.drop (taken used) ≠ [] := by simpa using hl
  have hf := File.runFrom_writeAll buf hu hl
  obtain ⟨errno', ht⟩ := TcpStream.runFrom_writeAll errno buf hg hl
  have hfe : File.writeAllBody (buf.drop (taken used)) (.error e) = .inl (.error (.os e)) := rfl
  have hte : TcpStream.writeAllBody (errno', buf.drop (taken used)) (.error e) =
      .inr (e, buf.drop (taken used)) := by simp [TcpStream.writeAllBody, Error.errno, hi]
  have hft := File.writeAllTop_none hb
  have htt := TcpStream.writeAllTop_none errno' hb
  have hte' := TcpStream.writeAllTop_none e hb
  cases rest with
  | nil =>
    rw [File.writeAll, TcpStream.writeAll, run_loop_append hf, run_loop_append ht,
      loop_exit hft hfe, loop_next htt hte, loop_wait hte'] at hr
    cases hr
  | cons r rest =>
    have hlen := congrArg List.length hs
    have hpos : 0 < (asked TcpStream.writeAllTop TcpStream.writeAllBody
        (e, buf.drop (taken used)) (r :: rest)).length :=
      List.length_pos_iff.mpr (asked_ne_nil hte' r rest)
    rw [File.writeAllCalls, TcpStream.writeAllCalls, asked_append hf, asked_append ht,
      asked_exit hft hfe, asked_next htt hte] at hlen
    simp only [List.length_map, List.length_append, List.length_cons, List.length_nil,
      length_asked hf, length_asked ht] at hlen
    omega

/-- After one interruption `TcpStream::write_all` has written the buffer, and
`File::write_all` has failed. -/
theorem writersDisagree : ¬ WritersAgree ⟨0⟩ [1] [.error ⟨EINTR⟩, .ok 1] := by
  rintro ⟨-, -, hr⟩
  revert hr
  decide

/-- The writers agree unless a signal interrupts a call. -/
theorem writersAgree_iff (errno : Errno) (buf : Bytes) (results : List Send) :
    WritersAgree errno buf results ↔ ¬ InterruptedMidway buf results :=
  ⟨fun ha hi => not_writersAgree errno hi ha, writersAgree_of_not_interrupted errno buf⟩

end Agree

end PsPayload
