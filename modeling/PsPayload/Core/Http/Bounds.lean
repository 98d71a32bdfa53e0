import PsPayload.Lib.Loop
import PsPayload.Core.Http.ReadRequest

/-!
# What a peer can make the server read

Whatever a peer sends, `readRequest` asks for a bounded number of reads and its
buffers stay bounded (`bounded_readRequest`). Each loop has an invariant for
its turns (`head_turns`, `body_turns`): the buffer has grown by a byte or more
in each, and by no more than a chunk since it was last within its limit.
-/

namespace PsPayload.Http

open Lib Script

/-- A `recv` that does not fail and stores no more than a chunk. -/
def InChunk (r : Recv) : Prop := ∃ bytes : Bytes, r = .ok bytes ∧ bytes.length ≤ READ_CHUNK

/-- The buffer of the first loop at its head, after its turns with these reads. -/
def headBuffer (limits : Limits) (used : List Recv) : Option Bytes :=
  runFrom (turn (readHeadTop limits) readHeadBody) [] used

/-- The buffer of the second loop at its head. -/
def bodyBuffer (contentLength : UInt64) (body : Bytes) (used : List Recv) : Option Bytes :=
  runFrom (turn (readBodyTop contentLength) readBodyBody) body used

/-- The work and the memory of `read_request` against the reads `s`, of which
`buf` and `headEnd` are what the first loop makes and `t` is what it leaves. -/
structure Bounded (limits : Limits) (s : List Recv) : Prop where
  head_calls : (readHead limits).calls s ≤ limits.maxHeaderBytes.toNat + 1
  head_buffer : ∀ used buf, used <+: s → headBuffer limits used = some buf →
    buf.length ≤ limits.maxHeaderBytes.toNat + READ_CHUNK
  /-- `buf[..head_end]` and `buf[head_end + 4..]` are slices of the buffer. -/
  slices : ∀ buf headEnd t, (readHead limits).run s = some (.ok (some (buf, headEnd)), t) →
    headEnd ≤ buf.length ∧ headEnd + 4 ≤ buf.length
  body : ∀ buf headEnd t head, (readHead limits).run s = some (.ok (some (buf, headEnd)), t) →
    parseHead (buf.take headEnd) = .ok head →
    ¬ limits.maxBodyBytes < contentLength head.headers →
    (contentLength head.headers).toNat ≤ limits.maxBodyBytes.toNat ∧
    (readBody (contentLength head.headers) (buf.drop (headEnd + 4))).calls t ≤
      (contentLength head.headers).toNat ∧
    ∀ used body, used <+: t →
      bodyBuffer (contentLength head.headers) (buf.drop (headEnd + 4)) used = some body →
      body.length ≤ max READ_CHUNK ((contentLength head.headers).toNat + READ_CHUNK - 1)
  calls : (readRequest limits).calls s ≤
    limits.maxHeaderBytes.toNat + 1 + limits.maxBodyBytes.toNat
  returns : limits.maxHeaderBytes.toNat + 1 + limits.maxBodyBytes.toNat ≤ s.length →
    ∃ r t, (readRequest limits).run s = some (r, t)

/-! ## The turns of the two loops -/

section Turns

variable {limits : Limits} {buf buf' : Bytes} {r : Recv} {used : List Recv}

theorem inChunk_of_sub {s : List Recv} (hs : ∀ r ∈ s, InChunk r) (h : used <+: s) :
    ∀ r ∈ used, InChunk r := fun r hr => hs r (h.subset hr)

theorem readHeadTop_eq_none (h : readHeadTop limits buf = none) :
    findDoubleCrlf buf = none ∧ buf.length ≤ limits.maxHeaderBytes.toNat := by
  cases hf : findDoubleCrlf buf with
  | some pos => simp [readHeadTop_some limits hf] at h
  | none =>
    refine ⟨rfl, ?_⟩
    by_contra hl
    simp [readHeadTop_limit limits hf (by omega)] at h

theorem readHeadBody_eq_inr (h : readHeadBody buf r = .inr buf') :
    ∃ bytes : Bytes, r = .ok bytes ∧ bytes ≠ [] ∧ buf' = buf ++ bytes := by
  cases r with
  | error e => cases h
  | ok bytes =>
    cases bytes with
    | nil =>
      rw [readHeadBody] at h
      split at h
      · cases h
      · cases h
    | cons b bytes =>
      cases h
      exact ⟨b :: bytes, rfl, by simp, rfl⟩

/-- The first loop ends in its body with an error, or with nothing read. -/
theorem readHeadBody_eq_inl {x : Result (Option (Bytes × Nat))}
    (h : readHeadBody buf r = .inl x) :
    (∃ e, r = .error e ∧ x = .error (.os e)) ∨ r = .ok [] ∧
      (x = .ok none ∨ x = .error (.invalidInput "connection closed mid-request")) := by
  cases r with
  | error e =>
    cases h
    exact .inl ⟨e, rfl, rfl⟩
  | ok bytes =>
    cases bytes with
    | nil =>
      rw [readHeadBody] at h
      split at h
      · cases h
        exact .inr ⟨rfl, .inl rfl⟩
      · cases h
        exact .inr ⟨rfl, .inr rfl⟩
    | cons b bytes => cases h

theorem readBodyBody_eq_inr (h : readBodyBody buf r = .inr buf') :
    ∃ bytes : Bytes, r = .ok bytes ∧ bytes ≠ [] ∧ buf' = buf ++ bytes := by
  cases r with
  | error e => cases h
  | ok bytes =>
    cases bytes with
    | nil => cases h
    | cons b bytes =>
      cases h
      exact ⟨b :: bytes, rfl, by simp, rfl⟩

/-- After its turns the buffer of the first loop holds a byte or more for each,
no more than a chunk beyond the limit, and less than a chunk after the blank
line. -/
theorem head_turns (hs : ∀ r ∈ used, InChunk r) (h : headBuffer limits used = some buf) :
    used.length ≤ buf.length ∧ used.length ≤ limits.maxHeaderBytes.toNat + 1 ∧
      buf.length ≤ limits.maxHeaderBytes.toNat + READ_CHUNK ∧
      ∀ pos, findDoubleCrlf buf = some pos → buf.length ≤ pos + 4 + READ_CHUNK := by
  refine invariant (I := fun used (buf : Bytes) => (∀ r ∈ used, InChunk r) →
    used.length ≤ buf.length ∧ used.length ≤ limits.maxHeaderBytes.toNat + 1 ∧
      buf.length ≤ limits.maxHeaderBytes.toNat + READ_CHUNK ∧
      ∀ pos, findDoubleCrlf buf = some pos → buf.length ≤ pos + 4 + READ_CHUNK)
    ?_ ?_ h hs
  · exact fun _ => ⟨Nat.le_refl 0, Nat.zero_le _, Nat.zero_le _, fun pos _ => Nat.zero_le _⟩
  · intro used r buf buf' _ ih ht hs
    rw [List.forall_mem_append, List.forall_mem_singleton] at hs
    obtain ⟨hn, hb⟩ := turn_eq_some_iff.mp ht
    obtain ⟨hf, hl⟩ := readHeadTop_eq_none hn
    obtain ⟨bytes, rfl, hne, rfl⟩ := readHeadBody_eq_inr hb
    obtain ⟨bytes', he, hc⟩ := hs.2
    obtain rfl : bytes = bytes' := Except.ok.inj he
    obtain ⟨hle, -⟩ := ih hs.1
    have hpos : 0 < bytes.length := List.length_pos_iff.mpr hne
    rw [List.length_append, List.length_append, List.length_singleton]
    refine ⟨by omega, by omega, by omega, fun pos hp => ?_⟩
    -- the blank line was not there before the last read
    have hlt : ¬ pos + 4 ≤ buf.length := by
      intro hle
      have := findDoubleCrlf_of_append hp
      rw [if_pos hle, hf] at this
      cases this
    omega

/-- After its turns the buffer of the second loop holds a byte or more for each,
and less than a chunk beyond the declared length. -/
theorem body_turns {n : UInt64} {start : Bytes} (hs : ∀ r ∈ used, InChunk r)
    (h : bodyBuffer n start used = some buf) :
    used.length ≤ buf.length ∧ used.length ≤ n.toNat ∧
      buf.length ≤ max start.length (n.toNat + READ_CHUNK - 1) := by
  refine invariant (I := fun used (buf : Bytes) => (∀ r ∈ used, InChunk r) →
    used.length ≤ buf.length ∧ used.length ≤ n.toNat ∧
      buf.length ≤ max start.length (n.toNat + READ_CHUNK - 1)) ?_ ?_ h hs
  · exact fun _ => ⟨Nat.zero_le _, Nat.zero_le _, Nat.le_max_left _ _⟩
  · intro used r buf buf' _ ih ht hs
    rw [List.forall_mem_append, List.forall_mem_singleton] at hs
    obtain ⟨hn, hb⟩ := turn_eq_some_iff.mp ht
    have hl : buf.length < n.toNat := by
      by_contra hl
      simp [readBodyTop_some (Nat.le_of_not_lt hl)] at hn
    obtain ⟨bytes, rfl, hne, rfl⟩ := readBodyBody_eq_inr hb
    obtain ⟨bytes', he, hc⟩ := hs.2
    obtain rfl : bytes = bytes' := Except.ok.inj he
    obtain ⟨hle, -⟩ := ih hs.1
    have hpos : 0 < bytes.length := List.length_pos_iff.mpr hne
    rw [List.length_append, List.length_append, List.length_singleton]
    refine ⟨by omega, by omega, ?_⟩
    exact Nat.le_trans (by omega) (Nat.le_max_right _ _)

end Turns

section Bounds

variable {limits : Limits} {s t : List Recv}

theorem calls_readHead (limits : Limits) (hs : ∀ r ∈ s, InChunk r) :
    (readHead limits).calls s ≤ limits.maxHeaderBytes.toNat + 1 := by
  refine calls_loop_le fun used buf hp h => ?_
  obtain ⟨hle, hm, -⟩ := head_turns (inChunk_of_sub hs hp) h
  refine ⟨hm, fun ht => ?_⟩
  have := (readHeadTop_eq_none ht).2
  omega

theorem calls_readBody (n : UInt64) (start : Bytes) (ht : ∀ r ∈ t, InChunk r) :
    (readBody n start).calls t ≤ n.toNat := by
  refine calls_loop_le fun used body hp h => ?_
  obtain ⟨hle, hm, -⟩ := body_turns (inChunk_of_sub ht hp) h
  refine ⟨hm, fun htop => ?_⟩
  by_contra hl
  simp [readBodyTop_some (show n.toNat ≤ body.length by omega)] at htop

/-- The first loop ends with the buffer of its last head, at its blank line. -/
theorem readHead_some {buf : Bytes} {headEnd : Nat}
    (h : (readHead limits).run s = some (.ok (some (buf, headEnd)), t)) :
    ∃ used, s = used ++ t ∧ headBuffer limits used = some buf ∧
      findDoubleCrlf buf = some headEnd := by
  obtain ⟨used, y, hy, ⟨rfl, ht⟩ | ⟨i, -, -, hb⟩⟩ := run_loop_some h
  · refine ⟨used, rfl, ?_⟩
    cases hf : findDoubleCrlf y with
    | some pos =>
      rw [readHeadTop_some limits hf] at ht
      cases ht
      exact ⟨hy, hf⟩
    | none =>
      simp only [readHeadTop, hf] at ht
      split at ht
      · cases ht
      · cases ht
  · obtain ⟨e, -, hx⟩ | ⟨-, hx | hx⟩ := readHeadBody_eq_inl hb
    · cases hx
    · cases hx
    · cases hx

/-- What the second part asks for. -/
theorem calls_readRest (limits : Limits) (buf : Bytes) (headEnd : Nat)
    (ht : ∀ r ∈ t, InChunk r) :
    (readRest limits buf headEnd).calls t ≤ limits.maxBodyBytes.toNat := by
  cases hp : parseHead (buf.take headEnd) with
  | error e =>
    rw [calls_some (readRest_error hp t), Nat.sub_self]
    exact Nat.zero_le _
  | ok head =>
    by_cases hl : limits.maxBodyBytes < contentLength head.headers
    · rw [calls_some (readRest_limit hp hl t), Nat.sub_self]
      exact Nat.zero_le _
    · have hle := calls_readBody (contentLength head.headers) (buf.drop (headEnd + 4)) ht
      rw [calls_congr (readRest_ok hp hl t), calls_bind_pure]
      rw [UInt64.lt_iff_toNat_lt] at hl
      omega

theorem calls_readRequest (limits : Limits) (hs : ∀ r ∈ s, InChunk r) :
    (readRequest limits).calls s ≤
      limits.maxHeaderBytes.toNat + 1 + limits.maxBodyBytes.toNat := by
  have hle := calls_readHead limits hs
  have hcausal : (readHead limits).Causal := causal_loop _ _ _
  cases hr : (readHead limits).run s with
  | none =>
    rw [readRequest, calls_bind_none hr]
    omega
  | some p =>
    obtain ⟨r, t⟩ := p
    cases r with
    | error e =>
      rw [readRequest, calls_bind_error hr]
      omega
    | ok found =>
      cases found with
      | none =>
        have hrun : (readRequest limits).run s = some (.ok none, t) := run_bind_ok hr _
        have hhead := calls_some hr
        rw [calls_some hrun]
        omega
      | some p =>
        obtain ⟨buf, headEnd⟩ := p
        obtain ⟨used, rfl, -, -⟩ := readHead_some hr
        have hrest := calls_readRest limits buf headEnd
          (fun r h => hs r (List.mem_append_right _ h))
        have heq : (readRequest limits).calls (used ++ t) =
            (readHead limits).calls (used ++ t) + (readRest limits buf headEnd).calls t :=
          calls_bind_ok hcausal (causal_readRest limits buf headEnd) hr
        omega

/-- Any peer, one that never closes included, gets `read_request` to make so many
reads and to keep so many bytes at most. -/
theorem bounded_readRequest (limits : Limits) (s : List Recv) (hs : ∀ r ∈ s, InChunk r) :
    Bounded limits s where
  head_calls := calls_readHead limits hs
  head_buffer used buf hp h := (head_turns (inChunk_of_sub hs hp) h).2.2.1
  slices buf headEnd t hr := by
    obtain ⟨used, -, -, hf⟩ := readHead_some hr
    have := findDoubleCrlf_add_le hf
    exact ⟨by omega, this⟩
  body buf headEnd t head hr hp hl := by
    obtain ⟨used, rfl, hb, hf⟩ := readHead_some hr
    have ht : ∀ r ∈ t, InChunk r := fun r h => hs r (List.mem_append_right _ h)
    have hu : ∀ r ∈ used, InChunk r := fun r h => hs r (List.mem_append_left _ h)
    have hover := (head_turns hu hb).2.2.2 headEnd hf
    rw [UInt64.lt_iff_toNat_lt] at hl
    refine ⟨by omega, calls_readBody _ _ ht, fun used' body hp' h => ?_⟩
    have hle := (body_turns (inChunk_of_sub ht hp') h).2.2
    rw [List.length_drop] at hle
    exact Nat.le_trans hle (Nat.max_le.mpr ⟨Nat.le_trans (by omega) (Nat.le_max_left _ _),
      Nat.le_max_right _ _⟩)
  calls := calls_readRequest limits hs
  returns h := run_of_calls_le (Nat.le_trans (calls_readRequest limits hs) h)

/-- A peer that sends bytes one at a time, and no blank line. -/
theorem bounded_readRequest_drip :
    (∀ r ∈ [Except.ok [65], Except.ok [66]], InChunk r) ∧
      Bounded ⟨0, 0⟩ [.ok [65], .ok [66]] := by
  have hs : ∀ r ∈ [Except.ok [65], Except.ok [66]], InChunk r := by
    simp [InChunk, READ_CHUNK]
  exact ⟨hs, bounded_readRequest ⟨0, 0⟩ _ hs⟩

end Bounds

end PsPayload.Http
