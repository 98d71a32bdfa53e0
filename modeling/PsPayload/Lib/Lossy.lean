import Mathlib.Data.List.Forall2
import PsPayload.Lib.Text

/-!
# Lossy decoding

`fromUtf8Lossy` decodes any bytes: what cannot be decoded becomes U+FFFD, one
for each longest piece that begins a character or is one byte long. A result
without U+FFFD is that of `fromUtf8` (`fromUtf8Lossy_eq_iff`).
-/

namespace Lib

/-- A byte that lies in a range, the ends included. -/
def InRange (r : Nat × Nat) (b : UInt8) : Prop := r.1 ≤ b.toNat ∧ b.toNat ≤ r.2

instance (r : Nat × Nat) (b : UInt8) : Decidable (InRange r b) :=
  inferInstanceAs (Decidable (_ ∧ _))

/-- The ranges of the bytes that follow the first byte of a character. A byte
that no character begins with has none. -/
def follow (b : UInt8) : List (Nat × Nat) :=
  let n := b.toNat
  if 0xC2 ≤ n ∧ n ≤ 0xDF then [(0x80, 0xBF)]
  else if n = 0xE0 then [(0xA0, 0xBF), (0x80, 0xBF)]
  else if n = 0xED then [(0x80, 0x9F), (0x80, 0xBF)]
  else if 0xE1 ≤ n ∧ n ≤ 0xEF then [(0x80, 0xBF), (0x80, 0xBF)]
  else if n = 0xF0 then [(0x90, 0xBF), (0x80, 0xBF), (0x80, 0xBF)]
  else if n = 0xF4 then [(0x80, 0x8F), (0x80, 0xBF), (0x80, 0xBF)]
  else if 0xF1 ≤ n ∧ n ≤ 0xF3 then [(0x80, 0xBF), (0x80, 0xBF), (0x80, 0xBF)]
  else []

/-- How many bytes are in the ranges, one after the other. -/
def matched : List (Nat × Nat) → Bytes → Nat
  | [], _ => 0
  | _ :: _, [] => 0
  | r :: ranges, b :: rest => if InRange r b then matched ranges rest + 1 else 0

/-- The characters, and the pieces between them that are not one. -/
def chunks : Bytes → List Bytes
  | [] => []
  | b :: rest =>
    let n := matched (follow b) rest
    (b :: rest.take n) :: chunks (rest.drop n)
termination_by b => b.length
decreasing_by rw [List.length_drop, List.length_cons]; omega

/-- U+FFFD. -/
def replacement : Char := Char.ofNat 0xFFFD

/-- `String::from_utf8_lossy`. -/
def fromUtf8Lossy (b : Bytes) : Str :=
  (chunks b).flatMap fun chunk => (fromUtf8 chunk).getD [replacement]

theorem flatten_chunks (b : Bytes) : (chunks b).flatten = b := by
  induction b using chunks.induct with
  | case1 => simp [chunks]
  | case2 b rest n ih =>
    rw [chunks, List.flatten_cons, ih, List.cons_append, List.take_append_drop]

/-- What has been decoded without U+FFFD is the bytes. -/
theorem utf8_fromUtf8Lossy {b : Bytes} (h : replacement ∉ fromUtf8Lossy b) :
    utf8 (fromUtf8Lossy b) = b := by
  suffices ∀ cs : List Bytes,
      replacement ∉ cs.flatMap (fun chunk => (fromUtf8 chunk).getD [replacement]) →
      utf8 (cs.flatMap fun chunk => (fromUtf8 chunk).getD [replacement]) = cs.flatten by
    rw [fromUtf8Lossy, this _ h, flatten_chunks]
  intro cs
  induction cs with
  | nil => exact fun _ => rfl
  | cons chunk cs ih =>
    intro h
    rw [List.flatMap_cons, List.mem_append, not_or] at h
    rw [List.flatMap_cons, utf8_append, ih h.2, List.flatten_cons]
    cases hc : fromUtf8 chunk with
    | none =>
      rw [hc, Option.getD_none] at h
      exact absurd (List.mem_singleton_self replacement) h.1
    | some s => rw [Option.getD_some, utf8_of_fromUtf8 hc]

/-! ## Well-formed bytes -/

theorem matched_append {ranges : List (Nat × Nat)} {cs : Bytes}
    (h : List.Forall₂ InRange ranges cs) (rest : Bytes) :
    matched ranges (cs ++ rest) = cs.length := by
  induction h with
  | nil => rw [matched, List.length_nil]
  | cons hb _ ih => rw [List.cons_append, matched, if_pos hb, ih, List.length_cons]

theorem toNat_ofNat {n : Nat} (h : n < 256) : (UInt8.ofNat n).toNat = n :=
  UInt8.toNat_ofNat_of_lt' h

theorem inRange_ofNat {lo hi n : Nat} (h : lo ≤ n ∧ n ≤ hi) (hhi : hi < 256) :
    InRange (lo, hi) (UInt8.ofNat n) := by
  rw [InRange, toNat_ofNat (by omega)]
  exact h

/-- The bytes of a character follow its first byte. -/
theorem follow_utf8EncodeChar (c : Char) : ∃ b cs, String.utf8EncodeChar c = b :: cs ∧
    List.Forall₂ InRange (follow b) cs := by
  have hv : c.val.toNat < 0xD800 ∨ 0xDFFF < c.val.toNat ∧ c.val.toNat < 0x110000 := c.valid
  rw [String.utf8EncodeChar]
  generalize c.val.toNat = v at hv
  split_ifs with h1 h2 h3
  · refine ⟨_, _, rfl, ?_⟩
    rw [follow, toNat_ofNat (by omega), if_neg (by omega), if_neg (by omega), if_neg (by omega),
      if_neg (by omega), if_neg (by omega), if_neg (by omega), if_neg (by omega)]
    exact .nil
  · have hx : 0x80 ≤ v % 0x40 + 0x80 ∧ v % 0x40 + 0x80 ≤ 0xBF := by omega
    refine ⟨_, _, rfl, ?_⟩
    rw [follow, toNat_ofNat (by omega), if_pos (by omega)]
    exact .cons (inRange_ofNat hx (by decide)) .nil
  · have hx : 0x80 ≤ v % 0x40 + 0x80 ∧ v % 0x40 + 0x80 ≤ 0xBF := by omega
    have hy : 0x80 ≤ v / 64 % 0x40 + 0x80 ∧ v / 64 % 0x40 + 0x80 ≤ 0xBF := by omega
    refine ⟨_, _, rfl, ?_⟩
    rw [follow, toNat_ofNat (by omega), if_neg (by omega)]
    by_cases h4 : v < 0x1000
    · rw [if_pos (by omega)]
      exact .cons (inRange_ofNat (by omega) (by decide)) (.cons (inRange_ofNat hx (by decide)) .nil)
    rw [if_neg (by omega)]
    -- the surrogates would be here
    by_cases h5 : 0xD000 ≤ v ∧ v < 0xE000
    · rw [if_pos (by omega)]
      exact .cons (inRange_ofNat (by omega) (by decide)) (.cons (inRange_ofNat hx (by decide)) .nil)
    rw [if_neg (by omega), if_pos (by omega)]
    exact .cons (inRange_ofNat hy (by decide)) (.cons (inRange_ofNat hx (by decide)) .nil)
  · have hx : 0x80 ≤ v % 0x40 + 0x80 ∧ v % 0x40 + 0x80 ≤ 0xBF := by omega
    have hy : 0x80 ≤ v / 64 % 0x40 + 0x80 ∧ v / 64 % 0x40 + 0x80 ≤ 0xBF := by omega
    have hz : 0x80 ≤ v / 4096 % 0x40 + 0x80 ∧ v / 4096 % 0x40 + 0x80 ≤ 0xBF := by omega
    have htail := List.Forall₂.cons (inRange_ofNat hy (by decide))
      (.cons (inRange_ofNat hx (by decide)) .nil)
    refine ⟨_, _, rfl, ?_⟩
    rw [follow, toNat_ofNat (by omega), if_neg (by omega), if_neg (by omega), if_neg (by omega),
      if_neg (by omega)]
    by_cases h4 : v < 0x40000
    · rw [if_pos (by omega)]
      exact .cons (inRange_ofNat (by omega) (by decide)) htail
    rw [if_neg (by omega)]
    by_cases h5 : 0x100000 ≤ v
    · rw [if_pos (by omega)]
      exact .cons (inRange_ofNat (by omega) (by decide)) htail
    rw [if_neg (by omega), if_pos (by omega)]
    exact .cons (inRange_ofNat hz (by decide)) htail

theorem chunks_utf8 (s : Str) : chunks (utf8 s) = s.map String.utf8EncodeChar := by
  induction s with
  | nil => simp [chunks]
  | cons c s ih =>
    obtain ⟨b, cs, he, hf⟩ := follow_utf8EncodeChar c
    rw [utf8_cons, he, List.cons_append, chunks, matched_append hf, List.take_left, List.drop_left,
      ih, List.map_cons, he]

/-- Well-formed bytes are decoded as they are by `fromUtf8`. -/
theorem fromUtf8Lossy_utf8 (s : Str) : fromUtf8Lossy (utf8 s) = s := by
  rw [fromUtf8Lossy, chunks_utf8, List.flatMap_map]
  induction s with
  | nil => rfl
  | cons c s ih =>
    have hc : utf8 [c] = String.utf8EncodeChar c := List.append_nil _
    rw [List.flatMap_cons, ih, ← hc, fromUtf8_utf8, Option.getD_some, List.singleton_append]

/-- A string without U+FFFD comes from its own bytes only. -/
theorem fromUtf8Lossy_eq_iff {b : Bytes} {s : Str} (h : replacement ∉ s) :
    fromUtf8Lossy b = s ↔ b = utf8 s := by
  refine ⟨fun hs => ?_, fun hb => by rw [hb, fromUtf8Lossy_utf8]⟩
  rw [← hs] at h ⊢
  exact (utf8_fromUtf8Lossy h).symm

end Lib
