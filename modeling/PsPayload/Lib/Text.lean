import PsPayload.Lib.Lines
import Mathlib.Data.List.DropRight

/-!
# Text and its UTF-8 bytes

A string is the list of its characters, and `utf8` its bytes. `fromUtf8`
decodes; the two are inverse (`fromUtf8_utf8`, `utf8_of_fromUtf8`). An ASCII
byte stands for its own character only (`mem_utf8_ascii`), so a terminator of
two ASCII characters occurs in the bytes only where it occurs in the text
(`infix_of_infix_utf8`).

Below that, what the standard library's string functions compute: trimming,
the first occurrence of a separator, comparison that ignores ASCII case, and
decimal numerals, each with the cases in which it gives back what was put in.
-/

namespace Lib

abbrev Str := List Char
abbrev Bytes := List UInt8

/-- The bytes of a string. -/
def utf8 (s : Str) : Bytes := s.flatMap String.utf8EncodeChar

/-- The string with these bytes, if they are well-formed UTF-8. -/
def fromUtf8 (b : Bytes) : Option Str := b.toByteArray.utf8Decode?.map Array.toList

theorem utf8Encode_eq (s : Str) : s.utf8Encode = (utf8 s).toByteArray := rfl

theorem toByteArray_inj {a b : Bytes} (h : a.toByteArray = b.toByteArray) : a = b := by
  have := congrArg (fun x => x.data.toList) h
  simpa using this

@[simp] theorem fromUtf8_utf8 (s : Str) : fromUtf8 (utf8 s) = some s := by
  rw [fromUtf8, ← utf8Encode_eq, List.utf8Decode?_utf8Encode]
  rfl

theorem utf8_of_fromUtf8 {b : Bytes} {s : Str} (h : fromUtf8 b = some s) : utf8 s = b := by
  simp only [fromUtf8, Option.map_eq_some_iff] at h
  obtain ⟨a, ha, rfl⟩ := h
  have hs : b.toByteArray.utf8Decode?.isSome := by rw [ha]; rfl
  have := ByteArray.utf8Encode_get_utf8Decode? (h := hs)
  simp only [ha, Option.get_some, utf8Encode_eq] at this
  exact toByteArray_inj this

@[simp] theorem utf8_nil : utf8 [] = [] := rfl

@[simp] theorem utf8_append (s t : Str) : utf8 (s ++ t) = utf8 s ++ utf8 t := List.flatMap_append

@[simp] theorem utf8_cons (c : Char) (s : Str) :
    utf8 (c :: s) = String.utf8EncodeChar c ++ utf8 s := rfl

theorem utf8_eq_nil_iff {s : Str} : utf8 s = [] ↔ s = [] := by
  cases s with
  | nil => simp
  | cons c s => simp [String.utf8EncodeChar_ne_nil]

/-! ## ASCII -/

/-- A byte below 128 in the encoding of a character is all of it. -/
theorem mem_utf8EncodeChar_ascii {c : Char} {b : UInt8} (h : b ∈ String.utf8EncodeChar c)
    (hb : b.toNat < 128) : c.toNat = b.toNat := by
  have hc : c.toNat = c.val.toNat := rfl
  unfold String.utf8EncodeChar at h
  simp only at h
  -- every byte of an encoding of two bytes or more has its top bit set
  split at h <;> [skip; split at h <;> [skip; split at h]] <;>
    simp only [List.mem_cons, List.not_mem_nil, or_false] at h <;>
    rcases h with rfl | rfl | rfl | rfl <;>
    simp only [UInt8.toNat_ofNat'] at hb ⊢ <;> omega

theorem mem_utf8_ascii {s : Str} {c : Char} (hc : c.toNat < 128) (h : c.toNat.toUInt8 ∈ utf8 s) :
    c ∈ s := by
  obtain ⟨d, hd, hb⟩ := List.mem_flatMap.mp h
  have e : c.toNat.toUInt8.toNat = c.toNat := by
    rw [Nat.toUInt8_eq, UInt8.toNat_ofNat']
    omega
  have := mem_utf8EncodeChar_ascii hb (by omega)
  obtain rfl : d = c := Char.toNat_inj.mp (this.trans e)
  exact hd

theorem utf8EncodeChar_ascii {c : Char} (h : c.toNat < 128) :
    String.utf8EncodeChar c = [c.toNat.toUInt8] := by
  have hc : c.toNat = c.val.toNat := rfl
  unfold String.utf8EncodeChar
  simp only
  rw [if_pos (by omega), hc]

/-- A slice does not start where its first element does not occur. -/
theorem infix_of_infix_append {α : Type} {a : α} {p l r : List α} (hl : a ∉ l)
    (h : a :: p <:+: l ++ r) : a :: p <:+: r := by
  induction l with
  | nil => exact h
  | cons b l ih =>
    simp only [List.mem_cons, not_or] at hl
    rw [List.cons_append, List.infix_cons_iff, List.cons_prefix_cons] at h
    exact ih hl.2 (h.resolve_left fun h => hl.1 h.1)

/-- Two ASCII characters next to each other in the bytes of a text are next
to each other in the text. -/
theorem infix_of_infix_utf8 {c d : Char} (hc : c.toNat < 128) (hd : d.toNat < 128) {s : Str}
    (h : utf8 [c, d] <:+: utf8 s) : [c, d] <:+: s := by
  simp only [utf8_cons, utf8_nil, utf8EncodeChar_ascii hc, utf8EncodeChar_ascii hd,
    List.singleton_append] at h
  induction s with
  | nil => simp at h
  | cons e s ih =>
    rw [utf8_cons] at h
    have ih := fun h => (ih h).trans (List.suffix_cons e s).isInfix
    by_cases he : e = c
    · subst he
      rw [utf8EncodeChar_ascii hc, List.singleton_append, List.infix_cons_iff,
        List.cons_prefix_cons] at h
      refine h.elim (fun h => ?_) ih
      cases s with
      | nil => simp at h
      | cons f s =>
        obtain ⟨-, t, ht⟩ := h
        have hf : f = d := by
          cases hb : String.utf8EncodeChar f with
          | nil => exact absurd hb String.utf8EncodeChar_ne_nil
          | cons b bs =>
            rw [utf8_cons, hb] at ht
            obtain rfl : d.toNat.toUInt8 = b := (List.cons.inj ht).1
            have : d.toNat.toUInt8 ∈ utf8 [f] := by simp [hb]
            exact (List.mem_singleton.mp (mem_utf8_ascii hd this)).symm
        exact ⟨[], s, by rw [hf]; rfl⟩
    · refine ih (infix_of_infix_append (fun hb => he ?_) h)
      have : c ∈ [e] := mem_utf8_ascii hc (by simpa using hb)
      exact (List.mem_singleton.mp this).symm

/-- The bytes of joined lines are their bytes, joined. -/
theorem utf8_joinLines (cr lf : Char) (hc : cr.toNat < 128) (hd : lf.toNat < 128) (l : Str)
    (ls : List Str) :
    utf8 (joinLines cr lf (l :: ls)) =
      joinLines cr.toNat.toUInt8 lf.toNat.toUInt8 ((l :: ls).map utf8) := by
  induction ls generalizing l with
  | nil => simp
  | cons l' ls ih =>
    rw [joinLines_cons_cons, utf8_append, utf8_cons, utf8_cons, ih, utf8EncodeChar_ascii hc,
      utf8EncodeChar_ascii hd]
    simp

/-- After lines of text that are not empty, the first empty line is the one
that ends them. -/
theorem findSlice_utf8_head {cr lf : Char} (hc : cr.toNat < 128) (hd : lf.toNat < 128)
    (hne : cr ≠ lf) {l : Str} {ls : List Str} (hnil : ∀ x ∈ l :: ls, x ≠ [])
    (h : ∀ x ∈ l :: ls, ¬ [cr, lf] <:+: x) (rest : Bytes) :
    findSlice (utf8 [cr, lf, cr, lf])
        (utf8 (joinLines cr lf (l :: ls)) ++ utf8 [cr, lf, cr, lf] ++ rest) =
      some (utf8 (joinLines cr lf (l :: ls))).length := by
  have hcd : cr.toNat.toUInt8 ≠ lf.toNat.toUInt8 := by
    intro he
    have : cr ∈ [lf] := mem_utf8_ascii hc (by simp [utf8EncodeChar_ascii hd, he])
    exact hne (List.mem_singleton.mp this)
  have := findSlice_head hcd (utf8 l) (ls.map utf8)
    (by
      rw [← List.map_cons, List.forall_mem_map]
      exact fun x hx => fun he => hnil x hx (utf8_eq_nil_iff.mp he))
    (by
      rw [← List.map_cons, List.forall_mem_map]
      refine fun x hx hi => h x hx (infix_of_infix_utf8 hc hd ?_)
      simpa [utf8EncodeChar_ascii hc, utf8EncodeChar_ascii hd] using hi) rest
  rw [utf8_joinLines cr lf hc hd]
  simpa [utf8EncodeChar_ascii hc, utf8EncodeChar_ascii hd] using this

/-! ## Trimming -/

/-- `char::is_whitespace`: the property White_Space of Unicode. -/
def isWhitespace (c : Char) : Bool :=
  let n := c.toNat
  (9 ≤ n ∧ n ≤ 13) ∨ n = 0x20 ∨ n = 0x85 ∨ n = 0xA0 ∨ n = 0x1680 ∨ (0x2000 ≤ n ∧ n ≤ 0x200A) ∨
    n = 0x2028 ∨ n = 0x2029 ∨ n = 0x202F ∨ n = 0x205F ∨ n = 0x3000

/-- `str::trim`. -/
def trim (s : Str) : Str := (s.dropWhile isWhitespace).rdropWhile isWhitespace

/-- No whitespace at either end. -/
def Trimmed (s : Str) : Prop :=
  (∀ c ∈ s.head?, ¬ isWhitespace c) ∧ ∀ c ∈ s.getLast?, ¬ isWhitespace c

theorem trimmed_iff {s : Str} :
    Trimmed s ↔ (s.head?.all (!isWhitespace ·) && s.getLast?.all (!isWhitespace ·)) := by
  simp [Trimmed, Option.all_eq_true]

instance (s : Str) : Decidable (Trimmed s) := decidable_of_iff _ trimmed_iff.symm

theorem Trimmed.trim_eq {s : Str} (h : Trimmed s) : trim s = s := by
  have hd : s.dropWhile isWhitespace = s := by
    cases s with
    | nil => rfl
    | cons c s => exact List.dropWhile_cons_of_neg (h.1 c rfl)
  rw [trim, hd, List.rdropWhile_eq_self_iff]
  intro hl
  exact h.2 _ (List.getLast?_eq_some_getLast hl)

theorem trim_cons {c : Char} (hc : isWhitespace c) (s : Str) : trim (c :: s) = trim s := by
  rw [trim, List.dropWhile_cons_of_pos hc, trim]

/-! ## Separators -/

/-- `str::split_once` at a character. -/
def splitOnce (c : Char) : Str → Option (Str × Str)
  | [] => none
  | a :: s => if a = c then some ([], s) else (splitOnce c s).map fun (l, r) => (a :: l, r)

/-- No part of a split contains the character it is split at. -/
theorem not_mem_of_mem_splitOn {c : Char} {s part : Str} (h : part ∈ s.splitOn c) : c ∉ part := by
  induction s generalizing part with
  | nil =>
    obtain rfl : part = [] := by simpa using h
    exact List.not_mem_nil
  | cons d s ih =>
    rw [List.splitOn_cons_eq_if_modifyHead] at h
    by_cases hd : d = c
    · rw [if_pos (by simp [hd]), List.mem_cons] at h
      rcases h with rfl | h
      · exact List.not_mem_nil
      · exact ih h
    · rw [if_neg (by simp [hd])] at h
      obtain ⟨first, parts, hs⟩ := List.exists_cons_of_ne_nil (List.splitOn_ne_nil c s)
      rw [hs, List.forall_mem_cons] at ih
      rw [hs, List.modifyHead_cons, List.mem_cons] at h
      rcases h with rfl | h
      · rw [List.mem_cons]
        exact fun hc => hc.elim (fun e => hd e.symm) ih.1
      · exact ih.2 part h

theorem splitOnce_append {c : Char} {l : Str} (h : c ∉ l) (r : Str) :
    splitOnce c (l ++ c :: r) = some (l, r) := by
  induction l with
  | nil => simp [splitOnce]
  | cons a l ih =>
    simp only [List.mem_cons, not_or] at h
    rw [List.cons_append, splitOnce, if_neg (Ne.symm h.1), ih h.2]
    rfl

theorem splitOnce_eq_none_iff {c : Char} {s : Str} : splitOnce c s = none ↔ c ∉ s := by
  induction s with
  | nil => simp [splitOnce]
  | cons a s ih =>
    rw [splitOnce, List.mem_cons, not_or, eq_comm (a := c)]
    split
    · simp [*]
    · simp [*]

/-- `str::eq_ignore_ascii_case`. -/
def eqIgnoreAsciiCase (s t : Str) : Bool := s.map Char.toLower = t.map Char.toLower

/-! ## Decimal numerals -/

/-- `n` in decimal. -/
def decimal (n : Nat) : Str := Nat.toDigits 10 n

/-- The number `acc` continued with the digits `s`, while it stays below `2 ^ 64`. -/
def parseDigits (acc : Nat) : Str → Option Nat
  | [] => some acc
  | c :: s =>
    if c.isDigit then
      let n := 10 * acc + (c.toNat - '0'.toNat)
      if n < UInt64.size then parseDigits n s else none
    else none

/-- `str::parse::<usize>` on a 64-bit target: an optional plus sign, then
digits, the number below `2 ^ 64`. -/
def parseUsize (s : Str) : Option UInt64 :=
  match s with
  | [] | ['+'] => none
  | '+' :: s => (parseDigits 0 s).map Nat.toUInt64
  | s => (parseDigits 0 s).map Nat.toUInt64

/-- A numeral of one or more ASCII digits. -/
def IsNumeral (s : Str) : Prop := s ≠ [] ∧ ∀ c ∈ s, c.isDigit

instance (s : Str) : Decidable (IsNumeral s) :=
  decidable_of_iff (s ≠ [] ∧ s.all Char.isDigit) (by rw [List.all_eq_true, IsNumeral])

theorem IsNumeral.trimmed {s : Str} (h : IsNumeral s) : Trimmed s := by
  have hw (c : Char) (hc : c.isDigit) : ¬ isWhitespace c := by
    simp only [Char.isDigit, Bool.and_eq_true, decide_eq_true_eq, UInt32.le_iff_toNat_le] at hc
    have hn : c.toNat = c.val.toNat := rfl
    have h0 : '0'.val.toNat = 48 := rfl
    have h9 : '9'.val.toNat = 57 := rfl
    simp only [isWhitespace, decide_eq_true_eq, hn]
    omega
  exact ⟨fun c hc => hw c (h.2 c (List.mem_of_head? hc)),
    fun c hc => hw c (h.2 c (List.mem_of_getLast? hc))⟩

/-- The number a numeral denotes. -/
def value (s : Str) : Nat := Nat.ofDigitChars 10 s 0

theorem le_ofDigitChars (s : Str) (acc : Nat) : acc ≤ Nat.ofDigitChars 10 s acc := by
  have := Nat.one_le_pow s.length 10 (by decide)
  have := Nat.mul_le_mul_right acc this
  rw [Nat.ofDigitChars_eq_ofDigitChars_zero]
  omega

/-- The running number only grows, so it stays in range when the last does. -/
theorem parseDigits_eq {s : Str} (h : ∀ c ∈ s, c.isDigit) (acc : Nat) (ha : acc < UInt64.size) :
    parseDigits acc s =
      if Nat.ofDigitChars 10 s acc < UInt64.size then some (Nat.ofDigitChars 10 s acc) else none := by
  induction s generalizing acc with
  | nil => rw [parseDigits, Nat.ofDigitChars_nil, if_pos ha]
  | cons c s ih =>
    rw [List.forall_mem_cons] at h
    rw [parseDigits, if_pos h.1, Nat.ofDigitChars_cons]
    simp only
    split
    · rename_i hn
      exact ih h.2 _ hn
    · rename_i hn
      have := le_ofDigitChars s (10 * acc + (c.toNat - '0'.toNat))
      rw [if_neg (by omega)]

theorem parseUsize_eq {s : Str} (h : IsNumeral s) :
    parseUsize s = if value s < UInt64.size then some (value s).toUInt64 else none := by
  have hp : ∀ t : Str, s ≠ '+' :: t := by
    rintro t rfl
    exact absurd (h.2 '+' (by simp)) (by decide)
  have he : parseUsize s = (parseDigits 0 s).map Nat.toUInt64 := by
    unfold parseUsize
    split
    · exact absurd rfl h.1
    · exact absurd rfl (hp [])
    · exact absurd rfl (hp _)
    · rfl
  rw [he, parseDigits_eq h.2 0 (by decide), value]
  split <;> rfl

theorem isNumeral_decimal (n : Nat) : IsNumeral (decimal n) :=
  ⟨Nat.toDigits_ne_nil, fun _ h => Nat.isDigit_of_mem_toDigits (by decide) (by decide) h⟩

@[simp] theorem value_decimal (n : Nat) : value (decimal n) = n := Nat.ofDigitChars_ten_toDigits

theorem parseUsize_decimal {n : Nat} (h : n < UInt64.size) :
    parseUsize (decimal n) = some n.toUInt64 := by
  rw [parseUsize_eq (isNumeral_decimal n), value_decimal, if_pos h]

end Lib
