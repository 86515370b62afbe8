/-
  UTF-8, WRITTEN AND READ: the bytes of a text are read back as that text.

  1. **Bytes** — what the writer puts into a byte is found in it again: the range that tells what
     kind of byte it is, and the bits that it carries.
  2. **One character** (`exists_lead`) — whatever follows, the bytes of a character are recognised
     as that character.  There are four cases, one for each length.  The narrowed ranges of second
     bytes shut out nothing that is written, since a character is no surrogate and every character
     is written in its shortest form.
  3. **A text** (`decode_encode`).
-/
import Mathlib
import Subledger.Text.Utf8

namespace Subledger.Text.Utf8

/-! ## Bytes

  The encoding cuts the number of a character into groups of six bits and marks each byte with its
  place.  These say that the reader gets the bits back and takes the marks for what they are. -/

theorem toNat_ofNat_of_lt {n : Nat} (h : n < 256) : (UInt8.ofNat n).toNat = n := by
  rw [UInt8.toNat_ofNat']
  exact Nat.mod_eq_of_lt h

/-- An byte that was made of a number in a range is in that range. -/
theorem between_ofNat {lo hi n : Nat} (hn : n < 256) (hlo : lo ≤ n) (hhi : n ≤ hi) :
    (lo ≤ (UInt8.ofNat n).toNat && (UInt8.ofNat n).toNat ≤ hi) = true := by
  rw [toNat_ofNat_of_lt hn, Bool.and_eq_true, decide_eq_true_eq, decide_eq_true_eq]
  exact ⟨hlo, hhi⟩

/-- A group of six bits makes an byte that continues a character. -/
theorem isTail_ofNat {n : Nat} (h : n < 64) : isTail (UInt8.ofNat (n + 0x80)) = true :=
  between_ofNat (by omega) (by omega) (by omega)

/-- The six bits are read back from such an byte. -/
theorem tailBits_ofNat {n : Nat} (h : n < 64) : tailBits (UInt8.ofNat (n + 0x80)) = n := by
  rw [tailBits, toNat_ofNat_of_lt (by omega)]
  omega

/-- Which payloads the narrowed ranges of second bytes leave. -/
theorem allowsSecond_ofNat {a n : Nat} (ha : a < 256) (hn : n < 64)
    (he0 : a = 0xE0 → 0x20 ≤ n) (hed : a = 0xED → n < 0x20) (hf0 : a = 0xF0 → 0x10 ≤ n)
    (hf4 : a = 0xF4 → n < 0x10) :
    allowsSecond (UInt8.ofNat a) (UInt8.ofNat (n + 0x80)) = true := by
  have hfirst : ∀ m : UInt8, (UInt8.ofNat a == m) = true → a = m.toNat := by
    intro m hm
    rw [← beq_iff_eq.mp hm, toNat_ofNat_of_lt ha]
  rw [allowsSecond]
  split_ifs with h1 h2 h3 h4
  · have hrange := he0 (hfirst _ h1)
    exact between_ofNat (by omega) (by omega) (by omega)
  · have hrange := hed (hfirst _ h2)
    exact between_ofNat (by omega) (by omega) (by omega)
  · have hrange := hf0 (hfirst _ h3)
    exact between_ofNat (by omega) (by omega) (by omega)
  · have hrange := hf4 (hfirst _ h4)
    exact between_ofNat (by omega) (by omega) (by omega)
  · exact isTail_ofNat hn

/-! ## One character

  A character takes one to four bytes, and the first tells how many.  The second is restricted for
  some first ones: that keeps out longer spellings of a short character, surrogates and numbers
  beyond the last character. -/

section Lead

variable {a b c d : UInt8}

/-- A first byte from C2 to DF takes one more. -/
theorem lead_two (ha : 0xC2 ≤ a.toNat ∧ a.toNat ≤ 0xDF) (hb : isTail b = true)
    (rest : List UInt8) :
    lead a (b :: rest) = .char (Char.ofNat (a.toNat % 32 * 64 + tailBits b)) 1 := by
  rw [lead.eq_def, if_neg (by omega), if_pos (by simpa using ha)]
  dsimp only
  rw [if_pos hb]

/-- A first byte from E0 to EF takes two more; the first two of these sixteen say more about the
    second. -/
theorem lead_three (ha : 0xE0 ≤ a.toNat ∧ a.toNat ≤ 0xEF) (hb : allowsSecond a b = true)
    (hc : isTail c = true) (rest : List UInt8) :
    lead a (b :: c :: rest)
      = .char (Char.ofNat ((a.toNat % 16 * 64 + tailBits b) * 64 + tailBits c)) 2 := by
  rw [lead.eq_def, if_neg (by omega), if_neg (by simp; omega), if_pos (by simpa using ha)]
  dsimp only
  rw [if_pos hb, if_pos hc]

/-- A first byte from F0 to F4 takes three more. -/
theorem lead_four (ha : 0xF0 ≤ a.toNat ∧ a.toNat ≤ 0xF4) (hb : allowsSecond a b = true)
    (hc : isTail c = true) (hd : isTail d = true) (rest : List UInt8) :
    lead a (b :: c :: d :: rest)
      = .char (Char.ofNat (((a.toNat % 8 * 64 + tailBits b) * 64 + tailBits c) * 64
          + tailBits d)) 3 := by
  rw [lead.eq_def, if_neg (by omega), if_neg (by simp; omega), if_neg (by simp; omega),
    if_pos (by simpa using ha)]
  dsimp only
  rw [if_pos hb, if_pos hc, if_pos hd]

end Lead

/-- The bytes of a character are recognised as that character. -/
theorem exists_lead (c : Char) : ∃ a tail, String.utf8EncodeChar c = a :: tail ∧
    ∀ rest, lead a (tail ++ rest) = .char c tail.length := by
  have hvalid : c.toNat < 0xD800 ∨ 0xDFFF < c.toNat ∧ c.toNat < 0x110000 := c.valid
  have hback : Char.ofNat c.toNat = c := Char.ofNat_toNat c
  show ∃ a tail, (if c.toNat ≤ 0x7F then [UInt8.ofNat c.toNat]
    else if c.toNat ≤ 0x7FF then
      [UInt8.ofNat (c.toNat / 64 % 32 + 0xC0), UInt8.ofNat (c.toNat % 64 + 0x80)]
    else if c.toNat ≤ 0xFFFF then
      [UInt8.ofNat (c.toNat / 4096 % 16 + 0xE0), UInt8.ofNat (c.toNat / 64 % 64 + 0x80),
        UInt8.ofNat (c.toNat % 64 + 0x80)]
    else [UInt8.ofNat (c.toNat / 262144 % 8 + 0xF0), UInt8.ofNat (c.toNat / 4096 % 64 + 0x80),
      UInt8.ofNat (c.toNat / 64 % 64 + 0x80), UInt8.ofNat (c.toNat % 64 + 0x80)]) = a :: tail ∧ _
  -- the four lengths of an encoding are four ranges of one number, so the character is put aside
  generalize c.toNat = v at *
  have hlast : v % 64 < 64 := Nat.mod_lt _ (by decide)
  have hbeforeLast : v / 64 % 64 < 64 := Nat.mod_lt _ (by decide)
  have hsecond : v / 4096 % 64 < 64 := Nat.mod_lt _ (by decide)
  split_ifs with h1 h2 h3
  · refine ⟨_, _, rfl, fun rest => ?_⟩
    have ha : (UInt8.ofNat v).toNat = v := toNat_ofNat_of_lt (by omega)
    rw [lead.eq_def, ha, if_pos (by omega), hback]
    rfl
  · refine ⟨_, _, rfl, fun rest => ?_⟩
    have ha : (UInt8.ofNat (v / 64 % 32 + 0xC0)).toNat = v / 64 + 0xC0 := by
      rw [toNat_ofNat_of_lt (by omega)]
      omega
    rw [List.singleton_append, lead_two (by omega) (isTail_ofNat hlast), ha, tailBits_ofNat hlast,
      show (v / 64 + 0xC0) % 32 * 64 + v % 64 = v by omega, hback]
    rfl
  · refine ⟨_, _, rfl, fun rest => ?_⟩
    have ha : (UInt8.ofNat (v / 4096 % 16 + 0xE0)).toNat = v / 4096 + 0xE0 := by
      rw [toNat_ofNat_of_lt (by omega)]
      omega
    rw [List.cons_append, List.singleton_append, lead_three (by omega)
        (allowsSecond_ofNat (by omega) hbeforeLast (by omega) (by omega) (by omega) (by omega))
        (isTail_ofNat hlast), ha, tailBits_ofNat hbeforeLast, tailBits_ofNat hlast,
      show ((v / 4096 + 0xE0) % 16 * 64 + v / 64 % 64) * 64 + v % 64 = v by omega, hback]
    rfl
  · refine ⟨_, _, rfl, fun rest => ?_⟩
    have ha : (UInt8.ofNat (v / 262144 % 8 + 0xF0)).toNat = v / 262144 + 0xF0 := by
      rw [toNat_ofNat_of_lt (by omega)]
      omega
    rw [List.cons_append, List.cons_append, List.singleton_append, lead_four (by omega)
        (allowsSecond_ofNat (by omega) hsecond (by omega) (by omega) (by omega) (by omega))
        (isTail_ofNat hbeforeLast) (isTail_ofNat hlast), ha, tailBits_ofNat hsecond,
      tailBits_ofNat hbeforeLast, tailBits_ofNat hlast,
      show (((v / 262144 + 0xF0) % 8 * 64 + v / 4096 % 64) * 64 + v / 64 % 64) * 64 + v % 64 = v by
        omega, hback]
    rfl

/-! ## A text

  A reader that starts at the first byte of a character stops behind its last, so texts are read
  character by character. -/

/-- Decoding what was encoded gives the characters, and no byte in between that is not a
    character's. -/
theorem symbols_encode (cs : List Char) : symbols (encode cs) = cs.map some := by
  induction cs with
  | nil => rw [encode, List.flatMap_nil, symbols, List.map_nil]
  | cons c cs ih =>
    obtain ⟨a, tail, hc, hlead⟩ := exists_lead c
    rw [encode, List.flatMap_cons, hc, List.cons_append, symbols, hlead]
    dsimp only
    rw [List.drop_left, List.map_cons]
    exact congrArg (List.cons (some c)) ih

/-- What was encoded has no fault anywhere. -/
theorem faultFrom_encode (i : Nat) (cs : List Char) : faultFrom i (encode cs) = none := by
  induction cs generalizing i with
  | nil => rw [encode, List.flatMap_nil, faultFrom]
  | cons c cs ih =>
    obtain ⟨a, tail, hc, hlead⟩ := exists_lead c
    rw [encode, List.flatMap_cons, hc, List.cons_append, faultFrom, hlead]
    dsimp only
    rw [List.drop_left]
    exact ih _

/-- **What is written reads back.** -/
theorem decode_encode (cs : List Char) : decode (encode cs) = .ok cs := by
  rw [decode, fault?, faultFrom_encode]
  dsimp only
  rw [symbols_encode, List.filterMap_map]
  exact congrArg Except.ok List.filterMap_some

/-- The bytes of a character beyond ASCII are beyond ASCII too. -/
theorem toNat_of_mem_utf8EncodeChar {c : Char} {b : UInt8} (h : b ∈ String.utf8EncodeChar c)
    (hb : b.toNat < 0x80) : c.toNat = b.toNat := by
  have hvalid : c.toNat < 0xD800 ∨ 0xDFFF < c.toNat ∧ c.toNat < 0x110000 := c.valid
  have hmem : b ∈ (if c.toNat ≤ 0x7F then [UInt8.ofNat c.toNat]
    else if c.toNat ≤ 0x7FF then
      [UInt8.ofNat (c.toNat / 64 % 32 + 0xC0), UInt8.ofNat (c.toNat % 64 + 0x80)]
    else if c.toNat ≤ 0xFFFF then
      [UInt8.ofNat (c.toNat / 4096 % 16 + 0xE0), UInt8.ofNat (c.toNat / 64 % 64 + 0x80),
        UInt8.ofNat (c.toNat % 64 + 0x80)]
    else [UInt8.ofNat (c.toNat / 262144 % 8 + 0xF0), UInt8.ofNat (c.toNat / 4096 % 64 + 0x80),
      UInt8.ofNat (c.toNat / 64 % 64 + 0x80), UInt8.ofNat (c.toNat % 64 + 0x80)]) := h
  generalize c.toNat = v at *
  have hhigh : ∀ n, n < 256 → b = UInt8.ofNat n → b.toNat = n := by
    rintro n hn rfl
    exact toNat_ofNat_of_lt hn
  split_ifs at hmem with h1 h2 h3
  · rw [hhigh v (by omega) (List.mem_singleton.mp hmem)]
  · simp only [List.mem_cons, List.not_mem_nil, or_false] at hmem
    rcases hmem with hlead | htail
    · have := hhigh _ (by omega) hlead
      omega
    · have := hhigh _ (by omega) htail
      omega
  · simp only [List.mem_cons, List.not_mem_nil, or_false] at hmem
    rcases hmem with hlead | htail | htail
    · have := hhigh _ (by omega) hlead
      omega
    all_goals
      have := hhigh _ (by omega) htail
      omega
  · simp only [List.mem_cons, List.not_mem_nil, or_false] at hmem
    rcases hmem with hlead | htail | htail | htail
    · have := hhigh _ (by omega) hlead
      omega
    all_goals
      have := hhigh _ (by omega) htail
      omega

/-- A line of text is a line of bytes. -/
theorem newline_not_mem_encode {cs : List Char} (h : '\n' ∉ cs) : (0x0A : UInt8) ∉ encode cs := by
  intro hmem
  obtain ⟨c, hc, hb⟩ := List.mem_flatMap.mp hmem
  have hcode := toNat_of_mem_utf8EncodeChar hb (by decide)
  have hchar : c = '\n' := by
    rw [← Char.ofNat_toNat c, hcode]
    rfl
  exact h (hchar ▸ hc)

/-- Every character takes a byte at least. -/
theorem length_le_length_encode (cs : List Char) : cs.length ≤ (encode cs).length := by
  induction cs with
  | nil => exact Nat.le_refl 0
  | cons c cs ih =>
    have hpos := c.utf8Size_pos
    rw [encode, List.flatMap_cons, List.length_append, String.length_utf8EncodeChar,
      List.length_cons]
    rw [encode] at ih
    omega

end Subledger.Text.Utf8
