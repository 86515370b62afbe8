/-
  AMOUNTS IN DOCUMENTS: one text for each value.

  Decimals of one value differ in their places and in the sign of a zero.  A document shows neither.

  1. **What a text shows** — a point where there are places, the last digit at the end, a minus sign
     where there is one, and a digit other than zero exactly if the number is not zero.  So it can be
     seen in a text whether the decimal wastes a place (`wastesPlace_text_iff`) or is a zero with a
     sign (`isSignedZero_text_iff`).
  2. **Normal forms** — a decimal that does neither is its own normal form (`normalize_eq_self_iff`),
     and a normal form is read back from its text as it is.  So texts of normal forms are told apart
     by their values (`text_normalize_eq_iff`).
  3. **Quantities** are kept in normal form, so they are equal exactly if their texts are.
-/
import Subledger.Proofs.Canonical

namespace Subledger

open Text

/-! ## What a text shows -/

namespace Decimal

/-- A text that ends in a zero behind its point. -/
def WastesPlace (s : String) : Prop := '.' ∈ s.toList ∧ s.toList.getLast? = some '0'

/-- A text with a minus sign and no digit but zeros. -/
def IsSignedZero (s : String) : Prop :=
  '-' ∈ s.toList ∧ ∀ c ∈ s.toList, c.isDigit = true → c = '0'

theorem text_toList (x : Decimal) : x.text.toList = x.chars := String.toList_ofList

/-- The characters of a decimal: a sign, a point, and digits. -/
theorem mem_chars_iff {x : Decimal} {c : Char} : c ∈ x.chars ↔
    (x.negative = true ∧ c = '-') ∨ c ∈ Digits.ofNat (x.magnitude / tenTo x.scale) ∨
      x.scale ≠ 0 ∧ (c = '.' ∨ c ∈ Digits.padded x.scale (x.magnitude % tenTo x.scale)) := by
  have hsign : c ∈ (if x.negative then ['-'] else []) ↔ x.negative = true ∧ c = '-' := by
    cases x.negative <;> simp
  have hfraction : c ∈ fraction x.magnitude x.scale ↔ x.scale ≠ 0 ∧
      (c = '.' ∨ c ∈ Digits.padded x.scale (x.magnitude % tenTo x.scale)) := by
    rw [fraction]
    split
    · rename_i hzero
      simp [hzero]
    · rename_i hplaces
      simp [hplaces]
  rw [chars, List.mem_append, List.mem_append, hsign, hfraction]

theorem point_mem_chars_iff {x : Decimal} : '.' ∈ x.chars ↔ x.scale ≠ 0 := by
  have hpoint : '.'.isDigit = false := by decide
  rw [mem_chars_iff]
  simp [Digits.not_mem_digits (Digits.ofNat_digits _) hpoint]

theorem sign_mem_chars_iff {x : Decimal} : '-' ∈ x.chars ↔ x.negative = true := by
  have hsign : '-'.isDigit = false := by decide
  rw [mem_chars_iff]
  simp [Digits.not_mem_digits (Digits.ofNat_digits _) hsign,
    Digits.not_mem_digits (Digits.padded_digits _ _) hsign]

/-- A text ends in the last digit of the number, with or without places. -/
theorem getLast?_chars (x : Decimal) :
    x.chars.getLast? = some (Digits.digit (x.magnitude % 10)) := by
  rw [chars, List.getLast?_append, List.getLast?_append, fraction]
  by_cases hs : x.scale = 0
  · rw [if_pos hs, hs, tenTo_zero, Nat.div_one, Digits.getLast?_ofNat]
    rfl
  · -- the places are a multiple of ten, so nothing of the last digit is cut off
    obtain ⟨k, hk⟩ := Nat.exists_eq_succ_of_ne_zero hs
    have hlast : x.magnitude % tenTo x.scale % 10 = x.magnitude % 10 := by
      rw [hk, tenTo_succ]
      exact Nat.mod_mod_of_dvd _ (Dvd.intro_left _ rfl)
    rw [if_neg hs, List.getLast?_cons, Digits.getLast?_padded, hlast]
    rfl

/-- A decimal is zero exactly if its text has no digit but zeros. -/
theorem zeros_chars_iff {x : Decimal} :
    (∀ c ∈ x.chars, c.isDigit = true → c = '0') ↔ x.magnitude = 0 := by
  have hsplit := Nat.div_add_mod x.magnitude (tenTo x.scale)
  constructor
  · intro h
    have hwhole : x.magnitude / tenTo x.scale = 0 := by
      rw [← Digits.zeros_ofNat_iff]
      intro c hc
      exact h c (mem_chars_iff.mpr (.inr (.inl hc))) (Digits.ofNat_digits _ c hc)
    have hplaces : x.magnitude % tenTo x.scale = 0 := by
      by_cases hs : x.scale = 0
      · rw [hs, tenTo_zero, Nat.mod_one]
      · rw [← Digits.zeros_padded_iff x.scale]
        intro c hc
        exact h c (mem_chars_iff.mpr (.inr (.inr ⟨hs, .inr hc⟩))) (Digits.padded_digits _ _ c hc)
    rw [← hsplit, hwhole, hplaces, Nat.mul_zero]
  · intro hzero c hc hdigit
    rw [mem_chars_iff, hzero, Nat.zero_div, Nat.zero_mod] at hc
    rcases hc with ⟨-, rfl⟩ | hwhole | ⟨-, rfl | hplaces⟩
    · exact absurd hdigit (by decide)
    · exact (Digits.zeros_ofNat_iff 0).mpr rfl c hwhole
    · exact absurd hdigit (by decide)
    · exact (Digits.zeros_padded_iff _ 0).mpr rfl c hplaces

/-- A text wastes a place exactly if the number has places and ends in a zero. -/
theorem wastesPlace_text_iff {x : Decimal} :
    WastesPlace x.text ↔ x.scale ≠ 0 ∧ x.magnitude % 10 = 0 := by
  rw [WastesPlace, text_toList, point_mem_chars_iff, getLast?_chars, Option.some.injEq,
    Digits.digit_eq_zero_iff _ (Nat.mod_lt _ (by decide))]

/-- A text is a zero with a sign exactly if the decimal is one. -/
theorem isSignedZero_text_iff {x : Decimal} :
    IsSignedZero x.text ↔ x.negative = true ∧ x.magnitude = 0 := by
  rw [IsSignedZero, text_toList, sign_mem_chars_iff, zeros_chars_iff]

/-! ## Normal forms -/

/-- What has nothing to strip stays as it is. -/
theorem stripZeros_of_stripped {m s : Nat} (h : s = 0 ∨ m % 10 ≠ 0) : stripZeros m s = (m, s) := by
  cases s with
  | zero => rfl
  | succ s => rw [stripZeros, if_neg (h.resolve_left (Nat.succ_ne_zero s))]

/-- **A decimal is its own normal form** exactly if its text wastes no place and is no zero with a
    sign. -/
theorem normalize_eq_self_iff {x : Decimal} :
    x.normalize = x ↔ ¬ WastesPlace x.text ∧ ¬ IsSignedZero x.text := by
  rw [wastesPlace_text_iff, isSignedZero_text_iff]
  constructor
  · intro h
    have hscale : x.normalize.scale = x.scale := by rw [h]
    have hmagnitude : x.normalize.magnitude = x.magnitude := by rw [h]
    have hnegative : x.isNegative = x.negative := congrArg Decimal.negative h
    constructor
    · rintro ⟨hs, hm⟩
      rw [← hscale] at hs
      rw [← hmagnitude] at hm
      exact (stripZeros_stripped x.magnitude x.scale).elim hs (fun hlast => hlast hm)
    · rintro ⟨hneg, hm⟩
      rw [isNegative, hneg, hm] at hnegative
      cases hnegative
  · rintro ⟨hplaces, hzero⟩
    have hstripped : stripZeros x.magnitude x.scale = (x.magnitude, x.scale) :=
      stripZeros_of_stripped (by tauto)
    refine ext_parts ?_ (congrArg Prod.fst hstripped) (congrArg Prod.snd hstripped)
    show (x.negative && x.magnitude != 0) = x.negative
    cases hneg : x.negative with
    | false => rfl
    | true => exact bne_iff_ne.mpr fun hm => hzero ⟨hneg, hm⟩

/-- Normal forms are read back from their texts as they are. -/
theorem ofText_text_normalize (x : Decimal) : ofText x.normalize.text = .ok x.normalize := by
  rw [ofText_text, plain_normalize]

/-- **Normal forms are written alike exactly if they have one value.** -/
theorem text_normalize_eq_iff {x y : Decimal} :
    x.normalize.text = y.normalize.text ↔ x.value = y.value := by
  rw [← normalize_eq_iff]
  constructor
  · intro h
    have hread := ofText_text_normalize x
    rw [h, ofText_text_normalize y] at hread
    exact (Except.ok.inj hread).symm
  · intro h
    rw [h]

end Decimal

/-- The document of an amount is read back as the normal form. -/
theorem Json.decodeText_write_ofAmount (x : Decimal) :
    decodeText amount (write (ofAmount x)) = .ok x.normalize := by
  have hregular : (ofAmount x).Regular := trivial
  rw [decodeText, read_write hregular, Document.decode, amount_ofAmount]
  rfl

/-! ## Quantities -/

namespace Quantity

theorem text_eq_iff {q r : Quantity} : q.text = r.text ↔ q = r := by
  constructor
  · intro h
    have hread := q.ofText_text
    rw [h, r.ofText_text] at hread
    exact (Except.ok.inj hread).symm
  · intro h
    rw [h]

/-- Quantities of one value are one quantity: both are in normal form. -/
theorem value_eq_iff {q r : Quantity} : q.value.value = r.value.value ↔ q = r := by
  rw [← text_eq_iff, text, text, ← q.normal, ← r.normal, Decimal.text_normalize_eq_iff,
    Decimal.value_normalize, Decimal.value_normalize]

end Quantity

/-! ## The result -/

/-- **The text of an amount is a unique normal form.**  Let `x` and `y` be any decimals.

    * The normal form of `x` has the value of `x`, and is its own normal form.
    * Documents carry the text of the normal form.  That of `x` is that of `y` exactly if they have
      one value.
    * It does not end in a zero behind the point, and it is no zero with a sign.  The text of a
      decimal as it stands is like this exactly if the decimal is its own normal form.
    * Reading it gives the normal form of `x`, with its digits and places; so does reading the
      document.

    The text of a quantity is read back as that quantity, and two quantities are equal, in value and
    as such, exactly if their texts are. -/
theorem amounts_have_one_text (x y : Decimal) (q r : Quantity) :
    (x.normalize.value = x.value ∧ x.normalize.normalize = x.normalize) ∧
    (Json.ofAmount x = .text x.normalize.text ∧
      (x.normalize.text = y.normalize.text ↔ x.value = y.value)) ∧
    ((¬ Decimal.WastesPlace x.normalize.text ∧ ¬ Decimal.IsSignedZero x.normalize.text) ∧
      (¬ Decimal.WastesPlace x.text ∧ ¬ Decimal.IsSignedZero x.text ↔ x.normalize = x)) ∧
    (Json.amount (.text x.normalize.text) = .ok x.normalize ∧
      Json.decodeText Json.amount (Json.write (Json.ofAmount x)) = .ok x.normalize) ∧
    (Quantity.ofText q.text = .ok q ∧ Json.parse (Json.canonical q) = .ok q) ∧
    (q.text = r.text ↔ q = r) ∧ (q.value.value = r.value.value ↔ q = r) := by
  have hnormal := x.normalize_idem
  exact ⟨⟨x.value_normalize, hnormal⟩, ⟨rfl, Decimal.text_normalize_eq_iff⟩,
    ⟨Decimal.normalize_eq_self_iff.mp hnormal, Decimal.normalize_eq_self_iff.symm⟩,
    ⟨Json.amount_ofAmount x, Json.decodeText_write_ofAmount x⟩,
    ⟨q.ofText_text, (Quantity.spells q).parse_eq⟩, Quantity.text_eq_iff, Quantity.value_eq_iff⟩

end Subledger
