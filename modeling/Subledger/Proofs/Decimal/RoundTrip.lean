/-
  DECIMALS, WRITTEN AND READ, and the one text of a value.

  1. **Digits** (`scan_digits`) — a run of digits is taken digit by digit.  The reader rounds what
     does not fit, but of a number that fits every beginning fits, so nothing is rounded.
  2. **The round trip** (`ofText_text`) — the text of a decimal is read back with all its places;
     only the sign of a zero is lost (`plain`).
  3. **Normal forms** (`normalize_eq_iff`) — two decimals have one normal form exactly if they have
     one value.  A normal form has no zero behind the point to give up, so of two with one value
     none can have more places than the other.
-/
import Subledger.Decimal.Reader
import Subledger.Decimal.Text
import Subledger.Proofs.Decimal.Value
import Subledger.Proofs.Text.Digits

namespace Subledger.Decimal

open Subledger.Text

/-! ## Digits

  The reader keeps a decimal of what it has read.  The whole number bounds it at every moment, so
  the cases of the reader in which it rounds are never met. -/

/-- Decimals of one sign, one number and as many places are one decimal. -/
theorem ext_parts {x y : Decimal} (hnegative : x.negative = y.negative)
    (hmagnitude : x.magnitude = y.magnitude) (hscale : x.scale = y.scale) : x = y :=
  Option.some.inj ((ofParts?_eq_some_iff.mpr ⟨hnegative, hmagnitude, hscale⟩).symm.trans
    (ofParts?_eq_some_iff.mpr ⟨rfl, rfl, rfl⟩))

/-- A number of fewer digits and places fits where one of more does. -/
theorem exists_ofParts? {y : Decimal} {m s : Nat} (hm : m ≤ y.magnitude) (hs : s ≤ y.scale) :
    ∃ x, ofParts? false m s = some x ∧ x.negative = false ∧ x.magnitude = m ∧ x.scale = s := by
  have hfits : m < twoTo 96 ∧ s ≤ 28 :=
    ⟨Nat.lt_of_le_of_lt hm y.magnitude_lt, Nat.le_trans hs y.scale_le⟩
  exact ⟨⟨false, m, s, hfits.1, hfits.2⟩, dif_pos hfits, rfl, rfl, rfl⟩

/-- The places of a number behind which `k` digits more are read. -/
def placesAfter (x : Decimal) (point : Bool) (k : Nat) : Nat := if point then x.scale + k else 0

/-- A digit that fits behind what was read is appended to it. -/
theorem scan_digit {c : Char} (hc : c.isDigit = true) {x y : Decimal} {point : Bool}
    (h : ofParts? false (x.magnitude * 10 + Digits.digitValue c) (x.placesAfter point 1) = some y)
    (seen : Bool) (cs : List Char) : scan x point seen (c :: cs) = scan y point true cs := by
  rw [placesAfter] at h
  refine (if_pos hc).trans ?_
  rw [h]

theorem scan_nil (x : Decimal) (point : Bool) : scan x point true [] = .ok x := rfl

/-- A point may come once, behind a digit. -/
theorem scan_point (x : Decimal) (cs : List Char) :
    scan x false true ('.' :: cs) = scan x true true cs := rfl

/-- Digits are read on behind `x` as long as the whole number fits. -/
theorem scan_digits {ds : List Char} (hds : ∀ c ∈ ds, c.isDigit = true) {x y : Decimal}
    {point : Bool} (hx : x.negative = false) (hplaces : x.scale = x.placesAfter point 0)
    (hy : y.negative = false)
    (hmagnitude : y.magnitude = x.magnitude * tenTo ds.length + Digits.value ds)
    (hscale : y.scale = x.placesAfter point ds.length) (rest : List Char) :
    scan x point true (ds ++ rest) = scan y point true rest := by
  induction ds generalizing x with
  | nil =>
    rw [List.length_nil, tenTo_zero, Nat.mul_one] at hmagnitude
    rw [ext_parts (hx.trans hy.symm) hmagnitude.symm (hplaces.trans hscale.symm)]
    rfl
  | cons c ds ih =>
    have hnumber : y.magnitude
        = (x.magnitude * 10 + Digits.digitValue c) * tenTo ds.length + Digits.value ds := by
      rw [hmagnitude, Digits.value_cons, List.length_cons, tenTo_succ]
      ring
    -- what is read with one digit more is a beginning of `y`, so it fits as `y` does
    have hle : x.magnitude * 10 + Digits.digitValue c ≤ y.magnitude := by
      rw [hnumber]
      exact Nat.le_add_right_of_le (Nat.le_mul_of_pos_right _ (tenTo_pos _))
    have hplace : x.placesAfter point 1 ≤ y.scale := by
      rw [hscale, List.length_cons]
      unfold placesAfter
      split <;> omega
    obtain ⟨z, hz, hzneg, hzmag, hzscale⟩ := exists_ofParts? hle hplace
    rw [List.cons_append, scan_digit (hds c List.mem_cons_self) hz]
    refine ih (fun d hd => hds d (List.mem_cons_of_mem c hd)) hzneg ?_ (hzmag ▸ hnumber) ?_
    · unfold placesAfter at hzscale ⊢
      split
      · rfl
      · rename_i hpoint
        rw [hzscale, if_neg hpoint]
    · rw [hscale, List.length_cons]
      unfold placesAfter at hzscale ⊢
      split
      · rename_i hpoint
        rw [hzscale, if_pos hpoint]
        omega
      · rfl

/-! ## The round trip

  The text has a sign, whole digits, and a point with the places if there are any.  Each part is
  read by a lemma about the reader at that part. -/

/-- Before the point stands the whole part. -/
theorem scan_whole (x : Decimal) (rest : List Char) : ∃ w : Decimal, w.negative = false ∧
    w.magnitude = x.magnitude / tenTo x.scale ∧ w.scale = 0 ∧
    scan zero false false (Digits.ofNat (x.magnitude / tenTo x.scale) ++ rest)
      = scan w false true rest := by
  obtain ⟨w, -, hneg, hmag, hscale⟩ :=
    exists_ofParts? (y := x) (Nat.div_le_self x.magnitude (tenTo x.scale)) (Nat.zero_le _)
  have hdigits := Digits.ofNat_digits (x.magnitude / tenTo x.scale)
  have hvalue := Digits.value_ofNat (x.magnitude / tenTo x.scale)
  refine ⟨w, hneg, hmag, hscale, ?_⟩
  have hseen : scan zero false false (Digits.ofNat (x.magnitude / tenTo x.scale) ++ rest)
      = scan zero false true (Digits.ofNat (x.magnitude / tenTo x.scale) ++ rest) := by
    obtain ⟨d, ds, hds, hd⟩ := Digits.exists_ofNat_cons (x.magnitude / tenTo x.scale)
    rw [hds, List.cons_append]
    show (if d.isDigit then _ else _) = (if d.isDigit then _ else _)
    rw [if_pos hd, if_pos hd]
  rw [hseen]
  refine scan_digits hdigits rfl rfl hneg ?_ (show w.scale = zero.placesAfter false _ from hscale)
    rest
  rw [hvalue, hmag]
  show _ = 0 * _ + _
  rw [Nat.zero_mul, Nat.zero_add]

/-- The digits of a decimal are read back with its places. -/
theorem scan_chars (x : Decimal) : scan zero false false
    (Digits.ofNat (x.magnitude / tenTo x.scale) ++ fraction x.magnitude x.scale) = .ok x.abs := by
  obtain ⟨w, hneg, hmag, hscale, hwhole⟩ := scan_whole x (fraction x.magnitude x.scale)
  rw [hwhole]
  have hsplit := Nat.div_add_mod' x.magnitude (tenTo x.scale)
  by_cases hs : x.scale = 0
  · rw [fraction, if_pos hs, scan_nil]
    rw [hs, tenTo_zero, Nat.div_one] at hmag
    exact congrArg Except.ok (ext_parts hneg hmag (hscale.trans hs.symm))
  · have hlength : (Digits.padded x.scale (x.magnitude % tenTo x.scale)).length = x.scale :=
      Digits.length_padded (Nat.pos_of_ne_zero hs) (Nat.mod_lt _ (tenTo_pos _))
    have hdigits := Digits.padded_digits x.scale (x.magnitude % tenTo x.scale)
    have hvalue := Digits.value_padded x.scale (x.magnitude % tenTo x.scale)
    rw [fraction, if_neg hs, scan_point, ← List.append_nil (Digits.padded _ _),
      scan_digits (y := x.abs) hdigits hneg rfl rfl ?_ ?_ [], scan_nil]
    · rw [hlength, hvalue, hmag, hsplit]
      rfl
    · rw [hlength, placesAfter, if_pos rfl, hscale, Nat.zero_add]
      rfl

/-- The reader of plain numbers gives the decimal back, without a sign at zero. -/
theorem readPlain_chars (x : Decimal) : readPlain x.chars = .ok x.plain := by
  rw [chars]
  cases hneg : x.negative with
  | true =>
    rw [if_pos rfl, List.cons_append, List.nil_append]
    show (scan zero false false _).map neg = _
    rw [scan_chars]
    refine congrArg Except.ok ?_
    unfold neg plain isNegative isZero abs
    rw [hneg]
    cases hzero : x.magnitude == 0 <;> simp [hzero, bne]
  | false =>
    obtain ⟨d, ds, hds, hd⟩ := Digits.exists_ofNat_cons (x.magnitude / tenTo x.scale)
    have hscan := scan_chars x
    rw [if_neg (by decide), List.nil_append]
    rw [hds, List.cons_append] at hscan ⊢
    have hplain : x.abs = x.plain := by
      unfold plain isNegative abs
      rw [hneg, Bool.false_and]
    rw [readPlain, hscan, hplain]
    · rintro ⟨⟩
    · rintro cs ⟨⟩
      exact absurd hd (by decide)
    · rintro cs ⟨⟩
      exact absurd hd (by decide)

/-- **The text of a decimal is read back**, but for the sign of a zero. -/
theorem ofText_text (x : Decimal) : ofText x.text = .ok x.plain := by
  rw [ofText, text, String.toList_ofList, read, readPlain_chars]

/-- A normal form has no sign at zero. -/
theorem plain_normalize (x : Decimal) : x.normalize.plain = x.normalize := by
  rw [plain, isNegative_normalize]
  rfl

/-! ## Normal forms

  Comparing the values of two decimals would take arbitrarily great numbers; comparing the normal
  forms does not. -/

/-- Normalizing does not change the value. -/
theorem value_normalize (x : Decimal) : x.normalize.value = x.value := by
  have hstrip : x.normalize.magnitude * tenTo (x.scale - x.normalize.scale) = x.magnitude :=
    stripZeros_value x.magnitude x.scale
  have hle : x.normalize.scale ≤ x.scale := (stripZeros_bounds x.magnitude x.scale).2
  have hplaces : tenTo x.scale = tenTo (x.scale - x.normalize.scale) * tenTo x.normalize.scale := by
    rw [← tenTo_add, Nat.sub_add_cancel hle]
  have hcoeff : x.normalize.coeff * tenTo (x.scale - x.normalize.scale) = x.coeff := by
    rw [← coeff_plain x]
    show (if x.isNegative then -(x.normalize.magnitude : Int) else x.normalize.magnitude) * _
      = if x.isNegative then -(x.magnitude : Int) else x.magnitude
    rw [← hstrip]
    split <;> push_cast <;> ring
  rw [value, value, div_eq_div_iff (cast_tenTo_ne_zero _) (cast_tenTo_ne_zero _), ← hcoeff,
    hplaces]
  push_cast
  ring

/-- What is stripped has no places, or no zero in the last of them. -/
theorem stripZeros_stripped (m s : Nat) :
    (stripZeros m s).2 = 0 ∨ (stripZeros m s).1 % 10 ≠ 0 := by
  induction s generalizing m with
  | zero => exact Or.inl rfl
  | succ s ih =>
    rw [stripZeros]
    split
    · exact ih (m / 10)
    · rename_i h
      exact Or.inr h

/-- Of two stripped numbers with one value neither has more places. -/
theorem stripped_scale_le {m n s t : Nat} (hn : t = 0 ∨ n % 10 ≠ 0)
    (h : m * tenTo t = n * tenTo s) : t ≤ s := by
  by_contra hlt
  obtain ⟨k, rfl⟩ := Nat.exists_eq_add_of_lt (Nat.lt_of_not_le hlt)
  have hlast : n = m * tenTo k * 10 := by
    rw [Nat.add_assoc, tenTo_add, tenTo_succ] at h
    refine Nat.eq_of_mul_eq_mul_right (tenTo_pos s) ?_
    rw [← h]
    ring
  rcases hn with hzero | hdigit
  · omega
  · exact hdigit (by rw [hlast, Nat.mul_mod_left])

/-- The test for equal values compares normal forms, and tests what it should. -/
theorem same_iff_value {x y : Decimal} : x.same y = true ↔ x.value = y.value := by
  rw [same, beq_iff_eq, value, value,
    div_eq_div_iff (cast_tenTo_ne_zero _) (cast_tenTo_ne_zero _)]
  exact_mod_cast Iff.rfl

/-- **Two decimals have one normal form exactly if they have one value.** -/
theorem normalize_eq_iff {x y : Decimal} : x.normalize = y.normalize ↔ x.value = y.value := by
  constructor
  · intro h
    rw [← value_normalize x, h, value_normalize]
  · intro h
    have hsign : x.isNegative = y.isNegative := by
      have hneg : ∀ z : Decimal, z.isNegative = true ↔ z.value < 0 := by
        intro z
        rw [isNegative_iff, value, div_lt_iff₀ (cast_tenTo_pos _), zero_mul, Int.cast_lt_zero]
      rw [Bool.eq_iff_iff, hneg, hneg, h]
    rw [← value_normalize x, ← value_normalize y] at h
    have hcross : x.normalize.magnitude * tenTo y.normalize.scale
        = y.normalize.magnitude * tenTo x.normalize.scale := by
      have hcoeff : x.normalize.coeff * tenTo y.normalize.scale
          = y.normalize.coeff * tenTo x.normalize.scale := beq_iff_eq.mp (same_iff_value.mpr h)
      have habs := congrArg Int.natAbs hcoeff
      rwa [Int.natAbs_mul, Int.natAbs_mul, coeff_natAbs, coeff_natAbs, Int.natAbs_natCast,
        Int.natAbs_natCast] at habs
    have hscale : x.normalize.scale = y.normalize.scale :=
      Nat.le_antisymm (stripped_scale_le (stripZeros_stripped _ _) hcross.symm)
        (stripped_scale_le (stripZeros_stripped _ _) hcross)
    have hmagnitude : x.normalize.magnitude = y.normalize.magnitude := by
      rw [hscale] at hcross
      exact Nat.eq_of_mul_eq_mul_right (tenTo_pos _) hcross
    exact ext_parts hsign hmagnitude hscale

end Subledger.Decimal
