/-
  THE VALUE OF A DECIMAL, and how far a sum of decimals is from the sum of the values.

  A decimal stands for the rational number `Decimal.value`.  Addition is compared with the addition
  of those numbers:

  1. `add?_exact`: where some decimal has the exact sum, the sum is exact;
  2. `add?_eq_none_iff`: it overflows exactly if the exact sum is at least `2^96 - 1/2` in size;
  3. `abs_slip_le`: else it slips by at most half a unit of the last place that it keeps.

  `slip` is the difference between the sum that is kept and the exact one.  It is what a book loses
  or gains in one addition, and everything said about conservation is said in terms of it.
-/
import Subledger.Proofs.Decimal.Fit

namespace Subledger.Decimal

/-- The number that a decimal stands for. -/
def value (x : Decimal) : ℚ := (x.coeff : ℚ) / (tenTo x.scale : ℚ)

/-- Is there a decimal with this value? -/
def Representable (q : ℚ) : Prop := ∃ x : Decimal, x.value = q

/-! ## Values -/

theorem cast_tenTo_pos (k : Nat) : (0 : ℚ) < (tenTo k : ℚ) := Nat.cast_pos.mpr (tenTo_pos k)

theorem cast_tenTo_ne_zero (k : Nat) : (tenTo k : ℚ) ≠ 0 := ne_of_gt (cast_tenTo_pos k)

/-- The value is the coefficient over a power of ten; multiplied out there is no division left. -/
theorem value_mul_tenTo (x : Decimal) : x.value * (tenTo x.scale : ℚ) = x.coeff :=
  div_mul_cancel₀ _ (cast_tenTo_ne_zero _)

theorem value_zero : zero.value = 0 := by
  rw [value, show zero.coeff = 0 from rfl, Int.cast_zero, zero_div]

/-- A zero has many spellings, with any scale and either sign, and all of them have the value zero.
    -/
theorem value_eq_zero_iff (x : Decimal) : x.value = 0 ↔ x.isZero = true := by
  rw [isZero_iff, value, div_eq_zero_iff, or_iff_left (cast_tenTo_ne_zero _), Int.cast_eq_zero]

theorem value_pos_iff (x : Decimal) : 0 < x.value ↔ x.isPositive = true := by
  rw [isPositive_iff, value, div_pos_iff_of_pos_right (cast_tenTo_pos _), Int.cast_pos]

theorem value_neg_iff (x : Decimal) : x.value < 0 ↔ x.isNegative = true := by
  rw [isNegative_iff, value, div_lt_iff₀ (cast_tenTo_pos _), zero_mul, Int.cast_lt_zero]

theorem value_neg (x : Decimal) : x.neg.value = -x.value := by
  have hscale : x.neg.scale = x.scale := by
    unfold neg
    split <;> rfl
  rw [value, value, coeff_neg, hscale, Int.cast_neg, neg_div]

/-- The bounds of what a decimal can hold are the same on both sides of zero. -/
theorem Representable.neg {q : ℚ} (h : Representable q) : Representable (-q) := by
  obtain ⟨x, rfl⟩ := h
  exact ⟨x.neg, value_neg x⟩

theorem abs_coeff (x : Decimal) : |(x.coeff : ℚ)| = x.magnitude := by
  rw [← Int.cast_abs, Int.abs_eq_natAbs, coeff_natAbs, Int.cast_natCast]

theorem value_abs (x : Decimal) : x.abs.value = |x.value| := by
  have hcoeff : (x.abs.coeff : ℚ) = |(x.coeff : ℚ)| := by
    rw [coeff_abs, coeff_natAbs, abs_coeff, Int.cast_natCast]
  rw [value, value, hcoeff, abs_div, abs_of_pos (cast_tenTo_pos _)]
  rfl

/-- No value reaches `2^96`. -/
theorem abs_value_le (x : Decimal) : |x.value| ≤ (twoTo 96 : ℚ) - 1 := by
  have hmag : (x.magnitude : ℚ) + 1 ≤ (twoTo 96 : ℚ) := by exact_mod_cast x.magnitude_lt
  have hone : (1 : ℚ) ≤ (tenTo x.scale : ℚ) := by exact_mod_cast tenTo_pos x.scale
  rw [value, abs_div, abs_coeff, abs_of_pos (cast_tenTo_pos _)]
  exact (div_le_self (Nat.cast_nonneg _) hone).trans (by linarith)

/-- A number is the value of a decimal exactly if at most twenty-eight places make it a whole number
    of at most ninety-six bits. -/
theorem representable_iff {q : ℚ} : Representable q ↔
    ∃ (c : ℤ) (k : Nat), c.natAbs < twoTo 96 ∧ k ≤ 28 ∧ q * (tenTo k : ℚ) = c := by
  constructor
  · rintro ⟨x, rfl⟩
    refine ⟨x.coeff, x.scale, ?_, x.scale_le, value_mul_tenTo x⟩
    rw [coeff_natAbs]
    exact x.magnitude_lt
  · rintro ⟨c, k, hc, hk, hq⟩
    obtain ⟨x, hx⟩ := Option.isSome_iff_exists.mp (make?_isSome_iff.mpr ⟨hc, hk⟩)
    obtain ⟨hcoeff, hscale⟩ := coeff_of_make? hx
    refine ⟨x, ?_⟩
    rw [value, hcoeff, hscale, ← hq]
    exact mul_div_cancel_right₀ _ (cast_tenTo_ne_zero k)

/-! ## Fitting, said of values -/

/-- A decimal made with the sign of `c` is on the same side of zero as `c`. -/
theorem exists_sign {c : ℤ} {x : Decimal} (h : x.negative = decide (c < 0)) :
    ∃ σ : ℚ, |σ| = 1 ∧ (c : ℚ) = σ * c.natAbs ∧ (x.coeff : ℚ) = σ * x.magnitude := by
  rcases lt_or_ge c 0 with hc | hc
  · refine ⟨-1, by norm_num, ?_, ?_⟩
    · rw [Nat.cast_natAbs, abs_of_neg hc]
      push_cast
      ring
    · rw [coeff, h, if_pos (decide_eq_true hc)]
      push_cast
      ring
  · refine ⟨1, by norm_num, ?_, ?_⟩
    · rw [Nat.cast_natAbs, abs_of_nonneg hc, one_mul]
    · rw [coeff, h, if_neg (by simpa using hc), one_mul, Int.cast_natCast]

/-- A number that some decimal has is never rounded: fitting answers it, whatever the scale asked
    for. -/
theorem value_of_fit_exact {c : ℤ} {s : Nat} (h : Representable ((c : ℚ) / (tenTo s : ℚ))) :
    ∃ x, fit (c < 0) c.natAbs s = some x ∧ x.value = (c : ℚ) / (tenTo s : ℚ) := by
  obtain ⟨c', k, hc', hk, heq⟩ := representable_iff.mp h
  have hnat : c.natAbs * tenTo k = c'.natAbs * tenTo s := by
    have hint : c * (tenTo k : ℤ) = c' * (tenTo s : ℤ) := by
      rw [div_mul_eq_mul_div, div_eq_iff (cast_tenTo_ne_zero s)] at heq
      exact_mod_cast heq
    have habs := congrArg Int.natAbs hint
    rwa [Int.natAbs_mul, Int.natAbs_mul, Int.natAbs_natCast, Int.natAbs_natCast] at habs
  obtain ⟨x, hx, hmag⟩ := fit_exact (decide (c < 0)) hc' hk hnat
  obtain ⟨σ, -, hc, hcoeff⟩ := exists_sign (fit_negative hx)
  refine ⟨x, hx, ?_⟩
  have hmagq : (x.magnitude : ℚ) * tenTo s = c.natAbs * tenTo x.scale := by exact_mod_cast hmag
  rw [value, div_eq_div_iff (cast_tenTo_ne_zero _) (cast_tenTo_ne_zero _), hcoeff, hc, mul_assoc,
    hmagq, mul_assoc]

/-- Fitting has no answer only from half a unit beyond the greatest decimal on: below that the
    number rounds down to it. -/
theorem fit_int_eq_none_iff {c : ℤ} {s : Nat} :
    fit (c < 0) c.natAbs s = none ↔ (twoTo 96 : ℚ) - 1 / 2 ≤ |(c : ℚ) / (tenTo s : ℚ)| := by
  have hcast : (2 * (twoTo 96 * tenTo s) ≤ 2 * c.natAbs + tenTo s) ↔
      (2 * ((twoTo 96 : ℚ) * tenTo s) ≤ 2 * (c.natAbs : ℚ) + tenTo s) := by norm_cast
  have hs := cast_tenTo_pos s
  rw [fit_eq_none_iff, hcast, abs_div, abs_of_pos hs, le_div_iff₀ hs, Nat.cast_natAbs, Int.cast_abs]
  constructor <;> intro h <;> linarith

/-- What fitting answers is at most half of its own last place away from the number. -/
theorem fit_int_near {c : ℤ} {s : Nat} {x : Decimal} (h : fit (c < 0) c.natAbs s = some x) :
    |x.value - (c : ℚ) / (tenTo s : ℚ)| ≤ 1 / (2 * (tenTo x.scale : ℚ)) := by
  obtain ⟨hlow, hhigh⟩ := fit_near h
  obtain ⟨σ, hσ, hc, hcoeff⟩ := exists_sign (fit_negative h)
  have hsplit : (tenTo s : ℚ) = tenTo (s - x.scale) * tenTo x.scale := by
    rw [← Nat.cast_mul, ← tenTo_add, Nat.sub_add_cancel (fit_scale_le h)]
  have hd := cast_tenTo_pos (s - x.scale)
  have hk := cast_tenTo_pos x.scale
  have hlowq : 2 * ((tenTo (s - x.scale) : ℚ) * x.magnitude)
      ≤ 2 * (c.natAbs : ℚ) + tenTo (s - x.scale) := by exact_mod_cast hlow
  have hhighq : 2 * (c.natAbs : ℚ)
      ≤ 2 * ((tenTo (s - x.scale) : ℚ) * x.magnitude) + tenTo (s - x.scale) := by
    exact_mod_cast hhigh
  -- the sign apart, both numbers are brought to the places of the exact one
  have hdiff : x.value - (c : ℚ) / (tenTo s : ℚ)
      = σ * (((tenTo (s - x.scale) : ℚ) * x.magnitude - c.natAbs) / tenTo s) := by
    rw [value, hcoeff, hc, hsplit]
    field_simp
  rw [hdiff, abs_mul, hσ, one_mul, abs_div, abs_of_pos (cast_tenTo_pos s), hsplit,
    div_le_div_iff₀ (mul_pos hd hk) (by linarith)]
  have habs : |(tenTo (s - x.scale) : ℚ) * x.magnitude - c.natAbs| * 2 ≤ tenTo (s - x.scale) := by
    rcases abs_cases ((tenTo (s - x.scale) : ℚ) * x.magnitude - c.natAbs) with ⟨heq, -⟩ | ⟨heq, -⟩
    · rw [heq]
      linarith
    · rw [heq]
      linarith
  calc |(tenTo (s - x.scale) : ℚ) * x.magnitude - c.natAbs| * (2 * tenTo x.scale)
      = |(tenTo (s - x.scale) : ℚ) * x.magnitude - c.natAbs| * 2 * tenTo x.scale := by ring
    _ ≤ tenTo (s - x.scale) * tenTo x.scale := mul_le_mul_of_nonneg_right habs hk.le
    _ = 1 * (tenTo (s - x.scale) * tenTo x.scale) := (one_mul _).symm

/-! ## Addition -/

/-- Two decimals brought to the places of the longer one. -/
def commonSum (x y : Decimal) : ℤ :=
  x.coeff * tenTo (max x.scale y.scale - x.scale) + y.coeff * tenTo (max x.scale y.scale - y.scale)

/-- Before a sum is fitted both terms are brought to the greater of the two scales, and there the
    sum is exact. -/
theorem value_add_value (x y : Decimal) :
    x.value + y.value = (commonSum x y : ℚ) / (tenTo (max x.scale y.scale) : ℚ) := by
  have hx : (tenTo (max x.scale y.scale) : ℚ)
      = tenTo (max x.scale y.scale - x.scale) * tenTo x.scale := by
    rw [← Nat.cast_mul, ← tenTo_add, Nat.sub_add_cancel (Nat.le_max_left _ _)]
  have hy : (tenTo (max x.scale y.scale) : ℚ)
      = tenTo (max x.scale y.scale - y.scale) * tenTo y.scale := by
    rw [← Nat.cast_mul, ← tenTo_add, Nat.sub_add_cancel (Nat.le_max_right _ _)]
  rw [eq_div_iff (cast_tenTo_ne_zero _), add_mul, commonSum]
  nth_rewrite 1 [hx]
  rw [hy, mul_left_comm, value_mul_tenTo, mul_left_comm, value_mul_tenTo]
  push_cast
  ring

/-- Addition in three cases: a zero is neutral, and else the common sum is fitted. -/
theorem add?_cases (x y : Decimal) :
    (x.value = 0 ∧ x.add? y = some y) ∨ (y.value = 0 ∧ x.add? y = some x) ∨
      x.add? y = fit (commonSum x y < 0) (commonSum x y).natAbs (max x.scale y.scale) := by
  unfold add?
  split
  · rename_i hx
    exact Or.inl ⟨(value_eq_zero_iff x).mpr hx, rfl⟩
  · split
    · rename_i hy
      exact Or.inr (Or.inl ⟨(value_eq_zero_iff y).mpr hy, rfl⟩)
    · exact Or.inr (Or.inr rfl)

/-- Where some decimal has the exact sum, the sum is exact. -/
theorem add?_exact {x y : Decimal} (h : Representable (x.value + y.value)) :
    ∃ z, x.add? y = some z ∧ z.value = x.value + y.value := by
  rcases add?_cases x y with ⟨hx, hadd⟩ | ⟨hy, hadd⟩ | hadd
  · exact ⟨y, hadd, by rw [hx, zero_add]⟩
  · exact ⟨x, hadd, by rw [hy, add_zero]⟩
  · rw [value_add_value] at h ⊢
    rw [hadd]
    exact value_of_fit_exact h

/-- Addition overflows exactly if the exact sum is at least `2^96 - 1/2` in size. -/
theorem add?_eq_none_iff {x y : Decimal} :
    x.add? y = none ↔ (twoTo 96 : ℚ) - 1 / 2 ≤ |x.value + y.value| := by
  rcases add?_cases x y with ⟨hx, hadd⟩ | ⟨hy, hadd⟩ | hadd
  · rw [hadd, hx, zero_add]
    exact iff_of_false (fun h => nomatch h) (by linarith [abs_value_le y])
  · rw [hadd, hy, add_zero]
    exact iff_of_false (fun h => nomatch h) (by linarith [abs_value_le x])
  · rw [hadd, value_add_value]
    exact fit_int_eq_none_iff

/-- As for sums: a difference has no answer exactly if it is too great for every scale. -/
theorem sub?_eq_none_iff {x y : Decimal} :
    x.sub? y = none ↔ (twoTo 96 : ℚ) - 1 / 2 ≤ |x.value - y.value| := by
  rw [sub?, add?_eq_none_iff, value_neg, sub_eq_add_neg x.value]

/-- What a sum that is kept is above the exact sum; below it if negative. -/
def slip (x y : Decimal) : ℚ :=
  match x.add? y with
  | some z => z.value - (x.value + y.value)
  | none => 0

/-- A sum is the exact one and its slip, which is the form in which the rounding of a whole run adds
    up. -/
theorem value_of_add? {x y z : Decimal} (h : x.add? y = some z) :
    z.value = x.value + y.value + slip x y := by
  rw [slip, h]
  ring

/-- A sum slips exactly if no decimal has the exact sum. -/
theorem slip_eq_zero_iff {x y z : Decimal} (h : x.add? y = some z) :
    slip x y = 0 ↔ Representable (x.value + y.value) := by
  constructor
  · intro hs
    exact ⟨z, by rw [value_of_add? h, hs, add_zero]⟩
  · intro hr
    obtain ⟨z', hz', hval⟩ := add?_exact hr
    rw [slip, hz']
    exact sub_eq_zero.mpr hval

/-- A sum slips by at most half a unit of the last place kept. -/
theorem abs_slip_le {x y z : Decimal} (h : x.add? y = some z) :
    |slip x y| ≤ 1 / (2 * (tenTo z.scale : ℚ)) := by
  have hpos : (0 : ℚ) ≤ 1 / (2 * (tenTo z.scale : ℚ)) := by
    have := cast_tenTo_pos z.scale
    positivity
  have hslip : slip x y = z.value - (x.value + y.value) := by rw [value_of_add? h]; ring
  rw [hslip]
  rcases add?_cases x y with ⟨hx, hadd⟩ | ⟨hy, hadd⟩ | hadd
  · obtain rfl := Option.some.inj (hadd.symm.trans h)
    rwa [hx, zero_add, sub_self, abs_zero]
  · obtain rfl := Option.some.inj (hadd.symm.trans h)
    rwa [hy, add_zero, sub_self, abs_zero]
  · rw [value_add_value]
    exact fit_int_near (hadd ▸ h)

/-- A sum is zero exactly if the exact sum is: what is rounded away is less than a sum that must be
    rounded. -/
theorem add?_value_eq_zero_iff {x y z : Decimal} (h : x.add? y = some z) :
    z.value = 0 ↔ x.value + y.value = 0 := by
  constructor
  · intro hz
    by_contra hne
    have hscale : max x.scale y.scale ≤ 28 := max_le x.scale_le y.scale_le
    have hpos := cast_tenTo_pos (max x.scale y.scale)
    -- a short sum is exact, and a long one is above one half
    rcases lt_or_ge (commonSum x y).natAbs (twoTo 96) with hshort | hlong
    · have hexact : Representable (x.value + y.value) := by
        refine representable_iff.mpr ⟨commonSum x y, _, hshort, hscale, ?_⟩
        rw [value_add_value, div_mul_cancel₀ _ (cast_tenTo_ne_zero _)]
      rw [value_of_add? h, (slip_eq_zero_iff h).mpr hexact, add_zero] at hz
      exact hne hz
    · have hslip : |x.value + y.value| ≤ 1 / 2 := by
        have hval := value_of_add? h
        have hone : (1 : ℚ) ≤ tenTo z.scale := by exact_mod_cast tenTo_pos z.scale
        rw [hz] at hval
        rw [eq_neg_of_add_eq_zero_left hval.symm, abs_neg]
        exact (abs_slip_le h).trans (one_div_le_one_div_of_le (by norm_num) (by linarith))
      have hlarge : 1 / 2 < |x.value + y.value| := by
        have hsum : (twoTo 96 : ℚ) ≤ |(commonSum x y : ℚ)| := by
          rw [← Int.cast_abs, Int.abs_eq_natAbs, Int.cast_natCast]
          exact_mod_cast hlong
        have hden : (tenTo (max x.scale y.scale) : ℚ) ≤ (tenTo 28 : ℚ) := by
          exact_mod_cast Nat.pow_le_pow_right (by decide) hscale
        have hnum : (tenTo 28 : ℚ) < 2 * (twoTo 96 : ℚ) := by norm_num [tenTo, twoTo]
        rw [value_add_value, abs_div, abs_of_pos hpos, lt_div_iff₀ hpos]
        linarith
      linarith
  · intro hsum
    have hzero : Representable (x.value + y.value) := ⟨zero, by rw [value_zero, hsum]⟩
    rw [value_of_add? h, (slip_eq_zero_iff h).mpr hzero, add_zero, hsum]

/-- A difference is zero exactly if the values are equal. -/
theorem sub?_isZero_iff {x y z : Decimal} (h : x.sub? y = some z) :
    z.isZero = true ↔ x.value = y.value := by
  rw [← value_eq_zero_iff, add?_value_eq_zero_iff h, value_neg, ← sub_eq_add_neg, sub_eq_zero]

/-- What some additions lose or gain together. -/
def totalSlip (additions : List (Decimal × Decimal)) : ℚ :=
  (additions.map fun a => slip a.1 a.2).sum

theorem totalSlip_cons (a : Decimal × Decimal) (additions : List (Decimal × Decimal)) :
    totalSlip (a :: additions) = slip a.1 a.2 + totalSlip additions := by
  rw [totalSlip, totalSlip, List.map_cons, List.sum_cons]

/-- Slips add up over the additions in whatever groups these are made. -/
theorem totalSlip_append (as bs : List (Decimal × Decimal)) :
    totalSlip (as ++ bs) = totalSlip as + totalSlip bs := by
  rw [totalSlip, totalSlip, totalSlip, List.map_append, List.sum_append]

end Subledger.Decimal
