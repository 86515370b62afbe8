/-
  ROUNDING, said of numbers: what decimals keep of an exact result.

  Fitting, adding and rounding work on digits and places.  Here they are said of rational numbers, so
  that what is kept of an exact result can be seen to depend on that result alone, and not on how
  its parts were written.

  1. **To the nearest** (`halfEven_eq_iff`) — `rounded k` is the nearest number of `k` places, and a
     half goes to the even neighbour.
  2. **What is kept** (`kept`) — the rounding at the most places, of at most twenty-eight, at which it
     has at most ninety-six bits.
  3. **By the operations** — that is the value of what fits (`value_of_fit`), and so of a sum
     (`value_of_add?_eq_kept`) and of a product (`value_of_mul?`), which overflow where there is no
     room for a whole part (`mul?_eq_none_iff`).  The crux is that fitting tries no more places
     than the exact number has, and that more would only add zeros.
-/
import Subledger.Proofs.Decimal.Value

namespace Subledger.Decimal

/-! ## To the nearest

  Rounding to even is given by two facts: the distance is at most a half, and where it is a half the
  result is even.  They determine it, so the division on digits and the floor of a rational number
  are compared through them and not step by step. -/

/-- The nearest whole number; of two that are equally near, the even one. -/
def halfEven (q : ℚ) : ℤ :=
  if Int.fract q < 1 / 2 then ⌊q⌋
  else if Int.fract q = 1 / 2 then ⌊q⌋ + ⌊q⌋ % 2
  else ⌊q⌋ + 1

/-- The two facts that determine the rounding. -/
theorem halfEven_spec (q : ℚ) :
    |q - halfEven q| ≤ 1 / 2 ∧ (|q - halfEven q| = 1 / 2 → Even (halfEven q)) := by
  have hsplit : q = ⌊q⌋ + Int.fract q := (Int.floor_add_fract q).symm
  have hnonneg := Int.fract_nonneg q
  have hlt := Int.fract_lt_one q
  unfold halfEven
  split
  · rename_i hlow
    have habs : |q - (⌊q⌋ : ℚ)| = Int.fract q := by rw [Int.self_sub_floor, abs_of_nonneg hnonneg]
    rw [habs]
    exact ⟨hlow.le, fun h => absurd h hlow.ne⟩
  · split
    · rename_i htie
      have heven : Even (⌊q⌋ + ⌊q⌋ % 2) := by
        rw [Int.even_iff]
        omega
      refine ⟨?_, fun _ => heven⟩
      rcases Int.emod_two_eq_zero_or_one ⌊q⌋ with h0 | h1
      · rw [h0, add_zero, Int.self_sub_floor, htie]
        norm_num
      · rw [h1, Int.cast_add, Int.cast_one, ← sub_sub, Int.self_sub_floor, htie]
        norm_num
    · rename_i hlow htie
      have hhigh : 1 / 2 < Int.fract q := lt_of_le_of_ne (not_lt.mp hlow) (Ne.symm htie)
      have habs : |q - ((⌊q⌋ + 1 : ℤ) : ℚ)| = 1 - Int.fract q := by
        rw [Int.cast_add, Int.cast_one, ← sub_sub, Int.self_sub_floor, abs_of_neg (by linarith)]
        ring
      rw [habs]
      exact ⟨by linarith, fun h => absurd h (by linarith)⟩

/-- The nearest whole number is known by how near it is, and by its being even if there are two. -/
theorem halfEven_eq_iff {q : ℚ} {c : ℤ} :
    halfEven q = c ↔ |q - c| ≤ 1 / 2 ∧ (|q - c| = 1 / 2 → Even c) := by
  constructor
  · rintro rfl
    exact halfEven_spec q
  · rintro ⟨hnear, heven⟩
    obtain ⟨hnear', heven'⟩ := halfEven_spec q
    by_contra hne
    -- two that are near are neighbours, and both are a half away
    have hapart : (1 : ℚ) ≤ |(halfEven q : ℚ) - c| := by
      exact_mod_cast Int.one_le_abs (sub_ne_zero.mpr hne)
    have htriangle : |(halfEven q : ℚ) - c| ≤ |q - halfEven q| + |q - c| := by
      have h := abs_sub_le (halfEven q : ℚ) q c
      rwa [abs_sub_comm (halfEven q : ℚ) q] at h
    have htie : |q - c| = 1 / 2 := by linarith
    have htie' : |q - halfEven q| = 1 / 2 := by linarith
    have hone : |halfEven q - c| = 1 := by
      have h : |(halfEven q : ℚ) - c| = 1 := by linarith
      exact_mod_cast h
    have hodd : Odd (halfEven q - c) := by
      rcases (abs_eq (by norm_num)).mp hone with h | h <;> rw [h] <;> decide
    exact Int.not_even_iff_odd.mpr hodd ((heven' htie').sub (heven htie))

theorem halfEven_of_lt {q : ℚ} {c : ℤ} (h : |q - c| < 1 / 2) : halfEven q = c :=
  halfEven_eq_iff.mpr ⟨h.le, fun heq => absurd heq h.ne⟩

/-- A whole number is its own rounding. -/
theorem halfEven_intCast (c : ℤ) : halfEven c = c :=
  halfEven_of_lt (by rw [sub_self, abs_zero]; norm_num)

/-- Halves go to the even neighbour on both sides of zero, so the sign comes out of a rounding. -/
theorem halfEven_neg (q : ℚ) : halfEven (-q) = -halfEven q := by
  obtain ⟨hnear, heven⟩ := halfEven_spec q
  have habs : |-q - ((-halfEven q : ℤ) : ℚ)| = |q - halfEven q| := by
    rw [Int.cast_neg, neg_sub_neg, abs_sub_comm]
  refine halfEven_eq_iff.mpr ?_
  rw [habs]
  exact ⟨hnear, fun h => (heven h).neg⟩

/-- The division of digits leaves an even number at a tie: the quotient if that is even, its
    successor if not. -/
theorem roundHalfEven_even {n d : Nat} (hd : 0 < d)
    (h : 2 * n = 2 * (d * roundHalfEven n d) + d ∨ 2 * n + d = 2 * (d * roundHalfEven n d)) :
    roundHalfEven n d % 2 = 0 := by
  have hn := Nat.div_add_mod n d
  have hlt := Nat.mod_lt n hd
  have hsucc : d * (n / d + 1) = d * (n / d) + d := Nat.mul_succ _ _
  unfold roundHalfEven at h ⊢
  split
  · rename_i hlow
    rw [if_pos hlow] at h
    omega
  · rename_i hlow
    rw [if_neg hlow] at h
    split
    · omega
    · rename_i htie
      rw [if_neg htie] at h
      omega

/-- Rounding of digits is rounding of numbers. -/
theorem halfEven_div (n : Nat) {d : Nat} (hd : 0 < d) :
    halfEven ((n : ℚ) / d) = roundHalfEven n d := by
  have hdq : (0 : ℚ) < d := Nat.cast_pos.mpr hd
  obtain ⟨hlow, hhigh⟩ := roundHalfEven_near n hd
  have hlowq : 2 * ((d : ℚ) * roundHalfEven n d) ≤ 2 * n + d := by exact_mod_cast hlow
  have hhighq : 2 * (n : ℚ) ≤ 2 * (d * roundHalfEven n d) + d := by exact_mod_cast hhigh
  have hdiff : (n : ℚ) / d - (roundHalfEven n d : ℤ) = (n - d * roundHalfEven n d) / d := by
    rw [Int.cast_natCast]
    field_simp
  refine halfEven_eq_iff.mpr ?_
  rw [hdiff, abs_div, abs_of_pos hdq, div_le_iff₀ hdq, div_eq_iff hdq.ne']
  constructor
  · rw [abs_le]
    constructor <;> linarith
  · intro htie
    refine (Int.even_coe_nat _).mpr (Nat.even_iff.mpr (roundHalfEven_even hd ?_))
    rcases (abs_eq (by linarith)).mp htie with h | h
    · exact Or.inl (by exact_mod_cast (by linarith : 2 * (n : ℚ) = 2 * (d * roundHalfEven n d) + d))
    · exact Or.inr (by exact_mod_cast (by linarith : 2 * (n : ℚ) + d = 2 * (d * roundHalfEven n d)))

/-- The nearest number of `k` places. -/
def rounded (k : Nat) (q : ℚ) : ℚ := (halfEven (q * tenTo k) : ℚ) / tenTo k

/-- In units of the last place a rounded number is a whole one. -/
theorem rounded_mul_tenTo (k : Nat) (q : ℚ) : rounded k q * tenTo k = halfEven (q * tenTo k) :=
  div_mul_cancel₀ _ (cast_tenTo_ne_zero k)

/-- A number of `k` places is not changed. -/
theorem rounded_of_int {k : Nat} {q : ℚ} {c : ℤ} (h : q * tenTo k = c) : rounded k q = q := by
  rw [rounded, h, halfEven_intCast, ← h, mul_div_cancel_right₀ _ (cast_tenTo_ne_zero k)]

/-- A number of some places is one of more places. -/
theorem exists_int_of_le {k t : Nat} {q : ℚ} {c : ℤ} (h : q * tenTo k = c) (hkt : k ≤ t) :
    q * tenTo t = ((c * tenTo (t - k) : ℤ) : ℚ) := by
  rw [show tenTo t = tenTo k * tenTo (t - k) by rw [← tenTo_add, Nat.add_sub_cancel' hkt]]
  push_cast
  rw [← mul_assoc, h]

/-- At most half a unit of the last place is lost. -/
theorem abs_sub_rounded_le (k : Nat) (q : ℚ) : |q - rounded k q| * tenTo k ≤ 1 / 2 := by
  have h := (halfEven_spec (q * tenTo k)).1
  rwa [← rounded_mul_tenTo, ← sub_mul, abs_mul, abs_of_pos (cast_tenTo_pos k)] at h

/-- An even bound is reached from half a unit below it. -/
theorem abs_halfEven_lt_iff {q : ℚ} {b : ℤ} (hb : Even b) :
    |halfEven q| < b ↔ |q| < (b : ℚ) - 1 / 2 := by
  obtain ⟨hnear, heven⟩ := halfEven_spec q
  have hsplit : |q| ≤ |q - halfEven q| + |(halfEven q : ℚ)| := by
    have h := abs_add_le (q - halfEven q) (halfEven q : ℚ)
    rwa [sub_add_cancel] at h
  constructor
  · intro hlt
    have hle : |(halfEven q : ℚ)| ≤ b - 1 := by exact_mod_cast Int.le_sub_one_of_lt hlt
    refine lt_of_le_of_ne (by linarith) fun htie => ?_
    -- the rounding would be even and next to an even bound
    have hbelow : |halfEven q| = b - 1 := by
      have h : |(halfEven q : ℚ)| = b - 1 := by linarith
      exact_mod_cast h
    have hlast : Even (b - 1) := hbelow ▸ even_abs.mpr (heven (by linarith))
    exact Int.not_even_iff_odd.mpr (hb.sub_odd odd_one) hlast
  · intro hlt
    by_contra hge
    have hleq : (b : ℚ) ≤ |(halfEven q : ℚ)| := by exact_mod_cast not_lt.mp hge
    have hback : |(halfEven q : ℚ)| ≤ |q - halfEven q| + |q| := by
      have h := abs_sub_le (halfEven q : ℚ) q 0
      rwa [sub_zero, sub_zero, abs_sub_comm (halfEven q : ℚ) q] at h
    linarith

/-! ## What is kept

  A number that rounds to at most ninety-six bits at some places does so at all fewer ones.  So
  there is a greatest number of places at which it can be held, and it depends on the number alone.
  -/

/-- The rounding at `k` places has at most ninety-six bits. -/
def HasRoom (k : Nat) (q : ℚ) : Prop := |halfEven (q * tenTo k)| < twoTo 96

instance (k : Nat) (q : ℚ) : Decidable (HasRoom k q) := inferInstanceAs (Decidable (_ < _))

/-- Room, as a bound of the number itself.  The greatest coefficient is odd, so half a unit beyond
    it is a tie that goes up, out of the range. -/
theorem hasRoom_iff {k : Nat} {q : ℚ} :
    HasRoom k q ↔ |q| * tenTo k < (twoTo 96 : ℚ) - 1 / 2 := by
  have h := abs_halfEven_lt_iff (q := q * tenTo k) (b := twoTo 96) (by decide)
  rwa [abs_mul, abs_of_pos (cast_tenTo_pos k), Int.cast_natCast] at h

/-- Without places the bound is the one at which the operations overflow. -/
theorem hasRoom_zero_iff {q : ℚ} : HasRoom 0 q ↔ ¬(twoTo 96 : ℚ) - 1 / 2 ≤ |q| := by
  rw [hasRoom_iff, tenTo_zero, Nat.cast_one, mul_one, not_le]

/-- Fewer places leave more room. -/
theorem HasRoom.of_le {k t : Nat} {q : ℚ} (h : HasRoom t q) (hkt : k ≤ t) : HasRoom k q := by
  have hle : (tenTo k : ℚ) ≤ tenTo t := by exact_mod_cast Nat.pow_le_pow_right (by decide) hkt
  exact hasRoom_iff.mpr ((mul_le_mul_of_nonneg_left hle (abs_nonneg q)).trans_lt (hasRoom_iff.mp h))

/-- The most places at which there is room. -/
def places (q : ℚ) : Nat := Nat.findGreatest (fun k => HasRoom k q) 28

theorem places_le (q : ℚ) : places q ≤ 28 := Nat.findGreatest_le 28

theorem le_places {k : Nat} {q : ℚ} (hk : k ≤ 28) (h : HasRoom k q) : k ≤ places q :=
  Nat.le_findGreatest hk h

/-- If there is room for the whole part, there is room at the places that are kept. -/
theorem hasRoom_places {q : ℚ} (h : HasRoom 0 q) : HasRoom (places q) q :=
  Nat.findGreatest_spec (P := fun k => HasRoom k q) (Nat.zero_le 28) h

/-- What decimals keep of a number. -/
def kept (q : ℚ) : ℚ := rounded (places q) q

/-- Places behind the last digit of a number do not matter for what is kept of it. -/
theorem kept_eq_rounded {s t : Nat} {q : ℚ} {c : ℤ} (hq : q * tenTo s = c) (hts : t ≤ s)
    (ht : t ≤ 28) (hroom : HasRoom t q) (hmost : ∀ i, t < i → i ≤ s → i ≤ 28 → ¬HasRoom i q) :
    kept q = rounded t q := by
  have hle : t ≤ places q := le_places ht hroom
  rcases Nat.eq_or_lt_of_le hle with heq | hlt
  · rw [kept, ← heq]
  · have hplaces := hasRoom_places (hroom.of_le (Nat.zero_le t))
    have hst : s ≤ t := by
      by_contra hlt'
      refine hmost (t + 1) (Nat.lt_succ_self t) (by omega) (hlt.trans_le (places_le q)) ?_
      exact hplaces.of_le hlt
    obtain rfl : s = t := Nat.le_antisymm hst hts
    rw [kept, rounded_of_int (exists_int_of_le hq hle), rounded_of_int hq]

/-- A number that is less than half a unit of the last place is not kept. -/
theorem kept_of_tiny {q : ℚ} (h : |q| * tenTo 28 < 1 / 2) : kept q = 0 := by
  have hle : (tenTo (places q) : ℚ) ≤ tenTo 28 := by
    exact_mod_cast Nat.pow_le_pow_right (by decide) (places_le q)
  have hzero : halfEven (q * tenTo (places q)) = 0 := by
    refine halfEven_of_lt ?_
    rw [Int.cast_zero, sub_zero, abs_mul, abs_of_pos (cast_tenTo_pos _)]
    exact (mul_le_mul_of_nonneg_left hle (abs_nonneg q)).trans_lt h
  rw [kept, rounded, hzero, Int.cast_zero, zero_div]

/-! ## By the operations

  Each operation puts together an exact number of some places and fits it.  A product has up to
  fifty-six places, of which fitting tries at most twenty-eight. -/

/-- A number of a sign and digits. -/
def signed (negative : Bool) (m : Nat) : ℤ := if negative then -(m : ℤ) else m

theorem coeff_eq_signed (x : Decimal) : x.coeff = signed x.negative x.magnitude := rfl

/-- A whole number is its sign and its absolute value. -/
theorem signed_natAbs (c : ℤ) : signed (c < 0) c.natAbs = c := by
  unfold signed
  by_cases hc : c < 0
  · rw [if_pos (decide_eq_true hc)]
    omega
  · rw [if_neg (by simpa using hc)]
    omega

theorem natAbs_signed (n : Bool) (m : Nat) : (signed n m).natAbs = m := by
  cases n
  · exact Int.natAbs_natCast m
  · exact (Int.natAbs_neg m).trans (Int.natAbs_natCast m)

/-- Signs multiply as booleans that differ. -/
theorem signed_mul (n n' : Bool) (m m' : Nat) :
    signed (n != n') (m * m') = signed n m * signed n' m' := by
  cases n <;> cases n' <;> simp [signed]

/-- Rounding leaves the sign alone. -/
theorem halfEven_signed_div (n : Bool) (m : Nat) {d : Nat} (hd : 0 < d) :
    halfEven ((signed n m : ℚ) / d) = signed n (roundHalfEven m d) := by
  cases n
  · exact halfEven_div m hd
  · rw [signed, signed, if_pos rfl, if_pos rfl, Int.cast_neg, Int.cast_natCast, neg_div,
      halfEven_neg, halfEven_div m hd]

/-- Digits of `s` places, said of fewer places. -/
theorem div_tenTo_mul_tenTo (c : ℤ) {s t : Nat} (hts : t ≤ s) :
    (c : ℚ) / tenTo s * tenTo t = (c : ℚ) / tenTo (s - t) := by
  have hsplit : (tenTo s : ℚ) = tenTo (s - t) * tenTo t := by
    rw [← Nat.cast_mul, ← tenTo_add, Nat.sub_add_cancel hts]
  rw [hsplit, div_mul_eq_mul_div, mul_div_mul_right _ _ (cast_tenTo_ne_zero t)]

/-- Room at fewer places than there are digits is what the division of digits tests. -/
theorem hasRoom_signed_iff (n : Bool) (m : Nat) {s t : Nat} (hts : t ≤ s) :
    HasRoom t ((signed n m : ℚ) / tenTo s) ↔ roundHalfEven m (tenTo (s - t)) < twoTo 96 := by
  rw [HasRoom, div_tenTo_mul_tenTo _ hts, halfEven_signed_div n m (tenTo_pos _),
    Int.abs_eq_natAbs, natAbs_signed, Nat.cast_lt]

/-- What fits is what is kept. -/
theorem value_of_fit {n : Bool} {m s : Nat} {x : Decimal} (h : fit n m s = some x) :
    x.value = kept ((signed n m : ℚ) / tenTo s) := by
  obtain ⟨hn, -, hm, habove⟩ := fitFrom_eq_some h
  have hxs := fit_scale_le h
  have hround : x.value = rounded x.scale ((signed n m : ℚ) / tenTo s) := by
    rw [rounded, div_tenTo_mul_tenTo _ hxs, halfEven_signed_div n m (tenTo_pos _), ← hm, ← hn,
      ← coeff_eq_signed]
    rfl
  rw [hround]
  refine (kept_eq_rounded (div_mul_cancel₀ _ (cast_tenTo_ne_zero s)) hxs x.scale_le ?_ ?_).symm
  · rw [hasRoom_signed_iff n m hxs, ← hm]
    exact x.magnitude_lt
  · intro i hi his h28
    rw [hasRoom_signed_iff n m his, Nat.not_lt]
    exact habove i hi (Nat.le_min.mpr ⟨his, h28⟩) h28

/-- Fitting fails exactly where even the whole part finds no room. -/
theorem fit_signed_eq_none_iff {n : Bool} {m s : Nat} :
    fit n m s = none ↔ (twoTo 96 : ℚ) - 1 / 2 ≤ |(signed n m : ℚ) / tenTo s| := by
  have h := fit_int_eq_none_iff (c := signed n m) (s := s)
  rwa [natAbs_signed, fit_eq_none_iff, ← fit_eq_none_iff (n := n)] at h

/-- A decimal's own value is kept. -/
theorem kept_value (x : Decimal) : kept x.value = x.value := by
  have hroom : HasRoom x.scale x.value := by
    rw [HasRoom, value_mul_tenTo, halfEven_intCast, Int.abs_eq_natAbs, coeff_natAbs]
    exact_mod_cast x.magnitude_lt
  rw [kept_eq_rounded (value_mul_tenTo x) le_rfl x.scale_le hroom (fun i hi hle => by omega),
    rounded_of_int (value_mul_tenTo x)]

/-- What a decimal can hold is kept unchanged. -/
theorem kept_of_representable {q : ℚ} (h : Representable q) : kept q = q := by
  obtain ⟨x, rfl⟩ := h
  exact kept_value x

/-- What is kept is always something that a decimal can hold. -/
theorem representable_kept {q : ℚ} (h : HasRoom 0 q) : Representable (kept q) := by
  refine representable_iff.mpr ⟨halfEven (q * tenTo (places q)), places q, ?_, places_le q,
    rounded_mul_tenTo _ q⟩
  have hroom := hasRoom_places h
  rw [HasRoom, Int.abs_eq_natAbs] at hroom
  exact_mod_cast hroom

/-- The value of a sum is what is kept of the sum of the values, however they are written. -/
theorem value_of_add?_eq_kept {x y z : Decimal} (h : x.add? y = some z) :
    z.value = kept (x.value + y.value) := by
  rcases add?_cases x y with ⟨hx, hadd⟩ | ⟨hy, hadd⟩ | hadd
  · obtain rfl := Option.some.inj (hadd.symm.trans h)
    rw [hx, zero_add, kept_value]
  · obtain rfl := Option.some.inj (hadd.symm.trans h)
    rw [hy, add_zero, kept_value]
  · rw [value_of_fit (hadd.symm.trans h), signed_natAbs, value_add_value]

/-- What a sum is, and whether there is one, does not depend on how its parts are written. -/
theorem add?_value_congr {x x' y y' : Decimal} (hx : x.value = x'.value)
    (hy : y.value = y'.value) : (x.add? y).map value = (x'.add? y').map value := by
  have hnone : x.add? y = none ↔ x'.add? y' = none := by
    rw [add?_eq_none_iff, add?_eq_none_iff, hx, hy]
  cases hadd : x.add? y with
  | none => rw [hnone.mp hadd]
  | some z =>
    cases hadd' : x'.add? y' with
    | none => exact absurd (hadd.symm.trans (hnone.mpr hadd')) (Option.some_ne_none z)
    | some z' =>
      rw [Option.map_some, Option.map_some, value_of_add?_eq_kept hadd,
        value_of_add?_eq_kept hadd', hx, hy]

/-- A product is exact on the coefficients, with the places of both factors. -/
theorem value_mul_value (x y : Decimal) :
    x.value * y.value
      = (signed (x.negative != y.negative) (x.magnitude * y.magnitude) : ℚ)
        / tenTo (x.scale + y.scale) := by
  rw [signed_mul, ← coeff_eq_signed, ← coeff_eq_signed, tenTo_add, value, value, div_mul_div_comm]
  push_cast
  rfl

/-- Dropping the sign of a zero does not change the value. -/
theorem value_plain (x : Decimal) : x.plain.value = x.value := by
  rw [value, value, coeff_plain]
  rfl

/-- Two short numbers of more than forty-seven places together have a tiny product. -/
theorem tiny_of_short {x y : Decimal} (hx : x.isShort = true) (hy : y.isShort = true)
    (hs : 47 < x.scale + y.scale) : |x.value * y.value| * tenTo 28 < 1 / 2 := by
  have hxq : (x.magnitude : ℚ) ≤ twoTo 32 := by exact_mod_cast (of_decide_eq_true hx).le
  have hyq : (y.magnitude : ℚ) ≤ twoTo 32 := by exact_mod_cast (of_decide_eq_true hy).le
  have hden : (tenTo 48 : ℚ) ≤ tenTo (x.scale + y.scale) := by
    exact_mod_cast Nat.pow_le_pow_right (by decide) hs
  have hpos : (0 : ℚ) < tenTo (x.scale + y.scale) := cast_tenTo_pos _
  have hprod : (x.magnitude : ℚ) * y.magnitude ≤ twoTo 32 * twoTo 32 :=
    mul_le_mul hxq hyq (Nat.cast_nonneg _) (Nat.cast_nonneg _)
  have hbound : 2 * ((twoTo 32 : ℚ) * twoTo 32 * tenTo 28) < tenTo 48 := by
    norm_num [tenTo, twoTo]
  rw [value_mul_value, abs_div, abs_of_pos hpos, ← Int.cast_abs, Int.abs_eq_natAbs, natAbs_signed,
    div_mul_eq_mul_div, div_lt_iff₀ hpos]
  push_cast
  have hscaled := mul_le_mul_of_nonneg_right hprod (cast_tenTo_pos 28).le
  linarith

/-- Multiplication in two cases: a tiny product is zero, and else the product of the digits is
    fitted. -/
theorem mul?_cases (x y : Decimal) :
    (|x.value * y.value| * tenTo 28 < 1 / 2 ∧ x.mul? y = some zero) ∨
      (x.mul? y).map value
        = (fit (x.negative != y.negative) (x.magnitude * y.magnitude) (x.scale + y.scale)).map
          value := by
  unfold mul?
  split
  · rename_i hzero
    refine Or.inl ⟨?_, rfl⟩
    rw [Bool.or_eq_true, ← value_eq_zero_iff, ← value_eq_zero_iff, ← mul_eq_zero] at hzero
    rw [hzero, abs_zero, zero_mul]
    norm_num
  · dsimp only
    split
    · rename_i hshort
      obtain ⟨hx, hy⟩ := Bool.and_eq_true_iff.mp hshort
      split
      · rename_i hs
        exact Or.inl ⟨tiny_of_short hx hy hs, rfl⟩
      · rw [Option.map_map, show value ∘ plain = value from funext value_plain]
        exact Or.inr rfl
    · exact Or.inr rfl

/-- The value of a product is what is kept of the product of the values. -/
theorem value_of_mul? {x y z : Decimal} (h : x.mul? y = some z) :
    z.value = kept (x.value * y.value) := by
  rcases mul?_cases x y with ⟨htiny, hmul⟩ | hmul
  · obtain rfl := Option.some.inj (hmul.symm.trans h)
    rw [kept_of_tiny htiny, value_zero]
  · rw [h, Option.map_some] at hmul
    obtain ⟨w, hw, hval⟩ := Option.map_eq_some_iff.mp hmul.symm
    rw [← hval, value_of_fit hw, value_mul_value]

/-- Multiplication overflows exactly if the exact product is at least `2^96 - 1/2` in size. -/
theorem mul?_eq_none_iff {x y : Decimal} :
    x.mul? y = none ↔ (twoTo 96 : ℚ) - 1 / 2 ≤ |x.value * y.value| := by
  rcases mul?_cases x y with ⟨htiny, hmul⟩ | hmul
  · refine iff_of_false (by rw [hmul]; exact nofun) ?_
    have hone : (1 : ℚ) ≤ tenTo 28 := by exact_mod_cast tenTo_pos 28
    have hlarge : (1 : ℚ) ≤ twoTo 96 := by exact_mod_cast twoTo_pos 96
    have hle := le_mul_of_one_le_right (abs_nonneg (x.value * y.value)) hone
    linarith
  · rw [← Option.map_eq_none_iff (f := value), hmul, Option.map_eq_none_iff,
      fit_signed_eq_none_iff, value_mul_value]

/-- Rounding to some places is rounding of the value. -/
theorem value_roundTo (k : Nat) (x : Decimal) : (x.roundTo k).value = rounded k x.value := by
  unfold roundTo
  split
  · rename_i hk
    have hround : rounded k x.value
        = (signed x.negative (roundHalfEven x.magnitude (tenTo (x.scale - k))) : ℚ) / tenTo k := by
      rw [rounded, value, div_tenTo_mul_tenTo _ hk.le, coeff_eq_signed,
        halfEven_signed_div _ _ (tenTo_pos _)]
    rw [hround]
    dsimp only
    split
    · rfl
    · exact value_plain _
  · rename_i hk
    exact (rounded_of_int (exists_int_of_le (value_mul_tenTo x) (Nat.le_of_not_lt hk))).symm

end Subledger.Decimal
