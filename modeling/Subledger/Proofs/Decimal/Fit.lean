/-
  FITTING a number into a decimal: when it can be done, and when nothing is lost.

  `Decimal.fit` tries the places of an exact number `m / 10^s` from the most that are allowed down
  to none, and keeps the first rounding that has at most ninety-six bits.

  1. **When** (`fit_eq_none_iff`): it fails exactly if the whole part alone rounds to `2^96`; that
     is, if the number is at least `2^96 - 1/2`, because a half goes to the even `2^96`.
  2. **How well** (`fit_near`): what is lost is at most half a unit of the last place kept.
  3. **Exactly** (`fit_exact`): a number that some decimal has is kept as it is.  The crux is that
     the first rounding that fits has at least as many places as that decimal, and so cuts off
     nothing but zeros.
-/
import Mathlib
import Subledger.Decimal.Arithmetic

namespace Subledger.Decimal

/-! ## Rounding a quotient

  What is needed of the division on digits: it is exact where it can be, off by at most a half, and
  ordered against whole numbers. -/

/-- A quotient without a remainder is not rounded. -/
theorem roundHalfEven_of_dvd {n d : Nat} (hd : 0 < d) (h : d ∣ n) : roundHalfEven n d = n / d := by
  rw [roundHalfEven, Nat.mod_eq_zero_of_dvd h, if_pos hd]

/-- The rounded quotient is off by at most a half. -/
theorem roundHalfEven_near (n : Nat) {d : Nat} (hd : 0 < d) :
    2 * (d * roundHalfEven n d) ≤ 2 * n + d ∧ 2 * n ≤ 2 * (d * roundHalfEven n d) + d := by
  have hn := Nat.div_add_mod n d
  have hlt := Nat.mod_lt n hd
  have hsucc : d * (n / d + 1) = d * (n / d) + d := Nat.mul_succ _ _
  unfold roundHalfEven
  split
  · omega
  · split
    · rcases Nat.mod_two_eq_zero_or_one (n / d) with h0 | h1
      · rw [h0, Nat.add_zero]
        omega
      · rw [h1]
        omega
    · omega

/-- A rounded quotient reaches an even bound as soon as the quotient is half a unit below it. -/
theorem le_roundHalfEven_iff {b n d : Nat} (hd : 0 < d) (heven : b % 2 = 0) :
    b ≤ roundHalfEven n d ↔ 2 * (b * d) ≤ 2 * n + d := by
  have hn := Nat.div_add_mod n d
  have hlt := Nat.mod_lt n hd
  rw [Nat.mul_comm d] at hn
  -- only the whole part of the quotient matters, and on which side of a half the rest lies
  rcases (by omega : b ≤ n / d ∨ b = n / d + 1 ∨ n / d + 2 ≤ b) with hle | heq | hge
  · have hmul : b * d ≤ n / d * d := Nat.mul_le_mul_right d hle
    refine iff_of_true ?_ (by omega)
    unfold roundHalfEven
    split
    · exact hle
    · split <;> omega
  · have hmul : b * d = n / d * d + d := by rw [heq, Nat.succ_mul]
    unfold roundHalfEven
    split
    · omega
    · split <;> omega
  · have hmul : (n / d + 2) * d ≤ b * d := Nat.mul_le_mul_right d hge
    rw [Nat.add_mul] at hmul
    refine iff_of_false ?_ (by omega)
    unfold roundHalfEven
    split
    · omega
    · split <;> omega

/-! ## The places that are tried

  The loop goes from the most places down.  It ends at the first that fit, so all that have more do
  not. -/

/-- At places that are allowed, only too many digits keep a number from being a decimal. -/
theorem ofParts?_eq_none_iff {n : Bool} {m s : Nat} (hs : s ≤ 28) :
    ofParts? n m s = none ↔ twoTo 96 ≤ m := by
  unfold ofParts?
  split
  · rename_i h
    exact iff_of_false (Option.some_ne_none _) (Nat.not_le.mpr h.1)
  · rename_i h
    exact iff_of_true rfl (Nat.not_lt.mp fun hm => h ⟨hm, hs⟩)

/-- One more place is tried before all fewer ones. -/
theorem fitFrom_succ (n : Bool) (m s t : Nat) :
    fitFrom n m s (t + 1)
      = (ofParts? n (roundHalfEven m (tenTo (s - (t + 1)))) (t + 1)).or (fitFrom n m s t) := by
  rw [fitFrom]
  cases ofParts? n (roundHalfEven m (tenTo (s - (t + 1)))) (t + 1) <;> rfl

/-- What is found is the rounding at some places, and at more places no rounding fits. -/
theorem fitFrom_eq_some {n : Bool} {m s t : Nat} {x : Decimal} (h : fitFrom n m s t = some x) :
    x.negative = n ∧ x.scale ≤ t ∧ x.magnitude = roundHalfEven m (tenTo (s - x.scale)) ∧
      ∀ i, x.scale < i → i ≤ t → i ≤ 28 → twoTo 96 ≤ roundHalfEven m (tenTo (s - i)) := by
  induction t with
  | zero =>
    obtain ⟨hn, hm, hs⟩ := ofParts?_eq_some_iff.mp h
    refine ⟨hn, Nat.le_of_eq hs, ?_, fun i hi hi0 _ => by omega⟩
    rw [hm, hs, Nat.sub_zero]
  | succ t ih =>
    rw [fitFrom_succ] at h
    rcases Option.or_eq_some_iff.mp h with hx | ⟨hnone, hx⟩
    · obtain ⟨hn, hm, hs⟩ := ofParts?_eq_some_iff.mp hx
      refine ⟨hn, Nat.le_of_eq hs, ?_, fun i hi hit _ => by omega⟩
      rw [hm, hs]
    · obtain ⟨hn, hle, hm, habove⟩ := ih hx
      refine ⟨hn, Nat.le_succ_of_le hle, hm, ?_⟩
      intro i hi hit h28
      rcases Nat.lt_or_eq_of_le hit with hlt | rfl
      · exact habove i hi (Nat.le_of_lt_succ hlt) h28
      · exact (ofParts?_eq_none_iff h28).mp hnone

/-- Nothing is found exactly if no rounding fits. -/
theorem fitFrom_eq_none_iff {n : Bool} {m s t : Nat} (ht : t ≤ 28) :
    fitFrom n m s t = none ↔ ∀ i, i ≤ t → twoTo 96 ≤ roundHalfEven m (tenTo (s - i)) := by
  induction t with
  | zero =>
    rw [fitFrom, ofParts?_eq_none_iff ht]
    constructor
    · intro h i hi
      rw [Nat.le_zero.mp hi, Nat.sub_zero]
      exact h
    · intro h
      exact h 0 (Nat.le_refl 0)
  | succ t ih =>
    rw [fitFrom_succ, Option.or_eq_none_iff, ofParts?_eq_none_iff ht, ih (Nat.le_of_succ_le ht)]
    constructor
    · rintro ⟨htop, hrest⟩ i hi
      rcases Nat.lt_or_eq_of_le hi with hlt | rfl
      · exact hrest i (Nat.le_of_lt_succ hlt)
      · exact htop
    · intro h
      exact ⟨h _ (Nat.le_refl _), fun i hi => h i (Nat.le_succ_of_le hi)⟩

/-! ## The three laws of fitting

  All that other modules use of fitting. -/

/-- Fitting keeps the sign. -/
theorem fit_negative {n : Bool} {m s : Nat} {x : Decimal} (h : fit n m s = some x) :
    x.negative = n := (fitFrom_eq_some h).1

/-- A number does not fit exactly if it is at least `2^96 - 1/2`. -/
theorem fit_eq_none_iff {n : Bool} {m s : Nat} :
    fit n m s = none ↔ 2 * (twoTo 96 * tenTo s) ≤ 2 * m + tenTo s := by
  have hround : ∀ i, twoTo 96 ≤ roundHalfEven m (tenTo (s - i)) ↔
      2 * (twoTo 96 * tenTo (s - i)) ≤ 2 * m + tenTo (s - i) :=
    fun i => le_roundHalfEven_iff (tenTo_pos _) (by decide)
  rw [fit, fitFrom_eq_none_iff (Nat.min_le_right s 28)]
  constructor
  · intro h
    have h0 := (hround 0).mp (h 0 (Nat.zero_le _))
    rwa [Nat.sub_zero] at h0
  · intro h i _
    -- with more places the bound is further below the number
    refine (hround i).mpr ?_
    have hle : tenTo (s - i) ≤ tenTo s :=
      Nat.pow_le_pow_right (by decide) (Nat.sub_le s i)
    have hbig : (1 : Nat) ≤ twoTo 96 := twoTo_pos 96
    generalize twoTo 96 = b at *
    nlinarith

/-- What is lost is at most half a unit of the last place kept. -/
theorem fit_near {n : Bool} {m s : Nat} {x : Decimal} (h : fit n m s = some x) :
    2 * (tenTo (s - x.scale) * x.magnitude) ≤ 2 * m + tenTo (s - x.scale) ∧
      2 * m ≤ 2 * (tenTo (s - x.scale) * x.magnitude) + tenTo (s - x.scale) := by
  obtain ⟨-, -, hm, -⟩ := fitFrom_eq_some h
  rw [hm]
  exact roundHalfEven_near m (tenTo_pos _)

/-- And it adds no places. -/
theorem fit_scale_le {n : Bool} {m s : Nat} {x : Decimal} (h : fit n m s = some x) :
    x.scale ≤ s := Nat.le_trans (fitFrom_eq_some h).2.1 (Nat.min_le_left s 28)

/-- A number that some decimal has, `c / 10^k`, is kept as it is. -/
theorem fit_exact (n : Bool) {m s c k : Nat} (hc : c < twoTo 96) (hk : k ≤ 28)
    (h : m * tenTo k = c * tenTo s) :
    ∃ x, fit n m s = some x ∧ x.magnitude * tenTo s = m * tenTo x.scale := by
  -- the places of that decimal, or all there are, do
  obtain ⟨i, hi, hfits, hdvd⟩ : ∃ i, i ≤ min s 28 ∧
      roundHalfEven m (tenTo (s - i)) < twoTo 96 ∧ tenTo (s - i) ∣ m := by
    rcases Nat.le_total k s with hks | hsk
    · have hm : m = c * tenTo (s - k) := by
        refine Nat.eq_of_mul_eq_mul_right (tenTo_pos k) ?_
        rw [h, Nat.mul_assoc, ← tenTo_add, Nat.sub_add_cancel hks]
      have hd : tenTo (s - k) ∣ m := hm ▸ Nat.dvd_mul_left _ _
      refine ⟨k, Nat.le_min.mpr ⟨hks, hk⟩, ?_, hd⟩
      rw [roundHalfEven_of_dvd (tenTo_pos _) hd, hm, Nat.mul_div_cancel _ (tenTo_pos _)]
      exact hc
    · have hcm : m * tenTo (k - s) = c := by
        refine Nat.eq_of_mul_eq_mul_right (tenTo_pos s) ?_
        rw [← h, Nat.mul_assoc, ← tenTo_add, Nat.sub_add_cancel hsk]
      have hd : tenTo (s - s) ∣ m := by rw [Nat.sub_self]; exact Nat.one_dvd m
      refine ⟨s, Nat.le_min.mpr ⟨Nat.le_refl s, Nat.le_trans hsk hk⟩, ?_, hd⟩
      rw [roundHalfEven_of_dvd (tenTo_pos _) hd, Nat.sub_self, tenTo_zero, Nat.div_one]
      exact Nat.lt_of_le_of_lt (hcm ▸ Nat.le_mul_of_pos_right m (tenTo_pos _)) hc
  obtain ⟨x, hx⟩ : ∃ x, fit n m s = some x := by
    refine Option.ne_none_iff_exists'.mp ?_
    intro hnone
    exact absurd ((fitFrom_eq_none_iff (Nat.min_le_right s 28)).mp hnone i hi) (by omega)
  obtain ⟨-, hle, hm, habove⟩ := fitFrom_eq_some hx
  have hxi : i ≤ x.scale := by
    by_contra hlt
    have := habove i (Nat.lt_of_not_le hlt) hi (Nat.le_trans hi (Nat.min_le_right s 28))
    omega
  -- so only zeros are cut off
  have hxs : x.scale ≤ s := fit_scale_le hx
  have hd : tenTo (s - x.scale) ∣ m :=
    Nat.dvd_trans (Nat.pow_dvd_pow 10 (by omega)) hdvd
  refine ⟨x, hx, ?_⟩
  rw [hm, roundHalfEven_of_dvd (tenTo_pos _) hd]
  calc m / tenTo (s - x.scale) * tenTo s
      = m / tenTo (s - x.scale) * (tenTo (s - x.scale) * tenTo x.scale) := by
        rw [← tenTo_add, Nat.sub_add_cancel hxs]
    _ = m * tenTo x.scale := by rw [← Nat.mul_assoc, Nat.div_mul_cancel hd]

end Subledger.Decimal
