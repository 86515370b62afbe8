/-
  ROUNDING TWICE: when a number that was rounded before is rounded as the exact one would be.

  A rounding to `k` places is told by the half-way points: by which of them the number lies under.  So
  a number that was rounded before comes out right exactly if no half-way point parts it from the
  exact one.

  1. **Sides** (`rounded_eq_iff`) — two numbers are rounded alike exactly if they lie under the same
     half-way points.
  2. **More places first** (`rounded_rounded_eq_iff`) — a first rounding to at least as many places
     does not step over a half-way point, but it may come to lie on one.  The crux is that a
     half-way point has one place more only, so that it is its own rounding.
  3. **What is kept first** (`rounded_kept_eq_iff`) — where there is no room for the places, the right
     rounding is no decimal at all, or what is kept has it already.
-/
import Subledger.Proofs.Decimal.Rounding

namespace Subledger.Decimal

/-! ## Sides

  Rounding is monotone, so all that it does to a number is told by the half-way points that it has
  on each side.  A tie belongs to the side of its even neighbour. -/

/-- The rounding is at most `n` below the half-way point behind `n`, and on it where `n` is even. -/
theorem halfEven_le_iff {q : ℚ} {n : ℤ} :
    halfEven q ≤ n ↔ q < (n : ℚ) + 1 / 2 ∨ (q = (n : ℚ) + 1 / 2 ∧ Even n) := by
  obtain ⟨hnear, heven⟩ := halfEven_spec q
  obtain ⟨hlow, hhigh⟩ := abs_le.mp hnear
  constructor
  · intro hle
    have hleq : (halfEven q : ℚ) ≤ n := by exact_mod_cast hle
    rcases lt_or_eq_of_le (by linarith : q ≤ (n : ℚ) + 1 / 2) with hlt | heq
    · exact Or.inl hlt
    · have hn : halfEven q = n := by exact_mod_cast (by linarith : (halfEven q : ℚ) = n)
      refine Or.inr ⟨heq, hn ▸ heven ?_⟩
      rw [hn, heq, add_sub_cancel_left, abs_of_pos (by norm_num)]
  · intro hside
    by_contra hgt
    have hsucc : (n : ℚ) + 1 ≤ halfEven q := by exact_mod_cast not_le.mp hgt
    rcases hside with hlt | ⟨heq, hn⟩
    · linarith
    · -- the rounding would be the odd neighbour of the two
      have hup : halfEven q = n + 1 := by
        exact_mod_cast (by linarith : (halfEven q : ℚ) = n + 1)
      have hodd : Even (n + 1) := by
        rw [← hup]
        refine heven ?_
        rw [hup, heq]
        push_cast
        rw [abs_of_neg (by linarith)]
        ring
      exact Int.not_even_iff_odd.mpr hn.add_one hodd

/-- Rounding does not turn two numbers around. -/
theorem halfEven_mono {p q : ℚ} (h : p ≤ q) : halfEven p ≤ halfEven q := by
  refine halfEven_le_iff.mpr ?_
  rcases halfEven_le_iff.mp (le_refl (halfEven q)) with hlt | ⟨heq, heven⟩
  · exact Or.inl (h.trans_lt hlt)
  · rcases lt_or_eq_of_le (heq ▸ h) with hlt | htie
    · exact Or.inl hlt
    · exact Or.inr ⟨htie, heven⟩

/-- Nor does it at any number of places. -/
theorem rounded_mono (k : Nat) {p q : ℚ} (h : p ≤ q) : rounded k p ≤ rounded k q := by
  have hscaled := mul_le_mul_of_nonneg_right h (cast_tenTo_pos k).le
  exact div_le_div_of_nonneg_right (by exact_mod_cast halfEven_mono hscaled) (cast_tenTo_pos k).le

/-- What is kept of a number that is not negative is not negative. -/
theorem kept_nonneg {q : ℚ} (h : 0 ≤ q) : 0 ≤ kept q := by
  have hzero : rounded (places q) 0 = 0 := rounded_of_int (c := 0) (by rw [zero_mul, Int.cast_zero])
  exact hzero ▸ rounded_mono (places q) h

/-- A sum of what is not below zero is not rounded to below zero. -/
theorem add?_nonneg {x y z : Decimal} (h : x.add? y = some z) (hx : 0 ≤ x.value)
    (hy : 0 ≤ y.value) : 0 ≤ z.value := by
  rw [value_of_add?_eq_kept h]
  exact kept_nonneg (add_nonneg hx hy)

/-- The number lies half-way between two neighbours of `k` places. -/
def HalfWay (k : Nat) (h : ℚ) : Prop := ∃ n : ℤ, h * tenTo k = (n : ℚ) + 1 / 2

/-- The number is rounded to below the half-way point `h`: it lies below, or on it where it is rounded
    down. -/
def Under (k : Nat) (h q : ℚ) : Prop := q < h ∨ (q = h ∧ rounded k h < h)

/-- Whether a number lies under a half-way point is what its rounding says. -/
theorem under_iff {k : Nat} {h q : ℚ} {n : ℤ} (hn : h * tenTo k = (n : ℚ) + 1 / 2) :
    Under k h q ↔ halfEven (q * tenTo k) ≤ n := by
  have hpos := cast_tenTo_pos k
  have hlt : q < h ↔ q * tenTo k < (n : ℚ) + 1 / 2 := by rw [← hn, mul_lt_mul_iff_left₀ hpos]
  have heq : q = h ↔ q * tenTo k = (n : ℚ) + 1 / 2 := by rw [← hn, mul_left_inj' hpos.ne']
  have hdown : rounded k h < h ↔ Even n := by
    have hside := halfEven_le_iff (q := h * tenTo k) (n := n)
    rw [hn, or_iff_right (lt_irrefl _), and_iff_right rfl] at hside
    rw [rounded, div_lt_iff₀ hpos, hn, ← hside, ← Int.lt_add_one_iff]
    constructor
    · intro h
      exact_mod_cast (by linarith : (halfEven ((n : ℚ) + 1 / 2) : ℚ) < (n : ℚ) + 1)
    · intro h
      have hle : (halfEven ((n : ℚ) + 1 / 2) : ℚ) ≤ n := by exact_mod_cast Int.lt_add_one_iff.mp h
      linarith
  rw [halfEven_le_iff, Under, hlt, heq, hdown]

/-- Two numbers are rounded alike exactly if they lie under the same half-way points. -/
theorem rounded_eq_iff {k : Nat} {p q : ℚ} :
    rounded k p = rounded k q ↔ ∀ h, HalfWay k h → (Under k h p ↔ Under k h q) := by
  have hpos := cast_tenTo_pos k
  rw [rounded, rounded, div_left_inj' hpos.ne', Int.cast_inj]
  constructor
  · rintro heq h ⟨n, hn⟩
    rw [under_iff hn, under_iff hn, heq]
  · intro hsides
    have hall : ∀ n, halfEven (p * tenTo k) ≤ n ↔ halfEven (q * tenTo k) ≤ n := by
      intro n
      have hn : ((n : ℚ) + 1 / 2) / tenTo k * tenTo k = (n : ℚ) + 1 / 2 :=
        div_mul_cancel₀ _ hpos.ne'
      rw [← under_iff hn, ← under_iff hn]
      exact hsides _ ⟨n, hn⟩
    exact le_antisymm ((hall _).mpr le_rfl) ((hall _).mp le_rfl)

/-! ## More places first

  The neighbours of a half-way point at more places are no obstacle: the point itself is a number of
  those places and stays where it is.  So rounding there cannot step over it. -/

/-- The rounded number `z` lies half-way and is rounded away from the exact one. -/
def Misled (k : Nat) (p z : ℚ) : Prop := HalfWay k z ∧ z ≠ p ∧ (z < p ↔ rounded k z < z)

/-- A half-way point of fewer places is its own rounding. -/
theorem HalfWay.rounded_eq {k t : Nat} {h : ℚ} (hh : HalfWay k h) (hkt : k < t) :
    rounded t h = h := by
  obtain ⟨n, hn⟩ := hh
  have hnext : h * tenTo (k + 1) = ((10 * n + 5 : ℤ) : ℚ) := by
    rw [tenTo_succ]
    push_cast
    rw [← mul_assoc, hn]
    ring
  exact rounded_of_int (exists_int_of_le hnext hkt)

/-- A number that was misled is rounded to another neighbour than the exact one. -/
theorem Misled.rounded_ne {k : Nat} {p z : ℚ} (h : Misled k p z) : rounded k z ≠ rounded k p := by
  obtain ⟨hhalf, hne, hside⟩ := h
  intro heq
  have hunder := rounded_eq_iff.mp heq z hhalf
  rw [Under, Under, or_iff_right (lt_irrefl z), and_iff_right rfl,
    or_iff_left (fun h => hne h.1.symm), ← hside] at hunder
  rcases lt_or_gt_of_ne hne with hlt | hgt
  · exact lt_asymm hlt (hunder.mp hlt)
  · exact lt_asymm hgt (hunder.mpr hgt)

/-- A rounding to at least as many places before changes the outcome only by misleading it. -/
theorem rounded_rounded_eq_iff {k t : Nat} {p : ℚ} (hkt : k ≤ t) :
    rounded k (rounded t p) = rounded k p ↔ ¬Misled k p (rounded t p) := by
  refine ⟨fun heq hmis => hmis.rounded_ne heq, fun hok => ?_⟩
  rcases Nat.eq_or_lt_of_le hkt with rfl | hlt
  · exact rounded_of_int (rounded_mul_tenTo k p)
  · refine rounded_eq_iff.mpr fun h hhalf => ?_
    have hfix := hhalf.rounded_eq hlt
    have hbelow : p ≤ h → rounded t p ≤ h := fun hle => hfix ▸ rounded_mono t hle
    have habove : h ≤ p → h ≤ rounded t p := fun hle => by
      have hmono := rounded_mono t hle
      rwa [hfix] at hmono
    rcases lt_trichotomy (rounded t p) h with hz | hz | hz
    · exact iff_of_true (Or.inl hz) (Or.inl (not_le.mp fun hle => not_lt.mpr (habove hle) hz))
    · -- it lies half-way: the exact number is there too, or on the side to which it is rounded
      subst hz
      by_cases hp : rounded t p = p
      · rw [hp]
      · rw [Under, Under, or_iff_right (lt_irrefl _), and_iff_right rfl,
          or_iff_left (fun h => hp h.1.symm)]
        have hside : ¬(rounded t p < p ↔ rounded k (rounded t p) < rounded t p) :=
          fun h => hok ⟨hhalf, hp, h⟩
        rcases lt_or_gt_of_ne hp with hlt | hgt
        · rw [iff_true_left hlt] at hside
          exact iff_of_false hside (lt_asymm hlt)
        · rw [iff_false_left (lt_asymm hgt), not_not] at hside
          exact iff_of_true hside hgt
    · have hph : h < p := not_le.mp fun hle => not_lt.mpr (hbelow hle) hz
      refine iff_of_false ?_ ?_
      · rintro (hlt | ⟨heq, -⟩)
        · exact lt_asymm hz hlt
        · exact hz.ne' heq
      · rintro (hlt | ⟨heq, -⟩)
        · exact lt_asymm hph hlt
        · exact hph.ne' heq

/-! ## What is kept first

  What is kept is a rounding at the greatest number of places for which there is room.  Either these
  are enough, and the section before applies, or the right answer has no room either. -/

/-- A rounded number for which there is room is a decimal. -/
theorem representable_rounded {k : Nat} {p : ℚ} (hk : k ≤ 28) (h : HasRoom k p) :
    Representable (rounded k p) := by
  refine representable_iff.mpr ⟨halfEven (p * tenTo k), k, ?_, hk, rounded_mul_tenTo k p⟩
  rw [HasRoom, Int.abs_eq_natAbs] at h
  exact_mod_cast h

/-- A rounding to places for which there is no room is a decimal only if it has fewer places. -/
theorem exists_places_of_representable {k : Nat} {p : ℚ} (hroom : ¬HasRoom k p)
    (hrep : Representable (rounded k p)) :
    ∃ (c : ℤ) (j : Nat), j < k ∧ |c| < twoTo 96 ∧ rounded k p * tenTo j = c := by
  obtain ⟨c, j, hc, -, hcj⟩ := representable_iff.mp hrep
  have habs : |c| < twoTo 96 := by
    rw [Int.abs_eq_natAbs]
    exact_mod_cast hc
  refine ⟨c, j, ?_, habs, hcj⟩
  by_contra hjk
  -- with more places than `k` its digits would be no fewer
  have hgrow : |halfEven (p * tenTo k)| ≤ |c| := by
    have hscale : (tenTo k : ℚ) ≤ tenTo j := by
      exact_mod_cast Nat.pow_le_pow_right (by decide) (Nat.le_of_not_lt hjk)
    have hle := mul_le_mul_of_nonneg_left hscale (abs_nonneg (rounded k p))
    rw [← abs_of_pos (cast_tenTo_pos k), ← abs_of_pos (cast_tenTo_pos j), ← abs_mul, ← abs_mul, hcj,
      rounded_mul_tenTo] at hle
    exact_mod_cast hle
  exact hroom (hgrow.trans_lt habs)

/-- A number is near to its rounding also in units of fewer places. -/
theorem halfEven_of_rounded {j k : Nat} {p : ℚ} {c : ℤ} (hjk : j < k)
    (hc : rounded k p * tenTo j = c) : halfEven (p * tenTo j) = c := by
  have hten : (tenTo j : ℚ) * 10 ≤ tenTo k := by
    rw [← Nat.cast_ofNat, ← Nat.cast_mul, ← tenTo_succ]
    exact_mod_cast Nat.pow_le_pow_right (by decide) hjk
  have hnear := abs_sub_rounded_le k p
  have hscaled := mul_le_mul_of_nonneg_left hten (abs_nonneg (p - rounded k p))
  refine halfEven_of_lt ?_
  rw [← hc, ← sub_mul, abs_mul, abs_of_pos (cast_tenTo_pos j)]
  linarith

/-- Where there is no room for the places, what is kept is the right rounding exactly if that is a
    decimal. -/
theorem kept_eq_rounded_iff {k : Nat} {p : ℚ} (hroom : HasRoom 0 p) (hk : k ≤ 28)
    (hlt : places p < k) : kept p = rounded k p ↔ Representable (rounded k p) := by
  refine ⟨fun h => h ▸ representable_kept hroom, fun hrep => ?_⟩
  have hnone : ¬HasRoom k p := fun h => not_lt.mpr (le_places hk h) hlt
  obtain ⟨c, j, hjk, hc, hcj⟩ := exists_places_of_representable hnone hrep
  have hj : j ≤ places p := by
    refine le_places (hjk.le.trans hk) ?_
    rw [HasRoom, halfEven_of_rounded hjk hcj]
    exact hc
  have hfull := exists_int_of_le hcj hj
  rw [kept, rounded, halfEven_of_rounded hlt hfull, ← hfull]
  exact mul_div_cancel_right₀ _ (cast_tenTo_ne_zero _)

/-- What is kept of a number is rounded as the number itself, exactly if some decimal has the right
    rounding and the rounding is not misled. -/
theorem rounded_kept_eq_iff {k : Nat} {p : ℚ} (hroom : HasRoom 0 p) (hk : k ≤ 28) :
    rounded k (kept p) = rounded k p ↔
      Representable (rounded k p) ∧ ¬Misled k p (kept p) := by
  rcases Nat.lt_or_ge (places p) k with hlt | hge
  · have hint := exists_int_of_le (rounded_mul_tenTo (places p) p) hlt.le
    have hfix : rounded k (kept p) = kept p := rounded_of_int hint
    have hok : ¬Misled k p (kept p) := by
      rintro ⟨⟨n, hn⟩, -⟩
      have hfrac : ((halfEven (p * tenTo (places p)) * tenTo (k - places p) : ℤ) : ℚ)
          = (n : ℚ) + 1 / 2 := hint.symm.trans hn
      have hodd : 2 * (halfEven (p * tenTo (places p)) * tenTo (k - places p)) = 2 * n + 1 := by
        exact_mod_cast (by linarith : 2 * ((halfEven (p * tenTo (places p))
          * tenTo (k - places p) : ℤ) : ℚ) = 2 * n + 1)
      omega
    rw [hfix, and_iff_left hok]
    exact kept_eq_rounded_iff hroom hk hlt
  · have hrep := representable_rounded hk ((hasRoom_places hroom).of_le hge)
    rw [and_iff_right hrep]
    exact rounded_rounded_eq_iff hge

/-- Where the whole part is too large, also no rounding is a decimal. -/
theorem not_representable_rounded {k : Nat} {p : ℚ} (hk : 0 < k)
    (hlarge : (twoTo 96 : ℚ) - 1 / 2 ≤ |p|) : ¬Representable (rounded k p) := by
  rintro ⟨x, hx⟩
  have hten : (10 : ℚ) ≤ tenTo k := by
    exact_mod_cast Nat.pow_le_pow_right (by decide : 1 ≤ 10) hk
  have hnear := abs_sub_rounded_le k p
  have hscaled := mul_le_mul_of_nonneg_left hten (abs_nonneg (p - rounded k p))
  have hsplit : |p| ≤ |p - rounded k p| + |rounded k p| := by
    have habs := abs_add_le (p - rounded k p) (rounded k p)
    rwa [sub_add_cancel] at habs
  have hbound := abs_value_le x
  rw [hx] at hbound
  linarith

end Subledger.Decimal
