/-
  DECIMALS: a sign, at most ninety-six bits of digits, and at most twenty-eight places.

  An amount keeps the number of places it was written with: `1.5` and `1.50` are two decimals of
  one value.  It keeps its sign as well: what was rounded away from below zero is `-0.00`, another
  decimal of the value of `0.00`.  `Decimal.same` compares values, `=` compares decimals, and
  `Decimal.normalize` picks the decimal with the fewest places, and no sign on a zero, among those
  of one value.  Both bounds are part of the type, so that every operation that could leave them
  must say what it does then.
-/
import Subledger.Power

namespace Subledger

/-- A decimal number with its places. -/
structure Decimal where
  /-- Does a minus sign stand before it?  Also a zero may have one. -/
  negative : Bool
  /-- Its digits without sign and point. -/
  magnitude : Nat
  /-- How many of its digits stand behind the point. -/
  scale : Nat
  magnitude_lt : magnitude < twoTo 96
  scale_le : scale ≤ 28
  deriving DecidableEq, Repr

namespace Decimal

/-- The number without its point: `coeff / 10^scale` is its value. -/
def coeff (x : Decimal) : Int := if x.negative then -(x.magnitude : Int) else x.magnitude

/-- The decimal of a sign, digits and places, if it is within the bounds. -/
def ofParts? (negative : Bool) (m s : Nat) : Option Decimal :=
  if h : m < twoTo 96 ∧ s ≤ 28 then some ⟨negative, m, s, h.1, h.2⟩ else none

/-- The decimal `c / 10^s`, if it is within the bounds; a zero has no sign. -/
def make? (c : Int) (s : Nat) : Option Decimal := ofParts? (c < 0) c.natAbs s

/-- Zero without places. -/
def zero : Decimal := ⟨false, 0, 0, by decide, by decide⟩

instance : Inhabited Decimal := ⟨zero⟩

/-- Is the value zero? -/
def isZero (x : Decimal) : Bool := x.magnitude == 0

/-- Is the value below zero? -/
def isNegative (x : Decimal) : Bool := x.negative && x.magnitude != 0

/-- Is the value above zero? -/
def isPositive (x : Decimal) : Bool := !x.negative && x.magnitude != 0

/-- The same decimal, but a zero loses its sign. -/
def plain (x : Decimal) : Decimal := { x with negative := x.isNegative }

/-- The same number with the other sign; a zero stays as it is. -/
def neg (x : Decimal) : Decimal := if x.isZero then x else { x with negative := !x.negative }

/-- The number without its sign. -/
def abs (x : Decimal) : Decimal := { x with negative := false }

/-- Equality of values: both sides brought to one denominator. -/
def same (x y : Decimal) : Bool := x.coeff * tenTo y.scale == y.coeff * tenTo x.scale

/-- Drops trailing zeros of a fraction of `s` places, for as long as there are any. -/
def stripZeros (m : Nat) : Nat → Nat × Nat
  | 0 => (m, 0)
  | s + 1 => if m % 10 = 0 then stripZeros (m / 10) s else (m, s + 1)

/-- Taking zeros off the end makes neither the magnitude nor the scale greater, so a decimal that is
    in range stays in range. -/
theorem stripZeros_bounds (m s : Nat) : (stripZeros m s).1 ≤ m ∧ (stripZeros m s).2 ≤ s := by
  induction s generalizing m with
  | zero => simp [stripZeros]
  | succ s ih =>
    rw [stripZeros]
    split
    · have h := ih (m / 10)
      omega
    · simp

/-- The decimal of the same value with the fewest places, and without a sign if it is zero. -/
def normalize (x : Decimal) : Decimal :=
  ⟨x.isNegative, (stripZeros x.magnitude x.scale).1, (stripZeros x.magnitude x.scale).2,
    Nat.lt_of_le_of_lt (stripZeros_bounds x.magnitude x.scale).1 x.magnitude_lt,
    Nat.le_trans (stripZeros_bounds x.magnitude x.scale).2 x.scale_le⟩

/-! ## What the parts say about the value -/

/-- The coefficient is the signed form of the magnitude; a signed zero has the coefficient zero. -/
theorem coeff_natAbs (x : Decimal) : x.coeff.natAbs = x.magnitude := by
  unfold coeff
  split <;> simp

theorem isZero_iff (x : Decimal) : x.isZero = true ↔ x.coeff = 0 := by
  rw [isZero, beq_iff_eq, ← coeff_natAbs, Int.natAbs_eq_zero]

/-- The sign alone does not make a decimal negative: a zero with a sign is not. -/
theorem isNegative_iff (x : Decimal) : x.isNegative = true ↔ x.coeff < 0 := by
  rw [isNegative, coeff, Bool.and_eq_true, bne_iff_ne]
  by_cases hn : x.negative = true
  · rw [if_pos hn]
    exact ⟨fun h => by omega, fun h => ⟨hn, by omega⟩⟩
  · rw [if_neg hn]
    exact ⟨fun h => absurd h.1 hn, fun h => by omega⟩

theorem isPositive_iff (x : Decimal) : x.isPositive = true ↔ 0 < x.coeff := by
  rw [isPositive, coeff, Bool.and_eq_true, Bool.not_eq_true', bne_iff_ne]
  cases hn : x.negative with
  | true =>
    rw [if_pos rfl]
    exact ⟨fun h => absurd h.1 (by decide), fun h => by omega⟩
  | false =>
    rw [if_neg (by decide)]
    exact ⟨fun h => by omega, fun h => ⟨rfl, by omega⟩⟩

/-- The plain form, without a sign at zero, has the same coefficient and so the same value. -/
theorem coeff_plain (x : Decimal) : x.plain.coeff = x.coeff := by
  unfold plain coeff isNegative
  cases x.negative <;> by_cases h : x.magnitude = 0 <;> simp [h]

theorem coeff_neg (x : Decimal) : x.neg.coeff = -x.coeff := by
  unfold neg
  split
  · rename_i h
    rw [(isZero_iff x).1 h]
    rfl
  · unfold coeff
    cases x.negative <;> simp

theorem coeff_abs (x : Decimal) : x.abs.coeff = x.coeff.natAbs := by
  rw [coeff_natAbs]
  rfl

/-- The parts of a decimal that was put together are the parts that were given. -/
theorem ofParts?_eq_some_iff {n : Bool} {m s : Nat} {x : Decimal} :
    ofParts? n m s = some x ↔ x.negative = n ∧ x.magnitude = m ∧ x.scale = s := by
  unfold ofParts?
  split
  · constructor
    · intro hx
      obtain rfl := Option.some.inj hx
      exact ⟨rfl, rfl, rfl⟩
    · intro hx
      obtain ⟨rfl, rfl, rfl⟩ := hx
      rfl
  · rename_i h
    constructor
    · intro hx
      exact absurd hx (by simp)
    · intro hx
      obtain ⟨rfl, rfl, rfl⟩ := hx
      exact absurd ⟨x.magnitude_lt, x.scale_le⟩ h

/-- What is put together has the coefficient and the scale it was given, the sign of a zero apart.
    -/
theorem coeff_of_ofParts? {n : Bool} {m s : Nat} {x : Decimal} (h : ofParts? n m s = some x) :
    x.coeff = (if n then -(m : Int) else m) ∧ x.scale = s := by
  obtain ⟨rfl, rfl, rfl⟩ := ofParts?_eq_some_iff.1 h
  exact ⟨rfl, rfl⟩

/-- What `make?` makes has the value that was asked for. -/
theorem coeff_of_make? {c : Int} {s : Nat} {x : Decimal} (h : make? c s = some x) :
    x.coeff = c ∧ x.scale = s := by
  obtain ⟨hc, hs⟩ := coeff_of_ofParts? h
  refine ⟨hc.trans ?_, hs⟩
  by_cases hn : c < 0
  · simp only [hn, decide_true, if_true]
    omega
  · simp only [hn, decide_false]
    rw [if_neg (by decide)]
    omega

/-- A coefficient and a scale make a decimal exactly if ninety-six bits hold the one and it has at
    most 28 places. -/
theorem make?_isSome_iff {c : Int} {s : Nat} :
    (make? c s).isSome = true ↔ c.natAbs < twoTo 96 ∧ s ≤ 28 := by
  unfold make? ofParts?
  split <;> simp_all

/-! ## Normal forms -/

/-- Stripping keeps the value. -/
theorem stripZeros_value (m s : Nat) :
    (stripZeros m s).1 * tenTo (s - (stripZeros m s).2) = m := by
  induction s generalizing m with
  | zero => simp [stripZeros, tenTo_zero]
  | succ s ih =>
    rw [stripZeros]
    split
    · have hle := (stripZeros_bounds (m / 10) s).2
      rw [Nat.succ_sub hle, tenTo_succ, ← Nat.mul_assoc, ih]
      omega
    · simp [tenTo_zero]

/-- What is stripped has nothing left to strip. -/
theorem stripZeros_idem (m s : Nat) :
    stripZeros (stripZeros m s).1 (stripZeros m s).2 = stripZeros m s := by
  induction s generalizing m with
  | zero => rfl
  | succ s ih =>
    by_cases h : m % 10 = 0
    · simp only [stripZeros, h, if_true, ih]
    · simp only [stripZeros, h, if_false]

/-- Stripping leaves zero only of zero. -/
theorem stripZeros_eq_zero_iff (m s : Nat) : (stripZeros m s).1 = 0 ↔ m = 0 := by
  induction s generalizing m with
  | zero => exact Iff.rfl
  | succ s ih =>
    rw [stripZeros]
    split
    · rw [ih]
      omega
    · exact Iff.rfl

/-- Normalizing takes zeros off the end and a sign off zero; none of the three questions about the
    sign sees it. -/
theorem isZero_normalize (x : Decimal) : x.normalize.isZero = x.isZero :=
  Bool.eq_iff_iff.2 (beq_iff_eq.trans ((stripZeros_eq_zero_iff _ _).trans beq_iff_eq.symm))

theorem isNegative_normalize (x : Decimal) : x.normalize.isNegative = x.isNegative := by
  have h : (x.normalize.magnitude == 0) = (x.magnitude == 0) := isZero_normalize x
  unfold isNegative bne
  rw [h, normalize, isNegative, bne, Bool.and_assoc, Bool.and_self]

theorem isPositive_normalize (x : Decimal) : x.normalize.isPositive = x.isPositive := by
  have h : (x.normalize.magnitude == 0) = (x.magnitude == 0) := isZero_normalize x
  unfold isPositive bne
  rw [h, normalize, isNegative, bne]
  cases x.negative <;> cases x.magnitude == 0 <;> rfl

/-- A normal form is its own normal form, so it can be compared for the value. -/
theorem normalize_idem (x : Decimal) : x.normalize.normalize = x.normalize := by
  have h := isNegative_normalize x
  unfold normalize at h ⊢
  simp only [stripZeros_idem, h]

end Decimal
end Subledger
