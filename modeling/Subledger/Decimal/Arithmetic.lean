/-
  ARITHMETIC ON DECIMALS: exact where the result fits, correctly rounded where it does not.

  The exact result of an operation may have too many places or too many bits.  `Decimal.fit` gives
  up its last places, as few as will do, rounding to the nearest and a half to the even neighbour;
  a whole part of more than ninety-six bits does not fit at all.

  Three things show in the answers.  A zero is a neutral element of addition that leaves the other
  side as it is written, and a factor that makes the product a zero without sign or places.  A
  product of two short factors with too many places is zero at once.  And a product of a longer
  factor keeps its sign even if rounding leaves nothing of its digits.
-/
import Subledger.Decimal.Basic

namespace Subledger.Decimal

/-- `n / d` to the nearest whole number, a half to the even one. -/
def roundHalfEven (n d : Nat) : Nat :=
  if 2 * (n % d) < d then n / d
  else if 2 * (n % d) = d then n / d + n / d % 2
  else n / d + 1

theorem roundHalfEven_le (n d : Nat) (hd : 0 < d) : roundHalfEven n d ≤ n := by
  have hn := Nat.div_add_mod n d
  have hq : n / d ≤ d * (n / d) := Nat.le_mul_of_pos_left _ hd
  unfold roundHalfEven
  split
  · omega
  · split <;> omega

/-- The exact number of digits `m` and `s` places with as many places as fit, trying `t` places
    first. -/
def fitFrom (negative : Bool) (m s : Nat) : Nat → Option Decimal
  | 0 => ofParts? negative (roundHalfEven m (tenTo s)) 0
  | t + 1 =>
    match ofParts? negative (roundHalfEven m (tenTo (s - (t + 1)))) (t + 1) with
    | some x => some x
    | none => fitFrom negative m s t

/-- The exact number of digits `m` and `s` places with as many of its places as fit; `none` if its
    whole part alone is too large. -/
def fit (negative : Bool) (m s : Nat) : Option Decimal := fitFrom negative m s (min s 28)

/-- The sum, or `none` on overflow. -/
def add? (x y : Decimal) : Option Decimal :=
  if x.isZero then some y
  else if y.isZero then some x
  else
    let s := max x.scale y.scale
    let sum := x.coeff * tenTo (s - x.scale) + y.coeff * tenTo (s - y.scale)
    fit (sum < 0) sum.natAbs s

/-- The difference, or `none` on overflow. -/
def sub? (x y : Decimal) : Option Decimal := add? x y.neg

/-- Are its digits a number of thirty-two bits? -/
def isShort (x : Decimal) : Bool := x.magnitude < twoTo 32

/-- The product, or `none` on overflow. -/
def mul? (x y : Decimal) : Option Decimal :=
  if x.isZero || y.isZero then some zero
  else
    let s := x.scale + y.scale
    let product := fit (x.negative != y.negative) (x.magnitude * y.magnitude) s
    if x.isShort && y.isShort then
      if 47 < s then some zero else product.map plain
    else product

/-- The number with at most `places` places, a half rounded to the even neighbour.  A zero keeps its
    sign, and what becomes zero here has none. -/
def roundTo (places : Nat) (x : Decimal) : Decimal :=
  if h : places < x.scale then
    let rounded : Decimal :=
      ⟨x.negative, roundHalfEven x.magnitude (tenTo (x.scale - places)), places,
        Nat.lt_of_le_of_lt (roundHalfEven_le _ _ (tenTo_pos _)) x.magnitude_lt,
        Nat.le_of_lt (Nat.lt_of_lt_of_le h x.scale_le)⟩
    if x.isZero then rounded else rounded.plain
  else x

end Subledger.Decimal
