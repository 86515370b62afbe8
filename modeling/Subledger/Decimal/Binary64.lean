/-
  BINARY FRACTIONS on the way to decimals.

  A document may give an amount as a number instead of a text.  Such a number passes through a
  binary fraction of fifty-three bits before it becomes a decimal, and this module is that
  passage, in exact arithmetic on natural numbers:

  * `Binary64.ofRatio` rounds a ratio to the nearest binary fraction, a half to the even one;
  * `Binary64.scaled` reads `n * 10^e`: the number and the power of ten are each rounded first,
    and so is their product or quotient;
  * `Binary64.shortest` is the way back: the decimal with the fewest digits that rounds to this
    binary fraction, of two such the nearer one, of two equally near the larger one.
-/
import Subledger.Decimal.Arithmetic
import Subledger.Decimal.Reader

namespace Subledger

/-- The number `mant * 2^exp`.  Those made here have `mant < 2^53` and `-1074 ≤ exp`. -/
structure Binary64 where
  mant : Nat
  exp : Int
  deriving DecidableEq, Repr

namespace Binary64

/-- Zero, at the least exponent. -/
def zero : Binary64 := ⟨0, -1074⟩

/-- The numerator over the least power of two. -/
def num (x : Binary64) : Nat := x.mant * twoTo x.exp.toNat

/-- The power of two under `num`. -/
def den (x : Binary64) : Nat := twoTo (-x.exp).toNat

/-- Is `2^k * d ≤ n`? -/
def reaches (n d : Nat) (k : Int) : Bool := d * twoTo k.toNat ≤ n * twoTo (-k).toNat

/-- The exponent that leaves fifty-three bits of `n / d` in front of the binary point, or the least
    exponent if that is greater. -/
def exponentOf (n d : Nat) : Int :=
  let e : Int := (n.log2 : Int) - d.log2 - 53
  max (if reaches n d (e + 53) then e + 1 else e) (-1074)

/-- The binary fraction nearest to `n / d`; `none` if that is beyond the largest one. -/
def ofRatio (n d : Nat) : Option Binary64 :=
  if n = 0 then some zero
  else
    let e := exponentOf n d
    let m := Decimal.roundHalfEven (n * twoTo (-e).toNat) (d * twoTo e.toNat)
    let x : Binary64 := if m = twoTo 53 then ⟨twoTo 52, e + 1⟩ else ⟨m, e⟩
    if 971 < x.exp then none else some x

/-- The product, rounded. -/
def mul (x y : Binary64) : Option Binary64 := ofRatio (x.num * y.num) (x.den * y.den)

/-- The quotient, rounded. -/
def div (x y : Binary64) : Option Binary64 := ofRatio (x.num * y.den) (x.den * y.num)

/-- The power of ten, rounded; those up to `10^308` exist. -/
def tenPow (k : Nat) : Option Binary64 := ofRatio (tenTo k) 1

/-- `x / 10^k`, dividing by no more than `10^308` at a time. -/
def scaleDown (x : Binary64) (k : Nat) : Option Binary64 :=
  if x.mant = 0 then some x
  else if k ≤ 308 then (tenPow k).bind x.div
  else ((tenPow 308).bind x.div).bind fun y => scaleDown y (k - 308)
termination_by k
decreasing_by omega

/-- Reads `n * 10^e`; `none` if it is beyond the largest binary fraction. -/
def scaled (n : Nat) (e : Int) : Option Binary64 := do
  let x ← ofRatio n 1
  if x.mant = 0 then some x
  else if e < 0 then scaleDown x (-e).toNat
  else if e ≤ 308 then x.mul (← tenPow e.toNat)
  else none

/-! ## The shortest decimal -/

/-- Four times the distance between `x` and the middle to its lower neighbour, in units of
    `2^exp`.  Below a power of two the neighbour is only half as far away. -/
def lowerReach (x : Binary64) : Nat := if x.mant = twoTo 52 && -1074 < x.exp then 1 else 2

/-- Does `c * 10^k` round to `x`?  The middles themselves do when the mantissa is even. -/
def accepts (x : Binary64) (c : Nat) (k : Int) : Bool :=
  -- both sides over the common denominator `4 * 2^(-exp) * 10^(-k)`
  let v := 4 * c * tenTo k.toNat * twoTo (-x.exp).toNat
  let unit := twoTo x.exp.toNat * tenTo (-k).toNat
  let low := (4 * x.mant - lowerReach x) * unit
  let high := (4 * x.mant + 2) * unit
  if x.mant % 2 = 0 then low ≤ v && v ≤ high else low < v && v < high

/-- The last multiple of `10^k` that is not above `x`, as its coefficient. -/
def floorAt (x : Binary64) (k : Int) : Nat :=
  (x.num * tenTo (-k).toNat) / (x.den * tenTo k.toNat)

/-- Is `x` at least half way from `c * 10^k` to the next multiple of `10^k`? -/
def nearerAbove (x : Binary64) (c : Nat) (k : Int) : Bool :=
  (2 * c + 1) * (x.den * tenTo k.toNat) ≤ 2 * (x.num * tenTo (-k).toNat)

/-- The multiple of `10^k` that stands for `x`, if one does. -/
def shortestAt (x : Binary64) (k : Int) : Option (Nat × Int) :=
  let c := floorAt x k
  match c != 0 && accepts x c k, accepts x (c + 1) k with
  | true, true => some (if nearerAbove x c k then c + 1 else c, k)
  | true, false => some (c, k)
  | false, true => some (c + 1, k)
  | false, false => none

/-- Tries `10^k`, and then ever finer powers. -/
def shortestFrom (x : Binary64) (k : Int) : Nat → Nat × Int
  | 0 => (floorAt x k, k)
  | n + 1 => (shortestAt x k).getD (shortestFrom x (k - 1) n)

/-- The least power of ten above `x`, counted up from `10^k`. -/
def magnitude (x : Binary64) (k : Int) : Nat → Int
  | 0 => k
  | n + 1 => if floorAt x k = 0 then k else magnitude x (k + 1) n

/-- The shortest decimal `(c, k)`, meaning `c * 10^k`, that rounds to `x`.  Seventeen digits always
    do, so the search ends in time. -/
def shortest (x : Binary64) : Nat × Int :=
  if x.mant = 0 then (0, 0) else shortestFrom x (magnitude x (-330) 660) 20

/-- A number `c * 10^k` written out without an exponent. -/
def positional (c : Nat) (k : Int) : List Char :=
  if 0 ≤ k then Text.Digits.ofNat (c * tenTo k.toNat)
  else
    Text.Digits.ofNat (c / tenTo (-k).toNat) ++
      '.' :: Text.Digits.padded (-k).toNat (c % tenTo (-k).toNat)

/-- The text of a signed binary fraction. -/
def chars (negative : Bool) (x : Binary64) : List Char :=
  (if negative then ['-'] else []) ++ positional x.shortest.1 x.shortest.2

/-- The decimal that the text of a signed binary fraction reads as. -/
def toDecimal (negative : Bool) (x : Binary64) : Except Decimal.ReadError Decimal :=
  Decimal.read (chars negative x)

end Binary64
end Subledger
