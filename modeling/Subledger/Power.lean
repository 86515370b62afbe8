/-
  POWERS of ten and of two, by the names under which the bounds and places of numbers use them.
-/

namespace Subledger

/-- `10^k`, the weight of the last of `k` decimal places. -/
def tenTo (k : Nat) : Nat := Nat.pow 10 k

/-- `2^k`, the count of numbers of `k` bits. -/
def twoTo (k : Nat) : Nat := Nat.pow 2 k

theorem tenTo_zero : tenTo 0 = 1 := rfl

theorem tenTo_succ (k : Nat) : tenTo (k + 1) = tenTo k * 10 := rfl

theorem tenTo_pos (k : Nat) : 0 < tenTo k := Nat.pow_pos (by decide)

theorem twoTo_pos (k : Nat) : 0 < twoTo k := Nat.pow_pos (by decide)

theorem tenTo_add (j k : Nat) : tenTo (j + k) = tenTo j * tenTo k := Nat.pow_add 10 j k

end Subledger
