/-
  UTF-8, as lists of bytes.

  A file is bytes and a text is characters; `Utf8.encode` goes one way and `Utf8.symbols` the
  other.  Reading never fails as a whole: a byte that belongs to no character becomes `none` and
  the next byte is looked at afresh, so that an ASCII character is never swallowed by a damaged
  neighbour.  That is what lets a reader of structured text judge damage where it stands.

  `Utf8.decode?` accepts well-formed texts only, and `Utf8.fault?` says where and how the first
  damaged one fails: after `index` good bytes, either a run of bytes that starts no character or
  a character that the end of the text cuts off.
-/

namespace Subledger.Text.Utf8

/-- The bytes of a text. -/
def encode (cs : List Char) : List UInt8 := cs.flatMap String.utf8EncodeChar

/-- What the bytes at one place are. -/
inductive Lead where
  /-- A character that takes `extra` bytes after its first. -/
  | char (c : Char) (extra : Nat)
  /-- No character: `length` bytes could still have begun one, and what follows cannot go on. -/
  | broken (length : Nat)
  /-- The text ends before the character does. -/
  | cut
  deriving DecidableEq, Repr

/-- A byte that goes on with a character: `10xxxxxx`. -/
def isTail (b : UInt8) : Bool := 0x80 ≤ b.toNat && b.toNat ≤ 0xBF

/-- The second bytes that a first byte of three or four allows.  The narrowed ones shut out the
    forms that are longer than need be, the surrogates, and what lies above U+10FFFF. -/
def allowsSecond (a b : UInt8) : Bool :=
  if a == 0xE0 then 0xA0 ≤ b.toNat && b.toNat ≤ 0xBF
  else if a == 0xED then 0x80 ≤ b.toNat && b.toNat ≤ 0x9F
  else if a == 0xF0 then 0x90 ≤ b.toNat && b.toNat ≤ 0xBF
  else if a == 0xF4 then 0x80 ≤ b.toNat && b.toNat ≤ 0x8F
  else isTail b

/-- The payload of a continuation byte. -/
def tailBits (b : UInt8) : Nat := b.toNat % 64

/-- The character whose first byte is `a`, if one stands there. -/
def lead (a : UInt8) (rest : List UInt8) : Lead :=
  if a.toNat < 0x80 then .char (Char.ofNat a.toNat) 0
  else if 0xC2 ≤ a.toNat && a.toNat ≤ 0xDF then
    match rest with
    | [] => .cut
    | b :: _ =>
      if isTail b then .char (Char.ofNat (a.toNat % 32 * 64 + tailBits b)) 1 else .broken 1
  else if 0xE0 ≤ a.toNat && a.toNat ≤ 0xEF then
    match rest with
    | [] => .cut
    | b :: rest =>
      if allowsSecond a b then
        match rest with
        | [] => .cut
        | c :: _ =>
          if isTail c then
            .char (Char.ofNat ((a.toNat % 16 * 64 + tailBits b) * 64 + tailBits c)) 2
          else .broken 2
      else .broken 1
  else if 0xF0 ≤ a.toNat && a.toNat ≤ 0xF4 then
    match rest with
    | [] => .cut
    | b :: rest =>
      if allowsSecond a b then
        match rest with
        | [] => .cut
        | c :: rest =>
          if isTail c then
            match rest with
            | [] => .cut
            | d :: _ =>
              if isTail d then
                .char (Char.ofNat (((a.toNat % 8 * 64 + tailBits b) * 64 + tailBits c) * 64
                  + tailBits d)) 3
              else .broken 3
          else .broken 2
      else .broken 1
  else .broken 1

/-- The characters of a text, with `none` for each byte that belongs to none. -/
def symbols : List UInt8 → List (Option Char)
  | [] => []
  | a :: rest =>
    match lead a rest with
    | .char c extra => some c :: symbols (rest.drop extra)
    | .broken _ | .cut => none :: symbols rest
termination_by bs => bs.length
decreasing_by all_goals (simp only [List.length_drop, List.length_cons]; omega)

/-- The text, if all its bytes belong to characters. -/
def decode? (bs : List UInt8) : Option (List Char) := (symbols bs).mapM id

/-- Where and how a text is damaged. -/
inductive Fault where
  /-- `length` bytes from `index` on start no character. -/
  | broken (index length : Nat)
  /-- The character that starts at `index` is cut off by the end. -/
  | cut (index : Nat)
  deriving DecidableEq, Repr

/-- The wording of a damage report. -/
def Fault.message : Fault → String
  | .broken i n => s!"invalid utf-8 sequence of {n} bytes from index {i}"
  | .cut i => s!"incomplete utf-8 byte sequence from index {i}"

/-- The first damage, counting bytes from `index`. -/
def faultFrom (index : Nat) : List UInt8 → Option Fault
  | [] => none
  | a :: rest =>
    match lead a rest with
    | .char _ extra => faultFrom (index + 1 + extra) (rest.drop extra)
    | .broken n => some (.broken index n)
    | .cut => some (.cut index)
termination_by bs => bs.length
decreasing_by simp only [List.length_drop, List.length_cons]; omega

/-- The first damage of a text. -/
def fault? (bs : List UInt8) : Option Fault := faultFrom 0 bs

/-- The text, or its first damage. -/
def decode (bs : List UInt8) : Except Fault (List Char) :=
  match fault? bs with
  | some fault => .error fault
  | none => .ok ((symbols bs).filterMap id)

/-- A text is damaged exactly where it cannot be read. -/
theorem decode?_eq_none_iff (bs : List UInt8) (i : Nat) :
    decode? bs = none ↔ (faultFrom i bs).isSome = true := by
  fun_induction symbols bs generalizing i with
  | case1 => simp [decode?, symbols, faultFrom]
  | case2 a rest c extra h ih =>
    rw [decode?, symbols, h, faultFrom, h]
    simp only [List.mapM_cons, id]
    rw [← ih (i + 1 + extra), decode?]
    cases List.mapM id (symbols (rest.drop extra)) <;> simp
  | case3 a rest n h ih =>
    rw [decode?, symbols, h, faultFrom, h]
    simp
  | case4 a rest h ih =>
    rw [decode?, symbols, h, faultFrom, h]
    simp

example : encode "a€".toList = [0x61, 0xE2, 0x82, 0xAC] := by decide
example : decode? [0x61, 0xE2, 0x82, 0xAC] = some "a€".toList := by decide +kernel
example : symbols [0xE2, 0x22] = [none, some '"'] := by decide +kernel
example : fault? [0x61, 0xE2, 0x82] = some (.cut 1) := by decide +kernel
example : fault? [0xFF] = some (.broken 0 1) := by decide +kernel

end Subledger.Text.Utf8
