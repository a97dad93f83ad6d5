/-!
# Bits of integers

Bitwise operations on integers in unbounded two's complement: a negative integer `-(n + 1)` has the
complement of the bits of `n`.
-/

namespace Vimlet.Bitwise

/-- The bits of `m` that are not bits of `n`. -/
def without (m n : Nat) : Nat := m - (m &&& n)

/-- The bits that both have. -/
def and : Int → Int → Int
  | .ofNat m, .ofNat n => .ofNat (m &&& n)
  | .ofNat m, .negSucc n => .ofNat (without m n)
  | .negSucc m, .ofNat n => .ofNat (without n m)
  | .negSucc m, .negSucc n => .negSucc (m ||| n)

/-- The bits that one of them has. -/
def or : Int → Int → Int
  | .ofNat m, .ofNat n => .ofNat (m ||| n)
  | .ofNat m, .negSucc n => .negSucc (without n m)
  | .negSucc m, .ofNat n => .negSucc (without m n)
  | .negSucc m, .negSucc n => .negSucc (m &&& n)

/-- The bits in which they differ. -/
def xor : Int → Int → Int
  | .ofNat m, .ofNat n => .ofNat (m ^^^ n)
  | .ofNat m, .negSucc n => .negSucc (m ^^^ n)
  | .negSucc m, .ofNat n => .negSucc (m ^^^ n)
  | .negSucc m, .negSucc n => .ofNat (m ^^^ n)

/-- All bits the other way. -/
def not (n : Int) : Int := -n - 1

end Vimlet.Bitwise
