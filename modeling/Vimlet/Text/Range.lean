/-!
# Code point ranges

Character classes beyond ASCII are tables of inclusive ranges of code points. A table is written as
lengths: how many code points lie before the first range, how many it has, how many lie before the
next one, and so on.
-/

namespace Vimlet.Text

/-- The ranges from a code point on, given by the lengths of the gaps and of the ranges in turn. -/
def rangesFrom (start : Nat) : List Nat → List (Nat × Nat)
  | gap :: length :: lengths =>
    (start + gap, start + gap + length - 1) :: rangesFrom (start + gap + length) lengths
  | _ => []

/-- A code point lies in one of the ranges. -/
def inRanges (ranges : List (Nat × Nat)) (code : Nat) : Bool :=
  ranges.any fun range => range.1 ≤ code && code ≤ range.2

end Vimlet.Text
