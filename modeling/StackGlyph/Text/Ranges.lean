/-!
# Sets of code points

A property of characters is given by its marks: the ascending code points at which membership
changes, starting outside the set. A code point belongs to the set when an odd number of marks lie
at or below it.
-/
namespace StackGlyph.Text

/-- Whether code point `n` lies in the set whose membership changes at each of `marks`. -/
def withinMarks (marks : List Nat) (n : Nat) : Bool :=
  marks.countP (· ≤ n) % 2 == 1

end StackGlyph.Text
