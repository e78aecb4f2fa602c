/-!
A character property of Unicode is listed as disjoint, increasing ranges with both
ends included.
-/

namespace Namesake.Text

abbrev Ranges := List (Nat × Nat)

def Ranges.contains (ranges : Ranges) (point : Nat) : Bool :=
  ranges.any fun range => range.1 ≤ point && point ≤ range.2

end Namesake.Text
