/-!
# Sets of code points

A property of characters is given as the runs of code points that have it. A run is written as its
first and its last member.

## Main definitions
- `CodePoints`: the runs of a set, ascending.
- `CodePoints.contains`: membership.
-/

namespace ForkJoin

/-- The runs of a set of code points, each with its first and its last member. -/
abbrev CodePoints := List (Nat × Nat)

namespace CodePoints

/-- Whether a character belongs to the set. -/
def contains (runs : CodePoints) (c : Char) : Bool :=
  runs.any fun run => run.1 ≤ c.toNat && c.toNat ≤ run.2

end CodePoints

end ForkJoin
