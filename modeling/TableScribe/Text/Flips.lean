/-!
# Sets of code points by their flips

A set of characters is written as the ascending list of the code points where membership changes,
starting outside. `flipsContain` reads such a list; it stops at the first flip above the point, so
that the common low characters cost a few comparisons.
-/

namespace TableScribe.Text

/-- Whether `point` lies in the set that begins outside and changes at each of the given points. -/
def flipsContain : List Nat → Nat → Bool
  | [], _ => false
  | flip :: later, point => if point < flip then false else !flipsContain later point

theorem flipsContain_nil (point : Nat) : flipsContain [] point = false := rfl

theorem flipsContain_of_lt {flip point : Nat} (later : List Nat) (h : point < flip) :
    flipsContain (flip :: later) point = false := by
  simp [flipsContain, h]

theorem flipsContain_of_le {flip point : Nat} (later : List Nat) (h : flip ≤ point) :
    flipsContain (flip :: later) point = !flipsContain later point := by
  simp [flipsContain, Nat.not_lt.2 h]

end TableScribe.Text
