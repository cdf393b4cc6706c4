/-
The shortest decimal inside an interval.  A binary number is identified by the interval of reals that
round to it, and any decimal of that interval may be written for it.  On the grid of decimals with a given
number of places only the two neighbours of the number itself can matter.  So the places are tried one
after another, and the first grid with a neighbour in the interval gives the fewest digits.
-/

namespace ShaderLift.Decimal

/-- A positive rational `value / den` with the interval of the numbers that round to it: from
`low / den` to `high / den`, the ends included iff `closed`. -/
structure Rounding where
  low : Nat
  value : Nat
  high : Nat
  den : Nat
  closed : Bool
  deriving Repr, DecidableEq

namespace Rounding

/-- Whether `a` comes before `b`, or they are equal and the ends count. -/
def below (r : Rounding) (a b : Nat) : Bool :=
  if r.closed then a ≤ b else a < b

/-- The neighbour of the value on the grid of `places` decimal places that lies in the interval, as a
multiple of the unit: the nearer one if both do, and the upper one of two that are equally near. -/
def onGrid (r : Rounding) (places : Nat) : Option Nat :=
  let scaled := r.value * Nat.pow 10 places
  let n := scaled / r.den
  let rest := scaled % r.den
  let down := r.below (r.low * Nat.pow 10 places) (n * r.den)
  let up := r.below ((n + 1) * r.den) (r.high * Nat.pow 10 places)
  if up && (!down || r.den ≤ 2 * rest) then some (n + 1)
  else if down then some n
  else none

/-- The first grid from `places` on that has a neighbour in the interval, looking at `fuel` grids and
settling for the next one after them. -/
def shortestFrom (r : Rounding) : (fuel places : Nat) → Nat × Nat
  | 0, places => (r.value * Nat.pow 10 places / r.den, places)
  | fuel + 1, places =>
    match r.onGrid places with
    | some n => (n, places)
    | none => shortestFrom r fuel (places + 1)

end Rounding

/-- The text of `n` units of the grid of `places` decimal places, `places` being positive. -/
def positional (n places : Nat) : String :=
  let digits := (toString (n % Nat.pow 10 places)).toList
  toString (n / Nat.pow 10 places) ++ "." ++
    String.ofList (List.replicate (places - digits.length) '0' ++ digits)

end ShaderLift.Decimal
