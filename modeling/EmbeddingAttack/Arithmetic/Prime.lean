/-!
# Prime numbers by trial division
-/

namespace EmbeddingAttack

/-- Whether no `d`, `d + 1`, … up to the square root of `x` divides `x`. -/
def noDivisorFrom (x d : Nat) : Bool :=
  if h : 0 < d ∧ d * d ≤ x then
    if x % d = 0 then false else noDivisorFrom x (d + 1)
  else true
termination_by x + 1 - d
decreasing_by
  have : d ≤ d * d := Nat.le_mul_self d
  omega

def isPrime (x : Int) : Bool :=
  decide (2 ≤ x) && noDivisorFrom x.toNat 2

/-- The first prime among `x` and the `steps` numbers after it, or the number after those. -/
def firstPrimeFrom (x : Int) : (steps : Nat) → Int
  | 0 => x
  | steps + 1 => if isPrime x then x else firstPrimeFrom (x + 1) steps

/-- The least prime that is at least `x`.  There is always a prime between a positive number and
its double, which bounds the search. -/
def nextPrime (x : Int) : Int :=
  let start := max x 2
  firstPrimeFrom start (start.toNat + 1)

end EmbeddingAttack
