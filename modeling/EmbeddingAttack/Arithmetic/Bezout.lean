/-!
# Bézout coefficients

The greatest common divisor of two integers as a combination of them, by division with remainder.
-/

namespace EmbeddingAttack

/-- A common divisor `gcd = left * a + right * b` of two integers `a` and `b`. -/
structure Bezout where
  gcd : Int
  left : Int
  right : Int
deriving DecidableEq

namespace Bezout

/-- Follows the remainders down to zero.  Each of the two triples holds a remainder and the
coefficients that express it. -/
def reduce (current next : Bezout) : Bezout :=
  if next.gcd = 0 then current
  else
    let q := current.gcd.tdiv next.gcd
    reduce next
      ⟨current.gcd - q * next.gcd, current.left - q * next.left, current.right - q * next.right⟩
termination_by next.gcd.natAbs
decreasing_by
  have h : current.gcd - current.gcd.tdiv next.gcd * next.gcd = current.gcd.tmod next.gcd := by
    rw [Int.tmod_def, Int.mul_comm]
  rw [h, Int.natAbs_tmod]
  exact Nat.mod_lt _ (by omega)

/-- The greatest common divisor of `a` and `b`, never negative, with its coefficients. -/
def of (a b : Int) : Bezout :=
  let d := reduce ⟨a, 1, 0⟩ ⟨b, 0, 1⟩
  if d.gcd < 0 then ⟨-d.gcd, -d.left, -d.right⟩ else d

end Bezout

end EmbeddingAttack
