import EmbeddingAttack.Arithmetic.Bezout

/-!
# Residues

Residues modulo `q` in their two standard ranges: `0 ≤ x < q` and, centred, `-q/2 < x ≤ q/2`.
-/

namespace EmbeddingAttack

/-- The inverse of `a` modulo `q` in the range `0 ≤ x < q`, if there is one. -/
def modInverse? (a q : Int) : Option Int :=
  let d := Bezout.of (a % q) q
  if d.gcd = 1 then some (d.left % q) else none

/-- The representative of `x` modulo `q` closest to zero. -/
def centeredResidue (x q : Int) : Int :=
  let y := x % q
  if q.tdiv 2 < y then y - q else y

end EmbeddingAttack
