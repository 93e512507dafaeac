/-!
# Counters of reduction work
-/

namespace EmbeddingAttack

/-- How much work a reduction did: rows changed, steps taken, enumeration nodes visited. -/
structure Statistics where
  changes : Nat := 0
  iterations : Nat := 0
  nodes : Nat := 0
deriving DecidableEq, Repr, Inhabited

namespace Statistics

/-- The counters of two pieces of work together. -/
def add (s t : Statistics) : Statistics :=
  ⟨s.changes + t.changes, s.iterations + t.iterations, s.nodes + t.nodes⟩

end Statistics

end EmbeddingAttack
