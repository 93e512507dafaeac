import EmbeddingAttack.Table

/-!
# Tour times
-/

namespace EmbeddingAttack

/-- The time that a tour took last, by blocksize. -/
abbrev TimingTable (α : Type) :=
  Table Nat α

end EmbeddingAttack
