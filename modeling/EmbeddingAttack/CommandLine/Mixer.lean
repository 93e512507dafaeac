import EmbeddingAttack.Instance.Synthetic

/-!
# The random numbers of the program

Any source of random numbers does for generated instances.  The program mixes a counter.
-/

namespace EmbeddingAttack

/-- The state of the standard generator of random numbers. -/
structure Mixer where
  word : UInt64

namespace Mixer

/-- The generator with a seed of its own for each dimension. -/
def ofSeed (n seed : Nat) : Mixer :=
  ⟨UInt64.ofNat seed ^^^ (UInt64.ofNat n <<< 32)⟩

/-- The next random word: the state moves on by a fixed odd step and is mixed by shifts and
multiplications. -/
def next (g : Mixer) : UInt64 × Mixer :=
  let word := g.word + 0x9E3779B97F4A7C15
  let x := (word ^^^ (word >>> 30)) * 0xBF58476D1CE4E5B9
  let x := (x ^^^ (x >>> 27)) * 0x94D049BB133111EB
  (x ^^^ (x >>> 31), ⟨word⟩)

/-- The sum of the upper halves of some random words. -/
def sumOfHalves : (count : Nat) → Mixer → Nat × Mixer
  | 0, g => (0, g)
  | count + 1, g =>
    let (x, g) := g.next
    let (sum, g) := sumOfHalves count g
    ((x >>> 32).toNat + sum, g)

/-- Random numbers from a mixer.  A normal value is the sum of twelve uniform ones, which has
standard deviation one. -/
def randomness {α : Type} [Scalar α] : Randomness α Mixer where
  uniform q g :=
    let (x, g) := g.next
    ((x.toNat : Int) % q, g)
  roundedNormal sigma g :=
    let (sum, g) := g.sumOfHalves 12
    let normal := (sum : α) / 4294967296.0 - 6.0
    (Scalar.toWord (Scalar.round (sigma * normal)), g)

end Mixer

namespace Synthetic

/-- Generated instances as a source. -/
def source {α : Type} [Scalar α] (count : Option Nat) : InstanceSource α := fun n alpha seed =>
  generate Mixer.randomness count n alpha (Mixer.ofSeed n seed)

end Synthetic

end EmbeddingAttack
