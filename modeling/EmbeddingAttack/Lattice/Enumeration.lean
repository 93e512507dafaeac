import EmbeddingAttack.Lattice.Basis

/-!
# Enumeration of short vectors

A block of consecutive rows `start, …, stop - 1`, projected away from the rows before it, spans a
lattice.  The enumeration walks the tree of its integer coefficients from the last to the first.
At each level it tries the integers in the order of their distance from the point where the
partial length is least, and goes down only where the partial length stays below the radius; the
radius shrinks to the length of each vector found.  Vectors that differ in sign only are visited
once: while all later coefficients are zero, only one side of the centre is tried.

Two limits keep the work finite whatever the Gram–Schmidt data are: the number of nodes visited
and the number of vectors kept.
-/

namespace EmbeddingAttack

/-- Limits of an enumeration.  A block is improved only by vectors below `radiusFactor` times the
squared length that it has. -/
structure SearchLimits (α : Type) where
  maxNodes : Nat
  maxCandidates : Nat
  radiusFactor : α

namespace SearchLimits

variable {α : Type} [Scalar α]

/-- The limits in general use. -/
def standard : SearchLimits α where
  maxNodes := 20000000
  maxCandidates := 64
  radiusFactor := 0.99

/-- Checks that the limits leave something to find. -/
@[specialize] def validate (p : SearchLimits α) : Except (Failure α) Unit := do
  if p.maxNodes = 0 then
    throw (.parameters .noNodes)
  if p.maxCandidates = 0 then
    throw (.parameters .noCandidates)
  if ¬ (0 < p.radiusFactor ∧ p.radiusFactor ≤ 1) then
    throw (.parameters (.radiusFactor p.radiusFactor))

end SearchLimits

/-- A vector of a projected block: its coefficients on the rows of the block and its squared
length. -/
structure Candidate (α : Type) where
  coefficients : List Int
  normSquared : α
deriving DecidableEq

/-- What an enumeration found: the vectors from the longest to the shortest, the nodes visited, and
whether the node limit ended the enumeration. -/
structure Findings (α : Type) where
  candidates : List (Candidate α)
  nodes : Nat
  truncated : Bool
deriving DecidableEq

namespace Findings

variable {α : Type}

/-- The shortest vector found. -/
def best? (f : Findings α) : Option (Candidate α) :=
  f.candidates.getLast?

end Findings

namespace Enumeration

variable {α : Type} [Scalar α] {n m : Nat}

/-- The state of the walk: the current squared radius, the vectors found, the latest first, and
the nodes visited. -/
structure State (α : Type) where
  radius : α
  found : List (Candidate α)
  nodes : Nat

namespace State

/-- Keeps a vector found, forgets the oldest beyond the limit, and shrinks the radius. -/
def record (p : SearchLimits α) (s : State α) (coefficients : List Int) (normSquared : α) :
    State α :=
  { s with
    radius := normSquared
    found := (⟨coefficients, normSquared⟩ :: s.found).take p.maxCandidates }

end State

/-- The point where the partial length at the row `start + level` is least, for the given
coefficients of the later rows of the block. -/
@[specialize] def center (L : LatticeBasis α n m) (start level : Nat) (later : List Int) : α :=
  go (start + level + 1) later 0
where
  /-- Takes off the share of the rows from `i` on. -/
  @[specialize] go (i : Nat) : List Int → α → α
    | [], c => c
    | x :: xs, c => go (i + 1) xs (c - (x : α) * L.coefficient i (start + level))

/-- The integers at distance `t` from the rounded centre `x`, the nearer side of the centre first.
Only the upper side is taken where the sign is still free. -/
@[specialize] def shell (x direction : α) (signFree : Bool) (t : Nat) : List α :=
  if t = 0 then [x]
  else if signFree then [x + (t : α)]
  else [x + direction * (t : α), x - direction * (t : α)]

/-- One level of the tree: its centre, the squared length of its direction, the partial squared
length of the levels above it, and whether all their coefficients are zero. -/
structure Level (α : Type) where
  center : α
  length : α
  above : α
  signFree : Bool

/-- Visits the integers of one shell that lie inside the radius.  Returns whether there was one;
an exhausted node limit counts as none, since it ends the walk. -/
@[specialize] def visitShell (p : SearchLimits α) (level : Level α)
    (visit : α → α → State α → State α) : List α → Bool → State α → Bool × State α
  | [], inside, s => (inside, s)
  | x :: xs, inside, s =>
    let difference := x - level.center
    let partialNorm := level.above + difference * difference * level.length
    if s.radius ≤ partialNorm then visitShell p level visit xs inside s
    else
      let s := visit x partialNorm { s with nodes := s.nodes + 1 }
      if p.maxNodes ≤ s.nodes then (false, s) else visitShell p level visit xs true s

/-- Visits shell after shell until one lies outside the radius.  Each shell but the last visits a
node, so that the node limit bounds the number of shells. -/
@[specialize] def visitShells (p : SearchLimits α) (level : Level α)
    (visit : α → α → State α → State α) (x direction : α) :
    (budget t : Nat) → State α → State α
  | 0, _, s => s
  | budget + 1, t, s =>
    match visitShell p level visit (shell x direction level.signFree t) false s with
    | (true, s) => visitShells p level visit x direction budget (t + 1) s
    | (false, s) => s

/-- Visits the subtree below the given coefficients of the rows after `start + level`, whose
partial squared length is `above`. -/
@[specialize] def descend (p : SearchLimits α) (L : LatticeBasis α n m) (start : Nat) :
    (level : Nat) → (later : List Int) → (above : α) → (signFree : Bool) → State α → State α
  | 0, later, above, signFree, s =>
    if p.maxNodes ≤ s.nodes then s
    else
      let c := center L start 0 later
      let x := Scalar.round c
      visitShells p ⟨c, L.length start, above, signFree⟩
        (fun x norm s =>
          if (signFree && Scalar.equal x 0) = false ∧ 0 < norm then
            s.record p (Scalar.toWord x :: later) norm
          else s)
        x (if x ≤ c then 1 else -1) (p.maxNodes - s.nodes) 0 s
  | level + 1, later, above, signFree, s =>
    if p.maxNodes ≤ s.nodes then s
    else
      let c := center L start (level + 1) later
      let x := Scalar.round c
      visitShells p ⟨c, L.length (start + (level + 1)), above, signFree⟩
        (fun x norm s =>
          descend p L start level (Scalar.toWord x :: later) norm (signFree && Scalar.equal x 0) s)
        x (if x ≤ c then 1 else -1) (p.maxNodes - s.nodes) 0 s

end Enumeration

namespace LatticeBasis

variable {α : Type} [Scalar α] {n m : Nat}

/-- Enumerates the vectors of the projected block `start, …, stop - 1` whose squared length is
below `radius`. -/
@[specialize] def enumerate (L : LatticeBasis α n m) (p : SearchLimits α) (start stop : Nat)
    (radius : α) : Except (Failure α) (Findings α) := do
  p.validate
  if stop ≤ start ∨ n < stop then
    throw (.parameters (.enumerationBlock start stop n))
  let s := Enumeration.descend p L start (stop - start - 1) [] 0 true ⟨radius, [], 0⟩
  return ⟨s.found.reverse, s.nodes, decide (p.maxNodes ≤ s.nodes)⟩

end LatticeBasis

end EmbeddingAttack
