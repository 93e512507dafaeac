import EmbeddingAttack.Attack.RunContext
import EmbeddingAttack.Engine.Basic

/-!
# Journals of engine work

A journal lists the calls of an engine in their order and keeps a clock that moves by set amounts:
each tour and each search takes a time from a list that is gone through again and again.
-/

namespace EmbeddingAttack

/-- A call of an engine.  The lengths and the first row after it are there where the engine works on
a real basis. -/
inductive EngineCall (α : Type) where
  | load (rank : Nat)
  | clean
  | tour (order : TourOrder α) (after : Option (List α × List Int))
  | search (window : Window) (goal : α) (outcome : SearchOutcome α) (after : Option (List α))
  | simulate (blocksize tours : Nat)

/-- How long tours and searches take. -/
structure Pace (α : Type) where
  tourSeconds : List α
  searchSeconds : List α

/-- The calls so far, the latest first, the time, and the numbers of tours and searches. -/
structure Journal (α : Type) where
  calls : List (EngineCall α)
  seconds : α
  tours : Nat
  searches : Nat

namespace Journal

variable {α : Type} [Scalar α]

/-- An empty journal at time zero. -/
def empty : Journal α :=
  ⟨[], 0, 0, 0⟩

/-- The clock of a journal.  Reading it takes no time. -/
def clock : Clock α (Journal α) := fun j =>
  (j.seconds, j)

/-- The `k`-th time of a list that repeats, zero in an empty one. -/
def timeAt (times : List α) (k : Nat) : α :=
  times.getD (k % times.length) 0

def write (j : Journal α) (call : EngineCall α) : Journal α :=
  { j with calls := call :: j.calls }

def passTour (j : Journal α) (pace : Pace α) : Journal α :=
  { j with seconds := j.seconds + timeAt pace.tourSeconds j.tours, tours := j.tours + 1 }

def passSearch (j : Journal α) (pace : Pace α) : Journal α :=
  { j with seconds := j.seconds + timeAt pace.searchSeconds j.searches, searches := j.searches + 1 }

def toList (j : Journal α) : List (EngineCall α) :=
  j.calls.reverse

end Journal

/-- What a journal shows of a basis. -/
structure BasisView (α β : Type) where
  rank : β → Nat
  lengths : β → List α
  firstRow : β → List Int

namespace Engine

variable {α σ β τ κ : Type} [Scalar α]

/-- Runs work of an engine in a world that has a further part, such as a journal, which the work
leaves as it is. -/
def beside (w : Work α σ β τ) : Work α (σ × κ) β τ := fun ((world, other), basis) =>
  match w (world, basis) with
  | .ok x (world, basis) => .ok x ((world, other), basis)
  | .error e (world, basis) => .error e ((world, other), basis)

def inJournal (f : β → Journal α → Journal α) : Work α (σ × Journal α) β Unit :=
  modify fun ((world, journal), basis) => ((world, f basis journal), basis)

/-- The same engine with a journal of its tours, searches and simulations.  A tour or search that
fails is not in the journal and takes no time. -/
def journaled (E : Engine α σ β) (view : BasisView α β) (pace : Pace α) :
    Engine α (σ × Journal α) β where
  load basis := fun (world, journal) =>
    match E.load basis world with
    | .ok basis world => .ok basis (world, journal.write (.load (view.rank basis)))
    | .error e world => .error e (world, journal)
  tour order := do
    beside (E.tour order)
    inJournal fun basis journal =>
      (journal.passTour pace).write (.tour order (some (view.lengths basis, view.firstRow basis)))
  search window goal := do
    let outcome ← beside (E.search window goal)
    inJournal fun basis journal =>
      (journal.passSearch pace).write (.search window goal outcome (some (view.lengths basis)))
    return outcome
  simulate profile blocksize tours := fun (world, journal) =>
    match E.simulate profile blocksize tours world with
    | .ok p world => .ok p (world, journal.write (.simulate blocksize tours))
    | .error e world => .error e (world, journal.write (.simulate blocksize tours))
  clean := beside E.clean
  profile := E.profile
  firstLength := E.firstLength
  firstRow := E.firstRow

/-- The clock of the journal beside a world. -/
def journalClock : Clock α (σ × Journal α) := fun (world, journal) =>
  (journal.seconds, (world, journal))

end Engine

namespace ReferenceEngine

/-- What a journal shows of a lattice basis. -/
def view {α : Type} : BasisView α (SomeLatticeBasis α) where
  rank basis := basis.rank
  lengths basis := basis.basis.r.toList
  firstRow basis := (basis.basis.basis.row 0).toList

end ReferenceEngine

end EmbeddingAttack
