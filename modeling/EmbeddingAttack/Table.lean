/-!
# Tables with ordered keys

A table is a list of entries whose keys ascend, so that it lists its entries in the order of the
keys whatever the order in which they were written.
-/

namespace EmbeddingAttack

/-- A table of values of type `ν` by keys of type `κ`. -/
structure Table (κ ν : Type) where
  entries : List (κ × ν) := []

namespace Table

variable {κ ν : Type} [LT κ] [DecidableLT κ] [DecidableEq κ]

/-- Replaces the value at a key in a list with ascending keys; an absent key is put in its place. -/
def updateEntries (key : κ) (f : Option ν → ν) : List (κ × ν) → List (κ × ν)
  | [] => [(key, f none)]
  | (k, v) :: rest =>
    if key < k then (key, f none) :: (k, v) :: rest
    else if key = k then (key, f (some v)) :: rest
    else (k, v) :: updateEntries key f rest

/-- Replaces the value at a key by its image. -/
def update (t : Table κ ν) (key : κ) (f : Option ν → ν) : Table κ ν :=
  ⟨updateEntries key f t.entries⟩

def insert (t : Table κ ν) (key : κ) (value : ν) : Table κ ν :=
  t.update key fun _ => value

def get? (t : Table κ ν) (key : κ) : Option ν :=
  t.entries.lookup key

def size (t : Table κ ν) : Nat :=
  t.entries.length

end Table

end EmbeddingAttack
