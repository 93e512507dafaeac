/-!
# White space

The characters with the Unicode property White_Space, which has been the same 25 characters since
version 6.3, and the operations on texts that look at them.
-/

namespace EmbeddingAttack.Text

/-- The code points of white space as closed ranges, ascending. -/
def blankRanges : List (Nat × Nat) :=
  [(0x09, 0x0D), (0x20, 0x20), (0x85, 0x85), (0xA0, 0xA0), (0x1680, 0x1680), (0x2000, 0x200A),
    (0x2028, 0x2029), (0x202F, 0x202F), (0x205F, 0x205F), (0x3000, 0x3000)]

def isBlank (c : Char) : Bool :=
  blankRanges.any fun (low, high) => low ≤ c.toNat && c.toNat ≤ high

def trimRight (s : List Char) : List Char :=
  (s.reverse.dropWhile isBlank).reverse

def trim (s : List Char) : List Char :=
  trimRight (s.dropWhile isBlank)

/-- The pieces between the characters that satisfy `p`.  There is one piece more than there are
such characters. -/
def splitBy (p : Char → Bool) : List Char → List (List Char)
  | [] => [[]]
  | c :: s =>
    if p c then [] :: splitBy p s
    else
      match splitBy p s with
      | [] => [[c]]
      | piece :: pieces => (c :: piece) :: pieces

/-- The lines that hold more than white space, without the white space around them. -/
def inhabitedLines (s : List Char) : List (List Char) :=
  ((splitBy (· == '\n') s).map trim).filter (!·.isEmpty)

/-- The pieces of a text one after the other with a separator between them. -/
def joinWith (separator : List Char) : List (List Char) → List Char
  | [] => []
  | [piece] => piece
  | piece :: pieces => piece ++ separator ++ joinWith separator pieces

end EmbeddingAttack.Text
