/-!
# Similarity — how alike two words are

Two words are compared by their longest common block, then in the same way left and right of it.  They are alike if twice
what the blocks hold is at least three fifths of all their characters.
-/
namespace AbiTypes.Text

def commonLength : List Char → List Char → Nat
  | a :: as, b :: bs => if a = b then commonLength as bs + 1 else 0
  | _, _ => 0

/-- A common block: where it starts in either word, and its length. -/
structure Block where
  left : Nat
  right : Nat
  length : Nat

/-- **The longest common block** of two words; of several the one furthest left in the first, then in the second word. -/
def longestBlock (as bs : List Char) : Block :=
  (List.range as.length).foldl (fun best i =>
    (List.range bs.length).foldl (fun best j =>
      let n := commonLength (as.drop i) (bs.drop j)
      if best.length < n then ⟨i, j, n⟩ else best) best) ⟨0, 0, 0⟩

/-- The characters held by the common blocks; each round takes at least one from the first word, so its length is fuel
enough. -/
def matchedWith : (fuel : Nat) → List Char → List Char → Nat
  | 0, _, _ => 0
  | fuel + 1, as, bs =>
    let m := longestBlock as bs
    if m.length = 0 then 0
    else m.length + matchedWith fuel (as.take m.left) (bs.take m.right)
      + matchedWith fuel (as.drop (m.left + m.length)) (bs.drop (m.right + m.length))

/-- How alike two words are: the characters held by their common blocks, out of all characters of both. -/
structure Likeness where
  matched : Nat
  total : Nat
  deriving DecidableEq, Repr

def likeness (as bs : List Char) : Likeness := ⟨matchedWith as.length as bs, as.length + bs.length⟩

def Likeness.isAbove (a b : Likeness) : Bool := b.matched * a.total < a.matched * b.total

/-- Are the two words alike?  Blocks hold no more than the shorter word, so words of very different lengths are not. -/
def isAlike (as bs : List Char) : Bool :=
  3 * (as.length + bs.length) ≤ 10 * min as.length bs.length
    && 3 * (likeness as bs).total ≤ 10 * (likeness as bs).matched

/-- The most words that are worth naming. -/
def closestCount : Nat := 3

/-- Does the first word come before the second among those like a third: more alike, or as much so and later in the
alphabet? -/
def isCloser (word : List Char) (a b : String) : Bool :=
  (likeness a.toList word).isAbove (likeness b.toList word)
    || (!(likeness b.toList word).isAbove (likeness a.toList word) && decide (b ≤ a))

/-- **The words that are like another one**: the closest three, in alphabetical order. -/
def closest (words : List String) (word : String) : List String :=
  (((words.filter fun w => isAlike w.toList word.toList).mergeSort (isCloser word.toList)).take closestCount).mergeSort
    (· ≤ ·)

end AbiTypes.Text
