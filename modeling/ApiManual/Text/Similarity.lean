/-!
# Similar words

How much two words have in common: their longest common part, then what the parts
before it and the parts behind it have in common, and so on.
-/

namespace ApiManual
namespace Text

/-- How many characters two texts share at their fronts. -/
def sharedFront : List Char → List Char → Nat
  | a :: as, b :: bs => if a = b then sharedFront as bs + 1 else 0
  | _, _ => 0

/-- The first longest common part of two texts: where it starts in each, and its
length. -/
def longestShared (a b : List Char) : Nat × Nat × Nat :=
  (List.range a.length).foldl (fun best i =>
    (List.range b.length).foldl (fun best j =>
      let n := sharedFront (a.drop i) (b.drop j)
      if best.2.2 < n then (i, j, n) else best) best) (0, 0, 0)

/-- How many characters two texts have in common. -/
def shared (fuel : Nat) (a b : List Char) : Nat :=
  match fuel with
  | 0 => 0
  | fuel + 1 =>
    let (i, j, n) := longestShared a b
    if n = 0 then 0
    else n + shared fuel (a.take i) (b.take j) + shared fuel (a.drop (i + n)) (b.drop (j + n))

/-- Whether a word is like another one: they have at least three fifths of their
characters in common. -/
def isLike (word candidate : String) : Bool :=
  let a := candidate.toList
  let b := word.toList
  3 * (a.length + b.length) ≤ 10 * shared (a.length + 1) a b

end Text
end ApiManual
