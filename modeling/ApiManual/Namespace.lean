import ApiManual.Text.Blank

/-!
# Namespaces

Every document has a namespace, which is also its file name.  A namespace is built
from the namespace of the parent and a segment of the document's own, each brought
into a form that is safe in file names and include lines: lower case, without white
space, every run of other characters outside `a-z`, `0-9`, dot, underscore and dash
shrunk to one underscore, and no underscore at either end.  A part of which nothing
remains is a single underscore.  The parts are joined with dashes.
-/

namespace ApiManual
namespace Namespace

/-- The characters of which namespaces consist. -/
def isAllowed (c : Char) : Bool :=
  ('a' ≤ c && c ≤ 'z') || ('0' ≤ c && c ≤ '9') || c = '.' || c = '_' || c = '-'

/-- A character in lower case.  Beyond ASCII only the two characters matter whose
lower-case form holds an ASCII letter: the Kelvin sign, and the dotted capital i,
whose dot remains behind as a mark.  All others stay outside the allowed
characters in either case. -/
def lower (c : Char) : List Char :=
  if 'A' ≤ c && c ≤ 'Z' then [Char.ofNat (c.toNat + 32)]
  else if c = '\u212a' then ['k']
  else if c = '\u0130' then ['i', '\u0307']
  else [c]

/-- Every run of characters that are not allowed becomes one underscore; `inRun`
says whether the text before ends in such a run. -/
def squeeze (inRun : Bool) : List Char → List Char
  | [] => []
  | c :: rest =>
    if isAllowed c then c :: squeeze false rest
    else if inRun then squeeze true rest
    else '_' :: squeeze true rest

/-- A part that nothing remains of is an underscore. -/
def orUnderscore (cs : List Char) : List Char :=
  if cs.isEmpty then ['_'] else cs

/-- One part in its normal form. -/
def normalizePart (cs : List Char) : List Char :=
  orUnderscore <| Text.trim (· = '_') <| squeeze false <|
    (cs.flatMap lower).filter fun c => !Text.isBlank c

/-- The characters of the namespace of several parts. -/
def joinParts : List (List Char) → List Char
  | [] => []
  | [p] => normalizePart p
  | p :: rest => normalizePart p ++ '-' :: joinParts rest

/-- The namespace of several parts. -/
def normalize (parts : List String) : String :=
  String.ofList (joinParts (parts.map String.toList))

/-- The namespace of several parts, those left out that are missing. -/
def ofParts (parts : List (Option String)) : String := normalize (parts.filterMap id)

/-- The namespace of a segment under a parent, or of a segment alone. -/
def child (parent : Option String) (segment : String) : String :=
  normalize (parent.toList ++ [segment])

/-- A child has a parent, which may be missing, and a segment for its parts. -/
theorem child_eq_ofParts (parent : Option String) (segment : String) :
    child parent segment = ofParts [parent, some segment] := by
  cases parent <;> rfl

@[simp] theorem joinParts_singleton (p : List Char) : joinParts [p] = normalizePart p := rfl

@[simp] theorem joinParts_cons_cons (p q : List Char) (rest : List (List Char)) :
    joinParts (p :: q :: rest) = normalizePart p ++ '-' :: joinParts (q :: rest) := rfl

@[simp] theorem orUnderscore_ne_nil (cs : List Char) : orUnderscore cs ≠ [] := by
  unfold orUnderscore; split <;> simp_all

/-- The normal form of a part is never empty. -/
theorem normalizePart_ne_nil (cs : List Char) : normalizePart cs ≠ [] := orUnderscore_ne_nil _

end Namespace
end ApiManual
