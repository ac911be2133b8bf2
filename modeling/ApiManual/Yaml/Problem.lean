import ApiManual.Yaml.Node
import ApiManual.Value.Text
import ApiManual.Text.Base64

/-!
# What can be wrong with a text

A text may break the rules of the format.  If it keeps them, its nodes may still
make no sense, and then there is a complaint that names the places in question.
Beyond that there are contradictions that nothing looks for, and at which reading
breaks down without a word to the writer of the text.
-/

namespace ApiManual
namespace Yaml

/-- The two kinds of collection whose items are single pairs. -/
inductive PairList where
  | orderedMap
  | pairs
  deriving DecidableEq

/-- What was being read when something was found wrong with a list of pairs. -/
def PairList.activity : PairList → String
  | .orderedMap => "while constructing an ordered map"
  | .pairs => "while constructing pairs"

/-- What is wrong with the nodes of a text. -/
inductive Complaint where
  /-- A reference to a name that no node before it has. -/
  | undefinedAlias (name : String) (place : Mark)
  /-- A name that two nodes have. -/
  | duplicateAnchor (name : String) (first second : Mark)
  /-- A second document in the text. -/
  | secondDocument (first second : Mark)
  /-- A key that a mapping has twice. -/
  | duplicateKey (key : Scalar) (mapping place : Mark)
  /-- A key that is a collection. -/
  | unhashableKey (mapping place : Mark)
  /-- A node that cannot be had before it is had itself. -/
  | selfContained (place : Mark)
  /-- A tag that no kind of value has. -/
  | unknownTag (tag : String) (place : Mark)
  /-- A node of another kind than its tag says. -/
  | wrongKind (wanted found : NodeKind) (place : Mark)
  /-- Something that is merged and is neither a mapping nor a list. -/
  | mergedScalar (mapping place : Mark)
  /-- An item of a list that is merged, and that is no mapping. -/
  | mergedItem (found : NodeKind) (mapping place : Mark)
  /-- A list of pairs that is no list. -/
  | notPairs (what : PairList) (found : NodeKind) (place : Mark)
  /-- An item of a list of pairs that is no mapping. -/
  | notPair (what : PairList) (found : NodeKind) (list place : Mark)
  /-- An item of a list of pairs with more entries than one, or none. -/
  | notSingle (what : PairList) (count : Nat) (list place : Mark)
  /-- Bytes that are not written in ASCII: what is written from `first` to `last`. -/
  | notAscii (char : Char) (first last : Nat) (place : Mark)
  /-- Bytes that are not written as base 64. -/
  | notBase64 (fault : Text.Base64Fault) (place : Mark)
  deriving DecidableEq

/-- What nothing looks for, and what reading breaks down at. -/
inductive Breakdown where
  /-- An escape for a code point that does not exist. -/
  | noSuchCharacter
  /-- A number that is not written as one. -/
  | badNumber
  /-- A number without any character of its own. -/
  | emptyNumber
  /-- A decimal fraction in base sixty whose places grow beyond all numbers. -/
  | endlessNumber
  /-- A truth value that is no word for one. -/
  | badTruth
  /-- A moment that is not written as one. -/
  | badMoment
  /-- A mapping instead of a moment. -/
  | mappedMoment
  /-- A moment that the calendar or the clock does not have. -/
  | noSuchMoment
  /-- A set as a key. -/
  | setKey
  /-- A text instead of a mapping. -/
  | textAsMapping
  /-- A sequence instead of a mapping. -/
  | sequenceAsMapping
  /-- A value without an end. -/
  | endlessValue
  /-- A key of a mapping that cannot be told, as it has no text. -/
  | untoldKey
  deriving DecidableEq

/-- Why no value can be read from a text. -/
inductive Problem where
  /-- The text breaks the rules of the format. -/
  | malformed
  | complaint (c : Complaint)
  | breakdown (b : Breakdown)
  deriving DecidableEq

/-- A key that a mapping has twice; the complaint about it tells which one it is. -/
def Problem.repeatedKey (key : Scalar) (mapping place : Mark) : Problem :=
  if key.hasText then .complaint (.duplicateKey key mapping place) else .breakdown .untoldKey

/-- A fault of the text as a problem. -/
def ScanFault.problem : ScanFault → Problem
  | .malformed => .malformed
  | .noSuchCharacter => .breakdown .noSuchCharacter

namespace Complaint

/-- What a character is called that is not ASCII. -/
def charName (c : Char) : String :=
  let n := c.toNat
  String.ofList <| '\\' ::
    (if n ≤ 0xFF then 'x' :: Text.hexDigits 2 n
    else if n ≤ 0xFFFF then 'u' :: Text.hexDigits 4 n
    else 'U' :: Text.hexDigits 8 n)

/-- What was going on. -/
def context : Complaint → Option String
  | undefinedAlias .. => none
  | duplicateAnchor name .. => some ("found duplicate anchor " ++ Text.quoted name ++ "; first occurrence")
  | secondDocument .. => some "expected a single document in the stream"
  | duplicateKey .. => some "while constructing a mapping"
  | unhashableKey .. => some "while constructing a mapping"
  | selfContained .. => none
  | unknownTag .. => none
  | wrongKind .. => none
  | mergedScalar .. => some "while constructing a mapping"
  | mergedItem .. => some "while constructing a mapping"
  | notPairs what .. => some what.activity
  | notPair what .. => some what.activity
  | notSingle what .. => some what.activity
  | notAscii .. => none
  | notBase64 .. => none

/-- Where it was going on. -/
def contextMark : Complaint → Option Mark
  | undefinedAlias .. => none
  | duplicateAnchor _ first _ => some first
  | secondDocument first _ => some first
  | duplicateKey _ mapping _ => some mapping
  | unhashableKey mapping _ => some mapping
  | selfContained .. => none
  | unknownTag .. => none
  | wrongKind .. => none
  | mergedScalar mapping _ => some mapping
  | mergedItem _ mapping _ => some mapping
  | notPairs _ _ place => some place
  | notPair _ _ list _ => some list
  | notSingle _ _ list _ => some list
  | notAscii .. => none
  | notBase64 .. => none

/-- What was found. -/
def problem : Complaint → String
  | undefinedAlias name _ => "found undefined alias " ++ Text.quoted name
  | duplicateAnchor .. => "second occurrence"
  | secondDocument .. => "but found another document"
  | duplicateKey key .. => "found duplicate key " ++ key.quoted
  | unhashableKey .. => "found unhashable key"
  | selfContained _ => "found unconstructable recursive node"
  | unknownTag tag _ => "could not determine a constructor for the tag " ++ Text.quoted tag
  | wrongKind wanted found _ => "expected a " ++ wanted.name ++ " node, but found " ++ found.name
  | mergedScalar .. => "expected a mapping or list of mappings for merging, but found scalar"
  | mergedItem found .. => "expected a mapping for merging, but found " ++ found.name
  | notPairs _ found _ => "expected a sequence, but found " ++ found.name
  | notPair _ found .. => "expected a mapping of length 1, but found " ++ found.name
  | notSingle _ count .. =>
    "expected a single mapping item, but found " ++ toString count ++ " items"
  | notAscii c first last _ =>
    "failed to convert base64 data into ascii: 'ascii' codec can't encode character" ++
      (if first = last then " '" ++ charName c ++ "' in position " ++ toString first
      else "s in position " ++ toString first ++ "-" ++ toString last) ++
      ": ordinal not in range(128)"
  | notBase64 fault _ => "failed to decode base64 data: " ++ fault.message

/-- Where it was found. -/
def problemMark : Complaint → Mark
  | undefinedAlias _ place => place
  | duplicateAnchor _ _ second => second
  | secondDocument _ second => second
  | duplicateKey _ _ place => place
  | unhashableKey _ place => place
  | selfContained place => place
  | unknownTag _ place => place
  | wrongKind _ _ place => place
  | mergedScalar _ place => place
  | mergedItem _ _ place => place
  | notPairs _ _ place => place
  | notPair _ _ _ place => place
  | notSingle _ _ _ place => place
  | notAscii _ _ _ place => place
  | notBase64 _ place => place

/-- Whether the nodes fit together, and only their values do not. -/
def isAboutValues : Complaint → Bool
  | undefinedAlias .. => false
  | duplicateAnchor .. => false
  | secondDocument .. => false
  | _ => true

end Complaint
end Yaml
end ApiManual
