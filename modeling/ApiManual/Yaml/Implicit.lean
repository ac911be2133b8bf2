import ApiManual.Yaml.Tag
import ApiManual.Yaml.Number
import ApiManual.Yaml.Moment

/-!
# What a text without quotes is taken for

A scalar without quotes and without a tag has the tag of the kind of value that it
looks like: a truth value, a number, nothing, a moment, or one of two signs with a
meaning of their own among the keys of a mapping.  What looks like none of them is
a text.
-/

namespace ApiManual
namespace Yaml
namespace Implicit

/-- A word in lower case, capitalised and in upper case. -/
def casings (word : String) : List (List Char) :=
  let cs := word.toList
  [cs, (cs.take 1).map Char.toUpper ++ cs.drop 1, cs.map Char.toUpper]

/-- The words for truth values, each with its value. -/
def truthWords : List (String × Bool) :=
  [("yes", true), ("no", false), ("true", true), ("false", false), ("on", true), ("off", false)]

/-- The words for truth values in the casings that they are taken for one in. -/
def truthTexts : List (List Char) := truthWords.flatMap fun w => casings w.1

/-- The words for nothing; the empty text is one. -/
def nullTexts : List (List Char) := [[], ['~']] ++ casings "null"

/-- Whether a text is taken for a moment; month and day of a date without a time
need two digits. -/
def looksLikeMoment (cs : List Char) : Bool :=
  (WrittenMoment.ofChars? cs).any fun w => w.time.isSome || cs.length = 10

/-- The end of a line behind a text does not count. -/
def withoutLineEnd (cs : List Char) : List Char :=
  if cs.length ≠ 1 && cs.getLast? = some '\n' then cs.dropLast else cs

/-- The tag of a scalar that has none. -/
def tag (text : String) : String :=
  let cs := withoutLineEnd text.toList
  if truthTexts.contains cs then Tag.bool
  else if Number.looksFractional cs then Tag.float
  else if Number.looksWhole cs then Tag.int
  else if cs = ['<', '<'] then Tag.merge
  else if nullTexts.contains cs then Tag.null
  else if looksLikeMoment cs then Tag.timestamp
  else if cs = ['='] then Tag.value
  else if cs = ['!'] || cs = ['&'] || cs = ['*'] then Tag.indicator
  else Tag.text

end Implicit
end Yaml
end ApiManual
