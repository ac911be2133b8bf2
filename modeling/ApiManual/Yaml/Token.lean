import ApiManual.Yaml.Tag

/-!
# Tokens

The pieces of a text: its scalars, the signs between them, and the places where its
indentation opens and closes a collection.
-/

namespace ApiManual
namespace Yaml

/-- What a token is. -/
inductive TokenKind where
  | streamEnd
  | directive (d : Directive)
  | documentStart
  | documentEnd
  | blockSequenceStart
  | blockMappingStart
  /-- The end of a collection that indentation opened. -/
  | blockEnd
  | flowSequenceStart
  | flowSequenceEnd
  | flowMappingStart
  | flowMappingEnd
  | key
  | value
  | blockEntry
  | flowEntry
  | alias (name : String)
  | anchor (name : String)
  | tag (tag : TagText)
  | scalar (text : String) (plain : Bool)
  deriving DecidableEq

/-- A token and the places where it starts and ends. -/
structure Token where
  kind : TokenKind
  start : Mark
  stop : Mark
  deriving DecidableEq

/-- The tokens of a text, as far as it can be read.  A text that is read to its end
has `streamEnd` as its last token; otherwise `fault` is what a reader meets behind
the last one. -/
structure TokenRow where
  tokens : List Token
  fault : ScanFault
  deriving DecidableEq

end Yaml
end ApiManual
