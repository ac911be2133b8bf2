import ApiManual.Proofs.Json.Syntax
import ApiManual.Yaml.Cursor
import ApiManual.Yaml.Number

/-!
# JSON that is YAML

Nearly every JSON text is a YAML text that says the same.  The exceptions are few, and
`Document.isYaml` names them:

* a tab between tokens, which is no white space there;
* a character that no YAML text may have;
* inside a string a next-line control; and a separator of lines or paragraphs that has a
  space next to it or the mark of a document behind it, as it ends a line there;
* a surrogate pair written as two code units, which is read as two characters;
* a number with an exponent but without a point, or with an exponent without a sign,
  which is a text there;
* a whole number of more than 4300 digits, which is too long to be read;
* a member whose name and colon are on two lines or more than 1024 characters apart.

Names that an object has twice are a matter of their own (`Document.namesDiffer`): JSON
allows them, and YAML does not.
-/

namespace ApiManual
namespace Json

/-- Whether a pair of surrogates is among code units. -/
def hasPair : List Nat → Bool
  | n :: m :: rest => (isLead n && isTrail m) || hasPair (m :: rest)
  | _ => false

/-- Whether a piece is a space that stands for itself. -/
def Piece.isBlank : Piece → Bool
  | .raw c _ => c = ' '
  | _ => false

/-- Whether a piece is a separator that stands for itself.  It ends a line, and is kept. -/
def Piece.isSeparator : Piece → Bool
  | .raw c _ => c = '\u2028' || c = '\u2029'
  | _ => false

/-- The next-line control must not stand for itself; it ends a line, and is not kept. -/
def Piece.isYaml : Piece → Bool
  | .raw c _ => c ≠ '\x85'
  | _ => true

/-- Whether a line that starts like this is the mark of a document. -/
def isMark (cs : List Char) : Bool :=
  (['-', '-', '-'].isPrefixOf cs || ['.', '.', '.'].isPrefixOf cs) &&
    (cs.drop 3).head?.any Yaml.isGap

/-- Whether lines are kept: no space is next to a separator, and no mark of a document behind
one. -/
def keepsLines : Pieces → Bool
  | p :: q :: rest =>
    !(p.isBlank && q.isSeparator) &&
      !(p.isSeparator && (q.isBlank || isMark (Pieces.inside (q :: rest)))) &&
      keepsLines (q :: rest)
  | _ => true

/-- Lines are kept, and surrogate pairs are not joined. -/
def Pieces.isYaml (ps : Pieces) : Bool :=
  ps.all Piece.isYaml && keepsLines ps && !hasPair (ps.map Piece.codeUnit)

/-- An exponent needs a point before it and a sign, and a whole number has an end. -/
def Number.isYaml (n : Number) : Bool :=
  match n.exponent with
  | some e => n.fraction.isSome && e.sign.isSome
  | none => n.fraction.isSome || n.whole.chars.length ≤ Yaml.Number.longest

/-- The three words are the same. -/
def Atom.isYaml : Atom → Bool
  | .text ps => ps.isYaml
  | .number n => n.isYaml
  | .word _ => true

/-- Tabs are no white space. -/
def Gap.isYaml (g : Gap) : Bool := g.chars.all (· ≠ '\t')

/-- A name has its colon on the same line, and not too far away. -/
def isKey (key : Pieces) (behindKey : Gap) : Bool :=
  key.isYaml && key.all (!·.isSeparator) && behindKey.chars.all (· = ' ') &&
    key.chars.length + behindKey.chars.length ≤ 1024

mutual

/-- Whether a value is read in YAML as it is in JSON. -/
def Tree.isYaml : Tree → Bool
  | .atom a => a.isYaml
  | .emptyList inside => inside.isYaml
  | .list items => items.isYaml
  | .emptyObject inside => inside.isYaml
  | .object members => members.isYaml

/-- Whether all items are. -/
def Items.isYaml : Items → Bool
  | .last before item after => before.isYaml && item.isYaml && after.isYaml
  | .more before item after rest => before.isYaml && item.isYaml && after.isYaml && rest.isYaml

/-- Whether all members are. -/
def Members.isYaml : Members → Bool
  | .last before key behindKey behindColon value after =>
    before.isYaml && isKey key behindKey && behindColon.isYaml && value.isYaml && after.isYaml
  | .more before key behindKey behindColon value after rest =>
    before.isYaml && isKey key behindKey && behindColon.isYaml && value.isYaml && after.isYaml &&
      rest.isYaml

end

/-- The names of members. -/
def Members.names : Members → List String
  | .last _ key _ _ _ _ => [key.text]
  | .more _ key _ _ _ _ rest => key.text :: rest.names

mutual

/-- Whether no object has a name twice. -/
def Tree.namesDiffer : Tree → Bool
  | .atom _ | .emptyList _ | .emptyObject _ => true
  | .list items => items.namesDiffer
  | .object members => decide members.names.Nodup && members.namesDiffer

/-- Whether no object among items has a name twice. -/
def Items.namesDiffer : Items → Bool
  | .last _ item _ => item.namesDiffer
  | .more _ item _ rest => item.namesDiffer && rest.namesDiffer

/-- Whether no object among the values of members has a name twice. -/
def Members.namesDiffer : Members → Bool
  | .last _ _ _ _ value _ => value.namesDiffer
  | .more _ _ _ _ value _ rest => value.namesDiffer && rest.namesDiffer

end

namespace Document

/-- Whether a text is read in YAML as it is in JSON. -/
def isYaml (d : Document) : Bool :=
  d.chars.all Yaml.isAcceptable && d.before.isYaml && d.root.isYaml && d.after.isYaml

/-- Whether no object of a document has a name twice. -/
def namesDiffer (d : Document) : Bool := d.root.namesDiffer

end Document
end Json
end ApiManual
