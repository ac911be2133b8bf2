import ApiManual.Asciidoc.Table
import ApiManual.Text.Digit

/-!
# Documents of AsciiDoc

A document is a row of blocks and pieces of text, written one after the other.
Only what the manual needs is here.  Section titles have five levels, of which the
first stands right below the title of the document.
-/

namespace ApiManual
namespace Asciidoc

/-- The deepest level of a section. -/
def deepestLevel : Nat := 5

/-- A piece of a document. -/
inductive Block where
  | documentTitle (title : String)
  | sectionTitle (title : String) (level : Nat)
  | raw (text : String)
  | mono (text : String)
  | newLine
  | paragraph (text : String)
  | labeled (term value : String)
  | blockTitle (title : String)
  | source (text language : String)
  | table (header : List String) (rows : List (List String))
  | inclusion (file : String)
  deriving DecidableEq, Repr

/-- Text in a fixed-width font, with no character of it taken as markup. -/
def monoText (text : String) : String := "`+" ++ text ++ "+`"

namespace Block

/-- A piece of a document as text. -/
def text : Block → String
  | .documentTitle t => "= " ++ t ++ "\n\n"
  | .sectionTitle t level => String.ofList (List.replicate (level + 1) '=') ++ " " ++ t ++ "\n\n"
  | .raw t => t
  | .mono t => monoText t
  | .newLine => "\n"
  | .paragraph t => t ++ "\n\n"
  | .labeled term value => term ++ ":: " ++ value ++ "\n"
  | .blockTitle t => "." ++ t ++ "\n"
  | .source t language => "[source," ++ language ++ "]\n----\n" ++ t ++ "\n----\n\n"
  | .table header rows => tableText header rows
  | .inclusion file => "include::" ++ file ++ "[]\n\n"

end Block

/-- What is said of a level that no section title has. -/
def levelRefusal (level : Int) : String :=
  "section level must be between 1 and 5: " ++ Text.intText level

/-- A section title of a level, if there is such a level. -/
def sectionTitle? (title : String) (level : Int) : Except String Block :=
  if 1 ≤ level ∧ level ≤ deepestLevel then .ok (.sectionTitle title level.toNat)
  else .error (levelRefusal level)

/-- The text of a row of blocks. -/
def render : List Block → String
  | [] => ""
  | b :: rest => b.text ++ render rest

@[simp] theorem render_nil : render [] = "" := rfl

@[simp] theorem render_cons (b : Block) (rest : List Block) :
    render (b :: rest) = b.text ++ render rest := rfl

/-- Documents are written one piece after the other. -/
theorem render_append (a b : List Block) : render (a ++ b) = render a ++ render b := by
  induction a with
  | nil => simp
  | cons x rest ih => simp [ih, String.append_assoc]

end Asciidoc
end ApiManual
