import ApiManual.Asciidoc.Block
import ApiManual.Description.Basic
import ApiManual.Json.Writer

/-!
# Bodies of documents

What the manual says about a schema and about an operation.  The body of an
operation is its description, a labeled list of what is special to it, the table of
its parameters, the table of its errors by code, and for an action the schemas of
request and response.  What is empty is left out.

A body cannot always be put into words: a schema in it may have no written form, and
neither has the code of an error with too many digits.
-/

namespace ApiManual
namespace Manual

open Asciidoc

/-- How truth values are written. -/
def yesNo (b : Bool) : String := if b then "yes" else "no"

/-- Several texts as one. -/
def commaJoined (texts : List String) : String := ", ".intercalate texts

/-- Texts that are there and not empty. -/
def nonEmpty? (t : Option String) : Option String := t.filter fun s => !s.isEmpty

/-- A paragraph, unless there is nothing to say. -/
def paragraph? (t : Option String) : List Block := (nonEmpty? t).toList.map .paragraph

/-- A schema: a hint at the one it stands for, or its body as indented JSON. -/
def schemaBlocks (s : Schema) : Except Json.WriteFault (List Block) :=
  match nonEmpty? s.reference? with
  | some ref => .ok [.raw "See ", .mono ref, .newLine, .newLine]
  | none => (Json.render s.toValue).map fun json => [.source json "json"]

/-- A schema under a title of its own, if there is one. -/
def titledSchema (title : String) : Option Schema → Except Json.WriteFault (List Block)
  | none => .ok []
  | some s => (schemaBlocks s).map fun blocks => .blockTitle title :: blocks

/-! ## Operations -/

/-- What the labeled list of an operation says. -/
abbrev Attributes := List (String × String)

/-- An attribute, if there is a word for it. -/
def wordAttribute [Choice α] (term : String) (word : Option α) : Attributes :=
  word.toList.map fun a => (term, Choice.spelling a)

/-- An attribute with several texts, unless there are none. -/
def listAttribute (term : String) (texts : List String) : Attributes :=
  if texts.isEmpty then [] else [(term, commaJoined texts)]

/-- The attribute that says whether concurrent changes are told apart. -/
def mvccAttribute (supported : Bool) : Attributes := [("MVCC supported", yesNo supported)]

/-- The header of the table of parameters. -/
def parameterHeader : List String :=
  ["Name", "Type", "Source", "Required", "Default", "Values", "Description"]

/-- The row of a parameter. -/
def parameterRow (p : Parameter) : List String :=
  [p.name, p.type, Choice.spelling p.source, yesNo p.required, p.defaultValue.getD "",
    commaJoined p.enumValues, p.description.getD ""]

/-- The header of the table of errors. -/
def errorHeader : List String := ["Code", "Description"]

/-- The row of an error. -/
def errorRow (e : ApiError) : List String := [Text.intText e.code, e.description]

/-- What is said with the codes of errors, which must have texts. -/
def withCodes (errors : List ApiError) (body : Except Json.WriteFault (List Block)) :
    Except Json.WriteFault (List Block) :=
  if errors.all fun e => Text.hasIntText e.code then body else .error .number

theorem withCodes_eq_ok_iff {errors : List ApiError} {body : Except Json.WriteFault (List Block)}
    {blocks : List Block} : withCodes errors body = .ok blocks ↔
      (∀ e ∈ errors, Text.hasIntText e.code = true) ∧ body = .ok blocks := by
  rw [withCodes, ← List.all_eq_true]
  cases errors.all fun e => Text.hasIntText e.code <;> simp

/-- Nothing is said with the codes if one has no text. -/
theorem withCodes_of_long {errors : List ApiError} {body : Except Json.WriteFault (List Block)}
    {e : ApiError} (mem : e ∈ errors) (long : Text.hasIntText e.code = false) :
    withCodes errors body = .error .number :=
  if_neg fun all => Bool.eq_false_iff.1 long (List.all_eq_true.1 all e mem)

/-- The errors by code, those with one code in the order given. -/
def byCode (errors : List ApiError) : List ApiError :=
  errors.mergeSort fun a b => a.code ≤ b.code

/-- A table under a title, unless it has no rows. -/
def titledTable (title : String) (header : List String) (rows : List (List String)) :
    List Block :=
  if rows.isEmpty then [] else [.blockTitle title, .table header rows]

/-- A labeled list with an empty line after it, unless it is empty. -/
def attributeBlocks (attributes : Attributes) : List Block :=
  if attributes.isEmpty then []
  else attributes.map (fun a => .labeled a.1 a.2) ++ [.newLine]

/-- What the manual says about any operation, with what is special to its kind. -/
def operationBlocks (o : Operation) (own : Attributes) : List Block :=
  paragraph? o.description ++
    attributeBlocks (wordAttribute "Stability" o.stability ++ own ++
      listAttribute "Supported locales" o.supportedLocales) ++
    titledTable "Parameters" parameterHeader (o.parameters.map parameterRow) ++
    titledTable "Errors" errorHeader ((byCode o.errors).map errorRow)

/-- The body of any operation, with what is special to its kind. -/
def operationBody (o : Operation) (own : Attributes) : Except Json.WriteFault (List Block) :=
  withCodes o.errors (.ok (operationBlocks o own))

theorem operationBody_eq_ok_iff {o : Operation} {own : Attributes} {blocks : List Block} :
    operationBody o own = .ok blocks ↔
      (∀ e ∈ o.errors, Text.hasIntText e.code = true) ∧ operationBlocks o own = blocks := by
  rw [operationBody, withCodes_eq_ok_iff, Except.ok.injEq]

/-- The body of a create operation. -/
def createBlocks (c : Create) : Except Json.WriteFault (List Block) :=
  operationBody c.toOperation (wordAttribute "Mode" c.mode ++ mvccAttribute c.mvccSupported)

/-- The body of a read operation. -/
def readBlocks (r : Read) : Except Json.WriteFault (List Block) := operationBody r.toOperation []

/-- The body of an update operation. -/
def updateBlocks (u : Update) : Except Json.WriteFault (List Block) :=
  operationBody u.toOperation (mvccAttribute u.mvccSupported)

/-- The body of a delete operation. -/
def deleteBlocks (d : Delete) : Except Json.WriteFault (List Block) :=
  operationBody d.toOperation (mvccAttribute d.mvccSupported)

/-- The body of a patch operation. -/
def patchBlocks (p : Patch) : Except Json.WriteFault (List Block) :=
  operationBody p.toOperation
    (listAttribute "Patch operations" (p.operations.map Choice.spelling) ++
      mvccAttribute p.mvccSupported)

/-- The body of a query. -/
def queryBlocks (q : Query) : Except Json.WriteFault (List Block) :=
  operationBody q.toOperation
    (("Query type", Choice.spelling q.type) ::
      (nonEmpty? q.queryId).toList.map (fun id => ("Query ID", monoText id)) ++
      wordAttribute "Paging mode" q.pagingMode ++
      listAttribute "Count policies" (q.countPolicies.map Choice.spelling) ++
      listAttribute "Queryable fields" q.queryableFields ++
      listAttribute "Sort keys" q.sortKeys)

/-- The body of an action. -/
def actionBlocks (a : Action) : Except Json.WriteFault (List Block) := do
  let common ← operationBody a.toOperation []
  let request ← titledSchema "Request" a.request
  let response ← titledSchema "Response" a.response
  return common ++ request ++ response

/-! ## Catalogs -/

/-- The body of an error of the catalog. -/
def errorBlocks (e : ApiError) : Except Json.WriteFault (List Block) :=
  withCodes [e] <| (titledSchema "Schema" e.schema).map fun schema =>
    [.labeled "Code" (Text.intText e.code), .newLine, .paragraph e.description] ++ schema

end Manual
end ApiManual
