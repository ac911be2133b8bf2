import ApiManual.Yaml.Scan
import ApiManual.Yaml.Implicit
import ApiManual.Yaml.Problem

/-!
# From tokens to nodes

The tokens of a text are read by the grammar of the format: block collections, which
indentation opens and closes, flow collections in brackets, and scalars; before any
of them its tag and its name.  Where the grammar allows it, nothing at all stands for
an empty scalar.

A node is entered into the graph when it starts, so that a reference inside it finds
it.
-/

namespace ApiManual
namespace Yaml

/-- The nodes that have been read, the names among them, what the handles of tags
stand for, and the tokens that are left. -/
structure Growth where
  tokens : List Token
  fault : ScanFault
  nodes : Array Node
  anchors : List (String × Nat)
  handles : List (String × String)

/-- A step of reading nodes. -/
abbrev Grow := StateT Growth (Except Problem)

/-- What stands before a node: its name, its tag, and where it starts. -/
structure Properties where
  anchor : Option String
  tag : Option String
  start : Mark

namespace Grow

/-! ## Tokens -/

/-- The next token. -/
def peek : Grow Token := do
  let g ← get
  match g.tokens with
  | t :: _ => return t
  | [] => throw g.fault.problem

/-- Goes over the next token. -/
def advance : Grow Unit := modify fun g => { g with tokens := g.tokens.tail }

/-- Whether the next token is one of some kinds. -/
def nextIs (kinds : List TokenKind) : Grow Bool := do
  return kinds.contains (← peek).kind

/-- Goes over the next token if it is of a kind. -/
def accept (kind : TokenKind) : Grow Bool := do
  if (← peek).kind = kind then
    advance
    return true
  else return false

/-- Goes over the next token, which has to be of a kind. -/
def expect (kind : TokenKind) : Grow Unit := do
  if !(← accept kind) then throw .malformed

/-! ## Nodes -/

/-- Enters a node. -/
def enter (n : Node) : Grow Nat := do
  let g ← get
  set { g with nodes := g.nodes.push n }
  return g.nodes.size

/-- Says what a node holds. -/
def fill (n : Nat) (content : Content) : Grow Unit :=
  modify fun g => { g with nodes := g.nodes.modify n fun node => { node with content } }

/-- Where a node starts. -/
def startOf (n : Nat) : Grow Mark := do
  return ((← get).nodes[n]?.map Node.start).getD ⟨0, 0⟩

/-- Enters a node and its name, which no other node may have. -/
def enterNamed (p : Properties) (tag : String) (content : Content) : Grow Nat := do
  match p.anchor with
  | none => enter ⟨tag, p.start, content⟩
  | some name =>
    match (← get).anchors.lookup name with
    | some first => throw (.complaint (.duplicateAnchor name (← startOf first) p.start))
    | none =>
      let n ← enter ⟨tag, p.start, content⟩
      modify fun g => { g with anchors := (name, n) :: g.anchors }
      return n

/-- The node that a name refers to. -/
def named (name : String) (place : Mark) : Grow Nat := do
  match (← get).anchors.lookup name with
  | some n => return n
  | none => throw (.complaint (.undefinedAlias name place))

/-- Enters a scalar that is not written. -/
def enterEmpty (place : Mark) : Grow Nat := enter ⟨Implicit.tag "", place, .scalar ""⟩

/-- The tag of a scalar; the tag that is a mere exclamation mark says no more than
none, and lets quotes not count. -/
def scalarTag (p : Properties) (text : String) (plain : Bool) : String :=
  match p.tag with
  | none => if plain then Implicit.tag text else Tag.text
  | some tag => if tag = "!" then Implicit.tag text else tag

/-- The tag of a collection. -/
def collectionTag (p : Properties) (default : String) : String :=
  match p.tag with
  | none => default
  | some tag => if tag = "!" then default else tag

/-- A tag with what its handle stands for. -/
def fullTag (t : TagText) : Grow String := do
  match t.handle with
  | none => return t.suffix
  | some handle =>
    match (← get).handles.lookup handle with
    | some replacement => return replacement ++ t.suffix
    | none => throw .malformed

/-- Reads the tag before a node, if it has one. -/
def tag? : Grow (Option TagText) := do
  match (← peek).kind with
  | .tag t =>
    advance
    return some t
  | _ => return none

/-- Reads the name before a node, if it has one. -/
def anchor? : Grow (Option String) := do
  match (← peek).kind with
  | .anchor name =>
    advance
    return some name
  | _ => return none

/-- Reads what stands before a node: its name and its tag, in either order. -/
def properties : Grow Properties := do
  let start := (← peek).start
  let (anchor, tag) ← match ← anchor? with
    | some name => pure (some name, ← tag?)
    | none => match ← tag? with
      | some t => pure (← anchor?, some t)
      | none => pure (none, none)
  let tag ← tag.mapM fullTag
  if anchor.isNone && tag.isNone then return ⟨none, none, start⟩
  else
    let _ ← peek
    return ⟨anchor, tag, start⟩

/-- Reads a node that may not be written, if one of some tokens is next. -/
def orEmpty (kinds : List TokenKind) (place : Mark) (written : Grow Nat) : Grow Nat := do
  if ← nextIs kinds then enterEmpty place else written

/-- Reads the value of a key, behind its colon; without the colon it is not
written. -/
def valueOrEmpty (kinds : List TokenKind) (written : Grow Nat) : Grow Nat := do
  let t ← peek
  if ← accept .value then orEmpty kinds t.stop written
  else enterEmpty t.start

/-! ## The grammar -/

mutual

/-- Reads a node.  Block collections are allowed outside of brackets; a sequence
without indentation of its own only inside a mapping. -/
def node (fuel : Nat) (block indentless : Bool) : Grow Nat :=
  match fuel with
  | 0 => throw .malformed
  | fuel + 1 => do
    let t ← peek
    if let .alias name := t.kind then
      advance
      named name t.start
    else
      let p ← properties
      let sequence (items : Grow (List Nat)) : Grow Nat := do
        let n ← enterNamed p (collectionTag p Tag.sequence) (.sequence [])
        fill n (.sequence (← items))
        return n
      let mapping (entries : Grow (List (Nat × Nat))) : Grow Nat := do
        let n ← enterNamed p (collectionTag p Tag.mapping) (.mapping [])
        fill n (.mapping (← entries))
        return n
      let unwritten : Grow Nat :=
        if p.anchor.isNone && p.tag.isNone then throw .malformed
        else enterNamed p (scalarTag p "" true) (.scalar "")
      match (← peek).kind with
      | .scalar text plain =>
        advance
        enterNamed p (scalarTag p text plain) (.scalar text)
      | .flowSequenceStart => sequence do advance; flowItems fuel true
      | .flowMappingStart => mapping do advance; flowEntries fuel true
      | .blockSequenceStart => if block then sequence do advance; blockItems fuel else unwritten
      | .blockMappingStart => if block then mapping do advance; blockEntries fuel else unwritten
      | .blockEntry => if indentless then sequence (indentlessItems fuel) else unwritten
      | _ => unwritten

/-- Reads the items of a block sequence up to its end. -/
def blockItems (fuel : Nat) : Grow (List Nat) :=
  match fuel with
  | 0 => throw .malformed
  | fuel + 1 => do
    let t ← peek
    if ← accept .blockEntry then
      let item ← orEmpty [.blockEntry, .blockEnd] t.stop (node fuel true false)
      return item :: (← blockItems fuel)
    else
      expect .blockEnd
      return []

/-- Reads the items of a sequence that stands at the indentation of its mapping. -/
def indentlessItems (fuel : Nat) : Grow (List Nat) :=
  match fuel with
  | 0 => throw .malformed
  | fuel + 1 => do
    let t ← peek
    if ← accept .blockEntry then
      let item ← orEmpty [.blockEntry, .key, .value, .blockEnd] t.stop (node fuel true false)
      return item :: (← indentlessItems fuel)
    else return []

/-- Reads the entries of a block mapping up to its end. -/
def blockEntries (fuel : Nat) : Grow (List (Nat × Nat)) :=
  match fuel with
  | 0 => throw .malformed
  | fuel + 1 => do
    let t ← peek
    if ← accept .key then
      let ends : List TokenKind := [.key, .value, .blockEnd]
      let key ← orEmpty ends t.stop (node fuel true true)
      let value ← valueOrEmpty ends (node fuel true true)
      return (key, value) :: (← blockEntries fuel)
    else
      expect .blockEnd
      return []

/-- Reads the items of a sequence in brackets.  An item that is written as the entry
of a mapping is a mapping with this entry. -/
def flowItems (fuel : Nat) (first : Bool) : Grow (List Nat) :=
  match fuel with
  | 0 => throw .malformed
  | fuel + 1 => do
    if ← accept .flowSequenceEnd then return []
    else
      if !first then expect .flowEntry
      let t ← peek
      if ← accept .key then
        let n ← enter ⟨Tag.mapping, t.start, .mapping []⟩
        let key ← orEmpty [.value, .flowEntry, .flowSequenceEnd] t.stop (node fuel false false)
        let value ← valueOrEmpty [.flowEntry, .flowSequenceEnd] (node fuel false false)
        fill n (.mapping [(key, value)])
        return n :: (← flowItems fuel false)
      else if ← accept .flowSequenceEnd then return []
      else
        let item ← node fuel false false
        return item :: (← flowItems fuel false)

/-- Reads the entries of a mapping in brackets.  An entry may be a key alone. -/
def flowEntries (fuel : Nat) (first : Bool) : Grow (List (Nat × Nat)) :=
  match fuel with
  | 0 => throw .malformed
  | fuel + 1 => do
    if ← accept .flowMappingEnd then return []
    else
      if !first then expect .flowEntry
      let t ← peek
      if ← accept .key then
        let key ← orEmpty [.value, .flowEntry, .flowMappingEnd] t.stop (node fuel false false)
        let value ← valueOrEmpty [.flowEntry, .flowMappingEnd] (node fuel false false)
        return (key, value) :: (← flowEntries fuel false)
      else if ← accept .flowMappingEnd then return []
      else
        let key ← node fuel false false
        let value ← enterEmpty (← peek).start
        return (key, value) :: (← flowEntries fuel false)

end

/-! ## Documents -/

/-- Goes over the marks for the end of a document. -/
def skipDocumentEnds (fuel : Nat) : Grow Unit :=
  match fuel with
  | 0 => return
  | fuel + 1 => do
    if ← accept .documentEnd then skipDocumentEnds fuel

/-- Reads the directives before a document; `version` says whether its version has
been given. -/
def directives (fuel : Nat) (version : Bool) (handles : List (String × String)) :
    Grow (List (String × String)) :=
  match fuel with
  | 0 => throw .malformed
  | fuel + 1 => do
    match (← peek).kind with
    | .directive (.version major) =>
      if version || major ≠ 1 then throw .malformed
      else
        advance
        directives fuel true handles
    | .directive (.handle handle replacement) =>
      if (handles.lookup handle).isSome then throw .malformed
      else
        advance
        directives fuel version (handles ++ [(handle, replacement)])
    | .directive .other =>
      advance
      directives fuel version handles
    | _ => return handles

/-- Reads the start of a document that is marked; nothing if the text ends.  The
result is the place of its first directive or of its mark. -/
def documentStart : Grow (Option Mark) := do
  let fuel := (← get).tokens.length + 1
  skipDocumentEnds fuel
  let t ← peek
  if t.kind = .streamEnd then return none
  else
    let handles ← directives fuel false []
    modify fun g => { g with handles := handles ++ Tag.defaultHandles }
    expect .documentStart
    return some t.start

/-- Whether a token makes the start of a document visible. -/
def marksDocument : TokenKind → Bool
  | .directive _ => true
  | .documentStart => true
  | .streamEnd => true
  | _ => false

/-- Reads the outermost node of a document whose start is marked. -/
def documentContent (fuel : Nat) : Grow Nat := do
  let t ← peek
  if marksDocument t.kind || t.kind = .documentEnd then enterEmpty t.start
  else node fuel true false

/-- Reads the only document, if there is one. -/
def document (fuel : Nat) : Grow (Option Nat) := do
  let root ←
    if marksDocument (← peek).kind then
      match ← documentStart with
      | none => pure none
      | some _ => some <$> documentContent fuel
    else some <$> node fuel true false
  match root with
  | none => return none
  | some n =>
    let _ ← accept .documentEnd
    match ← documentStart with
    | none => return some n
    | some place => throw (.complaint (.secondDocument (← startOf n) place))

end Grow

/-- The nodes of a row of tokens. -/
def Graph.ofTokens (row : TokenRow) : Except Problem Graph := do
  let (root, g) ← (Grow.document (2 * row.tokens.length + 4)).run
    ⟨row.tokens, row.fault, #[], [], Tag.defaultHandles⟩
  return ⟨g.nodes, root⟩

/-- The nodes of a text. -/
def Graph.ofChars (cs : List Char) : Except Problem Graph :=
  if cs.all isAcceptable then Graph.ofTokens (TokenRow.ofChars cs) else .error .malformed

end Yaml
end ApiManual
