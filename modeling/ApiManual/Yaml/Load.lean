import ApiManual.Yaml.Graph
import ApiManual.Value.Key

/-!
# From nodes to values

A node becomes the value that its tag asks for.  Lists, sets and lists of pairs
come into being empty and get their items later, in the order in which they were
met; so a list may contain itself.  A mapping is made with all its entries at once,
and cannot be among them.

A mapping may take over the entries of other mappings: those under its merge keys
come in front of its own, and an own entry with the same key wins.  The entries are
put into the node itself, and this may happen before the node is made into a value,
when another mapping takes over its entries.

No mapping may have a key twice.  `unique` says whether this is looked for; it is
looked for in a node as it stands when it is made into a value.
-/

namespace ApiManual
namespace Yaml

/-- What a node has been made into; the parts are numbers of nodes. -/
inductive Made where
  | scalar (s : Scalar)
  | list (items : List Nat)
  | pairs (items : List (Nat × Nat))
  | map (entries : List (Scalar × Nat))
  | set (items : List Scalar)
  deriving DecidableEq

/-- Nodes on their way to values. -/
structure Loading where
  nodes : Array Node
  /-- What has been made of them. -/
  made : Array (Option Made)
  /-- The nodes that are being made into values. -/
  active : List Nat
  /-- The nodes whose items are still missing. -/
  waiting : List Nat

/-- A step on the way. -/
abbrev Load := StateT Loading (Except Problem)

namespace Load

/-- A complaint ends the way. -/
def complain (c : Complaint) : Load α := throw (.complaint c)

/-- Something that nothing looks for ends the way. -/
def breakDown (b : Breakdown) : Load α := throw (.breakdown b)

/-- The node of a number. -/
def nodeAt (n : Nat) : Load Node := do
  match (← get).nodes[n]? with
  | some node => return node
  | none => breakDown .endlessValue

/-- What a node has been made into. -/
def madeOf (n : Nat) : Load (Option Made) := do
  return ((← get).made[n]?).join

/-- Says what a node has been made into. -/
def record (n : Nat) (m : Made) : Load Unit :=
  modify fun s => { s with made := s.made.setIfInBounds n (some m) }

/-- Whether a node has a tag. -/
def hasTag (tag : String) (n : Nat) : Load Bool := do
  return ((← get).nodes[n]?.map Node.tag) = some tag

/-- Puts other entries into a mapping. -/
def setEntries (n : Nat) (entries : List (Nat × Nat)) : Load Unit :=
  modify fun s => { s with nodes := s.nodes.modify n fun node => { node with content := .mapping entries } }

/-- The entries of a mapping as they are now. -/
def entriesOf (n : Nat) : Load (List (Nat × Nat)) := do
  return Graph.entries (← get).nodes n

/-! ## Scalars -/

/-- The first value under a key with a tag. -/
def underTag? (tag : String) : List (Nat × Nat) → Load (Option Nat)
  | [] => return none
  | (k, v) :: rest => do
    if ← hasTag tag k then return some v else underTag? tag rest

/-- The text of a scalar; a mapping with an equals sign for a key stands for the
value under it. -/
def scalarText (fuel : Nat) (n : Nat) : Load String :=
  match fuel with
  | 0 => breakDown .endlessValue
  | fuel + 1 => do
    let node ← nodeAt n
    match node.content with
    | .scalar text => return text
    | .sequence _ => complain (.wrongKind .scalar .sequence node.start)
    | .mapping entries =>
      match ← underTag? Tag.value entries with
      | some v => scalarText fuel v
      | none => complain (.wrongKind .scalar .mapping node.start)

/-- A fault of a number ends the way. -/
def number (r : Except NumberFault α) : Load α :=
  match r with
  | .ok x => return x
  | .error .unreadable => breakDown .badNumber
  | .error .empty => breakDown .emptyNumber
  | .error .unbounded => breakDown .endlessNumber

/-- The truth value of a word in any case. -/
def truth (text : String) : Load Bool :=
  match Implicit.truthWords.lookup (String.ofList (text.toList.map Char.toLower)) with
  | some b => return b
  | none => breakDown .badTruth

/-- The bytes of a text in base 64. -/
def bytes (text : String) (place : Mark) : Load (List UInt8) :=
  let cs := text.toList
  let ascii (c : Char) : Bool := c.toNat < 128
  let first := (cs.takeWhile ascii).length
  match cs.drop first with
  | c :: rest =>
    complain (.notAscii c first (first + (rest.takeWhile fun c => !ascii c).length) place)
  | [] => match Text.decodeBase64 cs with
    | .ok bs => return bs
    | .error fault => complain (.notBase64 fault place)

/-- The date or moment of a node. -/
def moment (node : Node) : Load Scalar :=
  match node.content with
  | .scalar text =>
    match WrittenMoment.ofChars? (Implicit.withoutLineEnd text.toList) with
    | none => breakDown .badMoment
    | some w => match w.scalar? with
      | some s => return s
      | none => breakDown .noSuchMoment
  | _ => breakDown .mappedMoment

/-- The kinds of scalar that a tag can ask for. -/
inductive ScalarTag where
  | null | bool | int | float | binary | timestamp | text
  deriving DecidableEq

/-- The kind of scalar that a tag asks for. -/
def scalarTag? (tag : String) : Option ScalarTag :=
  [(Tag.null, ScalarTag.null), (Tag.bool, .bool), (Tag.int, .int), (Tag.float, .float),
    (Tag.binary, .binary), (Tag.timestamp, .timestamp), (Tag.text, .text)].lookup tag

/-- The scalar of a node. -/
def scalar (kind : ScalarTag) (node : Node) (text : String) : Load Scalar :=
  match kind with
  | .null => return .null
  | .bool => .bool <$> truth text
  | .int => .int <$> number (Number.whole text)
  | .float => .float <$> number (Number.fractional text)
  | .binary => .bytes <$> bytes text node.start
  | .timestamp => moment node
  | .text => return .text text

/-! ## Taking over entries -/

/-- Takes the first entry under a merge key out of a list of entries. -/
def takeMerge : List (Nat × Nat) → Load (Option (Nat × List (Nat × Nat)))
  | [] => return none
  | (k, v) :: rest => do
    if ← hasTag Tag.merge k then return some (v, rest)
    else return (← takeMerge rest).map fun r => (r.1, (k, v) :: r.2)

/-- The keys that are an equals sign are texts. -/
def nameEqualsSigns (entries : List (Nat × Nat)) : Load Unit :=
  entries.forM fun e => do
    if ← hasTag Tag.value e.1 then
      modify fun s => { s with nodes := s.nodes.modify e.1 fun node => { node with tag := Tag.text } }

/-- The entries of several mappings that are taken over, those of the last one first. -/
def gather (flatten : Nat → Load Unit) (mapping : Mark) (items : List Nat) :
    Load (List (Nat × Nat)) :=
  match items with
  | [] => return []
  | item :: rest => do
    let node ← nodeAt item
    match node.content with
    | .mapping _ =>
      flatten item
      let entries ← entriesOf item
      return (← gather flatten mapping rest) ++ entries
    | _ => complain (.mergedItem node.kind mapping node.start)

/-- Puts the entries that a mapping takes over into it; `merged` are those that were
found already.  Every step takes a merge key away, and none is ever added. -/
def flatten (fuel : Nat) (merged : List (Nat × Nat)) (n : Nat) : Load Unit :=
  match fuel with
  | 0 => breakDown .endlessValue
  | fuel + 1 => do
    let entries ← entriesOf n
    match ← takeMerge entries with
    | none =>
      nameEqualsSigns entries
      setEntries n (merged ++ entries)
    | some (v, rest) =>
      setEntries n rest
      let mapping := (← nodeAt n).start
      let source ← nodeAt v
      let more ← match source.content with
        | .mapping _ => do
          flatten fuel [] v
          entriesOf v
        | .sequence items => gather (flatten fuel []) mapping items
        | .scalar _ => complain (.mergedScalar mapping source.start)
      flatten fuel (merged ++ more) n

/-- How many entries all mappings have together. -/
def countEntries (nodes : Array Node) : Nat :=
  nodes.foldl (fun n node => match node.content with
    | .mapping entries => n + entries.length
    | _ => n) 0

/-! ## Mappings -/

/-- Refuses a key that is among others already.  Collections are passed over here;
the mapping refuses them when it is made. -/
def checkUnique (make : Nat → Load Made) (mapping : Mark) (seen : List Scalar) :
    List (Nat × Nat) → Load Unit
  | [] => return
  | (k, _) :: rest => do
    if ← hasTag Tag.merge k then checkUnique make mapping seen rest
    else match ← make k with
      | .scalar s =>
        if seen.any fun t => t.sameKey s then
          throw (.repeatedKey s mapping (← nodeAt k).start)
        else checkUnique make mapping (s :: seen) rest
      | .set _ => breakDown .setKey
      | _ => checkUnique make mapping seen rest

/-- Makes the entries of a mapping. -/
def makeEntries (make : Nat → Load Made) (mapping : Mark) (taken : List (Scalar × Nat)) :
    List (Nat × Nat) → Load (List (Scalar × Nat))
  | [] => return taken
  | (k, v) :: rest => do
    match ← make k with
    | .scalar s =>
      let _ ← make v
      makeEntries make mapping (putEntry Scalar.sameKey s v taken) rest
    | _ => complain (.unhashableKey mapping (← nodeAt k).start)

/-- The entries of a mapping with those that it takes over. -/
def mapping (make : Nat → Load Made) (n : Nat) : Load (List (Scalar × Nat)) := do
  let node ← nodeAt n
  match node.content with
  | .mapping _ =>
    flatten (countEntries (← get).nodes + 1) [] n
    makeEntries make node.start [] (← entriesOf n)
  | _ => complain (.wrongKind .mapping node.kind node.start)

/-- Refuses a mapping with a key that it has twice. -/
def refuseDuplicates (make : Nat → Load Made) (node : Node) : Load Unit :=
  match node.content with
  | .mapping entries => checkUnique make node.start [] entries
  | .scalar text => if text.isEmpty then return else breakDown .textAsMapping
  | .sequence items => if items.isEmpty then return else breakDown .sequenceAsMapping

/-! ## Nodes -/

/-- The kinds of collection whose items come later. -/
inductive CollectionTag where
  | sequence | set | pairList (what : PairList)
  deriving DecidableEq

/-- The kind of collection that a tag asks for. -/
def collectionTag? (tag : String) : Option CollectionTag :=
  [(Tag.sequence, CollectionTag.sequence), (Tag.set, .set), (Tag.orderedMap, .pairList .orderedMap),
    (Tag.pairs, .pairList .pairs)].lookup tag

/-- A collection without items. -/
def CollectionTag.empty : CollectionTag → Made
  | .sequence => .list []
  | .set => .set []
  | .pairList _ => .pairs []

/-- Makes something new of a node. -/
def construct (unique : Bool) (make : Nat → Load Made) (n : Nat) : Load Made := do
  let node ← nodeAt n
  match scalarTag? node.tag, collectionTag? node.tag with
  | some kind, _ =>
    let text ← scalarText ((← get).nodes.size + 1) n
    .scalar <$> scalar kind node text
  | none, some kind =>
    modify fun s => { s with waiting := s.waiting ++ [n] }
    return kind.empty
  | none, none =>
    if node.tag = Tag.mapping then
      if unique then refuseDuplicates make node
      .map <$> mapping make n
    else complain (.unknownTag node.tag node.start)

/-- Makes a node into a value, unless that has been done. -/
def make (unique : Bool) (fuel : Nat) (n : Nat) : Load Made :=
  match fuel with
  | 0 => breakDown .endlessValue
  | fuel + 1 => do
    match ← madeOf n with
    | some m => return m
    | none =>
      if (← get).active.contains n then complain (.selfContained (← nodeAt n).start)
      modify fun s => { s with active := n :: s.active }
      let m ← construct unique (make unique fuel) n
      record n m
      modify fun s => { s with active := s.active.tail }
      return m

/-- The pair that an item of a list of pairs stands for. -/
def pairOf (what : PairList) (list : Mark) (item : Nat) : Load (Nat × Nat) := do
  let node ← nodeAt item
  match node.content with
  | .mapping [e] => return e
  | .mapping entries => complain (.notSingle what entries.length list node.start)
  | _ => complain (.notPair what node.kind list node.start)

/-- Makes the pairs of a list. -/
def makePairs (make : Nat → Load Made) (what : PairList) (list : Mark) (items : List Nat) :
    Load (List (Nat × Nat)) :=
  items.mapM fun item => do
    let e ← pairOf what list item
    let _ ← make e.1
    let _ ← make e.2
    return e

/-- Makes the items of a collection. -/
def complete (make : Nat → Load Made) (n : Nat) : Load Unit := do
  let node ← nodeAt n
  match collectionTag? node.tag with
  | some .sequence =>
    match node.content with
    | .sequence items =>
      items.forM fun item => discard (make item)
      record n (.list items)
    | _ => complain (.wrongKind .sequence node.kind node.start)
  | some .set => record n (.set ((← mapping make n).map Prod.fst))
  | some (.pairList what) =>
    match node.content with
    | .sequence items => record n (.pairs (← makePairs make what node.start items))
    | _ => complain (.notPairs what node.kind node.start)
  | none => return

/-- Makes the items of all collections that wait for them, in the order in which they
were met. -/
def completeAll (make : Nat → Load Made) (fuel : Nat) : Load Unit :=
  match fuel with
  | 0 => breakDown .endlessValue
  | fuel + 1 => do
    match (← get).waiting with
    | [] => return
    | n :: rest =>
      modify fun s => { s with waiting := rest }
      complete make n
      completeAll make fuel

/-- Makes a node and all that belongs to it. -/
def all (unique : Bool) (n : Nat) : Load Unit := do
  let make := make unique ((← get).nodes.size + 1)
  let _ ← make n
  completeAll make ((← get).nodes.size + 1)

end Load

/-- A value from what its nodes were made into.  Outside of pairs a value must not
contain itself; inside it comes to an end where it does. -/
def Made.value (made : Array (Option Made)) (fuel : Nat) (inPair : Bool) (outer : List Nat)
    (n : Nat) : Except Problem Value :=
  match fuel with
  | 0 => .error (.breakdown .endlessValue)
  | fuel + 1 =>
    if outer.contains n then
      if inPair then .ok .loop else .error (.breakdown .endlessValue)
    else match made[n]?.join with
      | none => .error (.breakdown .endlessValue)
      | some (.scalar s) => .ok (.scalar s)
      | some (.set items) => .ok (.set items)
      | some (.list items) => .list <$> items.mapM (Made.value made fuel inPair (n :: outer))
      | some (.map entries) =>
        .map <$> entries.mapM fun e => (e.1, ·) <$> Made.value made fuel inPair (n :: outer) e.2
      | some (.pairs items) =>
        let inside := Made.value made fuel true (if inPair then n :: outer else [])
        .list <$> items.mapM fun e => do return .pair (← inside e.1) (← inside e.2)

/-- What the nodes of a text were made into, and the outermost of them, if there is
one. -/
structure Loaded where
  made : Array (Option Made)
  root : Option Nat

namespace Loaded

/-- Whether the text holds a mapping. -/
def isMapping (l : Loaded) : Bool :=
  match l.root.bind fun n => l.made[n]?.join with
  | some (.map _) => true
  | _ => false

/-- The value that the text holds; a text without nodes holds nothing. -/
def value (l : Loaded) : Except Problem Value :=
  match l.root with
  | none => .ok .null
  | some n => Made.value l.made (2 * l.made.size + 2) false [] n

end Loaded

/-- Makes the nodes of a text into values. -/
def Graph.load (unique : Bool) (g : Graph) : Except Problem Loaded :=
  match g.root with
  | none => .ok ⟨#[], none⟩
  | some n => do
    let (_, s) ← (Load.all unique n).run ⟨g.nodes, Array.replicate g.nodes.size none, [], []⟩
    return ⟨s.made, some n⟩

/-- Reads a text in which no mapping may have a key twice. -/
def load (cs : List Char) : Except Problem Loaded := do
  (← Graph.ofChars cs).load true

end Yaml
end ApiManual
