import ApiManual.Validation.Scalars
import ApiManual.Value.Key

/-!
# Records

The parts of a description are given as mappings from field names to values.  Every
field has two spellings.  When both are given, the first one counts and the other
is an unknown field.  The issues of a record are those of its fields, in the order
of the fields, and then one for each unknown field, in the order given.

The keys in a descriptor that has been read are texts.  In other data they need not
be; then a record is refused, and so is a mapping from names, in which only bytes may
stand for a text.
-/

namespace ApiManual
namespace Validation

/-- A field of a record with its two spellings: words joined by capitals, and words
joined by underscores. -/
structure Field where
  joined : String
  spaced : String
  deriving DecidableEq, Repr

namespace Field

/-- A field whose name is a single word. -/
def word (name : String) : Field := ⟨name, name⟩

/-- Both spellings. -/
def spellings (f : Field) : List String := [f.joined, f.spaced]

/-- The spelling under which the field is given, and its value. -/
def lookup? (f : Field) (entries : List (String × Value)) : Option (String × Value) :=
  match entries.lookup f.joined with
  | some v => some (f.joined, v)
  | none => (entries.lookup f.spaced).map fun v => (f.spaced, v)

/-- Reads a field, or takes `absent` when it is not given. -/
def read (f : Field) (absent : Checked α) (check : Value → Checked α)
    (entries : List (String × Value)) : Checked α :=
  match f.lookup? entries with
  | some (key, v) => (check v).under (.key key)
  | none => absent

/-- A field that has to be given. -/
def required (f : Field) (check : Value → Checked α) (entries : List (String × Value)) :
    Checked α :=
  f.read (.bad [⟨[.key f.joined], .missing⟩]) check entries

/-- A field with a value of its own when it is not given. -/
def defaulted (f : Field) (default : α) (check : Value → Checked α)
    (entries : List (String × Value)) : Checked α :=
  f.read (.good default) check entries

/-- A field that may be left out or empty. -/
def optional (f : Field) (check : Value → Checked α) (entries : List (String × Value)) :
    Checked (Option α) :=
  f.defaulted none (fun v => match v with
    | .scalar .null => .good none
    | v => (check v).map some) entries

end Field

/-- The entries of a mapping whose keys are texts. -/
def entriesOf? : Value → Option (List (String × Value))
  | .map entries =>
    if entries.all fun e => e.1.isText then some (entries.map fun e => (e.1.plain, e.2)) else none
  | _ => none

/-- A key that is a text is the text that it has. -/
theorem text_plain_of_isText {k : Scalar} (h : k.isText = true) : .text k.plain = k := by
  cases k with
  | text s => rfl
  | _ => cases h

/-- Such a mapping is the record of its entries. -/
theorem entriesOf?_eq_some_iff {v : Value} {es : List (String × Value)} :
    entriesOf? v = some es ↔ v = .record es := by
  constructor
  · intro h
    cases v with
    | map entries =>
      obtain ⟨texts, same⟩ := Option.ite_none_right_eq_some.1 h
      obtain rfl := Option.some.inj same
      rw [Value.record, List.map_map]
      refine congrArg Value.map ((List.map_id _).symm.trans (List.map_congr_left fun e mem => ?_))
      exact Prod.ext (text_plain_of_isText (List.all_eq_true.1 texts e mem)).symm rfl
    | _ => cases h
  · rintro rfl
    have texts : ((es.map fun f => (Scalar.text f.1, f.2)).all fun e => e.1.isText) = true := by
      rw [List.all_map]
      exact List.all_eq_true.2 fun _ _ => rfl
    rw [Value.record, entriesOf?, if_pos texts, List.map_map]
    exact congrArg some (List.map_id es)

/-- Whether a key is that of a field. -/
def isRead (fields : List Field) (es : List (String × Value)) (key : String) : Bool :=
  fields.any fun f => (f.lookup? es).any fun found => found.1 = key

/-- What is wrong with the entry under a key, if no field is read from it. -/
def stray? (fields : List Field) (es : List (String × Value)) : Scalar → Option Issue
  | .text key => if isRead fields es key then none else some ⟨[.key key], .unknownField⟩
  | k => some ⟨[.entry k], .unfitKey⟩

/-- The entries under texts. -/
def textEntries (entries : List (Scalar × Value)) : List (String × Value) :=
  (entries.filter fun e => e.1.isText).map fun e => (e.1.plain, e.2)

theorem textEntries_texts (es : List (String × Value)) :
    textEntries (es.map fun e => (.text e.1, e.2)) = es := by
  simp [textEntries, List.filter_map, Scalar.isText, Function.comp_def]

/-- A record of some fields, called `model` where it is refused as a whole. -/
def record (model : String) (fields : List Field)
    (build : List (String × Value) → Checked α) : Value → Checked α
  | .map entries =>
    let es := textEntries entries
    (build es).adding (entries.filterMap fun e => stray? fields es e.1)
  | _ => .refuse (.notModel model)

/-- One issue for each entry that no field is read from. -/
def unknownFields (fields : List Field) (es : List (String × Value)) : List Issue :=
  es.filterMap fun e => stray? fields es (.text e.1)

/-- What stands under texts alone is read from, or it is unknown. -/
theorem record_of_entries {model : String} {fields : List Field}
    {build : List (String × Value) → Checked α} {v : Value} {es : List (String × Value)}
    (hv : entriesOf? v = some es) :
    record model fields build v = (build es).adding (unknownFields fields es) := by
  obtain rfl := entriesOf?_eq_some_iff.1 hv
  rw [Value.record, record, textEntries_texts, List.filterMap_map]
  rfl

/-- The items of a list from an index on. -/
def items (check : Value → Checked α) (index : Nat) : List Value → Checked (List α)
  | [] => .good []
  | v :: rest => .both List.cons ((check v).under (.index index)) (items check (index + 1) rest)

/-- A list; a set will do. -/
def list (check : Value → Checked α) (v : Value) : Checked (List α) :=
  match v with
  | .list vs => items check 0 vs
  | .set vs => items check 0 (vs.map .scalar)
  | _ => .refuse .notList

/-- Named entries in the order given. -/
def entries (check : α → Checked β) : List (String × α) → Checked (List (String × β))
  | [] => .good []
  | (k, v) :: rest =>
    .both (fun b bs => (k, b) :: bs) ((check v).under (.key k)) (entries check rest)

/-- Entries under the texts that their keys spell; nothing if one of them spells none. -/
def spelledEntries? : List (Scalar × Value) → Option (List (String × Value))
  | [] => some []
  | (k, v) :: rest => do return ((← (text (.scalar k)).toOption), v) :: (← spelledEntries? rest)

/-- The entries of a mapping from texts, for which bytes will do.  If some of them spell
a text that is there already, the later entry takes the place of the earlier one. -/
def dictionaryOf? (v : Value) : Option (List (String × Value)) :=
  match entriesOf? v, v with
  | some es, _ => some es
  | none, .map es => (spelledEntries? es).map (putAll fun a b => a = b)
  | none, _ => none

theorem dictionaryOf?_of_entries {v : Value} {es : List (String × Value)}
    (hv : entriesOf? v = some es) : dictionaryOf? v = some es := by
  simp only [dictionaryOf?, hv]

/-- What is wrong with entries, first with the key of each and then with its value. -/
def keyedIssues (check : Value → Checked α) (es : List (Scalar × Value)) : List Issue :=
  es.flatMap fun e =>
    (((text (.scalar e.1)).under .itsKey).under (.under e.1)).issues ++
      ((check e.2).under (.under e.1)).issues

/-- A mapping from texts, read from its entries; `check` is the check of its values. -/
def dictionary (check : Value → Checked α) (read : List (String × Value) → Checked β)
    (v : Value) : Checked β :=
  match dictionaryOf? v, v with
  | some es, _ => read es
  | none, .map es => .bad (keyedIssues check es)
  | none, _ => .refuse .notMapping

theorem dictionary_of_entries {check : Value → Checked α} {read : List (String × Value) → Checked β}
    {v : Value} {es : List (String × Value)} (hv : entriesOf? v = some es) :
    dictionary check read v = read es := by
  simp only [dictionary, dictionaryOf?_of_entries hv]

/-- A mapping from names. -/
def mapping (check : Value → Checked α) : Value → Checked (List (String × α)) :=
  dictionary check (entries check)

/-- The first text of several that occurs a second time, in the order of the second
occurrences. -/
def firstRepeated? (seen : List String) : List String → Option String
  | [] => none
  | s :: rest => if seen.contains s then some s else firstRepeated? (s :: seen) rest

end Validation
end ApiManual
