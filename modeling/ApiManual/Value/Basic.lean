import ApiManual.Calendar
import ApiManual.Decimal.Style

/-!
# Descriptor values

What a descriptor is made of before it is known to describe anything: scalars,
lists, mappings with their entries in order, sets, and single pairs.

The keys of mappings are scalars.  Once a descriptor has been read, the keys of
every mapping under mappings and lists are texts; only inside a pair may other
scalars still stand as keys.
-/

namespace ApiManual

/-- A value without parts. -/
inductive Scalar where
  | null
  | bool (b : Bool)
  | int (n : Int)
  | float (x : Binary64)
  | text (s : String)
  | bytes (bs : List UInt8)
  | date (d : Date)
  | moment (t : Moment)
  deriving DecidableEq, Repr

/-- Whether a scalar is a text. -/
def Scalar.isText : Scalar → Bool
  | .text _ => true
  | _ => false

/-- A value of a descriptor. -/
inductive Value where
  | scalar (s : Scalar)
  | list (items : List Value)
  | map (entries : List (Scalar × Value))
  | set (items : List Scalar)
  | pair (first second : Value)
  /-- The place inside a pair at which a value comes back to itself. -/
  | loop
  deriving Repr

namespace Value

/-- Nothing. -/
@[match_pattern] def null : Value := .scalar .null

/-- A truth value. -/
@[match_pattern] def bool (b : Bool) : Value := .scalar (.bool b)

/-- A whole number. -/
@[match_pattern] def int (n : Int) : Value := .scalar (.int n)

/-- A text. -/
@[match_pattern] def text (s : String) : Value := .scalar (.text s)

/-- A mapping whose keys are texts. -/
def record (fields : List (String × Value)) : Value :=
  .map (fields.map fun f => (.text f.1, f.2))

/-- The kinds of value, as far as messages tell them apart. -/
inductive Kind where
  | null | bool | int | float | text | bytes | date | moment | list | map | set | pair
  deriving DecidableEq, Repr

/-- What kind of value this is. -/
def kind : Value → Kind
  | .scalar .null => .null
  | .scalar (.bool _) => .bool
  | .scalar (.int _) => .int
  | .scalar (.float _) => .float
  | .scalar (.text _) => .text
  | .scalar (.bytes _) => .bytes
  | .scalar (.date _) => .date
  | .scalar (.moment _) => .moment
  | .list _ => .list
  | .map _ => .map
  | .set _ => .set
  | .pair _ _ => .pair
  | .loop => .list

/-- What messages call a kind of value. -/
def Kind.name : Kind → String
  | .null => "NoneType"
  | .bool => "bool"
  | .int => "int"
  | .float => "float"
  | .text => "str"
  | .bytes => "bytes"
  | .date => "date"
  | .moment => "datetime"
  | .list => "list"
  | .map => "dict"
  | .set => "set"
  | .pair => "tuple"

end Value
end ApiManual
