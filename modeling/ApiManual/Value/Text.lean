import ApiManual.Value.Basic
import ApiManual.Text.Quoted

/-!
# Values as text

A scalar has two texts.  Its plain text stands where the value itself is wanted, as
a key or in a table; its quoted text stands in messages, where a text must be told
from a number.  Lists and mappings have only the quoted one.

A whole number with too many digits has no text, and neither has what it is part of.
-/

namespace ApiManual

namespace Moment

/-- An offset as messages spell it out, as a span of days and seconds. -/
def quotedOffset (o : Int) : String :=
  if o = 0 then "datetime.timezone.utc"
  else
    let seconds := o * 60
    let days := seconds.fdiv 86400
    let rest := seconds.fmod 86400
    let parts := (if days = 0 then [] else ["days=" ++ Text.intText days]) ++
      (if rest = 0 then [] else ["seconds=" ++ Text.intText rest])
    "datetime.timezone(datetime.timedelta(" ++ ", ".intercalate parts ++ "))"

/-- A moment as messages spell it out.  Seconds and microseconds are left out from
the end while they are zero. -/
def quoted (t : Moment) : String :=
  let tail := if t.microsecond ≠ 0 then [t.second, t.microsecond]
    else if t.second ≠ 0 then [t.second] else []
  let numbers := [t.date.year, t.date.month, t.date.day, t.hour, t.minute] ++ tail
  let zone := match t.offset with
    | some o => ["tzinfo=" ++ quotedOffset o]
    | none => []
  "datetime.datetime(" ++
    ", ".intercalate (numbers.map (fun n : Nat => Text.intText n) ++ zone) ++ ")"

end Moment

namespace Date

/-- A date as messages spell it out. -/
def quoted (d : Date) : String :=
  "datetime.date(" ++
    ", ".intercalate ([d.year, d.month, d.day].map fun n : Nat => Text.intText n) ++ ")"

end Date

namespace Scalar

/-- A scalar as messages show it. -/
def quoted : Scalar → String
  | .null => "None"
  | .bool b => if b then "True" else "False"
  | .int n => Text.intText n
  | .float x => x.text
  | .text s => Text.quoted s
  | .bytes bs => Text.quotedBytes bs
  | .date d => d.quoted
  | .moment t => t.quoted

/-- A scalar as a text of its own. -/
def plain : Scalar → String
  | .text s => s
  | .date d => d.text
  | .moment t => t.text
  | s => s.quoted

/-- Whether a scalar has a text. -/
def hasText : Scalar → Bool
  | .int n => Text.hasIntText n
  | _ => true

@[simp] theorem hasText_text (s : String) : (Scalar.text s).hasText = true := rfl

@[simp] theorem plain_text (s : String) : (Scalar.text s).plain = s := rfl

end Scalar

namespace Value

/-- The quoted texts between brackets. -/
def bracketed (opening closing : String) (parts : List String) : String :=
  opening ++ ", ".intercalate parts ++ closing

/-- A set as messages show it; the empty one has no braces of its own. -/
def quotedSet (items : List Scalar) : String :=
  if items.isEmpty then "set()" else bracketed "\x7b" "\x7d" (items.map Scalar.quoted)

mutual

/-- A value as messages show it. -/
def quoted : Value → String
  | .scalar s => s.quoted
  | .list items => bracketed "[" "]" (quotedItems items)
  | .map entries => bracketed "\x7b" "\x7d" (quotedEntries entries)
  | .set items => quotedSet items
  | .pair a b => bracketed "(" ")" [a.quoted, b.quoted]
  | .loop => "[...]"

/-- The items of a list, each as messages show it. -/
def quotedItems : List Value → List String
  | [] => []
  | v :: rest => v.quoted :: quotedItems rest

/-- The entries of a mapping, each as messages show it. -/
def quotedEntries : List (Scalar × Value) → List String
  | [] => []
  | (k, v) :: rest => (k.quoted ++ ": " ++ v.quoted) :: quotedEntries rest

end

mutual

/-- Whether a value has a text, that is, all scalars in it have one. -/
def hasText : Value → Bool
  | .scalar s => s.hasText
  | .list items => itemsHaveText items
  | .map entries => entriesHaveText entries
  | .set items => items.all Scalar.hasText
  | .pair a b => a.hasText && b.hasText
  | .loop => true

/-- Whether the items of a list have a text. -/
def itemsHaveText : List Value → Bool
  | [] => true
  | v :: rest => v.hasText && itemsHaveText rest

/-- Whether the keys and values of a mapping have a text. -/
def entriesHaveText : List (Scalar × Value) → Bool
  | [] => true
  | (k, v) :: rest => k.hasText && v.hasText && entriesHaveText rest

end

theorem hasText_list_iff {items : List Value} :
    (Value.list items).hasText = true ↔ ∀ v ∈ items, v.hasText = true := by
  rw [hasText]
  induction items with
  | nil => simp [itemsHaveText]
  | cons v rest ih => simp [itemsHaveText, ih]

theorem hasText_map_iff {es : List (Scalar × Value)} :
    (Value.map es).hasText = true ↔ ∀ e ∈ es, e.1.hasText = true ∧ e.2.hasText = true := by
  rw [hasText]
  induction es with
  | nil => simp [entriesHaveText]
  | cons e rest ih => simp [entriesHaveText, ih]

theorem hasText_pair_iff {a b : Value} :
    (Value.pair a b).hasText = true ↔ a.hasText = true ∧ b.hasText = true := by
  rw [hasText, Bool.and_eq_true]

end Value
end ApiManual
