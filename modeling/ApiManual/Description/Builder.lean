import ApiManual.Validation.Description

/-!
# Building catalogs

A catalog can be built entry by entry.  A builder has a dictionary of its own, into
which entries are put one after the other.  An entry that is refused is not put; the
reasons are looked at in a fixed order, the name first.  A catalog that is built is
checked once more, like one that is given as a whole, and gets a dictionary of its
own.

Dictionaries are changed in place.  So the dictionaries of the builder and of the
catalogs that it has built stand in one memory, and whoever has one of them knows its
place.
-/

namespace ApiManual
open Validation

/-- What is put under a name: a value, or an entry that was built before. -/
inductive Offer (α : Type) where
  | given (v : Value)
  | built (entry : α)

namespace Offer

/-- Whether nothing is offered. -/
def isNothing : Offer α → Bool
  | .given (.scalar .null) => true
  | _ => false

/-- What is offered, as an entry. -/
def check [CatalogEntry α] : Offer α → Checked α
  | .given v => CatalogEntry.check v
  | .built entry => .good entry

end Offer

namespace Catalog

/-- Named offers as a catalog. -/
def ofOffers [CatalogEntry α] (offers : List (String × Offer α)) : Checked (Catalog α) :=
  (entries Offer.check offers).obeying (broken? (CatalogEntry.label α))

/-- The names of a catalog, sorted. -/
def names (c : Catalog α) : List String := Text.sortNames (c.map Prod.fst)

end Catalog

/-! ## Memory -/

/-- The dictionaries that have been made, each at its place. -/
structure Memory (α : Type) where
  dictionaries : List (Catalog α)

namespace Memory

/-- The dictionary at a place. -/
def read (m : Memory α) (place : Nat) : Catalog α := m.dictionaries.getD place []

/-- The place of the next dictionary. -/
def next (m : Memory α) : Nat := m.dictionaries.length

/-- The memory with one more dictionary. -/
def withNew (m : Memory α) (c : Catalog α) : Memory α := ⟨m.dictionaries ++ [c]⟩

/-- The memory with an entry put into the dictionary at a place. -/
def withEntry (m : Memory α) (place : Nat) (name : String) (entry : α) : Memory α :=
  ⟨m.dictionaries.modify place (putEntry (fun a b => a = b) name entry)⟩

/-- Makes one more dictionary, and tells its place. -/
def make (c : Catalog α) : StateM (Memory α) Nat := modifyGet fun m => (m.next, m.withNew c)

/-- Puts an entry into the dictionary at a place. -/
def assign (place : Nat) (name : String) (entry : α) : StateM (Memory α) Unit :=
  modify fun m => m.withEntry place name entry

end Memory

/-! ## Builders -/

/-- A builder, known by the place of its dictionary. -/
structure CatalogBuilder (α : Type) where
  place : Nat

namespace CatalogBuilder

/-- Why an entry is not put, or a catalog not built. -/
inductive Refusal where
  /-- The name is none. -/
  | name (label : String) (given : Value)
  /-- The name is none, and has no text with which this could be said. -/
  | untoldName
  /-- The name is taken. -/
  | taken (label : String) (name : String)
  /-- There is no value. -/
  | noValue (label : String) (name : String)
  /-- Something is wrong with the value. -/
  | invalid (label : String) (name : String) (record : String) (issues : List Issue)
  /-- There is no entry. -/
  | empty (label : String)
  /-- Something is wrong with the catalog as a whole. -/
  | catalog (issues : List Issue)

/-- How a refusal is worded; the issues of a value are left to the reader of them. -/
def Refusal.message : Refusal → String
  | .name label given => Name.refusal label given
  | .untoldName => Text.noIntTextMessage
  | .taken label n => label ++ " name not unique: " ++ Text.quoted n
  | .noValue label n => label ++ " " ++ Text.quoted n ++ " requires a value"
  | .invalid label n _ _ => "invalid " ++ label ++ " " ++ Text.quoted n ++ ": "
  | .empty label => "Must have at least one " ++ label
  | .catalog _ => ""

/-- Steps that change dictionaries and may be refused. -/
abbrev Building (α : Type) := ExceptT Refusal (StateM (Memory α))

/-- A builder with a new dictionary, in which nothing is. -/
def new : StateM (Memory α) (CatalogBuilder α) := do
  return ⟨← Memory.make []⟩

variable [CatalogEntry α]

/-- An offer as an entry of its name, beside those that are there already. -/
def accept (there : Catalog α) (name : Value) (offer : Offer α) : Except Refusal (String × α) :=
  let label := CatalogEntry.label α
  match name with
  | .scalar (.text n) =>
    if !Name.isValid n.toList then .error (.name label name)
    else if (there.lookup n).isSome then .error (.taken label n)
    else if offer.isNothing then .error (.noValue label n)
    else match offer.check with
      | .good entry => .ok (n, entry)
      | .bad issues => .error (.invalid label n (CatalogEntry.record α) issues)
  | name => .error (if name.hasText then .name label name else .untoldName)

/-- Puts an offer under a name. -/
def put (b : CatalogBuilder α) (name : Value) (offer : Offer α) : Building α Unit := do
  let (n, entry) ← accept ((← get).read b.place) name offer
  Memory.assign b.place n entry

/-- The catalog of some entries, if there is one. -/
def conclude (there : Catalog α) : Except Refusal (Catalog α) :=
  if there.isEmpty then .error (.empty (CatalogEntry.label α))
  else match Catalog.ofOffers (there.map fun e => (e.1, .built e.2)) with
    | .good c => .ok c
    | .bad issues => .error (.catalog issues)

/-- Makes a catalog of the entries put so far, and tells the place of its dictionary. -/
def build (b : CatalogBuilder α) : Building α Nat := do
  let c ← conclude ((← get).read b.place)
  Memory.make c

/-! ## Calls -/

/-- What a builder can be asked for. -/
inductive Call (α : Type) where
  | put (name : Value) (offer : Offer α)
  | build

/-- What a builder answers. -/
inductive Answer where
  /-- The entry has been put. -/
  | done
  /-- The dictionary of the catalog is at this place. -/
  | catalog (place : Nat)
  | refused (why : Refusal)

/-- The answer that a result comes to. -/
def Answer.ofResult (finished : β → Answer) : Except Refusal β → Answer
  | .ok b => finished b
  | .error why => .refused why

/-- What a builder does when it is asked for something. -/
def call (b : CatalogBuilder α) : Call α → StateM (Memory α) Answer
  | .put name offer => return .ofResult (fun _ => .done) (← (b.put name offer).run)
  | .build => return .ofResult .catalog (← b.build.run)

end CatalogBuilder
end ApiManual
