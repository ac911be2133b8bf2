import ApiManual.Proofs.Json.Writable
import ApiManual.Proofs.Manual.ShownText
import ApiManual.Proofs.Validation.Accepted
import ApiManual.Proofs.Value.Named
import ApiManual.Proofs.Yaml.Values

/-!
# What stands in the schemas of a descriptor

The body of a schema is taken as it is: every schema of a description is a part of the value that
the description is read from, and one that stands in no pair (`Description.hasOuterPart_schema`).

Still it is not any value.  When a descriptor has been read, keys have been named and a value that
holds itself has been refused, everywhere but inside pairs.  So outside of pairs a schema has
texts for keys and comes to an end (`Descriptor.isTidy_of_accepted`).  If its numbers have texts,
then only inside a pair can there be something in the way of writing it
(`Value.IsTidy.exists_pair`).
-/

namespace ApiManual

open Validation Checked

namespace Value

/-! ## Outer parts -/

theorem HasOuterPart.trans {u v w : Value} (h : u.HasOuterPart v) (h' : v.HasOuterPart w) :
    u.HasOuterPart w := by
  induction h with
  | self => exact h'
  | item mem _ ih => exact .item mem (ih h')
  | entry mem _ ih => exact .entry mem (ih h')

/-- Spelling the keys of entries leaves their values. -/
theorem snd_of_spelledEntries? {es : List (Scalar × Value)} {fs : List (String × Value)}
    (h : spelledEntries? es = some fs) : fs.map Prod.snd = es.map Prod.snd := by
  induction es generalizing fs with
  | nil =>
    cases h
    rfl
  | cons e rest ih =>
    obtain ⟨k, v⟩ := e
    obtain ⟨s, -, h⟩ := Option.bind_eq_some_iff.1 h
    obtain ⟨others, spelled, h⟩ := Option.bind_eq_some_iff.1 h
    cases h
    rw [List.map_cons, List.map_cons, ih spelled]

/-- What an entry is given is an outer part. -/
theorem hasOuterPart_of_mem {v : Value} {es : List (String × Value)}
    (hv : dictionaryOf? v = some es) {e : String × Value} (mem : e ∈ es) : v.HasOuterPart e.2 := by
  cases v with
  | map entries =>
    have given {w : Value} (value : w ∈ entries.map Prod.snd) :
        (Value.map entries).HasOuterPart w := by
      obtain ⟨entry, inside, rfl⟩ := List.mem_map.1 value
      exact .entry inside (.self _)
    cases texts : entriesOf? (.map entries) with
    | some fs =>
      rw [dictionaryOf?_of_entries texts] at hv
      cases hv
      obtain ⟨-, same⟩ := Option.ite_none_right_eq_some.1 texts
      obtain rfl := Option.some.inj same
      obtain ⟨entry, inside, rfl⟩ := List.mem_map.1 mem
      exact given (List.mem_map_of_mem inside)
    | none =>
      simp only [dictionaryOf?, texts] at hv
      obtain ⟨fs, spelled, rfl⟩ := Option.map_eq_some_iff.1 hv
      have all : ∀ f ∈ fs, True ∧ (Value.map entries).HasOuterPart f.2 := fun f inside =>
        ⟨trivial, given (snd_of_spelledEntries? spelled ▸ List.mem_map_of_mem inside)⟩
      exact (forall_mem_putAll (fun _ => True) _ all e mem).2
  | _ => cases hv

/-- Outside of pairs the keys of a value are texts, and it comes to an end. -/
structure IsTidy (v : Value) : Prop where
  named : v.IsNamed
  ends : ¬ v.HasOuterPart .loop

theorem IsNamed.of_hasOuterPart {v w : Value} (named : v.IsNamed) (part : v.HasOuterPart w) :
    w.IsNamed := by
  induction part with
  | self => exact named
  | item mem _ ih => exact ih (isNamed_list.1 named _ mem)
  | entry mem _ ih => exact ih ((isNamed_map.1 named).2 _ mem)

/-- The outer parts of a tidy value are tidy. -/
theorem IsTidy.of_hasOuterPart {v w : Value} (tidy : v.IsTidy) (part : v.HasOuterPart w) :
    w.IsTidy := ⟨tidy.named.of_hasOuterPart part, fun ends => tidy.ends (part.trans ends)⟩

theorem holds_of_hasOuterPart {v : Value} {es : List (Scalar × Value)}
    (part : v.HasOuterPart (.map es)) : v.Holds es := by
  generalize whole : Value.map es = w at part
  induction part with
  | self v =>
    cases whole
    exact .here es
  | item mem _ ih => exact .item mem (ih whole)
  | entry mem _ ih => exact .entry mem (ih whole)

/-- **What else is in the way of writing such a value stands in a pair**, if its numbers have
texts. -/
theorem IsTidy.exists_pair {v : Value} (tidy : v.IsTidy) (numbers : v.hasText = true)
    (unwritable : ¬ v.IsWritable) : ∃ a b, v.HasOuterPart (.pair a b) ∧ (¬ a.IsWritable ∨ ¬ b.IsWritable) := by
  by_contra none
  refine unwritable
    (isWritable_of_pairs (fun es part e mem => ?keys) tidy.ends numbers fun a b part => ?pair)
  case keys =>
    obtain ⟨texts, -⟩ := tidy.named es (holds_of_hasOuterPart part)
    obtain ⟨t, text⟩ := exists_text_of_isText (texts e mem)
    rw [text]
    rfl
  case pair =>
    by_contra some
    exact none ⟨a, b, part, not_and_or.1 some⟩

/-! ## Reading keeps values tidy -/

mutual

/-- A value comes to an end when its keys are named, if it does before. -/
theorem ends_nameKeys : ∀ v : Value, ¬ v.HasOuterPart .loop → ¬ v.nameKeys.HasOuterPart .loop
  | .scalar s, ends => by rwa [nameKeys.eq_def]
  | .set items, ends => by rwa [nameKeys.eq_def]
  | .pair a b, ends => by rwa [nameKeys.eq_def]
  | .loop, ends => by rwa [nameKeys.eq_def]
  | .list items, ends => by
    rw [nameKeys]
    rintro (_ | ⟨mem, part⟩)
    exact ends_nameKeysItems items (fun v mem part => ends (.item mem part)) _ mem part
  | .map es, ends => by
    have all := ends_nameKeysEntries es fun e mem part => ends (.entry mem part)
    have put : ∀ e ∈ putAll Scalar.sameKey (nameKeysEntries es),
        True ∧ ¬ e.2.HasOuterPart .loop :=
      forall_mem_putAll (fun _ => True) (fun v => ¬ v.HasOuterPart .loop)
        fun e mem => ⟨trivial, all e mem⟩
    rw [nameKeys]
    rintro (_ | _ | ⟨mem, part⟩)
    exact (put _ mem).2 part

theorem ends_nameKeysItems : ∀ items : List Value, (∀ v ∈ items, ¬ v.HasOuterPart .loop) →
    ∀ v ∈ nameKeysItems items, ¬ v.HasOuterPart .loop
  | [], _ => nofun
  | v :: rest, ends => by
    obtain ⟨first, others⟩ := List.forall_mem_cons.1 ends
    rw [nameKeysItems]
    exact List.forall_mem_cons.2 ⟨ends_nameKeys v first, ends_nameKeysItems rest others⟩

theorem ends_nameKeysEntries : ∀ es : List (Scalar × Value),
    (∀ e ∈ es, ¬ e.2.HasOuterPart .loop) → ∀ e ∈ nameKeysEntries es, ¬ e.2.HasOuterPart .loop
  | [], _ => nofun
  | (k, v) :: rest, ends => by
    obtain ⟨first, others⟩ := List.forall_mem_cons.1 ends
    rw [nameKeysEntries]
    exact List.forall_mem_cons.2 ⟨ends_nameKeys v first, ends_nameKeysEntries rest others⟩

end

end Value

namespace Yaml

/-- Outside of pairs, a value that is made comes to an end. -/
theorem ends_of_value {made : Array (Option Made)} {fuel : Nat} {outer : List Nat} {n : Nat}
    {v : Value} (h : Made.value made fuel false outer n = .ok v) : ¬ v.HasOuterPart .loop := by
  refine Made.value_induction
    (motive := fun inPair v => inPair = false → ¬ v.HasOuterPart .loop)
    ?loop ?scalar ?set ?list ?map ?pairs h rfl
  case loop => rintro ⟨⟩
  case scalar => rintro _ _ _ ⟨⟩
  case set => rintro _ _ _ ⟨⟩
  case list =>
    rintro _ vs ih out (_ | ⟨mem, part⟩)
    exact ih _ mem out part
  case map =>
    rintro _ _ _ es - - ih out (_ | _ | ⟨mem, part⟩)
    exact ih _ mem out part
  case pairs =>
    rintro _ vs parts - (_ | ⟨mem, part⟩)
    obtain ⟨a, b, rfl, -, -⟩ := parts _ mem
    cases part

end Yaml

/-! ## The schemas of a description -/

/-- The schemas of an action. -/
def Action.schemas (a : Action) : List Schema := a.request.toList ++ a.response.toList

/-- The schemas of a resource whose bodies a manual shows. -/
def Resource.schemas (r : Resource) : List Schema :=
  r.resourceSchema.toList ++ r.actions.flatMap Action.schemas

/-- The schemas of all resources of a table. -/
def PathTable.schemas : PathTable → List Schema
  | .flat entries => entries.flatMap fun e => e.2.schemas
  | .versioned entries => entries.flatMap fun e => e.2.flatMap fun version => version.2.schemas
  | .unsupported _ => []

/-- The schemas of a description whose bodies a manual shows. -/
def Description.schemas (d : Description) : List Schema :=
  d.paths.toList.flatMap PathTable.schemas ++ (d.definitions.getD []).map Prod.snd ++
    (d.errors.getD []).flatMap fun e => e.2.schema.toList

/-- The schemas that come with the errors of an operation, which no manual shows. -/
def Operation.errorSchemas (o : Operation) : List Schema :=
  o.errors.flatMap fun e => e.schema.toList

/-- The operations of a resource, those with names of their own and queries included. -/
def Resource.allOperations (r : Resource) : List Operation :=
  r.operations ++ r.actions.map Action.toOperation ++ r.queries.map Query.toOperation

/-- The resources of a table. -/
def PathTable.resources : PathTable → List Resource
  | .flat entries => entries.map Prod.snd
  | .versioned entries => entries.flatMap fun e => e.2.map Prod.snd
  | .unsupported _ => []

/-- All schemas of a description, shown or not. -/
def Description.allSchemas (d : Description) : List Schema :=
  d.schemas ++ (d.paths.toList.flatMap PathTable.resources).flatMap fun r =>
    r.allOperations.flatMap Operation.errorSchemas

/-- The schemas of a table are those of its resources. -/
theorem PathTable.schemas_eq (t : PathTable) :
    t.schemas = t.resources.flatMap Resource.schemas := by
  cases t with
  | flat entries => rw [schemas, resources, List.flatMap_map]
  | versioned entries =>
    simp only [schemas, resources, List.flatMap_assoc, List.flatMap_map]
  | unsupported kind => rfl

/-! ### Where they are read -/

namespace Validation

/-- Something is read from an outer part of a value. -/
def IsReadIn {α : Type} (check : Value → Checked α) (a : α) (v : Value) : Prop :=
  ∃ w, v.HasOuterPart w ∧ check w = .good a

namespace IsReadIn

variable {α β : Type} {check : Value → Checked α} {v : Value} {es : List (String × Value)}

theorem bind {check' : Value → Checked β} {a : α} {b : β} (h : IsReadIn check a v)
    (next : ∀ w, check w = .good a → IsReadIn check' b w) : IsReadIn check' b v := by
  obtain ⟨w, part, good⟩ := h
  obtain ⟨u, part', good'⟩ := next w good
  exact ⟨u, part.trans part', good'⟩

/-- What a field of a record is. -/
theorem optional {f : Field} (hv : entriesOf? v = some es) {a : α}
    (read : f.optional check es = .good (some a)) : IsReadIn check a v := by
  obtain ⟨key, w, found, good⟩ := Field.exists_of_optional read
  exact ⟨w, Value.hasOuterPart_of_mem (dictionaryOf?_of_entries hv) (Field.mem_of_lookup? found),
    good⟩

/-- The items of a list under a field, if they are mappings. -/
theorem item {f : Field} (hv : entriesOf? v = some es) {as : List α}
    (read : f.defaulted [] (list check) es = .good as)
    (records : ∀ w a, check w = .good a → ∃ es, entriesOf? w = some es) {a : α} (mem : a ∈ as) :
    IsReadIn check a v := by
  rcases Field.eq_or_exists_of_defaulted read with rfl | ⟨key, w, found, good⟩
  · cases mem
  · have part : v.HasOuterPart w :=
      Value.hasOuterPart_of_mem (dictionaryOf?_of_entries hv) (Field.mem_of_lookup? found)
    cases w with
    | list vs =>
      obtain ⟨u, inside, good⟩ := exists_of_mem_items (items_eq_good_iff.1 good) mem
      exact ⟨u, part.trans (.item inside (.self u)), good⟩
    | set ss =>
      -- the members of a set are scalars, and no mappings
      obtain ⟨u, inside, good⟩ := exists_of_mem_items (items_eq_good_iff.1 good) mem
      obtain ⟨s, -, rfl⟩ := List.mem_map.1 inside
      obtain ⟨es, hu⟩ := records _ _ good
      cases hu
    | _ => cases good

/-- The entries of a table. -/
theorem entry {bs : List (String × α)} (hv : dictionaryOf? v = some es)
    (read : entries check es = .good bs) {b : String × α} (mem : b ∈ bs) :
    IsReadIn check b.2 v := by
  obtain ⟨w, inside, good⟩ := exists_of_mem_entries (entries_eq_good_iff.1 read) mem
  exact ⟨w, Value.hasOuterPart_of_mem hv inside, good⟩

theorem mapping {bs : List (String × α)} (read : Validation.mapping check v = .good bs)
    {b : String × α} (mem : b ∈ bs) : IsReadIn check b.2 v := by
  obtain ⟨es, hv, each⟩ := mapping_eq_good_iff.1 read
  exact entry hv (entries_eq_good_iff.2 each) mem

end IsReadIn

end Validation

variable {v : Value}

theorem Action.isReadIn_schema {a : Action} (h : Action.check v = .good a) :
    ∀ s ∈ a.schemas, IsReadIn Schema.check s v := by
  obtain ⟨es, hv, -, -, request, response, -⟩ := Action.check_eq_good_iff.1 h
  intro s mem
  rcases List.mem_append.1 mem with given | given
  · rw [Option.mem_toList.1 given] at request
    exact .optional hv request
  · rw [Option.mem_toList.1 given] at response
    exact .optional hv response

theorem ApiError.isReadIn_schema {e : ApiError} (h : ApiError.check v = .good e) :
    ∀ s ∈ e.schema.toList, IsReadIn Schema.check s v := by
  obtain ⟨es, hv, read⟩ := ApiError.check_eq_good_iff.1 h
  intro s given
  have schema := read.schema
  rw [Option.mem_toList.1 given] at schema
  exact .optional hv schema

theorem Operation.isReadIn_schema {o : Operation} {es : List (String × Value)}
    (hv : entriesOf? v = some es) (h : o.IsReadFrom es) :
    ∀ s ∈ o.errorSchemas, IsReadIn Schema.check s v := by
  intro s mem
  obtain ⟨e, mem, given⟩ := List.mem_flatMap.1 mem
  refine (IsReadIn.item hv h.errors (fun w e good => ?_) mem).bind fun w good =>
    ApiError.isReadIn_schema good s given
  obtain ⟨es, hw, -⟩ := ApiError.check_eq_good_iff.1 good
  exact ⟨es, hw⟩

theorem Action.entriesOf?_of_check {a : Action} (h : Action.check v = .good a) :
    ∃ es, entriesOf? v = some es := by
  obtain ⟨es, hv, -⟩ := Action.check_eq_good_iff.1 h
  exact ⟨es, hv⟩

theorem Query.entriesOf?_of_check {q : Query} (h : Query.check v = .good q) :
    ∃ es, entriesOf? v = some es := by
  obtain ⟨⟨es, hv, -⟩, -⟩ := Query.check_eq_good_iff.1 h
  exact ⟨es, hv⟩

theorem Resource.isReadIn_schema {r : Resource} (h : Resource.check v = .good r) :
    ∀ s ∈ r.schemas, IsReadIn Schema.check s v := by
  obtain ⟨⟨es, hv, read⟩, -⟩ := Resource.check_eq_good_iff.1 h
  intro s mem
  rcases List.mem_append.1 mem with given | given
  · have schema := read.resourceSchema
    rw [Option.mem_toList.1 given] at schema
    exact .optional hv schema
  · obtain ⟨a, mem, given⟩ := List.mem_flatMap.1 given
    exact (IsReadIn.item hv read.actions (fun _ _ => Action.entriesOf?_of_check) mem).bind
      fun w good => Action.isReadIn_schema good s given

/-- What comes with the errors of operations is read from parts of the resource. -/
theorem Resource.isReadIn_errorSchema {r : Resource} (h : Resource.check v = .good r) :
    ∀ o ∈ r.allOperations, ∀ s ∈ o.errorSchemas, IsReadIn Schema.check s v := by
  obtain ⟨⟨es, hv, read⟩, -⟩ := Resource.check_eq_good_iff.1 h
  intro o mem s given
  simp only [allOperations, operations, List.mem_append, List.mem_map, Option.mem_toList] at mem
  rcases mem with (((((⟨c, op, rfl⟩ | ⟨c, op, rfl⟩) | ⟨c, op, rfl⟩) | ⟨c, op, rfl⟩) |
    ⟨c, op, rfl⟩) | ⟨c, op, rfl⟩) | ⟨c, op, rfl⟩
  · refine (IsReadIn.optional hv (op ▸ read.create)).bind fun w good => ?_
    obtain ⟨es, hw, common, -⟩ := Create.check_eq_good_iff.1 good
    exact Operation.isReadIn_schema hw common s given
  · refine (IsReadIn.optional hv (op ▸ read.read)).bind fun w good => ?_
    obtain ⟨es, hw, common, -⟩ := Read.check_eq_good_iff.1 good
    exact Operation.isReadIn_schema hw common s given
  · refine (IsReadIn.optional hv (op ▸ read.update)).bind fun w good => ?_
    obtain ⟨es, hw, common, -⟩ := Update.check_eq_good_iff.1 good
    exact Operation.isReadIn_schema hw common s given
  · refine (IsReadIn.optional hv (op ▸ read.delete)).bind fun w good => ?_
    obtain ⟨es, hw, common, -⟩ := Delete.check_eq_good_iff.1 good
    exact Operation.isReadIn_schema hw common s given
  · refine (IsReadIn.optional hv (op ▸ read.patch)).bind fun w good => ?_
    obtain ⟨es, hw, common, -⟩ := Patch.check_eq_good_iff.1 good
    exact Operation.isReadIn_schema hw common s given
  · refine (IsReadIn.item hv read.actions (fun _ _ => Action.entriesOf?_of_check) op).bind
      fun w good => ?_
    obtain ⟨es, hw, common, -⟩ := Action.check_eq_good_iff.1 good
    exact Operation.isReadIn_schema hw common s given
  · refine (IsReadIn.item hv read.queries (fun _ _ => Query.entriesOf?_of_check) op).bind
      fun w good => ?_
    obtain ⟨⟨es, hw, read⟩, -⟩ := Query.check_eq_good_iff.1 good
    exact Operation.isReadIn_schema hw read.common s given

theorem PathTable.isReadIn_resource {t : PathTable} (h : PathTable.check v = .good t) :
    ∀ r ∈ t.resources, IsReadIn Resource.check r v := by
  obtain ⟨es, hv, read⟩ := PathTable.check_eq_good_iff.1 h
  intro r mem
  cases read with
  | flat plain read named =>
    obtain ⟨e, inside, rfl⟩ := List.mem_map.1 mem
    exact .entry (dictionaryOf?_of_entries hv) read inside
  | versioned filled versions read named =>
    obtain ⟨e, inside, within⟩ := List.mem_flatMap.1 mem
    obtain ⟨version, given, rfl⟩ := List.mem_map.1 within
    exact (IsReadIn.entry (dictionaryOf?_of_entries hv) read inside).bind fun w good =>
      .mapping (Versions.check_eq_good_iff.1 good).1 given

theorem Description.isReadIn_schema {d : Description} (h : Description.check v = .good d) :
    ∀ s ∈ d.allSchemas, IsReadIn Schema.check s v := by
  obtain ⟨es, hv, read⟩ := Description.check_eq_good_iff.1 h
  have resource (t : PathTable) (given : d.paths = some t) (r : Resource) (mem : r ∈ t.resources) :
      IsReadIn Resource.check r v :=
    (IsReadIn.optional hv (given ▸ read.paths)).bind fun w good =>
      PathTable.isReadIn_resource good r mem
  intro s mem
  rcases List.mem_append.1 mem with mem | mem
  · rcases List.mem_append.1 mem with mem | mem
    · rcases List.mem_append.1 mem with mem | mem
      · obtain ⟨t, given, mem⟩ := List.mem_flatMap.1 mem
        rw [PathTable.schemas_eq] at mem
        obtain ⟨r, inside, mem⟩ := List.mem_flatMap.1 mem
        exact (resource t (Option.mem_toList.1 given) r inside).bind fun w good =>
          Resource.isReadIn_schema good s mem
      · obtain ⟨e, entry, rfl⟩ := List.mem_map.1 mem
        have definitions := read.definitions
        cases given : d.definitions with
        | none => rw [given] at entry; cases entry
        | some c =>
          rw [given] at definitions entry
          exact (IsReadIn.optional hv definitions).bind fun w good =>
            .mapping (Catalog.check_eq_good_iff.1 good).1 entry
    · obtain ⟨e, entry, inside⟩ := List.mem_flatMap.1 mem
      have errors := read.errors
      cases given : d.errors with
      | none => rw [given] at entry; cases entry
      | some c =>
        rw [given] at errors entry
        refine (IsReadIn.optional hv errors).bind fun w good => ?_
        exact (IsReadIn.mapping (Catalog.check_eq_good_iff.1 good).1 entry).bind fun u good =>
          ApiError.isReadIn_schema good s inside
  · obtain ⟨r, inside, mem⟩ := List.mem_flatMap.1 mem
    obtain ⟨t, given, inside⟩ := List.mem_flatMap.1 inside
    obtain ⟨o, op, mem⟩ := List.mem_flatMap.1 mem
    exact (resource t (Option.mem_toList.1 given) r inside).bind fun w good =>
      Resource.isReadIn_errorSchema good o op s mem

/-- **The schemas of a description are outer parts of the value that it is read from.** -/
theorem Description.hasOuterPart_schema (named : v.IsNamed) {d : Description}
    (h : Description.check v = .good d) : ∀ s ∈ d.allSchemas, v.HasOuterPart s.toValue := by
  intro s mem
  obtain ⟨w, part, good⟩ := Description.isReadIn_schema h s mem
  have same : w = s.toValue :=
    (named.of_hasOuterPart part).eq_record (Schema.check_eq_good_iff.1 good)
  rwa [← same]

namespace Descriptor

theorem ends_of_mappingOfText {text : String} {v : Value} (h : mappingOfText text = .ok v) :
    ¬ v.HasOuterPart .loop := by
  obtain ⟨l, loaded, h⟩ := Result.bind_eq_ok h
  split at h
  case isFalse => cases h
  have value : l.value = .ok v := by
    cases value : l.value with
    | error p => rw [value] at h; cases h
    | ok w => rw [value] at h; cases h; rfl
  rw [Yaml.Loaded.value] at value
  split at value
  · cases value
    rintro ⟨⟩
  · exact Yaml.ends_of_value value

/-- **Outside of pairs the schemas of a descriptor have texts for keys, and come to an end.** -/
theorem isTidy_of_accepted {text : String} {d : Description} (h : ofText text = .ok d) :
    ∀ s ∈ d.schemas, s.toValue.IsTidy := by
  obtain ⟨v, value, h⟩ := Result.bind_eq_ok h
  have named := Value.isNamed_nameKeys v
  have tidy : v.nameKeys.IsTidy := ⟨named, Value.ends_nameKeys v (ends_of_mappingOfText value)⟩
  intro s mem
  exact tidy.of_hasOuterPart (Description.hasOuterPart_schema named (ofValue_eq_ok_iff.1 h).2 s
    (List.mem_append_left _ mem))

end Descriptor
end ApiManual
