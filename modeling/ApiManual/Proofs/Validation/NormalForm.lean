import ApiManual.Proofs.Validation.WellFormed
import ApiManual.Proofs.Validation.Written

/-!
# Descriptions are normal forms

A description that was accepted from some value may be written as a value with all of its fields.
That value is accepted in turn, and as the same description: texts for numbers and words have
become numbers and words, what was left out stands there with its default, and checking once more
changes nothing (`Descriptor.ofValue_toValue`).

A check is *stable* under a way of writing what it accepts if this holds of it alone.  Checks of
lists, tables and fields are stable if those of their parts are, so stability goes up from the
scalars to descriptions.  What has to be seen besides is that a table of paths has its shape again:
every resource has the field `title` when it is written, and no version is called like a field.
-/

namespace ApiManual

open Validation Checked

variable {α β : Type}

namespace Validation

/-! ## Stable checks -/

/-- A value is accepted as something, and has texts for keys. -/
def Spells (check : Value → Checked α) (v : Value) (a : α) : Prop :=
  v.IsNamed ∧ check v = .good a

/-- What is accepted is accepted again as the same when it is written. -/
def Stable (check : Value → Checked α) (write : α → Value) : Prop :=
  ∀ v a, Spells check v a → Spells check (write a) a

theorem stable_text : Stable text .text := fun _ _ _ => ⟨Value.isNamed_scalar _, rfl⟩

theorem stable_int : Stable int .int := fun _ _ _ => ⟨Value.isNamed_scalar _, rfl⟩

theorem stable_bool : Stable bool .bool := fun _ _ _ => ⟨Value.isNamed_scalar _, rfl⟩

theorem stable_scalarText : Stable scalarText .text :=
  fun _ _ _ => ⟨Value.isNamed_scalar _, rfl⟩

/-- A word is spelled as it is read. -/
theorem spelling_of_ofSpelling? [Choice α] {s : String} {a : α}
    (h : Choice.ofSpelling? s = some a) :
    Choice.spelling a = s := by
  have found := List.find?_some h
  exact of_decide_eq_true found

theorem choice_text [Choice α] (s : String) : (choice (.text s) : Checked α) =
    match Choice.ofSpelling? s with
    | some a => .good a
    | none => .refuse (.notChoice (Choice.allowed α)) := rfl

theorem choice_text_eq_good_iff [Choice α] {s : String} {a : α} :
    choice (.text s) = Checked.good a ↔ Choice.ofSpelling? s = some a := by
  rw [choice_text]
  cases (Choice.ofSpelling? s : Option α) with
  | none => simp [refuse]
  | some b => rw [good.injEq, Option.some.injEq]

theorem stable_choice [Choice α] : Stable (choice : Value → Checked α) .ofChoice := by
  rintro v a ⟨-, good⟩
  cases v with
  | scalar s =>
    cases s with
    | text s =>
      have found := choice_text_eq_good_iff.1 good
      refine ⟨Value.isNamed_scalar _, choice_text_eq_good_iff.2 ?_⟩
      rw [spelling_of_ofSpelling? found, found]
    | _ => cases good
  | _ => cases good

/-- Things that can be written can be written in a row. -/
theorem spells_ofList {check : Value → Checked α} {write : α → Value} {as : List α}
    (each : ∀ a ∈ as, Spells check (write a) a) :
    Spells (list check) (.ofList write as) as := by
  refine ⟨Value.isNamed_list.2 (List.forall_mem_map.2 fun a mem => (each a mem).1), ?_⟩
  refine items_eq_good_iff.2 (List.forall₂_map_left_iff.2 (List.forall₂_same.2 fun a mem => ?_))
  exact (each a mem).2

/-- Things that can be written can be written under their names, if these are different. -/
theorem spells_ofTable {check : Value → Checked β} {write : β → Value} {bs : List (String × β)}
    (differ : (bs.map Prod.fst).Nodup) (each : ∀ b ∈ bs, Spells check (write b.2) b.2) :
    Spells (mapping check) (.ofTable write bs) bs := by
  constructor
  · refine Value.isNamed_record.2 ⟨?_, List.forall_mem_map.2 fun b mem => (each b mem).1⟩
    rwa [List.map_map]
  · refine mapping_eq_good_iff.2 ⟨_, Value.dictionaryOf?_record _, ?_⟩
    exact List.forall₂_map_left_iff.2 (List.forall₂_same.2 fun b mem => ⟨rfl, (each b mem).2⟩)

/-- Names are kept, and so are different ones. -/
theorem nodup_of_forall₂ {check : α → Checked β} {es : List (String × α)}
    {bs : List (String × β)} (h : List.Forall₂ (fun e b => e.1 = b.1 ∧ check e.2 = .good b.2) es bs)
    (differ : (es.map Prod.fst).Nodup) : (bs.map Prod.fst).Nodup := by
  rw [names_of_entries h]
  exact differ

/-- The entries of a mapping with texts for keys. -/
theorem entries_of_isNamed {v : Value} {es : List (String × Value)} (named : v.IsNamed)
    (hv : entriesOf? v = some es) :
    (es.map Prod.fst).Nodup ∧ ∀ e ∈ es, e.2.IsNamed := by
  rw [entriesOf?_eq_some_iff.1 hv] at named
  exact Value.isNamed_record.1 named

namespace Stable

variable {check : Value → Checked α} {write : α → Value}

/-- A rule that was kept is kept. -/
theorem obeying (h : Stable check write) (broken? : α → Option Rule) :
    Stable (fun v => (check v).obeying broken?) write := by
  rintro v a ⟨named, good⟩
  obtain ⟨good, whole⟩ := obeying_eq_good_iff.1 good
  obtain ⟨named, good⟩ := h v a ⟨named, good⟩
  exact ⟨named, obeying_eq_good_iff.2 ⟨good, whole⟩⟩

theorem items (h : Stable check write) {vs : List Value} {as : List α}
    (named : ∀ v ∈ vs, v.IsNamed) (each : List.Forall₂ (fun v a => check v = .good a) vs as) :
    ∀ a ∈ as, Spells check (write a) a := by
  intro a mem
  obtain ⟨v, mem, good⟩ := exists_of_mem_items each mem
  exact h v a ⟨named v mem, good⟩

theorem list (h : Stable check write) : Stable (list check) (.ofList write) := by
  rintro v as ⟨named, good⟩
  cases v with
  | list vs => exact spells_ofList (h.items (Value.isNamed_list.1 named) (items_eq_good_iff.1 good))
  | set ss =>
    have named : ∀ v ∈ ss.map Value.scalar, v.IsNamed :=
      List.forall_mem_map.2 fun s _ => Value.isNamed_scalar s
    exact spells_ofList (h.items named (items_eq_good_iff.1 good))
  | _ => cases good

theorem table (h : Stable check write) {es : List (String × Value)} {as : List (String × α)}
    (named : ∀ e ∈ es, e.2.IsNamed)
    (each : List.Forall₂ (fun e a => e.1 = a.1 ∧ check e.2 = .good a.2) es as) :
    ∀ a ∈ as, Spells check (write a.2) a.2 := by
  intro a mem
  obtain ⟨v, mem, good⟩ := exists_of_mem_entries each mem
  exact h v a.2 ⟨named _ mem, good⟩

theorem mapping (h : Stable check write) : Stable (mapping check) (.ofTable write) := by
  rintro v as ⟨named, good⟩
  obtain ⟨es, hv, each⟩ := mapping_eq_good_iff.1 good
  have hv : entriesOf? v = some es := entriesOf?_eq_some_iff.2 (named.eq_record hv)
  obtain ⟨differ, named⟩ := entries_of_isNamed named hv
  exact spells_ofTable (nodup_of_forall₂ each differ) (h.table named each)

end Stable

/-! ## Fields -/

/-- A value stands for what a field is read as: it has texts for keys, and wherever it is written
into the field, that is what is read there. -/
def Field.Keeps (f : Field) (read : List (String × Value) → Checked α) (v : Value) (a : α) : Prop :=
  v.IsNamed ∧ ∀ parts : List (Field × Value), AreApart (parts.map Prod.fst) → (f, v) ∈ parts →
    read (written parts) = .good a

namespace Stable

variable {check : Value → Checked α} {write : α → Value} {f : Field} {es : List (String × Value)}

theorem required (h : Stable check write) (named : ∀ e ∈ es, e.2.IsNamed) {a : α}
    (read : f.required check es = .good a) : f.Keeps (f.required check) (write a) a := by
  obtain ⟨key, v, found, good⟩ := Field.exists_of_required read
  obtain ⟨writes, again⟩ := h v a ⟨named _ (Field.mem_of_lookup? found), good⟩
  exact ⟨writes, fun parts apart mem => Field.read_written apart mem again⟩

theorem defaulted (h : Stable check write) {default : α}
    (kept : Spells check (write default) default)
    (named : ∀ e ∈ es, e.2.IsNamed) {a : α} (read : f.defaulted default check es = .good a) :
    f.Keeps (f.defaulted default check) (write a) a := by
  have again : Spells check (write a) a := by
    rcases Field.eq_or_exists_of_defaulted read with rfl | ⟨key, v, found, good⟩
    · exact kept
    · exact h v a ⟨named _ (Field.mem_of_lookup? found), good⟩
  exact ⟨again.1, fun parts apart mem => Field.read_written apart mem again.2⟩

/-- A row of things that may be left out if there are none. -/
theorem row (h : Stable check write) (named : ∀ e ∈ es, e.2.IsNamed) {as : List α}
    (read : f.defaulted [] (Validation.list check) es = .good as) :
    f.Keeps (f.defaulted [] (Validation.list check)) (.ofList write as) as :=
  h.list.defaulted (spells_ofList (List.forall_mem_nil _)) named read

theorem optional (h : Stable check write) (filled : ∀ a, write a ≠ .null)
    (named : ∀ e ∈ es, e.2.IsNamed) {o : Option α} (read : f.optional check es = .good o) :
    f.Keeps (f.optional check) (.ofOption write o) o := by
  cases o with
  | none => exact ⟨Value.isNamed_scalar _, fun parts apart mem => Field.read_written apart mem rfl⟩
  | some a =>
    obtain ⟨key, v, found, good⟩ := Field.exists_of_optional read
    obtain ⟨writes, again⟩ := h v a ⟨named _ (Field.mem_of_lookup? found), good⟩
    refine ⟨writes, fun parts apart mem => Field.read_written apart mem ?_⟩
    split
    · rename_i null
      exact absurd null (filled a)
    · exact map_eq_good_iff.2 ⟨a, again, rfl⟩

end Stable

theorem isNamed_ofFields {parts : List (Field × Value)} (apart : AreApart (parts.map Prod.fst))
    (named : ∀ p ∈ parts, p.2.IsNamed) : (Value.ofFields parts).IsNamed :=
  Value.isNamed_record.2 ⟨nodup_written apart, List.forall_mem_map.2 named⟩

end Validation

/-! ## Records -/

/-- A schema is written as it was given. -/
theorem Schema.stable : Stable Schema.check Schema.toValue := by
  rintro v s ⟨named, good⟩
  have hv := check_eq_good_iff.1 good
  have same : v = s.toValue := named.eq_record hv
  rw [← same]
  exact ⟨named, good⟩

theorem ApiError.stable : Stable ApiError.check ApiError.toValue := by
  rintro v e ⟨named, good⟩
  obtain ⟨es, hv, read⟩ := check_eq_good_iff.1 good
  obtain ⟨-, named⟩ := entries_of_isNamed named hv
  have code := stable_int.required named read.code
  have description := stable_text.required named read.description
  have schema := Schema.stable.optional nofun named read.schema
  have apart : AreApart (e.parts.map Prod.fst) := (by decide : AreApart fields)
  refine ⟨isNamed_ofFields apart ?named, check_eq_good_iff.2 ⟨_, Value.entriesOf?_record _, ?read⟩⟩
  case named =>
    simp only [parts, List.forall_mem_cons]
    exact ⟨code.1, description.1, schema.1, nofun⟩
  case read =>
    exact ⟨code.2 _ apart (by simp [parts]), description.2 _ apart (by simp [parts]),
      schema.2 _ apart (by simp [parts]), unknownFields_written apart⟩

/-- In a list of values to choose from, texts stand for themselves. -/
theorem Parameter.stable_enumValues : Stable checkEnumValues (.ofList .text) := by
  rintro v ss -
  refine ⟨Value.isNamed_list.2 (List.forall_mem_map.2 fun s _ => Value.isNamed_scalar _), ?_⟩
  have numbers : (ss.map Value.text).all hasNumberText = true :=
    List.all_eq_true.2 (List.forall_mem_map.2 fun _ _ => rfl)
  rw [Value.ofList, checkEnumValues, if_pos numbers, List.map_map]
  exact items_eq_good_iff.2 (List.forall₂_map_left_iff.2 (List.forall₂_same.2 fun s _ => rfl))

theorem Parameter.stable : Stable Parameter.check Parameter.toValue := by
  rintro v p ⟨named, good⟩
  obtain ⟨es, hv, read⟩ := check_eq_good_iff.1 good
  obtain ⟨-, named⟩ := entries_of_isNamed named hv
  have name := stable_text.required named read.name
  have type := stable_text.defaulted ⟨Value.isNamed_scalar _, rfl⟩ named read.type
  have source := stable_choice.defaulted ⟨Value.isNamed_scalar _, rfl⟩ named read.source
  have required := stable_bool.defaulted ⟨Value.isNamed_scalar _, rfl⟩ named read.required
  have default := stable_scalarText.optional nofun named read.defaultValue
  have description := stable_text.optional nofun named read.description
  have enumValues := stable_enumValues.defaulted ⟨Value.isNamed_list.2 (List.forall_mem_nil _), rfl⟩
    named read.enumValues
  have apart : AreApart (p.parts.map Prod.fst) := (by decide : AreApart fields)
  refine ⟨isNamed_ofFields apart ?named, check_eq_good_iff.2 ⟨_, Value.entriesOf?_record _, ?read⟩⟩
  case named =>
    simp only [parts, List.forall_mem_cons]
    exact ⟨name.1, type.1, source.1, required.1, default.1, description.1, enumValues.1, nofun⟩
  case read =>
    exact ⟨name.2 _ apart (by simp [parts]), type.2 _ apart (by simp [parts]),
      source.2 _ apart (by simp [parts]), required.2 _ apart (by simp [parts]),
      default.2 _ apart (by simp [parts]), description.2 _ apart (by simp [parts]),
      enumValues.2 _ apart (by simp [parts]), unknownFields_written apart⟩

/-! ## Operations -/

/-- The fields that all operations have keep what they are read as, whatever stands beside them. -/
theorem Operation.IsReadFrom.again {o : Operation} {es : List (String × Value)}
    (read : o.IsReadFrom es) (named : ∀ e ∈ es, e.2.IsNamed) :
    (∀ p ∈ o.parts, p.2.IsNamed) ∧ ∀ more : List (Field × Value),
      AreApart ((o.parts ++ more).map Prod.fst) → o.IsReadFrom (written (o.parts ++ more)) := by
  have description := stable_text.optional nofun named read.description
  have locales := stable_text.row named read.supportedLocales
  have parameters := Parameter.stable.row named read.parameters
  have errors := ApiError.stable.row named read.errors
  have stability := stable_choice.optional nofun named read.stability
  constructor
  · simp only [parts, List.forall_mem_cons]
    exact ⟨description.1, locales.1, parameters.1, errors.1, stability.1, nofun⟩
  · intro more apart
    exact ⟨description.2 _ apart (by simp [parts]), locales.2 _ apart (by simp [parts]),
      parameters.2 _ apart (by simp [parts]), errors.2 _ apart (by simp [parts]),
      stability.2 _ apart (by simp [parts])⟩

theorem Create.stable : Stable Create.check Create.toValue := by
  rintro v o ⟨named, good⟩
  obtain ⟨es, hv, read, mode, mvcc, -⟩ := check_eq_good_iff.1 good
  obtain ⟨-, named⟩ := entries_of_isNamed named hv
  have common := read.again named
  have mode := stable_choice.optional nofun named mode
  have mvcc := stable_bool.defaulted ⟨Value.isNamed_scalar _, rfl⟩ named mvcc
  have apart : AreApart (o.parts.map Prod.fst) := (by decide : AreApart fields)
  refine ⟨isNamed_ofFields apart ?named, check_eq_good_iff.2 ⟨_, Value.entriesOf?_record _, ?read⟩⟩
  case named =>
    simp only [parts, List.forall_mem_append, List.forall_mem_cons]
    exact ⟨common.1, mode.1, mvcc.1, nofun⟩
  case read =>
    exact ⟨common.2 _ apart, mode.2 _ apart (by simp [parts]), mvcc.2 _ apart (by simp [parts]),
      unknownFields_written apart⟩

theorem Read.stable : Stable Read.check Read.toValue := by
  rintro v o ⟨named, good⟩
  obtain ⟨es, hv, read, -⟩ := check_eq_good_iff.1 good
  obtain ⟨-, named⟩ := entries_of_isNamed named hv
  have common := read.again named
  have apart : AreApart ((o.toOperation.parts ++ []).map Prod.fst) :=
    (by decide : AreApart Operation.fields)
  have again := common.2 _ apart
  rw [List.append_nil] at apart again
  exact ⟨isNamed_ofFields apart common.1,
    check_eq_good_iff.2 ⟨_, Value.entriesOf?_record _, again, unknownFields_written apart⟩⟩

theorem Update.stable : Stable Update.check Update.toValue := by
  rintro v o ⟨named, good⟩
  obtain ⟨es, hv, read, mvcc, -⟩ := check_eq_good_iff.1 good
  obtain ⟨-, named⟩ := entries_of_isNamed named hv
  have common := read.again named
  have mvcc := stable_bool.defaulted ⟨Value.isNamed_scalar _, rfl⟩ named mvcc
  have apart : AreApart (o.parts.map Prod.fst) := (by decide : AreApart fields)
  refine ⟨isNamed_ofFields apart ?named, check_eq_good_iff.2 ⟨_, Value.entriesOf?_record _, ?read⟩⟩
  case named =>
    simp only [parts, List.forall_mem_append, List.forall_mem_cons]
    exact ⟨common.1, mvcc.1, nofun⟩
  case read =>
    exact ⟨common.2 _ apart, mvcc.2 _ apart (by simp [parts]), unknownFields_written apart⟩

theorem Delete.stable : Stable Delete.check Delete.toValue := by
  rintro v o ⟨named, good⟩
  obtain ⟨es, hv, read, mvcc, -⟩ := check_eq_good_iff.1 good
  obtain ⟨-, named⟩ := entries_of_isNamed named hv
  have common := read.again named
  have mvcc := stable_bool.defaulted ⟨Value.isNamed_scalar _, rfl⟩ named mvcc
  have apart : AreApart (o.parts.map Prod.fst) := (by decide : AreApart fields)
  refine ⟨isNamed_ofFields apart ?named, check_eq_good_iff.2 ⟨_, Value.entriesOf?_record _, ?read⟩⟩
  case named =>
    simp only [parts, List.forall_mem_append, List.forall_mem_cons]
    exact ⟨common.1, mvcc.1, nofun⟩
  case read =>
    exact ⟨common.2 _ apart, mvcc.2 _ apart (by simp [parts]), unknownFields_written apart⟩

theorem Patch.stable : Stable Patch.check Patch.toValue := by
  rintro v o ⟨named, good⟩
  obtain ⟨es, hv, read, steps, mvcc, -⟩ := check_eq_good_iff.1 good
  obtain ⟨-, named⟩ := entries_of_isNamed named hv
  have common := read.again named
  have steps := stable_choice.row named steps
  have mvcc := stable_bool.defaulted ⟨Value.isNamed_scalar _, rfl⟩ named mvcc
  have apart : AreApart (o.parts.map Prod.fst) := (by decide : AreApart fields)
  refine ⟨isNamed_ofFields apart ?named, check_eq_good_iff.2 ⟨_, Value.entriesOf?_record _, ?read⟩⟩
  case named =>
    simp only [parts, List.forall_mem_append, List.forall_mem_cons]
    exact ⟨common.1, steps.1, mvcc.1, nofun⟩
  case read =>
    exact ⟨common.2 _ apart, steps.2 _ apart (by simp [parts]), mvcc.2 _ apart (by simp [parts]),
      unknownFields_written apart⟩

theorem Action.stable : Stable Action.check Action.toValue := by
  rintro v o ⟨named, good⟩
  obtain ⟨es, hv, read, name, request, response, -⟩ := check_eq_good_iff.1 good
  obtain ⟨-, named⟩ := entries_of_isNamed named hv
  have common := read.again named
  have name := (stable_text.obeying brokenName?).required named name
  have request := Schema.stable.optional nofun named request
  have response := Schema.stable.optional nofun named response
  have apart : AreApart (o.parts.map Prod.fst) := (by decide : AreApart fields)
  refine ⟨isNamed_ofFields apart ?named, check_eq_good_iff.2 ⟨_, Value.entriesOf?_record _, ?read⟩⟩
  case named =>
    simp only [parts, List.forall_mem_append, List.forall_mem_cons]
    exact ⟨common.1, name.1, request.1, response.1, nofun⟩
  case read =>
    exact ⟨common.2 _ apart, name.2 _ apart (by simp [parts]), request.2 _ apart (by simp [parts]),
      response.2 _ apart (by simp [parts]), unknownFields_written apart⟩

theorem Query.stable : Stable Query.check Query.toValue := by
  rintro v q ⟨named, good⟩
  obtain ⟨⟨es, hv, read⟩, whole⟩ := check_eq_good_iff.1 good
  obtain ⟨-, named⟩ := entries_of_isNamed named hv
  have common := read.common.again named
  have type := stable_choice.required named read.type
  have queryId := stable_text.optional nofun named read.queryId
  have paging := stable_choice.optional nofun named read.pagingMode
  have counts := stable_choice.row named read.countPolicies
  have queryable := stable_text.row named read.queryableFields
  have keys := stable_text.row named read.sortKeys
  have apart : AreApart (q.parts.map Prod.fst) := (by decide : AreApart fields)
  refine ⟨isNamed_ofFields apart ?named,
    check_eq_good_iff.2 ⟨⟨_, Value.entriesOf?_record _, ?read⟩, whole⟩⟩
  case named =>
    simp only [parts, List.forall_mem_append, List.forall_mem_cons]
    exact ⟨common.1, type.1, queryId.1, paging.1, counts.1, queryable.1, keys.1, nofun⟩
  case read =>
    exact ⟨common.2 _ apart, type.2 _ apart (by simp [parts]), queryId.2 _ apart (by simp [parts]),
      paging.2 _ apart (by simp [parts]), counts.2 _ apart (by simp [parts]),
      queryable.2 _ apart (by simp [parts]), keys.2 _ apart (by simp [parts]),
      unknownFields_written apart⟩

/-! ## Resources -/

theorem Resource.stable : Stable Resource.check Resource.toValue := by
  rintro v r ⟨named, good⟩
  obtain ⟨⟨es, hv, read⟩, differ⟩ := check_eq_good_iff.1 good
  obtain ⟨-, named⟩ := entries_of_isNamed named hv
  have title := stable_text.optional nofun named read.title
  have description := stable_text.optional nofun named read.description
  have schema := Schema.stable.optional nofun named read.resourceSchema
  have create := Create.stable.optional nofun named read.create
  have reading := Read.stable.optional nofun named read.read
  have update := Update.stable.optional nofun named read.update
  have delete := Delete.stable.optional nofun named read.delete
  have patch := Patch.stable.optional nofun named read.patch
  have actions := Action.stable.row named read.actions
  have queries := Query.stable.row named read.queries
  have apart : AreApart (r.parts.map Prod.fst) := (by decide : AreApart fields)
  refine ⟨isNamed_ofFields apart ?named,
    check_eq_good_iff.2 ⟨⟨_, Value.entriesOf?_record _, ?read⟩, differ⟩⟩
  case named =>
    simp only [parts, List.forall_mem_cons]
    exact ⟨title.1, description.1, schema.1, create.1, reading.1, update.1, delete.1, patch.1,
      actions.1, queries.1, nofun⟩
  case read =>
    exact ⟨title.2 _ apart (by simp [parts]), description.2 _ apart (by simp [parts]),
      schema.2 _ apart (by simp [parts]), create.2 _ apart (by simp [parts]),
      reading.2 _ apart (by simp [parts]), update.2 _ apart (by simp [parts]),
      delete.2 _ apart (by simp [parts]), patch.2 _ apart (by simp [parts]),
      actions.2 _ apart (by simp [parts]), queries.2 _ apart (by simp [parts]),
      unknownFields_written apart⟩

/-- A resource that is written has the field `title`, so it is none with versions. -/
theorem Resource.not_isVersioned_toValue (r : Resource) :
    (PathEntry.given r.toValue).isVersioned = false := by
  refine Bool.eq_false_iff.2 fun versioned => ?_
  obtain ⟨-, others⟩ := (PathEntry.isVersioned_given_iff (Value.entriesOf?_record _)).1 versioned
  exact others _ List.mem_cons_self (by decide : titleField.spaced ∈ fieldNames)

/-! ## Tables -/

theorem Versions.stable : Stable Versions.check (.ofTable Resource.toValue) :=
  Resource.stable.mapping.obeying _

/-- Versions that are written are versions again, as no name of theirs is that of a field. -/
theorem Versions.isVersioned_ofTable {vs : Versions} (filled : vs ≠ [])
    (others : ∀ e ∈ vs, e.1 ∉ Resource.fieldNames) :
    (PathEntry.given (.ofTable Resource.toValue vs)).isVersioned = true := by
  refine (PathEntry.isVersioned_given_iff (Value.entriesOf?_record _)).2 ⟨?_, ?_⟩
  · exact fun none => filled (List.map_eq_nil_iff.1 none)
  · exact List.forall_mem_map.2 others

/-- **Tables of paths have their shape again.** -/
theorem PathTable.stable : Stable PathTable.check PathTable.toValue := by
  rintro v t ⟨named, good⟩
  obtain ⟨es, hv, read⟩ := check_eq_good_iff.1 good
  obtain ⟨differ, inside⟩ := entries_of_isNamed named hv
  cases read with
  | @flat _ rs plain read named =>
    have each := entries_eq_good_iff.1 read
    obtain ⟨writes, again⟩ :=
      spells_ofTable (nodup_of_forall₂ each differ) (Resource.stable.table inside each)
    obtain ⟨es', hv', each'⟩ := mapping_eq_good_iff.1 again
    cases (Value.dictionaryOf?_record _).symm.trans hv'
    refine ⟨writes, check_eq_good_iff.2
      ⟨_, Value.entriesOf?_record _, .flat ?_ (entries_eq_good_iff.2 each') named⟩⟩
    exact List.forall_mem_map.2 fun e _ => e.2.not_isVersioned_toValue
  | @versioned _ vs filled versions read named =>
    have each := entries_eq_good_iff.1 read
    obtain ⟨writes, again⟩ :=
      spells_ofTable (nodup_of_forall₂ each differ) (Versions.stable.table inside each)
    obtain ⟨es', hv', each'⟩ := mapping_eq_good_iff.1 again
    cases (Value.dictionaryOf?_record _).symm.trans hv'
    refine ⟨writes, check_eq_good_iff.2
      ⟨_, Value.entriesOf?_record _, .versioned ?_ ?_ (entries_eq_good_iff.2 each') named⟩⟩
    · intro none
      rw [List.map_eq_nil_iff.1 none] at each
      exact filled (List.forall₂_nil_right_iff.1 each)
    · refine List.forall_mem_map.2 fun e mem => ?_
      obtain ⟨w, given, good⟩ := exists_of_mem_entries each mem
      obtain ⟨filled, others⟩ := Versions.isWellFormed_of_check (versions _ given) good
      exact Versions.isVersioned_ofTable filled fun x mem => (others x mem).2.1

theorem Catalog.stable [CatalogEntry α] {write : α → Value}
    (h : Stable CatalogEntry.check write) :
    Stable (Catalog.check : Value → Checked (Catalog α)) (.ofTable write) :=
  h.mapping.obeying _

/-! ## Descriptions -/

theorem Description.stable : Stable Description.check Description.toValue := by
  rintro v d ⟨named, good⟩
  obtain ⟨es, hv, read⟩ := check_eq_good_iff.1 good
  obtain ⟨-, named⟩ := entries_of_isNamed named hv
  have id := (stable_text.obeying brokenId?).required named read.id
  have description := stable_text.optional nofun named read.description
  have paths := PathTable.stable.optional (fun t => by cases t <;> nofun) named read.paths
  have definitions := (Catalog.stable Schema.stable).optional nofun named read.definitions
  have errors := (Catalog.stable ApiError.stable).optional nofun named read.errors
  have apart : AreApart (d.parts.map Prod.fst) := (by decide : AreApart fields)
  refine ⟨isNamed_ofFields apart ?named, check_eq_good_iff.2 ⟨_, Value.entriesOf?_record _, ?read⟩⟩
  case named =>
    simp only [parts, List.forall_mem_cons]
    exact ⟨id.1, description.1, paths.1, definitions.1, errors.1, nofun⟩
  case read =>
    exact ⟨id.2 _ apart (by simp [parts]), description.2 _ apart (by simp [parts]),
      paths.2 _ apart (by simp [parts]), definitions.2 _ apart (by simp [parts]),
      errors.2 _ apart (by simp [parts]), unknownFields_written apart⟩

namespace Descriptor

/-- **Descriptions are normal forms.**  What is accepted from a value is accepted again, and as the
same description, when it is written as a value with all of its fields. -/
theorem ofValue_toValue {v : Value} {d : Description} (h : ofValue v = .ok d) :
    ofValue d.toValue = .ok d := by
  have accepted := Description.stable _ d ⟨Value.isNamed_nameKeys v, (ofValue_eq_ok_iff.1 h).2⟩
  rw [ofValue_eq_ok_iff, Value.nameKeys_of_isNamed _ accepted.1]
  exact ⟨Value.hasKeyTexts_of_isNamed _ accepted.1, accepted.2⟩

/-- A descriptor that is written loosely: numbers and truth values as texts, fields in either
spelling, and most of them left out. -/
def loose : Value := .record [
  ("id", .text "pets"),
  ("paths", .record [("/pets", .record [("v1", .record [
    ("create", .record [("mvcc_supported", .text "yes")]),
    ("queries", .list [.record [("type", .text "ID"), ("queryId", .text "tag")]])])])]),
  ("errors", .record [("E", .record [("code", .text "404"), ("description", .text "none")])])]

theorem ofValue_toValue_of_loose :
    ∃ d, ofValue loose = .ok d ∧ ofValue d.toValue = .ok d ∧
      ((ofValue loose).toOption.bind Description.errors).map
        (fun c => c.map fun e => e.2.code) = some [404] := by
  have accepted : ∃ d, ofValue loose = .ok d := ⟨_, rfl⟩
  obtain ⟨d, accepted⟩ := accepted
  exact ⟨d, accepted, ofValue_toValue accepted, by decide +kernel⟩

end Descriptor
end ApiManual
