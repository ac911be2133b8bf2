import ApiManual.Validation.Description
import ApiManual.Proofs.Validation.Correspondence

/-!
# Values in another order

A descriptor is a value of JSON, and much of its order means nothing: keys of mappings may
be given in any order, and so may the actions and the queries of a resource.  Only the
bodies of schemas are shown as they are given.

Whether the order counts is known from where a value stands.  `Role` names these places, as
far as they are told apart, and `Role.under` and `Role.item` lead from a value to its
parts.  What stands under a path depends on the path: versions if none of its keys is a
field of a resource, or else these fields.  `Reordered role v v'` says that two values in one
place differ in such order alone.
-/

namespace ApiManual

/-! ## Values of JSON -/

/-- Whether a scalar is one of JSON. -/
def Scalar.isJson : Scalar → Bool
  | .null | .bool _ | .int _ | .float _ | .text _ => true
  | _ => false

namespace Value

mutual

/-- Whether a value is one of JSON: the keys of mappings are texts, and none stands twice. -/
def isJson : Value → Bool
  | .scalar s => s.isJson
  | .list items => itemsAreJson items
  | .map entries => entriesAreJson entries && decide ((entries.map fun e => e.1.plain).Nodup)
  | _ => false

/-- The same of each item of a list. -/
def itemsAreJson : List Value → Bool
  | [] => true
  | v :: rest => v.isJson && itemsAreJson rest

/-- The same of each entry of a mapping. -/
def entriesAreJson : List (Scalar × Value) → Bool
  | [] => true
  | (k, v) :: rest => k.isText && v.isJson && entriesAreJson rest

end

end Value

/-! ### Keys of values of JSON -/

section Put

variable {κ α : Type} {same : κ → κ → Bool}

/-- A key that is not there goes to the end. -/
theorem putEntry_of_fresh {k : κ} (v : α) {es : List (κ × α)}
    (fresh : ∀ e ∈ es, same e.1 k = false) : putEntry same k v es = es ++ [(k, v)] := by
  induction es with
  | nil => rfl
  | cons e rest ih =>
    obtain ⟨k', v'⟩ := e
    rw [List.forall_mem_cons] at fresh
    rw [putEntry, fresh.1, if_neg (by decide), ih fresh.2, List.cons_append]

/-- Entries of different keys are put as they are. -/
theorem putAll_of_pairwise {es : List (κ × α)}
    (distinct : es.Pairwise fun a b => same a.1 b.1 = false) : putAll same es = es := by
  have behind (acc : List (κ × α)) (rest : List (κ × α))
      (distinct : (acc ++ rest).Pairwise fun a b => same a.1 b.1 = false) :
      rest.foldl (fun acc e => putEntry same e.1 e.2 acc) acc = acc ++ rest := by
    induction rest generalizing acc with
    | nil => rw [List.foldl_nil, List.append_nil]
    | cons e rest ih =>
      have fresh : ∀ x ∈ acc, same x.1 e.1 = false := fun x mem =>
        (List.pairwise_append.1 distinct).2.2 x mem e (List.mem_cons_self ..)
      rw [List.append_cons] at distinct
      rw [List.foldl_cons, putEntry_of_fresh e.2 fresh, ih _ distinct, ← List.append_cons]
  exact behind [] es distinct

end Put

namespace Value

theorem exists_text_of_isText {s : Scalar} (h : s.isText = true) : ∃ t, s = .text t := by
  cases s with
  | text t => exact ⟨t, rfl⟩
  | _ => cases h

/-- Different texts are different keys. -/
theorem pairwise_sameKey {es : List (Scalar × Value)} (texts : ∀ e ∈ es, e.1.isText = true)
    (distinct : (es.map fun e => e.1.plain).Nodup) :
    es.Pairwise fun a b => Scalar.sameKey a.1 b.1 = false := by
  refine (List.pairwise_map.1 distinct).imp_of_mem fun {a b} ha hb differ => ?_
  obtain ⟨s, hs⟩ := exists_text_of_isText (texts a ha)
  obtain ⟨t, ht⟩ := exists_text_of_isText (texts b hb)
  rw [hs, ht] at differ ⊢
  refine decide_eq_false fun same => differ ?_
  exact Scalar.Identity.text.inj same

theorem isText_of_entriesAreJson {es : List (Scalar × Value)} (h : entriesAreJson es = true) :
    ∀ e ∈ es, e.1.isText = true := by
  induction es with
  | nil => exact List.forall_mem_nil _
  | cons e rest ih =>
    obtain ⟨k, v⟩ := e
    simp only [entriesAreJson, Bool.and_eq_true] at h
    exact List.forall_mem_cons.2 ⟨h.1.1, ih h.2⟩

mutual

/-- A value of JSON has texts for keys. -/
theorem nameKeys_of_isJson : ∀ v : Value, v.isJson = true → v.nameKeys = v
  | .scalar s, _ => by rw [nameKeys.eq_def]
  | .list items, h => by
    rw [isJson] at h
    rw [nameKeys, nameKeysItems_of_areJson items h]
  | .map entries, h => by
    rw [isJson, Bool.and_eq_true, decide_eq_true_eq] at h
    rw [nameKeys, nameKeysEntries_of_areJson entries h.1,
      putAll_of_pairwise (pairwise_sameKey (isText_of_entriesAreJson h.1) h.2)]

theorem nameKeysItems_of_areJson :
    ∀ items : List Value, itemsAreJson items = true → nameKeysItems items = items
  | [], _ => by rw [nameKeysItems]
  | v :: rest, h => by
    rw [itemsAreJson, Bool.and_eq_true] at h
    rw [nameKeysItems, nameKeys_of_isJson v h.1, nameKeysItems_of_areJson rest h.2]

theorem nameKeysEntries_of_areJson :
    ∀ entries : List (Scalar × Value), entriesAreJson entries = true →
      nameKeysEntries entries = entries
  | [], _ => by rw [nameKeysEntries]
  | (k, v) :: rest, h => by
    simp only [entriesAreJson, Bool.and_eq_true] at h
    obtain ⟨t, rfl⟩ := exists_text_of_isText h.1.1
    rw [nameKeysEntries, nameKeys_of_isJson v h.1.2, nameKeysEntries_of_areJson rest h.2,
      Scalar.plain_text]

end

end Value

namespace Validation

/-! ## Places of values -/

/-- What a value is taken for where it stands. -/
inductive Role where
  | description
  | paths
  | path
  | versions
  | resource
  | operation
  | actions
  | action
  | queries
  | query
  | parameters
  | parameter
  | operationErrors
  | error
  | definitions
  | errors
  | schema
  /-- Anything else: texts, numbers, rows of them, and what is refused. -/
  | other
  deriving DecidableEq, Repr

namespace Role

/-- What stands under a key of a resource. -/
def ofResourceKey (key : String) : Role :=
  if key ∈ Resource.resourceSchemaField.spellings then .schema
  else if key ∈ ["create", "read", "update", "delete", "patch"] then .operation
  else if key = "actions" then .actions
  else if key = "queries" then .queries
  else .other

/-- What stands under a key of an operation. -/
def ofOperationKey (key : String) : Role :=
  if key = "parameters" then .parameters
  else if key = "errors" then .operationErrors
  else .other

/-- What a value is taken for once it is seen: a path has versions or is a resource. -/
def within : Role → Value → Role
  | .path, v => if (PathEntry.given v).isVersioned then .versions else .resource
  | role, _ => role

/-- What stands under a key of a mapping. -/
def under : Role → String → Role
  | .description, key =>
    if key = "paths" then .paths
    else if key = "definitions" then .definitions
    else if key = "errors" then .errors
    else .other
  | .paths, _ => .path
  | .versions, _ => .resource
  | .resource, key => ofResourceKey key
  | .operation, key => ofOperationKey key
  | .action, key => if key = "request" ∨ key = "response" then .schema else ofOperationKey key
  | .query, key => ofOperationKey key
  | .error, key => if key ∈ ApiError.schemaField.spellings then .schema else .other
  | .definitions, _ => .schema
  | .errors, _ => .error
  | _, _ => .other

/-- What the items of a list are. -/
def item : Role → Role
  | .actions => .action
  | .queries => .query
  | .parameters => .parameter
  | .operationErrors => .error
  | _ => .other

/-- Whether the order of the items of a list means nothing. -/
def IsUnordered (role : Role) : Prop := role = .actions ∨ role = .queries

instance (role : Role) : Decidable role.IsUnordered := inferInstanceAs (Decidable (_ ∨ _))

end Role

/-! ## Values that differ in order -/

mutual

/-- Two values in one place differ in nothing but an order that means nothing: that of keys, other
than in the body of a schema, and that of actions and of queries. -/
inductive Reordered : Role → Value → Value → Prop
  | schema (v : Value) : Reordered .schema v v
  | scalar (role : Role) (s : Scalar) : Reordered role (.scalar s) (.scalar s)
  | list {role : Role} {vs ws vs' : List Value} (outside : role ≠ .schema)
      (items : ReorderedItems role.item vs ws) (order : ws = vs' ∨ role.IsUnordered ∧ ws.Perm vs') :
      Reordered role (.list vs) (.list vs')
  | map {role : Role} {es fs es' : List (Scalar × Value)} (outside : role ≠ .schema)
      (entries : ReorderedEntries (role.within (.map es)) es fs) (order : fs.Perm es') :
      Reordered role (.map es) (.map es')

/-- The same of the items of two lists, one by one. -/
inductive ReorderedItems : Role → List Value → List Value → Prop
  | nil (role : Role) : ReorderedItems role [] []
  | cons {role : Role} {v w : Value} {vs ws : List Value} (first : Reordered role v w)
      (rest : ReorderedItems role vs ws) : ReorderedItems role (v :: vs) (w :: ws)

/-- The same of the entries of two mappings, one by one, under the same keys. -/
inductive ReorderedEntries : Role → List (Scalar × Value) → List (Scalar × Value) → Prop
  | nil (role : Role) : ReorderedEntries role [] []
  | cons {role : Role} {key : Scalar} {v w : Value} {es fs : List (Scalar × Value)}
      (value : Reordered (role.under key.plain) v w) (rest : ReorderedEntries role es fs) :
      ReorderedEntries role ((key, v) :: es) ((key, w) :: fs)

end

mutual

/-- A value of JSON differs from itself in nothing. -/
theorem Reordered.refl (role : Role) : ∀ v : Value, v.isJson = true → Reordered role v v
  | .scalar s, _ => .scalar role s
  | .list items, h => by
    rw [Value.isJson] at h
    by_cases inside : role = .schema
    · rw [inside]
      exact .schema _
    · exact .list inside (ReorderedItems.refl _ items h) (.inl rfl)
  | .map entries, h => by
    rw [Value.isJson, Bool.and_eq_true] at h
    by_cases inside : role = .schema
    · rw [inside]
      exact .schema _
    · exact .map inside (ReorderedEntries.refl _ entries h.1) (.refl _)

theorem ReorderedItems.refl (role : Role) :
    ∀ items : List Value, Value.itemsAreJson items = true → ReorderedItems role items items
  | [], _ => .nil role
  | v :: rest, h => by
    rw [Value.itemsAreJson, Bool.and_eq_true] at h
    exact .cons (Reordered.refl _ v h.1) (ReorderedItems.refl role rest h.2)

theorem ReorderedEntries.refl (role : Role) :
    ∀ entries : List (Scalar × Value), Value.entriesAreJson entries = true →
      ReorderedEntries role entries entries
  | [], _ => .nil role
  | (k, v) :: rest, h => by
    simp only [Value.entriesAreJson, Bool.and_eq_true] at h
    exact .cons (Reordered.refl _ v h.1.2) (ReorderedEntries.refl role rest h.2)

end

end Validation
end ApiManual
