import ApiManual.Proofs.Text.Order
import ApiManual.Proofs.Validation.Accepted

/-!
# The shape of a table of paths

Whether a table has versions is decided before any of its entries is looked at closely: by
which of them have versions, and for this only the kind of an entry and the keys of a mapping
count (`PathEntry.HasVersions`).  There are three outcomes.  If all entries have versions, and
there are entries, the table is checked as one with versions; if none has, as one without; and
otherwise the entries that have versions are named (`PathTable.classification`).

The check that follows may refuse the table, if a path in it is empty or an entry is not what
the shape of the table asks for.  A table that comes through has the paths that were given, in
their order.
-/

namespace ApiManual

open Validation Checked

/-! ## Entries -/

namespace PathEntry

/-- An entry has versions if it was built with versions, or is a mapping with at least one key and
no key that is a field of a resource in either spelling. -/
inductive HasVersions : PathEntry → Prop where
  | built (vs : Versions) : HasVersions (.versions vs)
  | given {v : Value} {es : List (String × Value)} (mapping : entriesOf? v = some es)
      (filled : es ≠ []) (others : ∀ e ∈ es, e.1 ∉ Resource.fieldNames) : HasVersions (.given v)

theorem isVersioned_iff {e : PathEntry} : e.isVersioned = true ↔ e.HasVersions := by
  cases e with
  | versions vs => exact iff_of_true rfl (.built vs)
  | resource r => exact iff_of_false Bool.false_ne_true (by rintro ⟨⟩)
  | given v =>
    cases hv : entriesOf? v with
    | none =>
      refine iff_of_false ?_ ?_
      · rw [isVersioned, hv]
        exact Bool.false_ne_true
      · rintro (_ | ⟨mapping, -, -⟩)
        rw [hv] at mapping
        cases mapping
    | some es =>
      rw [isVersioned_given_iff hv]
      constructor
      · rintro ⟨filled, others⟩
        exact .given hv filled others
      · rintro (_ | ⟨mapping, filled, others⟩)
        obtain rfl := Option.some.inj (hv.symm.trans mapping)
        exact ⟨filled, others⟩

instance : DecidablePred HasVersions := fun _ => decidable_of_iff _ isVersioned_iff

/-- Entries that differ in no more than the values inside their resources: mappings with the same
keys, values that are no mappings, or entries built as the same. -/
inductive Alike : PathEntry → PathEntry → Prop where
  | mappings {v w : Value} {es es' : List (String × Value)} (hv : entriesOf? v = some es)
      (hw : entriesOf? w = some es') (keys : es.map Prod.fst = es'.map Prod.fst) :
      Alike (.given v) (.given w)
  | others {v w : Value} (hv : entriesOf? v = none) (hw : entriesOf? w = none) :
      Alike (.given v) (.given w)
  | resources (r r' : Resource) : Alike (.resource r) (.resource r')
  | versions (vs vs' : Versions) : Alike (.versions vs) (.versions vs')

theorem Alike.isVersioned_eq {e e' : PathEntry} (h : Alike e e') :
    e.isVersioned = e'.isVersioned := by
  cases h with
  | mappings hv hw keys =>
    rename_i es es'
    rw [Bool.eq_iff_iff, isVersioned_given_iff hv, isVersioned_given_iff hw]
    have filled : es ≠ [] ↔ es' ≠ [] := by
      rw [Ne, Ne, ← List.map_eq_nil_iff (f := Prod.fst), keys, List.map_eq_nil_iff]
    have names : (∀ e ∈ es, e.1 ∉ Resource.fieldNames) ↔ ∀ e ∈ es', e.1 ∉ Resource.fieldNames := by
      rw [← List.forall_mem_map (f := Prod.fst) (P := fun name => name ∉ Resource.fieldNames),
        keys, List.forall_mem_map]
    rw [filled, names]
  | others hv hw => rw [isVersioned, isVersioned, hv, hw]
  | resources => rfl
  | versions => rfl

end PathEntry

/-! ## Entries that are checked -/

namespace PathTable

variable {α : Type} {check : PathEntry → Checked α} {es es' : List (String × PathEntry)}
  {rows : List (String × α)}

/-- A table is built from entries: each of them is accepted under its path, in the order given, and
no path is empty. -/
structure IsBuiltFrom (check : PathEntry → Checked α) (es : List (String × PathEntry))
    (rows : List (String × α)) : Prop where
  accepted : List.Forall₂ (fun e row => e.1 = row.1 ∧ check e.2 = .good row.2) es rows
  named : ∀ e ∈ es, e.1 ≠ ""

/-- Something is wrong with entries: a path is empty, or an entry is not accepted. -/
def IsFaulty (check : PathEntry → Checked α) (es : List (String × PathEntry)) : Prop :=
  ∃ e ∈ es, e.1 = "" ∨ ∃ issues, check e.2 = .bad issues

theorem exists_accepted (h : ∀ e ∈ es, ∃ a, check e.2 = .good a) :
    ∃ rows : List (String × α),
      List.Forall₂ (fun e row => e.1 = row.1 ∧ check e.2 = .good row.2) es rows := by
  induction es with
  | nil => exact ⟨[], .nil⟩
  | cons e rest ih =>
    obtain ⟨⟨a, good⟩, others⟩ := List.forall_mem_cons.1 h
    obtain ⟨rows, accepted⟩ := ih others
    exact ⟨(e.1, a) :: rows, .cons ⟨rfl, good⟩ accepted⟩

theorem good_of_accepted
    (h : List.Forall₂ (fun e row => e.1 = row.1 ∧ check e.2 = .good row.2) es rows) :
    ∀ e ∈ es, ∃ a, check e.2 = .good a := by
  induction h with
  | nil => exact List.forall_mem_nil _
  | cons first _ ih => exact List.forall_mem_cons.2 ⟨⟨_, first.2⟩, ih⟩

theorem IsBuiltFrom.not_isFaulty (h : IsBuiltFrom check es rows) : ¬ IsFaulty check es := by
  rintro ⟨e, mem, empty | ⟨issues, refused⟩⟩
  · exact h.named e mem empty
  · obtain ⟨a, good⟩ := good_of_accepted h.accepted e mem
    cases good.symm.trans refused

/-- What is wrong with entries does not depend on their order. -/
theorem isFaulty_of_perm (perm : es.Perm es') : IsFaulty check es ↔ IsFaulty check es' :=
  exists_congr fun _ => and_congr_left fun _ => perm.mem_iff

/-- **Entries are built into a table, or something is wrong with them.** -/
theorem check_cases (check : PathEntry → Checked α) (es : List (String × PathEntry)) :
    (∃ rows, (entries check es).obeying (brokenKeys? "path") = .good rows ∧
        IsBuiltFrom check es rows) ∨
      ∃ issues, (entries check es).obeying (brokenKeys? "path") = .bad issues ∧
        IsFaulty check es := by
  have keys {rows : List (String × α)} (same : rows.map Prod.fst = es.map Prod.fst) :
      (∀ row ∈ rows, row.1.isEmpty = false) ↔ ∀ e ∈ es, e.1 ≠ "" := by
    rw [← List.forall_mem_map (f := Prod.fst) (P := fun name : String => name.isEmpty = false),
      same, List.forall_mem_map]
    exact forall₂_congr fun e _ => by rw [Ne, ← String.isEmpty_iff, Bool.not_eq_true]
  cases outcome : (entries check es).obeying (brokenKeys? "path") with
  | good rows =>
    obtain ⟨read, named⟩ := obeying_eq_good_iff.1 outcome
    have accepted := entries_eq_good_iff.1 read
    exact .inl ⟨rows, rfl, accepted,
      (keys (names_of_entries accepted)).1 (brokenKeys?_eq_none_iff.1 named)⟩
  | bad issues =>
    refine .inr ⟨issues, rfl, ?_⟩
    by_contra fine
    have good (e : String × PathEntry) (mem : e ∈ es) : ∃ a, check e.2 = .good a := by
      cases found : check e.2 with
      | good a => exact ⟨a, rfl⟩
      | bad issues => exact absurd ⟨e, mem, .inr ⟨issues, found⟩⟩ fine
    obtain ⟨rows, accepted⟩ := exists_accepted good
    have named : ∀ e ∈ es, e.1 ≠ "" := fun e mem empty => fine ⟨e, mem, .inl empty⟩
    have built : (entries check es).obeying (brokenKeys? "path") = .good rows :=
      obeying_eq_good_iff.2 ⟨entries_eq_good_iff.2 accepted,
        brokenKeys?_eq_none_iff.2 ((keys (names_of_entries accepted)).2 named)⟩
    cases built.symm.trans outcome

/-! ## Shapes -/

/-- The paths whose entries have versions. -/
def versionedPaths (es : List (String × PathEntry)) : List String :=
  (es.filter fun e => e.2.HasVersions).map Prod.fst

/-- The shape is decided by which paths have versions, and by how many there are in all. -/
theorem shapeOf_eq (es : List (String × PathEntry)) :
    shapeOf es = if versionedPaths es = [] then .flat
      else if (versionedPaths es).length = es.length then .versioned
      else .mixed (Text.sortNames (versionedPaths es)) := by
  have same : (es.filter fun e => e.2.HasVersions) = es.filter fun e => e.2.isVersioned :=
    List.filter_congr fun e _ =>
      Bool.eq_iff_iff.2 (decide_eq_true_iff.trans PathEntry.isVersioned_iff.symm)
  simp only [shapeOf, versionedPaths, same, List.map_eq_nil_iff, List.length_map, List.isEmpty_iff]

theorem shapeOf_of_all_versioned (filled : es ≠ []) (all : ∀ e ∈ es, e.2.HasVersions) :
    shapeOf es = .versioned :=
  shapeOf_eq_versioned_iff.2 ⟨filled, fun e mem => PathEntry.isVersioned_iff.2 (all e mem)⟩

theorem shapeOf_of_none_versioned (none : ∀ e ∈ es, ¬ e.2.HasVersions) : shapeOf es = .flat :=
  shapeOf_eq_flat_iff.2 fun e mem =>
    Bool.eq_false_iff.2 fun versioned => none e mem (PathEntry.isVersioned_iff.1 versioned)

theorem shapeOf_of_some_versioned (some : ∃ e ∈ es, e.2.HasVersions)
    (other : ∃ e ∈ es, ¬ e.2.HasVersions) :
    shapeOf es = .mixed (Text.sortNames (versionedPaths es)) := by
  obtain ⟨e, mem, versioned⟩ := some
  obtain ⟨e', mem', plain⟩ := other
  have named : versionedPaths es ≠ [] := List.ne_nil_of_mem
    (List.mem_map_of_mem (List.mem_filter.2 ⟨mem, decide_eq_true versioned⟩))
  have fewer : (versionedPaths es).length ≠ es.length := by
    rw [versionedPaths, List.length_map, Ne, List.length_filter_eq_length_iff]
    exact fun all => plain (of_decide_eq_true (all e' mem'))
  rw [shapeOf_eq, if_neg named, if_neg fewer]

/-- The order of the entries does not matter. -/
theorem shapeOf_of_perm (perm : es.Perm es') : shapeOf es = shapeOf es' := by
  have versioned : (versionedPaths es).Perm (versionedPaths es') := (perm.filter _).map _
  have none : versionedPaths es = [] ↔ versionedPaths es' = [] :=
    ⟨fun h => (h ▸ versioned).nil_eq.symm, fun h => (h ▸ versioned).eq_nil⟩
  rw [shapeOf_eq, shapeOf_eq, versioned.length_eq, perm.length_eq,
    Text.sortNames_of_perm versioned]
  simp only [none]

/-- The values inside the resources do not matter. -/
theorem shapeOf_of_alike (h : List.Forall₂ (fun e e' => e.1 = e'.1 ∧ e.2.Alike e'.2) es es') :
    shapeOf es = shapeOf es' := by
  have versioned : versionedPaths es = versionedPaths es' := by
    induction h with
    | nil => rfl
    | cons first _ ih =>
      obtain ⟨name, alike⟩ := first
      rename_i e e' rest rest' _
      have same : e.2.HasVersions ↔ e'.2.HasVersions := by
        rw [← PathEntry.isVersioned_iff, alike.isVersioned_eq, PathEntry.isVersioned_iff]
      rw [versionedPaths, versionedPaths, List.filter_cons, List.filter_cons]
      simp only [same]
      split
      · rw [List.map_cons, List.map_cons, name]
        exact congrArg _ ih
      · exact ih
  rw [shapeOf_eq, shapeOf_eq, versioned, h.length_eq]

/-! ## Outcomes -/

/-- What can become of the entries of a table: by their shape they are checked as resources or as
versions, and either built into a table or refused, or there is no shape on which they agree. -/
inductive Outcome (es : List (String × PathEntry)) : Except Fault PathTable → Prop where
  | flat {rs : List (String × Resource)} (shape : shapeOf es = .flat)
      (built : IsBuiltFrom PathEntry.asResource es rs) : Outcome es (.ok (.flat rs))
  | flatRefused {issues : List Issue} (shape : shapeOf es = .flat)
      (faulty : IsFaulty PathEntry.asResource es) : Outcome es (.error (.invalid .flat issues))
  | versioned {vs : List (String × Versions)} (shape : shapeOf es = .versioned)
      (built : IsBuiltFrom PathEntry.asVersions es vs) : Outcome es (.ok (.versioned vs))
  | versionedRefused {issues : List Issue} (shape : shapeOf es = .versioned)
      (faulty : IsFaulty PathEntry.asVersions es) :
      Outcome es (.error (.invalid .versioned issues))
  | mixed {names : List String} (shape : shapeOf es = .mixed names) :
      Outcome es (.error (.broken (.mixedPaths names)))

theorem outcome (es : List (String × PathEntry)) : Outcome es (ofEntries es) := by
  rw [ofEntries]
  cases shape : shapeOf es with
  | mixed names => exact .mixed shape
  | flat =>
    rcases check_cases PathEntry.asResource es with ⟨rs, good, built⟩ | ⟨issues, bad, faulty⟩
    · rw [checkFlat, good]
      exact .flat shape built
    · rw [checkFlat, bad]
      exact .flatRefused shape faulty
  | versioned =>
    rcases check_cases PathEntry.asVersions es with ⟨vs, good, built⟩ | ⟨issues, bad, faulty⟩
    · rw [checkVersioned, good]
      exact .versioned shape built
    · rw [checkVersioned, bad]
      exact .versionedRefused shape faulty

variable {result : Except Fault PathTable}

theorem Outcome.of_versioned (h : Outcome es result) (found : shapeOf es = .versioned) :
    (∃ vs, result = .ok (.versioned vs) ∧ IsBuiltFrom PathEntry.asVersions es vs) ∨
      ∃ issues, result = .error (.invalid .versioned issues) ∧
        IsFaulty PathEntry.asVersions es := by
  cases h with
  | versioned _ built => exact .inl ⟨_, rfl, built⟩
  | versionedRefused _ faulty => exact .inr ⟨_, rfl, faulty⟩
  | flat shape | flatRefused shape | mixed shape => cases found.symm.trans shape

theorem Outcome.of_flat (h : Outcome es result) (found : shapeOf es = .flat) :
    (∃ rs, result = .ok (.flat rs) ∧ IsBuiltFrom PathEntry.asResource es rs) ∨
      ∃ issues, result = .error (.invalid .flat issues) ∧ IsFaulty PathEntry.asResource es := by
  cases h with
  | flat _ built => exact .inl ⟨_, rfl, built⟩
  | flatRefused _ faulty => exact .inr ⟨_, rfl, faulty⟩
  | versioned shape | versionedRefused shape | mixed shape => cases found.symm.trans shape

theorem Outcome.of_mixed {names : List String} (h : Outcome es result)
    (found : shapeOf es = .mixed names) : result = .error (.broken (.mixedPaths names)) := by
  cases h with
  | mixed shape =>
    cases found.symm.trans shape
    rfl
  | flat shape | flatRefused shape | versioned shape | versionedRefused shape =>
    cases found.symm.trans shape

/-- The shape that an outcome shows: that of a table, that of a table that was refused, or that
there is none on which the entries agree. -/
def shapeShown? : Except Fault PathTable → Option Shape
  | .ok (.flat _) => some .flat
  | .ok (.versioned _) => some .versioned
  | .error (.invalid shape _) => some shape
  | .error (.broken (.mixedPaths names)) => some (.mixed names)
  | _ => none

theorem Outcome.shapeShown? (h : Outcome es result) : shapeShown? result = some (shapeOf es) := by
  cases h with
  | flat shape | flatRefused shape | versioned shape | versionedRefused shape | mixed shape =>
    rw [shape]
    rfl

theorem Outcome.paths {t : PathTable} (h : Outcome es (.ok t)) : t.paths = es.map Prod.fst := by
  cases h with
  | flat _ built => exact names_of_entries built.accepted
  | versioned _ built => exact names_of_entries built.accepted

/-- Nothing is wrong with entries for a table of a shape. -/
def IsSound : Shape → List (String × PathEntry) → Prop
  | .flat, es => ¬ IsFaulty PathEntry.asResource es
  | .versioned, es => ¬ IsFaulty PathEntry.asVersions es
  | .mixed _, _ => False

theorem isSound_of_perm {shape : Shape} (perm : es.Perm es') :
    IsSound shape es ↔ IsSound shape es' := by
  cases shape with
  | flat => exact not_congr (isFaulty_of_perm perm)
  | versioned => exact not_congr (isFaulty_of_perm perm)
  | mixed names => exact Iff.rfl

theorem Outcome.isOk_iff (h : Outcome es result) :
    result.isOk = true ↔ IsSound (shapeOf es) es := by
  cases h with
  | flat shape built =>
    rw [shape]
    exact iff_of_true rfl built.not_isFaulty
  | flatRefused shape faulty =>
    rw [shape]
    exact iff_of_false Bool.false_ne_true (not_not_intro faulty)
  | versioned shape built =>
    rw [shape]
    exact iff_of_true rfl built.not_isFaulty
  | versionedRefused shape faulty =>
    rw [shape]
    exact iff_of_false Bool.false_ne_true (not_not_intro faulty)
  | mixed shape =>
    rw [shape]
    exact iff_of_false Bool.false_ne_true not_false

/-- **Classification.**  If there are entries and all of them have versions, they are built into a
table of versions, or refused as one; if none has, into a table of resources, or refused as one;
and otherwise the paths whose entries have versions are named in order.  Entries are refused if and
only if a path is empty or an entry is not accepted as what it would have to be.  A table has the
paths that were given, in their order.  In another order of the entries the same shape is found,
and they are refused as before; with other values inside the resources the same shape is found. -/
theorem classification (es : List (String × PathEntry)) :
    (es ≠ [] → (∀ e ∈ es, e.2.HasVersions) →
      (∃ vs, ofEntries es = .ok (.versioned vs) ∧ IsBuiltFrom PathEntry.asVersions es vs) ∨
        ∃ issues, ofEntries es = .error (.invalid .versioned issues) ∧
          IsFaulty PathEntry.asVersions es) ∧
      ((∀ e ∈ es, ¬ e.2.HasVersions) →
        (∃ rs, ofEntries es = .ok (.flat rs) ∧ IsBuiltFrom PathEntry.asResource es rs) ∨
          ∃ issues, ofEntries es = .error (.invalid .flat issues) ∧
            IsFaulty PathEntry.asResource es) ∧
      ((∃ e ∈ es, e.2.HasVersions) → (∃ e ∈ es, ¬ e.2.HasVersions) →
        ∃ names, ofEntries es = .error (.broken (.mixedPaths names)) ∧
          names.Perm (versionedPaths es) ∧
          names.Pairwise fun a b => Text.notAfter a.toList b.toList = true) ∧
      (∀ t, ofEntries es = .ok t → t.paths = es.map Prod.fst) ∧
      (∀ es', es.Perm es' → shapeShown? (ofEntries es) = shapeShown? (ofEntries es') ∧
        (ofEntries es).isOk = (ofEntries es').isOk) ∧
      ∀ es', List.Forall₂ (fun e e' => e.1 = e'.1 ∧ e.2.Alike e'.2) es es' →
        shapeShown? (ofEntries es) = shapeShown? (ofEntries es') := by
  refine ⟨fun filled all => (outcome es).of_versioned (shapeOf_of_all_versioned filled all),
    fun none => (outcome es).of_flat (shapeOf_of_none_versioned none),
    fun some other => ⟨_, ?mixed, Text.sortByName_perm id _, Text.pairwise_sortByName id _⟩,
    fun t built => Outcome.paths (built ▸ outcome es), fun es' perm => ⟨?order, ?accepted⟩,
    fun es' alike => ?values⟩
  case mixed => exact (outcome es).of_mixed (shapeOf_of_some_versioned some other)
  case order =>
    rw [(outcome es).shapeShown?, (outcome es').shapeShown?, shapeOf_of_perm perm]
  case accepted =>
    rw [Bool.eq_iff_iff, (outcome es).isOk_iff, (outcome es').isOk_iff, shapeOf_of_perm perm]
    exact isSound_of_perm perm
  case values =>
    rw [(outcome es).shapeShown?, (outcome es').shapeShown?, shapeOf_of_alike alike]

/-- A path with a version, one that was built with versions, and one without. -/
def orders : String × PathEntry := ("/orders", .given (.record [("1.0", .map [])]))
def carts : String × PathEntry := ("/carts", .versions [])
def pets : String × PathEntry := ("/pets", .given (.record [("read", .map [])]))

/-- The three together are mixed, and the two kinds by themselves make tables, whatever stands in
the version of `/orders`. -/
theorem classification_of_shop :
    (∃ names, ofEntries [orders, pets, carts] = .error (.broken (.mixedPaths names)) ∧
        names.Perm ["/orders", "/carts"] ∧
        names.Pairwise fun a b => Text.notAfter a.toList b.toList = true) ∧
      (∃ vs, ofEntries [orders, carts] = .ok (.versioned vs) ∧
        IsBuiltFrom PathEntry.asVersions [orders, carts] vs) ∧
      (∃ rs, ofEntries [pets] = .ok (.flat rs) ∧ IsBuiltFrom PathEntry.asResource [pets] rs) ∧
      shapeShown? (ofEntries [carts, orders]) = some .versioned ∧
      shapeShown? (ofEntries [("/orders", .given (.record [("1.0", .int 3)])), carts]) =
        some .versioned := by
  obtain ⟨versioned, -, -, -, order, values⟩ := classification [orders, carts]
  have shape : shapeShown? (ofEntries [orders, carts]) = some .versioned := rfl
  refine ⟨(classification [orders, pets, carts]).2.2.1 (by decide) (by decide), ?versions,
    ?resources, ?order, ?values⟩
  case versions =>
    rcases versioned (List.cons_ne_nil _ _) (by decide) with built | ⟨issues, refused, -⟩
    · exact built
    · cases refused
  case resources =>
    rcases (classification [pets]).2.1 (by decide) with built | ⟨issues, refused, -⟩
    · exact built
    · cases refused
  case order => exact (order [carts, orders] (List.Perm.swap carts orders [])).1.symm.trans shape
  case values =>
    refine (values _ (.cons ⟨rfl, ?_⟩ (.cons ⟨rfl, .versions [] []⟩ .nil))).symm.trans shape
    exact .mappings rfl rfl rfl

/-- A table without versions whose one path is empty is refused. -/
theorem empty_path_refused :
    ¬ ∀ es : List (String × PathEntry), (∀ e ∈ es, ¬ e.2.HasVersions) →
      ∃ rs, ofEntries es = .ok (.flat rs) := by
  intro built
  obtain ⟨rs, ok⟩ := built [("", .given (.map []))] (by decide)
  cases ok

end PathTable

end ApiManual
