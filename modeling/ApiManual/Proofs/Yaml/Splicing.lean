import ApiManual.Proofs.Yaml.Steps

/-!
# Taking over entries

A mapping with merge keys gets the entries of other mappings, and they are put into the
node itself; the mappings that are taken over from are treated in the same way before,
and may lead back to where this started.  Here is what becomes of the nodes.

* Nothing is lost: a node keeps its place and its tag (only an equals sign among keys
  becomes a text) and all its own entries in their order (`Later`).
* Nothing is made up: every entry was one of some mapping before (`Spliced.origin`).
* Nothing else is touched: a mapping without merge keys keeps its entries as they are
  (`Spliced.still`), and what changes is the mapping in question or one that some mapping
  takes over from (`Spliced.changed`).
* Nothing is left out: the mapping has no merge keys in the end, and it has every entry
  that its merge keys give it, over however many mappings (`Spliced.all`).
-/

namespace ApiManual
namespace Yaml

/-- A content without the entries that it has as a mapping. -/
def Content.shape : Content → Content
  | .mapping _ => .mapping []
  | c => c

/-- What a node may become when entries are taken over. -/
structure Node.Becomes (x y : Node) : Prop where
  start : y.start = x.start
  shape : y.content.shape = x.content.shape
  tag : y.tag = x.tag ∨ x.tag = Tag.value ∧ y.tag = Tag.text

theorem Node.Becomes.refl (x : Node) : x.Becomes x := ⟨rfl, rfl, .inl rfl⟩

theorem Node.Becomes.trans {x y z : Node} (h : x.Becomes y) (h' : y.Becomes z) : x.Becomes z where
  start := h'.start.trans h.start
  shape := h'.shape.trans h.shape
  tag := by
    rcases h'.tag with same' | ⟨value, text⟩
    · rw [same']
      exact h.tag
    · rcases h.tag with same | ⟨-, text'⟩
      · exact .inr ⟨same ▸ value, text⟩
      · rw [text'] at value
        exact absurd value (by decide)

/-- A scalar node that is no equals sign stays as it is. -/
theorem Node.Becomes.eq_of_scalar {x y : Node} (h : x.Becomes y) {text : String}
    (content : x.content = .scalar text) (tag : x.tag ≠ Tag.value) : y = x := by
  obtain ⟨start, shape, tags⟩ := h
  obtain ⟨tag', start', content'⟩ := y
  obtain ⟨tag'', start'', content''⟩ := x
  cases content
  cases start
  cases tags.resolve_right fun value => tag value.1
  cases content' <;> cases shape
  rfl

namespace Graph

/-- The entries that are not under a merge key. -/
def ownEntries (nodes : Array Node) (n : Nat) : List (Nat × Nat) :=
  (entries nodes n).filter fun e => !isTagged nodes Tag.merge e.1

/-- The mappings whose entries a merge key with this value gives. -/
def sources (nodes : Array Node) (v : Nat) : List Nat :=
  match nodes[v]?.map Node.content with
  | some (.mapping _) => [v]
  | some (.sequence items) => items
  | _ => []

/-- Whether a mapping takes over nothing. -/
def IsPlain (nodes : Array Node) (es : List (Nat × Nat)) : Prop :=
  ∀ e ∈ es, isTagged nodes Tag.merge e.1 = false

/-- The entries that a mapping has or is given by its merge keys, over any number of
mappings. -/
inductive Gives (nodes : Array Node) : Nat → Nat × Nat → Prop where
  | own {n : Nat} {e : Nat × Nat} : e ∈ ownEntries nodes n → Gives nodes n e
  | taken {n k v m : Nat} {e : Nat × Nat} : (k, v) ∈ entries nodes n →
      isTagged nodes Tag.merge k = true → m ∈ sources nodes v → Gives nodes m e → Gives nodes n e

/-- Some mapping takes over the entries of this one. -/
def IsSource (nodes : Array Node) (m : Nat) : Prop :=
  ∃ n k v, (k, v) ∈ entries nodes n ∧ isTagged nodes Tag.merge k = true ∧ m ∈ sources nodes v

variable {a b d : Array Node} {n : Nat}

theorem entries_of_content {x : Node} {es : List (Nat × Nat)} (h : a[n]? = some x)
    (content : x.content = .mapping es) : entries a n = es := by
  obtain ⟨tag, start, _⟩ := x
  subst content
  rw [entries, h]

theorem ownEntries_of_content {x : Node} (h : a[n]? = some x)
    (content : ∀ es, x.content ≠ .mapping es) : ownEntries a n = [] := by
  obtain ⟨tag, start, c⟩ := x
  cases c with
  | mapping es => exact absurd rfl (content es)
  | scalar text => rw [ownEntries, entries, h]; rfl
  | sequence items => rw [ownEntries, entries, h]; rfl

theorem isTagged_of_node {x : Node} (h : a[n]? = some x) {tag : String} :
    isTagged a tag n = true ↔ x.tag = tag := by
  rw [isTagged, h, decide_eq_true_eq, Option.map_some, Option.some.injEq]

theorem mem_ownEntries {e : Nat × Nat} :
    e ∈ ownEntries a n ↔ e ∈ entries a n ∧ isTagged a Tag.merge e.1 = false := by
  rw [ownEntries, List.mem_filter, Bool.not_eq_true']

theorem IsPlain.append {es es' : List (Nat × Nat)} (h : IsPlain a es) (h' : IsPlain a es') :
    IsPlain a (es ++ es') := List.forall_mem_append.2 ⟨h, h'⟩

/-- A mapping that takes over nothing has only entries of its own. -/
theorem IsPlain.ownEntries_eq (h : IsPlain a (entries a n)) : ownEntries a n = entries a n :=
  List.filter_eq_self.2 fun e mem => by rw [h e mem]; rfl

/-- A mapping that takes over nothing is given nothing. -/
theorem IsPlain.gives_iff (h : IsPlain a (entries a n)) {e : Nat × Nat} :
    Gives a n e ↔ e ∈ entries a n := by
  constructor
  · rintro (own | ⟨mem, merge, -, -⟩)
    · exact (mem_ownEntries.1 own).1
    · rw [h _ mem] at merge
      cases merge
  · exact fun mem => .own (mem_ownEntries.2 ⟨mem, h e mem⟩)

/-! ## What nodes are later -/

/-- All tags stay but for those of equals signs and texts. -/
theorem isTagged_of_becomes {i : Nat} (becomes : Option.Rel Node.Becomes a[i]? b[i]?) {tag : String}
    (value : tag ≠ Tag.value) (text : tag ≠ Tag.text) : isTagged b tag i = isTagged a tag i := by
  rw [isTagged, isTagged]
  generalize a[i]? = x at becomes
  generalize b[i]? = y at becomes
  cases becomes with
  | none => rfl
  | some becomes =>
    rcases becomes.tag with same | ⟨was, is⟩
    · simp only [Option.map_some, same]
    · simp only [Option.map_some, was, is, Option.some.injEq, value.symm, text.symm]

/-- What the nodes are after entries have been taken over. -/
structure Later (a b : Array Node) : Prop where
  node : ∀ i : Nat, Option.Rel Node.Becomes a[i]? b[i]?
  own : ∀ i : Nat, (ownEntries a i).Sublist (ownEntries b i)

namespace Later

theorem refl (a : Array Node) : Later a a where
  node i := by
    cases a[i]? with
    | none => exact .none
    | some x => exact .some (.refl x)
  own _ := List.Sublist.refl _

theorem trans (h : Later a b) (h' : Later b d) : Later a d where
  node i := by
    have first := h.node i
    have second := h'.node i
    generalize a[i]? = x at first
    generalize b[i]? = y at first second
    generalize d[i]? = z at second
    cases first with
    | none => cases second; exact .none
    | some becomes =>
      cases second with
      | some becomes' => exact .some (becomes.trans becomes')
  own i := (h.own i).trans (h'.own i)

/-- A node that is there is there later. -/
theorem exists_node (h : Later a b) {i : Nat} {x : Node} (hx : a[i]? = some x) :
    ∃ y, b[i]? = some y ∧ x.Becomes y := by
  have becomes := h.node i
  rw [hx] at becomes
  generalize hy : b[i]? = found at becomes
  cases becomes with
  | some becomes => exact ⟨_, rfl, becomes⟩

/-- A node that is there later was there. -/
theorem exists_former (h : Later a b) {i : Nat} {y : Node} (hy : b[i]? = some y) :
    ∃ x, a[i]? = some x ∧ x.Becomes y := by
  have becomes := h.node i
  rw [hy] at becomes
  generalize hx : a[i]? = found at becomes
  cases becomes with
  | some becomes => exact ⟨_, rfl, becomes⟩

theorem size_eq (h : Later a b) : b.size = a.size := by
  have absent (i : Nat) : a[i]? = none ↔ b[i]? = none := by
    have becomes := h.node i
    generalize a[i]? = x at becomes
    generalize b[i]? = y at becomes
    cases becomes <;> simp
  simp only [Array.getElem?_eq_none_iff] at absent
  exact Nat.le_antisymm ((absent a.size).1 (Nat.le_refl _)) ((absent b.size).2 (Nat.le_refl _))

theorem isTagged_eq (h : Later a b) {tag : String} (value : tag ≠ Tag.value) (text : tag ≠ Tag.text)
    (i : Nat) : isTagged b tag i = isTagged a tag i := isTagged_of_becomes (h.node i) value text

theorem merge_eq (h : Later a b) (i : Nat) : isTagged b Tag.merge i = isTagged a Tag.merge i :=
  h.isTagged_eq (by decide) (by decide) i

theorem sources_eq (h : Later a b) (v : Nat) : sources b v = sources a v := by
  have becomes := h.node v
  rw [sources, sources]
  generalize a[v]? = x at becomes
  generalize b[v]? = y at becomes
  cases becomes with
  | none => rfl
  | @some x y becomes =>
    have shape := becomes.shape
    rw [Option.map_some, Option.map_some]
    cases hx : x.content <;> cases hy : y.content <;> simp_all [Content.shape]

theorem isPlain_iff (h : Later a b) {es : List (Nat × Nat)} : IsPlain b es ↔ IsPlain a es := by
  simp only [IsPlain, h.merge_eq]

end Later

/-! ## Changing one node -/

/-- The nodes with a text for a tag of one of them. -/
def asText (nodes : Array Node) (n : Nat) : Array Node :=
  nodes.modify n fun node => { node with tag := Tag.text }

/-- Whether a node holds entries. -/
def HoldsEntries (nodes : Array Node) (n : Nat) : Prop :=
  ∃ x es, nodes[n]? = some x ∧ x.content = .mapping es

theorem HoldsEntries.later (h : HoldsEntries a n) (later : Later a b) : HoldsEntries b n := by
  obtain ⟨x, es, hx, content⟩ := h
  obtain ⟨y, hy, becomes⟩ := later.exists_node hx
  have shape := becomes.shape
  rw [content] at shape
  cases content' : y.content with
  | mapping es' => exact ⟨y, es', hy, content'⟩
  | scalar text => rw [content'] at shape; cases shape
  | sequence items => rw [content'] at shape; cases shape

theorem entries_withEntries_self (h : HoldsEntries a n) (es : List (Nat × Nat)) :
    entries (withEntries a n es) n = es := by
  obtain ⟨x, old, hx, -⟩ := h
  rw [entries, withEntries, Array.getElem?_modify, if_pos rfl, hx]
  rfl

theorem entries_withEntries_of_ne {i : Nat} (h : i ≠ n) (es : List (Nat × Nat)) :
    entries (withEntries a n es) i = entries a i := by
  rw [entries, entries, withEntries, Array.getElem?_modify, if_neg (Ne.symm h)]

theorem isTagged_withEntries (es : List (Nat × Nat)) (tag : String) (i : Nat) :
    isTagged (withEntries a n es) tag i = isTagged a tag i := by
  rw [isTagged, isTagged, withEntries, Array.getElem?_modify]
  split <;> cases a[i]? <;> rfl

theorem ownEntries_withEntries_of_ne {i : Nat} (h : i ≠ n) (es : List (Nat × Nat)) :
    ownEntries (withEntries a n es) i = ownEntries a i := by
  simp only [ownEntries, entries_withEntries_of_ne h, isTagged_withEntries]

theorem ownEntries_withEntries_self (h : HoldsEntries a n) (es : List (Nat × Nat)) :
    ownEntries (withEntries a n es) n = es.filter fun e => !isTagged a Tag.merge e.1 := by
  simp only [ownEntries, entries_withEntries_self h, isTagged_withEntries]

/-- Other entries that hold the own ones make a later state of the nodes. -/
theorem later_withEntries (h : HoldsEntries a n) {es : List (Nat × Nat)}
    (own : (ownEntries a n).Sublist (es.filter fun e => !isTagged a Tag.merge e.1)) :
    Later a (withEntries a n es) where
  node i := by
    rw [withEntries, Array.getElem?_modify]
    split
    · rename_i same
      obtain ⟨x, old, hx, content⟩ := h
      rw [← same, hx]
      exact .some ⟨rfl, by rw [content]; rfl, .inl rfl⟩
    · exact (Later.refl a).node i
  own i := by
    by_cases same : i = n
    · subst same
      rwa [ownEntries_withEntries_self h]
    · exact (ownEntries_withEntries_of_ne same es).symm ▸ List.Sublist.refl _

/-- Without one of its merge keys a node still has all its own entries. -/
theorem later_without (h : HoldsEntries a n) {before after : List (Nat × Nat)} {k v : Nat}
    (split : entries a n = before ++ (k, v) :: after) (merge : isTagged a Tag.merge k = true) :
    Later a (withEntries a n (before ++ after)) := by
  refine later_withEntries h ?_
  rw [ownEntries, split, List.filter_append, List.filter_append, List.filter_cons, merge]
  exact List.Sublist.refl _

theorem entries_asText (k i : Nat) : entries (asText a k) i = entries a i := by
  rw [entries, entries, asText, Array.getElem?_modify]
  by_cases same : k = i
  · rw [if_pos same]
    rcases a[i]? with - | ⟨tag, start, content⟩
    · rfl
    · cases content <;> rfl
  · rw [if_neg same]

theorem later_asText {k : Nat} (h : isTagged a Tag.value k = true) : Later a (asText a k) := by
  have node (i : Nat) : Option.Rel Node.Becomes a[i]? (asText a k)[i]? := by
    rw [asText, Array.getElem?_modify]
    by_cases same : k = i
    · subst same
      rw [isTagged, decide_eq_true_eq, Option.map_eq_some_iff] at h
      obtain ⟨x, hx, value⟩ := h
      rw [if_pos rfl, hx]
      exact .some ⟨rfl, rfl, .inr ⟨value, rfl⟩⟩
    · rw [if_neg same]
      exact (Later.refl a).node i
  refine ⟨node, fun i => ?_⟩
  have merge (j : Nat) : isTagged (asText a k) Tag.merge j = isTagged a Tag.merge j :=
    isTagged_of_becomes (node j) (by decide) (by decide)
  simp only [ownEntries, entries_asText, merge]
  exact List.Sublist.refl _

/-- The nodes with texts for the equals signs among the keys of some entries. -/
def withNamedSigns (nodes : Array Node) (es : List (Nat × Nat)) : Array Node :=
  es.foldl (fun nodes e => if isTagged nodes Tag.value e.1 then asText nodes e.1 else nodes) nodes

theorem entries_withNamedSigns (es : List (Nat × Nat)) (i : Nat) :
    entries (withNamedSigns a es) i = entries a i := by
  induction es generalizing a with
  | nil => rfl
  | cons e rest ih =>
    rw [withNamedSigns, List.foldl_cons]
    refine ih.trans ?_
    split
    · exact entries_asText e.1 i
    · rfl

theorem later_withNamedSigns (es : List (Nat × Nat)) : Later a (withNamedSigns a es) := by
  induction es generalizing a with
  | nil => exact .refl a
  | cons e rest ih =>
    rw [withNamedSigns, List.foldl_cons]
    refine Later.trans ?_ ih
    split
    · rename_i sign
      exact later_asText sign
    · exact .refl a

/-- The value of the first merge key of some entries, and the other entries. -/
def firstMerge? (nodes : Array Node) : List (Nat × Nat) → Option (Nat × List (Nat × Nat))
  | [] => none
  | (k, v) :: rest =>
    if isTagged nodes Tag.merge k then some (v, rest)
    else (firstMerge? nodes rest).map fun r => (r.1, (k, v) :: r.2)

theorem firstMerge?_eq_none {es : List (Nat × Nat)} (h : firstMerge? a es = none) :
    IsPlain a es := by
  induction es with
  | nil => exact fun _ mem => absurd mem List.not_mem_nil
  | cons e rest ih =>
    rw [firstMerge?] at h
    split at h
    · cases h
    · rename_i plain
      rw [Option.map_eq_none_iff] at h
      exact List.forall_mem_cons.2 ⟨Bool.eq_false_iff.2 plain, ih h⟩

theorem firstMerge?_eq_some {es rest : List (Nat × Nat)} {v : Nat}
    (h : firstMerge? a es = some (v, rest)) :
    ∃ before k after, es = before ++ (k, v) :: after ∧ rest = before ++ after ∧
      isTagged a Tag.merge k = true := by
  induction es generalizing rest with
  | nil => cases h
  | cons e others ih =>
    rw [firstMerge?] at h
    split at h
    · rename_i merge
      cases h
      exact ⟨[], e.1, others, rfl, rfl, merge⟩
    · obtain ⟨r, found, same⟩ := Option.map_eq_some_iff.1 h
      cases same
      obtain ⟨before, k, after, rfl, rest_eq, merge⟩ := ih found
      exact ⟨e :: before, k, after, rfl, congrArg (e :: ·) rest_eq, merge⟩

/-! ## What taking over comes to -/

/-- What becomes of the nodes when one takes over entries; `merged` are those that were found
already. -/
structure Spliced (merged : List (Nat × Nat)) (n : Nat) (a b : Array Node) : Prop where
  later : Later a b
  origin {i : Nat} {e : Nat × Nat} : e ∈ entries b i → e ∈ merged ∨ ∃ j, e ∈ entries a j
  still {i : Nat} : i ≠ n ∨ merged = [] → IsPlain a (entries a i) → entries b i = entries a i
  changed {i : Nat} : entries b i ≠ entries a i → i = n ∨ IsSource a i
  plain : IsPlain b (entries b n)
  found {e : Nat × Nat} : e ∈ merged → e ∈ entries b n
  gives {i : Nat} {e : Nat × Nat} : Gives a i e → Gives b i e ∨ e ∈ entries b n
  all {e : Nat × Nat} : Gives a n e → e ∈ entries b n

/-- What becomes of the nodes when the entries `more` of some of them are gathered. -/
structure Gathered (ms : List Nat) (more : List (Nat × Nat)) (a b : Array Node) : Prop where
  later : Later a b
  origin {i : Nat} {e : Nat × Nat} : e ∈ entries b i → ∃ j, e ∈ entries a j
  found {e : Nat × Nat} : e ∈ more → ∃ j, e ∈ entries a j
  still {i : Nat} : IsPlain a (entries a i) → entries b i = entries a i
  changed {i : Nat} : entries b i ≠ entries a i → i ∈ ms ∨ IsSource a i
  plain : IsPlain b more
  gives {i : Nat} {e : Nat × Nat} : Gives a i e → Gives b i e ∨ e ∈ more
  all {m : Nat} {e : Nat × Nat} : m ∈ ms → Gives a m e → e ∈ more

/-- Whom mappings take over from does not change. -/
theorem Later.isSource (h : Later a b) (origin : ∀ i, ∀ e ∈ entries b i, ∃ j, e ∈ entries a j)
    {m : Nat} (source : IsSource b m) : IsSource a m := by
  obtain ⟨i, k, v, mem, merge, mem'⟩ := source
  obtain ⟨j, mem⟩ := origin i _ mem
  exact ⟨j, k, v, mem, h.merge_eq k ▸ merge, h.sources_eq v ▸ mem'⟩

namespace Gathered

theorem nil (a : Array Node) : Gathered [] [] a a where
  later := .refl a
  origin mem := ⟨_, mem⟩
  found mem := absurd mem List.not_mem_nil
  still _ := rfl
  changed change := absurd rfl change
  plain _ mem := absurd mem List.not_mem_nil
  gives := .inl
  all mem := absurd mem List.not_mem_nil

/-- Gathering the entries of one mapping that takes over what it has to. -/
theorem single (h : Spliced [] n a b) : Gathered [n] (entries b n) a b where
  later := h.later
  origin mem := (h.origin mem).resolve_left List.not_mem_nil
  found mem := (h.origin mem).resolve_left List.not_mem_nil
  still := h.still (.inr rfl)
  changed change := (h.changed change).imp_left List.mem_singleton.2
  plain := h.plain
  gives := h.gives
  all mem given := h.all (List.mem_singleton.1 mem ▸ given)

theorem cons {m : Nat} {ms : List Nat} {es more : List (Nat × Nat)} (h : Gathered [m] es a b)
    (h' : Gathered ms more b d) : Gathered (m :: ms) (more ++ es) a d where
  later := h.later.trans h'.later
  origin mem := by
    obtain ⟨j, mem⟩ := h'.origin mem
    exact h.origin mem
  found mem := by
    rcases List.mem_append.1 mem with mem | mem
    · obtain ⟨j, mem⟩ := h'.found mem
      exact h.origin mem
    · exact h.found mem
  still {i} plain := by
    have same := h.still plain
    rw [h'.still (by rw [same]; exact h.later.isPlain_iff.2 plain), same]
  changed {i} change := by
    by_cases same : entries b i = entries a i
    · rw [← same] at change
      rcases h'.changed change with mem | source
      · exact .inl (List.mem_cons_of_mem _ mem)
      · exact .inr (h.later.isSource (fun _ _ => h.origin) source)
    · exact (h.changed same).imp_left fun mem =>
        List.mem_cons.2 (.inl (List.mem_singleton.1 mem))
  plain e mem := by
    rcases List.mem_append.1 mem with mem | mem
    · exact h'.plain e mem
    · rw [h'.later.merge_eq]
      exact h.plain e mem
  gives given := by
    rcases h.gives given with given | mem
    · exact (h'.gives given).imp_right fun mem => List.mem_append_left _ mem
    · exact .inr (List.mem_append_right _ mem)
  all {m' e} mem given := by
    rcases List.mem_cons.1 mem with rfl | mem
    · exact List.mem_append_right _ (h.all (List.mem_singleton.2 rfl) given)
    · rcases h.gives given with given | mem'
      · exact List.mem_append_left _ (h'.all mem given)
      · exact List.mem_append_right _ mem'

end Gathered

namespace Spliced

variable {merged : List (Nat × Nat)}

/-- Without merge keys a mapping gets just what was found already. -/
theorem of_plain (holds : HoldsEntries a n) (plain : IsPlain a (entries a n))
    (found : IsPlain a merged) :
    Spliced merged n a
      (withEntries (withNamedSigns a (entries a n)) n (merged ++ entries a n)) := by
  have named := later_withNamedSigns (a := a) (entries a n)
  have holds' := holds.later named
  have entries_self : entries (withEntries (withNamedSigns a (entries a n)) n
      (merged ++ entries a n)) n = merged ++ entries a n := entries_withEntries_self holds' _
  have entries_ne {i : Nat} (ne : i ≠ n) : entries (withEntries (withNamedSigns a (entries a n)) n
      (merged ++ entries a n)) i = entries a i :=
    (entries_withEntries_of_ne ne _).trans (entries_withNamedSigns _ i)
  have later : Later a (withEntries (withNamedSigns a (entries a n)) n
      (merged ++ entries a n)) := by
    refine named.trans (later_withEntries holds' ?_)
    rw [List.filter_append, ownEntries, entries_withNamedSigns]
    exact List.sublist_append_right _ _
  have sum : IsPlain a (merged ++ entries a n) := found.append plain
  refine ⟨later, ?origin, ?still, ?changed, ?plain, ?found, ?gives, ?all⟩
  case origin =>
    intro i e mem
    by_cases same : i = n
    · subst same
      rw [entries_self] at mem
      exact (List.mem_append.1 mem).imp_right fun mem => ⟨_, mem⟩
    · rw [entries_ne same] at mem
      exact .inr ⟨i, mem⟩
  case still =>
    intro i at_ _
    by_cases same : i = n
    · subst same
      rw [entries_self, at_.resolve_left fun ne => ne rfl]
      rfl
    · exact entries_ne same
  case changed =>
    intro i change
    exact .inl (Decidable.byContradiction fun ne => change (entries_ne ne))
  case plain => rw [entries_self, later.isPlain_iff]; exact sum
  case found =>
    intro e mem
    rw [entries_self]
    exact List.mem_append_left _ mem
  case all =>
    intro e given
    rw [entries_self]
    exact List.mem_append_right _ (plain.gives_iff.1 given)
  case gives =>
    intro i e given
    induction given with
    | @own i e mem => exact .inl (.own ((later.own i).subset mem))
    | @taken i k v m e mem merge mem' _ ih =>
      rcases ih with given | mem''
      · refine .inl (.taken (k := k) (v := v) ?_ (later.merge_eq k ▸ merge)
          (later.sources_eq v ▸ mem') given)
        by_cases same : i = n
        · subst same
          rw [plain _ mem] at merge
          cases merge
        · rw [entries_ne same]
          exact mem
      · exact .inr mem''

/-- With a merge key gone, what it gave has to be gathered from its sources. -/
theorem gives_without (holds : HoldsEntries a n) {before after : List (Nat × Nat)} {k v : Nat}
    (split : entries a n = before ++ (k, v) :: after)
    (later : Later a (withEntries a n (before ++ after))) {i : Nat} {e : Nat × Nat}
    (given : Gives a i e) :
    Gives (withEntries a n (before ++ after)) i e ∨
      ∃ m ∈ sources a v, Gives (withEntries a n (before ++ after)) m e := by
  induction given with
  | @own i e mem => exact .inl (.own ((later.own i).subset mem))
  | @taken i k' v' m e mem merge mem' _ ih =>
    rcases ih with given | gathered
    · have still (mem : (k', v') ∈ entries (withEntries a n (before ++ after)) i) :
          Gives (withEntries a n (before ++ after)) i e :=
        .taken mem (later.merge_eq k' ▸ merge) (later.sources_eq v' ▸ mem') given
      by_cases same : i = n
      · subst same
        rw [split, List.mem_append, List.mem_cons] at mem
        rcases mem with mem | ⟨⟨⟩⟩ | mem
        · exact .inl (still (by
            rw [entries_withEntries_self holds]; exact List.mem_append_left _ mem))
        · exact .inr ⟨m, mem', given⟩
        · exact .inl (still (by
            rw [entries_withEntries_self holds]; exact List.mem_append_right _ mem))
      · exact .inl (still (by rw [entries_withEntries_of_ne same]; exact mem))
    · exact .inr gathered

/-- With a merge key a mapping goes without it first, then its sources are gathered, and then
the rest is done. -/
theorem of_merge (holds : HoldsEntries a n) {before after more : List (Nat × Nat)} {k v : Nat}
    (split : entries a n = before ++ (k, v) :: after) (merge : isTagged a Tag.merge k = true)
    (gathered : Gathered (sources a v) more (withEntries a n (before ++ after)) b)
    (rest : Spliced (merged ++ more) n b d) : Spliced merged n a d := by
  have without := later_without holds split merge
  have kept {i : Nat} {e : Nat × Nat} (mem : e ∈ entries (withEntries a n (before ++ after)) i) :
      e ∈ entries a i := by
    by_cases same : i = n
    · subst same
      rw [entries_withEntries_self holds] at mem
      rw [split]
      exact ((List.sublist_cons_self (k, v) after).append_left before).subset mem
    · rwa [entries_withEntries_of_ne same] at mem
  have later := without.trans gathered.later
  have origin {i : Nat} {e : Nat × Nat} (mem : e ∈ entries b i) : ∃ j, e ∈ entries a j := by
    obtain ⟨j, mem⟩ := gathered.origin mem
    exact ⟨j, kept mem⟩
  have isSource {m : Nat} : IsSource b m → IsSource a m := later.isSource fun _ _ => origin
  refine ⟨later.trans rest.later, ?origin, ?still, ?changed, rest.plain, ?found, ?gives, ?all⟩
  case origin =>
    intro i e mem
    rcases rest.origin mem with mem | ⟨j, mem⟩
    · rcases List.mem_append.1 mem with mem | mem
      · exact .inl mem
      · obtain ⟨j, mem⟩ := gathered.found mem
        exact .inr ⟨j, kept mem⟩
    · exact .inr (origin mem)
  case still =>
    intro i at_ plain
    -- The mapping itself is not plain, as it has a merge key.
    have ne : i ≠ n := by
      rintro rfl
      have mem : (k, v) ∈ entries a i := by
        rw [split]
        exact List.mem_append_right _ List.mem_cons_self
      rw [plain _ mem] at merge
      cases merge
    have same := entries_withEntries_of_ne (a := a) ne (before ++ after)
    have same' := gathered.still (i := i) (by rw [same]; exact without.isPlain_iff.2 plain)
    rw [rest.still (.inl ne) (by rw [same', same]; exact later.isPlain_iff.2 plain), same', same]
  case changed =>
    intro i change
    by_cases ne : i = n
    · exact .inl ne
    have same := entries_withEntries_of_ne (a := a) ne (before ++ after)
    by_cases same' : entries b i = entries (withEntries a n (before ++ after)) i
    · rw [← same, ← same'] at change
      exact (rest.changed change).imp_right isSource
    · rcases gathered.changed same' with mem | source
      · exact .inr ⟨n, k, v, by rw [split]; exact List.mem_append_right _ List.mem_cons_self,
          merge, without.sources_eq v ▸ mem⟩
      · exact .inr (without.isSource (fun _ _ mem => ⟨_, kept mem⟩) source)
  case found =>
    intro e mem
    exact rest.found (List.mem_append_left _ mem)
  case gives =>
    intro i e given
    rcases gives_without holds split without given with given | ⟨m, mem, given⟩
    · rcases gathered.gives given with given | mem
      · exact rest.gives given
      · exact .inr (rest.found (List.mem_append_right _ mem))
    · exact .inr (rest.found (List.mem_append_right _ (gathered.all mem given)))
  case all =>
    intro e given
    rcases gives_without holds split without given with given | ⟨m, mem, given⟩
    · rcases gathered.gives given with given | mem
      · exact rest.all given
      · exact rest.found (List.mem_append_right _ mem)
    · exact rest.found (List.mem_append_right _ (gathered.all mem given))

end Spliced

end Graph

/-! ## Taking over -/

namespace Load

open Yaml.Graph

variable {s s' : Loading} {n : Nat}

theorem run_takeMerge (es : List (Nat × Nat)) :
    (takeMerge es).run s = .ok (firstMerge? s.nodes es, s) := by
  induction es with
  | nil => rfl
  | cons e rest ih =>
    rw [takeMerge, run_bind_of_ok (run_hasTag Tag.merge), firstMerge?]
    split
    · rfl
    · rw [run_bind_of_ok ih]
      rfl

theorem run_nameEqualsSigns (es : List (Nat × Nat)) :
    (nameEqualsSigns es).run s = .ok ((), { s with nodes := withNamedSigns s.nodes es }) := by
  induction es generalizing s with
  | nil => rfl
  | cons e rest ih =>
    have first : nameEqualsSigns (e :: rest) = (hasTag Tag.value e.1 >>= fun sign =>
        if sign then modify fun t => { t with nodes := asText t.nodes e.1 } else pure ()) >>=
          fun _ => nameEqualsSigns rest := rfl
    rw [first, bind_assoc, run_bind_of_ok (run_hasTag Tag.value), withNamedSigns, List.foldl_cons]
    cases isTagged s.nodes Tag.value e.1 with
    | true => exact (run_bind_of_ok (run_modify _)).trans ih
    | false => exact (run_bind_of_ok (run_pure ())).trans ih

/-- A step has mappings take over their entries, and leaves all but the nodes alone; `merged`
were found already. -/
def Splices (merged : List (Nat × Nat)) (step : Nat → Load Unit) : Prop :=
  ∀ {n : Nat} {s s' : Loading}, HoldsEntries s.nodes n → IsPlain s.nodes merged →
    (step n).run s = .ok ((), s') →
    ∃ nodes, s' = { s with nodes } ∧ Spliced merged n s.nodes nodes

/-- Gathering entries, with the mappings taking over what they have to. -/
theorem gathered_of_gather {step : Nat → Load Unit} (splices : Splices [] step)
    {place : Mark} {ms : List Nat} {more : List (Nat × Nat)}
    (h : (gather step place ms).run s = .ok (more, s')) :
    ∃ nodes, s' = { s with nodes } ∧ Gathered ms more s.nodes nodes := by
  induction ms generalizing s s' more with
  | nil =>
    cases h
    exact ⟨s.nodes, rfl, .nil _⟩
  | cons m rest ih =>
    rw [gather, bind_eq_ok] at h
    obtain ⟨node, t, at_, h⟩ := h
    obtain ⟨there, rfl⟩ := nodeAt_eq_ok.1 at_
    cases content : node.content with
    | scalar text => rw [content] at h; cases h
    | sequence items => rw [content] at h; cases h
    | mapping es =>
      rw [content] at h
      obtain ⟨_, t, taken, h⟩ := bind_eq_ok.1 h
      obtain ⟨nodes, rfl, spliced⟩ := splices ⟨node, es, there, content⟩ nofun taken
      rw [run_bind_of_ok run_entriesOf, bind_eq_ok] at h
      obtain ⟨others, t, rest, h⟩ := h
      obtain ⟨nodes', rfl, gathered⟩ := ih rest
      cases h
      exact ⟨nodes', rfl, (Gathered.single spliced).cons gathered⟩

/-- **Taking over.**  A mapping takes over what its merge keys give it. -/
theorem splices_flatten (fuel : Nat) (merged : List (Nat × Nat)) :
    Splices merged (flatten fuel merged) := by
  induction fuel generalizing merged with
  | zero => exact fun _ _ h => nomatch h
  | succ fuel ih =>
    intro n s s' holds found h
    rw [flatten, run_bind_of_ok run_entriesOf, run_bind_of_ok (run_takeMerge _)] at h
    cases merge? : firstMerge? s.nodes (entries s.nodes n) with
    | none =>
      have plain := firstMerge?_eq_none merge?
      rw [merge?] at h
      dsimp only at h
      rw [run_bind_of_ok (run_nameEqualsSigns _), run_setEntries] at h
      cases h
      exact ⟨_, rfl, .of_plain holds plain found⟩
    | some r =>
      obtain ⟨v, rest⟩ := r
      obtain ⟨before, k, after, split, rfl, merge⟩ := firstMerge?_eq_some merge?
      rw [merge?] at h
      dsimp only at h
      rw [run_bind_of_ok (run_setEntries _), bind_eq_ok] at h
      obtain ⟨mapping, t, at_, h⟩ := h
      obtain ⟨-, rfl⟩ := nodeAt_eq_ok.1 at_
      obtain ⟨source, t, at_, h⟩ := bind_eq_ok.1 h
      obtain ⟨there, rfl⟩ := nodeAt_eq_ok.1 at_
      -- What is left to do once the sources are gathered.
      have finish {more : List (Nat × Nat)} {nodes : Array Node}
          (gathered : Gathered (sources s.nodes v) more
            (withEntries s.nodes n (before ++ after)) nodes)
          (h : (flatten fuel (merged ++ more) n).run { s with nodes } = .ok ((), s')) :
          ∃ nodes, s' = { s with nodes } ∧ Spliced merged n s.nodes nodes := by
        have without : Later s.nodes (withEntries s.nodes n (before ++ after)) :=
          later_without holds split merge
        have later := without.trans gathered.later
        obtain ⟨nodes', rfl, spliced⟩ := ih (merged ++ more) (holds.later later)
          ((later.isPlain_iff.2 found).append gathered.plain) h
        exact ⟨nodes', rfl, .of_merge holds split merge gathered spliced⟩
      have sources_eq : sources s.nodes v = sources (withEntries s.nodes n (before ++ after)) v :=
        ((later_without holds split merge).sources_eq v).symm
      cases content : source.content with
      | mapping es =>
        rw [content] at h
        obtain ⟨_, t, taken, h⟩ := bind_eq_ok.1 h
        obtain ⟨nodes, rfl, spliced⟩ := ih [] ⟨source, es, there, content⟩ nofun taken
        rw [run_bind_of_ok run_entriesOf] at h
        refine finish ?_ h
        rw [sources_eq, sources, there, Option.map_some, content]
        exact .single spliced
      | sequence items =>
        rw [content] at h
        obtain ⟨more, t, taken, h⟩ := bind_eq_ok.1 h
        obtain ⟨nodes, rfl, gathered⟩ := gathered_of_gather (ih []) taken
        refine finish ?_ h
        rw [sources_eq, sources, there, Option.map_some, content]
        exact gathered
      | scalar text =>
        rw [content] at h
        cases h

end Load
end Yaml
end ApiManual
