import ApiManual.Proofs.Yaml.Making

/-!
# Keys are unique

No mapping of a text that is loaded has a key twice, if the mapping is made into a value
(`keys_differ_of_load`).  Which mappings these are can be told from the nodes alone: a node
is made if it belongs to the value of another one that is (`Graph.IsPart`), and the entries of
a mapping are those that it has or is given by its merge keys.  So a text with such a mapping
is not loaded (`Graph.error_of_repeatsKey`).
-/

namespace ApiManual
namespace Yaml

open Loading

namespace Graph

/-- A node that belongs to the value of another one. -/
inductive IsPart (nodes : Array Node) (n : Nat) : Nat → Prop where
  /-- A sequence has items. -/
  | item {x : Node} {items : List Nat} {i : Nat} : nodes[n]? = some x → x.tag = Tag.sequence →
      x.content = .sequence items → i ∈ items → IsPart nodes n i
  /-- A mapping or a set has the keys and values of the entries that it has or is given. -/
  | entry {e : Nat × Nat} {i : Nat} :
      isTagged nodes Tag.mapping n = true ∨ isTagged nodes Tag.set n = true → Gives nodes n e →
      i = e.1 ∨ i = e.2 → IsPart nodes n i
  /-- A list of pairs has the keys and values of its items. -/
  | pair {x : Node} {items : List Nat} {m i : Nat} {e : Nat × Nat} : nodes[n]? = some x →
      x.tag = Tag.orderedMap ∨ x.tag = Tag.pairs → x.content = .sequence items → m ∈ items →
      e ∈ ownEntries nodes m → i = e.1 ∨ i = e.2 → IsPart nodes n i

/-- The nodes that belong to what a text comes to. -/
inductive Reaches (g : Graph) : Nat → Prop where
  | root {n : Nat} : g.root = some n → Reaches g n
  | part {n i : Nat} : Reaches g n → IsPart g.nodes n i → Reaches g i

variable {unique : Bool} {g : Graph} {l : Loaded} {n : Nat}

/-- **Loading.**  In the end everything that belongs to the value of a text has been made, and all
that belongs to it in turn. -/
theorem settled_of_load (h : g.load unique = .ok l) (root : g.root ≠ none) :
    ∃ s, s.made = l.made ∧ From g.nodes s ∧ (∀ n, g.root = some n → s.HasMade n) ∧
      (∀ n, s.HasMade n → Settled unique g.nodes s n) ∧
      Covers g.nodes (fun _ => False) s := by
  obtain ⟨n, root⟩ := Option.ne_none_iff_exists'.1 root
  rw [load_of_root root] at h
  cases run : (Load.all unique n).run (Loading.begun g.nodes) with
  | error p => rw [run] at h; cases h
  | ok r =>
    obtain ⟨_, s⟩ := r
    rw [run] at h
    cases h
    have unmade {i : Nat} {m : Made} : (begun g.nodes).madeOf i ≠ some m := by
      rw [madeOf_begun]
      nofun
    have start : From g.nodes (begun g.nodes) := ⟨.refl _, Array.size_replicate ..,
      fun made => absurd made unmade, fun _ _ made => absurd made unmade,
      fun made => absurd made unmade⟩
    rw [Load.all, Load.run_bind_of_ok Load.run_get, Load.bind_eq_ok] at run
    obtain ⟨m, t, first, run⟩ := run
    rw [Load.run_bind_of_ok Load.run_get] at run
    obtain ⟨first, made⟩ := Load.makes_make unique g.nodes _ start first
    obtain ⟨grows, from_, settled, covers⟩ := Load.grows_of_completeAll
      (Load.makes_make unique g.nodes _) first.from_ first.active
      (fun i mem => (first.queue mem).resolve_left List.not_mem_nil)
      (fun i made => (first.news made).resolve_left fun ⟨_, made⟩ => unmade made) run
    refine ⟨s, rfl, from_, ?_, settled, covers (first.covers fun i e given => .inl given)⟩
    intro n' root'
    rw [root] at root'
    cases root'
    exact grows.hasMade ⟨m, made⟩

/-- What belongs to the value of a text has been made, and has all that belongs to it. -/
theorem settled_of_reaches (h : g.load unique = .ok l) (reached : g.Reaches n) :
    ∃ s, s.made = l.made ∧ From g.nodes s ∧ s.HasMade n ∧ Settled unique g.nodes s n := by
  have root : g.root ≠ none := by
    intro none
    induction reached with
    | root some => rw [none] at some; cases some
    | part _ _ ih => exact ih
  obtain ⟨s, made, from_, root, settled, covers⟩ := settled_of_load h root
  refine ⟨s, made, from_, ?_⟩
  suffices s.HasMade n from ⟨this, settled n this⟩
  induction reached with
  | root at_ => exact root _ at_
  | @part n i _ part ih =>
    have all := settled n ih
    cases part with
    | item there tag content mem =>
      exact all.items ((isTagged_of_node there).2 tag) there content i mem
    | @entry e i tags given which =>
      have filled := all.filled tags
      have both : s.HasMade e.1 ∧ s.HasMade e.2 := by
        rcases covers _ _ given with given | none | both
        · have mem := filled.plain.gives_iff.1 given
          exact ⟨(filled.key mem).imp' _ fun _ made => made, filled.value mem⟩
        · exact none.elim
        · exact both
      exact which.elim (· ▸ both.1) (· ▸ both.2)
    | @pair x items m i e there tags content mem mem' which =>
      have tags := tags.imp (isTagged_of_node there).2 (isTagged_of_node there).2
      have both := all.pairs tags there content m mem e mem'
      exact which.elim (· ▸ both.1) (· ▸ both.2)

/-- **Unique keys.**  Of a mapping that belongs to the value of a text each key has become a
scalar, and no two of them are one key. -/
theorem keys_differ_of_load (h : g.load true = .ok l) (reached : g.Reaches n)
    (tag : isTagged g.nodes Tag.mapping n = true) :
    (ownEntries g.nodes n).Pairwise fun e f => ∃ a b,
      l.made[e.1]?.join = some (.scalar a) ∧ l.made[f.1]?.join = some (.scalar b) ∧
        a.sameKey b = false := by
  obtain ⟨s, made, from_, -, settled⟩ := settled_of_reaches h reached
  have filled := settled.filled (.inl tag)
  refine (settled.distinct rfl tag).imp_of_mem fun {e f} mem mem' differ => ?_
  obtain ⟨a, first⟩ := filled.key (filled.mem_of_own from_ mem)
  obtain ⟨b, second⟩ := filled.key (filled.mem_of_own from_ mem')
  exact ⟨a, b, made ▸ first, made ▸ second, differ a b first second⟩

/-- The scalar that a node is made into, if it is one. -/
def read? (nodes : Array Node) (n : Nat) : Option Scalar := nodes[n]?.bind Node.scalar?

/-- A mapping that has a key twice. -/
def RepeatsKey (nodes : Array Node) (n : Nat) : Prop :=
  ∃ e f a b, [e, f].Sublist (ownEntries nodes n) ∧ read? nodes e.1 = some a ∧
    read? nodes f.1 = some b ∧ a.sameKey b = true

/-- A scalar is made into what is read from it. -/
theorem made_eq_of_load (h : g.load unique = .ok l) (reached : g.Reaches n) {a : Scalar}
    (reads : read? g.nodes n = some a) : l.made[n]?.join = some (.scalar a) := by
  obtain ⟨s, made, from_, ⟨m, made'⟩, -⟩ := settled_of_reaches h reached
  obtain ⟨x, there, reads⟩ := Option.bind_eq_some_iff.1 reads
  rw [from_.scalars there reads made'] at made'
  exact made ▸ made'

/-- A text in whose value a mapping has a key twice is not loaded. -/
theorem error_of_repeatsKey (reached : g.Reaches n) (tag : isTagged g.nodes Tag.mapping n = true)
    (repeats : RepeatsKey g.nodes n) : ∃ p, g.load true = .error p := by
  cases h : g.load true with
  | error p => exact ⟨p, rfl⟩
  | ok l =>
    obtain ⟨e, f, a, b, sub, first, second, same⟩ := repeats
    have own {e : Nat × Nat} (mem : e ∈ ownEntries g.nodes n) : g.Reaches e.1 :=
      .part reached (.entry (.inl tag) (.own mem) (.inl rfl))
    have differ := List.pairwise_pair.1 ((keys_differ_of_load h reached tag).sublist sub)
    obtain ⟨a', b', first', second', differ⟩ := differ
    rw [made_eq_of_load h (own (sub.subset List.mem_cons_self)) first] at first'
    rw [made_eq_of_load h (own (sub.subset (List.mem_cons_of_mem _ List.mem_cons_self))) second]
      at second'
    cases first'
    cases second'
    rw [same] at differ
    cases differ

end Graph

/-- The nodes of a text, told from its parts. -/
theorem ofChars_eq_ok {cs : List Char} {nodes : Array Node} {root : Option Nat}
    (h : (Graph.ofChars cs).toOption.map (fun g => (g.nodes, g.root)) = some (nodes, root)) :
    Graph.ofChars cs = .ok ⟨nodes, root⟩ := by
  cases graph : Graph.ofChars cs with
  | error p => rw [graph] at h; cases h
  | ok g => rw [graph] at h; cases h; rfl

end Yaml
end ApiManual
