import ApiManual.Registry
import Mathlib.Data.List.Nodup

/-!
# What comes of claims to a registry

A registry is asked for namespaces again and again, under parents that it may or may not have
handed out, and some of the claims are refused.  What it holds by then is told by its answers
alone: it holds the claims to which it has returned a namespace, and no others
(`History.IsSound`).

So whether a claim is refused depends on what has been returned so far and on nothing else.  The
holder that a refusal names is the one to whom the namespace was returned, however many claims to
it have been refused since.
-/

namespace ApiManual
namespace Registry

/-- The answer of a registry to a claim, and the registry after it: a namespace is returned and
the claim kept, or the claim is refused and nothing changes. -/
def ask (r : Registry) (c : Claim) : Except Collision String × Registry :=
  match r.grant c with
  | .ok granted => (.ok c.target, granted)
  | .error collision => (.error collision, r)

theorem ask_of_free {r : Registry} {c : Claim} (free : r.holder? c.target = none) :
    r.ask c = (.ok c.target, ⟨c :: r.claims⟩) := by
  have granted : r.grant c = .ok ⟨c :: r.claims⟩ := grant_eq_ok_iff.2 ⟨free, rfl⟩
  rw [ask, granted]

theorem ask_of_held {r : Registry} {c holder : Claim} (held : r.holder? c.target = some holder) :
    r.ask c = (.error ⟨c, holder⟩, r) := by
  have refused : r.grant c = .error ⟨c, holder⟩ := grant_eq_error_iff.2 ⟨holder, held, rfl⟩
  rw [ask, refused]

/-! ## Histories -/

/-- The claims that a registry has been asked to grant so far, with its answers, and the registry
by now. -/
structure History where
  past : List (Claim × Except Collision String)
  registry : Registry

namespace History

/-- A new registry. -/
def start : History := ⟨[], empty⟩

/-- The answer to one more claim. -/
def answer (h : History) (c : Claim) : Except Collision String := (h.registry.ask c).1

/-- The history with one more claim. -/
def next (h : History) (c : Claim) : History :=
  ⟨h.past ++ [(c, h.answer c)], (h.registry.ask c).2⟩

/-- The history with some more claims. -/
def after (h : History) (cs : List Claim) : History := cs.foldl next h

/-- The namespace that an answer returns, with the claim to which it is returned. -/
def returnedTo? (entry : Claim × Except Collision String) : Option (String × Claim) :=
  entry.2.toOption.map fun ns => (ns, entry.1)

/-- The namespaces that have been returned, in their order, each with the claim to which it was
returned. -/
def returned (h : History) : List (String × Claim) := h.past.filterMap returnedTo?

/-- A claim adds nothing to what has been returned but what is returned to it. -/
theorem returned_next (h : History) (c : Claim) :
    (h.next c).returned = h.returned ++ (returnedTo? (c, h.answer c)).toList := by
  rw [returned, next, List.filterMap_append, returned]
  cases last : returnedTo? (c, h.answer c) <;> simp [last]

/-- The two ways in which a claim ends. -/
inductive Ends (h : History) (c : Claim) : Prop where
  | granted (free : h.registry.holder? c.target = none) (answer : h.answer c = .ok c.target)
      (registry : (h.next c).registry = ⟨c :: h.registry.claims⟩)
      (returned : (h.next c).returned = h.returned ++ [(c.target, c)])
  | refused {holder : Claim} (held : h.registry.holder? c.target = some holder)
      (answer : h.answer c = .error ⟨c, holder⟩) (registry : (h.next c).registry = h.registry)
      (returned : (h.next c).returned = h.returned)

theorem ends (h : History) (c : Claim) : h.Ends c := by
  cases held : h.registry.holder? c.target with
  | none =>
    have asked := ask_of_free held
    have answer : h.answer c = .ok c.target := congrArg Prod.fst asked
    refine .granted held answer (congrArg Prod.snd asked) ?_
    rw [returned_next, answer]
    rfl
  | some holder =>
    have asked := ask_of_held held
    have answer : h.answer c = .error ⟨c, holder⟩ := congrArg Prod.fst asked
    refine .refused held answer (congrArg Prod.snd asked) ?_
    rw [returned_next, answer]
    exact List.append_nil _

/-! ## What a registry holds -/

/-- A registry holds the claims to which a namespace was returned, and what was returned to each is
the namespace that it asks for.  No namespace was returned twice. -/
structure IsSound (h : History) : Prop where
  holds : h.returned = h.registry.claims.reverse.map fun c => (c.target, c)
  differ : (h.returned.map Prod.fst).Nodup

theorem isSound_start : start.IsSound where
  holds := rfl
  differ := List.nodup_nil

namespace IsSound

variable {h : History} {ns : String} {holder : Claim}

/-- The holder of a namespace is the one to whom it was returned. -/
theorem mem_returned (sound : h.IsSound) (held : h.registry.holder? ns = some holder) :
    (ns, holder) ∈ h.returned := by
  rw [holder?] at held
  have mem : holder ∈ h.registry.claims := List.mem_of_find?_eq_some held
  have target : holder.target = ns := by simpa using List.find?_some held
  rw [sound.holds, ← target]
  exact List.mem_map_of_mem (List.mem_reverse.2 mem)

/-- Nobody holds the namespaces that were never returned, and no others. -/
theorem holder?_eq_none_iff (sound : h.IsSound) :
    h.registry.holder? ns = none ↔ ns ∉ h.returned.map Prod.fst := by
  rw [holder?, List.find?_eq_none, sound.holds, List.map_map, List.mem_map]
  constructor
  · rintro free ⟨c, mem, target⟩
    exact free c (List.mem_reverse.1 mem) (decide_eq_true target)
  · intro never c mem target
    exact never ⟨c, List.mem_reverse.2 mem, of_decide_eq_true target⟩

/-- It counts what was returned. -/
theorem size_eq (sound : h.IsSound) : h.registry.size = h.returned.length := by
  rw [sound.holds, List.length_map, List.length_reverse]
  rfl

/-- It contains the namespaces that were returned. -/
theorem contains_iff (sound : h.IsSound) :
    h.registry.contains ns = true ↔ ns ∈ h.returned.map Prod.fst := by
  rw [Registry.contains, ← Option.not_isNone, Bool.not_eq_true', ← Bool.not_eq_true,
    Option.isNone_iff_eq_none, sound.holder?_eq_none_iff, not_not]

/-- One more claim leaves it so, whether it is granted or refused. -/
theorem next (sound : h.IsSound) (c : Claim) : (h.next c).IsSound := by
  cases h.ends c with
  | granted free _ registry returned =>
    refine ⟨?holds, ?differ⟩
    case holds =>
      rw [returned, registry, sound.holds, List.reverse_cons, List.map_append]
      rfl
    case differ =>
      have fresh := sound.holder?_eq_none_iff.1 free
      rw [returned, List.map_append]
      exact sound.differ.append (List.nodup_singleton _) (List.disjoint_singleton.2 fresh)
  | refused _ _ registry returned =>
    refine ⟨?holds, ?differ⟩
    case holds =>
      rw [returned, registry]
      exact sound.holds
    case differ =>
      rw [returned]
      exact sound.differ

theorem after (sound : h.IsSound) (cs : List Claim) : (h.after cs).IsSound := by
  induction cs generalizing h with
  | nil => exact sound
  | cons c cs ih => exact ih (sound.next c)

end IsSound

/-- **What comes of claims to a new registry.**  After any claims, the namespaces that were returned
differ from each other; they are as many as the registry counts, and it contains these and no
others.  One more claim is answered with the namespace of its parent and its segment, unless that
was returned before.  Then it is refused, the refusal names the claim to which the namespace was
returned, and the registry stays as it is. -/
theorem registry_after_claims (before : List Claim) :
    let h := start.after before
    (h.returned.map Prod.fst).Nodup ∧
      h.registry.size = h.returned.length ∧
      (∀ ns, h.registry.contains ns = true ↔ ns ∈ h.returned.map Prod.fst) ∧
      ∀ parent segment,
        let ns := Namespace.ofParts [parent, some segment]
        (ns ∉ h.returned.map Prod.fst → h.answer ⟨parent, segment⟩ = .ok ns) ∧
        (ns ∈ h.returned.map Prod.fst → ∃ (first : Claim) (e : Collision),
          (ns, first) ∈ h.returned ∧ h.answer ⟨parent, segment⟩ = .error e ∧
          e.message = Claim.quoted ⟨parent, segment⟩ ++ " normalizes to " ++ Text.quoted ns ++
            ", already used by " ++ first.quoted ∧
          (h.next ⟨parent, segment⟩).registry = h.registry) := by
  intro h
  have sound : h.IsSound := isSound_start.after before
  refine ⟨sound.differ, sound.size_eq, fun ns => sound.contains_iff, ?_⟩
  intro parent segment ns
  have target : Claim.target ⟨parent, segment⟩ = ns := Namespace.child_eq_ofParts parent segment
  cases h.ends ⟨parent, segment⟩ with
  | granted free answer _ _ =>
    rw [target] at free answer
    have fresh := sound.holder?_eq_none_iff.1 free
    exact ⟨fun _ => answer, fun again => absurd again fresh⟩
  | @refused first held answer registry _ =>
    rw [target] at held
    have mem : (ns, first) ∈ h.returned := sound.mem_returned held
    refine ⟨fun fresh => absurd (List.mem_map_of_mem mem) fresh, fun _ => ?_⟩
    refine ⟨first, ⟨⟨parent, segment⟩, first⟩, mem, answer, ?_, registry⟩
    rw [Collision.message, target]

/-- Two paths of one namespace, of which the second is refused. -/
def twinClaims : List Claim := [⟨none, "api"⟩, ⟨some "api", "/pets"⟩, ⟨some "api", "pets"⟩]

/-- A third claim to their namespace, by a segment alone. -/
theorem registry_after_twins : ∃ (first : Claim) (e : Collision),
    ("api-pets", first) ∈ (start.after twinClaims).returned ∧
      (start.after twinClaims).answer ⟨none, "API-Pets"⟩ = .error e ∧
      e.message = Claim.quoted ⟨none, "API-Pets"⟩ ++ " normalizes to " ++ Text.quoted "api-pets" ++
        ", already used by " ++ first.quoted ∧
      ((start.after twinClaims).next ⟨none, "API-Pets"⟩).registry =
        (start.after twinClaims).registry := by
  have ns : Namespace.ofParts [none, some "API-Pets"] = "api-pets" := by decide
  have before : "api-pets" ∈ (start.after twinClaims).returned.map Prod.fst := by decide
  obtain ⟨-, -, -, answers⟩ := registry_after_claims twinClaims
  obtain ⟨-, refused⟩ := answers none "API-Pets"
  rw [ns] at refused
  exact refused before

end History
end Registry
end ApiManual
