import ApiManual.Namespace
import ApiManual.Text.Quoted

/-!
# The registry of namespaces

Different identifiers can have the same namespace (`/pets` and `pets`, say), and
then their documents would have the same file.  The registry hands each namespace
out once.  It remembers who asked for it first, so that the second one to ask can
be told.
-/

namespace ApiManual

/-- A request for a namespace: a segment under a parent. -/
structure Claim where
  parent : Option String
  segment : String
  deriving DecidableEq, Repr

namespace Claim

/-- The namespace that is asked for. -/
def target (c : Claim) : String := Namespace.child c.parent c.segment

/-- A claim as messages show it. -/
def quoted (c : Claim) : String :=
  Text.quoted c.segment ++ " under " ++
    (match c.parent with
      | some p => Text.quoted p
      | none => "None")

end Claim

/-- Two claims to one namespace. -/
structure Collision where
  refused : Claim
  holder : Claim
  deriving DecidableEq, Repr

namespace Collision

/-- How the refusal is worded. -/
def message (c : Collision) : String :=
  c.refused.quoted ++ " normalizes to " ++ Text.quoted c.refused.target ++
    ", already used by " ++ c.holder.quoted

end Collision

/-- The claims granted so far, the latest first. -/
structure Registry where
  claims : List Claim
  deriving Repr

namespace Registry

/-- Nothing has been claimed. -/
def empty : Registry := ⟨[]⟩

/-- Who holds a namespace. -/
def holder? (r : Registry) (ns : String) : Option Claim :=
  r.claims.find? fun c => c.target = ns

/-- Whether a namespace has been handed out. -/
def contains (r : Registry) (ns : String) : Bool := (r.holder? ns).isSome

/-- How many namespaces have been handed out. -/
def size (r : Registry) : Nat := r.claims.length

/-- Hands out the namespace of a claim, unless somebody holds it. -/
def grant (r : Registry) (c : Claim) : Except Collision Registry :=
  match r.holder? c.target with
  | some other => .error ⟨c, other⟩
  | none => .ok ⟨c :: r.claims⟩

/-- A claim is granted exactly when nobody holds its namespace. -/
theorem grant_eq_ok_iff {r r' : Registry} {c : Claim} :
    r.grant c = .ok r' ↔ r.holder? c.target = none ∧ r' = ⟨c :: r.claims⟩ := by
  unfold grant
  cases h : r.holder? c.target <;> simp [eq_comm]

/-- A claim is refused exactly when somebody holds its namespace. -/
theorem grant_eq_error_iff {r : Registry} {c : Claim} {e : Collision} :
    r.grant c = .error e ↔ ∃ other, r.holder? c.target = some other ∧ e = ⟨c, other⟩ := by
  unfold grant
  cases h : r.holder? c.target <;> simp [eq_comm]

end Registry
end ApiManual
