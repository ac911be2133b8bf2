import ApiManual.Proofs.Manual.Tree
import ApiManual.Manual.Generate

/-!
# The steps of writing a manual

Writing a manual is a fixed row of steps, which the description determines before
the first of them is taken: claims of namespaces and writes of files.  A branch is
claimed before anything below it and written after all of it; a leaf is claimed and
written right away, but only once its body is known to have a text.  The root
document comes last.

The steps are taken one after the other until one of them fails.  `takeAll_append`
lets a row of steps be cut anywhere, and `takeAll_spec` cuts it where the run ends.
-/

namespace ApiManual
namespace Manual

open Asciidoc

/-! ## The row of steps -/

/-- One step of writing a manual. -/
inductive Step where
  /-- The namespace of a place is claimed. -/
  | claim (place : Place)
  /-- A document is written, or turns out to have no text. -/
  | write (doc : Document)

namespace Step

/-- The place that a step claims. -/
def claimed? : Step → Option Place
  | claim p => some p
  | write _ => none

/-- The document that a step writes. -/
def document? : Step → Option Document
  | claim _ => none
  | write doc => some doc

end Step

/-- The places that some steps claim, in order. -/
def claims (steps : List Step) : List Place := steps.filterMap Step.claimed?

/-- The documents that some steps write, in order. -/
def writes (steps : List Step) : List Document := steps.filterMap Step.document?

/-- The steps of a leaf.  Without a text it is not even claimed. -/
def leafSteps (place : Place) (body : Except Json.WriteFault (List Block)) : List Step :=
  match body with
  | .ok _ => [.claim place, .write (leafDocument place body)]
  | .error _ => [.write (leafDocument place body)]

mutual

/-- The steps of a document below a place, and of all below it. -/
def Tree.steps (id : String) (up : Place) : Tree → List Step
  | .leaf segment body => leafSteps (segment :: up) body
  | .branch segment head children =>
    .claim (segment :: up) :: childSteps id (segment :: up) children ++
      [.write (branchDocument id (segment :: up) head children)]

/-- The steps of several documents below a place. -/
def childSteps (id : String) (up : Place) : Children → List Step
  | [] => []
  | (_, t) :: rest => t.steps id up ++ childSteps id up rest

end

/-- The steps of the manual of a description. -/
def steps (title : String) (d : Description) : List Step :=
  .claim [] :: childSteps d.id [] ((sections d).map untitled) ++
    [.claim rootPlace, .write (rootDocument title d)]

@[simp] theorem childSteps_nil (id : String) (up : Place) : childSteps id up [] = [] := by
  simp [childSteps]

@[simp] theorem childSteps_cons (id : String) (up : Place) (above : List Block) (t : Tree)
    (rest : Children) :
    childSteps id up ((above, t) :: rest) = t.steps id up ++ childSteps id up rest := by
  simp [childSteps]

/-- The steps of several documents are those of each of them. -/
theorem childSteps_eq_flatMap (id : String) (up : Place) (ts : Children) :
    childSteps id up ts = ts.flatMap fun c => c.2.steps id up := by
  induction ts with
  | nil => simp
  | cons c rest ih =>
    obtain ⟨above, t⟩ := c
    rw [childSteps_cons, ih, List.flatMap_cons]

theorem childSteps_append (id : String) (up : Place) (xs ys : Children) :
    childSteps id up (xs ++ ys) = childSteps id up xs ++ childSteps id up ys := by
  rw [childSteps_eq_flatMap, childSteps_eq_flatMap, childSteps_eq_flatMap, List.flatMap_append]

@[simp] theorem claims_nil : claims [] = [] := rfl

@[simp] theorem claims_cons_claim (p : Place) (rest : List Step) :
    claims (.claim p :: rest) = p :: claims rest := rfl

@[simp] theorem claims_cons_write (doc : Document) (rest : List Step) :
    claims (.write doc :: rest) = claims rest := rfl

@[simp] theorem claims_append (xs ys : List Step) : claims (xs ++ ys) = claims xs ++ claims ys :=
  List.filterMap_append

@[simp] theorem writes_nil : writes [] = [] := rfl

@[simp] theorem writes_cons_claim (p : Place) (rest : List Step) :
    writes (.claim p :: rest) = writes rest := rfl

@[simp] theorem writes_cons_write (doc : Document) (rest : List Step) :
    writes (.write doc :: rest) = doc :: writes rest := rfl

@[simp] theorem writes_append (xs ys : List Step) : writes (xs ++ ys) = writes xs ++ writes ys :=
  List.filterMap_append

/-! ## What the steps write -/

theorem writes_leafSteps (place : Place) (body : Except Json.WriteFault (List Block)) :
    writes (leafSteps place body) = [leafDocument place body] := by
  cases body <;> rfl

mutual

/-- The steps of a tree write its documents in post-order. -/
theorem Tree.writes_steps (id : String) (up : Place) :
    ∀ t : Tree, writes (t.steps id up) = t.documents id up
  | .leaf segment body => by
    simp only [Tree.steps, Tree.documents, writes_leafSteps]
  | .branch segment head children => by
    simp only [Tree.steps, Tree.documents, List.cons_append, writes_cons_claim, writes_append,
      writes_childSteps id (segment :: up) children, writes_cons_write, writes_nil]

/-- The steps of several trees write their documents in post-order. -/
theorem writes_childSteps (id : String) (up : Place) :
    ∀ ts : Children, writes (childSteps id up ts) = childDocuments id up ts
  | [] => by simp
  | (_, t) :: rest => by
    rw [childSteps_cons, childDocuments_cons, writes_append, t.writes_steps id up,
      writes_childSteps id up rest]

end

/-- **The steps of a manual write its documents in post-order.** -/
theorem writes_steps (title : String) (d : Description) :
    writes (steps title d) = documents title d := by
  simp [steps, documents, writes_childSteps]

/-! ## Taking steps -/

/-- Takes a step. -/
def Step.take (id : String) (out : Path) (p : Progress) : Step → Except Failure Progress
  | .claim place => match p.registry.grant (claimAt id place) with
    | .ok registry => .ok { p with registry }
    | .error collision => .error (.collision collision)
  | .write doc => match doc.text with
    | .error fault => .error (.body fault)
    | .ok text =>
      let file := fileAt id doc.place
      let path := out.child (Path.parse file)
      match p.disk.write path text with
      | .ok disk => .ok { p with written := p.written ++ [file], disk }
      | .error fault => .error (.file fault path)

/-- Takes steps until one fails. -/
def takeAll (id : String) (out : Path) (p : Progress) : List Step → Option Failure × Progress
  | [] => (none, p)
  | s :: rest => match s.take id out p with
    | .ok p' => takeAll id out p' rest
    | .error failure => (some failure, p)

variable {id : String} {out : Path} {p p' : Progress}

@[simp] theorem takeAll_nil : takeAll id out p [] = (none, p) := rfl

/-- A row of steps is taken up to any place in it, and then the rest. -/
theorem takeAll_append (xs ys : List Step) (h : takeAll id out p xs = (none, p')) :
    takeAll id out p (xs ++ ys) = takeAll id out p' ys := by
  induction xs generalizing p with
  | nil =>
    obtain rfl : p = p' := by simpa using h
    rfl
  | cons s rest ih =>
    rw [List.cons_append, takeAll]
    rw [takeAll] at h
    cases hs : s.take id out p with
    | ok q =>
      rw [hs] at h
      exact ih h
    | error f =>
      rw [hs] at h
      cases h

/-- What ends the first steps of a row ends the whole row. -/
theorem takeAll_append_of_failure (xs ys : List Step) {f : Failure}
    (h : takeAll id out p xs = (some f, p')) :
    takeAll id out p (xs ++ ys) = (some f, p') := by
  induction xs generalizing p with
  | nil => cases h
  | cons s rest ih =>
    rw [List.cons_append, takeAll]
    rw [takeAll] at h
    cases hs : s.take id out p with
    | ok q =>
      rw [hs] at h
      exact ih h
    | error g =>
      rw [hs] at h
      exact h

/-- **Where a run ends.**  Some first steps are taken, and then there are no more or
the next one fails. -/
theorem takeAll_spec (xs : List Step) {f : Option Failure} (h : takeAll id out p xs = (f, p')) :
    ∃ done rest, xs = done ++ rest ∧ takeAll id out p done = (none, p') ∧
      ((rest = [] ∧ f = none) ∨
        ∃ s tail g, rest = s :: tail ∧ f = some g ∧ s.take id out p' = .error g) := by
  induction xs generalizing p with
  | nil =>
    obtain ⟨rfl, rfl⟩ : none = f ∧ p = p' := by simpa using h
    exact ⟨[], [], rfl, rfl, .inl ⟨rfl, rfl⟩⟩
  | cons s rest ih =>
    rw [takeAll] at h
    cases hs : s.take id out p with
    | ok q =>
      rw [hs] at h
      obtain ⟨done, left, rfl, taken, ending⟩ := ih h
      refine ⟨s :: done, left, rfl, ?_, ending⟩
      rw [takeAll, hs]
      exact taken
    | error g =>
      rw [hs] at h
      obtain ⟨rfl, rfl⟩ : some g = f ∧ p = p' := by simpa using h
      exact ⟨[], s :: rest, rfl, rfl, .inr ⟨s, rest, g, rfl, rfl, hs⟩⟩

end Manual
end ApiManual
