import ApiManual.Proofs.Manual.Steps
import Mathlib.Data.List.Perm.Subperm

/-!
# How the steps and the documents of a manual are nested

Two views of the same tree.  The steps open and close places like brackets: a claim
opens a place right below the innermost open one, and a write closes the innermost.
`Nests before steps after` follows this with a stack, innermost place first.  As it can
be cut between any two steps (`Nests.split`), it says of every part of a run, finished
or not, that the documents written so far stand at places that were claimed, each at
its own (`Nests.perm`).

The documents come in post-order.  So what a document includes stands before it
(`IsGrounded`), and the places that are included are those of all documents but the
last, each of them once (`perm_includes_documents`).
-/

namespace ApiManual
namespace Manual

open Asciidoc

/-! ## Open places -/

/-- Some steps lead from one stack of open places to another.  A document without a text is
never opened, and so it closes nothing. -/
inductive Nests : List Place → List Step → List Place → Prop
  | nil (stack : List Place) : Nests stack [] stack
  | id {rest : List Step} {last : List Place} (inside : Nests [[]] rest last) :
      Nests [] (.claim [] :: rest) last
  | claim {s : String} {up : Place} {stack last : List Place} {rest : List Step}
      (inside : Nests ((s :: up) :: up :: stack) rest last) :
      Nests (up :: stack) (.claim (s :: up) :: rest) last
  | write (doc : Document) {text : String} {stack last : List Place} {rest : List Step}
      (h : doc.text = .ok text) (behind : Nests stack rest last) :
      Nests (doc.place :: stack) (.write doc :: rest) last
  | wordless (doc : Document) {fault : Json.WriteFault} {stack last : List Place}
      {rest : List Step} (h : doc.text = .error fault) (behind : Nests stack rest last) :
      Nests stack (.write doc :: rest) last

namespace Nests

variable {before between after : List Place} {xs ys : List Step}

theorem append (h : Nests before xs between) (h' : Nests between ys after) :
    Nests before (xs ++ ys) after := by
  induction h with
  | nil => exact h'
  | id _ ih => exact .id (ih h')
  | claim _ ih => exact .claim (ih h')
  | write doc text _ ih => exact .write doc text (ih h')
  | wordless doc fault _ ih => exact .wordless doc fault (ih h')

/-- Nested steps can be cut anywhere. -/
theorem split (h : Nests before (xs ++ ys) after) :
    ∃ between, Nests before xs between ∧ Nests between ys after := by
  induction xs generalizing before with
  | nil => exact ⟨before, .nil before, h⟩
  | cons s rest ih =>
    cases h with
    | id inside =>
      obtain ⟨between, front, back⟩ := ih inside
      exact ⟨between, .id front, back⟩
    | claim inside =>
      obtain ⟨between, front, back⟩ := ih inside
      exact ⟨between, .claim front, back⟩
    | write doc text behind =>
      obtain ⟨between, front, back⟩ := ih behind
      exact ⟨between, .write doc text front, back⟩
    | wordless doc fault behind =>
      obtain ⟨between, front, back⟩ := ih behind
      exact ⟨between, .wordless doc fault front, back⟩

/-- **What is claimed is open or has been written.** -/
theorem perm (h : Nests before xs after) (texts : ∀ doc ∈ writes xs, ∃ text, doc.text = .ok text) :
    (after ++ (writes xs).map Document.place).Perm (claims xs ++ before) := by
  induction h with
  | nil stack => simp
  | @id rest last inside ih =>
    simpa using (ih texts).trans (List.perm_append_singleton ..)
  | @claim s up stack last rest inside ih =>
    exact (ih texts).trans List.perm_middle
  | @write doc text stack last rest ht behind ih =>
    rw [writes_cons_write, List.forall_mem_cons] at texts
    rw [writes_cons_write, claims_cons_write, List.map_cons]
    exact (List.perm_middle.trans ((ih texts.2).cons doc.place)).trans List.perm_middle.symm
  | @wordless doc fault stack last rest hf behind ih =>
    rw [writes_cons_write, List.forall_mem_cons] at texts
    obtain ⟨text, ht⟩ := texts.1
    rw [hf] at ht
    cases ht

/-- What is claimed or was open is still open, or a document was to be written there. -/
theorem mem_or_mem (h : Nests before xs after) {place : Place}
    (mem : place ∈ claims xs ∨ place ∈ before) :
    place ∈ after ∨ place ∈ (writes xs).map Document.place := by
  induction h with
  | nil stack => exact mem.imp (fun none => by cases none) (fun held => held) |>.symm
  | @id rest last inside ih =>
    refine ih ?_
    rcases mem with mem | mem
    · rcases List.mem_cons.1 mem with rfl | mem
      · exact .inr (List.mem_singleton_self _)
      · exact .inl mem
    · cases mem
  | @claim s up stack last rest inside ih =>
    refine ih ?_
    rcases mem with mem | mem
    · rcases List.mem_cons.1 mem with rfl | mem
      · exact .inr (List.mem_cons_self ..)
      · exact .inl mem
    · exact .inr (List.mem_cons_of_mem _ mem)
  | @write doc text stack last rest ht behind ih =>
    rw [writes_cons_write, List.map_cons, List.mem_cons]
    rcases mem with mem | mem
    · exact (ih (.inl mem)).imp_right .inr
    · rcases List.mem_cons.1 mem with rfl | mem
      · exact .inr (.inl rfl)
      · exact (ih (.inr mem)).imp_right .inr
  | @wordless doc fault stack last rest hf behind ih =>
    rw [writes_cons_write, List.map_cons, List.mem_cons]
    exact (ih mem).imp_right .inr

/-- A claim below the id is made below an open place. -/
theorem mem_of_claim {s : String} {up : Place} {rest : List Step}
    (h : Nests before (.claim (s :: up) :: rest) after) : up ∈ before := by
  cases h with
  | claim inside => exact List.mem_cons_self ..

end Nests

/-- A leaf is opened and closed at once, or not at all. -/
theorem nests_leafSteps (s : String) (up : Place) (stack : List Place)
    (body : Except Json.WriteFault (List Block)) :
    Nests (up :: stack) (leafSteps (s :: up) body) (up :: stack) := by
  cases body with
  | ok blocks => exact .claim (.write (leafDocument (s :: up) (.ok blocks)) rfl (.nil _))
  | error fault => exact .wordless (leafDocument (s :: up) (.error fault)) rfl (.nil _)

mutual

/-- The steps of a tree close what they open. -/
theorem Tree.nests_steps (id : String) (up : Place) (stack : List Place) :
    ∀ t : Tree, Nests (up :: stack) (t.steps id up) (up :: stack)
  | .leaf segment body => by
    rw [Tree.steps]
    exact nests_leafSteps segment up stack body
  | .branch segment head children => by
    rw [Tree.steps, List.cons_append]
    have own : Nests ((segment :: up) :: up :: stack)
        [.write (branchDocument id (segment :: up) head children)] (up :: stack) :=
      .write (branchDocument id (segment :: up) head children) rfl (.nil _)
    exact .claim ((nests_childSteps id (segment :: up) (up :: stack) children).append own)

/-- The steps of several trees close what they open. -/
theorem nests_childSteps (id : String) (up : Place) (stack : List Place) :
    ∀ ts : Children, Nests (up :: stack) (childSteps id up ts) (up :: stack)
  | [] => by
    rw [childSteps_nil]
    exact .nil _
  | (_, t) :: rest => by
    rw [childSteps_cons]
    exact (t.nests_steps id up stack).append (nests_childSteps id up stack rest)

end

/-- **The steps of a manual are nested**, below the id, which stays open. -/
theorem nests_steps (title : String) (d : Description) : Nests [] (steps title d) [[]] := by
  have root : Nests [[]] [.claim rootPlace, .write (rootDocument title d)] [[]] :=
    .claim (.write (rootDocument title d) rfl (.nil _))
  exact .id ((nests_childSteps d.id [] [] _).append root)

/-! ## Parts of a run -/

variable {title : String} {d : Description} {done rest : List Step}

/-- **No document is written under a name that was not claimed**, and none twice under one
claim. -/
theorem subperm_claims (h : steps title d = done ++ rest)
    (texts : ∀ doc ∈ writes done, ∃ text, doc.text = .ok text) :
    ((writes done).map Document.place).Subperm (claims done) := by
  have all := nests_steps title d
  rw [h] at all
  obtain ⟨stack, front, -⟩ := all.split
  have perm := front.perm texts
  rw [List.append_nil] at perm
  exact (List.sublist_append_right stack _).subperm.trans perm.subperm

/-- A parent is claimed before its children. -/
theorem parent_mem_claims {s : String} {up : Place}
    (h : steps title d = done ++ .claim (s :: up) :: rest)
    (texts : ∀ doc ∈ writes done, ∃ text, doc.text = .ok text) : up ∈ claims done := by
  have all := nests_steps title d
  rw [h] at all
  obtain ⟨stack, front, back⟩ := all.split
  have perm := front.perm texts
  rw [List.append_nil] at perm
  exact perm.subset (List.mem_append_left _ back.mem_of_claim)

/-- If all documents have a text, their places are claimed, and the id besides. -/
theorem perm_claims_steps (texts : ∀ doc ∈ documents title d, ∃ text, doc.text = .ok text) :
    (claims (steps title d)).Perm ([] :: (documents title d).map Document.place) := by
  have perm := (nests_steps title d).perm (by rwa [writes_steps])
  rw [writes_steps, List.append_nil] at perm
  exact perm.symm

/-! ## What is included -/

/-- The document by which the one at a place is included stands here. -/
def includer : Place → Place
  | [] => []
  | [_] => rootPlace
  | _ :: up => up

/-- Whether what a document includes stands before it in a row of documents. -/
def IsGrounded (docs : List Document) : Prop :=
  ∀ before doc after, docs = before ++ doc :: after →
    ∀ p ∈ doc.includes, p ∈ before.map Document.place

/-- Documents behind others may include these as well. -/
theorem IsGrounded.append_of {xs ys : List Document} (hx : IsGrounded xs)
    (hy : ∀ before doc after, ys = before ++ doc :: after →
      ∀ p ∈ doc.includes, p ∈ xs.map Document.place ∨ p ∈ before.map Document.place) :
    IsGrounded (xs ++ ys) := by
  intro before doc after h p mem
  have inBack (front : List Document) (e : ys = front ++ doc :: after) :
      p ∈ (xs ++ front).map Document.place := by
    rw [List.map_append, List.mem_append]
    exact hy front doc after e p mem
  rcases List.append_eq_append_iff.1 h with ⟨front, rfl, e⟩ | ⟨back, rfl, e⟩
  · exact inBack front e
  · cases back with
    | nil =>
      have behind := inBack [] e.symm
      rwa [List.append_nil, List.append_nil] at behind
    | cons first more =>
      obtain ⟨rfl, rfl⟩ := List.cons.inj e
      exact hx before doc more rfl p mem

theorem IsGrounded.append {xs ys : List Document} (hx : IsGrounded xs) (hy : IsGrounded ys) :
    IsGrounded (xs ++ ys) :=
  hx.append_of fun before doc after h p mem => .inr (hy before doc after h p mem)

/-- A document behind all that it includes. -/
theorem IsGrounded.concat {docs : List Document} {doc : Document} (h : IsGrounded docs)
    (included : ∀ p ∈ doc.includes, p ∈ docs.map Document.place) :
    IsGrounded (docs ++ [doc]) := by
  refine h.append_of fun before e after last p mem => .inl ?_
  cases before with
  | nil =>
    obtain ⟨rfl, -⟩ := List.cons.inj last
    exact included p mem
  | cons first more => simp at last

mutual

/-- All documents of a tree but its own are included once. -/
theorem Tree.perm_includes (id : String) (up : Place) :
    ∀ t : Tree, ((t.documents id up).flatMap Document.includes ++ [t.segment :: up]).Perm
      ((t.documents id up).map Document.place)
  | .leaf segment body => .refl _
  | .branch segment head children => by
    have below := perm_childIncludes id (segment :: up) children
    rw [Tree.documents, List.flatMap_append, List.map_append]
    simpa [branchDocument, Tree.segment] using below.append_right [segment :: up]

/-- All documents of several trees are included once, if those of the trees themselves are. -/
theorem perm_childIncludes (id : String) (up : Place) :
    ∀ ts : Children, ((childDocuments id up ts).flatMap Document.includes ++ childPlaces up ts).Perm
      ((childDocuments id up ts).map Document.place)
  | [] => by simp
  | (above, t) :: rest => by
    have own := t.perm_includes id up
    have others := perm_childIncludes id up rest
    rw [childDocuments_cons, List.flatMap_append, List.map_append, childPlaces_cons]
    refine List.Perm.trans ?_ (own.append others)
    simp only [List.append_assoc, List.singleton_append]
    exact List.perm_middle.append_left _

end

mutual

/-- The documents of a tree stand behind what they include. -/
theorem Tree.isGrounded (id : String) (up : Place) : ∀ t : Tree, IsGrounded (t.documents id up)
  | .leaf segment body => by
    have none : IsGrounded [] := fun before doc after h => by simp at h
    exact none.concat (List.forall_mem_nil _)
  | .branch segment head children => by
    have places := (perm_childIncludes id (segment :: up) children).subset
    rw [Tree.documents]
    exact (isGrounded_childDocuments id (segment :: up) children).concat fun p mem =>
      places (List.mem_append_right _ mem)

/-- The documents of several trees stand behind what they include. -/
theorem isGrounded_childDocuments (id : String) (up : Place) :
    ∀ ts : Children, IsGrounded (childDocuments id up ts)
  | [] => fun before doc after h => by simp at h
  | (above, t) :: rest => by
    rw [childDocuments_cons]
    exact (t.isGrounded id up).append (isGrounded_childDocuments id up rest)

end

/-- **A document stands behind all that it includes.** -/
theorem isGrounded_documents (title : String) (d : Description) :
    IsGrounded (documents title d) :=
  (isGrounded_childDocuments d.id [] _).concat fun _ mem =>
    (perm_childIncludes d.id [] _).subset (List.mem_append_right _ mem)

/-- **All documents but the last are included, each of them once.** -/
theorem perm_includes_documents (title : String) (d : Description) :
    ((documents title d).flatMap Document.includes).Perm
      ((documents title d).dropLast.map Document.place) := by
  have below := perm_childIncludes d.id [] ((sections d).map untitled)
  rw [documents, List.dropLast_concat, List.flatMap_append, List.flatMap_singleton]
  exact below

mutual

/-- Documents of a tree are included from right above. -/
theorem Tree.includer_of_mem_includes (id : String) (up : Place) :
    ∀ t : Tree, ∀ doc ∈ t.documents id up, ∀ p ∈ doc.includes, includer p = doc.place
  | .leaf segment body, doc, hd, p, mem => by
    rw [Tree.documents, List.mem_singleton] at hd
    subst hd
    cases mem
  | .branch segment head children, doc, hd, p, mem => by
    rw [Tree.documents, List.mem_append, List.mem_singleton] at hd
    rcases hd with hd | rfl
    · exact includer_of_mem_childIncludes id (segment :: up) children doc hd p mem
    · obtain ⟨c, -, rfl⟩ := List.mem_map.1 mem
      rfl

/-- Documents of several trees are included from right above. -/
theorem includer_of_mem_childIncludes (id : String) (up : Place) :
    ∀ ts : Children, ∀ doc ∈ childDocuments id up ts, ∀ p ∈ doc.includes, includer p = doc.place
  | [], doc, hd, p, mem => by
    rw [childDocuments_nil] at hd
    cases hd
  | (above, t) :: rest, doc, hd, p, mem => by
    rw [childDocuments_cons, List.mem_append] at hd
    rcases hd with hd | hd
    · exact t.includer_of_mem_includes id up doc hd p mem
    · exact includer_of_mem_childIncludes id up rest doc hd p mem

end

/-- **Every document is included from the place above it**, or from the root. -/
theorem includer_of_mem_includes {doc : Document} (hd : doc ∈ documents title d) {p : Place}
    (mem : p ∈ doc.includes) : includer p = doc.place := by
  rw [documents, List.mem_append, List.mem_singleton] at hd
  rcases hd with hd | rfl
  · exact includer_of_mem_childIncludes d.id [] _ doc hd p mem
  · obtain ⟨c, -, rfl⟩ := List.mem_map.1 mem
    rfl

/-- A document that is not the last is followed by the one that includes it. -/
theorem exists_includer {before after : List Document} {doc : Document}
    (h : documents title d = before ++ doc :: after) (behind : after ≠ [])
    (places : ((documents title d).map Document.place).Nodup) :
    ∃ between parent last, after = between ++ parent :: last ∧
      parent.place = includer doc.place ∧ doc.place ∈ parent.includes := by
  have fresh : doc.place ∉ before.map Document.place := by
    rw [h, List.map_append, List.map_cons] at places
    exact fun mem => (List.nodup_append.1 places).2.2 _ mem _ (List.mem_cons_self ..) rfl
  have notLast : doc.place ∈ (documents title d).dropLast.map Document.place := by
    rw [h, List.dropLast_append_of_ne_nil (List.cons_ne_nil _ _),
      List.dropLast_cons_of_ne_nil behind]
    exact List.mem_map_of_mem (by simp)
  have included := (perm_includes_documents title d).symm.subset notLast
  obtain ⟨parent, hp, mem⟩ := List.mem_flatMap.1 included
  obtain ⟨front, last, split⟩ := List.append_of_mem hp
  have earlier := isGrounded_documents title d front parent last split _ mem
  have above : parent.place = includer doc.place := (includer_of_mem_includes hp mem).symm
  rw [h] at split
  rcases List.append_eq_append_iff.1 split with ⟨between, rfl, e⟩ | ⟨between, rfl, -⟩
  · cases between with
    | nil =>
      rw [List.append_nil] at earlier
      exact absurd earlier fresh
    | cons first between =>
      obtain ⟨rfl, rfl⟩ := List.cons.inj e
      exact ⟨between, parent, last, rfl, above, mem⟩
  · rw [List.map_append, List.mem_append, not_or] at fresh
    exact absurd earlier fresh.1

end Manual
end ApiManual
