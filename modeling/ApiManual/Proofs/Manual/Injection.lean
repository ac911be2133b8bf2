import ApiManual.Proofs.Manual.Inclusions
import ApiManual.Proofs.Validation.WellFormed

/-!
# What identifiers can add to the files of a manual

A manual shows what it is given by those who write descriptors.  Prose is theirs to mark
up.  Identifiers are not: they should appear as they are, and a file should include only
what was written for it.

Most of what is shown is kept from starting a line of its own.  Line feeds are taken out of
the cells of tables and escaped in the bodies of schemas, and no name with white space in it
is accepted.  An identifier that is not checked is shown behind something on its line, but a
line feed in it is shown as well, and behind that it can say what it likes
(`injected_inclusion`).  This is the only way: if no identifier of an accepted description
has a line behind a line feed that starts with the mark of inclusion lines, then every line
of every file that starts with the mark includes a file that was written before
(`marked_lines_of_accepted`).
-/

namespace ApiManual

open Asciidoc

/-! ## Names of accepted descriptions -/

/-- A name has only one line. -/
theorem Name.IsName.isInert {s : String} (h : IsName s) : IsInert s.toList := by
  intro marked
  have feed : '\n' ∈ s.toList := marked.subset (List.mem_cons_self ..)
  exact absurd (h.2 '\n' feed) (by decide)

theorem Schema.name_notMem_shown {s : Schema} {t : String} : .name t ∉ s.shown := by
  simp [shown]

theorem Operation.name_notMem_shown {o : Operation} {t : String} : .name t ∉ o.shown := by
  simp [shown]

theorem Query.name_notMem_shown {q : Query} {t : String} : .name t ∉ q.shown := by
  simp [shown, Operation.name_notMem_shown]

theorem ApiError.name_notMem_shown {e : ApiError} {t : String} : .name t ∉ e.shown := by
  simp [shown, Schema.name_notMem_shown]

theorem Action.name_mem_shown {a : Action} {t : String} : .name t ∈ a.shown ↔ t = a.name := by
  simp [shown, Operation.name_notMem_shown, Schema.name_notMem_shown]

/-- The names that are shown of a resource are those of its actions. -/
theorem Resource.name_mem_shown {r : Resource} {t : String} :
    .name t ∈ r.shown ↔ ∃ a ∈ r.actions, t = a.name := by
  simp [shown, Operation.name_notMem_shown, Schema.name_notMem_shown, Query.name_notMem_shown,
    Action.name_mem_shown]

/-- What is shown of a table is shown of one of its entries. -/
theorem mem_shownEntries {known : String → ShownText} {shown : α → List ShownText}
    {entries : List (String × α)} {t : ShownText} :
    t ∈ shownEntries known shown entries ↔ ∃ e ∈ entries, t = known e.1 ∨ t ∈ shown e.2 := by
  simp only [shownEntries, List.mem_flatMap, List.mem_cons]

theorem Resource.IsWellFormed.isName {r : Resource} (h : r.IsWellFormed) {t : String}
    (mem : .name t ∈ r.shown) : Name.IsName t := by
  obtain ⟨a, ha, rfl⟩ := Resource.name_mem_shown.1 mem
  exact h.actionNames a ha

theorem PathTable.IsWellFormed.isName {table : PathTable} (h : table.IsWellFormed) {t : String}
    (mem : .name t ∈ table.shown) : Name.IsName t := by
  cases h with
  | flat paths resources =>
    obtain ⟨e, he, path | inside⟩ := mem_shownEntries.1 mem
    · cases path
    · exact (resources e he).isName inside
  | versioned paths filled versions =>
    obtain ⟨e, he, path | inside⟩ := mem_shownEntries.1 mem
    · cases path
    · obtain ⟨v, hv, version | inside⟩ := mem_shownEntries.1 inside
      · cases version
      · exact (versions e he v hv).2.2.isName inside

/-- The names of a catalog are those of its entries, in which there are no others. -/
theorem Catalog.IsWellFormed.isName {α : Type} {c : Catalog α} (h : c.IsWellFormed)
    {shown : α → List ShownText} (inside : ∀ (x : α) (t : String), .name t ∉ shown x) {t : String}
    (mem : .name t ∈ shownEntries .name shown c) : Name.IsName t := by
  obtain ⟨e, he, name | within⟩ := mem_shownEntries.1 mem
  · cases name
    exact h.names e he
  · exact absurd within (inside e.2 t)

/-- What a well-formed description shows as a name is one. -/
theorem Description.IsWellFormed.isName {d : Description} (h : d.IsWellFormed) {t : String}
    (mem : .name t ∈ d.shown) : Name.IsName t := by
  simp only [Description.shown, List.mem_append, List.mem_cons, List.mem_flatMap, List.mem_map,
    Option.mem_toList, reduceCtorEq, and_false, exists_false, false_or] at mem
  obtain (⟨table, given, inside⟩ | ⟨c, given, inside⟩) | ⟨c, given, inside⟩ := mem
  · exact (h.paths table given).isName inside
  · exact (h.definitions c given).isName (fun _ _ => Schema.name_notMem_shown) inside
  · exact (h.errors c given).isName (fun _ _ => ApiError.name_notMem_shown) inside

namespace Manual

/-- **Only prose and identifiers can be unsafe** in a well-formed description. -/
theorem allSafe_shown_of_isWellFormed {d : Description} (h : d.IsWellFormed)
    (prose : ∀ t, .prose t ∈ d.shown → IsUnmarked t.toList)
    (inert : ∀ t, .identifier t ∈ d.shown → IsInert t.toList) : AllSafe d.shown := by
  intro t mem
  cases t with
  | prose t => exact (prose t mem).isInert_cons
  | identifier t => exact inert t mem
  | name t => exact (h.isName mem).isInert

/-! ## The lines of files -/

/-- However a run ends, the lines of the files that it wrote which start with the mark include
files that it had written before, if all texts are safe. -/
theorem marked_lines_of_allSafe (title : String) (out : Path) (disk : FileSystem)
    {d : Description} (ht : IsInert title.toList) (hd : AllSafe d.shown)
    {before after : List String} {file : String}
    (h : (generate title out disk d).written = before ++ file :: after) :
    ∃ text, textIn (generate title out disk d).disk out file = .ok text ∧
      ∀ line ∈ text.toList.splitOn '\n', inclusionMark <+: line →
        ∃ target ∈ before, line = inclusionLine target := by
  obtain ⟨done, rest, p, split, taken, written, found⟩ := exists_runs title out disk d
  rw [taken.written_eq, List.nil_append] at written
  obtain ⟨doc, here, rfl, earlier⟩ := exists_document_of_written split (written.symm.trans h)
  obtain ⟨text, stands, read⟩ := read_of_mem_writes split taken here
  refine ⟨text, by rw [textIn, found, read], fun line mem marked => ?_⟩
  have told : markedLines text = (doc.includes.map (fileAt d.id)).map inclusionLine :=
    tellsIncludes_of_allSafe ht hd (mem_documents_of_mem_writes split here) text stands
  have inclusion : line ∈ markedLines text := mem_markedLines.2 ⟨mem, marked⟩
  rw [told] at inclusion
  obtain ⟨target, listed, rfl⟩ := List.mem_map.1 inclusion
  obtain ⟨place, included, rfl⟩ := List.mem_map.1 listed
  exact ⟨_, earlier place included, rfl⟩

/-- **Only a line feed in an identifier can bring in an inclusion.**  Let a description be accepted,
and let neither the title nor its prose hold the mark of inclusion lines.  If no identifier that is
not checked for white space has a line behind a line feed that starts with the mark, then, however
the run ends, every line that starts with the mark in a file it wrote is the inclusion of a file it
had written before: whatever else is in the identifiers, in names, in the cells of tables and in the
bodies of schemas. -/
theorem marked_lines_of_accepted (title : String) (out : Path) (disk : FileSystem) {v : Value}
    {d : Description} (accepted : Descriptor.ofValue v = .ok d) (plain : IsUnmarked title.toList)
    (prose : ∀ t, .prose t ∈ d.shown → IsUnmarked t.toList)
    (inert : ∀ t, .identifier t ∈ d.shown → IsInert t.toList) :
    let report := generate title out disk d
    ∀ before file after, report.written = before ++ file :: after →
      ∃ text, textIn report.disk out file = .ok text ∧
        ∀ line ∈ text.toList.splitOn '\n', inclusionMark <+: line →
          ∃ target ∈ before, line = inclusionLine target := by
  intro report before file after h
  have wellFormed : d.IsWellFormed :=
    Description.isWellFormed_of_check (Descriptor.ofValue_eq_ok_iff.1 accepted).2
  exact marked_lines_of_allSafe title out disk plain.isInert
    (allSafe_shown_of_isWellFormed wellFormed prose inert) h

/-- An interface that says `include::` wherever this does no harm: in identifiers, in a name, in the
cell of a table and in the body of a schema, in the last two behind a line feed. -/
def quotingPets : Value := .record [
  ("id", .text "include::pets[]"),
  ("paths", .record [
    ("include::tags[]\n", .record [
      ("read", .record [
        ("supportedLocales", .list [.text "include::en[]\n"]),
        ("errors", .list [.record [
          ("code", .scalar (.int 404)),
          ("description", .text "No\ninclude::such[]")]])]),
      ("actions", .list [.record [("name", .text "include::feed[]")]])])]),
  ("definitions", .record [
    ("include::Tag[]", .record [("x", .text "\ninclude::y[]\n")])])]

theorem marked_lines_of_quotingPets : ∃ d, Descriptor.ofValue quotingPets = .ok d ∧
    let report := generate "Pets" ⟨[]⟩ FileSystem.empty d
    report.failure = none ∧ report.written.length = 9 ∧
    ∀ before file after, report.written = before ++ file :: after →
      ∃ text, textIn report.disk ⟨[]⟩ file = .ok text ∧
        ∀ line ∈ text.toList.splitOn '\n', inclusionMark <+: line →
          ∃ target ∈ before, line = inclusionLine target := by
  obtain ⟨d, accepted, shown, success⟩ : ∃ d, Descriptor.ofValue quotingPets = .ok d ∧
      d.shown = [.identifier "include::pets[]", .identifier "include::tags[]\n",
        .identifier "include::en[]\n", .name "include::feed[]", .name "include::Tag[]"] ∧
      let report := generate "Pets" ⟨[]⟩ FileSystem.empty d
      report.failure = none ∧ report.written.length = 9 := by
    refine ⟨_, rfl, by decide +kernel, by decide +kernel⟩
  have prose (t : String) (mem : .prose t ∈ d.shown) : IsUnmarked t.toList := by
    simp [shown] at mem
  have inert (t : String) (mem : .identifier t ∈ d.shown) : IsInert t.toList := by
    simp only [shown, List.mem_cons, ShownText.identifier.injEq, reduceCtorEq, List.not_mem_nil,
      or_false] at mem
    rcases mem with rfl | rfl | rfl <;> decide
  exact ⟨d, accepted, success.1, success.2,
    marked_lines_of_accepted "Pets" ⟨[]⟩ FileSystem.empty accepted (by decide) prose inert⟩

/-- An identifier with an inclusion line of its own. -/
def smugglingId : String := "pets\ninclude::secrets.adoc[]\n"

/-- **An identifier can bring in an inclusion** that no file was written for: the description is
accepted and has no prose at all, the run ends well, and its only file includes another one. -/
theorem injected_inclusion : ∃ d,
    Descriptor.ofValue (.record [("id", .text smugglingId)]) = .ok d ∧
    IsUnmarked "Pets".toList ∧ d.shown = [.identifier smugglingId] ∧
    let report := generate "Pets" ⟨[]⟩ FileSystem.empty d
    report.failure = none ∧ ∃ file, report.written = [file] ∧
      inclusionsIn report.disk ⟨[]⟩ file = ["secrets.adoc"] ∧ "secrets.adoc" ∉ report.written := by
  refine ⟨_, rfl, by decide, by decide +kernel, by decide +kernel,
    "petsinclude_secrets.adoc-index.adoc", ?_⟩
  decide +kernel

end Manual
end ApiManual
