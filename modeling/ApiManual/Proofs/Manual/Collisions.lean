import ApiManual.Proofs.Manual.Run
import ApiManual.Proofs.Manual.Siblings

/-!
# When two documents have one namespace

A namespace forgets where its parts begin, and a place far down may come out like one
right below the id.  Two questions are answered here.

The first is what the writing makes of it.  It stops with a collision exactly when two
different places that it comes to claim have one namespace
(`collision_iff_namesakes`).  It comes to all places, unless a body without a written
form stops it before.

The second is what keeps namespaces apart.  If names of paths and versions have no dash,
the words of a namespace say at which depth each part stands, down to the last place
that has children, and what follows is the name of a leaf.  So it is enough that siblings
have different normal forms, and the id may be any text at all
(`separates_namespaces`).
-/

namespace ApiManual
namespace Manual

open Asciidoc

/-! ## Places -/

/-- Places are told apart by the segments of siblings. -/
theorem separates_places :
    Separates (fun place : Place => place) (fun segment => segment) fun _ => True where
  below := by
    intro s up p suffix same
    have longer := suffix.length_le
    rw [same, List.length_cons] at longer
    omega
  leaves := by
    intro s s' up differ same
    exact differ (List.cons.inj same).1
  branches := by
    intro s s' up p q _ _ differ suffix suffix' same
    rw [← same] at suffix'
    have one := List.suffix_of_suffix_length_le suffix suffix' (by simp)
    exact differ (List.cons.inj (one.eq_of_length (by simp))).1
  sections := by decide
  top := by decide
  spelled := fun _ _ => trivial

/-- No place is claimed twice. -/
theorem nodup_places (title : String) {d : Description} (names : d.HasDistinctNames) :
    (claims (steps title d)).Nodup := by
  have distinct := nodup_claims_steps separates_places title names
  rwa [List.map_id'] at distinct

/-! ## Words of namespaces -/

/-- The words of the namespace of a place. -/
def wordsAt (id : String) (place : Place) : List (List Char) :=
  Namespace.words (namespaceAt id place).toList

/-- **A namespace has the words of its parent, and then those of its own segment.** -/
theorem wordsAt_cons (id s : String) (up : Place) :
    wordsAt id (s :: up) =
      wordsAt id up ++ Namespace.words (Namespace.normalizePart s.toList) := by
  have again : Namespace.words (Namespace.normalizePart (namespaceAt id up).toList) =
      wordsAt id up := by
    cases up with
    | nil => exact Namespace.words_normalizePart_child none id
    | cons s' up' => exact Namespace.words_normalizePart_child (some (namespaceAt id up')) s'
  rw [wordsAt, namespaceAt_cons, Namespace.toList_child_some, Namespace.words_append_dash, again]

theorem wordsAt_mono (id : String) {up p : Place} (h : up <:+ p) :
    wordsAt id up <+: wordsAt id p := by
  induction p with
  | nil =>
    obtain rfl := List.suffix_nil.1 h
    exact List.prefix_rfl
  | cons s rest ih =>
    rcases List.suffix_cons_iff.1 h with rfl | h
    · exact List.prefix_rfl
    · rw [wordsAt_cons]
      exact (ih h).trans (List.prefix_append ..)

/-- A place has more words than those above it. -/
theorem length_wordsAt_lt (id : String) {s : String} {up p : Place} (h : (s :: up) <:+ p) :
    (wordsAt id up).length < (wordsAt id p).length := by
  have reaches := (wordsAt_mono id h).length_le
  have more := List.length_pos_iff.2 (Namespace.words_ne_nil (Namespace.normalizePart s.toList))
  rw [wordsAt_cons, List.length_append] at reaches
  omega

/-- A name without a dash is a word of the namespaces at and below it. -/
theorem wordsAt_cons_of_notMem (id : String) {s : String} (h : '-' ∉ s.toList) (up : Place) :
    wordsAt id (s :: up) = wordsAt id up ++ [Namespace.normalizePart s.toList] := by
  have dash : '-' ∉ Namespace.normalizePart s.toList :=
    fun mem => h (Namespace.dash_mem_of_mem_normalizePart mem)
  rw [wordsAt_cons, Namespace.words_eq_singleton (Namespace.normalizePart_ne_nil _) dash]

theorem normalize_singleton (s : String) :
    Namespace.normalize [s] = String.ofList (Namespace.normalizePart s.toList) := rfl

/-- **Namespaces are told apart by the normal forms of siblings**, if the names of those that have
children have no dash. -/
theorem separates_namespaces (id : String) :
    Separates (namespaceAt id) (fun segment => Namespace.normalize [segment])
      fun segment => '-' ∉ segment.toList where
  below := by
    intro s up p suffix same
    have longer := length_wordsAt_lt id suffix
    rw [wordsAt, wordsAt, same] at longer
    omega
  leaves := by
    intro s s' up differ same
    rw [namespaceAt_cons, namespaceAt_cons] at same
    have chars := congrArg String.toList same
    rw [Namespace.toList_child_some, Namespace.toList_child_some] at chars
    have parts := (List.cons.inj (List.append_cancel_left chars)).2
    refine differ ?_
    rw [normalize_singleton, normalize_singleton, parts]
  branches := by
    intro s s' up p q dash dash' differ suffix suffix' same
    have front := wordsAt_mono id suffix
    have front' := wordsAt_mono id suffix'
    rw [wordsAt_cons_of_notMem id dash] at front
    rw [wordsAt_cons_of_notMem id dash', wordsAt, wordsAt, ← same] at front'
    have one := List.prefix_of_prefix_length_le front front' (by simp [wordsAt])
    have words := one.eq_of_length (by simp [wordsAt])
    refine differ ?_
    rw [normalize_singleton, normalize_singleton,
      (List.cons.inj (List.append_cancel_left words)).1]
  sections := by decide
  top := by decide
  spelled := by decide

/-! ## The steps that a run can come to -/

/-- Whether a step can be taken as far as texts go. -/
def Step.isWritable : Step → Bool
  | .claim _ => true
  | .write doc => doc.text.isOk

/-- The steps before the first document that has no text. -/
def reachable (xs : List Step) : List Step := xs.takeWhile Step.isWritable

variable {id title : String} {out : Path} {disk : FileSystem} {d : Description} {p : Progress}
  {done rest : List Step}

theorem isWritable_of_runs {p' : Progress} (h : Runs id out p done p') :
    ∀ s ∈ done, s.isWritable = true := by
  intro s mem
  cases s with
  | claim place => rfl
  | write doc =>
    have written : doc ∈ writes done := List.mem_filterMap.2 ⟨_, mem, rfl⟩
    obtain ⟨text, ht⟩ := h.texts doc written
    rw [Step.isWritable, ht]
    rfl

/-- The steps that a run has taken, and the next one, could be come to. -/
theorem reachable_append (h : ∀ s ∈ done, s.isWritable = true) :
    reachable (done ++ rest) = done ++ reachable rest := by
  rw [reachable, List.takeWhile_append_of_pos h]
  rfl

/-- If all documents have a text, a run can come to all steps. -/
theorem reachable_eq_self (texts : ∀ doc ∈ documents title d, ∃ text, doc.text = .ok text) :
    reachable (steps title d) = steps title d := by
  refine List.takeWhile_eq_self_iff.2 fun s mem => ?_
  cases s with
  | claim place => rfl
  | write doc =>
    rw [← writes_steps] at texts
    obtain ⟨text, ht⟩ := texts doc (List.mem_filterMap.2 ⟨_, mem, rfl⟩)
    rw [Step.isWritable, ht]
    rfl

/-! ## Steps that fail -/

/-- A claim is refused because an earlier one holds its namespace. -/
theorem take_eq_collision {s : Step} {c : Collision} (h : s.take id out p = .error (.collision c)) :
    ∃ place, s = .claim place ∧ c.refused = claimAt id place ∧
      c.holder ∈ p.registry.claims ∧ c.holder.target = c.refused.target := by
  cases s with
  | write doc =>
    rw [Step.take] at h
    split at h
    · cases h
    · simp only at h
      split at h <;> cases h
  | claim place =>
    rw [Step.take] at h
    split at h
    · cases h
    · rename_i c' refused
      cases h
      obtain ⟨other, held, rfl⟩ := Registry.grant_eq_error_iff.1 refused
      refine ⟨place, rfl, rfl, List.mem_of_find?_eq_some held, ?_⟩
      simpa using List.find?_some held

/-- What ends a run is a collision, a file, or a document without a text. -/
theorem take_eq_error {s : Step} {failure : Failure} (h : s.take id out p = .error failure) :
    (∃ c, failure = .collision c) ∨ (∃ fault path, failure = .file fault path) ∨
      ∃ doc fault, s = .write doc ∧ doc.text = .error fault ∧ failure = .body fault := by
  cases s with
  | claim place =>
    rw [Step.take] at h
    split at h
    · cases h
    · cases h
      exact .inl ⟨_, rfl⟩
  | write doc =>
    rw [Step.take] at h
    split at h
    · rename_i fault ht
      cases h
      exact .inr (.inr ⟨doc, fault, rfl, ht, rfl⟩)
    · simp only at h
      split at h
      · cases h
      · cases h
        exact .inr (.inl ⟨_, _, rfl⟩)

/-- What is claimed is the id or the place of a document. -/
theorem mem_places_of_mem_claims {place : Place} (mem : place ∈ claims (steps title d)) :
    place = [] ∨ place ∈ (documents title d).map Document.place := by
  have all := (nests_steps title d).mem_or_mem (.inl mem)
  rw [writes_steps, List.mem_singleton] at all
  exact all

/-! ## Runs that end with a collision -/

/-- Some of the places are different and have one namespace. -/
def HaveNamesakes (id : String) (places : List Place) : Prop :=
  ∃ p ∈ places, ∃ q ∈ places, p ≠ q ∧ namespaceAt id p = namespaceAt id q

/-- Where a run stops with a collision, the paths are a table. -/
theorem table_of_collision {c : Collision}
    (h : (generate title out disk d).failure = some (.collision c)) :
    ∀ kind, d.paths ≠ some (.unsupported kind) := by
  intro kind hk
  rw [generate, hk] at h
  cases h

/-- **What a collision tells of the run that it ends**: the refused claim is that of the step
behind those that were taken, and the other one was made before, for a place of the same
namespace. -/
theorem exists_run_of_collision {c : Collision}
    (h : (generate title out disk d).failure = some (.collision c)) :
    ∃ done place tail p, steps title d = done ++ .claim place :: tail ∧
      Runs d.id out ⟨Registry.empty, [], disk⟩ done p ∧
      (generate title out disk d).written = p.written ∧
      c.refused = claimAt d.id place ∧
      ∃ held ∈ claims done, c.holder = claimAt d.id held ∧
        namespaceAt d.id held = namespaceAt d.id place := by
  obtain ⟨done, rest, p, failure, split, taken, told, ending⟩ :=
    exists_run title out disk (table_of_collision h)
  rw [told] at h
  rcases ending with ⟨-, none⟩ | ⟨s, tail, g, rfl, given, failed⟩
  · rw [none] at h
    cases h
  · obtain rfl : g = .collision c := Option.some.inj (given.symm.trans h)
    obtain ⟨place, rfl, refused, holder, target⟩ := take_eq_collision failed
    rw [taken.registry_eq, Registry.empty, List.append_nil, List.mem_reverse] at holder
    obtain ⟨held, mem, same⟩ := List.mem_map.1 holder
    rw [← same, refused] at target
    exact ⟨done, place, tail, p, split, taken, by rw [told], refused, held, mem, same.symm, target⟩

/-- The step behind those that were taken claims a place that was not claimed before. -/
theorem notMem_claims {place : Place} {tail : List Step} (names : d.HasDistinctNames)
    (split : steps title d = done ++ .claim place :: tail) : place ∉ claims done := by
  have distinct := nodup_places title names
  rw [split, claims_append, claims_cons_claim, List.nodup_append] at distinct
  exact fun mem => distinct.2.2 place mem place (List.mem_cons_self ..) rfl

/-- A place that was claimed was claimed by one of the steps. -/
theorem exists_claim {place : Place} {xs : List Step} (mem : place ∈ claims xs) :
    ∃ before after, xs = before ++ .claim place :: after := by
  obtain ⟨s, hs, claimed⟩ := List.mem_filterMap.1 mem
  cases s with
  | write doc => cases claimed
  | claim place' =>
    cases claimed
    exact List.append_of_mem hs

/-- **A claim tells its place**, among the places that were claimed: the parents have different
namespaces, and the segment is its own. -/
theorem eq_of_claimAt_eq {place held : Place} {tail : List Step}
    (split : steps title d = done ++ .claim place :: tail)
    (taken : Runs d.id out ⟨Registry.empty, [], disk⟩ done p)
    (mem : held ∈ claims done) (same : claimAt d.id held = claimAt d.id place) :
    held = place := by
  have texts := taken.texts
  cases held with
  | nil =>
    cases place with
    | nil => rfl
    | cons s up => simp at same
  | cons s up =>
    cases place with
    | nil => simp at same
    | cons s' up' =>
      rw [claimAt_cons, claimAt_cons, Claim.mk.injEq, Option.some.injEq] at same
      obtain ⟨before, after, rfl⟩ := exists_claim mem
      have earlier : ∀ doc ∈ writes before, ∃ text, doc.text = .ok text := by
        rw [writes_append, List.forall_mem_append] at texts
        exact texts.1
      have above : steps title d =
          before ++ .claim (s :: up) :: (after ++ .claim (s' :: up') :: tail) := by
        rw [split, List.append_assoc, List.cons_append]
      have parent : up ∈ claims before := parent_mem_claims above earlier
      have parent' := parent_mem_claims split texts
      have inside : up ∈ claims (before ++ .claim (s :: up) :: after) := by
        rw [claims_append]
        exact List.mem_append_left _ parent
      rw [same.2, List.inj_on_of_nodup_map taken.nodup_claims inside parent' same.1]

/-- A run that meets neither a collision nor a file that cannot be written comes to all steps that
it can come to. -/
theorem claims_reachable_of_run {failure : Option Failure}
    (taken : Runs d.id out ⟨Registry.empty, [], disk⟩ done p)
    (ending : (rest = [] ∧ failure = none) ∨
      ∃ s tail g, rest = s :: tail ∧ failure = some g ∧ s.take d.id out p = .error g)
    (noCollision : ∀ c, failure ≠ some (.collision c))
    (noFault : ∀ fault path, failure ≠ some (.file fault path)) :
    reachable (done ++ rest) = done := by
  rw [reachable_append (isWritable_of_runs taken)]
  rcases ending with ⟨rfl, -⟩ | ⟨s, tail, g, rfl, rfl, failed⟩
  · exact List.append_nil done
  · rcases take_eq_error failed with ⟨c, rfl⟩ | ⟨fault, path, rfl⟩ | ⟨doc, fault, rfl, ht, -⟩
    · exact absurd rfl (noCollision c)
    · exact absurd rfl (noFault fault path)
    · have stop : ¬ (Step.write doc).isWritable = true := by
        rw [Step.isWritable, ht]
        exact Bool.false_ne_true
      rw [reachable, List.takeWhile_cons_of_neg stop, List.append_nil]

/-- **The writing stops with a collision exactly when it comes to claim two different places of
one namespace**, where no file is in its way. -/
theorem collision_iff_namesakes (title : String) (out : Path) (disk : FileSystem)
    {d : Description} (table : ∀ kind, d.paths ≠ some (.unsupported kind))
    (names : d.HasDistinctNames)
    (noFault : ∀ fault path, (generate title out disk d).failure ≠ some (.file fault path)) :
    (∃ c, (generate title out disk d).failure = some (.collision c)) ↔
      HaveNamesakes d.id (claims (reachable (steps title d))) := by
  constructor
  · rintro ⟨c, hc⟩
    obtain ⟨done, place, tail, p, split, taken, -, -, held, mem, -, same⟩ :=
      exists_run_of_collision hc
    have other : held ≠ place := fun e => notMem_claims names split (e ▸ mem)
    rw [split, reachable_append (isWritable_of_runs taken), claims_append]
    refine ⟨held, List.mem_append_left _ mem, place, List.mem_append_right _ ?_, other, same⟩
    rw [reachable, List.takeWhile_cons_of_pos rfl, claims_cons_claim]
    exact List.mem_cons_self ..
  · rintro ⟨p₁, h₁, p₂, h₂, other, same⟩
    by_contra none
    obtain ⟨done, rest, p, failure, split, taken, told, ending⟩ := exists_run title out disk table
    rw [told] at noFault none
    have reached := claims_reachable_of_run taken ending (fun c hc => none ⟨c, hc⟩) noFault
    rw [split, reached] at h₁ h₂
    exact other (List.inj_on_of_nodup_map taken.nodup_claims h₁ h₂ same)

/-- The id has a namespace of its own. -/
theorem namespaceAt_ne_nil (id : String) {place : Place} (h : place ≠ []) :
    namespaceAt id place ≠ namespaceAt id [] := by
  have suffix : [place.getLast h] <:+ place := ⟨place.dropLast, List.dropLast_concat_getLast h⟩
  exact (separates_namespaces id).below suffix

/-- If all documents have a text, the places that the writing comes to are those of the
documents, and the id, which has a namespace of its own. -/
theorem haveNamesakes_reachable_iff
    (texts : ∀ doc ∈ documents title d, ∃ text, doc.text = .ok text) :
    HaveNamesakes d.id (claims (reachable (steps title d))) ↔
      HaveNamesakes d.id ((documents title d).map Document.place) := by
  have perm := perm_claims_steps texts
  rw [reachable_eq_self texts]
  constructor
  · rintro ⟨p₁, h₁, p₂, h₂, other, same⟩
    rcases List.mem_cons.1 (perm.subset h₁) with rfl | m₁
    · exact absurd same.symm (namespaceAt_ne_nil d.id other.symm)
    · rcases List.mem_cons.1 (perm.subset h₂) with rfl | m₂
      · exact absurd same (namespaceAt_ne_nil d.id other)
      · exact ⟨p₁, m₁, p₂, m₂, other, same⟩
  · rintro ⟨p₁, h₁, p₂, h₂, other, same⟩
    exact ⟨p₁, perm.symm.subset (List.mem_cons_of_mem _ h₁), p₂,
      perm.symm.subset (List.mem_cons_of_mem _ h₂), other, same⟩

/-- What a collision leaves behind: two different claims to one namespace, no file written twice,
and the document of the refused claim not written. -/
theorem report_of_collision (names : d.HasDistinctNames) {c : Collision}
    (h : (generate title out disk d).failure = some (.collision c)) :
    c.refused ≠ c.holder ∧ c.holder.target = c.refused.target ∧
      (generate title out disk d).written.Nodup ∧
      ∃ n, ∃ place ∈ (documents title d).map Document.place, c.refused = claimAt d.id place ∧
        (generate title out disk d).written =
          ((documents title d).take n).map (fun doc => fileAt d.id doc.place) ∧
        place ∉ ((documents title d).take n).map Document.place := by
  obtain ⟨done, place, tail, p, split, taken, report, refused, held, mem, holder, same⟩ :=
    exists_run_of_collision h
  have fresh : place ∉ claims done := notMem_claims names split
  have written : p.written = (writes done).map fun doc => fileAt d.id doc.place := taken.written_eq
  have node : place ∈ (documents title d).map Document.place := by
    refine (mem_places_of_mem_claims ?_).resolve_left ?_
    · rw [split, claims_append, claims_cons_claim]
      exact List.mem_append_right _ (List.mem_cons_self ..)
    · rintro rfl
      have other : held ≠ [] := fun e => fresh (e ▸ mem)
      exact namespaceAt_ne_nil d.id other same
  rw [report]
  refine ⟨?_, ?_, ?_, (writes done).length, place, node, refused, ?_, ?_⟩
  · intro e
    rw [refused, holder] at e
    exact fresh (eq_of_claimAt_eq split taken mem e.symm ▸ mem)
  · rw [refused, holder]
    exact same
  · rw [written]
    exact nodup_files split taken
  · rw [← writes_eq_take split]
    exact written
  · rw [← writes_eq_take split]
    exact fun old => fresh ((subperm_claims split taken.texts).subset old)

/-- **Collisions are exactly those of namespaces, unless a body without a text comes first.**
Where no file is in the way, the writing stops with a collision if and only if two different
places that it comes to before the first document without a text have one namespace; if all
documents have a text, if and only if two different documents have one namespace.  When two
documents have one namespace and it stops with something else, that is a body without a text.
A collision names two different claims to one namespace; by then no file has been written twice,
and the document of the refused claim not at all. -/
theorem collision_exactly (title : String) (out : Path) (disk : FileSystem) (d : Description)
    (table : ∀ kind, d.paths ≠ some (.unsupported kind)) (names : d.HasDistinctNames)
    (noFault : ∀ fault path, (generate title out disk d).failure ≠ some (.file fault path)) :
    let report := generate title out disk d
    let nodes := (documents title d).map Document.place
    ((∃ c, report.failure = some (.collision c)) ↔
      HaveNamesakes d.id (claims (reachable (steps title d)))) ∧
    ((∀ doc ∈ documents title d, ∃ text, doc.text = .ok text) →
      ((∃ c, report.failure = some (.collision c)) ↔ HaveNamesakes d.id nodes)) ∧
    (HaveNamesakes d.id nodes → (∃ c, report.failure = some (.collision c)) ∨
      ∃ fault, report.failure = some (.body fault)) ∧
    ∀ c, report.failure = some (.collision c) →
      c.refused ≠ c.holder ∧ c.holder.target = c.refused.target ∧ report.written.Nodup ∧
      ∃ n, ∃ place ∈ nodes, c.refused = claimAt d.id place ∧
        report.written = ((documents title d).take n).map (fun doc => fileAt d.id doc.place) ∧
        place ∉ ((documents title d).take n).map Document.place := by
  intro report nodes
  have first := collision_iff_namesakes title out disk table names noFault
  have second : (∀ doc ∈ documents title d, ∃ text, doc.text = .ok text) →
      ((∃ c, report.failure = some (.collision c)) ↔ HaveNamesakes d.id nodes) :=
    fun texts => first.trans (haveNamesakes_reachable_iff texts)
  refine ⟨first, second, fun namesakes => ?_, fun c hc => report_of_collision names hc⟩
  obtain ⟨done, rest, p, failure, split, taken, told, ending⟩ := exists_run title out disk table
  have ended : report.failure = failure := by
    show (generate title out disk d).failure = failure
    rw [told]
  rcases ending with ⟨rfl, rfl⟩ | ⟨s, tail, g, rfl, rfl, failed⟩
  · rw [List.append_nil] at split
    have texts := taken.texts
    rw [← split, writes_steps] at texts
    exact .inl ((second texts).2 namesakes)
  · rcases take_eq_error failed with ⟨c, rfl⟩ | ⟨fault, path, rfl⟩ | ⟨doc, fault, -, -, rfl⟩
    · exact .inl ⟨c, ended⟩
    · exact absurd ended (noFault fault path)
    · exact .inr ⟨fault, ended⟩

/-- An interface with two schemas whose names have one normal form. -/
def twins (second : Schema) : Description where
  id := "api"
  description := none
  paths := none
  definitions := some [("B", ⟨[]⟩), ("b", second)]
  errors := none

/-- A schema that has no written form, as a date is a key in it. -/
def dated : Schema :=
  ⟨[("v", .list [.pair (.text "a") (.map [(.date ⟨2024, 1, 1⟩, .text "x")])])]⟩

theorem twins_hasDistinctNames (second : Schema) : (twins second).HasDistinctNames where
  paths := by
    intro t ht
    cases ht
  definitions := by
    intro c hc
    cases hc
    show ["B", "b"].Nodup
    decide
  errors := by
    intro c hc
    cases hc

theorem twins_hasTable (second : Schema) :
    ∀ kind, (twins second).paths ≠ some (.unsupported kind) := by
  intro kind h
  cases h

/-- The names of the two schemas are in order. -/
theorem sections_twins (second : Schema) :
    sections (twins second) = [.branch "definitions" [.sectionTitle "Definitions" 1]
      ([entryTree 2 Prod.fst (fun e => schemaBlocks e.2) ("B", ⟨[]⟩),
        entryTree 2 Prod.fst (fun e => schemaBlocks e.2) ("b", second)].map untitled)] := by
  have inOrder : Text.sortByName Prod.fst [("B", (⟨[]⟩ : Schema)), ("b", second)] =
      [("B", ⟨[]⟩), ("b", second)] := by
    refine Text.sortByName_of_pairwise (List.pairwise_pair.2 ?_)
    show Text.notAfter "B".toList "b".toList = true
    decide
  simp [sections, twins, definitionsTree, catalogTree, inOrder]

theorem failure_twins (second : Schema) :
    (generate "Manual" ⟨[]⟩ FileSystem.empty (twins second)).failure =
      (takeAll "api" ⟨[]⟩ ⟨Registry.empty, [], FileSystem.empty⟩
        (steps "Manual" (twins second))).1 := by
  rw [generate_eq "Manual" ⟨[]⟩ FileSystem.empty (twins_hasTable second)]
  rfl

/-- Two schemas of one normal form collide. -/
theorem collision_of_twins :
    let report := generate "Manual" ⟨[]⟩ FileSystem.empty (twins ⟨[]⟩)
    report.failure = some (.collision
      ⟨⟨some "api-definitions", "b"⟩, ⟨some "api-definitions", "B"⟩⟩) ∧
    HaveNamesakes "api" (claims (reachable (steps "Manual" (twins ⟨[]⟩)))) := by
  have stopped : (generate "Manual" ⟨[]⟩ FileSystem.empty (twins ⟨[]⟩)).failure = some (.collision
      ⟨⟨some "api-definitions", "b"⟩, ⟨some "api-definitions", "B"⟩⟩) := by
    rw [failure_twins, steps, sections_twins]
    decide +kernel
  have noFault : ∀ fault path,
      (generate "Manual" ⟨[]⟩ FileSystem.empty (twins ⟨[]⟩)).failure ≠ some (.file fault path) := by
    intro fault path h
    rw [stopped] at h
    cases h
  have told := collision_exactly "Manual" ⟨[]⟩ FileSystem.empty (twins ⟨[]⟩)
    (twins_hasTable ⟨[]⟩) (twins_hasDistinctNames ⟨[]⟩) noFault
  exact ⟨stopped, told.1.1 ⟨_, stopped⟩⟩

/-- A body without a written form hides a collision: two documents have one namespace, and the
writing stops before the second one is claimed. -/
theorem namesakes_without_collision :
    ¬ ∀ (title : String) (out : Path) (disk : FileSystem) (d : Description),
      (∀ kind, d.paths ≠ some (.unsupported kind)) → d.HasDistinctNames →
      (∀ fault path, (generate title out disk d).failure ≠ some (.file fault path)) →
      ((∃ c, (generate title out disk d).failure = some (.collision c)) ↔
        HaveNamesakes d.id ((documents title d).map Document.place)) := by
  intro always
  have stopped : (generate "Manual" ⟨[]⟩ FileSystem.empty (twins dated)).failure =
      some (.body .key) := by
    rw [failure_twins, steps, sections_twins]
    decide +kernel
  have noFault : ∀ fault path,
      (generate "Manual" ⟨[]⟩ FileSystem.empty (twins dated)).failure ≠
        some (.file fault path) := by
    intro fault path h
    rw [stopped] at h
    cases h
  have namesakes : HaveNamesakes "api" ((documents "Manual" (twins dated)).map Document.place) := by
    rw [documents, sections_twins]
    exact ⟨["B", "definitions"], by decide +kernel, ["b", "definitions"], by decide +kernel,
      by decide, by decide +kernel⟩
  obtain ⟨c, hc⟩ := (always "Manual" ⟨[]⟩ FileSystem.empty (twins dated) (twins_hasTable dated)
    (twins_hasDistinctNames dated) noFault).2 namesakes
  rw [stopped] at hc
  cases hc

/-! ## Runs without a collision -/

/-- **Siblings with different normal forms are enough.**  If in each group of siblings the names
have different normal forms, and names of paths and versions have no dash, then the writing never
stops with a collision, whatever the id is and whatever stands on the disk. -/
theorem no_collision_of_normal_forms_differ (title : String) (out : Path) (disk : FileSystem)
    (d : Description) (names : d.NamesDiffer (fun segment => Namespace.normalize [segment])
      fun segment => '-' ∉ segment.toList) :
    ∀ c, (generate title out disk d).failure ≠ some (.collision c) := by
  intro c h
  obtain ⟨done, place, tail, p, split, -, -, -, held, mem, -, same⟩ := exists_run_of_collision h
  have distinct := nodup_claims_steps (separates_namespaces d.id) title names
  rw [split, claims_append, claims_cons_claim, List.map_append, List.map_cons,
    List.nodup_append] at distinct
  exact distinct.2.2 _ (List.mem_map_of_mem mem) _ (List.mem_cons_self ..) same

/-- What can be done with a pet. -/
def petResource : Resource where
  title := none
  description := none
  resourceSchema := none
  create := none
  read := some ⟨⟨none, [], [], [], none⟩⟩
  update := none
  delete := none
  patch := none
  actions := [⟨⟨none, [], [], [], none⟩, "adopt", none, none⟩,
    ⟨⟨none, [], [], [], none⟩, "Give Back", none, none⟩]
  queries := []

/-- The interface of pets, with their owners beside them. -/
def petsAndOwners : Description :=
  { pets with
    paths := some (.flat [("/pets", petResource), ("/pets/tags", petResource),
      ("/owners", petResource)])
    definitions := some [("Pet", ⟨[]⟩), ("Owner", ⟨[]⟩), ("pet_owner", ⟨[]⟩)] }

/-- The names in this interface have different normal forms. -/
theorem no_collision_of_pets :
    petsAndOwners.NamesDiffer (fun segment => Namespace.normalize [segment])
      (fun segment => '-' ∉ segment.toList) ∧
    ∀ c, (generate "Pets" ⟨[]⟩ FileSystem.empty petsAndOwners).failure ≠ some (.collision c) := by
  have resource : petResource.NamesDiffer fun segment => Namespace.normalize [segment] :=
    ⟨by decide, by decide⟩
  have names : petsAndOwners.NamesDiffer (fun segment => Namespace.normalize [segment])
      fun segment => '-' ∉ segment.toList := by
    refine ⟨?_, ?_, ?_⟩
    · intro t ht
      cases ht
      refine ⟨by decide, by decide, ?_⟩
      exact List.forall_mem_cons.2 ⟨resource,
        List.forall_mem_cons.2 ⟨resource, List.forall_mem_singleton.2 resource⟩⟩
    · intro c hc
      cases hc
      decide
    · intro c hc
      cases hc
  exact ⟨names, no_collision_of_normal_forms_differ "Pets" ⟨[]⟩ FileSystem.empty _ names⟩

end Manual
end ApiManual
