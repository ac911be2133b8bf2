import ApiManual.Description.Builder
import ApiManual.Proofs.Text.Order
import ApiManual.Proofs.Validation.Accepted

/-!
# What comes of calls to a builder

A builder is called again and again, and some of the calls are refused.  What is in its dictionary
by then is told by its answers alone: the entries of the successful puts, in their order
(`Session.IsSound`).  A call that is refused changes nothing, and whether one is refused depends on
these entries and on nothing else.

A catalog has a dictionary that no later call reaches.  A call changes the dictionary of the
builder and makes new ones, and leaves all others as they are (`Memory.Keeps`).

The entries of a builder have been checked one by one when they were put.  A catalog is checked as
a whole, but nothing can be wrong with that one: its names are valid, and there is one.
-/

namespace ApiManual

open Validation Checked

variable {α : Type}

/-! ## Memory -/

namespace Memory

variable {m m' m'' : Memory α} {place p : Nat} {name : String} {entry : α}

@[simp] theorem next_withNew (m : Memory α) (c : Catalog α) : (m.withNew c).next = m.next + 1 := by
  simp [next, withNew]

@[simp] theorem next_withEntry (m : Memory α) (place : Nat) (name : String) (entry : α) :
    (m.withEntry place name entry).next = m.next := by
  simp [next, withEntry]

theorem read_withNew (m : Memory α) (c : Catalog α) : (m.withNew c).read m.next = c := by
  simp [read, next, withNew, List.getD_eq_getElem?_getD]

theorem read_withNew_of_lt (h : p < m.next) (c : Catalog α) : (m.withNew c).read p = m.read p := by
  rw [next] at h
  simp [read, withNew, List.getD_eq_getElem?_getD, List.getElem?_append_left h]

theorem read_withEntry (h : place < m.next) :
    (m.withEntry place name entry).read place =
      putEntry (fun a b => a = b) name entry (m.read place) := by
  rw [next] at h
  simp [read, withEntry, List.getD_eq_getElem?_getD, h]

theorem read_withEntry_of_ne (h : p ≠ place) :
    (m.withEntry place name entry).read p = m.read p := by
  simp [read, withEntry, List.getD_eq_getElem?_getD, Ne.symm h]

/-- From one memory to the next no dictionary has changed, other than the one at a place. -/
structure Keeps (place : Nat) (m m' : Memory α) : Prop where
  more : m.next ≤ m'.next
  same : ∀ p < m.next, p ≠ place → m'.read p = m.read p

namespace Keeps

theorem refl (place : Nat) (m : Memory α) : Keeps place m m := ⟨Nat.le_refl _, fun _ _ _ => rfl⟩

theorem trans (h : Keeps place m m') (h' : Keeps place m' m'') : Keeps place m m'' where
  more := Nat.le_trans h.more h'.more
  same p old other := by rw [h'.same p (Nat.lt_of_lt_of_le old h.more) other, h.same p old other]

theorem withNew (place : Nat) (m : Memory α) (c : Catalog α) : Keeps place m (m.withNew c) where
  more := by rw [next_withNew]; exact Nat.le_succ _
  same _ old _ := read_withNew_of_lt old c

theorem withEntry (place : Nat) (m : Memory α) (name : String) (entry : α) :
    Keeps place m (m.withEntry place name entry) where
  more := by rw [next_withEntry]
  same _ _ other := read_withEntry_of_ne other

end Keeps
end Memory

/-- The names of a catalog in which they differ are strictly sorted. -/
theorem Catalog.pairwise_names {c : Catalog α} (differ : (c.map Prod.fst).Nodup) :
    (names c).Pairwise fun a b => Text.notAfter a.toList b.toList = true ∧ a ≠ b := by
  have once : (names c).Nodup := (Text.sortByName_perm id _).nodup_iff.2 differ
  exact (Text.pairwise_sortByName id (c.map Prod.fst)).and once

namespace CatalogBuilder

/-! ## Steps that may be refused -/

section Decided

variable {β γ : Type} {m : Memory α}

/-- A step that is decided by the memory and then changes it. -/
theorem run_decided_of_ok (decision : Memory α → Except Refusal β) (act : β → StateM (Memory α) γ)
    {x : β} (h : decision m = .ok x) :
    (do let x ← decision (← get); act x : Building α γ).run.run m =
      (.ok ((act x).run m).1, ((act x).run m).2) := by
  have decided : (do let x ← decision (← get); act x : Building α γ).run.run m =
      (ExceptT.bindCont (fun x => (act x : Building α γ)) (decision m)).run m := rfl
  rw [decided, h]
  rfl

/-- A step that is refused leaves the memory as it is. -/
theorem run_decided_of_error (decision : Memory α → Except Refusal β)
    (act : β → StateM (Memory α) γ) {why : Refusal} (h : decision m = .error why) :
    (do let x ← decision (← get); act x : Building α γ).run.run m = (.error why, m) := by
  have decided : (do let x ← decision (← get); act x : Building α γ).run.run m =
      (ExceptT.bindCont (fun x => (act x : Building α γ)) (decision m)).run m := rfl
  rw [decided, h]
  rfl

end Decided

variable [CatalogEntry α]

/-! ## What is accepted -/

/-- An offer is accepted if its name is one and not taken, and if there is something to it that is
good. -/
theorem accept_eq_ok_iff {there : Catalog α} {name : Value} {offer : Offer α} {e : String × α} :
    accept there name offer = .ok e ↔ name = .text e.1 ∧ Name.isValid e.1.toList = true ∧
      e.1 ∉ there.map Prod.fst ∧ offer.isNothing = false ∧ offer.check = .good e.2 := by
  have taken (n : String) : (there.lookup n).isSome = true ↔ n ∈ there.map Prod.fst := by
    rw [List.lookup_isSome_iff, List.mem_map]
    exact exists_congr fun e => and_congr_right fun _ => by rw [beq_iff_eq, eq_comm]
  constructor
  · intro h
    unfold accept at h
    simp only at h
    split at h
    case h_2 => cases h
    rename_i n
    split at h
    · cases h
    rename_i valid
    split at h
    · cases h
    rename_i free
    split at h
    · cases h
    rename_i something
    split at h
    · rename_i entry good
      cases h
      rw [taken] at free
      exact ⟨rfl, by simpa using valid, free, by simpa using something, good⟩
    · cases h
  · rintro ⟨rfl, valid, free, something, good⟩
    rw [← taken, Bool.not_eq_true] at free
    simp only [accept, Value.text, valid, free, something, good]
    rfl

/-- Entries that have been built are good. -/
theorem entries_built (there : Catalog α) :
    entries Offer.check (there.map fun e => (e.1, Offer.built e.2)) = .good there := by
  refine entries_eq_good_iff.2 ?_
  rw [List.forall₂_map_left_iff]
  exact List.forall₂_same.2 fun e _ => ⟨rfl, rfl⟩

/-- **Nothing is wrong with a catalog of valid names.** -/
theorem conclude_eq_ok {there : Catalog α} (some : there ≠ [])
    (valid : ∀ e ∈ there, Name.isValid e.1.toList = true) : conclude there = .ok there := by
  have good : Catalog.ofOffers (there.map fun e => (e.1, Offer.built e.2)) = .good there := by
    rw [Catalog.ofOffers, obeying_eq_good_iff, Catalog.broken?_eq_none_iff]
    exact ⟨entries_built there, some, valid⟩
  rw [conclude, if_neg (by simpa using some), good]

/-! ## Single calls -/

section Calls

variable {b : CatalogBuilder α} {m : Memory α} {name : Value} {offer : Offer α}

theorem run_call_put {result : Except Refusal Unit} {m' : Memory α}
    (h : (b.put name offer).run.run m = (result, m')) :
    (b.call (.put name offer)).run m = (.ofResult (fun _ => .done) result, m') := by
  have called : (b.call (.put name offer)).run m =
      (.ofResult (fun _ => .done) ((b.put name offer).run.run m).1,
        ((b.put name offer).run.run m).2) := rfl
  rw [called, h]

theorem run_call_build {result : Except Refusal Nat} {m' : Memory α}
    (h : b.build.run.run m = (result, m')) :
    (b.call .build).run m = (.ofResult .catalog result, m') := by
  have called : (b.call .build).run m =
      (.ofResult .catalog (b.build.run.run m).1, (b.build.run.run m).2) := rfl
  rw [called, h]

/-- An accepted offer is put into the dictionary of the builder. -/
theorem call_put_of_ok {e : String × α} (h : accept (m.read b.place) name offer = .ok e) :
    (b.call (.put name offer)).run m = (.done, m.withEntry b.place e.1 e.2) :=
  run_call_put (run_decided_of_ok (fun m => accept (m.read b.place) name offer)
    (fun e => Memory.assign b.place e.1 e.2) h)

theorem call_put_of_error {why : Refusal} (h : accept (m.read b.place) name offer = .error why) :
    (b.call (.put name offer)).run m = (.refused why, m) :=
  run_call_put (run_decided_of_error (fun m => accept (m.read b.place) name offer)
    (fun e => Memory.assign b.place e.1 e.2) h)

/-- A catalog goes into a new dictionary. -/
theorem call_build_of_ok {c : Catalog α} (h : conclude (m.read b.place) = .ok c) :
    (b.call .build).run m = (.catalog m.next, m.withNew c) :=
  run_call_build (run_decided_of_ok (fun m => conclude (m.read b.place)) Memory.make h)

theorem call_build_of_error {why : Refusal} (h : conclude (m.read b.place) = .error why) :
    (b.call .build).run m = (.refused why, m) :=
  run_call_build (run_decided_of_error (fun m => conclude (m.read b.place)) Memory.make h)

end Calls

/-! ## Sessions -/

/-- What a builder has been asked for so far, with its answers, and the memory by now. -/
structure Session (α : Type) where
  builder : CatalogBuilder α
  past : List (Call α × Answer)
  memory : Memory α

namespace Session

/-- A new builder. -/
def start (m : Memory α) : Session α := ⟨(new.run m).1, [], (new.run m).2⟩

/-- What the builder answers to one more call. -/
def answer (s : Session α) (c : Call α) : Answer := ((s.builder.call c).run s.memory).1

/-- The session after one more call. -/
def next (s : Session α) (c : Call α) : Session α :=
  ⟨s.builder, s.past ++ [(c, s.answer c)], ((s.builder.call c).run s.memory).2⟩

/-- The session after some more calls. -/
def after (s : Session α) (cs : List (Call α)) : Session α := cs.foldl next s

/-- The entry that a call has put. -/
def entryOf? : Call α × Answer → Option (String × α)
  | (.put (.scalar (.text n)) offer, .done) => offer.check.toOption.map fun entry => (n, entry)
  | _ => none

/-- The entries of the successful puts, in their order. -/
def kept (s : Session α) : Catalog α := s.past.filterMap entryOf?

@[simp] theorem after_nil (s : Session α) : s.after [] = s := rfl

@[simp] theorem after_cons (s : Session α) (c : Call α) (cs : List (Call α)) :
    s.after (c :: cs) = (s.next c).after cs := rfl

@[simp] theorem builder_next (s : Session α) (c : Call α) : (s.next c).builder = s.builder := rfl

/-- Nothing is kept of a call but what it has put. -/
theorem kept_next (s : Session α) (c : Call α) :
    (s.next c).kept = s.kept ++ (entryOf? (c, s.answer c)).toList := by
  rw [kept, next, List.filterMap_append, kept]
  cases h : entryOf? (c, s.answer c) <;> simp [h]

/-- What a call does to a session. -/
inductive Does (s : Session α) : Call α → Prop where
  | put {name : Value} {offer : Offer α} {e : String × α}
      (accepted : accept (s.memory.read s.builder.place) name offer = .ok e)
      (answer : s.answer (.put name offer) = .done)
      (kept : (s.next (.put name offer)).kept = s.kept ++ [e])
      (memory : (s.next (.put name offer)).memory = s.memory.withEntry s.builder.place e.1 e.2) :
      Does s (.put name offer)
  | build {c : Catalog α} (concluded : conclude (s.memory.read s.builder.place) = .ok c)
      (answer : s.answer .build = .catalog s.memory.next) (kept : (s.next .build).kept = s.kept)
      (memory : (s.next .build).memory = s.memory.withNew c) : Does s .build
  | refused {c : Call α} {why : Refusal} (answer : s.answer c = .refused why)
      (kept : (s.next c).kept = s.kept) (memory : (s.next c).memory = s.memory) : Does s c

theorem does (s : Session α) (c : Call α) : s.Does c := by
  have refused {c : Call α} {why : Refusal}
      (h : (s.builder.call c).run s.memory = (.refused why, s.memory)) : s.Does c := by
    have answer : s.answer c = .refused why := congrArg Prod.fst h
    refine .refused answer ?_ (congrArg Prod.snd h)
    rw [kept_next, answer]
    cases c <;> simp [entryOf?]
  cases c with
  | put name offer =>
    cases h : accept (s.memory.read s.builder.place) name offer with
    | error why => exact refused (call_put_of_error h)
    | ok e =>
      have called := call_put_of_ok h
      have answer : s.answer (.put name offer) = .done := congrArg Prod.fst called
      refine .put h answer ?_ (congrArg Prod.snd called)
      obtain ⟨rfl, -, -, -, good⟩ := accept_eq_ok_iff.1 h
      rw [kept_next, answer, Value.text, entryOf?, good]
      rfl
  | build =>
    cases h : conclude (s.memory.read s.builder.place) with
    | error why => exact refused (call_build_of_error h)
    | ok c =>
      have called := call_build_of_ok h
      have answer : s.answer .build = .catalog s.memory.next := congrArg Prod.fst called
      refine .build h answer ?_ (congrArg Prod.snd called)
      rw [kept_next]
      exact List.append_nil _

/-- In a session the dictionary of the builder holds what its answers tell: the entries of the
successful puts, under valid names that differ. -/
structure IsSound (s : Session α) : Prop where
  place : s.builder.place < s.memory.next
  entries : s.memory.read s.builder.place = s.kept
  differ : (s.kept.map Prod.fst).Nodup
  valid : ∀ e ∈ s.kept, Name.isValid e.1.toList = true

theorem isSound_start (m : Memory α) : (start m).IsSound where
  place := by
    have memory : (start m).memory = m.withNew [] := rfl
    rw [memory, Memory.next_withNew]
    exact Nat.lt_succ_self _
  entries := Memory.read_withNew m []
  differ := List.nodup_nil
  valid := List.forall_mem_nil _

theorem IsSound.next {s : Session α} (sound : s.IsSound) (c : Call α) : (s.next c).IsSound := by
  cases s.does c with
  | @put name offer e accepted answer kept memory =>
    obtain ⟨-, valid, free, -, -⟩ := accept_eq_ok_iff.1 accepted
    rw [sound.entries] at free
    refine ⟨?_, ?_, ?_, ?_⟩
    · rw [memory, Memory.next_withEntry, builder_next]
      exact sound.place
    · rw [memory, builder_next, Memory.read_withEntry sound.place, sound.entries, kept]
      refine putEntry_of_fresh e.2 fun x mem => decide_eq_false ?_
      intro same
      exact free (same ▸ List.mem_map_of_mem mem)
    · rw [kept, List.map_append]
      exact sound.differ.append (List.nodup_singleton _) (by simpa using free)
    · rw [kept]
      exact List.forall_mem_append.2 ⟨sound.valid, List.forall_mem_singleton.2 valid⟩
  | build concluded answer kept memory =>
    refine ⟨?_, ?_, ?_, ?_⟩
    · rw [memory, Memory.next_withNew, builder_next]
      exact Nat.lt_succ_of_lt sound.place
    · rw [memory, builder_next, Memory.read_withNew_of_lt sound.place, sound.entries, kept]
    · rw [kept]
      exact sound.differ
    · rw [kept]
      exact sound.valid
  | refused answer kept memory =>
    refine ⟨?_, ?_, ?_, ?_⟩
    · rw [memory, builder_next]
      exact sound.place
    · rw [memory, builder_next, sound.entries, kept]
    · rw [kept]
      exact sound.differ
    · rw [kept]
      exact sound.valid

theorem IsSound.after {s : Session α} (sound : s.IsSound) (cs : List (Call α)) :
    (s.after cs).IsSound := by
  induction cs generalizing s with
  | nil => exact sound
  | cons c cs ih => exact ih (sound.next c)

/-- Calls change no dictionary but that of the builder. -/
theorem keeps_next (s : Session α) (c : Call α) :
    Memory.Keeps s.builder.place s.memory (s.next c).memory := by
  cases s.does c with
  | put _ _ _ memory =>
    rw [memory]
    exact .withEntry _ _ _ _
  | build _ _ _ memory =>
    rw [memory]
    exact .withNew _ _ _
  | refused _ _ memory =>
    rw [memory]
    exact .refl _ _

theorem keeps_after (s : Session α) (cs : List (Call α)) :
    Memory.Keeps s.builder.place s.memory (s.after cs).memory := by
  induction cs generalizing s with
  | nil => exact .refl _ _
  | cons c cs ih => exact (s.keeps_next c).trans (ih (s.next c))

end Session

/-! ## Catalogs -/

/-- **What comes of calls to a new builder.**  After any calls, its dictionary holds the entries of
the puts that succeeded, in their order.  One more put succeeds exactly if its name is one that no
put has taken, and if there is something to it that is good; if it does not succeed, then nothing
has changed.  A catalog is refused if no put has succeeded, and for no other reason.  If it is built,
it holds these entries, each under a name of its own, its names are strictly sorted, and whatever the
builder is asked for later does not change it. -/
theorem catalog_of_calls (m : Memory α) (before : List (Call α)) :
    let s := (Session.start m).after before
    s.memory.read s.builder.place = s.kept ∧
      (∀ name offer,
        (s.answer (.put name offer) = .done ↔ ∃ n entry, name = .text n ∧
          Name.isValid n.toList = true ∧ n ∉ s.kept.map Prod.fst ∧ offer.isNothing = false ∧
          offer.check = .good entry) ∧
        (s.answer (.put name offer) ≠ .done → (s.next (.put name offer)).memory = s.memory)) ∧
      (s.kept = [] → s.answer .build = .refused (.empty (CatalogEntry.label α))) ∧
      (s.kept ≠ [] → ∃ place, s.answer .build = .catalog place ∧ ∀ later,
        ((s.next .build).after later).memory.read place = s.kept ∧
          (s.kept.map Prod.fst).Nodup ∧
          (Catalog.names s.kept).Pairwise fun a b =>
            Text.notAfter a.toList b.toList = true ∧ a ≠ b) := by
  intro s
  have sound : s.IsSound := (Session.isSound_start m).after before
  refine ⟨sound.entries, fun name offer => ⟨?succeeds, ?refused⟩, fun none => ?empty,
    fun some => ?built⟩
  case succeeds =>
    have accepted : s.answer (.put name offer) = .done ↔
        ∃ e, accept (s.memory.read s.builder.place) name offer = .ok e := by
      constructor
      · intro done
        cases s.does (.put name offer) with
        | put accepted _ _ _ => exact ⟨_, accepted⟩
        | refused answer _ _ => rw [done] at answer; cases answer
      · rintro ⟨e, h⟩
        exact congrArg Prod.fst (call_put_of_ok h)
    rw [accepted, sound.entries]
    simp only [accept_eq_ok_iff, Prod.exists]
  case refused =>
    intro refused
    cases s.does (.put name offer) with
    | put _ answer _ _ => exact absurd answer refused
    | refused _ _ memory => exact memory
  case empty =>
    refine congrArg Prod.fst (call_build_of_error ?_)
    rw [sound.entries, none]
    rfl
  case built =>
    have concluded := conclude_eq_ok some sound.valid
    rw [← sound.entries] at concluded
    have called := call_build_of_ok concluded
    have memory : (s.next .build).memory = s.memory.withNew s.kept := by
      rw [← sound.entries]
      exact congrArg Prod.snd called
    refine ⟨s.memory.next, congrArg Prod.fst called, fun later => ⟨?_, sound.differ,
      Catalog.pairwise_names sound.differ⟩⟩
    have new : s.memory.next < (s.next .build).memory.next := by
      rw [memory, Memory.next_withNew]
      exact Nat.lt_succ_self _
    -- the dictionary is newer than the one of the builder, so it is another one
    rw [((s.next .build).keeps_after later).same _ new (Nat.ne_of_gt sound.place), memory,
      Memory.read_withNew]

/-- Calls of which only the first and the last succeed. -/
def toyCalls : List (Call Schema) := [
  .put (.text "Toy") (.given (.record [("type", .text "object")])),
  .put (.text "dog toy") (.given (.record [])),
  .put (.text "Toy") (.built ⟨[]⟩),
  .put (.text "Bone") (.given .null),
  .put (.text "Bone") (.given (.list [])),
  .put (.text "Bone") (.given (.map [(.int 1, .text "a"), (.text "1", .text "b")])),
  .put (.text "Bone") (.built ⟨[]⟩)]

theorem kept_toyCalls : ((Session.start ⟨[]⟩).after toyCalls).kept =
    [("Toy", ⟨[("type", .text "object")]⟩), ("Bone", ⟨[]⟩)] := by rfl

/-- Their catalog. -/
theorem catalog_of_toys :
    ∃ place, ((Session.start ⟨[]⟩).after toyCalls).answer .build = .catalog place ∧
      ∀ later, ((((Session.start ⟨[]⟩).after toyCalls).next .build).after later).memory.read place =
        [("Toy", ⟨[("type", .text "object")]⟩), ("Bone", ⟨[]⟩)] := by
  obtain ⟨-, -, -, built⟩ := catalog_of_calls ⟨[]⟩ toyCalls
  rw [kept_toyCalls] at built
  obtain ⟨place, answer, holds⟩ := built (List.cons_ne_nil _ _)
  exact ⟨place, answer, fun later => (holds later).1⟩

end CatalogBuilder
end ApiManual
