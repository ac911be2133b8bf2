import ApiManual.Proofs.Json.Numerals
import ApiManual.Proofs.Json.Reading
import ApiManual.Proofs.Json.Writable

/-!
# Written values

What the writer makes of a value whose numbers are finite is a document of JSON
(`exists_document_of_render`), and what it makes of nothing but null, truth values, whole numbers
and texts, in lists and in mappings with texts for keys, spells that value again: the reader gets
back all of it, the entries of mappings in their order (`parse?_of_render`).

The tree of the text follows the writer.  A bracket or comma and the new line behind it are the
sign and the gap of the grammar, so an item or a member that is written last differs from the
others by its gap only.
-/

namespace ApiManual

namespace Value

/-- All floating-point numbers of a value are finite. -/
def HasFiniteNumbers (v : Value) : Prop :=
  ∀ x, v.HasPart (.scalar (.float x)) → x.isFinite = true

theorem HasFiniteNumbers.of_hasPart {v w : Value}
    (h : v.HasFiniteNumbers) (inside : ∀ u, w.HasPart u → v.HasPart u) : w.HasFiniteNumbers :=
  fun x part => h x (inside _ part)

/-- A value of nothing but null, truth values, whole numbers, and texts, in lists and in records. -/
inductive IsExact : Value → Prop where
  | null : IsExact .null
  | bool (b : Bool) : IsExact (.bool b)
  | int (n : Int) : IsExact (.int n)
  | text (s : String) : IsExact (.text s)
  | list {items : List Value} : (∀ v ∈ items, v.IsExact) → IsExact (.list items)
  | record {fields : List (String × Value)} :
    (∀ f ∈ fields, f.2.IsExact) → IsExact (.record fields)

theorem isExact_list {items : List Value} : IsExact (.list items) ↔ ∀ v ∈ items, v.IsExact := by
  constructor
  · rintro (_ | _ | _ | _ | all | _)
    exact all
  · exact .list

theorem isExact_map {es : List (Scalar × Value)} :
    IsExact (.map es) ↔ ∀ e ∈ es, (∃ t, e.1 = .text t) ∧ e.2.IsExact := by
  constructor
  · generalize whole : Value.map es = v
    rintro (_ | _ | _ | _ | _ | all) e mem
    all_goals cases whole
    obtain ⟨f, inside, rfl⟩ := List.mem_map.1 mem
    exact ⟨⟨f.1, rfl⟩, all f inside⟩
  · intro all
    obtain ⟨fields, rfl⟩ : ∃ fields : List (String × Value),
        fields.map (fun f => (Scalar.text f.1, f.2)) = es := by
      induction es with
      | nil => exact ⟨[], rfl⟩
      | cons e es ih =>
        obtain ⟨k, v⟩ := e
        obtain ⟨⟨⟨t, rfl⟩, -⟩, others⟩ := List.forall_mem_cons.1 all
        obtain ⟨fields, rfl⟩ := ih others
        exact ⟨(t, v) :: fields, rfl⟩
    exact .record fun f mem => (all _ (List.mem_map_of_mem mem)).2

/-- The parts of such a value are such values. -/
theorem IsExact.of_hasPart {v w : Value} (exact : v.IsExact) (part : v.HasPart w) :
    w.IsExact := by
  revert exact
  induction part with
  | self v => exact id
  | item mem _ ih => exact fun exact => ih (isExact_list.1 exact _ mem)
  | entry mem _ ih => exact fun exact => ih (isExact_map.1 exact _ mem).2
  | first _ _ => rintro ⟨⟩
  | second _ _ => rintro ⟨⟩

theorem IsExact.hasFiniteNumbers {v : Value} (exact : v.IsExact) : v.HasFiniteNumbers := by
  intro x part
  cases exact.of_hasPart part

/-- Nothing but a number without a text is in the way of writing such a value. -/
theorem IsExact.isWritable_iff {v : Value} (exact : v.IsExact) :
    v.IsWritable ↔ v.hasText = true := by
  refine ⟨IsWritable.numbers, fun numbers => ⟨fun es part e mem => ?_, fun part => ?_, numbers⟩⟩
  · obtain ⟨t, text⟩ := (isExact_map.1 (exact.of_hasPart part) e mem).1
    rw [text]
    rfl
  · cases exact.of_hasPart part

end Value

namespace Json

/-! ## Strings -/

/-- Each character is written as one piece, which spells it. -/
theorem exists_piece (c : Char) : ∃ p : Piece, p.chars = escaped c ∧ p.codeUnit = c.toNat := by
  have hex : ∀ n < 32, Text.hexDigits 4 n = ['0', '0', (n / 16).digitChar, (n % 16).digitChar] ∧
      codeUnit? '0' '0' (n / 16).digitChar (n % 16).digitChar = some n := by decide
  unfold escaped
  split
  · exact ⟨.letter '"' rfl, rfl, rfl⟩
  · exact ⟨.letter '\\' rfl, rfl, rfl⟩
  · exact ⟨.letter 'n' rfl, rfl, rfl⟩
  · exact ⟨.letter 'r' rfl, rfl, rfl⟩
  · exact ⟨.letter 't' rfl, rfl, rfl⟩
  · exact ⟨.letter 'b' rfl, rfl, rfl⟩
  · exact ⟨.letter 'f' rfl, rfl, rfl⟩
  rename_i notQuote notBackslash _ _ _ _ _
  split
  · rename_i control
    obtain ⟨digits, spelled⟩ := hex c.toNat control
    refine ⟨.unit _ _ _ _ (Option.isSome_of_eq_some spelled), ?_, ?_⟩
    · rw [digits]
      rfl
    · exact Option.get_of_eq_some _ spelled
  · rename_i visible
    exact ⟨.raw c ⟨Char.not_lt.1 visible, notQuote, notBackslash⟩, rfl, rfl⟩

theorem exists_pieces_of_chars (cs : List Char) :
    ∃ ps : Pieces, ps.inside = cs.flatMap escaped ∧ ps.map Piece.codeUnit = cs.map Char.toNat := by
  induction cs with
  | nil => exact ⟨[], rfl, rfl⟩
  | cons c cs ih =>
    obtain ⟨p, hp, unit⟩ := exists_piece c
    obtain ⟨ps, hps, units⟩ := ih
    refine ⟨p :: ps, ?_, ?_⟩
    · rw [Pieces.inside_cons, hp, hps, List.flatMap_cons]
    · rw [List.map_cons, unit, units, List.map_cons]

/-- No character is half of a surrogate pair. -/
theorem not_isHalf (c : Char) : (isLead c.toNat || isTrail c.toNat) = false := by
  have valid : c.toNat.isValidChar := c.valid
  simp only [isLead, isTrail, Bool.or_eq_false_iff, Bool.and_eq_false_iff, decide_eq_false_iff_not]
  simp only [Nat.isValidChar] at valid
  omega

/-- The code points of characters are joined to the same characters. -/
theorem joinPairs_toNat (cs : List Char) : joinPairs (cs.map Char.toNat) = cs := by
  induction cs with
  | nil => rfl
  | cons c cs ih =>
    have alone := not_isHalf c
    cases cs with
    | nil => simp [joinPairs, alone]
    | cons d more =>
      have notLead : isLead c.toNat = false := (Bool.or_eq_false_iff.1 alone).1
      rw [List.map_cons] at ih
      rw [List.map_cons, List.map_cons, joinPairs, notLead, Bool.false_and,
        if_neg Bool.false_ne_true, ih, ← notLead, alone, if_neg Bool.false_ne_true,
        Char.ofNat_toNat]

/-- **A written string spells the text that was written.** -/
theorem exists_pieces_of_writeString (cs : List Char) :
    ∃ ps : Pieces, ps.chars = writeString cs ∧ ps.text = String.ofList cs := by
  obtain ⟨ps, inside, units⟩ := exists_pieces_of_chars cs
  refine ⟨ps, ?_, ?_⟩
  · rw [Pieces.chars, inside, writeString]
  · rw [Pieces.text, units, joinPairs_toNat]

/-- The name of a member is a string, and one that spells it if it is a text. -/
theorem exists_pieces_of_writeKey {s : Scalar} {cs : List Char} (h : writeKey s = .ok cs) :
    ∃ ps : Pieces, ps.chars = cs ∧ ∀ t, s = .text t → ps.text = t := by
  have string (cs : List Char) := exists_pieces_of_writeString cs
  cases s with
  | text t =>
    cases h
    obtain ⟨ps, chars, text⟩ := string t.toList
    refine ⟨ps, chars, ?_⟩
    rintro _ ⟨⟩
    rw [text, String.ofList_toList]
  | bytes _ | date _ | moment _ => cases h
  | int n =>
    obtain ⟨-, rfl⟩ := ifSpelled_eq_ok_iff.1 h
    obtain ⟨ps, chars, -⟩ := string _
    exact ⟨ps, chars, by rintro _ ⟨⟩⟩
  | _ =>
    cases h
    obtain ⟨ps, chars, -⟩ := string _
    exact ⟨ps, chars, by rintro _ ⟨⟩⟩

/-! ## Scalars -/

theorem exists_atom_of_writeScalar (s : Scalar) (finite : (Value.scalar s).HasFiniteNumbers) :
    ∃ a : Atom, a.chars = writeScalar s ∧ ((Value.scalar s).IsExact → a.scalar = s) := by
  have string (t : String) : ∃ a : Atom, a.chars = writeString t.toList ∧ a.scalar = .text t := by
    obtain ⟨ps, chars, text⟩ := exists_pieces_of_writeString t.toList
    refine ⟨.text ps, chars, ?_⟩
    rw [Atom.scalar, text, String.ofList_toList]
  cases s with
  | null => exact ⟨.word .null, rfl, fun _ => rfl⟩
  | bool b =>
    cases b with
    | false => exact ⟨.word .no, rfl, fun _ => rfl⟩
    | true => exact ⟨.word .yes, rfl, fun _ => rfl⟩
  | int k =>
    obtain ⟨n, chars, scalar⟩ := exists_number_int k
    exact ⟨.number n, chars, fun _ => scalar⟩
  | float x =>
    obtain ⟨n, chars⟩ := exists_number_float (finite x (.self _)) Decimal.schemaStyle
    exact ⟨.number n, chars, by rintro ⟨⟩⟩
  | text t =>
    obtain ⟨a, chars, scalar⟩ := string t
    exact ⟨a, chars, fun _ => scalar⟩
  | _ =>
    obtain ⟨a, chars, -⟩ := string _
    exact ⟨a, chars, by rintro ⟨⟩⟩

/-! ## Trees -/

theorem isSpace_replicate (n : Nat) : ∀ c ∈ List.replicate n ' ', isSpace c = true := by
  intro c mem
  rw [List.eq_of_mem_replicate mem]
  rfl

namespace Gap

/-- So many spaces. -/
def spaces (n : Nat) : Gap := ⟨List.replicate n ' ', isSpace_replicate n⟩

/-- No space. -/
def empty : Gap := .spaces 0

/-- One space. -/
def space : Gap := .spaces 1

/-- A new line at a depth. -/
def line (depth : Nat) : Gap where
  chars := newLine depth
  areSpaces := List.forall_mem_cons.2 ⟨rfl, isSpace_replicate _⟩

@[simp] theorem chars_empty : empty.chars = [] := rfl

@[simp] theorem chars_space : space.chars = [' '] := rfl

@[simp] theorem chars_line (depth : Nat) : (line depth).chars = newLine depth := rfl

end Gap

mutual

/-- What is written of a value is the syntax of a value. -/
theorem exists_tree_of_write (depth : Nat) : ∀ (v : Value) {cs : List Char},
    write depth v = .ok cs → v.HasFiniteNumbers →
      ∃ t : Tree, t.chars = cs ∧ (v.IsExact → t.value = v)
  | .scalar s, cs, h, finite => by
    rw [write] at h
    obtain ⟨-, rfl⟩ := ifSpelled_eq_ok_iff.1 h
    obtain ⟨a, chars, scalar⟩ := exists_atom_of_writeScalar s finite
    exact ⟨.atom a, chars, fun exact => by rw [Tree.value, scalar exact]⟩
  | .set items, cs, h, _ => by
    rw [write] at h
    obtain ⟨-, rfl⟩ := ifSpelled_eq_ok_iff.1 h
    obtain ⟨ps, chars, -⟩ := exists_pieces_of_writeString (Value.quotedSet items).toList
    exact ⟨.atom (.text ps), chars, by rintro ⟨⟩⟩
  | .list [], cs, h, _ => by
    rw [write] at h
    cases h
    exact ⟨.emptyList .empty, rfl, fun _ => rfl⟩
  | .list (v :: rest), cs, h, finite => by
    rw [write] at h
    obtain ⟨first, hf, h⟩ := Result.bind_eq_ok h
    obtain ⟨others, ho, h⟩ := Result.bind_eq_ok h
    cases h
    have finite (w : Value) (mem : w ∈ v :: rest) : w.HasFiniteNumbers :=
      finite.of_hasPart fun u part => .item mem part
    obtain ⟨t, chars, value⟩ := exists_tree_of_write (depth + 1) v hf (finite v List.mem_cons_self)
    obtain ⟨is, items, values⟩ := exists_items_of_write (depth + 1) t (.line depth) rest ho
      fun w mem => finite w (List.mem_cons_of_mem _ mem)
    refine ⟨.list is, ?_, fun exact => ?_⟩
    · rw [Tree.chars, items, chars, Gap.chars_line]
      simp only [List.cons_append, List.append_assoc]
    · obtain ⟨exactFirst, exactRest⟩ := List.forall_mem_cons.1 (Value.isExact_list.1 exact)
      rw [Tree.value, values exactRest, value exactFirst]
  | .pair a b, cs, h, finite => by
    rw [write] at h
    obtain ⟨first, hf, h⟩ := Result.bind_eq_ok h
    obtain ⟨second, hs, h⟩ := Result.bind_eq_ok h
    cases h
    obtain ⟨t, chars, -⟩ := exists_tree_of_write (depth + 1) a hf
      (finite.of_hasPart fun u part => .first part)
    obtain ⟨t', chars', -⟩ := exists_tree_of_write (depth + 1) b hs
      (finite.of_hasPart fun u part => .second part)
    refine ⟨.list (.more (.line (depth + 1)) t .empty (.last (.line (depth + 1)) t' (.line depth))),
      ?_, by rintro ⟨⟩⟩
    rw [Tree.chars, Items.chars, Items.chars, chars, chars', Gap.chars_line, Gap.chars_line,
      Gap.chars_empty]
    simp only [List.cons_append, List.append_assoc, List.nil_append]
  | .map [], cs, h, _ => by
    rw [write] at h
    cases h
    exact ⟨.emptyObject .empty, rfl, fun _ => rfl⟩
  | .map ((k, v) :: rest), cs, h, finite => by
    rw [write] at h
    obtain ⟨key, hk, h⟩ := Result.bind_eq_ok h
    obtain ⟨first, hf, h⟩ := Result.bind_eq_ok h
    obtain ⟨others, ho, h⟩ := Result.bind_eq_ok h
    cases h
    have finite (e : Scalar × Value) (mem : e ∈ (k, v) :: rest) : e.2.HasFiniteNumbers :=
      finite.of_hasPart fun u part => .entry mem part
    obtain ⟨ps, string, name⟩ := exists_pieces_of_writeKey hk
    obtain ⟨t, chars, value⟩ :=
      exists_tree_of_write (depth + 1) v hf (finite (k, v) List.mem_cons_self)
    obtain ⟨ms, members, entries⟩ := exists_members_of_write (depth + 1) ps t (.line depth) rest ho
      fun e mem => finite e (List.mem_cons_of_mem _ mem)
    refine ⟨.object ms, ?_, fun exact => ?_⟩
    · rw [Tree.chars, members, chars, string, Gap.chars_line]
      simp only [List.cons_append, List.append_assoc]
    · obtain ⟨⟨⟨n, text⟩, exactFirst⟩, exactRest⟩ :=
        List.forall_mem_cons.1 (Value.isExact_map.1 exact)
      rw [Tree.value, entries exactRest, value exactFirst, name n text, ← text]
  | .loop, cs, h, _ => by
    rw [write] at h
    cases h

/-- What is written of the further items of a list, behind the first one and up to the bracket. -/
theorem exists_items_of_write (depth : Nat) (first : Tree) (after : Gap) :
    ∀ (vs : List Value) {cs : List Char}, writeItems depth vs = .ok cs →
      (∀ v ∈ vs, v.HasFiniteNumbers) →
      ∃ is : Items, is.chars = newLine depth ++ first.chars ++ cs ++ after.chars ++ [']'] ∧
        ((∀ v ∈ vs, v.IsExact) → is.values = first.value :: vs)
  | [], cs, h, _ => by
    rw [writeItems] at h
    cases h
    refine ⟨.last (.line depth) first after, ?_, fun _ => rfl⟩
    rw [Items.chars, Gap.chars_line, List.append_nil]
  | v :: rest, cs, h, finite => by
    rw [writeItems] at h
    obtain ⟨second, hs, h⟩ := Result.bind_eq_ok h
    obtain ⟨others, ho, h⟩ := Result.bind_eq_ok h
    cases h
    obtain ⟨finiteFirst, finiteRest⟩ := List.forall_mem_cons.1 finite
    obtain ⟨t, chars, value⟩ := exists_tree_of_write depth v hs finiteFirst
    obtain ⟨is, items, values⟩ := exists_items_of_write depth t after rest ho finiteRest
    refine ⟨.more (.line depth) first .empty is, ?_, fun exact => ?_⟩
    · rw [Items.chars, items, chars, Gap.chars_line, Gap.chars_empty]
      simp only [List.cons_append, List.append_assoc, List.nil_append]
    · obtain ⟨exactFirst, exactRest⟩ := List.forall_mem_cons.1 exact
      rw [Items.values, values exactRest, value exactFirst]

/-- What is written of the further members of an object, behind the first one and up to the
brace. -/
theorem exists_members_of_write (depth : Nat) (key : Pieces) (first : Tree) (after : Gap) :
    ∀ (es : List (Scalar × Value)) {cs : List Char}, writeMembers depth es = .ok cs →
      (∀ e ∈ es, e.2.HasFiniteNumbers) →
      ∃ ms : Members,
        ms.chars = newLine depth ++ key.chars ++ ':' :: ' ' :: first.chars ++ cs ++ after.chars ++
          ['\x7d'] ∧
        ((∀ e ∈ es, (∃ t, e.1 = .text t) ∧ e.2.IsExact) →
          ms.entries = (.text key.text, first.value) :: es)
  | [], cs, h, _ => by
    rw [writeMembers] at h
    cases h
    refine ⟨.last (.line depth) key .empty .space first after, ?_, fun _ => rfl⟩
    rw [Members.chars, Gap.chars_line, Gap.chars_empty, Gap.chars_space]
    simp only [List.cons_append, List.append_assoc, List.nil_append]
  | (k, v) :: rest, cs, h, finite => by
    rw [writeMembers] at h
    obtain ⟨name, hk, h⟩ := Result.bind_eq_ok h
    obtain ⟨second, hs, h⟩ := Result.bind_eq_ok h
    obtain ⟨others, ho, h⟩ := Result.bind_eq_ok h
    cases h
    obtain ⟨finiteFirst, finiteRest⟩ := List.forall_mem_cons.1 finite
    obtain ⟨ps, string, spells⟩ := exists_pieces_of_writeKey hk
    obtain ⟨t, chars, value⟩ := exists_tree_of_write depth v hs finiteFirst
    obtain ⟨ms, members, entries⟩ := exists_members_of_write depth ps t after rest ho finiteRest
    refine ⟨.more (.line depth) key .empty .space first .empty ms, ?_, fun exact => ?_⟩
    · rw [Members.chars, members, chars, string, Gap.chars_line, Gap.chars_empty, Gap.chars_space]
      simp only [List.cons_append, List.append_assoc, List.nil_append]
    · obtain ⟨⟨⟨n, text⟩, exactFirst⟩, exactRest⟩ := List.forall_mem_cons.1 exact
      rw [Members.entries, entries exactRest, value exactFirst, spells n text, ← text]

end

/-! ## Documents -/

/-- **What is written of a value with finite numbers is a document**, and one that spells the
value if nothing of it was lost. -/
theorem exists_document_of_render {v : Value} {text : String} (h : render v = .ok text)
    (finite : v.HasFiniteNumbers) :
    ∃ d : Document, d.chars = text.toList ∧ (v.IsExact → d.value = v) := by
  obtain ⟨cs, hw, rfl⟩ := Result.map_eq_ok h
  obtain ⟨t, chars, value⟩ := exists_tree_of_write 0 v hw finite
  refine ⟨⟨.empty, t, .empty⟩, ?_, value⟩
  rw [String.toList_ofList, ← chars]
  exact List.append_nil _

/-- **What is written of null, truth values, whole numbers and texts, in lists and in records, is
read back as it was.** -/
theorem parse?_of_render {v : Value} {text : String} (exact : v.IsExact)
    (written : render v = .ok text) : parse? text = some v := by
  obtain ⟨d, chars, value⟩ := exists_document_of_render written exact.hasFiniteNumbers
  exact (parse?_eq_some_iff text v).2 ⟨d, chars, value exact⟩

end Json
end ApiManual
