import ApiManual.Proofs.Json.Written

/-!
# Numbers that are no JSON

An infinite number and no number are written as words, and these words are no JSON: their first
letters occur in strings only.  So the text of a value is a document exactly if all its numbers
are finite (`exists_document_iff`), at whatever depth they stand.

To see such a letter in the text of a value, one has to know where its strings end.  `unquoted`
reads a text from the left and keeps what is outside of strings.  A text is *closed* if reading
goes on behind it as if it started there; all texts that the writer and the grammar put together
are closed, and the text of a part stands in the text of the whole behind a closed one.
-/

namespace ApiManual
namespace Json

/-! ## Reading past strings -/

/-- Where a reader stands that looks for the ends of strings. -/
inductive Spot where
  | outside | inside | escaped

/-- The characters of a text that are outside of its strings. -/
def unquoted : Spot → List Char → List Char
  | _, [] => []
  | .outside, c :: cs => if c = '"' then unquoted .inside cs else c :: unquoted .outside cs
  | .inside, c :: cs =>
    if c = '"' then unquoted .outside cs
    else if c = '\\' then unquoted .escaped cs
    else unquoted .inside cs
  | .escaped, _ :: cs => unquoted .inside cs

/-- Behind a text reading goes on as it started. -/
def IsClosed (cs : List Char) : Prop :=
  ∀ rest, unquoted .outside (cs ++ rest) = unquoted .outside cs ++ unquoted .outside rest

theorem IsClosed.nil : IsClosed [] := fun _ => rfl

theorem IsClosed.append {xs ys : List Char} (hx : IsClosed xs) (hy : IsClosed ys) :
    IsClosed (xs ++ ys) := by
  intro rest
  rw [List.append_assoc, hx, hy, hx, List.append_assoc]

/-- A text without quotes is outside of strings as a whole. -/
theorem unquoted_append_of_notMem {cs : List Char} (h : '"' ∉ cs) (rest : List Char) :
    unquoted .outside (cs ++ rest) = cs ++ unquoted .outside rest := by
  induction cs with
  | nil => rfl
  | cons c cs ih =>
    rw [List.mem_cons, not_or] at h
    rw [List.cons_append, unquoted, if_neg (Ne.symm h.1), ih h.2, List.cons_append]

theorem unquoted_of_notMem {cs : List Char} (h : '"' ∉ cs) : unquoted .outside cs = cs := by
  have whole := unquoted_append_of_notMem h []
  rwa [List.append_nil, unquoted, List.append_nil] at whole

theorem IsClosed.of_notMem {cs : List Char} (h : '"' ∉ cs) : IsClosed cs := fun rest => by
  rw [unquoted_append_of_notMem h, unquoted_of_notMem h]

/-! ## Texts of the grammar -/

/-- The first letters of the words for numbers that are not finite. -/
def isForeign (c : Char) : Bool := c = 'I' || c = 'N'

/-- A closed text that has no such letter outside of its strings. -/
structure IsNative (cs : List Char) : Prop where
  closed : IsClosed cs
  native : ∀ c ∈ unquoted .outside cs, isForeign c = false

namespace IsNative

theorem append {xs ys : List Char} (hx : IsNative xs) (hy : IsNative ys) :
    IsNative (xs ++ ys) where
  closed := hx.closed.append hy.closed
  native := by
    rw [hx.closed]
    exact List.forall_mem_append.2 ⟨hx.native, hy.native⟩

/-- A text of characters of a kind that neither the quote nor such a letter is of. -/
theorem of_forall {cs : List Char} (kind : Char → Bool) (all : ∀ c ∈ cs, kind c = true)
    (excluded : ['"', 'I', 'N'].any kind = false) : IsNative cs := by
  rw [List.any_eq_false] at excluded
  have bare : '"' ∉ cs := fun mem => excluded '"' (by decide) (all _ mem)
  refine ⟨.of_notMem bare, fun c mem => ?_⟩
  rw [unquoted_of_notMem bare] at mem
  rw [isForeign, Bool.or_eq_false_iff, decide_eq_false_iff_not, decide_eq_false_iff_not]
  refine ⟨?_, ?_⟩ <;> rintro rfl
  · exact excluded 'I' (by decide) (all _ mem)
  · exact excluded 'N' (by decide) (all _ mem)

theorem of_signs {cs : List Char} (h : (cs.all fun c => c ∉ ['"', 'I', 'N']) = true) :
    IsNative cs :=
  of_forall _ (List.all_eq_true.1 h) (by decide)

theorem cons {c : Char} {cs : List Char} (hc : c ∉ ['"', 'I', 'N']) (h : IsNative cs) :
    IsNative (c :: cs) := by
  have front : IsNative [c] := of_signs (by simpa using hc)
  exact front.append h

theorem digits (ds : Digits) : IsNative ds.chars :=
  of_forall Text.isAsciiDigit ds.areDigits (by decide)

theorem gap (g : Gap) : IsNative g.chars := of_forall isSpace g.areSpaces (by decide)

/-- A digit stays inside of a string. -/
theorem unquoted_digit {c : Char} {n : Nat} (h : Text.hexValue? c = some n) (rest : List Char) :
    unquoted .inside (c :: rest) = unquoted .inside rest := by
  have notQuote : c ≠ '"' := by
    rintro rfl
    cases h
  have notBackslash : c ≠ '\\' := by
    rintro rfl
    cases h
  rw [unquoted, if_neg notQuote, if_neg notBackslash]

/-- Inside of a string no piece is taken for its end. -/
theorem unquoted_piece (p : Piece) (rest : List Char) :
    unquoted .inside (p.chars ++ rest) = unquoted .inside rest := by
  cases p with
  | raw c plain =>
    rw [Piece.chars, List.singleton_append, unquoted, if_neg plain.2.1, if_neg plain.2.2]
  | letter c known => rfl
  | unit a b c d digits =>
    obtain ⟨n, spelled⟩ := Option.isSome_iff_exists.1 digits
    simp only [codeUnit?, Option.bind_eq_bind, Option.bind_eq_some_iff] at spelled
    obtain ⟨_, ha, _, hb, _, hc, _, hd, -⟩ := spelled
    rw [Piece.chars, List.cons_append, List.cons_append]
    rw [unquoted, if_neg (by decide), if_pos rfl, unquoted]
    exact (unquoted_digit ha _).trans ((unquoted_digit hb _).trans
      ((unquoted_digit hc _).trans (unquoted_digit hd rest)))

theorem string (ps : Pieces) : IsNative ps.chars := by
  have inside (rest : List Char) :
      unquoted .inside (ps.inside ++ rest) = unquoted .inside rest := by
    induction ps with
    | nil => rfl
    | cons p ps ih => rw [Pieces.inside_cons, List.append_assoc, unquoted_piece, ih]
  have through (rest : List Char) :
      unquoted .outside (ps.chars ++ rest) = unquoted .outside rest := by
    rw [Pieces.chars, List.append_assoc, List.cons_append, unquoted, if_pos rfl, inside]
    rfl
  have none : unquoted .outside ps.chars = [] := by
    have whole := through []
    rwa [List.append_nil] at whole
  constructor
  · intro rest
    rw [through, none, List.nil_append]
  · rw [none]
    exact List.forall_mem_nil _

theorem exponent (e : Exponent) : IsNative e.chars := by
  have sign : IsNative e.sign.toList := by
    refine of_forall (fun c => c = '+' || c = '-') (fun c mem => ?_) (by decide)
    simpa using e.isSign c (Option.mem_toList.1 mem)
  have letter : e.letter ∉ ['"', 'I', 'N'] := by
    rcases e.isLetter with h | h <;> rw [h] <;> decide
  exact (sign.append (digits e.digits)).cons letter

theorem number (n : Number) : IsNative n.chars := by
  have fraction : IsNative n.fractionChars := by
    rw [Number.fractionChars]
    cases n.fraction with
    | none => exact of_signs (by decide)
    | some ds => exact (digits ds).cons (by decide)
  have exponent : IsNative n.exponentChars := by
    rw [Number.exponentChars]
    cases n.exponent with
    | none => exact of_signs (by decide)
    | some e => exact exponent e
  have unsigned : IsNative n.unsigned := (digits n.whole).append (fraction.append exponent)
  rw [Number.chars]
  split
  · exact unsigned.cons (by decide)
  · exact unsigned

theorem atom : ∀ a : Atom, IsNative a.chars
  | .text ps => string ps
  | .number n => number n
  | .word w => of_signs (by cases w <;> decide)

mutual

theorem tree : ∀ t : Tree, IsNative t.chars
  | .atom a => atom a
  | .emptyList g => ((gap g).append (of_signs (by decide))).cons (by decide)
  | .list is => (items is).cons (by decide)
  | .emptyObject g => ((gap g).append (of_signs (by decide))).cons (by decide)
  | .object ms => (members ms).cons (by decide)

theorem items : ∀ is : Items, IsNative is.chars
  | .last before item after =>
    (((gap before).append (tree item)).append (gap after)).append (of_signs (by decide))
  | .more before item after rest =>
    (((gap before).append (tree item)).append (gap after)).append ((items rest).cons (by decide))

theorem members : ∀ ms : Members, IsNative ms.chars
  | .last before key behindKey behindColon value after => by
    have front := ((gap before).append (string key)).append (gap behindKey)
    have back := ((gap behindColon).append (tree value)).append (gap after)
    have whole := (front.append (back.cons (by decide : ':' ∉ _))).append
      (of_signs (by decide : (['\x7d'].all _) = true))
    simpa only [Members.chars, List.append_assoc, List.cons_append] using whole
  | .more before key behindKey behindColon value after rest => by
    have front := ((gap before).append (string key)).append (gap behindKey)
    have back := ((gap behindColon).append (tree value)).append (gap after)
    have whole := (front.append (back.cons (by decide : ':' ∉ _))).append
      ((members rest).cons (by decide : ',' ∉ _))
    simpa only [Members.chars, List.append_assoc, List.cons_append] using whole

end

/-- **No such letter stands outside of the strings of a document.** -/
theorem document (d : Document) : IsNative d.chars :=
  ((gap d.before).append (tree d.root)).append (gap d.after)

end IsNative

/-! ## Texts of the writer -/

theorem isClosed_writeString (cs : List Char) : IsClosed (writeString cs) := by
  obtain ⟨ps, chars, -⟩ := exists_pieces_of_writeString cs
  rw [← chars]
  exact (IsNative.string ps).closed

/-- A finite number is one of the grammar, and the other ones are words without quotes. -/
theorem isClosed_float (x : Binary64) : IsClosed (x.write Decimal.schemaStyle) := by
  cases x with
  | nan => exact .of_notMem (by decide)
  | infinite s => exact .of_notMem (by cases s <;> decide)
  | finite s m e =>
    obtain ⟨n, chars⟩ := exists_number_float (x := .finite s m e) rfl Decimal.schemaStyle
    rw [← chars]
    exact (IsNative.number n).closed

theorem isClosed_writeScalar (s : Scalar) : IsClosed (writeScalar s) := by
  cases s with
  | null => exact .of_notMem (by decide)
  | bool b => exact .of_notMem (by cases b <;> decide)
  | int k =>
    obtain ⟨n, chars, -⟩ := exists_number_int k
    rw [writeScalar, ← chars]
    exact (IsNative.number n).closed
  | float x => exact isClosed_float x
  | _ => exact isClosed_writeString _

theorem composes_isClosed : Composes 0 IsClosed where
  nil := .nil
  string := isClosed_writeString
  scalar := isClosed_writeScalar
  sign c mem := .of_notMem fun quote => by
    rw [← List.mem_singleton.1 quote] at mem
    exact absurd mem (by decide)
  newLine depth _ := (IsNative.gap (.line depth)).closed
  append := IsClosed.append

/-- A text stands in another one behind a closed text. -/
def StandsIn (cs whole : List Char) : Prop :=
  ∃ before behind, whole = before ++ cs ++ behind ∧ IsClosed before

theorem StandsIn.refl (cs : List Char) : StandsIn cs cs :=
  ⟨[], [], (List.append_nil _).symm, .nil⟩

theorem StandsIn.trans {cs ds es : List Char} (h : StandsIn cs ds) (h' : StandsIn ds es) :
    StandsIn cs es := by
  obtain ⟨before, behind, rfl, closed⟩ := h
  obtain ⟨before', behind', rfl, closed'⟩ := h'
  exact ⟨before' ++ before, behind ++ behind', by simp only [List.append_assoc],
    closed'.append closed⟩

/-- What is outside of the strings of a closed text is outside of those of the whole. -/
theorem StandsIn.mem_unquoted {cs whole : List Char} (h : StandsIn cs whole) (closed : IsClosed cs)
    {c : Char} (mem : c ∈ unquoted .outside cs) : c ∈ unquoted .outside whole := by
  obtain ⟨before, behind, rfl, front⟩ := h
  rw [List.append_assoc, front, closed]
  exact List.mem_append_right _ (List.mem_append_left _ mem)

theorem StandsIn.within {cs ds : List Char} (h : StandsIn cs ds) {front : List Char}
    (closed : IsClosed front) (back : List Char) : StandsIn cs (front ++ ds ++ back) :=
  h.trans ⟨front, back, rfl, closed⟩

/-! ### The text of a part -/

section Parts

variable {depth : Nat} {cs : List Char}

theorem isClosed_newLine (depth : Nat) : IsClosed (newLine depth) :=
  composes_isClosed.newLine depth (Nat.zero_le depth)

theorem isClosed_sign {c : Char} (h : c ∈ signs) {cs : List Char} (closed : IsClosed cs) :
    IsClosed (c :: cs) := composes_isClosed.cons h closed

theorem isClosed_write {v : Value} (h : write depth v = .ok cs) : IsClosed cs :=
  composes_isClosed.write (Nat.zero_le depth) v h

theorem standsIn_writeItems {vs : List Value} (h : writeItems depth vs = .ok cs) :
    ∀ v ∈ vs, ∃ ds, write depth v = .ok ds ∧ StandsIn ds cs := by
  induction vs generalizing cs with
  | nil => exact List.forall_mem_nil _
  | cons v rest ih =>
    rw [writeItems] at h
    obtain ⟨first, hf, h⟩ := Result.bind_eq_ok h
    obtain ⟨others, ho, h⟩ := Result.bind_eq_ok h
    cases h
    have front : IsClosed (',' :: newLine depth) := isClosed_sign (by decide) (isClosed_newLine _)
    refine List.forall_mem_cons.2 ⟨⟨first, hf, (StandsIn.refl first).within front others⟩, ?_⟩
    intro w mem
    obtain ⟨ds, hw, inside⟩ := ih ho w mem
    refine ⟨ds, hw, ?_⟩
    have behind := inside.within (front.append (isClosed_write hf)) []
    rwa [List.append_nil] at behind

theorem standsIn_writeMembers {es : List (Scalar × Value)} (h : writeMembers depth es = .ok cs) :
    ∀ e ∈ es, ∃ ds, write depth e.2 = .ok ds ∧ StandsIn ds cs := by
  induction es generalizing cs with
  | nil => exact List.forall_mem_nil _
  | cons e rest ih =>
    obtain ⟨k, v⟩ := e
    rw [writeMembers] at h
    obtain ⟨key, hk, h⟩ := Result.bind_eq_ok h
    obtain ⟨first, hf, h⟩ := Result.bind_eq_ok h
    obtain ⟨others, ho, h⟩ := Result.bind_eq_ok h
    cases h
    have front : IsClosed (',' :: newLine depth ++ (key ++ [':', ' '])) :=
      (isClosed_sign (by decide) (isClosed_newLine _)).append
        ((composes_isClosed.writeKey hk).append (.of_notMem (by decide)))
    refine List.forall_mem_cons.2 ⟨⟨first, hf, ?_⟩, fun w mem => ?_⟩
    · have inside := (StandsIn.refl first).within front others
      simpa only [List.append_assoc, List.cons_append, List.nil_append] using inside
    · obtain ⟨ds, hw, inside⟩ := ih ho w mem
      refine ⟨ds, hw, ?_⟩
      have behind := inside.within (front.append (isClosed_write hf)) []
      simpa only [List.append_assoc, List.cons_append, List.nil_append, List.append_nil]
        using behind

/-- The text of an item stands in the text of the list. -/
theorem standsIn_of_item {vs : List Value} {v : Value} (h : write depth (.list vs) = .ok cs)
    (mem : v ∈ vs) : ∃ ds, write (depth + 1) v = .ok ds ∧ StandsIn ds cs := by
  cases vs with
  | nil => cases mem
  | cons first rest =>
    rw [write] at h
    obtain ⟨front, hf, h⟩ := Result.bind_eq_ok h
    obtain ⟨others, ho, h⟩ := Result.bind_eq_ok h
    cases h
    have opening : IsClosed ('[' :: newLine (depth + 1)) :=
      isClosed_sign (by decide) (isClosed_newLine _)
    rcases List.mem_cons.1 mem with rfl | mem
    · refine ⟨front, hf, ?_⟩
      have inside := (StandsIn.refl front).within opening (others ++ newLine depth ++ [']'])
      simpa only [List.append_assoc, List.cons_append] using inside
    · obtain ⟨ds, hw, inside⟩ := standsIn_writeItems ho v mem
      refine ⟨ds, hw, ?_⟩
      have behind := inside.within (opening.append (isClosed_write hf)) (newLine depth ++ [']'])
      simpa only [List.append_assoc, List.cons_append] using behind

/-- The text of an entry's value stands in the text of the mapping. -/
theorem standsIn_of_entry {es : List (Scalar × Value)} {e : Scalar × Value}
    (h : write depth (.map es) = .ok cs) (mem : e ∈ es) :
    ∃ ds, write (depth + 1) e.2 = .ok ds ∧ StandsIn ds cs := by
  cases es with
  | nil => cases mem
  | cons first rest =>
    obtain ⟨k, v⟩ := first
    rw [write] at h
    obtain ⟨key, hk, h⟩ := Result.bind_eq_ok h
    obtain ⟨front, hf, h⟩ := Result.bind_eq_ok h
    obtain ⟨others, ho, h⟩ := Result.bind_eq_ok h
    cases h
    have opening : IsClosed ('\x7b' :: newLine (depth + 1) ++ (key ++ [':', ' '])) :=
      (isClosed_sign (by decide) (isClosed_newLine _)).append
        ((composes_isClosed.writeKey hk).append (.of_notMem (by decide)))
    rcases List.mem_cons.1 mem with rfl | mem
    · refine ⟨front, hf, ?_⟩
      have inside := (StandsIn.refl front).within opening (others ++ newLine depth ++ ['\x7d'])
      simpa only [List.append_assoc, List.cons_append, List.nil_append] using inside
    · obtain ⟨ds, hw, inside⟩ := standsIn_writeMembers ho e mem
      refine ⟨ds, hw, ?_⟩
      have behind := inside.within (opening.append (isClosed_write hf))
        (newLine depth ++ ['\x7d'])
      simpa only [List.append_assoc, List.cons_append, List.nil_append] using behind

/-- The texts of both values of a pair stand in the text of the pair. -/
theorem standsIn_of_pair {a b : Value} (h : write depth (.pair a b) = .ok cs) :
    (∃ ds, write (depth + 1) a = .ok ds ∧ StandsIn ds cs) ∧
      ∃ ds, write (depth + 1) b = .ok ds ∧ StandsIn ds cs := by
  rw [write] at h
  obtain ⟨first, hf, h⟩ := Result.bind_eq_ok h
  obtain ⟨second, hs, h⟩ := Result.bind_eq_ok h
  cases h
  have opening : IsClosed ('[' :: newLine (depth + 1)) :=
    isClosed_sign (by decide) (isClosed_newLine _)
  have comma : IsClosed (',' :: newLine (depth + 1)) :=
    isClosed_sign (by decide) (isClosed_newLine _)
  refine ⟨⟨first, hf, ?_⟩, second, hs, ?_⟩
  · have inside := (StandsIn.refl first).within opening
      (',' :: newLine (depth + 1) ++ second ++ newLine depth ++ [']'])
    simpa only [List.append_assoc, List.cons_append] using inside
  · have behind := (StandsIn.refl second).within ((opening.append (isClosed_write hf)).append comma)
      (newLine depth ++ [']'])
    simpa only [List.append_assoc, List.cons_append] using behind

/-- **The text of a part stands in the text of the whole.** -/
theorem standsIn_of_hasPart {v w : Value} (part : v.HasPart w) (h : write depth v = .ok cs) :
    ∃ depth' ds, write depth' w = .ok ds ∧ StandsIn ds cs := by
  induction part generalizing depth cs with
  | self v => exact ⟨depth, cs, h, .refl cs⟩
  | item mem _ ih =>
    obtain ⟨ds, written, inside⟩ := standsIn_of_item h mem
    obtain ⟨deeper, es, text, within⟩ := ih written
    exact ⟨deeper, es, text, within.trans inside⟩
  | entry mem _ ih =>
    obtain ⟨ds, written, inside⟩ := standsIn_of_entry h mem
    obtain ⟨deeper, es, text, within⟩ := ih written
    exact ⟨deeper, es, text, within.trans inside⟩
  | first _ ih =>
    obtain ⟨⟨ds, written, inside⟩, -⟩ := standsIn_of_pair h
    obtain ⟨deeper, es, text, within⟩ := ih written
    exact ⟨deeper, es, text, within.trans inside⟩
  | second _ ih =>
    obtain ⟨-, ds, written, inside⟩ := standsIn_of_pair h
    obtain ⟨deeper, es, text, within⟩ := ih written
    exact ⟨deeper, es, text, within.trans inside⟩

end Parts

/-! ## Documents -/

/-- The word for a number that is not finite starts with a letter that JSON does not have. -/
theorem exists_isForeign {x : Binary64} (h : x.isFinite = false) :
    ∃ c ∈ unquoted .outside (x.write Decimal.schemaStyle), isForeign c = true := by
  cases x with
  | nan => exact ⟨'N', by decide, rfl⟩
  | infinite s => exact ⟨'I', by cases s <;> decide, rfl⟩
  | finite s m e => cases h

/-- **What is written of a value is a document exactly if its numbers are finite.** -/
theorem exists_document_iff {v : Value} {text : String} (h : render v = .ok text) :
    (∃ d : Document, d.chars = text.toList) ↔ v.HasFiniteNumbers := by
  constructor
  · rintro ⟨d, chars⟩ x part
    obtain ⟨cs, written, rfl⟩ := Result.map_eq_ok h
    rw [String.toList_ofList] at chars
    obtain ⟨deeper, ds, word, inside⟩ := standsIn_of_hasPart part written
    rw [write] at word
    cases word
    by_contra infinite
    obtain ⟨c, mem, foreign⟩ := exists_isForeign (Bool.not_eq_true _ ▸ infinite)
    have native := (IsNative.document d).native c
      (chars ▸ inside.mem_unquoted (isClosed_float x) mem)
    rw [foreign] at native
    cases native
  · intro finite
    obtain ⟨d, chars, -⟩ := exists_document_of_render h finite
    exact ⟨d, chars⟩

end Json
end ApiManual
