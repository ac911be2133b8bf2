import ApiManual.Json.Writer
import ApiManual.Proofs.Results
import Mathlib.Data.List.Basic

/-!
# The lines of JSON texts

A JSON text breaks its lines where the writer goes to a new line, and nowhere else: control
characters inside strings are escaped, and numbers have none.  A new line is filled with spaces
up to its depth.  So whatever strings a record holds, its text is a pair of braces, or it is a
brace, lines that start with two spaces, and the other brace (`isRecordLine_of_render`).

What is said of texts here is said piece by piece.  A property that strings, scalars, signs and
new lines have, and that passes on to texts one after the other, is a property of the text of
every value (`Composes.write`).  That two spaces stand behind each line feed is such a property,
and that no other control characters than line feeds occur is another one.
-/

namespace ApiManual
namespace Json

/-! ## Texts without control characters -/

/-- No character of a text is a control character of ASCII. -/
def HasNoControls (cs : List Char) : Prop := ∀ c ∈ cs, ' ' ≤ c

instance (cs : List Char) : Decidable (HasNoControls cs) :=
  List.decidableBAll (' ' ≤ ·) cs

namespace HasNoControls

theorem append {xs ys : List Char} (hx : HasNoControls xs) (hy : HasNoControls ys) :
    HasNoControls (xs ++ ys) := List.forall_mem_append.2 ⟨hx, hy⟩

theorem cons {c : Char} {cs : List Char} (hc : ' ' ≤ c) (h : HasNoControls cs) :
    HasNoControls (c :: cs) := List.forall_mem_cons.2 ⟨hc, h⟩

theorem take {cs : List Char} (h : HasNoControls cs) (n : Nat) : HasNoControls (cs.take n) :=
  fun c mem => h c (List.mem_of_mem_take mem)

theorem drop {cs : List Char} (h : HasNoControls cs) (n : Nat) : HasNoControls (cs.drop n) :=
  fun c mem => h c (List.mem_of_mem_drop mem)

theorem newline_notMem {cs : List Char} (h : HasNoControls cs) : '\n' ∉ cs :=
  fun mem => absurd (h _ mem) (by decide)

end HasNoControls

theorem hasNoControls_replicate (n : Nat) {c : Char} (hc : ' ' ≤ c) :
    HasNoControls (List.replicate n c) :=
  fun _ mem => List.eq_of_mem_replicate mem ▸ hc

theorem hasNoControls_toDigits {b : Nat} (hb : 1 < b) (n : Nat) :
    HasNoControls (Nat.toDigits b n) := by
  have digit (k : Nat) : ' ' ≤ k.digitChar := by
    simp only [Nat.digitChar, apply_ite (' ' ≤ ·)]
    simp
  induction n using Nat.strongRecOn with
  | ind n ih =>
    rw [Nat.toDigits_eq_if hb]
    split
    · exact List.forall_mem_singleton.2 (digit n)
    · rename_i large
      have smaller : n / b < n := Nat.div_lt_self (by omega) hb
      exact (ih (n / b) smaller).append (List.forall_mem_singleton.2 (digit _))

theorem hasNoControls_escaped (c : Char) : HasNoControls (escaped c) := by
  have hex (n : Nat) : HasNoControls (Text.hexDigits 4 n) :=
    (hasNoControls_replicate _ (by decide)).append (hasNoControls_toDigits (by decide) n)
  unfold escaped
  split
  iterate 7 exact .cons (by decide) (.cons (by decide) (List.forall_mem_nil _))
  split
  · exact ((hex _).cons (by decide)).cons (by decide)
  · rename_i visible
    exact List.forall_mem_singleton.2 (Char.not_lt.1 visible)

/-- Control characters inside strings are escaped. -/
theorem hasNoControls_writeString (cs : List Char) : HasNoControls (writeString cs) := by
  have inside : HasNoControls (cs.flatMap escaped) := by
    intro c mem
    obtain ⟨d, -, mem⟩ := List.mem_flatMap.1 mem
    exact hasNoControls_escaped d c mem
  have quote : HasNoControls ['"'] := List.forall_mem_singleton.2 (by decide)
  exact (inside.append quote).cons (by decide)

theorem hasNoControls_inPlace (d : Decimal) : HasNoControls d.inPlace := by
  have digits := hasNoControls_toDigits (b := 10) (by decide) d.digits
  have zeros (n : Nat) : HasNoControls (List.replicate n '0') :=
    hasNoControls_replicate n (by decide)
  have tail : HasNoControls ['.', '0'] := .cons (by decide) (.cons (by decide) (zeros 0))
  unfold Decimal.inPlace
  simp only
  split
  · exact ((((zeros _).cons (by decide)).cons (by decide)).append digits)
  · split
    · exact (digits.append (zeros _)).append tail
    · exact (digits.take _).append ((digits.drop _).cons (by decide))

theorem hasNoControls_withExponent (k : Nat) (d : Decimal) : HasNoControls (d.withExponent k) := by
  have digits := hasNoControls_toDigits (b := 10) (by decide) d.digits
  have exponent := hasNoControls_toDigits (b := 10) (by decide) d.leading.natAbs
  have zeros (n : Nat) : HasNoControls (List.replicate n '0') :=
    hasNoControls_replicate n (by decide)
  have sign : ' ' ≤ if d.leading < 0 then '-' else '+' := by split <;> decide
  unfold Decimal.withExponent
  refine .append ?_ ((((zeros _).append exponent).cons sign).cons (by decide))
  split
  · exact zeros 1
  · rename_i c one
    rwa [one] at digits
  · rename_i c rest _ more
    rw [more, HasNoControls, List.forall_mem_cons] at digits
    exact .cons digits.1 (.cons (by decide) digits.2)

theorem hasNoControls_float (x : Binary64) : HasNoControls (x.write Decimal.schemaStyle) := by
  have sign (s : Bool) : HasNoControls (if s then ['-'] else []) := by cases s <;> decide
  cases x with
  | nan => decide
  | infinite s => exact (sign s).append (by decide)
  | finite s m e =>
    refine (sign s).append ?_
    split
    · decide
    · rw [Decimal.write]
      split
      · exact hasNoControls_inPlace _
      · exact hasNoControls_withExponent _ _

theorem hasNoControls_intText (n : Int) : HasNoControls (Text.intText n).toList := by
  have digits := hasNoControls_toDigits (b := 10) (by decide) n.natAbs
  unfold Text.intText Text.natDigits
  split
  · simpa using digits.cons (c := '-') (by decide)
  · simpa using digits

/-- A scalar stands on one line. -/
theorem hasNoControls_writeScalar (s : Scalar) : HasNoControls (writeScalar s) := by
  cases s with
  | null => decide
  | bool b => cases b <;> decide
  | int n => exact hasNoControls_intText n
  | float x => exact hasNoControls_float x
  | text s => exact hasNoControls_writeString _
  | bytes bs => exact hasNoControls_writeString _
  | date d => exact hasNoControls_writeString _
  | moment t => exact hasNoControls_writeString _

/-! ## Texts of values, piece by piece -/

/-- The signs that a JSON text is put together with. -/
def signs : List Char := ['[', ']', '\x7b', '\x7d', ',', ':', ' ']

theorem hasNoControls_sign {c : Char} (h : c ∈ signs) : HasNoControls [c] := by
  have all : HasNoControls signs := by decide
  exact List.forall_mem_singleton.2 (all c h)

/-- A property that the pieces of JSON texts have, and that passes on to texts one after the
other.  New lines have it from a depth on. -/
structure Composes (least : Nat) (P : List Char → Prop) : Prop where
  nil : P []
  string (cs : List Char) : P (writeString cs)
  scalar (s : Scalar) : P (writeScalar s)
  sign : ∀ c ∈ signs, P [c]
  newLine (depth : Nat) : least ≤ depth → P (newLine depth)
  append {xs ys : List Char} : P xs → P ys → P (xs ++ ys)

namespace Composes

variable {least : Nat} {P : List Char → Prop}

theorem cons (hP : Composes least P) {c : Char} (hc : c ∈ signs) {cs : List Char} (h : P cs) :
    P (c :: cs) := hP.append (hP.sign c hc) h

theorem writeKey (hP : Composes least P) {s : Scalar} {cs : List Char}
    (h : writeKey s = .ok cs) : P cs := by
  cases s with
  | int n =>
    obtain ⟨-, rfl⟩ := ifSpelled_eq_ok_iff.1 h
    exact hP.string _
  | _ => cases h <;> exact hP.string _

/-- A member with what is behind it. -/
theorem member (hP : Composes least P) {s : Scalar} {key cs : List Char}
    (hk : Json.writeKey s = .ok key) (h : P cs) : P (key ++ ':' :: ' ' :: cs) :=
  hP.append (hP.writeKey hk) (hP.cons (by decide) (hP.cons (by decide) h))

/-- A new line that a bracket closes. -/
theorem closing (hP : Composes least P) {depth : Nat} (deep : least ≤ depth) {c : Char}
    (hc : c ∈ signs) : P (Json.newLine depth ++ [c]) :=
  hP.append (hP.newLine depth deep) (hP.sign c hc)

mutual

/-- **What the pieces have, the text of every value has.** -/
theorem write (hP : Composes least P) {depth : Nat} (deep : least ≤ depth) :
    ∀ (v : Value) {cs : List Char}, Json.write depth v = .ok cs → P cs
  | .scalar s, cs, h => by
    rw [Json.write] at h
    obtain ⟨-, rfl⟩ := ifSpelled_eq_ok_iff.1 h
    exact hP.scalar s
  | .set items, cs, h => by
    rw [Json.write] at h
    obtain ⟨-, rfl⟩ := ifSpelled_eq_ok_iff.1 h
    exact hP.string _
  | .list [], cs, h => by
    rw [Json.write] at h
    cases h
    exact hP.cons (by decide) (hP.sign _ (by decide))
  | .list (v :: rest), cs, h => by
    rw [Json.write] at h
    obtain ⟨first, hf, h⟩ := Result.bind_eq_ok h
    obtain ⟨others, ho, h⟩ := Result.bind_eq_ok h
    cases h
    have deeper : least ≤ depth + 1 := Nat.le_succ_of_le deep
    have inside := hP.append (hP.write deeper v hf) (hP.append (hP.items deeper rest ho)
      (hP.closing deep (by decide : ']' ∈ signs)))
    simpa only [List.append_assoc, List.cons_append] using
      hP.cons (by decide : '[' ∈ signs) (hP.append (hP.newLine _ deeper) inside)
  | .pair a b, cs, h => by
    rw [Json.write] at h
    obtain ⟨first, hf, h⟩ := Result.bind_eq_ok h
    obtain ⟨second, hs, h⟩ := Result.bind_eq_ok h
    cases h
    have deeper : least ≤ depth + 1 := Nat.le_succ_of_le deep
    have behind := hP.append (hP.write deeper b hs) (hP.closing deep (by decide : ']' ∈ signs))
    have inside := hP.append (hP.write deeper a hf)
      (hP.cons (by decide : ',' ∈ signs) (hP.append (hP.newLine _ deeper) behind))
    simpa only [List.append_assoc, List.cons_append] using
      hP.cons (by decide : '[' ∈ signs) (hP.append (hP.newLine _ deeper) inside)
  | .map [], cs, h => by
    rw [Json.write] at h
    cases h
    exact hP.cons (by decide) (hP.sign _ (by decide))
  | .map ((k, v) :: rest), cs, h => by
    rw [Json.write] at h
    obtain ⟨key, hk, h⟩ := Result.bind_eq_ok h
    obtain ⟨first, hf, h⟩ := Result.bind_eq_ok h
    obtain ⟨others, ho, h⟩ := Result.bind_eq_ok h
    cases h
    have deeper : least ≤ depth + 1 := Nat.le_succ_of_le deep
    have inside := hP.append (hP.write deeper v hf) (hP.append (hP.members deeper rest ho)
      (hP.closing deep (by decide : '\x7d' ∈ signs)))
    simpa only [List.append_assoc, List.cons_append] using
      hP.cons (by decide : '\x7b' ∈ signs) (hP.append (hP.newLine _ deeper) (hP.member hk inside))
  | .loop, cs, h => by
    rw [Json.write] at h
    cases h

/-- The same of the further items of a list. -/
theorem items (hP : Composes least P) {depth : Nat} (deep : least ≤ depth) :
    ∀ (vs : List Value) {cs : List Char}, writeItems depth vs = .ok cs → P cs
  | [], cs, h => by
    rw [writeItems] at h
    cases h
    exact hP.nil
  | v :: rest, cs, h => by
    rw [writeItems] at h
    obtain ⟨first, hf, h⟩ := Result.bind_eq_ok h
    obtain ⟨others, ho, h⟩ := Result.bind_eq_ok h
    cases h
    have inside := hP.append (hP.write deep v hf) (hP.items deep rest ho)
    simpa only [List.append_assoc, List.cons_append] using
      hP.cons (by decide : ',' ∈ signs) (hP.append (hP.newLine _ deep) inside)

/-- The same of the further members of an object. -/
theorem members (hP : Composes least P) {depth : Nat} (deep : least ≤ depth) :
    ∀ (ms : List (Scalar × Value)) {cs : List Char}, writeMembers depth ms = .ok cs → P cs
  | [], cs, h => by
    rw [writeMembers] at h
    cases h
    exact hP.nil
  | (k, v) :: rest, cs, h => by
    rw [writeMembers] at h
    obtain ⟨key, hk, h⟩ := Result.bind_eq_ok h
    obtain ⟨first, hf, h⟩ := Result.bind_eq_ok h
    obtain ⟨others, ho, h⟩ := Result.bind_eq_ok h
    cases h
    have inside := hP.append (hP.write deep v hf) (hP.members deep rest ho)
    simpa only [List.append_assoc, List.cons_append] using
      hP.cons (by decide : ',' ∈ signs) (hP.append (hP.newLine _ deep) (hP.member hk inside))

end

end Composes

/-! ## New lines -/

/-- Line feeds are the only control characters of a text. -/
def HasPlainLines (cs : List Char) : Prop := ∀ c ∈ cs, c = '\n' ∨ ' ' ≤ c

instance (cs : List Char) : Decidable (HasPlainLines cs) :=
  List.decidableBAll (fun c => c = '\n' ∨ ' ' ≤ c) cs

theorem HasPlainLines.append {xs ys : List Char} (hx : HasPlainLines xs) (hy : HasPlainLines ys) :
    HasPlainLines (xs ++ ys) := List.forall_mem_append.2 ⟨hx, hy⟩

/-- Behind each line feed of a text stand two spaces. -/
def IsIndented (cs : List Char) : Prop := ∀ xs ys, cs = xs ++ '\n' :: ys → [' ', ' '] <+: ys

theorem HasNoControls.isIndented {cs : List Char} (h : HasNoControls cs) : IsIndented cs := by
  rintro xs ys rfl
  exact absurd (List.mem_append_right xs List.mem_cons_self) h.newline_notMem

theorem IsIndented.append {xs ys : List Char} (hx : IsIndented xs) (hy : IsIndented ys) :
    IsIndented (xs ++ ys) := by
  intro as bs h
  rcases List.append_eq_append_iff.1 h with ⟨cs, -, inside⟩ | ⟨cs, inside, behind⟩
  · exact hy cs bs inside
  · cases cs with
    | nil => exact hy [] bs behind.symm
    | cons c cs =>
      obtain ⟨rfl, rfl⟩ := List.cons.inj behind
      exact (hx as cs inside).trans (List.prefix_append cs ys)

theorem IsIndented.of_append {xs ys : List Char} (h : IsIndented (xs ++ ys)) : IsIndented ys := by
  rintro as bs rfl
  exact h (xs ++ as) bs (List.append_assoc ..).symm

/-- A new line below the top is filled with spaces. -/
theorem isIndented_newLine (depth : Nat) : IsIndented (newLine (depth + 1)) := by
  have spaces : HasNoControls (List.replicate (2 * (depth + 1)) ' ') :=
    hasNoControls_replicate _ (by decide)
  intro xs ys h
  cases xs with
  | nil =>
    obtain ⟨-, rfl⟩ := List.cons.inj h
    rw [Nat.mul_succ, Nat.add_comm, List.replicate_add]
    exact List.prefix_append _ _
  | cons c cs =>
    obtain ⟨-, inside⟩ := List.cons.inj h
    exact spaces.isIndented cs ys inside

theorem composes_isIndented : Composes 1 IsIndented where
  nil := HasNoControls.isIndented (List.forall_mem_nil _)
  string cs := (hasNoControls_writeString cs).isIndented
  scalar s := (hasNoControls_writeScalar s).isIndented
  sign c mem := (hasNoControls_sign mem).isIndented
  newLine depth deep := by
    obtain ⟨k, rfl⟩ := Nat.exists_eq_add_of_le' deep
    exact isIndented_newLine k
  append := IsIndented.append

theorem composes_hasPlainLines : Composes 0 HasPlainLines where
  nil := List.forall_mem_nil _
  string cs := fun c mem => .inr (hasNoControls_writeString cs c mem)
  scalar s := fun c mem => .inr (hasNoControls_writeScalar s c mem)
  sign c mem := fun d mem' => .inr (hasNoControls_sign mem d mem')
  newLine depth _ :=
    have spaces := hasNoControls_replicate (2 * depth) (c := ' ') (by decide)
    List.forall_mem_cons.2 ⟨.inl rfl, fun c mem => .inr (spaces c mem)⟩
  append := HasPlainLines.append

/-- **The text of a value has no control characters but line feeds.** -/
theorem hasPlainLines_of_render {v : Value} {text : String} (h : render v = .ok text) :
    HasPlainLines text.toList := by
  obtain ⟨cs, hw, rfl⟩ := Result.map_eq_ok h
  rw [String.toList_ofList]
  exact composes_hasPlainLines.write (Nat.zero_le 0) v hw

/-! ## Lines -/

/-- Two spaces at the front of a text stand in its first line. -/
theorem prefix_of_prefix_append {line rest : List Char}
    (h : [' ', ' '] <+: line ++ '\n' :: rest) : [' ', ' '] <+: line := by
  rcases line with _ | ⟨c, _ | ⟨d, more⟩⟩
  · exact absurd (List.cons_prefix_cons.1 h).1 (by decide)
  · obtain ⟨-, h⟩ := List.cons_prefix_cons.1 h
    exact absurd (List.cons_prefix_cons.1 h).1 (by decide)
  · obtain ⟨first, h⟩ := List.cons_prefix_cons.1 h
    obtain ⟨second, -⟩ := List.cons_prefix_cons.1 h
    rw [← first, ← second]
    exact List.prefix_append [' ', ' '] more

/-- Behind a line feed every line of an indented text starts with two spaces. -/
theorem IsIndented.forall_mem {lines : List (List Char)}
    (h : IsIndented ('\n' :: ['\n'].intercalate lines)) :
    ∀ line ∈ lines, [' ', ' '] <+: line := by
  induction lines with
  | nil => exact List.forall_mem_nil _
  | cons line rest ih =>
    cases rest with
    | nil =>
      rw [List.intercalate_singleton] at h
      exact List.forall_mem_singleton.2 (h [] line rfl)
    | cons next more =>
      rw [List.intercalate_cons_cons, List.append_assoc, List.singleton_append] at h
      have behind : IsIndented ('\n' :: ['\n'].intercalate (next :: more)) := by
        rw [← List.cons_append] at h
        exact h.of_append
      exact List.forall_mem_cons.2 ⟨prefix_of_prefix_append (h [] _ rfl), ih behind⟩

/-- The text of a record is a pair of braces, or there are lines between them. -/
theorem write_record_cases {fields : List (String × Value)} {cs : List Char}
    (h : write 0 (.record fields) = .ok cs) :
    cs = ['\x7b', '\x7d'] ∨
      ∃ inside, cs = '\x7b' :: '\n' :: inside ++ ['\n', '\x7d'] ∧ IsIndented ('\n' :: inside) := by
  cases fields with
  | nil =>
    rw [Value.record, List.map_nil, write] at h
    cases h
    exact .inl rfl
  | cons f fs =>
    have hP := composes_isIndented
    rw [Value.record, List.map_cons, write] at h
    obtain ⟨key, hk, h⟩ := Result.bind_eq_ok h
    obtain ⟨first, hf, h⟩ := Result.bind_eq_ok h
    obtain ⟨others, ho, h⟩ := Result.bind_eq_ok h
    cases h
    refine .inr ⟨List.replicate 2 ' ' ++ key ++ ':' :: ' ' :: first ++ others, ?_, ?_⟩
    · simp [newLine]
    · have values := hP.append (hP.write (Nat.le_refl 1) _ hf) (hP.members (Nat.le_refl 1) _ ho)
      simpa [newLine] using (isIndented_newLine 0).append (hP.member hk values)

/-- A line of the text of a record: its braces, or one that starts with two spaces. -/
def IsRecordLine (line : List Char) : Prop :=
  line = ['\x7b', '\x7d'] ∨ line = ['\x7b'] ∨ line = ['\x7d'] ∨ [' ', ' '] <+: line

/-- **The lines of the text of a record** are its braces and, between them, lines that start with
two spaces. -/
theorem isRecordLine_of_render {fields : List (String × Value)} {text : String}
    (h : render (.record fields) = .ok text) :
    ∀ line ∈ text.toList.splitOn '\n', IsRecordLine line := by
  obtain ⟨cs, hw, rfl⟩ := Result.map_eq_ok h
  rw [String.toList_ofList]
  rcases write_record_cases hw with rfl | ⟨inside, rfl, indented⟩
  · have whole : List.splitOn '\n' ['\x7b', '\x7d'] = [['\x7b', '\x7d']] := by decide
    rw [whole]
    exact List.forall_mem_singleton.2 (.inl rfl)
  · have brace : List.splitOn '\n' ['\x7d'] = [['\x7d']] := by decide
    have cut : '\x7b' :: '\n' :: inside ++ ['\n', '\x7d'] =
        ['\x7b'] ++ '\n' :: (inside ++ '\n' :: ['\x7d']) := rfl
    have within : ∀ line ∈ inside.splitOn '\n', [' ', ' '] <+: line := by
      refine IsIndented.forall_mem ?_
      rwa [List.intercalate_splitOn]
    rw [cut, List.splitOn_append_cons_self_of_not_mem (by decide),
      List.splitOn_append_cons_self, brace]
    refine List.forall_mem_cons.2 ⟨.inr (.inl rfl), List.forall_mem_append.2 ⟨?_, ?_⟩⟩
    · exact fun line mem => .inr (.inr (.inr (within line mem)))
    · exact List.forall_mem_singleton.2 (.inr (.inr (.inl rfl)))

/-- The characters with which a line of a JSON text starts. -/
def opensLine (c : Char) : Bool := c ∈ [' ', '[', ']', '\x7b', '\x7d']

/-- Every line of the text of a record starts with a space or a bracket. -/
theorem opensLine_of_record {fields : List (String × Value)} {text : String}
    (h : render (.record fields) = .ok text) {line : List Char} {c : Char}
    (mem : line ∈ text.toList.splitOn '\n') (first : line.head? = some c) :
    opensLine c = true := by
  rcases isRecordLine_of_render h line mem with rfl | rfl | rfl | ⟨rest, rfl⟩
  all_goals
    cases first
    decide

end Json
end ApiManual
