import ApiManual.Proofs.Json.AsYaml.Gaps
import ApiManual.Proofs.Json.AsYaml.Numbers
import ApiManual.Proofs.Yaml.Escapes

/-!
# The tokens of a JSON text

The YAML scanner cuts a JSON text into the tokens that its syntax tree says
(`tokens_of_document`).

Before each token the scanner forgets keys that have gone stale and goes over white
space; what it does then depends on one character.  So reading a text is a chain of such
rounds (`Reads`), and there is one lemma for each sign.  Inside brackets no key is ever
required, and no block collection is open (`Holds`); so the keys that may still be
pending elsewhere do not matter, and the only one that does is the name of a member,
which has to be there when its colon is read.
-/

namespace ApiManual
namespace Yaml

open Descriptor (unifiedLines)
open Json (Pieces Tree Items Members Gap Document)

/-! ## The tokens of a tree -/

mutual

/-- The tokens of a value. -/
def treeTokens : Tree → List TokenKind
  | .atom a => [.scalar (atomText a) (atomIsPlain a)]
  | .emptyList _ => [.flowSequenceStart, .flowSequenceEnd]
  | .list items => .flowSequenceStart :: itemsTokens items
  | .emptyObject _ => [.flowMappingStart, .flowMappingEnd]
  | .object members => .flowMappingStart :: membersTokens members

/-- The tokens of items, with the end of the list. -/
def itemsTokens : Items → List TokenKind
  | .last _ item _ => treeTokens item ++ [.flowSequenceEnd]
  | .more _ item _ rest => treeTokens item ++ .flowEntry :: itemsTokens rest

/-- The tokens of members, with the end of the object. -/
def membersTokens : Members → List TokenKind
  | .last _ key _ _ value _ =>
    .key :: .scalar key.text false :: .value :: treeTokens value ++ [.flowMappingEnd]
  | .more _ key _ _ value _ rest =>
    .key :: .scalar key.text false :: .value :: treeTokens value ++ .flowEntry :: membersTokens rest

end

namespace Scan

/-! ## States inside brackets -/

/-- What has been read of a text outside of all block collections: the tokens so far, and
how many brackets are open. -/
structure Holds (s : Scan) (ks : List TokenKind) (depth : Nat) : Prop where
  kinds : s.taken.reverse.map Token.kind = ks
  count : s.count = s.taken.length
  unfinished : s.isFinished = false
  indents : s.indents = []
  free : ∀ k, some k ∈ s.key :: s.outerKeys → k.required = false
  depth : s.outerKeys.length = depth

/-- The scan has come to a text, up to white space. -/
def At (s : Scan) (r : List Char) : Prop := s.cursor.rest.dropWhile isFiller = front r

/-- A scan without the keys that have gone stale. -/
def withoutStale (s : Scan) : Scan :=
  let fresh := Option.filter fun k => !s.isStale k
  { s with key := fresh s.key, outerKeys := s.outerKeys.map fresh }

/-- Before a token is read, stale keys are forgotten and white space is passed over. -/
structure Comes (s t : Scan) : Prop where
  comes : ∃ s₁ s₂, s.dropStale = .ok s₁ ∧
    (s₁.skipByteOrderMark.skipGaps
      (s₁.skipByteOrderMark.cursor.rest.length + 1)).dropStale = .ok s₂ ∧
    s₂.closeTo s₂.cursor.column = t

theorem run_finished {s : Scan} (finished : s.isFinished = true) (fuel : Nat) :
    s.run (fuel + 1) = ⟨s.taken.reverse, .malformed⟩ := by rw [run_succ, if_pos finished]

/-- A text is read by going to the next token and reading it, again and again. -/
theorem run_of_comes {s t u : Scan} (unfinished : s.isFinished = false) (h : Comes s t)
    (token : t.token = .ok u) (fuel : Nat) : s.run (fuel + 1) = u.run fuel := by
  obtain ⟨s₁, s₂, fresh, again, rfl⟩ := h.comes
  have step : s₁.step = .ok u := by
    simp only [Scan.step, again, bind, Except.bind]
    exact token
  rw [run_succ, unfinished, fresh]
  simp only [step, Bool.false_eq_true, if_false]

/-- Some tokens have been read. -/
inductive Reads : Scan → Scan → Prop
  | refl (s : Scan) : Reads s s
  | step {s t u v : Scan} (unfinished : s.isFinished = false) (comes : Comes s t)
      (token : t.token = .ok u) (less : u.cursor.rest.length < s.cursor.rest.length)
      (more : Reads u v) : Reads s v

namespace Reads

theorem trans {s u v : Scan} (first : Reads s u) (second : Reads u v) : Reads s v := by
  induction first with
  | refl => exact second
  | step unfinished comes token less _ ih => exact .step unfinished comes token less (ih second)

/-- Every token takes something of the text, so its length bounds their number. -/
theorem run_eq {s v : Scan} (h : Reads s v) {fuel : Nat} {k : Nat}
    (enough : s.cursor.rest.length + k ≤ fuel) :
    ∃ fuel', v.cursor.rest.length + k ≤ fuel' ∧ s.run fuel = v.run fuel' := by
  induction h generalizing fuel with
  | refl => exact ⟨fuel, enough, rfl⟩
  | step unfinished comes token less _ ih =>
    obtain ⟨fuel, rfl⟩ : ∃ n, fuel = n + 1 := ⟨fuel - 1, by omega⟩
    obtain ⟨fuel', enough', same⟩ := ih (show _ ≤ fuel by omega)
    exact ⟨fuel', enough', (run_of_comes unfinished comes token fuel).trans same⟩

end Reads

/-! ## Coming to a token -/

section

variable {s : Scan} {ks : List TokenKind} {depth : Nat}

theorem dropStale_eq (h : Holds s ks depth) : s.dropStale = .ok s.withoutStale := by
  have none : (s.keys.any fun k => s.isStale k && k.required) = false := by
    simp only [List.any_eq_false, Bool.and_eq_true, not_and, keys]
    intro k mem _
    obtain ⟨o, mem, rfl⟩ := List.mem_filterMap.mp mem
    simp [h.free k mem]
  simp only [dropStale, none]
  rfl

theorem Holds.withoutStale (h : Holds s ks depth) : Holds s.withoutStale ks depth := by
  refine ⟨h.kinds, h.count, h.unfinished, h.indents, fun k mem => h.free k ?_, ?_⟩
  · simp only [Scan.withoutStale, List.mem_cons, List.mem_map] at mem ⊢
    obtain mem | ⟨o, mem, kept⟩ := mem
    · exact .inl (Option.filter_eq_some_iff.mp mem.symm).1.symm
    · exact .inr (by rwa [(Option.filter_eq_some_iff.mp kept).1] at mem)
  · simpa [Scan.withoutStale] using h.depth

theorem Holds.moved (h : Holds s ks depth) (c : Cursor) (allowed : Bool) :
    Holds { s with cursor := c, keyAllowed := allowed } ks depth :=
  ⟨h.kinds, h.count, h.unfinished, h.indents, h.free, h.depth⟩

theorem closeTo_eq (h : Holds s ks depth) (column : Int) : s.closeTo column = s := by
  unfold closeTo
  split
  · rfl
  · obtain ⟨cursor, taken, count, indents, allowed, key, outer⟩ := s
    obtain rfl : indents = [] := h.indents
    rfl

theorem skipByteOrderMark_eq (h : s.cursor.peek ≠ '\ufeff') : s.skipByteOrderMark = s :=
  if_neg (by simp [h])

/-- A token is come to over the white space before it.  Keys that are still fresh there stay. -/
theorem exists_comes (h : Holds s ks depth) {g r : List Char} (left : s.cursor.rest = g ++ r)
    (filler : ∀ x ∈ g, isFiller x = true) (stop : EndsGap (r.headD endChar))
    (noMark : r.head? ≠ some '\ufeff') :
    ∃ t, Comes s t ∧ Holds t ks depth ∧ t.cursor = s.cursor.skip g.length ∧
      (s.keyAllowed = true → t.keyAllowed = true) ∧
      ∀ k ∈ s.key, s.isStale k = false → t.isStale k = false → t.key = some k := by
  have noMark : s.withoutStale.cursor.peek ≠ '\ufeff' := by
    show s.cursor.rest.headD endChar ≠ _
    rw [left]
    cases g with
    | nil =>
      cases r with
      | nil => decide
      | cons x rest => simpa using noMark
    | cons x g =>
      obtain rfl | rfl : x = ' ' ∨ x = '\n' := by simpa [isFiller] using filler x (by simp)
      · exact (by decide : ' ' ≠ '\ufeff')
      · exact (by decide : '\n' ≠ '\ufeff')
  have left' : s.withoutStale.cursor.rest = g ++ r := left
  have enough : g.length < s.withoutStale.cursor.rest.length + 1 := by
    rw [left', List.length_append]
    omega
  obtain ⟨allowed, skipped, kept⟩ := skipGaps_eq filler stop enough left'
  have passed : Holds { s.withoutStale with
      cursor := s.withoutStale.cursor.skip g.length, keyAllowed := allowed } ks depth :=
    h.withoutStale.moved _ allowed
  refine ⟨withoutStale _, ⟨s.withoutStale, withoutStale _, dropStale_eq h, ?_,
    closeTo_eq passed.withoutStale _⟩, passed.withoutStale, rfl, kept, ?_⟩
  · rw [skipByteOrderMark_eq noMark, skipped]
    exact dropStale_eq passed
  · intro k mem fresh fresh'
    have first : s.withoutStale.key = some k :=
      Option.filter_eq_some_iff.mpr ⟨mem, by simp [fresh]⟩
    exact Option.filter_eq_some_iff.mpr ⟨first, (Bool.not_eq_true' _).mpr fresh'⟩

theorem dropKey_eq (h : Holds s ks depth) : s.dropKey = .ok { s with key := none } := by
  unfold dropKey
  split
  · rename_i k eq
    simp [h.free k (by simp [eq])]
  · rename_i eq
    rw [← eq]

theorem Holds.withKey (h : Holds s ks depth) {key : Option PossibleKey}
    (free : ∀ k ∈ key, k.required = false) : Holds { s with key } ks depth := by
  refine ⟨h.kinds, h.count, h.unfinished, h.indents, fun k mem => ?_, h.depth⟩
  obtain rfl | mem := List.mem_cons.mp mem
  · exact free k rfl
  · exact h.free k (List.mem_cons_of_mem _ mem)

/-- Noting a possible key never makes one that is required. -/
theorem exists_noteKey (h : Holds s ks depth) :
    ∃ key, s.noteKey = .ok { s with key } ∧ (∀ k ∈ key, k.required = false) ∧
      (s.keyAllowed = true → key = some ⟨s.count, false, s.cursor.index, s.cursor.mark⟩) := by
  unfold noteKey
  split
  · rename_i allowed
    have notRequired : (!s.inFlow && s.indent == s.cursor.column) = false := by
      have : s.indent = -1 := by simp [indent, h.indents]
      have : (s.indent == (s.cursor.column : Int)) = false := by
        rw [beq_eq_false_iff_ne]
        omega
      rw [this, Bool.and_false]
    refine ⟨some ⟨s.count, false, s.cursor.index, s.cursor.mark⟩, ?_, by simp, fun _ => rfl⟩
    rw [dropKey_eq h]
    exact congrArg (fun required => Except.ok (ε := ScanFault)
      { s with key := some ⟨s.count, required, s.cursor.index, s.cursor.mark⟩ }) notRequired
  · rename_i notAllowed
    exact ⟨s.key, rfl, fun k mem => h.free k (by simp [Option.mem_def.mp mem]),
      fun allowed => absurd allowed notAllowed⟩

/-- A token that is pushed is the last one. -/
theorem Holds.pushTo (h : Holds s ks depth) {kind : TokenKind} (noEnd : kind ≠ .streamEnd)
    (after : Cursor) : Holds (s.pushTo kind after) (ks ++ [kind]) depth := by
  refine ⟨?_, ?_, ?_, h.indents, h.free, h.depth⟩
  · simp [Scan.pushTo, push, ← h.kinds]
  · simp [Scan.pushTo, push, h.count]
  · simp [Scan.pushTo, push, isFinished, noEnd]

end

/-! ## The signs -/

section

variable {s : Scan}

theorem token_listStart (h : s.cursor.peek = '[') : s.token = s.openFlow .flowSequenceStart := by
  simp only [token, h]

theorem token_objectStart (h : s.cursor.peek = '\x7b') :
    s.token = s.openFlow .flowMappingStart := by
  simp only [token, h]

theorem token_listEnd (h : s.cursor.peek = ']') : s.token = s.closeFlow .flowSequenceEnd := by
  simp only [token, h]

theorem token_objectEnd (h : s.cursor.peek = '\x7d') : s.token = s.closeFlow .flowMappingEnd := by
  simp only [token, h]

theorem token_comma (h : s.cursor.peek = ',') : s.token = s.flowEntry := by
  simp only [token, h]

theorem token_quote (h : s.cursor.peek = '"') : s.token = s.maybeKey (quoted true) := by
  simp only [token, h]

theorem token_colon {r : List Char} (left : s.cursor.rest = ':' :: r) (inFlow : s.inFlow = true) :
    s.token = s.keyValue := by
  have peek : s.cursor.peek = ':' := Cursor.peek_cons left
  have noSeparator := s.cursor.atSeparator_eq_false left (by decide) (by decide)
  simp [token, peek, inFlow, noSeparator]

theorem token_end (h : s.cursor.peek = '\x00') :
    s.token = (do return (← s.closeAll).pushAt .streamEnd s.cursor.mark) := by
  simp only [token, h]

end

section

variable {s : Scan} {ks : List TokenKind} {depth : Nat} {r : List Char}

/-- The characters at which tokens start are no white space of either kind. -/
structure StartsToken (x : Char) : Prop where
  noSpace : Json.isSpace x = false
  endsGap : EndsGap x
  noMark : x ≠ '\ufeff'

theorem StartsToken.of_checks {x : Char}
    (h : Json.isSpace x = false ∧ (x ≠ ' ' ∧ x ≠ '#' ∧ isBreak x = false) ∧ x ≠ '\ufeff') :
    StartsToken x :=
  ⟨h.1, ⟨h.2.1.1, h.2.1.2.1, h.2.1.2.2⟩, h.2.2⟩

/-- The scan comes to a token over the white space before it. -/
theorem exists_comes_of_at {x : Char} {w : List Char} (h : Holds s ks depth)
    (here : s.At (x :: w ++ r)) (starts : StartsToken x) (noReturn : ∀ c ∈ w, c ≠ '\r') :
    ∃ t, Comes s t ∧ Holds t ks depth ∧ t.cursor.rest = x :: w ++ unifiedLines r ∧
      (s.keyAllowed = true → t.keyAllowed = true) ∧
      t.cursor.rest.length ≤ s.cursor.rest.length := by
  rw [At, List.cons_append, front_cons starts.noSpace, unifiedLines_append noReturn] at here
  have left : s.cursor.rest = s.cursor.rest.takeWhile isFiller ++ (x :: w ++ unifiedLines r) := by
    rw [List.cons_append, ← here, List.takeWhile_append_dropWhile]
  obtain ⟨t, comes, holds, place, allowed, -⟩ := exists_comes h left
    (fun _ mem => List.mem_takeWhile_imp mem) starts.endsGap (by simpa using starts.noMark)
  exact ⟨t, comes, holds, by rw [place, Cursor.rest_skip_append left], allowed,
    by rw [place]; simp⟩

theorem Holds.inFlow (h : Holds s ks (depth + 1)) : s.inFlow = true := by
  have : s.outerKeys ≠ [] := by
    intro none
    have := h.depth
    simp [none] at this
  simpa [Scan.inFlow] using this

/-- One token has been read, and the scan stands behind it. -/
theorem exists_reads {t u : Scan} {kind : TokenKind} {ks' : List TokenKind} {after : Cursor}
    (unfinished : s.isFinished = false) (comes : Comes s t)
    (shorter : t.cursor.rest.length ≤ s.cursor.rest.length) (holds : Holds u ks' depth)
    (noEnd : kind ≠ .streamEnd) (token : t.token = .ok (u.pushTo kind after))
    (less : after.rest.length < t.cursor.rest.length)
    (behind : after.rest.dropWhile isFiller = front r) :
    Reads s (u.pushTo kind after) ∧ Holds (u.pushTo kind after) (ks' ++ [kind]) depth ∧
      (u.pushTo kind after).At r :=
  ⟨.step unfinished comes token (Nat.lt_of_lt_of_le less shorter) (.refl _), holds.pushTo noEnd _,
    behind⟩

/-- A sign of one character has been read. -/
theorem exists_reads_sign {x : Char} {t u : Scan} {kind : TokenKind} {ks' : List TokenKind}
    (unfinished : s.isFinished = false) (comes : Comes s t)
    (left : t.cursor.rest = x :: unifiedLines r)
    (shorter : t.cursor.rest.length ≤ s.cursor.rest.length) (holds : Holds u ks' depth)
    (noEnd : kind ≠ .streamEnd) (place : u.cursor = t.cursor)
    (token : t.token = .ok (u.pushSign kind 1)) :
    Reads s (u.pushSign kind 1) ∧ Holds (u.pushSign kind 1) (ks' ++ [kind]) depth ∧
      (u.pushSign kind 1).At r := by
  have behind : (u.cursor.skip 1).rest = unifiedLines r := by simp [place, left]
  refine exists_reads unfinished comes shorter holds noEnd token ?_ ?_
  · rw [behind, left]
    exact Nat.lt_succ_self _
  · rw [behind]
    rfl

/-- Brackets that open. -/
theorem reads_start {x : Char} {kind : TokenKind} (h : Holds s ks depth) (here : s.At (x :: r))
    (sign : x = '[' ∧ kind = .flowSequenceStart ∨ x = '\x7b' ∧ kind = .flowMappingStart) :
    ∃ u, Reads s u ∧ Holds u (ks ++ [kind]) (depth + 1) ∧ u.At r ∧ u.keyAllowed = true := by
  have starts : StartsToken x := by
    obtain ⟨rfl, -⟩ | ⟨rfl, -⟩ := sign <;> exact .of_checks (by decide)
  obtain ⟨t, comes, holds, left, -, shorter⟩ :=
    exists_comes_of_at (w := []) h here starts (by simp)
  have token : t.token = t.openFlow kind := by
    obtain ⟨rfl, rfl⟩ | ⟨rfl, rfl⟩ := sign
    · exact token_listStart (Cursor.peek_cons left)
    · exact token_objectStart (Cursor.peek_cons left)
  obtain ⟨key, noted, free, -⟩ := exists_noteKey holds
  have opened : Holds { t with keyAllowed := true, key := none, outerKeys := key :: t.outerKeys } ks
      (depth + 1) := by
    refine ⟨holds.kinds, holds.count, holds.unfinished, holds.indents, fun k mem => ?_,
      by simpa using holds.depth⟩
    simp only [List.mem_cons, reduceCtorEq, false_or] at mem
    obtain eq | mem := mem
    · exact free k eq.symm
    · exact holds.free k (List.mem_cons_of_mem _ mem)
  have noEnd : kind ≠ .streamEnd := by obtain ⟨-, rfl⟩ | ⟨-, rfl⟩ := sign <;> decide
  obtain ⟨reads, pushed, behind⟩ := exists_reads_sign h.unfinished comes left shorter opened
    noEnd rfl (by rw [token, openFlow, noted]; rfl)
  exact ⟨_, reads, pushed, behind, rfl⟩

/-- Brackets that close. -/
theorem reads_end {x : Char} {kind : TokenKind} (h : Holds s ks (depth + 1)) (here : s.At (x :: r))
    (sign : x = ']' ∧ kind = .flowSequenceEnd ∨ x = '\x7d' ∧ kind = .flowMappingEnd) :
    ∃ u, Reads s u ∧ Holds u (ks ++ [kind]) depth ∧ u.At r := by
  have starts : StartsToken x := by
    obtain ⟨rfl, -⟩ | ⟨rfl, -⟩ := sign <;> exact .of_checks (by decide)
  obtain ⟨t, comes, holds, left, -, shorter⟩ :=
    exists_comes_of_at (w := []) h here starts (by simp)
  have token : t.token = t.closeFlow kind := by
    obtain ⟨rfl, rfl⟩ | ⟨rfl, rfl⟩ := sign
    · exact token_listEnd (Cursor.peek_cons left)
    · exact token_objectEnd (Cursor.peek_cons left)
  obtain ⟨o, outer, eq⟩ := List.exists_cons_of_length_eq_add_one holds.depth
  have closed : Holds { t with keyAllowed := false, key := o, outerKeys := outer } ks depth := by
    refine ⟨holds.kinds, holds.count, holds.unfinished, holds.indents, fun k mem => ?_, ?_⟩
    · exact holds.free k (List.mem_cons_of_mem _ (by simpa [eq] using mem))
    · simpa [eq] using holds.depth
  have noEnd : kind ≠ .streamEnd := by obtain ⟨-, rfl⟩ | ⟨-, rfl⟩ := sign <;> decide
  obtain ⟨reads, pushed, behind⟩ := exists_reads_sign h.unfinished comes left shorter closed
    noEnd rfl (by rw [token, closeFlow, dropKey_eq holds, eq]; rfl)
  exact ⟨_, reads, pushed, behind⟩

/-- The comma between items. -/
theorem reads_comma (h : Holds s ks depth) (here : s.At (',' :: r)) :
    ∃ u, Reads s u ∧ Holds u (ks ++ [.flowEntry]) depth ∧ u.At r ∧ u.keyAllowed = true := by
  have starts : StartsToken ',' := .of_checks (by decide)
  obtain ⟨t, comes, holds, left, -, shorter⟩ :=
    exists_comes_of_at (w := []) h here starts (by simp)
  have noKey : ∀ k ∈ (none : Option PossibleKey), k.required = false := by simp
  have dropped : Holds { t with keyAllowed := true, key := none } ks depth :=
    (holds.withKey noKey).moved t.cursor true
  have noEnd : TokenKind.flowEntry ≠ .streamEnd := by decide
  obtain ⟨reads, pushed, behind⟩ := exists_reads_sign h.unfinished comes left shorter dropped
    noEnd rfl (by rw [token_comma (Cursor.peek_cons left), flowEntry, dropKey_eq holds]; rfl)
  exact ⟨_, reads, pushed, behind, rfl⟩

/-! ## Scalars -/

/-- A line end, or a carriage return. -/
def endsLine (c : Char) : Bool := isBreak c || c = '\r'

/-- What can be checked of five characters holds of every character that ends a line. -/
theorem forall_endsLine {P : Char → Prop} [DecidablePred P] {c : Char} (h : endsLine c = true)
    (all : ['\n', '\x85', '\u2028', '\u2029', '\r'].all fun d => P d) : P c :=
  List.all_iff_forall_prop.1 all c (by simpa [endsLine, isBreak, or_assoc] using h)

/-- A character that ends a line stands in a string only as itself. -/
theorem eq_raw_of_endsLine {p : Json.Piece} {c : Char} (mem : c ∈ p.chars)
    (ends : endsLine c = true) : ∃ plain, p = .raw c plain := by
  have noSlash : c ≠ '\\' := forall_endsLine (P := (· ≠ '\\')) ends (by decide)
  cases p with
  | raw x plain =>
    obtain rfl : c = x := by simpa [Json.Piece.chars] using mem
    exact ⟨plain, rfl⟩
  | letter x known =>
    obtain rfl : c = x := by simpa [Json.Piece.chars, noSlash] using mem
    have unknown : (Json.escape? c).isSome = false :=
      forall_endsLine (P := fun d => (Json.escape? d).isSome = false) ends (by decide)
    simp [unknown] at known
  | unit a b x d digits =>
    obtain ⟨n, eq⟩ := Option.isSome_iff_exists.mp digits
    have noU : c ≠ 'u' := forall_endsLine (P := (· ≠ 'u')) ends (by decide)
    have hex : c ∈ [a, b, x, d] := by simpa [Json.Piece.chars, noSlash, noU] using mem
    have noHex : (Text.hexValue? c).isSome = false :=
      forall_endsLine (P := fun d => (Text.hexValue? d).isSome = false) ends (by decide)
    exact absurd ((ofDigits?_codeUnit eq).2.1 c hex) (by simp [noHex])

/-- What ends a line in a string is a separator that stands for itself. -/
theorem isSeparator_of_endsLine {ps : Pieces} (isYaml : ps.isYaml = true) {c : Char}
    (mem : c ∈ ps.chars) (ends : endsLine c = true) :
    c ≠ '\r' ∧ ∃ p ∈ ps, p.isSeparator = true := by
  simp only [Pieces.isYaml, Bool.and_eq_true, List.all_eq_true] at isYaml
  have noQuote : c ≠ '"' := forall_endsLine (P := (· ≠ '"')) ends (by decide)
  obtain ⟨p, inside, mem⟩ : ∃ p ∈ ps, c ∈ p.chars := by
    simpa [Pieces.chars, Pieces.inside, noQuote] using mem
  obtain ⟨plain, rfl⟩ := eq_raw_of_endsLine mem ends
  have noNextLine : c ≠ '\x85' := by simpa [Json.Piece.isYaml] using isYaml.1.1 _ inside
  have low {y : Char} (below : ¬ ' ' ≤ y) : c ≠ y := by
    rintro rfl
    exact below plain.1
  have noReturn : c ≠ '\r' := low (by decide)
  have noLineFeed : c ≠ '\n' := low (by decide)
  refine ⟨noReturn, _, inside, ?_⟩
  simpa [endsLine, isBreak, Json.Piece.isSeparator, noReturn, noLineFeed, noNextLine] using ends

/-- There is no carriage return in a string. -/
theorem noReturn_string {ps : Pieces} (isYaml : ps.isYaml = true) : ∀ c ∈ ps.chars, c ≠ '\r' := by
  rintro c mem rfl
  exact (isSeparator_of_endsLine isYaml mem rfl).1 rfl

/-- No line ends in a string without separators. -/
theorem noBreak_string {ps : Pieces} (isYaml : ps.isYaml = true)
    (noSeparator : ∀ p ∈ ps, p.isSeparator = false) : ∀ c ∈ ps.chars, isBreak c = false := by
  intro c mem
  rw [Bool.eq_false_iff]
  intro isBreak
  have ends : endsLine c = true := by simp [endsLine, isBreak]
  obtain ⟨-, p, inside, separator⟩ := isSeparator_of_endsLine isYaml mem ends
  simp [noSeparator p inside] at separator

theorem quoted_pieces {ps : Pieces} (isYaml : ps.isYaml = true) {c : Cursor}
    (left : c.rest = ps.chars ++ r) :
    quoted true c = .ok (.scalar ps.text false, c.skip ps.chars.length) := by
  have read := Quoted.read_pieces isYaml left
  cases eq : Quoted.read true c with
  | error f => simp [eq, Except.map] at read
  | ok x =>
    obtain ⟨text, after⟩ : String.ofList x.1 = ps.text ∧ x.2 = c.skip ps.chars.length := by
      simpa [eq, Except.map] using read
    simp only [quoted, eq, bind, Except.bind, text, after]
    rfl

theorem token_plain (starts : Plain.startsAt true s.cursor = true)
    (noSeparator : s.cursor.atSeparator = false) (inFlow : s.inFlow = true) :
    s.token = s.plain := by
  simp only [token]
  split
  case h_12 =>
    have noPercent : s.cursor.peek ≠ '%' := fun peek =>
      absurd starts (by simp [Plain.startsAt, peek])
    have noQuestion : s.cursor.peek ≠ '?' := fun peek =>
      absurd starts (by simp [Plain.startsAt, peek])
    have noColon : s.cursor.peek ≠ ':' := fun peek =>
      absurd starts (by simp [Plain.startsAt, peek])
    have noDash : (s.cursor.peek = '-' && isGap (s.cursor.peekAt 1)) = false := by
      rw [Bool.eq_false_iff, Ne, Bool.and_eq_true, decide_eq_true_eq]
      rintro ⟨peek, gap⟩
      exact absurd starts (by simp [Plain.startsAt, peek, gap])
    simp [noPercent, noSeparator, noDash, noQuestion, noColon, inFlow, starts]
  all_goals
    rename_i peek
    exact absurd starts (by simp [Plain.startsAt, peek, isGap, isSpaceOrEnd, isBreakOrEnd, endChar])

/-- Scalars without quotes that are read as one word. -/
structure IsPlainWord (w : List Char) : Prop where
  bare : ∀ y ∈ w, IsBare y
  noReturn : ∀ y ∈ w, y ≠ '\r'
  starts : ∃ x w', w = x :: w' ∧ StartsToken x ∧
    ∀ (c : Cursor) (r : List Char), c.rest = w ++ r →
      Plain.startsAt true c = true ∧ c.atSeparator = false

theorem isBare_of_isNumberChar {y : Char} (h : Json.isNumberChar y = true) :
    IsBare y ∧ y ≠ '\r' := by
  have all : (isGap y = false ∧ y ≠ ':' ∧ Plain.endsInBrackets y = false ∧ y ≠ '#') ∧ y ≠ '\r' :=
    Json.forall_numberChar (P := fun y => (isGap y = false ∧ y ≠ ':' ∧
      Plain.endsInBrackets y = false ∧ y ≠ '#') ∧ y ≠ '\r') h (by decide) (by decide)
  obtain ⟨⟨noGap, noColon, noBracket, noComment⟩, noReturn⟩ := all
  exact ⟨⟨noGap, noColon, noBracket, noComment⟩, noReturn⟩

/-- The characters that start a word or a number without a sign. -/
def startsWord (x : Char) : Bool := Text.isAsciiDigit x || ['n', 't', 'f'].contains x

theorem mem_of_startsWord {x : Char} (h : startsWord x = true) :
    x ∈ ['0', '1', '2', '3', '4', '5', '6', '7', '8', '9'] ++ ['n', 't', 'f'] := by
  simp only [startsWord, Bool.or_eq_true, List.contains_iff_mem] at h
  exact List.mem_append.mpr (h.imp Text.mem_of_isAsciiDigit id)

theorem startsToken_of_startsWord {x : Char} (h : startsWord x = true) : StartsToken x := by
  have all : ∀ x ∈ ['0', '1', '2', '3', '4', '5', '6', '7', '8', '9'] ++ ['n', 't', 'f'],
      Json.isSpace x = false ∧ (x ≠ ' ' ∧ x ≠ '#' ∧ isBreak x = false) ∧ x ≠ '\ufeff' :=
    List.all_iff_forall_prop.1 (by decide)
  exact .of_checks (all x (mem_of_startsWord h))

/-- None of these characters is a sign of any kind. -/
theorem startsAt_of_startsWord {x : Char} (h : startsWord x = true) {c : Cursor} {r : List Char}
    (left : c.rest = x :: r) : Plain.startsAt true c = true ∧ c.atSeparator = false := by
  have peek : c.peek = x := Cursor.peek_cons left
  have mem := mem_of_startsWord h
  simp only [List.cons_append, List.nil_append, List.mem_cons, List.not_mem_nil, or_false] at mem
  constructor
  · obtain rfl | rfl | rfl | rfl | rfl | rfl | rfl | rfl | rfl | rfl | rfl | rfl | rfl := mem <;>
      simp [Plain.startsAt, peek, isGap, isSpaceOrEnd, isBreakOrEnd, isBreak, endChar]
  · refine c.atSeparator_eq_false left ?_ ?_ <;> rintro rfl <;> exact absurd h (by decide)

/-- A minus with a digit behind it is no sign either. -/
theorem startsAt_minus {d : Char} (h : Text.isAsciiDigit d = true) {c : Cursor} {r : List Char}
    (left : c.rest = '-' :: d :: r) : Plain.startsAt true c = true ∧ c.atSeparator = false := by
  have peek : c.peek = '-' := Cursor.peek_cons left
  have second : c.peekAt 1 = d := by simp [Cursor.peekAt, left]
  have noGap : isGap d = false := Text.forall_digit (P := fun d => isGap d = false) h (by decide)
  have noDash : '-' ≠ d := by
    rintro rfl
    exact absurd h (by decide)
  simp [Plain.startsAt, peek, second, noGap, Cursor.atSeparator, left, noDash]

theorem isPlainWord_number (n : Json.Number) : IsPlainWord n.chars := by
  refine ⟨fun y mem => (isBare_of_isNumberChar (n.areNumberChars y mem)).1,
    fun y mem => (isBare_of_isNumberChar (n.areNumberChars y mem)).2, ?_⟩
  obtain ⟨d, rest, eq, isDigit⟩ := n.whole.exists_cons
  have unsigned : n.unsigned = d :: (rest ++ (n.fractionChars ++ n.exponentChars)) := by
    simp [Json.Number.unsigned, eq]
  cases sign : n.negative with
  | true =>
    have chars : n.chars = '-' :: n.unsigned := by simp [Json.Number.chars, sign]
    refine ⟨'-', _, chars, .of_checks (by decide), ?_⟩
    exact fun c r left => startsAt_minus isDigit (by rw [left, chars, unsigned]; rfl)
  | false =>
    have chars : n.chars = n.unsigned := by simp [Json.Number.chars, sign]
    have starts : startsWord d = true := by simp [startsWord, isDigit]
    exact ⟨d, _, chars.trans unsigned, startsToken_of_startsWord starts, fun c r left =>
      startsAt_of_startsWord starts (by rw [left, chars, unsigned]; rfl)⟩

theorem isPlainWord_word (w : Json.Word) : IsPlainWord w.chars := by
  have bare : ∀ y ∈ w.chars, (isGap y = false ∧ y ≠ ':' ∧
      Plain.endsInBrackets y = false ∧ y ≠ '#') ∧ y ≠ '\r' :=
    List.all_iff_forall_prop.1 (by cases w <;> decide)
  refine ⟨fun y mem => ?_, fun y mem => (bare y mem).2, ?_⟩
  · obtain ⟨noGap, noColon, noBracket, noComment⟩ := (bare y mem).1
    exact ⟨noGap, noColon, noBracket, noComment⟩
  · cases w with
    | null =>
      exact ⟨'n', _, rfl, startsToken_of_startsWord rfl, fun _ _ => startsAt_of_startsWord rfl⟩
    | yes =>
      exact ⟨'t', _, rfl, startsToken_of_startsWord rfl, fun _ _ => startsAt_of_startsWord rfl⟩
    | no =>
      exact ⟨'f', _, rfl, startsToken_of_startsWord rfl, fun _ _ => startsAt_of_startsWord rfl⟩

theorem IsPlainWord.ne_nil {w : List Char} (word : IsPlainWord w) : w ≠ [] := by
  obtain ⟨x, w', rfl, -⟩ := word.starts
  simp

/-- What is behind a scalar inside brackets ends it. -/
def EndsScalar (r : List Char) : Prop := ∃ x r', front r = x :: r' ∧ EndsItem x

/-- A scalar without quotes. -/
theorem reads_plain {w : List Char} (word : IsPlainWord w) (h : Holds s ks (depth + 1))
    (here : s.At (w ++ r)) (ends : EndsScalar r) :
    ∃ u, Reads s u ∧ Holds u (ks ++ [.scalar (String.ofList w) true]) (depth + 1) ∧ u.At r := by
  obtain ⟨x, w', eq, starts, first⟩ := word.starts
  obtain ⟨t, comes, holds, left, -, shorter⟩ := exists_comes_of_at h (eq ▸ here) starts
    fun y mem => word.noReturn y (by simp [eq, mem])
  rw [← eq] at left
  obtain ⟨y, r', behind, ends⟩ := ends
  have split : unifiedLines r = (unifiedLines r).takeWhile isFiller ++ y :: r' := by
    rw [← behind, front, List.takeWhile_append_dropWhile]
  rw [split] at left
  obtain ⟨text, after⟩ := Plain.read_word word.ne_nil word.bare
    (fun _ mem => List.mem_takeWhile_imp mem) ends left t.indent
  have afterRest : (Plain.read true t.indent t.cursor).after.rest = y :: r' := by
    rw [after, Cursor.skip_add]
    exact Cursor.rest_skip_append (Cursor.rest_skip_append left)
  obtain ⟨startsAt, noSeparator⟩ := first t.cursor _ left
  obtain ⟨key, noted, free, -⟩ := exists_noteKey holds
  have marked : Holds
      { t with key, keyAllowed := (Plain.read true t.indent t.cursor).atLineStart } ks
      (depth + 1) := (holds.withKey free).moved t.cursor _
  have token : t.token = .ok ({ t with
      key, keyAllowed := (Plain.read true t.indent t.cursor).atLineStart }.pushTo
        (.scalar (String.ofList w) true) (Plain.read true t.indent t.cursor).after) := by
    have inFlow : { t with key }.inFlow = true := holds.inFlow
    rw [token_plain startsAt noSeparator holds.inFlow, plain, noted, ← text]
    simp only [bind, Except.bind, inFlow]
    rfl
  have less : (Plain.read true t.indent t.cursor).after.rest.length < t.cursor.rest.length := by
    have := List.length_pos_iff.mpr word.ne_nil
    rw [afterRest, left]
    simp only [List.length_append]
    omega
  have noFiller : isFiller y = false := by obtain rfl | rfl | rfl := ends <;> decide
  exact ⟨_, exists_reads h.unfinished comes shorter marked (by simp) token less
    (by rw [afterRest, behind, List.dropWhile_cons_of_neg (by simp [noFiller])])⟩

/-- A string has just been read on one line where a key may stand, so it may be one. -/
structure AwaitsColon (u : Scan) (ps : Pieces) : Prop where
  pending : ∃ k, u.key = some k ∧ k.position + 1 = u.count ∧
    u.cursor.index = k.index + ps.chars.length ∧ u.cursor.mark.line = k.mark.line

/-- A string, which may be a key where a key may stand and no line ends in it. -/
theorem reads_string {ps : Pieces} (isYaml : ps.isYaml = true) (h : Holds s ks depth)
    (here : s.At (ps.chars ++ r)) :
    ∃ u, Reads s u ∧ Holds u (ks ++ [.scalar ps.text false]) depth ∧
      u.cursor.rest = unifiedLines r ∧
      (s.keyAllowed = true → (∀ p ∈ ps, p.isSeparator = false) → AwaitsColon u ps) := by
  obtain ⟨t, comes, holds, left, allowed, shorter⟩ := exists_comes_of_at
    (w := ps.inside ++ ['"']) h here (.of_checks (by decide))
    fun y mem => noReturn_string isYaml y (List.mem_cons_of_mem _ mem)
  have left : t.cursor.rest = ps.chars ++ unifiedLines r := left
  obtain ⟨key, noted, free, noticed⟩ := exists_noteKey holds
  have marked : Holds { t with key, keyAllowed := false } ks depth :=
    (holds.withKey free).moved t.cursor _
  have behind : (t.cursor.skip ps.chars.length).rest = unifiedLines r :=
    Cursor.rest_skip_append left
  have token : t.token = .ok ({ t with key, keyAllowed := false }.pushTo
      (.scalar ps.text false) (t.cursor.skip ps.chars.length)) := by
    have peek : t.cursor.peek = '"' := Cursor.peek_cons left
    have read : quoted true { t with key }.cursor = _ := quoted_pieces isYaml left
    rw [token_quote peek, maybeKey, noted]
    simp only [bind, Except.bind, read]
    rfl
  have less : (t.cursor.skip ps.chars.length).rest.length < t.cursor.rest.length := by
    rw [behind, left]
    simp [Pieces.chars]
    omega
  obtain ⟨reads, pushed, -⟩ := exists_reads (r := r) h.unfinished comes shorter marked (by simp)
    token less (by rw [behind]; rfl)
  refine ⟨_, reads, pushed, behind, fun keyAllowed noSeparator => ?_⟩
  obtain ⟨index, line⟩ := Cursor.skip_place left (noBreak_string isYaml noSeparator)
  exact ⟨⟨t.count, false, t.cursor.index, t.cursor.mark⟩, noticed (allowed keyAllowed), rfl, index,
    line⟩

/-- The token that makes a key of the last one goes in front of it. -/
theorem Holds.insert {t : Scan} {kind : TokenKind} (h : Holds t (ks ++ [kind]) depth) (tok : Token)
    {position : Nat} (last : position + 1 = t.count) :
    Holds (t.insert position tok) (ks ++ [tok.kind, kind]) depth := by
  cases eq : t.taken with
  | nil => simpa [eq] using h.kinds
  | cons first others =>
    obtain ⟨kinds, same⟩ : others.reverse.map Token.kind = ks ∧ first.kind = kind := by
      have kinds := h.kinds
      rw [eq, List.reverse_cons, List.map_append] at kinds
      simpa using List.append_inj' kinds rfl
    have taken : (t.insert position tok).taken = first :: tok :: others := by
      have one : t.count - position = 1 := by omega
      simp [Scan.insert, one, eq]
    refine ⟨?_, ?_, ?_, h.indents, h.free, h.depth⟩
    · rw [taken]
      simp [kinds, same]
    · rw [taken]
      simp [Scan.insert, h.count, eq]
    · have unfinished := h.unfinished
      simp only [isFinished, eq] at unfinished
      simp only [isFinished, taken]
      exact unfinished

/-- A name with its colon is a key. -/
theorem reads_name {key : Pieces} {behindKey : Gap} (isKey : Json.isKey key behindKey = true)
    (h : Holds s ks (depth + 1)) (keyAllowed : s.keyAllowed = true)
    (here : s.At (key.chars ++ (behindKey.chars ++ ':' :: r))) :
    ∃ u, Reads s u ∧ Holds u (ks ++ [.key, .scalar key.text false, .value]) (depth + 1) ∧
      u.At r := by
  simp only [Json.isKey, Bool.and_eq_true, List.all_eq_true, Bool.not_eq_true',
    decide_eq_true_eq] at isKey
  obtain ⟨⟨⟨isYaml, noSeparator⟩, spaces⟩, near⟩ := isKey
  obtain ⟨u, reads, holds, left, awaits⟩ := reads_string isYaml h here
  obtain ⟨k, pending, position, index, line⟩ := (awaits keyAllowed noSeparator).pending
  have left : u.cursor.rest = behindKey.chars ++ ':' :: unifiedLines r := by
    rw [left, unifiedLines_append fun c mem => by rw [spaces c mem]; decide,
      unifiedLines_cons (by decide)]
  have colon : EndsGap ':' := ⟨by decide, by decide, by decide⟩
  have fresh : u.isStale k = false := by
    simp [isStale, line]
    omega
  obtain ⟨t, comes, holds', place, -, kept⟩ := exists_comes holds left
    (fun x mem => by simp [isFiller, spaces x mem]) colon (by simp)
  have stillFresh : t.isStale k = false := by
    obtain ⟨index', line'⟩ := Cursor.skip_place left fun y mem => by rw [spaces y mem]; decide
    simp [isStale, place, line', line, index']
    omega
  have pending := kept k pending fresh stillFresh
  have left' : t.cursor.rest = ':' :: unifiedLines r := by
    rw [place]
    exact Cursor.rest_skip_append left
  have count : k.position + 1 = t.count := by
    rw [position, holds.count, holds'.count, ← List.length_reverse, ← List.length_map Token.kind,
      holds.kinds, ← holds'.kinds]
    simp
  have made := holds'.insert ⟨.key, k.mark, k.mark⟩ count
  have noKey : ∀ k ∈ (none : Option PossibleKey), k.required = false := by simp
  have token : t.token = .ok ({ t.insert k.position ⟨.key, k.mark, k.mark⟩ with
      key := none, keyAllowed := false }.pushSign .value 1) := by
    rw [token_colon left' holds'.inFlow, keyValue, pending]
    simp only [makeKey, made.inFlow, Bool.not_true, Bool.false_and, Bool.false_eq_true, if_false]
  have shorter : t.cursor.rest.length ≤ u.cursor.rest.length := by
    rw [place]
    simp
  obtain ⟨reads', pushed, behind⟩ := exists_reads_sign holds.unfinished comes left' shorter
    ((made.withKey noKey).moved _ false) (by decide) rfl token
  exact ⟨_, reads.trans reads', by simpa using pushed, behind⟩

/-- An atom. -/
theorem reads_atom {a : Json.Atom} (isYaml : a.isYaml = true) (h : Holds s ks (depth + 1))
    (here : s.At (a.chars ++ r)) (ends : EndsScalar r) :
    ∃ u, Reads s u ∧ Holds u (ks ++ [.scalar (atomText a) (atomIsPlain a)]) (depth + 1) ∧
      u.At r := by
  cases a with
  | text ps =>
    obtain ⟨u, reads, holds, behind, -⟩ := reads_string isYaml h here
    exact ⟨u, reads, holds, by rw [At, behind]; rfl⟩
  | number n => exact reads_plain (isPlainWord_number n) h here ends
  | word w => exact reads_plain (isPlainWord_word w) h here ends

/-! ## Trees -/

theorem at_gap {g : Gap} (isYaml : g.isYaml = true) : s.At (g.chars ++ r) ↔ s.At r := by
  rw [At, At, front_gap isYaml]

theorem endsScalar_gap {g : Gap} (isYaml : g.isYaml = true) {x : Char} (ends : EndsItem x) :
    EndsScalar (g.chars ++ x :: r) := by
  refine ⟨x, unifiedLines r, ?_, ends⟩
  rw [front_gap isYaml]
  obtain rfl | rfl | rfl := ends <;> exact front_cons (by decide) r

mutual

/-- A value is read as its tokens. -/
theorem reads_tree (t : Tree) (isYaml : t.isYaml = true) {s : Scan} {ks : List TokenKind}
    {depth : Nat} {r : List Char} (h : Holds s ks depth) (here : s.At (t.chars ++ r))
    (scalar : ∀ a, t = .atom a → 0 < depth ∧ EndsScalar r) :
    ∃ u, Reads s u ∧ Holds u (ks ++ treeTokens t) depth ∧ u.At r := by
  cases t with
  | atom a =>
    obtain ⟨inside, ends⟩ := scalar a rfl
    obtain ⟨depth, rfl⟩ : ∃ n, depth = n + 1 := ⟨depth - 1, by omega⟩
    exact reads_atom isYaml h here ends
  | emptyList inside =>
    simp only [Tree.chars, List.append_assoc, List.cons_append] at here
    obtain ⟨u, opened, holds, here, -⟩ := reads_start h here (.inl ⟨rfl, rfl⟩)
    obtain ⟨v, closed, holds, here⟩ := reads_end holds ((at_gap isYaml).mp here) (.inl ⟨rfl, rfl⟩)
    exact ⟨v, opened.trans closed, by simpa [treeTokens] using holds, here⟩
  | list is =>
    simp only [Tree.chars, List.cons_append] at here
    obtain ⟨u, opened, holds, here, -⟩ := reads_start h here (.inl ⟨rfl, rfl⟩)
    obtain ⟨v, read, holds, here⟩ := reads_items is isYaml holds here
    exact ⟨v, opened.trans read, by simpa [treeTokens] using holds, here⟩
  | emptyObject inside =>
    simp only [Tree.chars, List.append_assoc, List.cons_append] at here
    obtain ⟨u, opened, holds, here, -⟩ := reads_start h here (.inr ⟨rfl, rfl⟩)
    obtain ⟨v, closed, holds, here⟩ := reads_end holds ((at_gap isYaml).mp here) (.inr ⟨rfl, rfl⟩)
    exact ⟨v, opened.trans closed, by simpa [treeTokens] using holds, here⟩
  | object ms =>
    simp only [Tree.chars, List.cons_append] at here
    obtain ⟨u, opened, holds, here, allowed⟩ := reads_start h here (.inr ⟨rfl, rfl⟩)
    obtain ⟨v, read, holds, here⟩ := reads_members ms isYaml holds allowed here
    exact ⟨v, opened.trans read, by simpa [treeTokens] using holds, here⟩

/-- Items are read as their tokens. -/
theorem reads_items (is : Items) (isYaml : is.isYaml = true) {s : Scan} {ks : List TokenKind}
    {depth : Nat} {r : List Char} (h : Holds s ks (depth + 1)) (here : s.At (is.chars ++ r)) :
    ∃ u, Reads s u ∧ Holds u (ks ++ itemsTokens is) depth ∧ u.At r := by
  cases is with
  | last before item after =>
    simp only [Items.isYaml, Bool.and_eq_true] at isYaml
    obtain ⟨⟨blank, itemYaml⟩, blank'⟩ := isYaml
    simp only [Items.chars, List.append_assoc, List.cons_append, List.nil_append,
      at_gap blank] at here
    obtain ⟨u, read, holds, here⟩ := reads_tree item itemYaml h here
      fun _ _ => ⟨Nat.succ_pos _, endsScalar_gap blank' (.inr (.inl rfl))⟩
    obtain ⟨v, closed, holds, here⟩ := reads_end holds ((at_gap blank').mp here) (.inl ⟨rfl, rfl⟩)
    exact ⟨v, read.trans closed, by simpa [itemsTokens] using holds, here⟩
  | more before item after rest =>
    simp only [Items.isYaml, Bool.and_eq_true] at isYaml
    obtain ⟨⟨⟨blank, itemYaml⟩, blank'⟩, restYaml⟩ := isYaml
    simp only [Items.chars, List.append_assoc, List.cons_append, at_gap blank] at here
    obtain ⟨u, read, holds, here⟩ := reads_tree item itemYaml h here
      fun _ _ => ⟨Nat.succ_pos _, endsScalar_gap blank' (.inl rfl)⟩
    obtain ⟨v, comma, holds, here, -⟩ := reads_comma holds ((at_gap blank').mp here)
    obtain ⟨w, more, holds, here⟩ := reads_items rest restYaml holds here
    exact ⟨w, (read.trans comma).trans more, by simpa [itemsTokens] using holds, here⟩

/-- Members are read as their tokens. -/
theorem reads_members (ms : Members) (isYaml : ms.isYaml = true) {s : Scan} {ks : List TokenKind}
    {depth : Nat} {r : List Char} (h : Holds s ks (depth + 1)) (keyAllowed : s.keyAllowed = true)
    (here : s.At (ms.chars ++ r)) :
    ∃ u, Reads s u ∧ Holds u (ks ++ membersTokens ms) depth ∧ u.At r := by
  cases ms with
  | last before key behindKey behindColon value after =>
    simp only [Members.isYaml, Bool.and_eq_true] at isYaml
    obtain ⟨⟨⟨⟨blank, isKey⟩, blank'⟩, valueYaml⟩, blank''⟩ := isYaml
    simp only [Members.chars, List.append_assoc, List.cons_append, List.nil_append,
      at_gap blank] at here
    obtain ⟨u, name, holds, here⟩ := reads_name isKey h keyAllowed here
    obtain ⟨v, read, holds, here⟩ := reads_tree value valueYaml holds ((at_gap blank').mp here)
      fun _ _ => ⟨Nat.succ_pos _, endsScalar_gap blank'' (.inr (.inr rfl))⟩
    obtain ⟨w, closed, holds, here⟩ := reads_end holds ((at_gap blank'').mp here) (.inr ⟨rfl, rfl⟩)
    exact ⟨w, (name.trans read).trans closed, by simpa [membersTokens] using holds, here⟩
  | more before key behindKey behindColon value after rest =>
    simp only [Members.isYaml, Bool.and_eq_true] at isYaml
    obtain ⟨⟨⟨⟨⟨blank, isKey⟩, blank'⟩, valueYaml⟩, blank''⟩, restYaml⟩ := isYaml
    simp only [Members.chars, List.append_assoc, List.cons_append, at_gap blank] at here
    obtain ⟨u, name, holds, here⟩ := reads_name isKey h keyAllowed here
    obtain ⟨v, read, holds, here⟩ := reads_tree value valueYaml holds ((at_gap blank').mp here)
      fun _ _ => ⟨Nat.succ_pos _, endsScalar_gap blank'' (.inl rfl)⟩
    obtain ⟨w, comma, holds, here, allowed⟩ := reads_comma holds ((at_gap blank'').mp here)
    obtain ⟨x, more, holds, here⟩ := reads_members rest restYaml holds allowed here
    exact ⟨x, ((name.trans read).trans comma).trans more, by simpa [membersTokens] using holds,
      here⟩

end

end

/-! ## Whole texts -/

theorem holds_start (cs : List Char) : Holds (start cs) [] 0 :=
  ⟨rfl, rfl, rfl, rfl, by simp [start], rfl⟩

/-- At the end of the text the last token is read, and reading comes to its end. -/
theorem run_end {s : Scan} {ks : List TokenKind} (h : Holds s ks 0) (here : s.At [])
    {fuel : Nat} (enough : s.cursor.rest.length + 2 ≤ fuel) :
    (s.run fuel).tokens.map Token.kind = ks ++ [.streamEnd] := by
  obtain ⟨fuel, rfl⟩ : ∃ n, fuel = n + 1 + 1 := ⟨fuel - 2, by omega⟩
  have filler : ∀ x ∈ s.cursor.rest, isFiller x = true := by
    simpa [At, front, unifiedLines] using here
  obtain ⟨t, comes, holds, place, -, -⟩ := exists_comes h (List.append_nil _).symm filler
    (show EndsGap endChar from ⟨by decide, by decide, by decide⟩) (by simp)
  have peek : t.cursor.peek = '\x00' := by simp [place, Cursor.peek, endChar]
  have token : t.token = .ok ({ t with key := none, keyAllowed := false }.pushAt .streamEnd
      t.cursor.mark) := by
    rw [token_end peek, closeAll, closeTo_eq holds, dropKey_eq holds]
    rfl
  have kinds : t.taken.reverse.map Token.kind = ks := holds.kinds
  rw [run_of_comes h.unfinished comes token, run_finished rfl]
  simp [pushAt, push, ← kinds]

end Scan

/-- The tokens of a JSON text are those of its syntax. -/
theorem tokens_of_document {d : Document} (isYaml : d.isYaml = true)
    (collection : ∀ a, d.root ≠ .atom a) :
    (TokenRow.ofChars (unifiedLines d.chars)).tokens.map Token.kind =
      treeTokens d.root ++ [.streamEnd] := by
  simp only [Document.isYaml, Bool.and_eq_true] at isYaml
  obtain ⟨⟨⟨-, before⟩, root⟩, after⟩ := isYaml
  have here : (Scan.start (unifiedLines d.chars)).At (d.root.chars ++ d.after.chars) := by
    rw [Scan.At, ← front_gap before, ← List.append_assoc]
    rfl
  obtain ⟨u, reads, holds, here⟩ := Scan.reads_tree d.root root (Scan.holds_start _) here
    fun a eq => absurd eq (collection a)
  have atEnd : u.At [] := by
    rw [← List.append_nil d.after.chars] at here
    exact (Scan.at_gap after).mp here
  have enough : (Scan.start (unifiedLines d.chars)).cursor.rest.length + 2 ≤
      (unifiedLines d.chars).length + 2 := Nat.le_refl _
  obtain ⟨fuel, enough, same⟩ := reads.run_eq enough
  rw [TokenRow.ofChars, same]
  exact Scan.run_end holds atEnd enough

end Yaml
end ApiManual
