import ApiManual.Yaml.Scan
import Mathlib.Algebra.GroupWithZero.Nat

/-!
# Escapes for no character

There is one way in which the tokens of a text end without a word about it: between double quotes
an escape of eight digits names a code point beyond the last one
(`TokenRow.hasDeadEscape_of_fault`).  All scanners go forwards, and each of them either keeps
this, or ends where the text is malformed (`Forwards`).

An escape may also name half of a surrogate pair (`HasHalfEscape`).  That is no character either,
and what becomes of it is not said here.
-/

namespace ApiManual
namespace Yaml

/-- Somewhere in a text an escape names a code point beyond the last one. -/
def HasDeadEscape (cs : List Char) : Prop :=
  ∃ ds n, '\\' :: 'U' :: ds <:+: cs ∧ ds.length = 8 ∧ Text.ofDigits? 16 ds = some n ∧ 0x10FFFF < n

theorem HasDeadEscape.of_suffix {cs cs' : List Char} (h : HasDeadEscape cs') (sub : cs' <:+ cs) :
    HasDeadEscape cs := by
  obtain ⟨ds, n, part, rest⟩ := h
  exact ⟨ds, n, part.trans sub.isInfix, rest⟩

/-- Somewhere in a text an escape names half of a surrogate pair. -/
def HasHalfEscape (cs : List Char) : Prop :=
  ∃ c ds n, '\\' :: c :: ds <:+: cs ∧ Quoted.escapeWidth? c = some ds.length ∧
    Text.ofDigits? 16 ds = some n ∧ 0xD800 ≤ n ∧ n ≤ 0xDFFF

/-- There is none without a backslash. -/
theorem not_hasHalfEscape {cs : List Char} (h : '\\' ∉ cs) : ¬ HasHalfEscape cs := by
  rintro ⟨c, ds, n, part, -⟩
  exact h (part.subset List.mem_cons_self)

/-- From one place in a text another one is reached by going forwards. -/
def Cursor.Leads (c c' : Cursor) : Prop := c'.rest <:+ c.rest

namespace Cursor

variable {c c' c'' : Cursor}

theorem Leads.refl (c : Cursor) : c.Leads c := List.suffix_refl _

theorem Leads.trans (h : c.Leads c') (h' : c'.Leads c'') : c.Leads c'' := List.IsSuffix.trans h' h

theorem leads_skip (c : Cursor) (n : Nat) : c.Leads (c.skip n) := by
  rw [Leads, rest_skip]
  exact List.drop_suffix n c.rest

theorem leads_next (c : Cursor) : c.Leads c.next := c.leads_skip 1

theorem leads_span (c : Cursor) (keep : Char → Bool) : c.Leads (c.span keep).2 := c.leads_skip _

theorem leads_skipWhile (c : Cursor) (keep : Char → Bool) : c.Leads (c.skipWhile keep) :=
  c.leads_span keep

theorem leads_skipComment (c : Cursor) : c.Leads c.skipComment := by
  rw [skipComment]
  split
  · exact c.leads_skipWhile _
  · exact .refl c

end Cursor

/-- What comes of reading on from a place in a text. -/
inductive Forwards {α : Type} (c : Cursor) (place : α → Cursor) : Except ScanFault α → Prop where
  | ok {a : α} : c.Leads (place a) → Forwards c place (.ok a)
  | malformed : Forwards c place (.error .malformed)
  | dead : HasDeadEscape c.rest → Forwards c place (.error .noSuchCharacter)

namespace Forwards

variable {α β : Type} {c c' : Cursor} {place : α → Cursor} {place' : β → Cursor}
  {r : Except ScanFault α}

theorem before (h : Forwards c' place r) (leads : c.Leads c') : Forwards c place r := by
  cases h with
  | ok leads' => exact .ok (leads.trans leads')
  | malformed => exact .malformed
  | dead has => exact .dead (has.of_suffix leads)

theorem bind {f : α → Except ScanFault β} (h : Forwards c place r)
    (next : ∀ a, Forwards (place a) place' (f a)) : Forwards c place' (r >>= f) := by
  cases h with
  | ok leads => exact (next _).before leads
  | malformed => exact .malformed
  | dead has => exact .dead has

theorem ite {p : Prop} [Decidable p] {x y : Except ScanFault α} (h : p → Forwards c place x)
    (h' : ¬ p → Forwards c place y) : Forwards c place (if p then x else y) := by
  split
  · exact h ‹_›
  · exact h' ‹_›

end Forwards

theorem forwards_restOfLine (c : Cursor) : Forwards c id c.restOfLine := by
  have leads := (c.leads_skipWhile (· = ' ')).trans (Cursor.leads_skipComment _)
  exact .ite (fun _ => .ok (leads.trans (Cursor.leads_next _))) fun _ => .malformed

/-! ## Quoted scalars -/

namespace Quoted

theorem forwards_breaks (fuel : Nat) (taken : List Char) (c : Cursor) :
    Forwards c Prod.snd (breaks fuel taken c) := by
  induction fuel generalizing taken c with
  | zero => exact .ok (.refl c)
  | succ fuel ih =>
    rw [breaks]
    have gap := c.leads_skipWhile fun x => x = ' ' || x = '\t'
    refine .ite (fun _ => .malformed) fun _ => .ite (fun _ => ?_) fun _ => .ok gap
    exact (ih _ _).before (gap.trans (Cursor.leads_next _))

/-- Digits spell a number that has no more places than there are digits. -/
theorem ofDigits?_lt {base : Nat} {ds : List Char} {n : Nat}
    (h : Text.ofDigits? base ds = some n) : n < base ^ ds.length := by
  have none_ (l : List Char) : l.foldl (fun acc c => acc.bind fun n =>
      ((Text.alnumValue? c).filter (· < base)).map (n * base + ·)) none = none := by
    induction l with
    | nil => rfl
    | cons d rest ih => exact ih
  have from_ (l : List Char) (a : Nat) (h : l.foldl (fun acc c => acc.bind fun n =>
      ((Text.alnumValue? c).filter (· < base)).map (n * base + ·)) (some a) = some n) :
      n < (a + 1) * base ^ l.length := by
    induction l generalizing a with
    | nil =>
      cases h
      simp
    | cons d rest ih =>
      rw [List.foldl_cons, Option.bind_some] at h
      cases value : (Text.alnumValue? d).filter (· < base) with
      | none =>
        rw [value, Option.map_none, none_] at h
        cases h
      | some v =>
        rw [value] at h
        have small : v < base := by simpa using (Option.filter_eq_some_iff.1 value).2
        refine Nat.lt_of_lt_of_le (ih _ h) ?_
        rw [List.length_cons, Nat.pow_succ', ← Nat.mul_assoc]
        refine Nat.mul_le_mul_right _ ?_
        dsimp only
        rw [Nat.succ_mul]
        omega
  have := from_ ds 0 h
  omega

theorem rest_of_peek {c : Cursor} {x : Char} (h : c.peek = x) (ne : x ≠ endChar) :
    c.rest = x :: c.next.rest := by
  rw [Cursor.rest_next]
  rw [Cursor.peek] at h
  cases rest : c.rest with
  | nil =>
    rw [rest] at h
    exact absurd h.symm ne
  | cons y ys =>
    rw [rest] at h
    rw [← h]
    rfl

theorem noSuchCharacter_of_codePoint {n : Nat} {f : ScanFault} (h : codePoint n = .error f) :
    f = .noSuchCharacter ∧ 0x10FFFF < n := by
  rw [codePoint] at h
  split at h
  · cases h
    exact ⟨rfl, ‹_›⟩
  · split at h <;> cases h

theorem width_of_letter {x : Char} {width : Nat} (h : escapeWidth? x = some width) :
    width = 2 ∨ width = 4 ∨ width = 8 ∧ x = 'U' := by
  unfold escapeWidth? at h
  split at h <;> cases h <;> simp

/-- An escape fails without a word only if it names no code point. -/
theorem forwards_escape {c : Cursor} (slash : c.peek = '\\') :
    Forwards c Prod.snd (escape c.next) := by
  have behind := c.leads_next
  rw [escape]
  split
  · exact .ok (behind.trans (Cursor.leads_next _))
  split
  · rename_i width letter
    dsimp only
    refine .ite (fun digits => ?_) fun _ => .malformed
    rw [Bool.and_eq_true, decide_eq_true_eq] at digits
    cases point : codePoint ((Text.ofDigits? 16 (c.next.next.rest.take width)).getD 0) with
    | ok x => exact .ok ((behind.trans (Cursor.leads_next _)).trans (Cursor.leads_skip _ _))
    | error f =>
      obtain ⟨rfl, large⟩ := noSuchCharacter_of_codePoint point
      refine .dead ?_
      cases number : Text.ofDigits? 16 (c.next.next.rest.take width) with
      | none =>
        rw [number] at large
        exact absurd large (by decide)
      | some n =>
        rw [number, Option.getD_some] at large
        have small := ofDigits?_lt number
        rw [digits.1] at small
        -- Two and four digits are not enough to name such a code point.
        obtain rfl | rfl | ⟨rfl, at_⟩ := width_of_letter letter
        · omega
        · omega
        · refine ⟨_, n, List.IsPrefix.isInfix ?_, digits.1, number, large⟩
          rw [rest_of_peek slash (by decide), rest_of_peek at_ (by decide)]
          simp only [List.cons_prefix_cons, true_and]
          exact List.take_prefix _ _
  · exact .ite (fun _ => (forwards_breaks _ _ _).before (behind.trans (Cursor.leads_next _)))
      fun _ => .malformed

theorem forwards_solid (double : Bool) (fuel : Nat) (taken : List Char) (c : Cursor) :
    Forwards c Prod.snd (solid double fuel taken c) := by
  induction fuel generalizing taken c with
  | zero => exact .ok (.refl c)
  | succ fuel ih =>
    have next (taken : List Char) : Forwards c Prod.snd (solid double fuel taken c.next) :=
      (ih _ _).before c.leads_next
    rw [solid]
    refine .ite (fun _ => .ok (.refl c)) fun _ =>
      .ite (fun _ => ?_) fun _ => .ite (fun _ => ?_) fun _ => next _
    · refine .ite (fun _ => .ok (.refl c)) fun _ => .ite (fun slash => ?_) fun _ => next _
      exact (forwards_escape slash).bind fun _ => ih _ _
    · exact .ite (fun _ => (ih _ _).before (c.leads_skip 2)) fun _ => .ok (.refl c)

theorem forwards_gap (c : Cursor) : Forwards c Prod.snd (gap c) := by
  have spaces : c.Leads (c.span fun x => x = ' ' || x = '\t').2 := c.leads_span _
  rw [gap]
  refine .ite (fun _ => .malformed) fun _ => .ite (fun _ => ?_) fun _ => .ok spaces
  have rest := forwards_breaks ((c.span fun x => x = ' ' || x = '\t').2.rest.length + 1) []
    (c.span fun x => x = ' ' || x = '\t').2.next
  exact (rest.before (spaces.trans (Cursor.leads_next _))).bind fun _ => .ok (.refl _)

theorem forwards_upToQuote (double : Bool) (fuel : Nat) (taken : List Char) (c : Cursor) :
    Forwards c Prod.snd (upToQuote double fuel taken c) := by
  induction fuel generalizing taken c with
  | zero => exact .malformed
  | succ fuel ih =>
    rw [upToQuote]
    refine (forwards_solid _ _ _ _).bind fun r =>
      .ite (fun _ => .ok (Cursor.leads_next _)) fun _ => ?_
    exact (forwards_gap _).bind fun _ => ih _ _

theorem forwards_read (double : Bool) (c : Cursor) : Forwards c Prod.snd (read double c) :=
  (forwards_upToQuote _ _ _ _).before c.leads_next

end Quoted

/-! ## Tags and directives -/

namespace Tag

theorem forwards_escapes (fuel : Nat) (taken : List UInt8) (c : Cursor) :
    Forwards c Prod.snd (escapes fuel taken c) := by
  induction fuel generalizing taken c with
  | zero => exact .ok (.refl c)
  | succ fuel ih =>
    rw [escapes]
    refine .ite (fun _ => ?_) fun _ => .ok (.refl c)
    split
    · exact (ih _ _).before (c.leads_skip 3)
    · exact .malformed

theorem forwards_uriChars (fuel : Nat) (taken : List Char) (c : Cursor) :
    Forwards c Prod.snd (uriChars fuel taken c) := by
  induction fuel generalizing taken c with
  | zero => exact .ok (.refl c)
  | succ fuel ih =>
    rw [uriChars]
    refine .ite (fun _ => (ih _ _).before c.leads_next) fun _ => .ite (fun _ => ?_)
      fun _ => .ok (.refl c)
    refine (forwards_escapes _ _ _).bind fun r => ?_
    dsimp only
    split
    · exact ih _ _
    · exact .malformed

theorem forwards_uri (c : Cursor) : Forwards c Prod.snd (uri c) :=
  (forwards_uriChars _ _ _).bind fun _ => .ite (fun _ => .malformed) fun _ => .ok (.refl _)

theorem forwards_handle (c : Cursor) : Forwards c Prod.snd (handle c) := by
  have word : c.Leads (c.next.span isWordChar).2 := c.leads_next.trans (Cursor.leads_span _ _)
  refine .ite (fun _ => .malformed) fun _ => .ite (fun _ => .ok c.leads_next) fun _ => ?_
  exact .ite (fun _ => .ok (word.trans (Cursor.leads_next _))) fun _ => .malformed

theorem forwards_read (c : Cursor) : Forwards c Prod.snd (read c) := by
  have finish (tag : TagText) (c : Cursor) : Forwards c Prod.snd
      (if isSpaceOrEnd c.peek then .ok (tag, c) else .error .malformed) :=
    .ite (fun _ => .ok (.refl c)) fun _ => .malformed
  rw [read]
  refine .ite (fun _ => ?_) fun _ => .ite (fun _ => ?_) fun _ => .ite (fun _ => ?_) fun _ => ?_
  · refine ((forwards_uri _).before (c.leads_skip 2)).bind fun r => .ite (fun _ => ?_)
      fun _ => .malformed
    exact (finish _ r.2.next).before r.2.leads_next
  · exact (finish _ c.next).before c.leads_next
  · exact (forwards_handle c).bind fun _ => (forwards_uri _).bind fun _ => finish _ _
  · exact ((forwards_uri c.next).bind fun _ => finish _ _).before c.leads_next

end Tag

namespace Directive

theorem forwards_number (c : Cursor) : Forwards c Prod.snd (number c) :=
  .ite (fun _ => .malformed) fun _ => .ok (c.leads_skip _)

theorem forwards_versionLine (c : Cursor) : Forwards c Prod.snd (versionLine c) := by
  have spaces := c.leads_skipWhile (· = ' ')
  refine ((forwards_number _).before spaces).bind fun r => .ite (fun _ => .malformed) fun _ => ?_
  refine ((forwards_number _).before (Cursor.leads_next _)).bind fun r => ?_
  exact .ite (fun _ => .ok (.refl _)) fun _ => .malformed

theorem forwards_handleLine (c : Cursor) : Forwards c Prod.snd (handleLine c) := by
  have spaces := c.leads_skipWhile (· = ' ')
  refine ((Tag.forwards_handle _).before spaces).bind fun r =>
    .ite (fun _ => .malformed) fun _ => ?_
  refine ((Tag.forwards_uri _).before (Cursor.leads_skipWhile _ _)).bind fun r => ?_
  exact .ite (fun _ => .ok (.refl _)) fun _ => .malformed

theorem forwards_read (c : Cursor) : Forwards c Prod.snd (read c) := by
  have finish (d : Directive) (c : Cursor) : Forwards c Prod.snd (do
      let c ← c.restOfLine
      return (d, c)) := (forwards_restOfLine c).bind fun _ => .ok (.refl _)
  have word : c.Leads (c.next.span isWordChar).2 := c.leads_next.trans (Cursor.leads_span _ _)
  rw [read]
  generalize c.next.span isWordChar = r at word
  obtain ⟨name, c'⟩ := r
  dsimp only
  refine .before (.ite (fun _ => .malformed) fun _ => .ite (fun _ => ?_) fun _ =>
    .ite (fun _ => ?_) fun _ => ?_) word
  · exact (forwards_versionLine c').bind fun ⟨d, c⟩ => finish d c
  · exact (forwards_handleLine c').bind fun ⟨d, c⟩ => finish d c
  · exact (finish _ _).before (c'.leads_skipWhile _)

end Directive

/-! ## Plain and block scalars -/

namespace Plain

theorem leads_breaks (fuel : Nat) (taken : List Char) (c : Cursor) :
    c.Leads (breaks fuel taken c).2 := by
  induction fuel generalizing taken c with
  | zero => exact .refl c
  | succ fuel ih =>
    rw [breaks]
    split
    · exact c.leads_next.trans (ih _ _)
    · split
      · split
        · exact c.leads_next
        · exact c.leads_next.trans (ih _ _)
      · exact .refl c

theorem leads_gap (c : Cursor) : c.Leads (gap c).after := by
  have spaces : c.Leads (c.span (· = ' ')).2 := c.leads_span _
  have next := spaces.trans (Cursor.leads_next _)
  have breaks := leads_breaks ((c.span (· = ' ')).2.next.rest.length + 1) []
    (c.span (· = ' ')).2.next
  rw [gap]
  dsimp only
  split
  · split
    · exact next
    · split
      · rename_i same
        rw [same] at breaks
        exact next.trans breaks
      · rename_i same
        rw [same] at breaks
        exact next.trans breaks
  · exact spaces

theorem leads_words (fuel : Nat) (inFlow : Bool) (indent : Int) (taken before : List Char)
    (atLineStart : Bool) (c : Cursor) :
    c.Leads (words fuel inFlow indent taken before atLineStart c).after := by
  induction fuel generalizing taken before atLineStart c with
  | zero => exact .refl c
  | succ fuel ih =>
    rw [words]
    split
    · exact .refl c
    dsimp only
    split
    · exact .refl c
    have word := (c.leads_skip (word inFlow c.rest).length).trans (leads_gap _)
    split
    · exact word
    · exact word.trans (ih _ _ _ _)

theorem leads_read (inFlow : Bool) (indent : Int) (c : Cursor) :
    c.Leads (read inFlow indent c).after := leads_words _ _ _ _ _ _ _

end Plain

namespace BlockScalar

theorem forwards_deeper (c : Cursor) : Forwards c Prod.snd (deeper? c) :=
  .ite (fun _ => .ite (fun _ => .malformed) fun _ => .ok c.leads_next) fun _ => .ok (.refl c)

theorem forwards_header (c : Cursor) : Forwards c Prod.snd (header c) := by
  have finish (h : Header) (c : Cursor) : Forwards c Prod.snd
      (if isSpaceOrEnd c.peek then .ok (h, c) else .error .malformed) :=
    .ite (fun _ => .ok (.refl c)) fun _ => .malformed
  rw [header]
  split
  · exact ((forwards_deeper _).before c.leads_next).bind fun _ => finish _ _
  · refine (forwards_deeper c).bind fun ⟨deeper, c⟩ => ?_
    dsimp only
    split
    · exact (finish _ _).before c.leads_next
    · exact finish _ _

theorem leads_findIndent (fuel : Nat) (taken : List Char) (deepest : Nat) (c : Cursor) :
    c.Leads (findIndent fuel taken deepest c).2.2 := by
  induction fuel generalizing taken deepest c with
  | zero => exact .refl c
  | succ fuel ih =>
    rw [findIndent]
    split
    · exact c.leads_next.trans (ih _ _ _)
    · split
      · exact c.leads_next.trans (ih _ _ _)
      · exact .refl c

theorem leads_toColumn (fuel column : Nat) (c : Cursor) : c.Leads (toColumn fuel column c) := by
  induction fuel generalizing c with
  | zero => exact .refl c
  | succ fuel ih =>
    rw [toColumn]
    split
    · exact c.leads_next.trans (ih _)
    · exact .refl c

theorem leads_breaks (fuel indent : Nat) (taken : List Char) (c : Cursor) :
    c.Leads (breaks fuel indent taken c).2 := by
  induction fuel generalizing taken c with
  | zero => exact .refl c
  | succ fuel ih =>
    have spaces := leads_toColumn indent indent c
    rw [breaks]
    split
    · exact (spaces.trans (Cursor.leads_next _)).trans (ih _ _)
    · exact spaces

theorem leads_lines (fold : Bool) (indent fuel : Nat) (b : Body) :
    b.after.Leads (lines fold indent fuel b).after := by
  induction fuel generalizing b with
  | zero => exact .refl _
  | succ fuel ih =>
    rw [lines]
    split
    · have line := b.after.leads_span fun x => !isBreakOrEnd x
      generalize b.after.span (fun x => !isBreakOrEnd x) = r at line
      obtain ⟨text, c⟩ := r
      dsimp only at line ⊢
      have empty := leads_breaks (c.rest.length + 1) indent [] c.next
      generalize breaks (c.rest.length + 1) indent [] c.next = r at empty
      obtain ⟨empty, after⟩ := r
      exact ((line.trans c.leads_next).trans empty).trans (ih _)
    · exact .refl _

theorem forwards_read (fold : Bool) (indent : Int) (c : Cursor) :
    Forwards c Prod.snd (read fold indent c) := by
  rw [read]
  refine ((forwards_header _).before c.leads_next).bind fun ⟨h, c⟩ => ?_
  refine (forwards_restOfLine c).bind fun c => ?_
  dsimp only [id]
  split
  · exact .ok ((leads_breaks _ _ _ c).trans (leads_lines _ _ _ _))
  · exact .ok ((leads_findIndent _ _ _ c).trans (leads_lines _ _ _ _))

end BlockScalar

/-! ## Tokens -/

namespace Scan

variable {s : Scan}

/-- What has been read stays read. -/
abbrev Onwards (s : Scan) (r : Except ScanFault Scan) : Prop := Forwards s.cursor Scan.cursor r

theorem onwards_dropKey (s : Scan) : s.Onwards s.dropKey := by
  rw [dropKey]
  split
  · exact .ite (fun _ => .malformed) fun _ => .ok (.refl _)
  · exact .ok (.refl _)

theorem onwards_noteKey (s : Scan) : s.Onwards s.noteKey :=
  .ite (fun _ => s.onwards_dropKey.bind fun _ => .ok (.refl _)) fun _ => .ok (.refl _)

theorem onwards_dropStale (s : Scan) : s.Onwards s.dropStale :=
  .ite (fun _ => .malformed) fun _ => .ok (.refl _)

theorem cursor_closeTo (s : Scan) (column : Int) : (s.closeTo column).cursor = s.cursor := by
  have pushed (closed : List Nat) (t : Scan) :
      (closed.foldl (fun s _ => s.pushAt .blockEnd s.cursor.mark) t).cursor = t.cursor := by
    induction closed generalizing t with
    | nil => rfl
    | cons n rest ih => exact ih _
  rw [closeTo]
  split
  · rfl
  · exact pushed _ _

theorem cursor_openBlock (s : Scan) (kind : TokenKind) : (s.openBlock kind).cursor = s.cursor := by
  rw [openBlock]
  split <;> rfl

theorem cursor_makeKey (s : Scan) (k : PossibleKey) : (s.makeKey k).cursor = s.cursor := by
  rw [makeKey]
  split <;> rfl

theorem leads_skipGaps (fuel : Nat) (s : Scan) : s.cursor.Leads (skipGaps fuel s).cursor := by
  induction fuel generalizing s with
  | zero => exact .refl _
  | succ fuel ih =>
    have gap := (s.cursor.leads_skipWhile (· = ' ')).trans (Cursor.leads_skipComment _)
    rw [skipGaps]
    split
    · exact (gap.trans (Cursor.leads_next _)).trans (ih _)
    · exact gap

theorem leads_skipByteOrderMark (s : Scan) : s.cursor.Leads s.skipByteOrderMark.cursor := by
  rw [skipByteOrderMark]
  split
  · exact s.cursor.leads_next
  · exact .refl _

theorem onwards_closeAll (s : Scan) : s.Onwards s.closeAll := by
  have dropped := (s.closeTo (-1)).onwards_dropKey
  rw [Onwards, cursor_closeTo] at dropped
  exact dropped.bind fun _ => .ok (.refl _)

theorem onwards_openFlow (s : Scan) (kind : TokenKind) : s.Onwards (s.openFlow kind) :=
  s.onwards_noteKey.bind fun _ => .ok (Cursor.leads_skip _ _)

theorem onwards_closeFlow (s : Scan) (kind : TokenKind) : s.Onwards (s.closeFlow kind) :=
  s.onwards_dropKey.bind fun _ => .ok (Cursor.leads_skip _ _)

theorem onwards_flowEntry (s : Scan) : s.Onwards s.flowEntry :=
  s.onwards_dropKey.bind fun _ => .ok (Cursor.leads_skip _ _)

/-- A sign before an entry may open a block collection. -/
theorem onwards_opened (s : Scan) (kind : TokenKind) :
    s.Onwards (if s.inFlow then s else s.openBlock kind).dropKey := by
  have same : (if s.inFlow then s else s.openBlock kind).cursor = s.cursor := by
    split
    · rfl
    · exact cursor_openBlock s kind
  have dropped := onwards_dropKey (if s.inFlow then s else s.openBlock kind)
  rwa [Onwards, same] at dropped

theorem onwards_blockEntry (s : Scan) : s.Onwards s.blockEntry :=
  .ite (fun _ => .malformed) fun _ => (s.onwards_opened _).bind fun _ => .ok (Cursor.leads_skip _ _)

theorem onwards_explicitKey (s : Scan) : s.Onwards s.explicitKey :=
  .ite (fun _ => .malformed) fun _ => (s.onwards_opened _).bind fun _ => .ok (Cursor.leads_skip _ _)

theorem onwards_keyValue (s : Scan) : s.Onwards s.keyValue := by
  rw [keyValue]
  split
  · rename_i k _
    refine .ok ?_
    show s.cursor.Leads ((s.makeKey k).cursor.skip 1)
    rw [cursor_makeKey]
    exact s.cursor.leads_skip 1
  · refine .ite (fun _ => .ok (Cursor.leads_skip _ _)) fun _ => .ite (fun _ => .ok ?_)
      fun _ => .malformed
    show s.cursor.Leads ((s.openBlock .blockMappingStart).cursor.skip 1)
    rw [cursor_openBlock]
    exact s.cursor.leads_skip 1

theorem onwards_maybeKey (s : Scan) {read : Cursor → Except ScanFault (TokenKind × Cursor)}
    (reads : ∀ c, Forwards c Prod.snd (read c)) : s.Onwards (s.maybeKey read) :=
  s.onwards_noteKey.bind fun _ => (reads _).bind fun _ => .ok (.refl _)

theorem forwards_name (c : Cursor) : Forwards c Prod.snd (name c) :=
  .ite (fun _ => .ok (c.leads_next.trans (Cursor.leads_span _ _))) fun _ => .malformed

theorem onwards_blockScalar (s : Scan) (fold : Bool) : s.Onwards (s.blockScalar fold) :=
  s.onwards_dropKey.bind fun _ => (BlockScalar.forwards_read _ _ _).bind fun _ => .ok (.refl _)

theorem forwards_quoted (double : Bool) (c : Cursor) : Forwards c Prod.snd (quoted double c) :=
  (Quoted.forwards_read double c).bind fun _ => .ok (.refl _)

theorem onwards_plain (s : Scan) : s.Onwards s.plain :=
  s.onwards_noteKey.bind fun _ => .ok (Plain.leads_read _ _ _)

theorem onwards_directive (s : Scan) : s.Onwards s.directive :=
  s.onwards_closeAll.bind fun _ => (Directive.forwards_read _).bind fun _ => .ok (.refl _)

theorem onwards_token (s : Scan) : s.Onwards s.token := by
  rw [token]
  dsimp only
  split
  · exact s.onwards_closeAll.bind fun _ => .ok (.refl _)
  · exact s.onwards_openFlow _
  · exact s.onwards_openFlow _
  · exact s.onwards_closeFlow _
  · exact s.onwards_closeFlow _
  · exact s.onwards_flowEntry
  · exact s.onwards_maybeKey fun c => (forwards_name c).bind fun _ => .ok (.refl _)
  · exact s.onwards_maybeKey fun c => (forwards_name c).bind fun _ => .ok (.refl _)
  · exact s.onwards_maybeKey fun c => (Tag.forwards_read c).bind fun _ => .ok (.refl _)
  · exact s.onwards_maybeKey (forwards_quoted false)
  · exact s.onwards_maybeKey (forwards_quoted true)
  · refine .ite (fun _ => s.onwards_directive) fun _ => .ite (fun _ => ?_) fun _ =>
      .ite (fun _ => s.onwards_blockEntry) fun _ => .ite (fun _ => s.onwards_explicitKey) fun _ =>
      .ite (fun _ => s.onwards_keyValue) fun _ =>
      .ite (fun _ => s.onwards_blockScalar false) fun _ =>
      .ite (fun _ => s.onwards_blockScalar true) fun _ =>
      .ite (fun _ => s.onwards_plain) fun _ => .malformed
    exact s.onwards_closeAll.bind fun _ => .ok (Cursor.leads_skip _ _)

theorem onwards_step (s : Scan) : s.Onwards s.step := by
  have gaps := s.leads_skipByteOrderMark.trans
    (leads_skipGaps (s.skipByteOrderMark.cursor.rest.length + 1) s.skipByteOrderMark)
  refine ((onwards_dropStale _).before gaps).bind fun t => ?_
  have token := (t.closeTo t.cursor.column).onwards_token
  rwa [Onwards, cursor_closeTo] at token

section

-- what a round does is not to be computed while the rounds are taken apart
attribute [local irreducible] step dropStale isFinished broken

theorem run_zero (s : Scan) :
    s.run 0 = if s.isFinished then ⟨s.taken.reverse, .malformed⟩ else s.broken .malformed := rfl

theorem run_succ (fuel : Nat) (s : Scan) :
    s.run (fuel + 1) =
      if s.isFinished then ⟨s.taken.reverse, .malformed⟩
      else match s.dropStale with
        | .error f => s.broken f
        | .ok s =>
          match s.step with
          | .error f => s.broken f
          | .ok s => run fuel s := rfl

end

/-- What ends the tokens without a word is an escape. -/
theorem hasDeadEscape_of_run {fuel : Nat} (h : (s.run fuel).fault = .noSuchCharacter) :
    HasDeadEscape s.cursor.rest := by
  induction fuel generalizing s with
  | zero =>
    rw [run_zero] at h
    split at h <;> cases h
  | succ fuel ih =>
    rw [run_succ] at h
    split at h
    · cases h
    have stale := s.onwards_dropStale
    generalize s.dropStale = r at h stale
    cases stale with
    | malformed => cases h
    | dead has => exact has
    | @ok t leads =>
      have step := t.onwards_step
      dsimp only at h
      generalize t.step = r at h step
      cases step with
      | malformed => cases h
      | dead has => exact has.of_suffix leads
      | ok leads' => exact (ih h).of_suffix (leads.trans leads')

end Scan

/-- **Escapes.**  If the tokens of a text end without a word, an escape in it names a code point
beyond the last one. -/
theorem TokenRow.hasDeadEscape_of_fault {cs : List Char}
    (h : (TokenRow.ofChars cs).fault = .noSuchCharacter) : HasDeadEscape cs :=
  Scan.hasDeadEscape_of_run h

end Yaml
end ApiManual
