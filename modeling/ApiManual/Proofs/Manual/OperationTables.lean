import ApiManual.Proofs.Asciidoc.Table
import ApiManual.Proofs.Manual.Failures
import ApiManual.Proofs.Text.Digit

/-!
# The tables of an operation

The body of an operation of any kind has a table of its parameters and one of its errors, each
under a title, and no others.  The parameters stand in the order in which they are declared.  The
errors are sorted by their codes, which are compared as numbers, and errors of one code keep their
order.  So the row of errors is settled by the errors of each code alone (`byCode_eq_of_ofCode_eq`),
and errors of different codes may be declared in any order.

What a table says is what can be read from its text, so nothing is lost but the line feeds in its
cells (`tables_of_operation`).  But a code may have too many digits for a text, and then there is no
body (`operation_without_tables`).
-/

namespace ApiManual

namespace Asciidoc

/-! ## Tables under titles -/

/-- Whether a block is a table. -/
def Block.isTable : Block → Bool
  | .table _ _ => true
  | _ => false

/-- Blocks without a table among them. -/
def HasNoTable (blocks : List Block) : Prop := ∀ x ∈ blocks, x.isTable = false

namespace HasNoTable

variable {a b : List Block}

theorem nil : HasNoTable [] := List.forall_mem_nil _

theorem append (ha : HasNoTable a) (hb : HasNoTable b) : HasNoTable (a ++ b) :=
  List.forall_mem_append.2 ⟨ha, hb⟩

theorem head? (h : HasNoTable a) : ∀ x ∈ a.head?, x.isTable = false :=
  fun x first => h x (List.mem_of_mem_head? first)

end HasNoTable

/-- The tables of a document that stand right below a title, each as this title and its text. -/
def titledTables : List Block → List (String × String)
  | .blockTitle title :: .table header rows :: rest =>
    (title, tableText header rows) :: titledTables rest
  | _ :: rest => titledTables rest
  | [] => []

theorem HasNoTable.titledTables_eq {a : List Block} (h : HasNoTable a) : titledTables a = [] := by
  fun_induction titledTables a with
  | case1 title header rows rest _ =>
    have table : (Block.table header rows).isTable = false :=
      h _ (List.mem_cons_of_mem _ List.mem_cons_self)
    cases table
  | case2 x rest _ ih => exact ih fun y mem => h y (List.mem_cons_of_mem _ mem)
  | case3 => rfl

/-- What does not begin with a table leaves the tables before it as they are. -/
theorem titledTables_append {a b : List Block} (h : ∀ x ∈ b.head?, x.isTable = false) :
    titledTables (a ++ b) = titledTables a ++ titledTables b := by
  fun_induction titledTables a with
  | case1 title header rows rest ih =>
    show (title, tableText header rows) :: titledTables (rest ++ b) = _
    rw [ih, List.cons_append]
  | case2 x rest other ih =>
    rw [← ih, List.cons_append]
    refine titledTables.eq_2 x (rest ++ b) fun title header rows below hx hrest => ?_
    cases rest with
    | nil =>
      rw [List.nil_append] at hrest
      rw [hrest] at h
      have table : (Block.table header rows).isTable = false := h _ rfl
      cases table
    | cons y more =>
      rw [List.cons_append, List.cons.injEq] at hrest
      exact other title header rows more hx (by rw [hrest.1])
  | case3 => rfl

/-- A table under a title stands in the text of its document. -/
theorem exists_render_of_mem_titledTables {a : List Block} {title text : String}
    (mem : (title, text) ∈ titledTables a) : ∃ before behind,
      render a = before ++ ("." ++ title ++ "\n") ++ text ++ behind := by
  fun_induction titledTables a with
  | case1 title' header rows rest ih =>
    rcases List.mem_cons.1 mem with same | mem
    · cases same
      refine ⟨"", render rest, ?_⟩
      rw [render_cons, render_cons, Block.text, Block.text, String.empty_append]
      simp only [String.append_assoc]
    · obtain ⟨before, behind, found⟩ := ih mem
      refine ⟨"." ++ title' ++ "\n" ++ tableText header rows ++ before, behind, ?_⟩
      rw [render_cons, render_cons, Block.text, Block.text, found]
      simp only [String.append_assoc]
  | case2 x rest _ ih =>
    obtain ⟨before, behind, found⟩ := ih mem
    refine ⟨x.text ++ before, behind, ?_⟩
    rw [render_cons, found]
    simp only [String.append_assoc]
  | case3 => cases mem

end Asciidoc

namespace Manual

open Asciidoc

/-! ## Errors by code -/

/-- The errors of one code, in their order. -/
def ofCode (code : Int) (errors : List ApiError) : List ApiError :=
  errors.filter fun e => e.code = code

theorem mem_ofCode {code : Int} {e : ApiError} {errors : List ApiError} :
    e ∈ ofCode code errors ↔ e ∈ errors ∧ e.code = code := by
  rw [ofCode, List.mem_filter, decide_eq_true_eq]

theorem ofCode_cons_of_eq {code : Int} {e : ApiError} (h : e.code = code) (rest : List ApiError) :
    ofCode code (e :: rest) = e :: ofCode code rest :=
  List.filter_cons_of_pos (decide_eq_true h)

theorem ofCode_cons_of_ne {code : Int} {e : ApiError} (h : e.code ≠ code) (rest : List ApiError) :
    ofCode code (e :: rest) = ofCode code rest :=
  List.filter_cons_of_neg fun same => h (of_decide_eq_true same)

/-- An error is found among those of its code. -/
theorem mem_of_ofCode_eq {xs ys : List ApiError} (same : ∀ code, ofCode code xs = ofCode code ys)
    {e : ApiError} (mem : e ∈ xs) : e ∈ ys := by
  have found : e ∈ ofCode e.code xs := mem_ofCode.2 ⟨mem, rfl⟩
  rw [same] at found
  exact (mem_ofCode.1 found).1

/-- Neighbours of different codes can be exchanged. -/
theorem ofCode_swap {a b : ApiError} (other : a.code ≠ b.code) (rest : List ApiError)
    (code : Int) : ofCode code (b :: a :: rest) = ofCode code (a :: b :: rest) := by
  by_cases ha : a.code = code
  · have hb : b.code ≠ code := fun hb => other (ha.trans hb.symm)
    rw [ofCode_cons_of_ne hb, ofCode_cons_of_eq ha, ofCode_cons_of_eq ha, ofCode_cons_of_ne hb]
  · by_cases hb : b.code = code
    · rw [ofCode_cons_of_eq hb, ofCode_cons_of_ne ha, ofCode_cons_of_ne ha, ofCode_cons_of_eq hb]
    · rw [ofCode_cons_of_ne hb, ofCode_cons_of_ne ha, ofCode_cons_of_ne ha, ofCode_cons_of_ne hb]

/-- Two rows that are sorted by code are the same if they have the same errors of each code, in the
same order. -/
theorem eq_of_ofCode_eq {xs ys : List ApiError} (hx : xs.Pairwise fun a b => a.code ≤ b.code)
    (hy : ys.Pairwise fun a b => a.code ≤ b.code)
    (same : ∀ code, ofCode code xs = ofCode code ys) : xs = ys := by
  induction xs generalizing ys with
  | nil =>
    cases ys with
    | nil => rfl
    | cons y ys => cases mem_of_ofCode_eq (fun code => (same code).symm) List.mem_cons_self
  | cons x xs ih =>
    cases ys with
    | nil => cases mem_of_ofCode_eq same List.mem_cons_self
    | cons y ys =>
      obtain ⟨xLeast, hx⟩ := List.pairwise_cons.1 hx
      obtain ⟨yLeast, hy'⟩ := List.pairwise_cons.1 hy
      -- Both rows begin with an error of the least code that there is.
      have code : x.code = y.code := by
        have there : x ∈ y :: ys := mem_of_ofCode_eq same List.mem_cons_self
        have back : y ∈ x :: xs :=
          mem_of_ofCode_eq (fun code => (same code).symm) List.mem_cons_self
        rcases List.mem_cons.1 there with rfl | there
        · rfl
        rcases List.mem_cons.1 back with rfl | back
        · rfl
        exact Int.le_antisymm (xLeast y back) (yLeast x there)
      have heads := same y.code
      rw [ofCode_cons_of_eq code, ofCode_cons_of_eq rfl, List.cons.injEq] at heads
      obtain ⟨rfl, tails⟩ := heads
      refine congrArg (x :: ·) (ih hx hy' fun k => ?_)
      by_cases here : x.code = k
      · rw [← here]
        exact tails
      · have there := same k
        rwa [ofCode_cons_of_ne here, ofCode_cons_of_ne here] at there

theorem byCode_perm (errors : List ApiError) : (byCode errors).Perm errors :=
  List.mergeSort_perm errors _

/-- Codes are compared as numbers, so their order can be followed from error to error. -/
theorem codeOrder_trans (a b c : ApiError) (before : decide (a.code ≤ b.code) = true)
    (behind : decide (b.code ≤ c.code) = true) : decide (a.code ≤ c.code) = true :=
  decide_eq_true (Int.le_trans (of_decide_eq_true before) (of_decide_eq_true behind))

theorem codeOrder_total (a b : ApiError) :
    (decide (a.code ≤ b.code) || decide (b.code ≤ a.code)) = true := by
  rw [Bool.or_eq_true, decide_eq_true_eq, decide_eq_true_eq]
  exact Int.le_total a.code b.code

theorem pairwise_byCode (errors : List ApiError) :
    (byCode errors).Pairwise fun a b => a.code ≤ b.code :=
  (List.pairwise_mergeSort codeOrder_trans codeOrder_total errors).imp of_decide_eq_true

/-- **Errors of one code keep their order.** -/
theorem ofCode_byCode (code : Int) (errors : List ApiError) :
    ofCode code (byCode errors) = ofCode code errors := by
  have alike : (ofCode code errors).Pairwise fun a b => decide (a.code ≤ b.code) = true := by
    refine List.pairwise_of_forall_mem_list fun a ha b hb => decide_eq_true ?_
    exact Int.le_of_eq ((mem_ofCode.1 ha).2.trans (mem_ofCode.1 hb).2.symm)
  -- A sort keeps what is sorted already, and there are no more errors of the code after it.
  have kept : (ofCode code errors).Sublist (byCode errors) :=
    List.sublist_mergeSort codeOrder_trans codeOrder_total alike List.filter_sublist
  have inside : (ofCode code errors).Sublist (ofCode code (byCode errors)) := by
    simpa only [ofCode, List.filter_filter, Bool.and_self] using
      kept.filter fun e => decide (e.code = code)
  exact (inside.eq_of_length ((byCode_perm errors).filter _).length_eq.symm).symm

/-- **The order of errors of different codes does not matter.** -/
theorem byCode_eq_of_ofCode_eq {errors errors' : List ApiError}
    (same : ∀ code, ofCode code errors' = ofCode code errors) : byCode errors' = byCode errors := by
  refine eq_of_ofCode_eq (pairwise_byCode errors') (pairwise_byCode errors) fun code => ?_
  rw [ofCode_byCode, ofCode_byCode, same]

/-! ## Bodies -/

/-- An operation of any kind. -/
inductive AnyOperation where
  | create (o : Create)
  | read (o : Read)
  | update (o : Update)
  | delete (o : Delete)
  | patch (o : Patch)
  | action (o : Action)
  | query (o : Query)

namespace AnyOperation

/-- What it has in common with all others. -/
def common : AnyOperation → Operation
  | .create o => o.toOperation
  | .read o => o.toOperation
  | .update o => o.toOperation
  | .delete o => o.toOperation
  | .patch o => o.toOperation
  | .action o => o.toOperation
  | .query o => o.toOperation

/-- Its schemas. -/
def schemas : AnyOperation → List Schema
  | .action o => o.schemas
  | _ => []

/-- Its body in a manual. -/
def body : AnyOperation → Except Json.WriteFault (List Block)
  | .create o => createBlocks o
  | .read o => readBlocks o
  | .update o => updateBlocks o
  | .delete o => deleteBlocks o
  | .patch o => patchBlocks o
  | .action o => actionBlocks o
  | .query o => queryBlocks o

/-- The operation with other errors. -/
def withErrors (errors : List ApiError) : AnyOperation → AnyOperation
  | .create o => .create { o with errors }
  | .read o => .read { o with errors }
  | .update o => .update { o with errors }
  | .delete o => .delete { o with errors }
  | .patch o => .patch { o with errors }
  | .action o => .action { o with errors }
  | .query o => .query { o with errors }

end AnyOperation

/-- A table as it is read under its title, unless it has no rows. -/
def readUnder (title : String) (header : List String) (rows : List (List String)) :
    List (String × Option (List (List (List Char)))) :=
  if rows.isEmpty then [] else [(title, some (shownCells (header :: rows)))]

theorem hasNoTable_paragraph? (t : Option String) : HasNoTable (paragraph? t) := by
  rw [paragraph?, HasNoTable, List.forall_mem_map]
  exact fun _ _ => rfl

theorem hasNoTable_attributeBlocks (attributes : Attributes) :
    HasNoTable (attributeBlocks attributes) := by
  unfold attributeBlocks
  split
  · exact .nil
  · refine .append ?_ (List.forall_mem_singleton.2 rfl)
    rw [HasNoTable, List.forall_mem_map]
    exact fun _ _ => rfl

theorem hasNoTable_schemaBlocks {s : Schema} {blocks : List Block}
    (h : schemaBlocks s = .ok blocks) : HasNoTable blocks := by
  unfold schemaBlocks at h
  split at h
  · cases h
    simp [HasNoTable, Block.isTable]
  · obtain ⟨json, -, rfl⟩ := Result.map_eq_ok h
    simp [HasNoTable, Block.isTable]

theorem hasNoTable_titledSchema {title : String} {s : Option Schema} {blocks : List Block}
    (h : titledSchema title s = .ok blocks) : HasNoTable blocks := by
  cases s with
  | none =>
    cases h
    exact .nil
  | some s =>
    obtain ⟨body, written, rfl⟩ := Result.map_eq_ok h
    exact List.forall_mem_cons.2 ⟨rfl, hasNoTable_schemaBlocks written⟩

theorem head?_titledTable (title : String) (header : List String) (rows : List (List String)) :
    ∀ x ∈ (titledTable title header rows).head?, x.isTable = false := by
  unfold titledTable
  split <;> simp [Block.isTable]

/-- The tables of what the manual says about any operation. -/
theorem titledTables_operationBlocks (o : Operation) (own : Attributes) :
    titledTables (operationBlocks o own) =
      titledTables (titledTable "Parameters" parameterHeader (o.parameters.map parameterRow)) ++
        titledTables (titledTable "Errors" errorHeader ((byCode o.errors).map errorRow)) := by
  have front : HasNoTable (paragraph? o.description ++
      attributeBlocks (wordAttribute "Stability" o.stability ++ own ++
        listAttribute "Supported locales" o.supportedLocales)) :=
    (hasNoTable_paragraph? _).append (hasNoTable_attributeBlocks _)
  rw [operationBlocks, titledTables_append (head?_titledTable _ _ _),
    titledTables_append (head?_titledTable _ _ _), front.titledTables_eq, List.nil_append]

/-- A table of at least two columns is read as what it shows. -/
theorem read_titledTable (title : String) {header : List String} {rows : List (List String)}
    (several : ∀ row ∈ header :: rows, 2 ≤ row.length) :
    (titledTables (titledTable title header rows)).map (fun t => (t.1, readTable? t.2)) =
      readUnder title header rows := by
  rw [titledTable, readUnder]
  split
  · rfl
  · rw [titledTables, titledTables, List.map_singleton, readTable?_tableText several]

/-- A schema under a title is written if it can be, and so is none. -/
theorem exists_titledSchema_iff (title : String) {s : Option Schema} :
    (∃ blocks, titledSchema title s = .ok blocks) ↔
      ∀ x ∈ s.toList, ∃ blocks, schemaBlocks x = .ok blocks := by
  cases s with
  | none => exact ⟨fun _ => List.forall_mem_nil _, fun _ => ⟨[], rfl⟩⟩
  | some x =>
    rw [Option.toList_some, List.forall_mem_singleton]
    constructor
    · rintro ⟨blocks, written⟩
      obtain ⟨body, written, -⟩ := Result.map_eq_ok written
      exact ⟨body, written⟩
    · rintro ⟨body, written⟩
      exact ⟨_, congrArg (Except.map _) written⟩

/-- What is said about the schemas of an action. -/
def schemasOfAction (a : Action) : Except Json.WriteFault (List Block) := do
  let request ← titledSchema "Request" a.request
  let response ← titledSchema "Response" a.response
  return request ++ response

theorem exists_schemasOfAction_iff {a : Action} : (∃ blocks, schemasOfAction a = .ok blocks) ↔
    ∀ s ∈ a.schemas, ∃ blocks, schemaBlocks s = .ok blocks := by
  rw [Action.schemas, List.forall_mem_append, ← exists_titledSchema_iff "Request",
    ← exists_titledSchema_iff "Response", schemasOfAction]
  exact Result.exists_bind₂_iff

theorem actionBlocks_eq (a : Action) : actionBlocks a =
    withCodes a.errors ((schemasOfAction a).map (operationBlocks a.toOperation [] ++ ·)) := by
  rw [actionBlocks, operationBody, schemasOfAction, withCodes, withCodes]
  split
  · cases titledSchema "Request" a.request with
    | error fault => rfl
    | ok request =>
      cases titledSchema "Response" a.response with
      | error fault => rfl
      | ok response => exact congrArg Except.ok (List.append_assoc _ _ _)
  · rfl

/-- Of what the body of an operation is made: attributes of its own among what is said about any
operation, and behind it what is said about its schemas. -/
structure AnyOperation.IsMadeOf (o : AnyOperation) (own : Attributes)
    (behind : Except Json.WriteFault (List Block)) : Prop where
  bare : ∀ blocks, behind = .ok blocks → HasNoTable blocks
  written : (∃ blocks, behind = .ok blocks) ↔
    ∀ s ∈ o.schemas, ∃ blocks, schemaBlocks s = .ok blocks
  body : ∀ errors, (o.withErrors errors).body =
    withCodes errors (behind.map (operationBlocks { o.common with errors } own ++ ·))

/-- The body of an operation without schemas ends with the tables. -/
theorem AnyOperation.isMadeOf_of_body {o : AnyOperation} {own : Attributes} (none : o.schemas = [])
    (body : ∀ errors, (o.withErrors errors).body =
      operationBody { o.common with errors } own) : o.IsMadeOf own (.ok []) where
  bare blocks h := by
    cases h
    exact .nil
  written := by
    rw [none]
    exact ⟨fun _ => List.forall_mem_nil _, fun _ => ⟨[], rfl⟩⟩
  body errors := by
    rw [body, operationBody]
    exact congrArg (withCodes errors) (congrArg Except.ok (List.append_nil _).symm)

theorem AnyOperation.exists_isMadeOf (o : AnyOperation) : ∃ own behind, o.IsMadeOf own behind := by
  cases o with
  | create o =>
    exact ⟨wordAttribute "Mode" o.mode ++ mvccAttribute o.mvccSupported, _,
      isMadeOf_of_body rfl fun _ => rfl⟩
  | read o => exact ⟨[], _, isMadeOf_of_body rfl fun _ => rfl⟩
  | update o => exact ⟨mvccAttribute o.mvccSupported, _, isMadeOf_of_body rfl fun _ => rfl⟩
  | delete o => exact ⟨mvccAttribute o.mvccSupported, _, isMadeOf_of_body rfl fun _ => rfl⟩
  | patch o =>
    exact ⟨listAttribute "Patch operations" (o.operations.map Choice.spelling) ++
      mvccAttribute o.mvccSupported, _, isMadeOf_of_body rfl fun _ => rfl⟩
  | query o =>
    exact ⟨("Query type", Choice.spelling o.type) ::
      (nonEmpty? o.queryId).toList.map (fun id => ("Query ID", monoText id)) ++
      wordAttribute "Paging mode" o.pagingMode ++
      listAttribute "Count policies" (o.countPolicies.map Choice.spelling) ++
      listAttribute "Queryable fields" o.queryableFields ++
      listAttribute "Sort keys" o.sortKeys, _, isMadeOf_of_body rfl fun _ => rfl⟩
  | action o =>
    refine ⟨[], schemasOfAction o, fun blocks h => ?_, exists_schemasOfAction_iff,
      fun errors => actionBlocks_eq { o with errors }⟩
    obtain ⟨request, hreq, h⟩ := Result.bind_eq_ok h
    obtain ⟨response, hres, h⟩ := Result.bind_eq_ok h
    cases h
    exact (hasNoTable_titledSchema hreq).append (hasNoTable_titledSchema hres)

theorem AnyOperation.withErrors_self (o : AnyOperation) : o.withErrors o.common.errors = o := by
  cases o <;> rfl

/-- An operation has a body if its codes have texts and its schemas can be written. -/
theorem AnyOperation.exists_body_iff (o : AnyOperation) : (∃ body, o.body = .ok body) ↔
    (∀ e ∈ o.common.errors, Text.hasIntText e.code = true) ∧
      ∀ s ∈ o.schemas, ∃ blocks, schemaBlocks s = .ok blocks := by
  obtain ⟨own, behind, made⟩ := o.exists_isMadeOf
  have body := made.body o.common.errors
  rw [withErrors_self] at body
  rw [body, ← made.written]
  simp only [withCodes_eq_ok_iff, exists_and_left, Result.exists_map_iff]

/-- A body fails only with one of the codes or schemas in it. -/
theorem AnyOperation.isHindered_of_body {o : AnyOperation} {fault : Json.WriteFault}
    (h : o.body = .error fault) : IsHindered o.common.errors o.schemas fault := by
  cases o with
  | action o => exact isHindered_of_actionBlocks h
  | create o => exact isHindered_of_operationBody h
  | read o => exact isHindered_of_operationBody h
  | update o => exact isHindered_of_operationBody h
  | delete o => exact isHindered_of_operationBody h
  | patch o => exact isHindered_of_operationBody h
  | query o => exact isHindered_of_operationBody h

/-- The tables of a body, as they are read. -/
theorem AnyOperation.read_titledTables {o : AnyOperation} {body : List Block}
    (h : o.body = .ok body) :
    (titledTables body).map (fun t => (t.1, readTable? t.2)) =
      readUnder "Parameters" parameterHeader (o.common.parameters.map parameterRow) ++
        readUnder "Errors" errorHeader ((byCode o.common.errors).map errorRow) := by
  have parameters : ∀ row ∈ parameterHeader :: o.common.parameters.map parameterRow,
      2 ≤ row.length := by
    refine List.forall_mem_cons.2 ⟨by decide, List.forall_mem_map.2 fun p _ => ?_⟩
    show 2 ≤ 7
    omega
  have errors : ∀ row ∈ errorHeader :: (byCode o.common.errors).map errorRow,
      2 ≤ row.length := by
    refine List.forall_mem_cons.2 ⟨by decide, List.forall_mem_map.2 fun e _ => ?_⟩
    show 2 ≤ 2
    omega
  obtain ⟨own, behind, made⟩ := o.exists_isMadeOf
  have whole := made.body o.common.errors
  rw [withErrors_self, h] at whole
  obtain ⟨rest, given, rfl⟩ := Result.map_eq_ok (withCodes_eq_ok_iff.1 whole.symm).2
  have noTable := made.bare rest given
  rw [titledTables_append noTable.head?, noTable.titledTables_eq, List.append_nil,
    titledTables_operationBlocks, List.map_append, read_titledTable _ parameters,
    read_titledTable _ errors]

/-- What is said with codes depends on them alone, and not on their order. -/
theorem withCodes_congr {errors errors' : List ApiError} (same : ∀ e, e ∈ errors' ↔ e ∈ errors)
    (body : Except Json.WriteFault (List Block)) : withCodes errors' body = withCodes errors body := by
  have all : (errors'.all fun e => Text.hasIntText e.code) =
      errors.all fun e => Text.hasIntText e.code := by
    rw [Bool.eq_iff_iff, List.all_eq_true, List.all_eq_true]
    exact forall_congr' fun e => imp_congr_left (same e)
  rw [withCodes, withCodes, all]

/-- **The tables of an operation lose nothing.**  An operation has a body unless the code of an
error has no text or a schema cannot be written, and it is then that the body fails.  A body has a
table of parameters and one of errors, unless there are none, and no others.  From their texts,
which stand in the text of the body, the parameters are read in their order, and the errors sorted
by code, those of one code in their order.  Codes are compared as numbers, and written in full.

So it does not matter for the body in which order errors of different codes are given. -/
theorem tables_of_operation (o : AnyOperation) :
    ((∃ body, o.body = .ok body) ↔ (∀ e ∈ o.common.errors, Text.hasIntText e.code = true) ∧
      ∀ s ∈ o.schemas, ∃ blocks, schemaBlocks s = .ok blocks) ∧
    (∀ fault, o.body = .error fault → IsHindered o.common.errors o.schemas fault) ∧
    (∃ sorted : List ApiError, sorted.Perm o.common.errors ∧
      (sorted.Pairwise fun a b => a.code ≤ b.code) ∧
      (∀ code, ofCode code sorted = ofCode code o.common.errors) ∧
      ∀ body, o.body = .ok body →
        (titledTables body).map (fun t => (t.1, readTable? t.2)) =
          readUnder "Parameters"
            ["Name", "Type", "Source", "Required", "Default", "Values", "Description"]
            (o.common.parameters.map fun p =>
              [p.name, p.type, Choice.spelling p.source, if p.required then "yes" else "no",
                p.defaultValue.getD "", ", ".intercalate p.enumValues, p.description.getD ""]) ++
          readUnder "Errors" ["Code", "Description"]
            (sorted.map fun e => [toString e.code, e.description]) ∧
        ∀ t ∈ titledTables body, ∃ before behind,
          render body = before ++ ("." ++ t.1 ++ "\n") ++ t.2 ++ behind) ∧
    ∀ errors, (∀ code, ofCode code errors = ofCode code o.common.errors) →
      (o.withErrors errors).body = o.body := by
  refine ⟨o.exists_body_iff, fun fault h => AnyOperation.isHindered_of_body h,
    ⟨byCode o.common.errors, byCode_perm _, pairwise_byCode _, fun code => ofCode_byCode code _,
      fun body h => ⟨?_, fun t mem => exists_render_of_mem_titledTables mem⟩⟩,
    fun errors same => ?_⟩
  · have rows : errorRow = fun e => [toString e.code, e.description] :=
      funext fun e => by rw [errorRow, Text.intText_eq_toString]
    rw [← rows]
    exact AnyOperation.read_titledTables h
  · -- An operation shows its errors only by code.
    obtain ⟨own, behind, made⟩ := o.exists_isMadeOf
    have given := made.body o.common.errors
    rw [AnyOperation.withErrors_self] at given
    have alike (e : ApiError) : e ∈ errors ↔ e ∈ o.common.errors :=
      ⟨mem_of_ofCode_eq same, mem_of_ofCode_eq fun code => (same code).symm⟩
    rw [made.body errors, given, withCodes_congr alike]
    simp only [operationBlocks, byCode_eq_of_ofCode_eq same]

/-- An action with a bar and a line feed in a description, and with two errors of one code. -/
def resize : Action where
  description := none
  supportedLocales := []
  parameters :=
    [⟨"size", "integer", .additional, false, none, some "s|m\nor l", ["1", "20"]⟩]
  errors := [⟨404, "no element", none⟩, ⟨-1, "below", none⟩, ⟨404, "no list", none⟩,
    ⟨1000, "above", none⟩]
  stability := none
  name := "resize"
  request := none
  response := none

/-- Its errors in another order. -/
def resizeErrors : List ApiError :=
  [⟨-1, "below", none⟩, ⟨404, "no element", none⟩, ⟨404, "no list", none⟩, ⟨1000, "above", none⟩]

/-- What is read from its body, and that it stays the same with its errors in the other order. -/
theorem tables_of_resize : ∃ body, (AnyOperation.action resize).body = .ok body ∧
    (titledTables body).map (fun t => (t.1, readTable? t.2)) =
      [("Parameters", some (shownCells
        [["Name", "Type", "Source", "Required", "Default", "Values", "Description"],
          ["size", "integer", "ADDITIONAL", "no", "", "1, 20", "s|m or l"]])),
        ("Errors", some (shownCells [["Code", "Description"], ["-1", "below"],
          ["404", "no element"], ["404", "no list"], ["1000", "above"]]))] ∧
    (AnyOperation.action { resize with errors := resizeErrors }).body = .ok body := by
  obtain ⟨-, -, ⟨sorted, -, ordered, same, tables⟩, again⟩ := tables_of_operation (.action resize)
  have swapped : ∀ code, ofCode code resizeErrors = ofCode code resize.errors :=
    ofCode_swap (by decide) _
  have found : sorted = resizeErrors :=
    eq_of_ofCode_eq ordered (by decide) fun code => (same code).trans (swapped code).symm
  rw [found] at tables
  exact ⟨_, rfl, (tables _ rfl).1.trans (by decide +kernel), again resizeErrors swapped⟩

/-- An operation to read with one error. -/
def readWithCode (code : Int) : Read where
  description := none
  supportedLocales := []
  parameters := []
  errors := [⟨code, "beyond", none⟩]
  stability := none

theorem body_readWithCode {code : Int} (long : Text.hasIntText code = false) :
    (AnyOperation.read (readWithCode code)).body = .error .number :=
  withCodes_of_long (List.mem_singleton_self _) long

/-- **Not every operation has its tables.**  If its code has too many digits, then this operation
has no body, and it has no schemas that could be in the way. -/
theorem operation_without_tables :
    (AnyOperation.read (readWithCode (10 ^ Text.mostDigits))).schemas = [] ∧
      ∀ body, (AnyOperation.read (readWithCode (10 ^ Text.mostDigits))).body ≠ .ok body := by
  refine ⟨rfl, fun body h => ?_⟩
  rw [body_readWithCode Text.hasIntText_pow] at h
  cases h

end Manual
end ApiManual
