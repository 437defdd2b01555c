import ZigPsql.Postgres.Requests

/-!
# What is taken of a server

The server is a parameter: its states, the tables that names lead to in them,
and the statements it refuses for a reason of its own. What is taken of it is
what PostgreSQL documents of the statements here. A server made of tables is an
instance.
-/

namespace Postgres
open Text Libpq

/-- Tables by name, each but for the order of its rows. -/
abbrev Relations := Bytes → Option Relation

namespace Relations
variable (db : Relations)

def Distinct : Prop := ∀ name r, db name = some r → (r.columns.map Column.name).Nodup

def create (name : Bytes) (columns : List Column) : Option Relations :=
  match db name with
  | some _ => some db
  | none =>
    if (systemColumns ++ columns.map Column.name).Nodup ∧ columns.length ≤ maxColumns then
      some (Function.update db name (some ⟨columns, 0⟩))
    else none

variable {db} {name : Bytes}

theorem create_existing {r : Relation} (h : db name = some r) (columns : List Column) :
    db.create name columns = some db := by
  simp only [create, h]

theorem create_fresh (h : db name = none) {columns : List Column}
    (hn : (systemColumns ++ columns.map Column.name).Nodup) (hc : columns.length ≤ maxColumns) :
    db.create name columns = some (Function.update db name (some ⟨columns, 0⟩)) := by
  simp only [create, h, hn, hc, and_self, if_true]

theorem create_refused (h : db name = none) {columns : List Column}
    (hnot : ¬ ((systemColumns ++ columns.map Column.name).Nodup ∧ columns.length ≤ maxColumns)) :
    db.create name columns = none := by
  simp only [create, h, if_neg hnot]

end Relations

def rowOf (S : Settings) (columns : List Column) (values : List Constant) : Option Tuple :=
  if columns.length < values.length then none
  else ((coerceRow S columns values).toOption.map Subtype.val).filter S.fits

def Relations.insert (S : Settings) (db : Relations) (name : Bytes) (values : List Constant) : Option Relations :=
  (db name).bind fun r => (rowOf S r.columns values).map fun row => Function.update db name (some (r.plus row))

/-- A name that stands for a column or for nothing: it is no system column's and no function's. -/
def Settings.columnOnly (S : Settings) (name : Bytes) : Bool := !systemColumns.contains name && !S.functions name

def Output.list : Output → List ColumnRef
  | .all => []
  | .refs list => list

/-- No reference of the join can mean a system column, a function or a whole row. -/
def Settings.Ordinary (S : Settings) (l r v : Bytes) (out : Output) : Prop :=
  S.columnOnly v = true ∧
    ∀ ref ∈ out.list, S.columnOnly ref.name = true ∧ (ref.table = none → ref.name ≠ l ∧ ref.name ≠ r)

structure Shows (d : ResultData) (r : Relation) : Prop where
  status : d.status = .tuplesOk
  names : d.fnames = r.columns.map Column.name
  tuples : (d.tuples : Multiset _) = r.rows.map fun row => row.map fun cell => cell.map Datum.output

structure Engine (σ : Type) where
  server : Server σ
  /-- The tables that names lead to. -/
  tables : σ → Relations
  /-- The statements it refuses for a reason of its own: rights, locks, space, limits, names that are
  not valid in the encoding. -/
  refuses : σ → Bytes → Prop

namespace Engine

section
variable {σ : Type} (E : Engine σ) (s : σ) (text : Bytes)

def reply : Reply := (E.server.exec s text).1
def after : σ := (E.server.exec s text).2

/-- An error with the SQLSTATE `code`, on a connection that stays up. -/
def Fails (code : Bytes) : Prop :=
  E.reply s text = ⟨some (.plain .fatalError (some code)), true⟩ ∧ E.tables (E.after s text) = E.tables s

/-- An error, and not that of a key. -/
def Rejects : Prop := ∃ code, 0 ∉ code ∧ code ≠ ascii "23505" ∧ E.Fails s text code

/-- The statement leaves these tables, or is rejected where there are none. -/
def Becomes : Option Relations → Prop
  | some db => E.reply s text = ⟨some (.plain .commandOk none), true⟩ ∧ E.tables (E.after s text) = db
  | none => E.Rejects s text

/-- The query gives this relation, or is rejected where there is none. -/
def Gives : Option Relation → Prop
  | some r => ∃ d, E.reply s text = ⟨some d, true⟩ ∧ Shows d r ∧ E.tables (E.after s text) = E.tables s
  | none => E.Rejects s text

/-- No state stands against the statement. -/
def Takes : Prop := ∀ s, ¬ E.refuses s text

end

/-! ### The assumptions -/

variable {σ : Type}

/-- What the statements do, where the server has no reason of its own against them. -/
structure Executes (E : Engine σ) (S : Settings) : Prop where
  creates {s : σ} {text name : Bytes} {columns : List Column} :
    S.reads text = some (.statement (.createTable name columns)) → S.others name = false → ¬ E.refuses s text →
      E.Becomes s text ((E.tables s).create name columns)
  inserts {s : σ} {text name : Bytes} {values : List Constant} :
    S.reads text = some (.statement (.insert name values)) → S.others name = false → ¬ E.refuses s text →
      E.Becomes s text ((E.tables s).insert S name values)
  lacksValue {s : σ} {text name : Bytes} {items : List (List Token)} :
    lex true text = some (insertTokens name ([.self 44].intercalate items)) →
      (∀ item ∈ items, item = placeholder ∨ (constant item).isSome = true) → items = [] ∨ placeholder ∈ items →
      ¬ E.refuses s text → E.Rejects s text
  selects {s : σ} {text name : Bytes} :
    S.reads text = some (.statement (.selectAll name)) → S.others name = false → ¬ E.refuses s text →
      E.Gives s text (E.tables s name)
  joins {s : σ} {text l r v : Bytes} {out : Output} :
    S.reads text = some (.join ⟨out, l, r, ⟨some l, v⟩, ⟨some r, v⟩⟩) → S.others l = false → S.others r = false →
      S.Ordinary l r v out → (E.tables s).Distinct → ¬ E.refuses s text →
      E.Gives s text (namedJoin l r (E.tables s) v out).toOption
  refusal {s : σ} {text : Bytes} : E.refuses s text → ∃ code, E.Fails s text code

/-- What is taken of CREATE TABLE alone, on a server that may also fail for reasons of its own and
lose the connection. -/
structure Creates (E : Engine σ) (S : Settings) : Prop where
  done {s : σ} {text name : Bytes} {columns : List Column} {d : ResultData} :
    S.reads text = some (.statement (.createTable name columns)) → S.others name = false →
      (E.reply s text).result = some d → d.status = .tuplesOk ∨ d.status = .commandOk →
      (E.tables s).create name columns = some (E.tables (E.after s text))
  kept {s : σ} {text name : Bytes} {columns : List Column} :
    S.reads text = some (.statement (.createTable name columns)) → S.others name = false →
      (E.reply s text).alive = true →
      (∀ d, (E.reply s text).result = some d → ¬ (d.status = .tuplesOk ∨ d.status = .commandOk)) →
      E.tables (E.after s text) = E.tables s

theorem Executes.toCreates {E : Engine σ} {S : Settings} (h : E.Executes S) : E.Creates S := by
  have hfails {s : σ} {text code : Bytes} (hf : E.Fails s text code) {d : ResultData}
      (hd : (E.reply s text).result = some d) : ¬ (d.status = .tuplesOk ∨ d.status = .commandOk) := by
    rw [hf.1] at hd
    cases hd
    simp [ResultData.plain]
  have hcases {s : σ} {text name : Bytes} {columns : List Column}
      (hr : S.reads text = some (.statement (.createTable name columns))) (hfree : S.others name = false) :
      (∃ code, E.Fails s text code) ∨ ∃ db, (E.tables s).create name columns = some db ∧
        E.reply s text = ⟨some (.plain .commandOk none), true⟩ ∧ E.tables (E.after s text) = db := by
    by_cases href : E.refuses s text
    · exact .inl (h.refusal href)
    have hbecomes := h.creates hr hfree href
    cases hc : (E.tables s).create name columns with
    | none =>
      rw [hc] at hbecomes
      obtain ⟨code, -, -, hf⟩ := hbecomes
      exact .inl ⟨code, hf⟩
    | some db =>
      rw [hc] at hbecomes
      exact .inr ⟨db, rfl, hbecomes⟩
  constructor
  · intro s text name columns d hr hfree hd hok
    rcases @hcases s text name columns hr hfree with ⟨code, hf⟩ | ⟨db, hc, -, hdb⟩
    · exact absurd hok (hfails hf hd)
    · rw [hc, hdb]
  · intro s text name columns hr hfree _ hno
    rcases @hcases s text name columns hr hfree with ⟨code, hf⟩ | ⟨db, -, hreply, -⟩
    · exact hf.2
    · exact absurd (.inr rfl) (hno _ (by rw [hreply]))

end Engine

/-! ### A server made of tables -/

section
variable (S : Settings) (plan : Plan) (db : Database)

def Table.arranged (t : Table) (plan : Plan) : Table where
  columns := t.columns
  rows := plan.arrange t.rows
  rect row hrow := t.rect row ((plan.perm _).mem_iff.mp hrow)

def perform : Request → Except Bytes (ResultData × Database)
  | .join q => ((joined plan db q).map fun t => (t.data, db)).mapError JoinRefusal.sqlstate
  | .statement (.selectAll name) =>
    match db name with
    | none => .error Refusal.undefinedTable.sqlstate
    | some t => .ok ((t.arranged plan).data, db)
  | .statement s => (execute S db s).mapError Refusal.sqlstate

def respond (text : Bytes) : Except Bytes (ResultData × Database) :=
  match S.reads text with
  | none => .error Refusal.syntaxError.sqlstate
  | some r => perform S plan db r

def replied (text : Bytes) : ResultData × Database :=
  match respond S plan db text with
  | .ok reply => reply
  | .error code => (.plain .fatalError (some code), db)

/-- It accepts every connection, and keeps it up. -/
def relational : Server Database where
  connect db _ := (some true, db)
  exec db text := (⟨some (replied S plan db text).1, true⟩, (replied S plan db text).2)

def relations : Relations := fun name => (db name).map Table.relation

/-- The server made of tables, which refuses nothing for reasons of its own. -/
def reference : Engine Database := ⟨relational S plan, relations, fun _ _ => False⟩

theorem replied_ok {text : Bytes} {reply : ResultData × Database} (h : respond S plan db text = .ok reply) :
    replied S plan db text = reply := by
  rw [replied, h]

theorem replied_error {text code : Bytes} (h : respond S plan db text = .error code) :
    replied S plan db text = (.plain .fatalError (some code), db) := by
  rw [replied, h]

theorem relations_update (name : Bytes) (t : Table) :
    relations (Function.update db name (some t)) = Function.update (relations db) name (some t.relation) := by
  funext n
  by_cases hn : n = name
  · subst hn
    simp [relations]
  · simp [relations, Function.update_of_ne hn]

theorem arranged_relation (t : Table) : (t.arranged plan).relation = t.relation := by
  rw [Table.relation, Table.relation, Table.arranged, Multiset.coe_eq_coe.mpr (plan.perm t.rows)]

theorem push_relation (t : Table) (row : { row : List (Option Datum) // row.length = t.columns.length }) :
    (t.push row).relation = t.relation.plus row.val := by
  rw [Table.relation, Table.relation, Relation.plus, ← Multiset.coe_singleton, Multiset.coe_add]
  rfl

theorem shows_data (t : Table) : Shows t.data t.relation := ⟨rfl, rfl, rfl⟩

end

/-! ### It meets the assumptions -/

section
variable {S : Settings} {plan : Plan} {db : Database} {text : Bytes}

theorem fails_reference {code : Bytes} (h : respond S plan db text = .error code) :
    (reference S plan).Fails db text code := by
  have hreplied := replied_error S plan db h
  constructor
  · simp [Engine.reply, reference, relational, hreplied]
  · simp [Engine.after, reference, relational, hreplied]

theorem rejects_reference {r : Refusal} (h : respond S plan db text = .error r.sqlstate) :
    (reference S plan).Rejects db text :=
  ⟨r.sqlstate, by cases r <;> decide, by cases r <;> decide, fails_reference h⟩

theorem reply_reference {d : ResultData} {db' : Database} (h : respond S plan db text = .ok (d, db')) :
    (reference S plan).reply db text = ⟨some d, true⟩ ∧ (reference S plan).after db text = db' := by
  have hreplied := replied_ok S plan db h
  constructor
  · simp [Engine.reply, reference, relational, hreplied]
  · simp [Engine.after, reference, relational, hreplied]

theorem becomes_reference {request : Statement} (hr : S.reads text = some (.statement request))
    (hs : ∀ name, request ≠ .selectAll name) {result : Option Relations}
    (h : (∃ r, execute S db request = .error r ∧ result = none) ∨
      ∃ db', execute S db request = .ok (.plain .commandOk none, db') ∧ result = some (relations db')) :
    (reference S plan).Becomes db text result := by
  have hrespond : respond S plan db text = (execute S db request).mapError Refusal.sqlstate := by
    rw [respond, hr]
    cases request with
    | selectAll name => exact absurd rfl (hs name)
    | createTable | insert => rfl
  rcases h with ⟨r, he, rfl⟩ | ⟨db', he, rfl⟩
  · rw [he] at hrespond
    exact rejects_reference hrespond
  · rw [he] at hrespond
    obtain ⟨hreply, hafter⟩ := reply_reference hrespond
    exact ⟨hreply, congrArg relations hafter⟩

theorem gives_reference {t : Table} (h : respond S plan db text = .ok (t.data, db)) :
    (reference S plan).Gives db text (some t.relation) := by
  obtain ⟨hreply, hafter⟩ := reply_reference h
  exact ⟨t.data, hreply, shows_data t, congrArg relations hafter⟩

end

theorem execute_createTable (S : Settings) (db : Database) (name : Bytes) (columns : List Column) :
    (∃ r, execute S db (.createTable name columns) = .error r ∧ (relations db).create name columns = none) ∨
      ∃ db', execute S db (.createTable name columns) = .ok (.plain .commandOk none, db') ∧
        (relations db).create name columns = some (relations db') := by
  cases hdb : db name with
  | some t =>
    refine .inr ⟨db, ?_, ?_⟩
    · simp only [execute, createTable, hdb]
      rfl
    · simp [Relations.create, relations, hdb]
  | none =>
    by_cases hn : (systemColumns ++ columns.map Column.name).Nodup
    · by_cases hc : columns.length ≤ maxColumns
      · refine .inr ⟨Function.update db name (some (.empty columns)), ?_, ?_⟩
        · simp only [execute, createTable, hdb, hn, not_lt.mpr hc, not_true_eq_false, if_false]
          rfl
        · rw [relations_update]
          simp only [Relations.create, relations, hdb, hn, hc, Option.map_none, and_self, if_true]
          rfl
      · refine .inl ⟨.tooManyColumns, ?_, ?_⟩
        · simp only [execute, createTable, hdb, hn, not_le.mp hc, not_true_eq_false, if_false, if_true]
          rfl
        · simp [Relations.create, relations, hdb, hc]
    · refine .inl ⟨.duplicateColumn, ?_, ?_⟩
      · simp only [execute, createTable, hdb, hn, not_false_eq_true, if_true]
        rfl
      · simp [Relations.create, relations, hdb, hn]

theorem execute_insert (S : Settings) (db : Database) (name : Bytes) (values : List Constant) :
    (∃ r, execute S db (.insert name values) = .error r ∧ (relations db).insert S name values = none) ∨
      ∃ db', execute S db (.insert name values) = .ok (.plain .commandOk none, db') ∧
        (relations db).insert S name values = some (relations db') := by
  cases hdb : db name with
  | none => exact .inl ⟨.undefinedTable, by simp only [execute, hdb], by simp [Relations.insert, relations, hdb]⟩
  | some t =>
    have hinsert : (relations db).insert S name values = (rowOf S t.columns values).map fun row =>
        Function.update (relations db) name (some (t.relation.plus row)) := by
      simp [Relations.insert, relations, hdb, Table.relation]
    rw [hinsert]
    by_cases hlen : t.columns.length < values.length
    · refine .inl ⟨.syntaxError, ?_, by rw [rowOf, if_pos hlen]; rfl⟩
      simp only [execute, hdb, Table.insert, hlen, if_true]
      rfl
    · cases hrow : coerceRow S t.columns values with
      | error e =>
        refine .inl ⟨e, ?_, by rw [rowOf, if_neg hlen, hrow]; rfl⟩
        simp only [execute, hdb, Table.insert, hlen, if_false, hrow]
        rfl
      | ok row =>
        have hof : rowOf S t.columns values = (some row.val).filter S.fits := by
          rw [rowOf, if_neg hlen, hrow]
          rfl
        have hinserted : t.insert S values = if S.fits row.val then .ok (t.push row) else .error .rowTooBig := by
          simp only [Table.insert, hlen, if_false, hrow]
          rfl
        simp only [execute, hdb, hinserted, hof]
        by_cases hfits : S.fits row.val = true
        · refine .inr ⟨Function.update db name (some (t.push row)), by simp only [hfits, if_true]; rfl, ?_⟩
          rw [relations_update, push_relation, Option.filter_some, if_pos hfits, Option.map_some]
        · exact .inl ⟨.rowTooBig, by simp only [hfits]; rfl, by simp [hfits]⟩

/-- A list that lacks a value is no list of constants, or an empty one. -/
theorem valueList_lacks {items : List (List Token)}
    (h : ∀ item ∈ items, item = placeholder ∨ (constant item).isSome = true)
    (hlacks : items = [] ∨ placeholder ∈ items) :
    valueList ([.self 44].intercalate items) = none ∨ valueList ([.self 44].intercalate items) = some [] := by
  have hparts : ∀ item ∈ items, item ≠ [] ∧ Token.self 44 ∉ item := by
    intro item hitem
    rcases h item hitem with hplace | hsome
    · rw [hplace]
      exact ⟨List.cons_ne_nil _ _, by decide⟩
    · unfold constant at hsome
      split at hsome <;> simp_all
  rcases hlacks with rfl | hmem
  · exact .inr rfl
  · rw [valueList, commaList_intercalate constant hparts]
    exact .inl (mapM_none hmem rfl)

theorem reference_executes (S : Settings) (plan : Plan) : (reference S plan).Executes S where
  creates {db text name columns} hr _ _ := becomes_reference hr (by simp) (execute_createTable S db name columns)
  inserts {db text name values} hr _ _ := becomes_reference hr (by simp) (execute_insert S db name values)
  lacksValue {db text name items} hlex hitems hlacks _ := by
    have hreads : S.reads text = none := by
      have hparse : parse (insertTokens name ([.self 44].intercalate items)) = none := by
        rw [parse_insertTokens]
        rcases valueList_lacks hitems hlacks with hlist | hlist <;> simp [hlist]
      rw [reads_notSelect _ _ (by decide) S hlex]
      exact congrArg (Option.map _) hparse
    exact rejects_reference (r := .syntaxError) (by rw [respond, hreads])
  selects {db text name} hr _ _ := by
    cases hdb : db name with
    | none =>
      have hnone : (reference S plan).tables db name = none := by simp [reference, relations, hdb]
      rw [hnone]
      exact rejects_reference (r := .undefinedTable) (by simp [respond, hr, perform, hdb])
    | some t =>
      have hsome : (reference S plan).tables db name = some (t.arranged plan).relation := by
        simp [reference, relations, hdb, arranged_relation]
      rw [hsome]
      exact gives_reference (by simp [respond, hr, perform, hdb])
  joins {db text l r v out} hr _ _ _ hdistinct _ := by
    have hcolumns (n : Bytes) (t : Table) (ht : db n = some t) : (t.columns.map Column.name).Nodup :=
      hdistinct n t.relation (by simp [reference, relations, ht])
    have hnamed := joined_named plan hcolumns l r v out
    change _ = namedJoin l r ((reference S plan).tables db) v out at hnamed
    rw [← hnamed]
    cases hj : joined plan db ⟨out, l, r, ⟨some l, v⟩, ⟨some r, v⟩⟩ with
    | error e =>
      have hrespond : respond S plan db text = .error e.sqlstate := by
        simp only [respond, hr, perform, hj]
        rfl
      exact ⟨e.sqlstate, by cases e <;> decide, by cases e <;> decide, fails_reference hrespond⟩
    | ok t =>
      have hrespond : respond S plan db text = .ok (t.data, db) := by
        simp only [respond, hr, perform, hj]
        rfl
      exact gives_reference hrespond
  refusal h := h.elim

end Postgres
