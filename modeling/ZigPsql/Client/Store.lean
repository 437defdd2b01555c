import ZigPsql.Client.Fidelity
import ZigPsql.Client.ValueList
import ZigPsql.Postgres.Engine

/-!
# What the wrapper is for: tables, rows and joins

The tables as a caller sees them, each but for the order of its rows, and what
the calls are to do with them. Nothing here is read off a text.
-/

namespace Psql
open Text Zig Postgres

/-! ### What a caller may ask -/

structure Name where
  text : Bytes
  plain : plainName text = true

/-- The name as the server folds and cuts it. -/
def Name.ident (S : Settings) (n : Name) : Bytes := S.clip (fold n.text)

/-- A tuple whose elements QParams renders and separates. -/
structure Params where
  values : List Value
  listed : listed values = true
  sendable : ∀ v ∈ values, sendable v = true

structure Declaration where
  type : TypeArg
  plain : plainType type = true

structure Columns where
  output : Output
  plain : plainOutput output = true

inductive Operation where
  | declare (d : Declaration)
  | append (table : Name) (tuple : Params)
  | read (table : Name)
  | join (mainTable joinTable joinValue : Name) (columns : Columns)

/-- No name leads to a relation that is not such a table, and references are to columns. -/
def Operation.Within (S : Settings) : Operation → Prop
  | .declare d => S.others (tableName S d.type) = false
  | .append table _ | .read table => S.others (table.ident S) = false
  | .join mainTable joinTable joinValue columns =>
    S.others (mainTable.ident S) = false ∧ S.others (joinTable.ident S) = false ∧
      S.Ordinary (mainTable.ident S) (joinTable.ident S) (joinValue.ident S) (S.output (foldOutput columns.output))

/-! ### What is to come of it -/

abbrev Store := Relations

inductive Answer where
  | done
  | rows (r : Relation)
  | failed (e : Errors)
  deriving DecidableEq

/-- The number or the string that an element stands for; a float whose text has no room in the print
buffer stands for none. -/
def constantFor : Value → Option Constant
  | .int _ _ v | .comptimeInt v => some (.number v)
  | .float _ (.finite d) | .comptimeFloat (.finite d) => if d.fits then some (.number (decimalValue d)) else none
  | .pointer _ _ _ _ bytes => some (.string bytes)
  | _ => none

/-- The row that a tuple makes in a table of these columns. It has a value, and none too many. -/
def rowFor (S : Settings) (columns : List Column) (values : List Value) : Option Postgres.Tuple :=
  (values.mapM constantFor).bind fun constants => if constants = [] then none else rowOf S columns constants

namespace Store

def declare (S : Settings) (s : Store) (d : Declaration) : Except Errors Store :=
  match d.type.info with
  | .other => .error .NotAStruct
  | .struct _ => (s.create (tableName S d.type) (declared S d.type)).elim (.error .QueryFailed) .ok

/-- The store with the row of the tuple in the table. -/
def appended (S : Settings) (s : Store) (name : Bytes) (values : List Value) : Option Store :=
  (s name).bind fun r => (rowFor S r.columns values).map fun row => Function.update s name (some (r.plus row))

def append (S : Settings) (s : Store) (table : Name) (tuple : Params) : Except Errors Store :=
  (s.appended S (table.ident S) tuple.values).elim (.error .InsertionFailed) .ok

def read (S : Settings) (s : Store) (table : Name) : Except Errors Relation :=
  (s (table.ident S)).elim (.error .QueryFailed) .ok

def join (S : Settings) (s : Store) (mainTable joinTable joinValue : Name) (columns : Columns) :
    Except Errors Relation :=
  (namedJoin (mainTable.ident S) (joinTable.ident S) s (joinValue.ident S)
    (S.output (foldOutput columns.output))).mapError fun _ => .SelectJoinFailed

def changed (s : Store) : Except Errors Store → Answer × Store
  | .ok s' => (.done, s')
  | .error e => (.failed e, s)

def shown : Except Errors Relation → Answer
  | .ok r => .rows r
  | .error e => .failed e

def step (S : Settings) (s : Store) : Operation → Answer × Store
  | .declare d => s.changed (s.declare S d)
  | .append table tuple => s.changed (s.append S table tuple)
  | .read table => (shown (s.read S table), s)
  | .join mainTable joinTable joinValue columns => (shown (s.join S mainTable joinTable joinValue columns), s)

/-! ### Column names are distinct -/

theorem distinct_update {s : Store} (hs : s.Distinct) (name : Bytes) {r : Relation}
    (hr : (r.columns.map Column.name).Nodup) : Relations.Distinct (Function.update s name (some r)) := by
  intro n t ht
  by_cases hn : n = name
  · rw [hn, Function.update_self] at ht
    cases ht
    exact hr
  · rw [Function.update_of_ne hn] at ht
    exact hs n t ht

theorem append_ok {S : Settings} {s s' : Store} {table : Name} {tuple : Params} :
    s.append S table tuple = .ok s' ↔ ∃ r row, s (table.ident S) = some r ∧ rowFor S r.columns tuple.values = some row ∧
      s' = Function.update s (table.ident S) (some (Relation.plus r row)) := by
  unfold append appended
  cases hr : s (table.ident S) with
  | none => simp
  | some r => cases hrow : rowFor S r.columns tuple.values <;> simp [hrow, eq_comm]

theorem declare_ok {S : Settings} {s s' : Store} {d : Declaration} (h : s.declare S d = .ok s') :
    s' = s ∨ s (tableName S d.type) = none ∧ (systemColumns ++ (declared S d.type).map Column.name).Nodup ∧
      s' = Function.update s (tableName S d.type) (some ⟨declared S d.type, 0⟩) := by
  unfold declare at h
  split at h
  · cases h
  · cases hs : s (tableName S d.type) with
    | some r =>
      rw [Relations.create_existing hs] at h
      cases h
      exact .inl rfl
    | none =>
      by_cases hn : (systemColumns ++ (declared S d.type).map Column.name).Nodup ∧
          (declared S d.type).length ≤ maxColumns
      · rw [Relations.create_fresh hs hn.1 hn.2] at h
        cases h
        exact .inr ⟨rfl, hn.1, rfl⟩
      · rw [Relations.create_refused hs hn] at h
        cases h

theorem changed_keeps {I : Store → Prop} {s : Store} (hs : I s) {result : Except Errors Store}
    (h : ∀ s', result = .ok s' → I s') : I (s.changed result).2 := by
  cases result with
  | ok s' => exact h s' rfl
  | error e => exact hs

theorem step_distinct (S : Settings) {s : Store} (hs : s.Distinct) (op : Operation) :
    Relations.Distinct (s.step S op).2 := by
  cases op with
  | declare d =>
    apply changed_keeps (I := Relations.Distinct) hs
    intro s' h
    rcases declare_ok h with rfl | ⟨-, hn, rfl⟩
    · exact hs
    · exact distinct_update hs _ (List.nodup_append.mp hn).2.1
  | append table tuple =>
    apply changed_keeps (I := Relations.Distinct) hs
    intro s' h
    obtain ⟨r, row, hr, -, rfl⟩ := append_ok.mp h
    exact distinct_update hs _ (hs _ r hr)
  | read | join => exact hs

/-! ### What becomes of one table -/

/-- The tuple that an operation is to append to a table. -/
def tupleFor (S : Settings) (name : Bytes) : Operation → Option Params
  | .append table tuple => if table.ident S = name then some tuple else none
  | _ => none

/-- An operation that answers `done` appends its row, once; any other leaves the table as it is. -/
theorem step_table (S : Settings) {s : Store} {name : Bytes} {r : Relation} (hr : s name = some r) (op : Operation) :
    (∃ tuple row, tupleFor S name op = some tuple ∧ rowFor S r.columns tuple.values = some row ∧
        (s.step S op).1 = .done ∧ (s.step S op).2 name = some (r.plus row)) ∨
      (s.step S op).2 name = some r ∧ (tupleFor S name op = none ∨ ∃ e, (s.step S op).1 = .failed e) := by
  cases op with
  | declare d =>
    refine .inr ⟨changed_keeps (I := fun s => s name = some r) hr ?_, .inl rfl⟩
    intro s' h
    rcases declare_ok h with rfl | ⟨hnone, -, rfl⟩
    · exact hr
    · have hne : name ≠ tableName S d.type := by
        rintro rfl
        cases hnone.symm.trans hr
      exact (Function.update_of_ne hne _ _).trans hr
  | append table tuple =>
    have hstep : s.step S (.append table tuple) = s.changed (s.append S table tuple) := rfl
    cases h : s.append S table tuple with
    | error e =>
      rw [hstep, h]
      exact .inr ⟨hr, .inr ⟨e, rfl⟩⟩
    | ok s' =>
      rw [hstep, h]
      obtain ⟨t, row, ht, hrow, rfl⟩ := append_ok.mp h
      by_cases hn : table.ident S = name
      · rw [hn] at ht ⊢
        cases hr.symm.trans ht
        exact .inl ⟨tuple, row, if_pos hn, hrow, rfl, Function.update_self ..⟩
      · exact .inr ⟨(Function.update_of_ne (Ne.symm hn) _ _).trans hr, .inl (if_neg hn)⟩
  | read | join => exact .inr ⟨hr, .inl rfl⟩

theorem join_swap (S : Settings) (s : Store) (mainTable joinTable joinValue : Name) {columns : Columns}
    (h : columns.output ≠ .all) :
    s.join S joinTable mainTable joinValue columns = s.join S mainTable joinTable joinValue columns := by
  unfold join
  cases hc : columns.output with
  | all => exact absurd hc h
  | refs list => rw [foldOutput, Settings.output, namedJoin_swap]

end Store
end Psql
