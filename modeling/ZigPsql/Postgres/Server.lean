import ZigPsql.Postgres.Grammar
import ZigPsql.Libpq.Result
import Mathlib.Logic.Function.Basic

/-!
# Tables and what the statements do to them

Values in their columns, rows and tables. A statement that is refused leaves the
tables as they were.
-/

namespace Postgres
open Text Libpq

/-- A number column here holds integers only: INTEGER, or NUMERIC of scale 0. -/
inductive Datum where
  | number (value : ℤ)
  | text (bytes : Bytes)
  deriving DecidableEq

structure Table where
  columns : List Column
  rows : List (List (Option Datum))
  rect : ∀ row ∈ rows, row.length = columns.length

def Table.empty (columns : List Column) : Table := ⟨columns, [], by simp⟩

abbrev Database := Bytes → Option Table

inductive Refusal where
  | syntaxError | undefinedTable | duplicateColumn | tooManyColumns | outOfRange | tooLong | badEncoding | mismatch
  | rowTooBig
  deriving DecidableEq, Repr

def Refusal.sqlstate : Refusal → Bytes
  | .syntaxError => ascii "42601"
  | .undefinedTable => ascii "42P01"
  | .duplicateColumn => ascii "42701"
  | .tooManyColumns => ascii "54011"
  | .outOfRange => ascii "22003"
  | .tooLong => ascii "22001"
  | .badEncoding => ascii "22021"
  | .mismatch => ascii "42804"
  | .rowTooBig => ascii "54000"

/-- What the encoding, the catalogs and the pages of a server leave open. -/
structure Settings where
  /-- The number of characters of a text, if it is valid in the encoding. -/
  chars : Bytes → Option ℕ
  /-- A string constant for a number column, or a number for a text column. -/
  cast : SqlType → Constant → Option Datum
  /-- A name is cut at the end of a character, within 63 bytes. -/
  clip : Bytes → Bytes
  clip_short : ∀ name, name.length ≤ 63 → clip name = name
  /-- Whether a row has room in a page. -/
  fits : List (Option Datum) → Bool
  /-- Names of other relations: catalogs, views, tables with columns of other types, with keys or
  triggers. -/
  others : Bytes → Bool
  /-- Names of functions, which a reference may mean where no column has its name. -/
  functions : Bytes → Bool

/-- One byte a character, pages without end, and nothing but the tables. -/
def Settings.plain : Settings where
  chars t := some t.length
  cast _ _ := none
  clip name := name.take 63
  clip_short _ h := List.take_of_length_le h
  fits _ := true
  others _ := false
  functions _ := false

/-! ### Values -/

/-- Rounding to an integer, ties away from zero. -/
def roundHalfAway (q : ℚ) : ℤ := if 0 ≤ q then ⌊q + 1 / 2⌋ else -⌊-q + 1 / 2⌋

def coerce (S : Settings) : SqlType → Constant → Except Refusal Datum
  | .integer, .number q =>
    let v := roundHalfAway q
    if -2 ^ 31 ≤ v ∧ v < 2 ^ 31 then .ok (.number v) else .error .outOfRange
  | .numeric p, .number q =>
    let v := roundHalfAway q
    if v.natAbs < 10 ^ p then .ok (.number v) else .error .outOfRange
  | .varchar n, .string s =>
    match S.chars s with
    | none => .error .badEncoding
    | some k =>
      -- characters too many are cut off if all of them are blanks
      let kept := s.length - (k - n)
      if (s.drop kept).all (· = 32) then .ok (.text (s.take kept)) else .error .tooLong
  | type, c =>
    match S.cast type c with
    | none => .error .mismatch
    | some d => .ok d

/-- A row of the width of the columns: columns without a value are NULL. -/
def coerceRow (S : Settings) : (columns : List Column) → List Constant →
    Except Refusal { row : List (Option Datum) // row.length = columns.length }
  | [], _ => .ok ⟨[], rfl⟩
  | _ :: columns, [] => do
    let rest ← coerceRow S columns []
    return ⟨none :: rest.val, by rw [List.length_cons, rest.property, List.length_cons]⟩
  | c :: columns, v :: values => do
    let d ← coerce S c.type v
    let rest ← coerceRow S columns values
    return ⟨some d :: rest.val, by rw [List.length_cons, rest.property, List.length_cons]⟩

def Datum.output : Datum → Bytes
  | .number v => intText v
  | .text bytes => bytes

/-! ### Statements -/

/-- The columns every table has already. -/
def systemColumns : List Bytes := ["tableoid", "cmax", "xmax", "cmin", "xmin", "ctid"].map ascii

/-- MaxHeapAttributeNumber -/
def maxColumns : ℕ := 1600

/-- Whether a table already has the name is looked up before anything else. -/
def createTable (db : Database) (name : Bytes) (columns : List Column) : Except Refusal Database :=
  match db name with
  | some _ => .ok db
  | none =>
    if ¬ (systemColumns ++ columns.map Column.name).Nodup then .error .duplicateColumn
    else if maxColumns < columns.length then .error .tooManyColumns
    else .ok (Function.update db name (some (.empty columns)))

def Table.push (t : Table) (row : { row : List (Option Datum) // row.length = t.columns.length }) : Table where
  columns := t.columns
  rows := t.rows ++ [row.val]
  rect := by
    intro r hr
    rcases List.mem_append.mp hr with hr | hr
    · exact t.rect r hr
    · rw [List.mem_singleton.mp hr]
      exact row.property

def Table.insert (S : Settings) (t : Table) (values : List Constant) : Except Refusal Table :=
  if t.columns.length < values.length then .error .syntaxError
  else do
    let row ← coerceRow S t.columns values
    if S.fits row.val then return t.push row else .error .rowTooBig

def Table.data (t : Table) : ResultData where
  status := .tuplesOk
  sqlstate := none
  fnames := t.columns.map Column.name
  tuples := t.rows.map fun row => row.map fun cell => cell.map Datum.output
  rect := by
    intro tuple htuple
    obtain ⟨row, hrow, rfl⟩ := List.mem_map.mp htuple
    rw [List.length_map, List.length_map, t.rect row hrow]

def execute (S : Settings) (db : Database) : Statement → Except Refusal (ResultData × Database)
  | .createTable name columns => do
    let db' ← createTable db name columns
    return (.plain .commandOk none, db')
  | .insert name values =>
    match db name with
    | none => .error .undefinedTable
    | some t => do
      let t' ← t.insert S values
      return (.plain .commandOk none, Function.update db name (some t'))
  | .selectAll name =>
    match db name with
    | none => .error .undefinedTable
    | some t => .ok (t.data, db)

/-! ### What coercing gives -/

theorem coerceRow_cons {S : Settings} {c : Column} {columns : List Column} {v : Constant} {values : List Constant}
    {row : { row : List (Option Datum) // row.length = (c :: columns).length }} :
    coerceRow S (c :: columns) (v :: values) = .ok row ↔ ∃ d rest, coerce S c.type v = .ok d ∧
      coerceRow S columns values = .ok rest ∧ row.val = some d :: rest.val := by
  rw [coerceRow]
  cases coerce S c.type v with
  | error e =>
    refine ⟨fun h => (by cases h), ?_⟩
    intro hrow
    obtain ⟨d, rest, ⟨⟩, -⟩ := hrow
  | ok d =>
    cases coerceRow S columns values with
    | error e =>
      refine ⟨fun h => (by cases h), ?_⟩
      intro hrow
      obtain ⟨d', rest, -, ⟨⟩, -⟩ := hrow
    | ok rest =>
      constructor
      · intro hrow
        cases hrow
        exact ⟨d, rest, rfl, rfl, rfl⟩
      · rintro ⟨d', rest', ⟨⟩, ⟨⟩, hrow⟩
        exact congrArg Except.ok (Subtype.ext hrow.symm)

theorem roundHalfAway_intCast (v : ℤ) : roundHalfAway v = v := by
  have hfloor (z : ℤ) : ⌊(z : ℚ) + 1 / 2⌋ = z := by
    rw [Int.floor_eq_iff]
    constructor <;> linarith
  unfold roundHalfAway
  split
  · exact hfloor v
  · have hneg := hfloor (-v)
    push_cast at hneg
    rw [hneg, neg_neg]

end Postgres
