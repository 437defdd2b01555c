import ZigPsql.Postgres.Tokens
import Mathlib.Data.Rat.Floor
import Mathlib.Algebra.Order.Field.Rat

/-!
# The statements of the wrapper, read from their tokens

The forms CREATE TABLE IF NOT EXISTS, INSERT with one row of constants, and
SELECT * of one table; any other sequence of tokens is no statement here.
-/

namespace Postgres
open Text

/-- The keywords that are no table or column name (kwlist.h: RESERVED_KEYWORD, TYPE_FUNC_NAME_KEYWORD). -/
def reservedKeywords : List Bytes :=
  ["all", "analyse", "analyze", "and", "any", "array", "as", "asc", "asymmetric", "authorization", "binary",
    "both", "case", "cast", "check", "collate", "collation", "column", "concurrently", "constraint", "create",
    "cross", "current_catalog", "current_date", "current_role", "current_schema", "current_time",
    "current_timestamp", "current_user", "default", "deferrable", "desc", "distinct", "do", "else", "end",
    "except", "false", "fetch", "for", "foreign", "freeze", "from", "full", "grant", "group", "having", "ilike",
    "in", "initially", "inner", "intersect", "into", "is", "isnull", "join", "lateral", "leading", "left",
    "like", "limit", "localtime", "localtimestamp", "natural", "not", "notnull", "null", "offset", "on", "only",
    "or", "order", "outer", "overlaps", "placing", "primary", "references", "returning", "right", "select",
    "session_user", "similar", "some", "symmetric", "system_user", "table", "tablesample", "then", "to",
    "trailing", "true", "union", "unique", "user", "using", "variadic", "verbose", "when", "where", "window",
    "with"].map ascii

inductive SqlType where
  | integer
  | numeric (precision : ℕ)
  | varchar (length : ℕ)
  deriving DecidableEq, Repr

structure Column where
  name : Bytes
  type : SqlType
  deriving DecidableEq, Repr

inductive Constant where
  | number (value : ℚ)
  | string (text : Bytes)
  deriving DecidableEq

inductive Statement where
  | createTable (name : Bytes) (columns : List Column)
  | insert (name : Bytes) (values : List Constant)
  | selectAll (name : Bytes)
  deriving DecidableEq

/-! ### Constants -/

def numberValue (t : Bytes) : Option ℚ :=
  let whole := t.takeWhile isDigit
  match t.dropWhile isDigit with
  | [] => if whole = [] then none else some (readDigits whole)
  | b :: frac =>
    if b = 46 ∧ whole ≠ [] ∧ frac.all isDigit then
      some (readDigits (whole ++ frac) / 10 ^ frac.length)
    else none

def constant : List Token → Option Constant
  | [.number t] => (numberValue t).map .number
  | [.op s, .number t] => if s = [45] then (numberValue t).map fun v => .number (-v) else none
  | [.string .plain t] => some (.string (unquote t))
  | _ => none

/-- The parts between commas; an empty text has none. -/
def commaList {α : Type} (part : List Token → Option α) (ts : List Token) : Option (List α) :=
  if ts = [] then some [] else (ts.splitOn (.self 44)).mapM part

def valueList (ts : List Token) : Option (List Constant) := commaList constant ts

/-! ### Statements -/

def colId : Token → Option Bytes
  | .word name => if name ∈ reservedKeywords then none else some name
  | .quotedName false name => some name
  | _ => none

def sqlType : List Token → Option SqlType
  | [.word w] => if w = ascii "integer" then some .integer else none
  | [.word w, .self 40, .number n, .self 41] =>
    if !n.all isDigit then none
    else if w = ascii "numeric" then some (.numeric (readDigits n))
    else if w = ascii "varchar" then some (.varchar (readDigits n))
    else none
  | _ => none

def column : List Token → Option Column
  | name :: type => do
    let n ← colId name
    let t ← sqlType type
    return ⟨n, t⟩
  | [] => none

def keywords (ws : List String) : List Token := ws.map fun w => .word (ascii w)

def stripPrefix (start ts : List Token) : Option (List Token) :=
  if start.isPrefixOf ts then some (ts.drop start.length) else none

def parenthesized : List Token → Option (List Token)
  | .self b :: rest => if b = 40 ∧ rest.getLast? = some (.self 41) then some rest.dropLast else none
  | _ => none

def parseCreate (ts : List Token) : Option Statement := do
  let rest ← stripPrefix (keywords ["create", "table", "if", "not", "exists"]) ts
  let name ← rest.head?.bind colId
  let items ← parenthesized rest.tail
  let columns ← commaList column items
  return .createTable name columns

def parseInsert (ts : List Token) : Option Statement := do
  let rest ← stripPrefix (keywords ["insert", "into"]) ts
  let name ← rest.head?.bind colId
  let list ← stripPrefix (keywords ["values"]) rest.tail
  let items ← parenthesized list
  let values ← valueList items
  if values = [] then none else return .insert name values

def parseSelect (ts : List Token) : Option Statement := do
  let rest ← stripPrefix [.word (ascii "select"), .op [42], .word (ascii "from")] ts
  let name ← rest.head?.bind colId
  if rest.tail = [] then return .selectAll name else none

def parse (ts : List Token) : Option Statement :=
  let body := if ts.getLast? = some (.self 59) then ts.dropLast else ts
  parseCreate body <|> parseInsert body <|> parseSelect body

example : (lex true (ascii "INSERT INTO Users VALUES (-2, 1.5, 'it''s');")).bind parse =
    some (.insert (ascii "users") [.number (-2), .number (3 / 2), .string (ascii "it's")]) := by
  decide +kernel

end Postgres
