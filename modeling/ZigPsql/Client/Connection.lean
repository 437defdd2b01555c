import ZigPsql.Client.Result

/-!
# Operations on a connection: psql.init, execQuery, select, insert, selectJoin, close

No operation writes to the fields of psql it is called on, so they are passed
by value.
-/

namespace Psql
open Effect Effect.Eff Text Zig Libpq

variable {σ : Type}

structure ConnectionParams where
  host : Bytes
  port : UInt16
  user : Bytes
  password : Bytes
  database : Bytes

inductive ConnectionType where
  | OK | ERROR | DISCONNECTED | CLOSED
  deriving DecidableEq, Repr

structure Self where
  connectionString : ConnectionParams
  connection : Option ℕ
  connectionStatus : ConnectionType

def portText (port : UInt16) : Bytes := decimal port.toNat

def connectionParts (connectionString : ConnectionParams) (port_str : Bytes) : List Bytes :=
  [ascii "dbname=", connectionString.database,
    ascii " user=", connectionString.user,
    ascii " password=", connectionString.password,
    ascii " host=", connectionString.host,
    ascii " port=", port_str]

/-- What init does once libpq has the text: the connection it hands out, or its error. -/
def connectedOr (connectionString : ConnectionParams) (connection : Buf) (conn : Option ℕ) :
    Eff (World σ) Errors Stop Self := do
  let ok ← PQstatusOk conn
  if !ok then do
    PQerrorMessage conn
    PQfinish conn
    throw .ConnectionFailed
  else do
    inHeap (free connection.block)
    return ⟨connectionString, conn, .OK⟩

/-- What the deferred free of the port's text guards. -/
def connectWith (P : Platform) (srv : Server σ) (connectionString : ConnectionParams) (port_str : Bytes) :
    Eff (World σ) Errors Stop Self := do
  let connection ← inHeap (join P [] (connectionParts connectionString port_str))
  let conn ← PQconnectdb srv connection
  connectedOr connectionString connection conn

def init (P : Platform) (srv : Server σ) (connectionString : ConnectionParams) :
    Eff (World σ) Errors Stop Self := do
  let port_str ← inHeap (allocPrint P (portText connectionString.port))
  deferring (inHeap (free port_str.block)) (connectWith P srv connectionString port_str.text)

def execQuery (srv : Server σ) (self : Self) (query : Buf) : Eff (World σ) Errors Stop Unit := do
  let result ← PQexec srv self.connection query
  let status ← PQresultStatus result
  if status ≠ .tuplesOk ∧ status ≠ .commandOk then do
    PQerrorMessage self.connection
    PQclear result
    throw .QueryFailed
  else PQclear result

/-- What select and selectJoin do with a result, but for the error they return. -/
def rowsOr (P : Platform) (self : Self) (e : Errors) (result : Option PGresult) :
    Eff (World σ) Errors Stop QueryResult := do
  let status ← PQresultStatus result
  if status ≠ .tuplesOk then do
    PQerrorMessage self.connection
    PQclear result
    throw e
  else getResult P result

/-- The table is a C string. -/
def selectQuery (table : Bytes) : Bytes := ascii "SELECT * FROM " ++ span table

def select (P : Platform) (srv : Server σ) (self : Self) (table : Bytes) :
    Eff (World σ) Errors Stop QueryResult := do
  let query ← inHeap (allocPrint P (selectQuery table))
  deferring (inHeap (free query.block)) do
    let result ← PQexec srv self.connection query
    rowsOr P self .QueryFailed result

def valuesPrefix (table : Bytes) : Bytes := ascii "INSERT INTO " ++ table ++ ascii " VALUES ("

def insertQuery (table values : Bytes) : Bytes := valuesPrefix table ++ values ++ ascii ")"

def insertedOr (P : Platform) (self : Self) (result : Option PGresult) : Eff (World σ) Errors Stop Unit := do
  let status ← PQresultStatus result
  if status ≠ .commandOk then do
    let code ← PQresultSqlstate result
    let errorCode ← inHeap (printC P code)
    deferring (inHeap (free errorCode.block)) do
      PQerrorMessage self.connection
      if errorCode.text = ascii "23505" then throw .PrimaryKeyDuplicate
      else do
        PQclear result
        throw .InsertionFailed
  else PQclear result

def insert (P : Platform) (srv : Server σ) (self : Self) (table values : Bytes) :
    Eff (World σ) Errors Stop Unit := do
  let query ← inHeap (allocPrint P (insertQuery table values))
  let result ← PQexec srv self.connection query
  inHeap (free query.block)
  insertedOr P self result

def selectJoinQuery (mainTable joinTable joinValue : Bytes) (columns : Option Bytes) : Bytes :=
  ascii "SELECT " ++ columns.getD (ascii "*") ++ ascii " FROM " ++ mainTable ++ ascii " INNER JOIN " ++ joinTable ++
    ascii " ON " ++ mainTable ++ ascii "." ++ joinValue ++ ascii " = " ++ joinTable ++ ascii "." ++ joinValue

def selectJoin (P : Platform) (srv : Server σ) (self : Self) (mainTable joinTable joinValue : Bytes)
    (columns : Option Bytes) : Eff (World σ) Errors Stop QueryResult := do
  let query ← inHeap (allocPrint P (selectJoinQuery mainTable joinTable joinValue columns))
  let result ← PQexec srv self.connection query
  inHeap (free query.block)
  rowsOr P self .SelectJoinFailed result

def close (self : Self) : Eff (World σ) Errors Stop Unit := PQfinish self.connection

end Psql
