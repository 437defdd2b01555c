import ZigPsql.Lib.Effect
import ZigPsql.Lib.Exits
import ZigPsql.Lib.Text
import ZigPsql.Lib.Scanner
import ZigPsql.Lib.Lines
import ZigPsql.Lib.Equijoin
import ZigPsql.Lib.Machine
import ZigPsql.Zig.Heap
import ZigPsql.Zig.Failure
import ZigPsql.Zig.ArrayList
import ZigPsql.Zig.Demand
import ZigPsql.Zig.Format
import ZigPsql.Zig.TypeInfo
import ZigPsql.Postgres.Lexer
import ZigPsql.Postgres.Tokens
import ZigPsql.Postgres.Grammar
import ZigPsql.Postgres.Literals
import ZigPsql.Postgres.Statements
import ZigPsql.Postgres.Words
import ZigPsql.Postgres.QuotedReader
import ZigPsql.Postgres.Server
import ZigPsql.Postgres.Join
import ZigPsql.Postgres.Requests
import ZigPsql.Postgres.Engine
import ZigPsql.Client.Params
import ZigPsql.Libpq.World
import ZigPsql.Client.Framing
import ZigPsql.Client.ValueList
import ZigPsql.Client.Result
import ZigPsql.Client.Accounting
import ZigPsql.Client.Contents
import ZigPsql.Client.Printing
import ZigPsql.Client.AllocFailure
import ZigPsql.Client.Connection
import ZigPsql.Client.Table
import ZigPsql.Client.Calls
import ZigPsql.Client.Exits
import ZigPsql.Client.Attempts
import ZigPsql.Client.Runs
import ZigPsql.Client.CStrings
import ZigPsql.Client.Constants
import ZigPsql.Client.Injection
import ZigPsql.Client.EscapedStrings
import ZigPsql.Client.Backslashes
import ZigPsql.Client.Lifecycle
import ZigPsql.Client.Handles
import ZigPsql.Client.InsertOutcome
import ZigPsql.Client.Schema
import ZigPsql.Client.StructTable
import ZigPsql.Client.Fidelity
import ZigPsql.Libpq.Conninfo
import ZigPsql.Client.ConnString
import ZigPsql.Client.Store
import ZigPsql.Client.Refinement
import ZigPsql.Client.StoreRuns
import ZigPsql.Client.Sessions
import ZigPsql.Client.SessionRuns
import ZigPsql.Client.Leaks
import ZigPsql.Client.SessionLeaks
import ZigPsql.Client.SessionSpec
import ZigPsql.Client.SessionRefinement
import ZigPsql.Client.Stops
import ZigPsql.Client.TwoRuns
