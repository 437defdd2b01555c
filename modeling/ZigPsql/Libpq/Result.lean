import ZigPsql.Lib.Text

/-!
# What a server answers: results and their status (libpq-fe.h)
-/

namespace Libpq
open Text

/-- ExecStatusType -/
inductive ExecStatus where
  | emptyQuery | commandOk | tuplesOk | copyOut | copyIn | badResponse | nonfatalError | fatalError
  | copyBoth | singleTuple | pipelineSync | pipelineAborted | tuplesChunk
  deriving DecidableEq, Repr

/-- The contents of a PGresult. A missing SQLSTATE field is `none`, as is an SQL NULL. -/
structure ResultData where
  status : ExecStatus
  sqlstate : Option Bytes
  fnames : List Bytes
  tuples : List (List (Option Bytes))
  rect : ∀ tuple ∈ tuples, tuple.length = fnames.length

/-- What comes of a query: a result, or none when libpq could not make one, and whether the
connection is still up afterwards. -/
structure Reply where
  result : Option ResultData
  alive : Bool

/-- A server with states `σ`. Connecting gives no connection object at all, or one that is up or down. -/
structure Server (σ : Type) where
  connect : σ → Bytes → Option Bool × σ
  exec : σ → Bytes → Reply × σ

def ResultData.plain (status : ExecStatus) (sqlstate : Option Bytes) : ResultData :=
  ⟨status, sqlstate, [], [], by simp⟩

/-- A server that gives one fixed answer, whatever is asked: the state is that answer. -/
def scripted : Server Reply := ⟨fun r _ => (some r.alive, r), fun r _ => (r, r)⟩

end Libpq
