import ZigPsql.Zig.Heap
import ZigPsql.Libpq.Result
import Mathlib.Logic.Function.Basic

/-!
# The libpq functions the wrapper calls

Connections and results are handles. The world records what was handed to libpq
as a query, which results are not cleared yet, and whether a finished connection
or a cleared result was ever passed again. The text behind a handed pointer ends
at its first zero byte; where that byte lies is a matter of `Buf.memory`.
-/

namespace Libpq
open Effect Effect.Eff Text Zig

inductive ConnState where
  | usable | lost | finished
  deriving DecidableEq, Repr

structure World (σ : Type) where
  heap : Heap
  server : σ
  conns : ℕ → ConnState
  nextConn : ℕ
  results : Multiset ℕ
  nextResult : ℕ
  handed : List Buf
  connMisuse : Bool
  resultMisuse : Bool

/-- A null result pointer is `none`, and so is a null connection pointer. -/
structure PGresult where
  id : ℕ
  data : ResultData

variable {σ E C α : Type}

def inHeap (m : Eff Heap E C α) : Eff (World σ) E C α := zoom World.heap (fun w h => { w with heap := h }) m

namespace World

def initial (server : σ) : World σ := ⟨Heap.initial, server, fun _ => .lost, 0, 0, 0, [], false, false⟩

def stateIs (w : World σ) (conn : Option ℕ) (state : ConnState) : Bool :=
  match conn with
  | none => false
  | some c => w.conns c = state

def marking (w : World σ) (conn : Option ℕ) (state : ConnState) : ℕ → ConnState :=
  match conn with
  | none => w.conns
  | some c => Function.update w.conns c state

/-- What every function that takes a connection does to the record of misuse. -/
def touched (w : World σ) (conn : Option ℕ) : World σ :=
  { w with connMisuse := w.connMisuse || w.stateIs conn .finished }

def held (result : Option PGresult) : Multiset ℕ :=
  match result with
  | none => 0
  | some r => {r.id}

/-- What every function that takes a result does to the record of misuse. -/
def reading (w : World σ) (result : Option PGresult) : World σ :=
  { w with resultMisuse := w.resultMisuse || !decide (held result ≤ w.results) }

def cleared (w : World σ) (result : Option PGresult) : World σ :=
  { w.reading result with results := w.results - held result }

/-- What a query comes back with. Without a usable connection libpq gives a null result by itself. -/
def answer (srv : Server σ) (w : World σ) (conn : Option ℕ) (text : Bytes) : Option ResultData :=
  if w.stateIs conn .usable then (srv.exec w.server text).1.result else none

def exec (srv : Server σ) (w : World σ) (conn : Option ℕ) (query : Buf) : Option PGresult × World σ :=
  let text := span query.text
  let result := (w.answer srv conn text).map fun data => PGresult.mk w.nextResult data
  let up := w.stateIs conn .usable
  (result,
    { w.touched conn with
      server := if up then (srv.exec w.server text).2 else w.server
      conns := if up && !(srv.exec w.server text).1.alive then w.marking conn .lost else w.conns
      handed := w.handed ++ [query]
      results := held result + w.results
      nextResult := w.nextResult + 1 })

/-- A new connection object, up or down, or a null pointer. -/
def connect (srv : Server σ) (w : World σ) (conninfo : Buf) : Option ℕ × World σ :=
  let up := (srv.connect w.server (span conninfo.text)).1
  let conn := up.map fun _ => w.nextConn
  (conn,
    { w with
      server := (srv.connect w.server (span conninfo.text)).2
      conns := w.marking conn (if up = some true then .usable else .lost)
      nextConn := w.nextConn + 1
      handed := w.handed ++ [conninfo] })

def finish (w : World σ) (conn : Option ℕ) : World σ :=
  { w.touched conn with conns := w.marking conn .finished }

end World

/-! ### Connections -/

def PQconnectdb (srv : Server σ) (conninfo : Buf) : Eff (World σ) E C (Option ℕ) := fun w =>
  (.ok (w.connect srv conninfo).1, (w.connect srv conninfo).2)

/-- Whether PQstatus gives CONNECTION_OK. -/
def PQstatusOk (conn : Option ℕ) : Eff (World σ) E C Bool := fun w =>
  (.ok (w.stateIs conn .usable), w.touched conn)

/-- The message is only printed. -/
def PQerrorMessage (conn : Option ℕ) : Eff (World σ) E C Unit := modify fun w => w.touched conn

def PQfinish (conn : Option ℕ) : Eff (World σ) E C Unit := modify fun w => w.finish conn

/-! ### Queries and their results -/

def PQexec (srv : Server σ) (conn : Option ℕ) (query : Buf) : Eff (World σ) E C (Option PGresult) := fun w =>
  (.ok (w.exec srv conn query).1, (w.exec srv conn query).2)

def field (result : Option PGresult) (null : α) (f : ResultData → α) : α :=
  match result with
  | none => null
  | some r => f r.data

def readResult (result : Option PGresult) (null : α) (f : ResultData → α) : Eff (World σ) E C α := fun w =>
  (.ok (field result null f), w.reading result)

def status (result : Option PGresult) : ExecStatus := field result .fatalError ResultData.status
def sqlstate (result : Option PGresult) : Option Bytes := field result none ResultData.sqlstate

def PQresultStatus (result : Option PGresult) : Eff (World σ) E C ExecStatus :=
  readResult result .fatalError ResultData.status
/-- PQresultErrorField for PG_DIAG_SQLSTATE. -/
def PQresultSqlstate (result : Option PGresult) : Eff (World σ) E C (Option Bytes) :=
  readResult result none ResultData.sqlstate
def PQnfields (result : Option PGresult) : Eff (World σ) E C ℕ :=
  readResult result 0 fun d => d.fnames.length
def PQntuples (result : Option PGresult) : Eff (World σ) E C ℕ :=
  readResult result 0 fun d => d.tuples.length
def PQfname (result : Option PGresult) (i : ℕ) : Eff (World σ) E C (Option Bytes) :=
  readResult result none fun d => d.fnames[i]?
/-- An SQL NULL reads as the empty text. -/
def PQgetvalue (result : Option PGresult) (i j : ℕ) : Eff (World σ) E C (Option Bytes) :=
  readResult result none fun d => (d.tuples[i]?.bind fun tuple => tuple[j]?).map fun cell => cell.getD []

def PQclear (result : Option PGresult) : Eff (World σ) E C Unit := modify fun w => w.cleared result

namespace World

variable (w : World σ) (result : Option PGresult)

theorem reading_of_held (h : held result ≤ w.results) : w.reading result = w := by
  simp [reading, h]

theorem cleared_of_held (h : held result ≤ w.results) :
    w.cleared result = { w with results := w.results - held result } := by
  simp [cleared, reading, h]

theorem exec_touched (srv : Server σ) (conn : Option ℕ) (query : Buf) :
    (w.exec srv conn query).2.touched conn = (w.exec srv conn query).2 := by
  have hstate : (w.exec srv conn query).2.stateIs conn .finished = w.stateIs conn .finished := by
    cases conn with
    | none => rfl
    | some c =>
      cases hc : w.conns c <;> simp only [exec, stateIs, hc] <;> split <;> simp_all [marking]
  have hmisuse : (w.exec srv conn query).2.connMisuse = (w.connMisuse || w.stateIs conn .finished) := rfl
  rw [touched, hstate, hmisuse, Bool.or_assoc, Bool.or_self, ← hmisuse]

theorem exec_data (srv : Server σ) (conn : Option ℕ) (query : Buf) {r : PGresult}
    (h : (w.exec srv conn query).1 = some r) : w.answer srv conn (span query.text) = some r.data := by
  obtain ⟨data, hdata, rfl⟩ := Option.map_eq_some_iff.mp h
  exact hdata

theorem exec_reply (srv : Server σ) (conn : Option ℕ) (query : Buf) :
    (w.exec srv conn query).1.map PGresult.data = w.answer srv conn (span query.text) := by
  simp [exec, Function.comp_def]

theorem connect_usable (srv : Server σ) (conninfo : Buf) :
    (w.connect srv conninfo).2.stateIs (w.connect srv conninfo).1 .usable = true ↔
      (srv.connect w.server (span conninfo.text)).1 = some true := by
  simp only [connect]
  cases (srv.connect w.server (span conninfo.text)).1 with
  | none => simp [stateIs]
  | some up => cases up <;> simp [stateIs, marking]

theorem connect_touched (srv : Server σ) (conninfo : Buf) :
    (w.connect srv conninfo).2.touched (w.connect srv conninfo).1 = (w.connect srv conninfo).2 := by
  have hstate : (w.connect srv conninfo).2.stateIs (w.connect srv conninfo).1 .finished = false := by
    simp only [connect]
    cases (srv.connect w.server (span conninfo.text)).1 with
    | none => rfl
    | some up => cases up <;> simp [stateIs, marking]
  rw [touched, hstate, Bool.or_false]

theorem exec_held (srv : Server σ) (conn : Option ℕ) (query : Buf) :
    held (w.exec srv conn query).1 ≤ (w.exec srv conn query).2.results :=
  Multiset.le_add_right _ _

/-- The world `w`, but for a heap that satisfies `I`. -/
def Over (I : Heap → Prop) (w' : World σ) : Prop := ∃ h, I h ∧ w' = { w with heap := h }

end World

theorem inHeap_run {w : World σ} {h : Heap} {m : Eff Heap E C α} {o : Outcome E C α} {h' : Heap}
    (hm : m h = (o, h')) : inHeap m { w with heap := h } = (o, { w with heap := h' }) :=
  zoom_run hm

theorem inHeap_tries {may : Prop} {m : Eff Heap E C α} {Q : α → Prop}
    (hm : Tries may (fun _ => True) m fun a _ => Q a) (w : World σ) :
    (∃ a h, inHeap m w = (.ok a, { w with heap := h }) ∧ Q a) ∨
      may ∧ ∃ e h, inHeap m w = (.err e, { w with heap := h }) := by
  rcases hm w.heap trivial with ⟨a, h, ha, hq⟩ | ⟨hmay, e, h, he⟩
  · exact .inl ⟨a, h, zoom_run ha, hq⟩
  · exact .inr ⟨hmay, e, h, zoom_run he⟩

theorem inHeap_free (w : World σ) (b : Block) :
    ∃ h, (inHeap (free b) : Eff (World σ) E C Unit) w = (.ok (), { w with heap := h }) := by
  obtain ⟨_, h, hb, -⟩ := free_always (E := E) (C := C) b w.heap trivial
  exact ⟨h, zoom_run hb⟩

theorem deferring_free {w w' : World σ} (b : Block) {m : Eff (World σ) E C α} {o : Outcome E C α}
    (hm : m w = (o, w')) : ∃ h, deferring (inHeap (free b)) m w = (o, { w' with heap := h }) := by
  obtain ⟨h, hb⟩ := inHeap_free (E := E) (C := C) w' b
  cases o with
  | stop c => exact ⟨w'.heap, deferring_stop hm⟩
  | ok a => exact ⟨h, deferring_ok hm hb⟩
  | err e => exact ⟨h, deferring_err hm hb⟩

theorem readResult_run {w : World σ} {result : Option PGresult} (null : α) (f : ResultData → α)
    (h : World.held result ≤ w.results) :
    (readResult result null f : Eff (World σ) E C α) w = (.ok (field result null f), w) := by
  simp only [readResult, w.reading_of_held result h]

theorem PQerrorMessage_run {w : World σ} {conn : Option ℕ} (h : w.touched conn = w) :
    (PQerrorMessage conn : Eff (World σ) E C Unit) w = (.ok (), w) := by
  simp only [PQerrorMessage, modify_run, h]

end Libpq
