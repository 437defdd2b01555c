import ZigPsql.Lib.Exits
import ZigPsql.Lib.Machine
import ZigPsql.Client.Calls

/-!
# Runs of calls on one connection

Each step of a run is a call together with what the server has in store for it;
a call that ends the program ends the run.
-/

namespace Psql
open Effect Effect.Eff Text Zig Libpq

variable {σ α : Type}

inductive Call where
  | execQuery (query : Bytes)
  | select (table : Bytes)
  | insert (table values : Bytes)
  | selectJoin (mainTable joinTable joinValue : Bytes) (columns : Option Bytes)
  | createTableFor (T : TypeArg)
  | close

def discard (m : Eff (World σ) Errors Stop α) : Eff (World σ) Errors Stop Unit := do
  let _ ← m
  return ()

def Call.run (P : Platform) (srv : Server σ) (self : Self) : Call → Eff (World σ) Errors Stop Unit
  | .execQuery query => Psql.execQuery srv self (.static query)
  | .select table => discard (Psql.select P srv self table)
  | .insert table values => Psql.insert P srv self table values
  | .selectJoin mainTable joinTable joinValue columns =>
    discard (Psql.selectJoin P srv self mainTable joinTable joinValue columns)
  | .createTableFor T => Psql.createTableFor P srv self T
  | .close => Psql.close self

def Call.text : Call → Option Bytes
  | .execQuery query => some query
  | .select table => some (selectQuery table)
  | .insert table values => some (insertQuery table values)
  | .selectJoin mainTable joinTable joinValue columns =>
    some (selectJoinQuery mainTable joinTable joinValue columns)
  | .createTableFor T =>
    match T.info with
    | .struct fields => some (createTableQuery T.typeName fields)
    | .other => none
  | .close => none

def Call.leaves : Call → Option PGresult → Bool
  | .insert _ _ => insertLeaves
  | _ => fun _ => false

theorem queried_anyOutcome {P : Platform} {srv : Server σ} {conn : Option ℕ} {text : Bytes} {w : World σ}
    {outcome : Option PGresult → Outcome Errors Stop α → Prop} {leaves : Option PGresult → Bool}
    {run : Outcome Errors Stop α × World σ} (h : Queried P srv conn text w outcome leaves run) :
    Queried P srv conn text w (fun _ _ => True) leaves run := by
  rcases h with he | ⟨b, hb, h, R, M, hw, hspec⟩
  · exact .inl he
  · exact .inr ⟨b, hb, h, R, M, hw, fun hP => ⟨trivial, (hspec hP).2⟩⟩

theorem queried_discard {P : Platform} {srv : Server σ} {conn : Option ℕ} {text : Bytes} {w : World σ}
    {outcome : Option PGresult → Outcome Errors Stop α → Prop} {leaves : Option PGresult → Bool}
    {m : Eff (World σ) Errors Stop α} (h : Queried P srv conn text w outcome leaves (m w)) :
    Queried P srv conn text w (fun _ _ => True) leaves (discard m w) := by
  have hsnd : (discard m w).2 = (m w).2 := by
    unfold discard
    rw [bind_run]
    rcases m w with ⟨_ | _ | _, w'⟩ <;> rfl
  rcases h with ⟨hP, e, h, he⟩ | ⟨b, hb, h, R, M, hw, hspec⟩
  · exact .inl ⟨hP, e, h, bind_err he⟩
  · exact .inr ⟨b, hb, h, R, M, hsnd.trans hw, fun hP => ⟨trivial, (hspec hP).2⟩⟩

theorem Call.queried (P : Platform) (srv : Server σ) (self : Self) (w : World σ) (call : Call) (text : Bytes)
    (ht : call.text = some text) :
    Queried P srv self.connection text w (fun _ _ => True) call.leaves (call.run P srv self w) := by
  cases call with
  | execQuery query => cases ht; exact queried_anyOutcome (execQuery_queried P srv self w (.static _))
  | select table => cases ht; exact queried_discard (select_queried P srv self w table)
  | insert table values => cases ht; exact queried_anyOutcome (insert_queried P srv self w table values)
  | selectJoin mainTable joinTable joinValue columns =>
    cases ht
    exact queried_discard (selectJoin_queried P srv self w mainTable joinTable joinValue columns)
  | createTableFor T =>
    cases hT : T.info with
    | struct fields =>
      simp only [Call.text, hT] at ht
      cases ht
      exact queried_anyOutcome (createTableFor_queried P srv self w T fields hT)
    | other =>
      simp only [Call.text, hT] at ht
      cases ht
  | close => cases ht

theorem Call.silent (P : Platform) (srv : Server σ) (self : Self) (w : World σ) (call : Call)
    (ht : call.text = none) (hc : call ≠ .close) : call.run P srv self w = (.err .NotAStruct, w) := by
  cases call with
  | createTableFor T =>
    cases hT : T.info with
    | struct fields =>
      simp only [Call.text, hT] at ht
      cases ht
    | other => simp only [Call.run, Psql.createTableFor, hT, throw_run]
  | close => exact absurd rfl hc
  | execQuery | select | insert | selectJoin => cases ht

/-! ### Runs -/

structure Step where
  call : Call
  reply : Reply

def Step.run (P : Platform) (self : Self) (s : Step) (w : World Reply) : Outcome Errors Stop Unit × World Reply :=
  s.call.run P scripted self { w with server := s.reply }

/-- The worlds a run reaches, one after each step. -/
def reached (P : Platform) (self : Self) : World Reply → List Step → List (World Reply)
  | _, [] => []
  | w, s :: rest =>
    match s.run P self w with
    | (.stop _, w') => [w']
    | (_, w') => w' :: reached P self w' rest

/-- Every step of a run is good where it comes. -/
def Throughout (good : World Reply → Step → Prop) (P : Platform) (self : Self) (w : World Reply) (steps : List Step) :
    Prop :=
  Machine.Along (fun w (s : Step) => s.run P self w) Outcome.stopped good w steps

theorem reached_invariant {P : Platform} {self : Self} {I : World Reply → Prop} {good : World Reply → Step → Prop}
    (hstep : ∀ s w, good w s → I w → I (s.run P self w).2) (steps : List Step) (w : World Reply) (hw : I w)
    (hsteps : Throughout good P self w steps) : ∀ w' ∈ reached P self w steps, I w' := by
  induction steps generalizing w with
  | nil => simp [reached]
  | cons s rest ih =>
    obtain ⟨hgood, hrest⟩ := hsteps
    have hs := hstep s w hgood hw
    intro w' hw'
    unfold reached at hw'
    split at hw'
    next c w₁ hrun =>
      rw [hrun] at hs
      cases List.mem_singleton.mp hw'
      exact hs
    next o w₁ hgoes hrun =>
      have hstopped : (s.run P self w).1.stopped = false := by
        rw [hrun]
        cases o with
        | stop c => exact absurd rfl (hgoes c)
        | ok | err => rfl
      have hlater : Throughout good P self (s.run P self w).2 rest := hrest hstopped
      rw [hrun] at hs hlater
      rcases List.mem_cons.mp hw' with rfl | hmem
      · exact hs
      · exact ih w₁ hs hlater w' hmem

/-! ### A connection to run examples on -/

def testConnection : ConnectionParams := ⟨ascii "h", 5432, ascii "u", ascii "p", ascii "test"⟩
def testSelf : Self := ⟨testConnection, some 0, .OK⟩

def connected (server : σ) : World σ :=
  { World.initial server with conns := fun _ => .usable, nextConn := 1 }

end Psql
