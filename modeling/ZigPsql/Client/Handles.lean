import ZigPsql.Client.Runs

/-!
# PGresult discipline

A result is cleared twice, or read after its PQclear, exactly when the record of
misused handles is set; it is cleared at all when its handle is gone from the
results that are outstanding.
-/

namespace Psql
open Effect Effect.Eff Text Zig Libpq

/-- The results outstanding are those of `X`, and none was used after it was cleared. -/
def Cleared (X : Multiset ℕ) (w : World Reply) : Prop := w.results = X ∧ w.resultMisuse = false

/-- The replies that make insert leave without a PQclear: a result that is no success, with the
SQLSTATE of a duplicate key or with none. -/
def Step.leaky (s : Step) : Bool :=
  match s.call, s.reply.result with
  | .insert _ _, some d => d.status ≠ .commandOk && (d.sqlstate.map span).all (· = ascii "23505")
  | _, _ => false

theorem scripted_data (w : World Reply) (conn : Option ℕ) (b : Buf) (r : PGresult)
    (h : (w.exec scripted conn b).1 = some r) : w.server.result = some r.data := by
  have hdata := w.exec_data scripted conn b h
  unfold World.answer at hdata
  split at hdata
  · exact hdata
  · cases hdata

theorem exec_leaves (self : Self) (s : Step) (w : World Reply) (b : Buf) (hs : s.leaky = false)
    (hl : s.call.leaves (World.exec scripted { w with server := s.reply } self.connection b).1 = true) :
    World.held (World.exec scripted { w with server := s.reply } self.connection b).1 = 0 := by
  obtain ⟨call, reply⟩ := s
  cases call with
  | insert table values =>
    cases hr : (World.exec scripted { w with server := reply } self.connection b).1 with
    | none => rfl
    | some r =>
      exfalso
      have hd : reply.result = some r.data := scripted_data { w with server := reply } self.connection b r hr
      have hleaky : Step.leaky ⟨.insert table values, reply⟩ = insertLeaves (some r) := by
        simp only [Step.leaky, hd]
        rfl
      rw [hr] at hl
      exact Bool.false_ne_true (hs.symm.trans (hleaky.trans hl))
  | _ => cases hl

theorem step_cleared (P : Platform) (hP : P.Succeeds) (self : Self) (X : Multiset ℕ) (s : Step)
    (hs : s.leaky = false) (w : World Reply) (hw : Cleared X w) : Cleared X (s.run P self w).2 := by
  unfold Step.run
  cases ht : s.call.text with
  | none =>
    by_cases hc : s.call = .close
    · rw [hc]
      exact hw
    · rw [Call.silent P scripted self _ s.call ht hc]
      exact hw
  | some text =>
    rcases Call.queried P scripted self { w with server := s.reply } s.call text ht with
      ⟨hfail, -⟩ | ⟨b, -, h, R, M, hw', hspec⟩
    · exact absurd hP hfail
    · obtain ⟨-, hM, hR⟩ := hspec hP
      rw [hw']
      refine ⟨?_, hM.trans hw.2⟩
      change R = X
      rw [hR]
      split
      next hl => rw [exec_leaves self s w b hs hl, zero_add]; exact hw.1
      next => exact hw.1

/-- In a run without a leaky step, every operation clears the handle it obtained, once. -/
theorem handles_cleared (P : Platform) (hP : P.Succeeds) (self : Self) (w : World Reply)
    (hw : w.resultMisuse = false) (steps : List Step) (hsteps : ∀ s ∈ steps, s.leaky = false) :
    ∀ w' ∈ reached P self w steps, Cleared w.results w' := by
  have hthrough : Throughout (fun _ s => s.leaky = false) P self w steps :=
    Machine.along_of_forall (fun s hs _ => hsteps s hs) w
  exact reached_invariant (fun s w' hs => step_cleared P hP self w.results s hs w') steps w ⟨rfl, hw⟩ hthrough

def insertAnswered (sqlstate : Option Bytes) : Step :=
  ⟨.insert (ascii "tests") (ascii "2, 'John Doe'"), ⟨some (.plain .fatalError sqlstate), true⟩⟩

/-- A refused insertion, a query, rows, a lost connection. -/
def clearedSteps : List Step :=
  [insertAnswered (some (ascii "42P01")), ⟨.execQuery (ascii "SELECT 1"), ⟨some (.plain .tuplesOk none), true⟩⟩,
    ⟨.select (ascii "tests"), ⟨some ⟨.tuplesOk, none, [ascii "id"], [[some (ascii "2")]], by decide⟩, true⟩⟩,
    ⟨.selectJoin (ascii "tests") (ascii "users") (ascii "id") none, ⟨some (.plain .fatalError none), false⟩⟩]

theorem handles_refused : (reached Platform.simple testSelf (connected ⟨none, true⟩) clearedSteps).length = 4 ∧
    ∀ w' ∈ reached Platform.simple testSelf (connected ⟨none, true⟩) clearedSteps, Cleared 0 w' :=
  ⟨by decide +kernel, handles_cleared Platform.simple Platform.simple_succeeds testSelf (connected ⟨none, true⟩) rfl
    clearedSteps (by decide)⟩

/-- The duplicate key of the test "Try insert" leaves its result uncleared. -/
theorem handles_duplicate : ¬ ∀ w' ∈ reached Platform.simple testSelf (connected ⟨none, true⟩)
    [insertAnswered (some (ascii "23505"))], Cleared 0 w' := by
  intro h
  have hcleared := (h _ (List.mem_singleton.mpr rfl)).1
  exact absurd hcleared (by decide)

end Psql
