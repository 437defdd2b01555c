import ZigPsql.Client.Runs
import ZigPsql.Client.Exits
import ZigPsql.Postgres.Tokens

/-!
# The outcome of insert
-/

namespace Psql
open Effect Effect.Eff Text Zig Libpq Postgres Scanner

variable {σ : Type}

/-- The values text, as it stands in the statement, has the word RETURNING in it. -/
def carriesReturning (standard : Bool) (table values : Bytes) : Bool :=
  let before := scan (step standard) .start (valuesPrefix table)
  (scan (step standard) before.1 (values ++ ascii ")")).2.contains (.word (ascii "returning"))

def executed (standard : Bool) (table values : Bytes) (result : Option ResultData) : Bool :=
  match result with
  | none => false
  | some d => d.status = .commandOk || (d.status = .tuplesOk && carriesReturning standard table values)

def hasSqlstate (code : Bytes) (result : Option ResultData) : Bool :=
  ((result.bind ResultData.sqlstate).map span) = some code

/-- What insert has to return for a result. -/
structure Reports (standard : Bool) (table values : Bytes) (result : Option ResultData)
    (o : Outcome Errors Stop Unit) : Prop where
  noNullRead : o ≠ .stop .nullPointer
  success : o = .ok () ↔ executed standard table values result = true
  duplicate : o = .err .PrimaryKeyDuplicate ↔
    executed standard table values result = false ∧ hasSqlstate (ascii "23505") result = true
  otherwise : executed standard table values result = false → hasSqlstate (ascii "23505") result = false →
    o = .err .InsertionFailed

/-- A command that succeeded without rows, or a failure that has its SQLSTATE. -/
def reportable (standard : Bool) (table values : Bytes) (result : Option ResultData) : Bool :=
  match result with
  | none => false
  | some d => d.status = .commandOk ||
      (d.sqlstate.isSome && !(d.status = .tuplesOk && carriesReturning standard table values))

/-- Whether memory serves for the copy of the SQLSTATE where insert makes one, as its `k`-th allocation. -/
def copied (P : Platform) (k : ℕ) (result : Option ResultData) : Bool :=
  match result with
  | none => true
  | some d => d.status = .commandOk || d.sqlstate.all fun code => span code = [] || !P.fails k

theorem insertedOr_outcome (P : Platform) (self : Self) (result : Option PGresult) (w₁ : World σ)
    (hheld : World.held result ≤ w₁.results) (htouched : w₁.touched self.connection = w₁) :
    (insertedOr P self result w₁).1 =
      if copied P w₁.heap.attempts (result.map PGresult.data) then insertOutcome result else .err .OutOfMemory := by
  by_cases hs : status result = .commandOk
  · have hcopied : copied P w₁.heap.attempts (result.map PGresult.data) = true := by
      cases result with
      | none => rfl
      | some r => simp [copied, show r.data.status = .commandOk from hs]
    rw [insertedOr_done P self hheld hs, hcopied, if_pos rfl, insertOutcome, if_pos hs]
  cases hc : sqlstate result with
  | none =>
    have hcopied : copied P w₁.heap.attempts (result.map PGresult.data) = true := by
      cases result with
      | none => rfl
      | some r => simp [copied, show r.data.sqlstate = none from hc]
    rw [insertedOr_null P self hheld hs hc, hcopied, if_pos rfl]
    simp only [insertOutcome, hs, hc, if_false]
  | some code =>
    have hcopied : copied P w₁.heap.attempts (result.map PGresult.data) =
        (decide (span code = []) || !P.fails w₁.heap.attempts) := by
      cases result with
      | none => cases hc
      | some r =>
        simp [copied, show r.data.sqlstate = some code from hc, show ¬ r.data.status = .commandOk from hs]
    rw [insertedOr_coded P self hheld hs hc, hcopied]
    by_cases hserved : span code = [] ∨ P.fails w₁.heap.attempts = false
    · obtain ⟨b, h, hb, ht, -⟩ := allocPrint_served (E := Errors) (C := Stop) hserved
      have htouched' := congrArg (fun w' : World σ => { w' with heap := h }) htouched
      have hbody := @refused_run _ self result { w₁ with heap := h } hheld htouched' b
      obtain ⟨h', hexit⟩ := deferring_free b.block hbody
      have hrun : (do
          let errorCode ← inHeap (allocPrint P (span code))
          deferring (inHeap (free errorCode.block)) (refused self result errorCode) :
            Eff (World σ) Errors Stop Unit) w₁ = _ := (bind_ok (zoom_run hb)).trans hexit
      have hcond : (decide (span code = []) || !P.fails w₁.heap.attempts) = true := by simpa using hserved
      rw [hrun, hcond, if_pos rfl, ht]
      simp only [insertOutcome, hs, hc, if_false]
      split <;> rfl
    · obtain ⟨hne, hf⟩ := not_or.mp hserved
      have hb : (inHeap (allocPrint P (span code)) : Eff (World σ) Errors Stop Buf) w₁ = _ :=
        zoom_run (allocPrint_refused hne (by simpa using hf))
      have hcond : (decide (span code = []) || !P.fails w₁.heap.attempts) = false := by simpa using hserved
      rw [bind_err hb, hcond, if_neg Bool.false_ne_true]
      rfl

/-- What becomes of an insert whose statement is sent. -/
theorem insert_outcome (P : Platform) (srv : Server σ) (self : Self) (w : World σ) (table values : Bytes)
    (hsent : P.fails w.heap.attempts = false) :
    (insert P srv self table values w).1 =
      if copied P (w.heap.attempts + 1) (w.answer srv self.connection (span (insertQuery table values))) then
        insertOutcome ((w.answer srv self.connection (span (insertQuery table values))).map fun d => ⟨w.nextResult, d⟩)
      else .err .OutOfMemory := by
  have hserved : insertQuery table values = [] ∨ P.fails w.heap.attempts = false := .inr hsent
  obtain ⟨b, h, hb, ht, hattempts⟩ := allocPrint_served (E := Errors) (C := Stop) hserved
  have hne : insertQuery table values ≠ [] := List.append_ne_nil_of_right_ne_nil _ (List.cons_ne_nil _ _)
  have hquery : (inHeap (allocPrint P (insertQuery table values)) : Eff (World σ) Errors Stop Buf) w =
      (.ok b, { w with heap := h }) := zoom_run hb
  let w₁ : World σ := (World.exec srv { w with heap := h } self.connection b).2
  obtain ⟨_, h', hfree, -⟩ := free_always (E := Errors) (C := Stop) b.block h trivial
  have hkept : h'.attempts = h.attempts := by
    have hattempts' := free_attempts (E := Errors) (C := Stop) b.block h
    rwa [hfree] at hattempts'
  have hfreed : (inHeap (free b.block) : Eff (World σ) Errors Stop Unit) w₁ = (.ok (), { w₁ with heap := h' }) :=
    zoom_run hfree
  have hrun : insert P srv self table values w =
      insertedOr P self (World.exec srv { w with heap := h } self.connection b).1 { w₁ with heap := h' } :=
    (bind_ok hquery).trans ((bind_ok rfl).trans (bind_ok hfreed))
  have hheld := World.exec_held { w with heap := h } srv self.connection b
  have htouched : World.touched { w₁ with heap := h' } self.connection = { w₁ with heap := h' } :=
    congrArg (fun w' : World σ => { w' with heap := h' })
      (World.exec_touched { w with heap := h } srv self.connection b)
  have hresult : (World.exec srv { w with heap := h } self.connection b).1 =
      (w.answer srv self.connection (span (insertQuery table values))).map fun d => ⟨w.nextResult, d⟩ := by
    rw [← ht]
    rfl
  have hdata : (World.exec srv { w with heap := h } self.connection b).1.map PGresult.data =
      w.answer srv self.connection (span (insertQuery table values)) := by
    rw [World.exec_reply, ← ht]
    rfl
  have houtcome := insertedOr_outcome P self (World.exec srv { w with heap := h } self.connection b).1
    { w₁ with heap := h' } hheld htouched
  rw [hdata, hkept, hattempts hne] at houtcome
  rw [← hresult]
  exact (congrArg Prod.fst hrun).trans houtcome

theorem insertOutcome_failed {r : PGresult} {code : Bytes} (hs : r.data.status ≠ .commandOk)
    (hc : r.data.sqlstate = some code) : insertOutcome (some r) =
      .err (if span code = ascii "23505" then .PrimaryKeyDuplicate else .InsertionFailed) := by
  have hs' : status (some r) ≠ .commandOk := hs
  have hc' : sqlstate (some r) = some code := hc
  simp only [insertOutcome, hs', hc', if_false]
  split <;> rfl

theorem reports_iff (standard : Bool) (table values : Bytes) (result : Option ResultData) (id : ℕ) :
    Reports standard table values result (insertOutcome (result.map fun d => ⟨id, d⟩)) ↔
      reportable standard table values result = true := by
  cases result with
  | none => exact ⟨fun h => absurd rfl h.noNullRead, fun h => by cases h⟩
  | some d =>
    by_cases hs : d.status = .commandOk
    · have ho : insertOutcome (some ⟨id, d⟩) = .ok () := if_pos hs
      have he : executed standard table values (some d) = true := by simp [executed, hs]
      have hr : reportable standard table values (some d) = true := by simp [reportable, hs]
      simp only [Option.map_some, ho, hr, iff_true]
      exact ⟨by simp, by simp [he], by simp [he], by simp [he]⟩
    cases hc : d.sqlstate with
    | none =>
      have ho : insertOutcome (some ⟨id, d⟩) = .stop .nullPointer := by
        have hs' : status (some ⟨id, d⟩) ≠ .commandOk := hs
        have hc' : sqlstate (some ⟨id, d⟩) = none := hc
        simp only [insertOutcome, hs', hc', if_false]
      have hr : reportable standard table values (some d) = false := by simp [reportable, hs, hc]
      simp only [Option.map_some, ho, hr, Bool.false_eq_true, iff_false]
      exact fun h => h.noNullRead rfl
    | some code =>
      have ho := insertOutcome_failed (r := ⟨id, d⟩) hs hc
      have hd : hasSqlstate (ascii "23505") (some d) = decide (span code = ascii "23505") := by
        simp [hasSqlstate, hc]
      have hr : reportable standard table values (some d) = !executed standard table values (some d) := by
        simp [reportable, executed, hs, hc]
      simp only [Option.map_some, ho, hr]
      cases he : executed standard table values (some d) with
      | true => exact ⟨fun h => by simpa using h.success.mpr he, fun h => by cases h⟩
      | false =>
        refine ⟨fun _ => rfl, fun _ => ⟨by simp, by simp [he], ?_, ?_⟩⟩
        · by_cases hk : span code = ascii "23505" <;> simp [he, hd, hk]
        · intro _ hk
          have hne : span code ≠ ascii "23505" := by simpa [hd] using hk
          simp [hne]

theorem reports_outOfMemory (standard : Bool) (table values : Bytes) (result : Option ResultData) :
    ¬ Reports standard table values result (.err .OutOfMemory) := by
  intro h
  cases he : executed standard table values result with
  | true => cases h.success.mpr he
  | false =>
    cases hd : hasSqlstate (ascii "23505") result with
    | true => cases h.duplicate.mpr ⟨he, hd⟩
    | false => cases h.otherwise he hd

/-- insert reports what happened exactly for the results that are reportable, where memory serves for
the copy of the SQLSTATE. -/
theorem insert_reports_iff (P : Platform) (srv : Server σ) (self : Self) (w : World σ)
    (hsent : P.fails w.heap.attempts = false) (standard : Bool) (table values : Bytes) :
    Reports standard table values (w.answer srv self.connection (span (insertQuery table values)))
        (insert P srv self table values w).1 ↔
      reportable standard table values (w.answer srv self.connection (span (insertQuery table values))) = true ∧
        copied P (w.heap.attempts + 1) (w.answer srv self.connection (span (insertQuery table values))) = true := by
  rw [insert_outcome P srv self w table values hsent]
  cases copied P (w.heap.attempts + 1) (w.answer srv self.connection (span (insertQuery table values))) with
  | true => simpa using reports_iff standard table values _ w.nextResult
  | false => simpa using reports_outOfMemory standard table values _

theorem insert_reports_duplicate :
    (insert Platform.simple scripted testSelf (ascii "tests") (ascii "2, 'John Doe'")
      (connected ⟨some (.plain .fatalError (some (ascii "23505"))), true⟩)).1 = .err .PrimaryKeyDuplicate := by
  have hreports := (insert_reports_iff Platform.simple scripted testSelf
    (connected ⟨some (.plain .fatalError (some (ascii "23505"))), true⟩) rfl true (ascii "tests")
    (ascii "2, 'John Doe'")).mpr ⟨by decide, by decide⟩
  exact hreports.duplicate.mpr (by decide)

/-- A connection lost during the query: the result libpq makes has no SQLSTATE, and insert reads it. -/
theorem insert_lost : ¬ Reports true (ascii "tests") (ascii "2, 'John Doe'")
    (some (.plain .fatalError none))
    (insert Platform.simple scripted testSelf (ascii "tests") (ascii "2, 'John Doe'")
      (connected ⟨some (.plain .fatalError none), false⟩)).1 := by
  intro h
  have hstop := insert_outcome Platform.simple scripted testSelf
    (connected ⟨some (.plain .fatalError none), false⟩) (ascii "tests") (ascii "2, 'John Doe'") rfl
  exact h.noNullRead (hstop.trans rfl)

end Psql
