import ZigPsql.Client.Table

/-!
# What one call does to the world

Every operation but close builds one text, hands it over once and then deals
with the result: it changes nothing else but its heap and the books on results.
-/

namespace Psql
open Effect Effect.Eff Text Zig Libpq

variable {σ α : Type}

/-- Either the text could not be built, or it was handed over in one query, with the outcome and
the handle as they are told by the result; `leaves` tells the results that stay uncleared. -/
def Queried (P : Platform) (srv : Server σ) (conn : Option ℕ) (text : Bytes) (w : World σ)
    (outcome : Option PGresult → Outcome Errors Stop α → Prop) (leaves : Option PGresult → Bool)
    (run : Outcome Errors Stop α × World σ) : Prop :=
  (¬ P.Succeeds ∧ ∃ e h, run = (.err e, { w with heap := h })) ∨
    ∃ b, b.text = text ∧ ∃ h R M,
      run.2 = { (w.exec srv conn b).2 with heap := h, results := R, resultMisuse := M } ∧
      (P.Succeeds → outcome (w.exec srv conn b).1 run.1 ∧ M = w.resultMisuse ∧
        R = if leaves (w.exec srv conn b).1 then World.held (w.exec srv conn b).1 + w.results else w.results)

theorem handed_of_queried {P : Platform} {srv : Server σ} {conn : Option ℕ} {text : Bytes} {w : World σ}
    {outcome : Option PGresult → Outcome Errors Stop α → Prop} {leaves : Option PGresult → Bool}
    {run : Outcome Errors Stop α × World σ} (h : Queried P srv conn text w outcome leaves run) :
    (¬ P.Succeeds ∧ run.2.handed.drop w.handed.length = []) ∨
      ∃ b, b.text = text ∧ run.2.handed.drop w.handed.length = [b] := by
  rcases h with ⟨hP, e, h, rfl⟩ | ⟨b, hb, h, R, M, hw, -⟩
  · exact .inl ⟨hP, by simp⟩
  · have hhanded : run.2.handed = w.handed ++ [b] := by rw [hw]; rfl
    exact .inr ⟨b, hb, by simp [hhanded]⟩

def queryOutcome (result : Option PGresult) : Outcome Errors Stop Unit :=
  if status result ≠ .tuplesOk ∧ status result ≠ .commandOk then .err .QueryFailed else .ok ()

def insertOutcome (result : Option PGresult) : Outcome Errors Stop Unit :=
  if status result = .commandOk then .ok ()
  else
    match sqlstate result with
    | none => .stop .nullPointer
    | some code => if span code = ascii "23505" then .err .PrimaryKeyDuplicate else .err .InsertionFailed

/-- The exits of insert without a PQclear: the duplicate key, and the read of a missing SQLSTATE. -/
def insertLeaves (result : Option PGresult) : Bool :=
  status result ≠ .commandOk && ((sqlstate result).map span).all (· = ascii "23505")

def rowsOutcome (e : Errors) (result : Option PGresult) (o : Outcome Errors Stop QueryResult) : Prop :=
  (status result ≠ .tuplesOk ∧ o = .err e) ∨
    ∃ r q, result = some r ∧ r.data.status = .tuplesOk ∧ o = .ok q ∧
      q.columns.items.map Buf.text = r.data.fnames.map span ∧
      q.rows.items.map (fun row => row.cells.map Buf.text) = cellTexts r.data

section
variable (P : Platform) (srv : Server σ) (self : Self) (w : World σ)

theorem allocPrint_run (text : Bytes) :
    (∃ b h, (inHeap (allocPrint P text) : Eff (World σ) Errors Stop Buf) w = (.ok b, { w with heap := h }) ∧
      b.text = text) ∨
      ¬ P.Succeeds ∧ ∃ e h, (inHeap (allocPrint P text) : Eff (World σ) Errors Stop Buf) w =
        (.err e, { w with heap := h }) :=
  inHeap_tries (allocPrint_tries P text) w

theorem fail_run {w₁ : World σ} (h : w₁.touched self.connection = w₁) (result : Option PGresult) (e : Errors) :
    (do PQerrorMessage self.connection; PQclear result; throw e : Eff (World σ) Errors Stop α) w₁ =
      (.err e, w₁.cleared result) :=
  (bind_ok (PQerrorMessage_run h)).trans (bind_ok rfl)

theorem execQuery_run (query : Buf) :
    execQuery srv self query w = (queryOutcome (w.exec srv self.connection query).1,
      { (w.exec srv self.connection query).2 with results := w.results }) := by
  have hheld := w.exec_held srv self.connection query
  have htouched := w.exec_touched srv self.connection query
  have hclear : (w.exec srv self.connection query).2.cleared (w.exec srv self.connection query).1 =
      { (w.exec srv self.connection query).2 with results := w.results } := by
    rw [World.cleared_of_held _ _ hheld]
    exact congrArg (fun R => { (w.exec srv self.connection query).2 with results := R })
      (add_tsub_cancel_left _ w.results)
  rw [← hclear]
  unfold execQuery queryOutcome
  refine (bind_ok rfl).trans ((bind_ok (readResult_run _ _ hheld)).trans ?_)
  by_cases hs : status (w.exec srv self.connection query).1 ≠ .tuplesOk ∧
      status (w.exec srv self.connection query).1 ≠ .commandOk
  · rw [if_pos hs]
    exact (congrFun (if_pos hs) _).trans (fail_run self htouched _ _)
  · rw [if_neg hs]
    exact congrFun (if_neg hs) _

theorem rowsOr_run (e : Errors) (result : Option PGresult) (w₁ : World σ) (X : Multiset ℕ)
    (hX : w₁.results = World.held result + X) (htouched : w₁.touched self.connection = w₁) :
    ∃ h R M, (rowsOr P self e result w₁).2 = { w₁ with heap := h, results := R, resultMisuse := M } ∧
      (P.Succeeds → rowsOutcome e result (rowsOr P self e result w₁).1 ∧ M = w₁.resultMisuse ∧ R = X) := by
  have hheld : World.held result ≤ w₁.results := by rw [hX]; exact Multiset.le_add_right _ _
  have hsub : w₁.results - World.held result = X := by rw [hX, add_tsub_cancel_left]
  by_cases hs : status result ≠ .tuplesOk
  · have hrun : rowsOr P self e result w₁ = (.err e, w₁.cleared result) :=
      (bind_ok (readResult_run _ _ hheld)).trans ((congrFun (if_pos hs) _).trans (fail_run self htouched _ _))
    rw [hrun, w₁.cleared_of_held result hheld]
    exact ⟨w₁.heap, _, _, rfl, fun _ => ⟨.inl ⟨hs, rfl⟩, rfl, hsub⟩⟩
  · have hrun : rowsOr P self e result w₁ = getResult P result w₁ :=
      (bind_ok (readResult_run _ _ hheld)).trans (congrFun (if_neg hs) _)
    rw [hrun]
    by_cases hP : P.Succeeds
    · cases result with
      | none => exact absurd (by decide) hs
      | some r =>
        obtain ⟨q, h, hq, hc, hr, -⟩ := getResult_returns hheld P hP w₁.heap.ledger ⟨rfl, rfl⟩
        rw [hq]
        exact ⟨h, _, w₁.resultMisuse, rfl, fun _ =>
          ⟨.inr ⟨r, q, rfl, not_not.mp hs, rfl, hc, hr⟩, rfl, hsub⟩⟩
    · obtain ⟨h, R, M, hw⟩ := getResult_keeps P w₁ result w₁ ⟨_, _, _, rfl⟩
      exact ⟨h, R, M, hw, fun h => absurd h hP⟩

theorem select_queried (table : Bytes) :
    Queried P srv self.connection (selectQuery table) w (rowsOutcome .QueryFailed) (fun _ => false)
      (select P srv self table w) := by
  rcases allocPrint_run P w (selectQuery table) with ⟨b, h, hb, ht⟩ | ⟨hP, e, h, he⟩
  · obtain ⟨h₁, R, M, hw, hspec⟩ := rowsOr_run P self .QueryFailed (w.exec srv self.connection b).1
      { (w.exec srv self.connection b).2 with heap := h } w.results rfl
      (World.exec_touched { w with heap := h } srv _ b)
    have hbody : (do let result ← PQexec srv self.connection b; rowsOr P self .QueryFailed result)
        { w with heap := h } = (_, { (w.exec srv self.connection b).2 with heap := h₁, results := R, resultMisuse := M }) :=
      (bind_ok rfl).trans (Prod.ext rfl hw)
    obtain ⟨h₂, hfree⟩ := deferring_free b.block hbody
    have hrun : select P srv self table w = _ := (bind_ok hb).trans hfree
    rw [hrun]
    exact .inr ⟨b, ht, h₂, R, M, rfl, hspec⟩
  · exact .inl ⟨hP, e, h, bind_err he⟩

/-- The calls that free their text before they look at the result. -/
theorem queried_freed {text : Bytes} {k : Option PGresult → Eff (World σ) Errors Stop α}
    {outcome : Option PGresult → Outcome Errors Stop α → Prop} {leaves : Option PGresult → Bool}
    (hk : ∀ result (w₁ : World σ) X, w₁.results = World.held result + X → w₁.touched self.connection = w₁ →
      ∃ h R M, (k result w₁).2 = { w₁ with heap := h, results := R, resultMisuse := M } ∧
        (P.Succeeds → outcome result (k result w₁).1 ∧ M = w₁.resultMisuse ∧
          R = if leaves result then World.held result + X else X)) :
    Queried P srv self.connection text w outcome leaves
      ((do
        let query ← inHeap (allocPrint P text)
        let result ← PQexec srv self.connection query
        inHeap (free query.block)
        k result : Eff (World σ) Errors Stop α) w) := by
  rcases allocPrint_run P w text with ⟨b, h, hb, ht⟩ | ⟨hP, e, h, he⟩
  · obtain ⟨h₁, hfree⟩ := inHeap_free (E := Errors) (C := Stop)
      { (w.exec srv self.connection b).2 with heap := h } b.block
    obtain ⟨h₂, R, M, hw, hspec⟩ := hk (w.exec srv self.connection b).1
      { (w.exec srv self.connection b).2 with heap := h₁ } w.results rfl
      (World.exec_touched { w with heap := h₁ } srv _ b)
    rw [(bind_ok hb).trans ((bind_ok rfl).trans (bind_ok hfree))]
    exact .inr ⟨b, ht, h₂, R, M, hw, hspec⟩
  · exact .inl ⟨hP, e, h, bind_err he⟩

theorem selectJoin_queried (mainTable joinTable joinValue : Bytes) (columns : Option Bytes) :
    Queried P srv self.connection (selectJoinQuery mainTable joinTable joinValue columns) w
      (rowsOutcome .SelectJoinFailed) (fun _ => false)
      (selectJoin P srv self mainTable joinTable joinValue columns w) :=
  queried_freed P srv self w (rowsOr_run P self .SelectJoinFailed)

theorem insertFailed_run (result : Option PGresult) (w₁ : World σ) (hheld : World.held result ≤ w₁.results)
    (htouched : w₁.touched self.connection = w₁) (code : Buf) :
    ∃ h, deferring (inHeap (free code.block)) (do
        PQerrorMessage self.connection
        if code.text = ascii "23505" then throw .PrimaryKeyDuplicate
        else do
          PQclear result
          throw .InsertionFailed : Eff (World σ) Errors Stop Unit) w₁ =
      (.err (if code.text = ascii "23505" then .PrimaryKeyDuplicate else .InsertionFailed),
        { w₁ with
          heap := h
          results := if code.text = ascii "23505" then w₁.results else w₁.results - World.held result }) := by
  let w₂ : World σ := { w₁ with
    results := if code.text = ascii "23505" then w₁.results else w₁.results - World.held result }
  show ∃ h, deferring _ _ w₁ = (_, { w₂ with heap := h })
  apply deferring_free code.block
  rw [bind_ok (PQerrorMessage_run htouched)]
  by_cases hd : code.text = ascii "23505"
  · simp only [w₂, hd, if_true, throw_run]
  · have hclear : (do PQclear result; throw .InsertionFailed : Eff (World σ) Errors Stop Unit) w₁ =
        (.err .InsertionFailed, w₁.cleared result) := bind_ok rfl
    simp only [w₂, hd, if_false, hclear, w₁.cleared_of_held result hheld]

theorem insertedOr_run (result : Option PGresult) (w₁ : World σ) (X : Multiset ℕ)
    (hX : w₁.results = World.held result + X) (htouched : w₁.touched self.connection = w₁) :
    ∃ h R M, (insertedOr P self result w₁).2 = { w₁ with heap := h, results := R, resultMisuse := M } ∧
      (P.Succeeds → (insertedOr P self result w₁).1 = insertOutcome result ∧ M = w₁.resultMisuse ∧
        R = if insertLeaves result then World.held result + X else X) := by
  have hheld : World.held result ≤ w₁.results := by rw [hX]; exact Multiset.le_add_right _ _
  have hsub : w₁.results - World.held result = X := by rw [hX, add_tsub_cancel_left]
  by_cases hs : status result ≠ .commandOk
  · have hrun : insertedOr P self result w₁ = _ :=
      (bind_ok (readResult_run _ _ hheld)).trans
        ((congrFun (if_pos hs) _).trans (bind_ok (readResult_run _ _ hheld)))
    cases hc : sqlstate result with
    | none =>
      have hnull : insertedOr P self result w₁ = (.stop .nullPointer, w₁) := by
        refine hrun.trans (bind_stop ?_)
        change inHeap (printC P (sqlstate result)) w₁ = _
        rw [hc]
        rfl
      rw [hnull]
      refine ⟨w₁.heap, _, _, rfl, fun _ => ⟨?_, rfl, ?_⟩⟩
      · simp only [insertOutcome, hs, hc, if_false]
      · simp [insertLeaves, hs, hc, hX]
    | some code =>
      have hcode : inHeap (printC P (sqlstate result)) w₁ =
          (inHeap (allocPrint P (span code)) : Eff (World σ) Errors Stop Buf) w₁ := by rw [hc]; rfl
      rcases allocPrint_run P w₁ (span code) with ⟨b, h, hb, ht⟩ | ⟨hP, e, h, he⟩
      · obtain ⟨h', hexit⟩ := insertFailed_run self result { w₁ with heap := h } hheld
          (congrArg (fun w' : World σ => { w' with heap := h }) htouched) b
        rw [hrun.trans ((bind_ok (hcode.trans hb)).trans hexit), ht, hsub]
        refine ⟨h', _, _, rfl, fun _ => ⟨?_, rfl, ?_⟩⟩
        · simp only [insertOutcome, hs, hc, if_false]
          split <;> rfl
        · simp [insertLeaves, hs, hc, hX]
      · rw [hrun.trans (bind_err (hcode.trans he))]
        exact ⟨h, _, _, rfl, fun h => absurd h hP⟩
  · have hrun : insertedOr P self result w₁ = (.ok (), w₁.cleared result) :=
      (bind_ok (readResult_run _ _ hheld)).trans (congrFun (if_neg hs) _)
    rw [hrun, w₁.cleared_of_held result hheld]
    refine ⟨w₁.heap, _, _, rfl, fun _ => ⟨?_, rfl, ?_⟩⟩
    · rw [insertOutcome, if_pos (not_not.mp hs)]
    · simpa [insertLeaves, not_not.mp hs] using hsub

theorem insert_queried (table values : Bytes) :
    Queried P srv self.connection (insertQuery table values) w (fun result o => o = insertOutcome result)
      insertLeaves (insert P srv self table values w) :=
  queried_freed P srv self w (insertedOr_run P self)

theorem deferring_deinitVar (m : Eff (World σ × Parts) Errors Stop α) (s : World σ × Parts) :
    ∃ h l, deferring (inHeapVar ArrayList.deinitVar) m s = ((m s).1, ({ (m s).2.1 with heap := h }, l)) := by
  obtain ⟨_, h, hfree, -⟩ := free_always (E := Errors) (C := Stop) (m s).2.2.block (m s).2.1.heap trivial
  have hcleanup : (inHeapVar ArrayList.deinitVar : Eff (World σ × Parts) Errors Stop Unit) (m s).2 =
      (.ok (), ({ (m s).2.1 with heap := h }, (m s).2.2)) :=
    inHeapVar_run ((bind_ok rfl).trans (lifted_run hfree))
  cases hm : (m s).1 with
  | stop c => exact ⟨(m s).2.1.heap, (m s).2.2, deferring_stop (Prod.ext hm rfl)⟩
  | ok a => exact ⟨h, (m s).2.2, deferring_ok (Prod.ext hm rfl) hcleanup⟩
  | err e => exact ⟨h, (m s).2.2, deferring_err (Prod.ext hm rfl) hcleanup⟩

theorem sendParts_run (parts : Parts) :
    (¬ P.Succeeds ∧ ∃ e h, sendParts P srv self parts w = (.err e, { w with heap := h })) ∨
      ∃ b, b.text = parts.items.flatten ∧ ∃ h, sendParts P srv self parts w =
        (queryOutcome (w.exec srv self.connection b).1,
          { (w.exec srv self.connection b).2 with heap := h, results := w.results }) := by
  rcases allocPrint_run P w ([].intercalate parts.items) with ⟨b, h, hb, ht⟩ | ⟨hP, e, h, he⟩
  · rw [nil_intercalate] at ht
    refine .inr ⟨b, ht, ?_⟩
    have hquery := execQuery_run srv self { w with heap := h } b
    obtain ⟨h₁, hfree⟩ := inHeap_free (E := Errors) (C := Stop)
      { (w.exec srv self.connection b).2 with heap := h, results := w.results } b.block
    cases ho : queryOutcome (w.exec srv self.connection b).1 with
    | ok u => exact ⟨h₁, (bind_ok hb).trans ((bind_ok (hquery.trans (Prod.ext ho rfl))).trans hfree)⟩
    | err e => exact ⟨h, (bind_ok hb).trans (bind_err (hquery.trans (Prod.ext ho rfl)))⟩
    | stop c => exact ⟨h, (bind_ok hb).trans (bind_stop (hquery.trans (Prod.ext ho rfl)))⟩
  · exact .inl ⟨hP, e, h, bind_err he⟩

theorem createTableFor_run (T : TypeArg) (fields : List StructField) (hT : T.info = .struct fields) :
    (¬ P.Succeeds ∧ ∃ e h, createTableFor P srv self T w = (.err e, { w with heap := h })) ∨
      ∃ b, b.text = createTableQuery T.typeName fields ∧ ∃ h, createTableFor P srv self T w =
        (queryOutcome (w.exec srv self.connection b).1,
          { (w.exec srv self.connection b).2 with heap := h, results := w.results }) := by
  have hguard (o : Outcome Errors Stop Unit) (w' : World σ) (l : Parts)
      (hm : createTable P srv self T.typeName fields (w, ArrayList.init) = (o, (w', l))) :
      ∃ h, createTableFor P srv self T w = (o, { w' with heap := h }) := by
    obtain ⟨h, l', hd⟩ := deferring_deinitVar (createTable P srv self T.typeName fields) (w, ArrayList.init)
    exact ⟨h, by simp only [createTableFor, hT, withVar, hd, hm]⟩
  rcases appendParts_tries P T.typeName fields T.named T.addressable (w.heap, ArrayList.init) rfl with
    ⟨_, ⟨h, l⟩, hparts, hspell⟩ | ⟨hP, e, ⟨h, l⟩, he⟩
  swap
  · obtain ⟨h', hrun⟩ := hguard _ { w with heap := h } l (bind_err (inHeapVar_run he))
    exact .inl ⟨hP, e, h', hrun⟩
  have hspell' : l.items.flatten = createTableQuery T.typeName fields := hspell
  have hparts' (o : Outcome Errors Stop Unit) (w' : World σ)
      (hs : sendParts P srv self l { w with heap := h } = (o, w')) :
      createTable P srv self T.typeName fields (w, ArrayList.init) = (o, (w', l)) :=
    (bind_ok (inHeapVar_run hparts)).trans ((bind_ok rfl).trans (lifted_run hs))
  rcases sendParts_run P srv self { w with heap := h } l with ⟨hP, e, h₁, he⟩ | ⟨b, hb, h₁, hsent⟩
  · obtain ⟨h', hrun⟩ := hguard _ _ l (hparts' _ _ he)
    exact .inl ⟨hP, e, h', hrun⟩
  · obtain ⟨h', hrun⟩ := hguard _ _ l (hparts' _ _ hsent)
    exact .inr ⟨b, hb.trans hspell', h', hrun⟩

theorem createTableFor_queried (T : TypeArg) (fields : List StructField) (hT : T.info = .struct fields) :
    Queried P srv self.connection (createTableQuery T.typeName fields) w
      (fun result o => o = queryOutcome result) (fun _ => false) (createTableFor P srv self T w) := by
  rcases createTableFor_run P srv self w T fields hT with he | ⟨b, hb, h, hrun⟩
  · exact .inl he
  · rw [hrun]
    exact .inr ⟨b, hb, h, _, w.resultMisuse, rfl, fun _ => ⟨rfl, rfl, rfl⟩⟩

theorem execQuery_queried (query : Buf) :
    Queried P srv self.connection query.text w (fun result o => o = queryOutcome result) (fun _ => false)
      (execQuery srv self query w) := by
  rw [execQuery_run]
  exact .inr ⟨query, rfl, w.heap, _, w.resultMisuse, rfl, fun _ => ⟨rfl, rfl, rfl⟩⟩

/-! ### Connecting -/

def connectionText (connectionString : ConnectionParams) : Bytes :=
  (connectionParts connectionString (portText connectionString.port)).flatten

theorem connectedOr_run (cs : ConnectionParams) (b : Buf) (conn : Option ℕ) (w₁ : World σ)
    (htouched : w₁.touched conn = w₁) :
    ∃ h, connectedOr cs b conn w₁ =
      if w₁.stateIs conn .usable then (.ok ⟨cs, conn, .OK⟩, { w₁ with heap := h })
      else (.err .ConnectionFailed, { w₁.finish conn with heap := h }) := by
  have hstatus : (PQstatusOk conn : Eff (World σ) Errors Stop Bool) w₁ = (.ok (w₁.stateIs conn .usable), w₁) := by
    rw [PQstatusOk, htouched]
  cases hu : w₁.stateIs conn .usable with
  | true =>
    obtain ⟨h, hfree⟩ := inHeap_free (E := Errors) (C := Stop) w₁ b.block
    rw [hu] at hstatus
    exact ⟨h, (bind_ok hstatus).trans (bind_ok hfree)⟩
  | false =>
    rw [hu] at hstatus
    exact ⟨w₁.heap, (bind_ok hstatus).trans ((bind_ok (PQerrorMessage_run htouched)).trans (bind_ok rfl))⟩

/-- init hands its text to libpq, or memory ran out before; it returns only a usable connection. -/
theorem init_run (cs : ConnectionParams) :
    (¬ P.Succeeds ∧ ∃ e h, init P srv cs w = (.err e, { w with heap := h })) ∨
      ∃ b, b.text = connectionText cs ∧ ∃ h, init P srv cs w =
        if (w.connect srv b).2.stateIs (w.connect srv b).1 .usable then
          (.ok ⟨cs, (w.connect srv b).1, .OK⟩, { (w.connect srv b).2 with heap := h })
        else (.err .ConnectionFailed, { (w.connect srv b).2.finish (w.connect srv b).1 with heap := h }) := by
  rcases allocPrint_run P w (portText cs.port) with ⟨p, h, hp, ht⟩ | ⟨hP, e, h, he⟩
  swap
  · exact .inl ⟨hP, e, h, bind_err he⟩
  rcases allocPrint_run P { w with heap := h } ([].intercalate (connectionParts cs p.text)) with
    ⟨b, h₁, hb, hbt⟩ | ⟨hP, e, h₁, he⟩
  swap
  · obtain ⟨h₂, hrun⟩ := deferring_free (m := connectWith P srv cs p.text) p.block (bind_err he)
    exact .inl ⟨hP, e, h₂, (bind_ok hp).trans hrun⟩
  rw [nil_intercalate, ht] at hbt
  refine .inr ⟨b, hbt, ?_⟩
  obtain ⟨h₂, hconn⟩ := connectedOr_run cs b (w.connect srv b).1 { (w.connect srv b).2 with heap := h₁ }
    (World.connect_touched { w with heap := h₁ } srv b)
  have hbody : connectWith P srv cs p.text { w with heap := h } = _ :=
    (bind_ok hb).trans ((bind_ok rfl).trans hconn)
  by_cases hu : (w.connect srv b).2.stateIs (w.connect srv b).1 .usable = true
  · obtain ⟨h₃, hrun⟩ := deferring_free p.block (hbody.trans (if_pos hu))
    exact ⟨h₃, (bind_ok hp).trans (hrun.trans (if_pos hu).symm)⟩
  · obtain ⟨h₃, hrun⟩ := deferring_free p.block (hbody.trans (if_neg hu))
    exact ⟨h₃, (bind_ok hp).trans (hrun.trans (if_neg hu).symm)⟩

end
end Psql
