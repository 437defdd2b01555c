import ZigPsql.Client.SessionSpec
import ZigPsql.Client.SessionRuns

/-!
# The programs refine their sessions

While memory lasts a program does, event for event, what is specified for its
sessions, and with the same outcomes.
-/

namespace Psql
open Effect Effect.Eff Text Zig Libpq Machine

variable {σ α : Type}

/-- What is to be seen of a program. -/
def Program.session (p : Program σ) : Session σ where
  server := p.world.server
  up c := (p.handle c).map fun _ => decide (p.world.conns c = .usable)
  next := p.world.nextConn
  fetched := p.results.map QueryResult.contents
  params := p.params.map fun q => q.paramString.text

/-! ### What the calls return -/

def queryData (result : Option PGresult) : Option ResultData := result.map PGresult.data

theorem doneWith_queryOutcome (result : Option PGresult) :
    (queryOutcome result).map (fun _ => none) = doneWith (queryData result) := by
  cases result with
  | none => rfl
  | some r =>
    by_cases hok : r.data.status = .tuplesOk ∨ r.data.status = .commandOk
    · have hquery : queryOutcome (some r) = .ok () := if_neg fun h => hok.elim h.1 h.2
      have hmeans : doneWith (queryData (some r)) = .ok none := if_pos hok
      rw [hquery, hmeans]
      rfl
    · have hquery : queryOutcome (some r) = .err .QueryFailed := if_pos (not_or.mp hok)
      have hmeans : doneWith (queryData (some r)) = .err .QueryFailed := if_neg hok
      rw [hquery, hmeans]
      rfl

theorem insertedBy_insertOutcome (result : Option PGresult) :
    (insertOutcome result).map (fun _ => none) = insertedBy (queryData result) := by
  cases result with
  | none => rfl
  | some r =>
    by_cases hs : r.data.status = .commandOk
    · have hinsert : insertOutcome (some r) = .ok () := if_pos hs
      have hmeans : insertedBy (queryData (some r)) = .ok none := if_pos hs
      rw [hinsert, hmeans]
      rfl
    · rw [insertOutcome, if_neg (show ¬ status (some r) = .commandOk from hs)]
      simp only [insertedBy, queryData, Option.map_some, hs, if_false, sqlstate, field]
      cases r.data.sqlstate with
      | none => rfl
      | some code =>
        by_cases hcode : span code = ascii "23505"
        · simp only [hcode, if_true, Outcome.map]
        · simp only [hcode, if_false, Outcome.map]

theorem rowsOf_rowsOutcome {e : Errors} {result : Option PGresult} {o : Outcome Errors Stop QueryResult}
    (h : rowsOutcome e result o) : o.map (fun q => some q.contents) = rowsOf e (queryData result) := by
  rcases h with ⟨hs, rfl⟩ | ⟨r, q, rfl, hs, rfl, hnames, hrows⟩
  · cases result with
    | none => rfl
    | some r => exact (if_neg hs).symm
  · have hcontents : q.contents = ⟨r.data.fnames.map span, cellTexts r.data⟩ := by
      rw [QueryResult.contents, hnames, hrows]
    rw [Outcome.map, hcontents]
    exact (if_pos hs).symm

/-- The outcome of a call is what its reply means; otherwise it has only the heap and the books changed. -/
def Answered (srv : Server σ) (conn : Option ℕ) (request : Call) (text : Bytes) (w : World σ)
    (run : Outcome Errors Stop (Option QueryResult) × World σ) : Prop :=
  ∃ b : Buf, b.text = text ∧ ∃ h R M,
    run.2 = { (w.exec srv conn b).2 with heap := h, results := R, resultMisuse := M } ∧
    run.1.map (Option.map QueryResult.contents) = request.means (queryData (w.exec srv conn b).1)

section
variable (P : Platform) (hP : P.Succeeds) (srv : Server σ) (self : Self) (w : World σ)
include hP

theorem answered_of_queried {text : Bytes} {request : Call} {outcome : Option PGresult → Outcome Errors Stop α → Prop}
    {leaves : Option PGresult → Bool} {m : Eff (World σ) Errors Stop α} {g : α → Option QueryResult}
    {run : Outcome Errors Stop (Option QueryResult) × World σ} (hrun : run = ((m w).1.map g, (m w).2))
    (hm : Queried P srv self.connection text w outcome leaves (m w))
    (hmeans : ∀ result o, outcome result o →
      (o.map g).map (Option.map QueryResult.contents) = request.means (queryData result)) :
    Answered srv self.connection request text w run := by
  rcases hm with ⟨hfail, -⟩ | ⟨b, hb, h, R, M, hw, hspec⟩
  · exact absurd hP hfail
  · rw [hrun]
    exact ⟨b, hb, h, R, M, hw, hmeans _ _ (hspec hP).1⟩

theorem returning_answered (request : Call) (text : Bytes) (ht : request.text = some text) :
    Answered srv self.connection request text w (request.returning P srv self w) := by
  have hnone (o : Outcome Errors Stop Unit) :
      (o.map fun _ => none).map (Option.map QueryResult.contents) = o.map fun _ => none := by cases o <;> rfl
  have hsome (o : Outcome Errors Stop QueryResult) :
      (o.map some).map (Option.map QueryResult.contents) = o.map fun q => some q.contents := by cases o <;> rfl
  cases request with
  | execQuery query =>
    obtain rfl : query = text := Option.some.inj ht
    refine answered_of_queried P hP srv self w (bind_pure_run _ _ w) (execQuery_queried P srv self w (.static query))
      fun result o ho => ?_
    rw [hnone, ho]
    exact doneWith_queryOutcome result
  | select table =>
    cases ht
    refine answered_of_queried P hP srv self w (bind_pure_run _ _ w) (select_queried P srv self w table)
      fun result o ho => ?_
    rw [hsome]
    exact rowsOf_rowsOutcome ho
  | insert table values =>
    cases ht
    refine answered_of_queried P hP srv self w (bind_pure_run _ _ w) (insert_queried P srv self w table values)
      fun result o ho => ?_
    rw [hnone, ho]
    exact insertedBy_insertOutcome result
  | selectJoin mainTable joinTable joinValue columns =>
    cases ht
    refine answered_of_queried P hP srv self w (bind_pure_run _ _ w)
      (selectJoin_queried P srv self w mainTable joinTable joinValue columns) fun result o ho => ?_
    rw [hsome]
    exact rowsOf_rowsOutcome ho
  | createTableFor T =>
    cases hT : T.info with
    | struct fields =>
      simp only [Call.text, hT] at ht
      cases ht
      refine answered_of_queried P hP srv self w (bind_pure_run _ _ w) (createTableFor_queried P srv self w T fields hT)
        fun result o ho => ?_
      rw [hnone, ho]
      exact doneWith_queryOutcome result
    | other =>
      simp only [Call.text, hT] at ht
      cases ht
  | close => cases ht

end

/-! ### A step for a step -/

namespace Program

section
variable {P : Platform} {srv : Server σ} {base : Multiset Block} {p : Program σ}

theorem session_up {c : ℕ} {self : Self} (hc : p.handle c = some self) :
    p.session.up c = some (p.world.stateIs self.connection .usable) := by
  rw [(mem_of_handle hc).2]
  simp [session, hc, World.stateIs]

theorem exec_conns_other {w : World σ} {c d : ℕ} (hne : d ≠ c) (b : Buf) :
    (w.exec srv (some c) b).2.conns d = w.conns d := by
  simp only [World.exec]
  split
  · simp [World.marking, hne]
  · rfl

theorem exec_conns_usable {w : World σ} {c : ℕ} (hu : w.conns c = .usable) (b : Buf) :
    decide ((w.exec srv (some c) b).2.conns c = .usable) = (srv.exec w.server (span b.text)).1.alive := by
  simp only [World.exec, World.stateIs, hu, decide_true, Bool.true_and]
  cases (srv.exec w.server (span b.text)).1.alive with
  | true => simp [hu]
  | false => simp [World.marking]

/-- The session after a query is the one that asked. -/
theorem session_asked {c : ℕ} {self : Self} (hc : p.handle c = some self) (b : Buf) (h : Heap) (R : Multiset ℕ)
    (M : Bool) (results : List QueryResult) :
    queryData (p.world.exec srv self.connection b).1 = (p.session.ask srv c b.text).1 ∧
      session ⟨{ (p.world.exec srv self.connection b).2 with heap := h, results := R, resultMisuse := M }, p.handles,
        results, p.params⟩ =
        { (p.session.ask srv c b.text).2 with fetched := results.map QueryResult.contents } := by
  have hconn := (mem_of_handle hc).2
  have hup := session_up hc
  rw [queryData, World.exec_reply]
  cases hu : p.world.stateIs self.connection .usable with
  | false =>
    rw [hu] at hup
    have hconns : (p.world.exec srv self.connection b).2.conns = p.world.conns := by simp [World.exec, hu]
    rw [Session.ask_lost hup]
    refine ⟨by simp [World.answer, hu], Session.ext ?_ (funext fun d => ?_) rfl rfl rfl⟩
    · simp [session, World.exec, hu]
    · change (p.handle d).map (fun _ => decide ((p.world.exec srv self.connection b).2.conns d = .usable)) = _
      rw [hconns]
      rfl
  | true =>
    rw [hu] at hup
    rw [Session.ask_up hup]
    refine ⟨by simp [World.answer, hu, session], Session.ext ?_ (funext fun d => ?_) rfl rfl rfl⟩
    · simp [session, World.exec, hu]
    · change (p.handle d).map (fun _ => decide ((p.world.exec srv self.connection b).2.conns d = .usable)) =
        Function.update p.session.up c (some (srv.exec p.world.server (span b.text)).1.alive) d
      rw [hconn] at hu ⊢
      by_cases hd : d = c
      · subst hd
        rw [hc, Function.update_self, Option.map_some, exec_conns_usable (of_decide_eq_true hu)]
      · rw [Function.update_of_ne hd, exec_conns_other hd]
        rfl

theorem session_closed {c : ℕ} {self : Self} (hc : p.handle c = some self) :
    session ⟨p.world.finish self.connection, p.handles.filter fun self => self.connection ≠ some c,
        p.results, p.params⟩ =
      { p.session with up := Function.update p.session.up c none } := by
  refine Session.ext rfl (funext fun d => ?_) rfl rfl rfl
  change ((p.handles.filter fun self => self.connection ≠ some c).find? fun self => self.connection = some d).map
    (fun _ => decide ((p.world.finish self.connection).conns d = .usable)) = Function.update p.session.up c none d
  rw [List.find?_filter, (mem_of_handle hc).2]
  by_cases hd : d = c
  · subst hd
    rw [Function.update_self, Option.map_eq_none_iff, List.find?_eq_none]
    intro self _
    simp
  · have hconns : (p.world.finish (some c)).conns d = p.world.conns d := by simp [World.finish, World.marking, hd]
    rw [Function.update_of_ne hd, hconns]
    change _ = (p.handles.find? fun self => self.connection = some d).map _
    congr 2
    funext self
    by_cases hself : self.connection = some d
    · simp [hself, hd]
    · simp [hself]

theorem call_refines (hP : P.Succeeds) (c : ℕ) (request : Call) :
    p.session.call srv c request =
      ((step P srv p (.call c request)).1, (step P srv p (.call c request)).2.session) := by
  cases hc : p.handle c with
  | none =>
    have hup : p.session.up c = none := by simp [session, hc]
    rw [step_absent hc, Session.call_absent hup]
  | some self =>
    have hup : p.session.up c ≠ none := by simp [session_up hc]
    by_cases hclose : request = .close
    · subst hclose
      rw [Session.call_close hup]
      simp only [step, hc]
      exact congrArg (Prod.mk (Outcome.ok ())) (session_closed hc).symm
    rw [step_request hc hclose]
    cases ht : request.text with
    | none =>
      rw [Session.call_silent hup hclose ht, returning_silent P srv self p.world request ht hclose]
      rfl
    | some text =>
      obtain ⟨b, rfl, h, R, M, hw, hmeans⟩ := returning_answered P hP srv self p.world request text ht
      have hasked := @session_asked _ srv p c self hc b h R M
      rw [Session.call_asks hup ht, ← (hasked []).1, ← hmeans]
      rcases hrun : request.returning P srv self p.world with ⟨o, w'⟩
      rw [hrun] at hw hmeans
      change w' = _ at hw
      subst hw
      have hkept : (p.session.ask srv c b.text).2 =
          { (p.session.ask srv c b.text).2 with fetched := p.session.fetched } := by
        rw [← p.session.ask_fetched srv c b.text]
      cases o with
      | ok q =>
        refine congrArg (Prod.mk (Outcome.ok ())) (Eq.trans ?_ (hasked (q.toList ++ p.results)).2.symm)
        have hnew : (q.toList ++ p.results).map QueryResult.contents =
            (q.map QueryResult.contents).toList ++ p.session.fetched := by cases q <;> rfl
        rw [hnew, hkept]
      | err e => exact congrArg (Prod.mk (Outcome.err e)) (hkept.trans (hasked p.results).2.symm)
      | stop x => exact congrArg (Prod.mk (Outcome.stop x)) (hkept.trans (hasked p.results).2.symm)

theorem handle_lt (hp : p.Sound base) {c : ℕ} {self : Self} (hc : p.handle c = some self) : c < p.world.nextConn := by
  obtain ⟨hmem, hself⟩ := mem_of_handle hc
  obtain ⟨d, hd, hconn, -⟩ := hp.opened self hmem
  rwa [← Option.some.inj (hconn.symm.trans hself)]

theorem session_opened (hp : p.Sound base) (b : Buf) (h : Heap) {self : Self}
    (hu : (p.world.connect srv b).2.stateIs (p.world.connect srv b).1 .usable = true)
    (hself : self.connection = (p.world.connect srv b).1) :
    session ⟨{ (p.world.connect srv b).2 with heap := h }, p.handles ++ [self], p.results, p.params⟩ =
      { p.session with
        server := (srv.connect p.world.server (span b.text)).2
        up := Function.update p.session.up p.world.nextConn (some true)
        next := p.world.nextConn + 1 } := by
  refine Session.ext rfl (funext fun d => ?_) rfl rfl rfl
  rw [connect_fresh hu] at hself
  change ((p.handles ++ [self]).find? fun self => self.connection = some d).map
    (fun _ => decide ((p.world.connect srv b).2.conns d = .usable)) =
      Function.update p.session.up p.world.nextConn (some true) d
  rw [List.find?_append]
  by_cases hd : d = p.world.nextConn
  · subst hd
    have hold : p.handle p.world.nextConn = none := by
      cases hc : p.handle p.world.nextConn with
      | none => rfl
      | some self => exact absurd (handle_lt hp hc) (lt_irrefl _)
    have hnew : [self].find? (fun self => self.connection = some p.world.nextConn) = some self := by simp [hself]
    have hstate : (p.world.connect srv b).2.conns p.world.nextConn = .usable := by
      rw [connect_fresh hu] at hu
      exact of_decide_eq_true hu
    rw [← handle, hold, Option.none_or, hnew, Function.update_self, hstate]
    rfl
  · have hnew : [self].find? (fun self => self.connection = some d) = none := by simp [hself, Ne.symm hd]
    rw [← handle, hnew, Option.or_none, Function.update_of_ne hd]
    cases hc : p.handle d with
    | none => simp [session, hc]
    | some self =>
      rw [(connect_conns p.world srv b (handle_lt hp hc) .usable).1]
      simp [session, hc]

theorem session_refused (hp : p.Sound base) (b : Buf) (h : Heap) :
    session ⟨{ (p.world.connect srv b).2.finish (p.world.connect srv b).1 with heap := h }, p.handles, p.results,
        p.params⟩ =
      { p.session with server := (srv.connect p.world.server (span b.text)).2, next := p.world.nextConn + 1 } := by
  refine Session.ext rfl (funext fun d => ?_) rfl rfl rfl
  change (p.handle d).map (fun _ =>
    decide ((p.world.connect srv b).2.marking (p.world.connect srv b).1 .finished d = .usable)) = p.session.up d
  cases hc : p.handle d with
  | none => simp [session, hc]
  | some self =>
    rw [(connect_conns p.world srv b (handle_lt hp hc) .finished).2]
    simp [session, hc]

theorem init_refines (hP : P.Succeeds) (hp : p.Sound base) (connectionString : ConnectionParams) :
    p.session.connect srv (connectionText connectionString) =
      ((step P srv p (.init connectionString)).1, (step P srv p (.init connectionString)).2.session) := by
  rcases init_run P srv p.world connectionString with ⟨hfail, -⟩ | ⟨b, hb, h, hrun⟩
  · exact absurd hP hfail
  rw [← hb]
  have husable := p.world.connect_usable srv b
  by_cases hup : (srv.connect p.world.server (span b.text)).1 = some true
  · have hu := husable.mpr hup
    rw [if_pos hu] at hrun
    simp only [step, hrun]
    exact (if_pos hup).trans (congrArg (Prod.mk (Outcome.ok ())) (session_opened hp b h hu rfl).symm)
  · rw [if_neg (husable.not.mpr hup)] at hrun
    simp only [step, hrun]
    exact (if_neg hup).trans (congrArg (Prod.mk (Outcome.err Errors.ConnectionFailed)) (session_refused hp b h).symm)

theorem deinit_run {w : World σ} {M N : Multiset Block} {m : Eff Heap Errors Stop Unit}
    (hw : Above false (M + N + base) w.heap) (hm : ∀ L, Returns (Owns false (M + L)) m fun _ => Owns false L) :
    ∃ h, (inHeap m : Eff (World σ) Errors Stop Unit) w = (.ok (), { w with heap := h }) := by
  rw [add_assoc] at hw
  obtain ⟨_, h, hrun, -⟩ := returns_above hm (N + base) w.heap hw
  exact ⟨h, inHeap_run hrun⟩

theorem eraseIdx_map {β : Type} (l : List α) (g : α → β) (k : ℕ) : (l.eraseIdx k).map g = (l.map g).eraseIdx k := by
  simp only [List.eraseIdx_eq_take_drop_succ, List.map_append, List.map_take, List.map_drop]

/-- What a program does for an event is what is specified for its sessions. -/
theorem step_refines (hP : P.Succeeds) (hp : p.Sound base) (e : Event) :
    p.session.step srv e = ((step P srv p e).1, (step P srv p e).2.session) := by
  cases e with
  | init connectionString => exact init_refines hP hp connectionString
  | call c request => exact call_refines hP c request
  | QParams values =>
    obtain ⟨q, h, hrun, -⟩ := QParams_returns P hP p.world.heap.ledger values p.world.heap ⟨rfl, rfl⟩
    have htext := QParams_text P values p.world.heap trivial q h hrun
    have hrun' : inHeap (Psql.QParams P values) p.world = (.ok q, { p.world with heap := h }) := inHeap_run hrun
    simp only [step, hrun', Session.step, ← htext]
    rfl
  | insertParams c table k =>
    cases hk : p.params[k]? with
    | none =>
      have hspec : p.session.params[k]? = none := by simp [session, hk]
      rw [step_noString hk]
      simp only [Session.step, hspec]
    | some q =>
      have hspec : p.session.params[k]? = some q.paramString.text := by simp [session, hk]
      rw [step_insertParams hk]
      simp only [Session.step, hspec]
      exact call_refines hP c _
  | deinitResult k =>
    cases hk : p.results[k]? with
    | none =>
      have hlen : p.session.fetched.length ≤ k := by simpa [session] using List.getElem?_eq_none_iff.mp hk
      simp only [step, hk, Session.step, not_lt.mpr hlen, if_false]
    | some q =>
      have hlen : k < p.session.fetched.length := by
        simpa [session] using (List.getElem?_eq_some_iff.mp hk).choose
      obtain ⟨h, hrun⟩ := deinit_run (kept_result hk ▸ hp.blocks) fun L => deinit_returns L q
      simp only [step, hk, hrun, Session.step, hlen, if_true]
      exact congrArg (Prod.mk (Outcome.ok ())) (Session.ext rfl rfl rfl (eraseIdx_map _ _ k).symm rfl)
  | deinitParams k =>
    cases hk : p.params[k]? with
    | none =>
      have hlen : p.session.params.length ≤ k := by simpa [session] using List.getElem?_eq_none_iff.mp hk
      simp only [step, hk, Session.step, not_lt.mpr hlen, if_false]
    | some q =>
      have hlen : k < p.session.params.length := by
        simpa [session] using (List.getElem?_eq_some_iff.mp hk).choose
      obtain ⟨h, hrun⟩ := deinit_run (kept_params hk ▸ hp.blocks) fun L => free_returns L q.paramString.block
      have hrun' : inHeap q.deinit p.world = (.ok (), { p.world with heap := h }) := hrun
      simp only [step, hk, hrun', Session.step, hlen, if_true]
      exact congrArg (Prod.mk (Outcome.ok ())) (Session.ext rfl rfl rfl rfl (eraseIdx_map _ _ k).symm)

/-- While memory lasts every run of a program is, outcome for outcome, the run of its sessions: the heap, the
handles and the results of libpq do not show. -/
theorem run_refines (P : Platform) (hP : P.Succeeds) (srv : Server σ) (p : Program σ) (hp : p.Sound base)
    (es : List Event) : p.session.run srv es = ((p.run P srv es).1, (p.run P srv es).2.session) :=
  run_commutes (I := Sound base) (fun e _ hq => ⟨step_refines hP hq e, step_sound hq e⟩) es p hp

end
end Program

/-! A program that reads, closes, and then has no connection to insert on. -/

def readAndClosed : List Event :=
  [.call 0 (.select (ascii "member")), .call 0 (.execQuery (ascii "x")), .deinitResult 0, .call 0 .close,
    .call 0 (.insert (ascii "visit") [])]

theorem run_refines_readAndClosed :
    (oneOpen oneRow).session.run scripted readAndClosed =
      (((oneOpen oneRow).run Platform.simple scripted readAndClosed).1,
        ((oneOpen oneRow).run Platform.simple scripted readAndClosed).2.session) :=
  Program.run_refines Platform.simple Platform.simple_succeeds scripted (oneOpen oneRow) (oneOpen_sound _) readAndClosed

end Psql
