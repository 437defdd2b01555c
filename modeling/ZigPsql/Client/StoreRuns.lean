import ZigPsql.Client.Refinement

/-!
# Runs of calls as runs of the store

Calls on any number of connections to one server, in any order. Whichever
allocations fail, the answers are those of the store to the operations that were
not dropped, and a row is in its table exactly once for every insertion that was
reported.
-/

namespace Psql
open Effect Effect.Eff Text Zig Libpq Postgres Machine

/-- A call and the connection it is made on. -/
abbrev Request := Self × Operation

section
variable {σ : Type} (P : Platform) (srv : Server σ) (S : Settings)

def runRequests (w : World σ) (rs : List Request) : List (Outcome Errors Stop (Option QueryResult)) × World σ :=
  Machine.run (fun w (r : Request) => r.2.run P srv r.1 w) Outcome.stopped w rs

def storeStep (s : Store) (r : Request) : Answer × Store := s.step S r.2

def droppedRequest (E : Engine σ) (r : Request) (o : Outcome Errors Stop (Option QueryResult)) : Prop :=
  Dropped P E r.2 o

end

section
variable {σ : Type} {P : Platform} {S : Settings} {E : Engine σ} (hE : E.Executes S) {w : World σ} {rs : List Request}
  (hup : ∀ r ∈ rs, w.stateIs r.1.connection .usable = true) (hwithin : ∀ r ∈ rs, r.2.Within S)
include hE hup hwithin

theorem requests_step (r : Request) (hr : r ∈ rs) (w' : World σ) (s : Store) (h : w'.conns = w.conns ∧ Holds E w' s) :
    ((storeStep S s r).1.Seen (r.2.run P E.server r.1 w').1 ∧ (r.2.run P E.server r.1 w').1.stopped = false ∧
        (r.2.run P E.server r.1 w').2.conns = w.conns ∧ Holds E (r.2.run P E.server r.1 w').2 (storeStep S s r).2) ∨
      droppedRequest P E r (r.2.run P E.server r.1 w').1 ∧
        (r.2.run P E.server r.1 w').2.conns = w.conns ∧ Holds E (r.2.run P E.server r.1 w').2 s := by
  obtain ⟨hconns, hholds⟩ := h
  have hdone : r.2.Done P E S r.1 w' s :=
    operation_done hE ((stateIs_of_conns hconns).trans (hup r hr)) hholds r.2 (hwithin r hr)
  obtain ⟨hconns', hdone⟩ := hdone
  rcases hdone with ⟨hseen, hgoes, hholds'⟩ | ⟨hdropped, hholds'⟩
  · exact .inl ⟨hseen, hgoes, hconns'.trans hconns, hholds'⟩
  · exact .inr ⟨hdropped, hconns'.trans hconns, hholds'⟩

theorem runRequests_holds {s : Store} (hw : Holds E w s) :
    ∃ s', Explains (storeStep S) Answer.Seen (droppedRequest P E) s rs (runRequests P E.server w rs).1 s' ∧
      Holds E (runRequests P E.server w rs).2 s' := by
  obtain ⟨s', hexplains, hlast⟩ := run_explained (R := fun w' s' => w'.conns = w.conns ∧ Holds E w' s') rs
    (requests_step hE hup hwithin) w s ⟨rfl, hw⟩
  exact ⟨s', hexplains, hlast.2⟩

end

/-- While memory lasts, a call that the server takes is not dropped. -/
theorem not_dropped {σ α : Type} {P : Platform} {E : Engine σ} (hP : P.Succeeds) {op : Operation}
    (htakes : ∀ text, op.text = some text → E.Takes (span text)) (o : Outcome Errors Stop α) : ¬ Dropped P E op o := by
  rintro (⟨x, -, hnot, -⟩ | ⟨s, text, htext, hrefuses, -⟩)
  · exact hnot hP
  · exact htakes text htext s hrefuses

/-! Members and their visits. -/

def memberName : Name := ⟨ascii "Member", by decide +kernel⟩
def visitName : Name := ⟨ascii "Visit", by decide +kernel⟩
def idName : Name := ⟨ascii "id", by decide +kernel⟩

def memberRequests : List Request :=
  [(testSelf, .declare ⟨accountsMember, plainType_members _ (by simp)⟩),
    ({ testSelf with connection := some 1 }, .append memberName ⟨[.int true 32 7,
      .pointer .slice true .u8 none (ascii "it's")], by decide, by simp [sendable, ascii]⟩),
    (testSelf, .append memberName ⟨[.int true 32 (2 ^ 31), .pointer .slice true .u8 none (ascii "x")], by decide,
      by simp [sendable, ascii]⟩),
    (testSelf, .read memberName)]

theorem memberRequests_within : ∀ r ∈ memberRequests, r.2.Within .plain := by
  simp [memberRequests, Operation.Within, Settings.plain]

theorem memberRequests_up (db : Database) :
    ∀ r ∈ memberRequests, (connected db).stateIs r.1.connection .usable = true := by
  simp [memberRequests, connected, World.stateIs, testSelf]

/-- A member and two visits. -/
def visits : Database := fun name =>
  if name = ascii "member" then
    some ⟨declared .plain accountsMember, [[some (.number 7), some (.text (ascii "Ann"))]], by decide⟩
  else if name = ascii "visit" then
    some ⟨[⟨ascii "id", .integer⟩, ⟨ascii "day", .integer⟩],
      [[some (.number 7), some (.number 3)], [some (.number 7), some (.number 5)]], by decide⟩
  else none

theorem visits_distinct : (tables.tables visits).Distinct := by
  intro name r hr
  simp only [tables, reference, relations, visits] at hr
  split at hr
  · cases hr
    decide
  · split at hr
    · cases hr
      decide
    · cases hr

section
variable {σ : Type} (P : Platform) {S : Settings} {E : Engine σ} (w : World σ)

def returnedOk {α : Type} : Outcome Errors Stop α → Bool
  | .ok _ => true
  | _ => false

/-- The tuples whose insertion into a table was reported. -/
def reported {α : Type} (S : Settings) (name : Bytes) (rs : List Request) (os : List (Outcome Errors Stop α)) :
    List Params :=
  (rs.zip os).filterMap fun p => if returnedOk p.2 then Store.tupleFor S name p.1.2 else none

theorem returnedOk_dropped {α : Type} {op : Operation} {o : Outcome Errors Stop α} (h : Dropped P E op o) :
    returnedOk o = false := by
  rcases h with ⟨x, rfl, -⟩ | ⟨-, -, -, -, e, rfl⟩
  · cases x <;> rfl
  · rfl

/-- The table's rows are those it had and one for each of the tuples. -/
def Grown (S : Settings) (r : Relation) (tuples : List Params) (r' : Relation) : Prop :=
  r'.columns = r.columns ∧ ∃ rows, List.Forall₂ (fun (tuple : Params) row => rowFor S r.columns tuple.values = some row)
    tuples rows ∧ r'.rows = r.rows + (rows : Multiset Postgres.Tuple)

theorem grown_cons {r r' : Relation} {tuple : Params} {row : Postgres.Tuple} {tuples : List Params}
    (hrow : rowFor S r.columns tuple.values = some row) (h : Grown S (r.plus row) tuples r') :
    Grown S r (tuple :: tuples) r' := by
  obtain ⟨hcolumns, rows, hrows, hsum⟩ := h
  refine ⟨hcolumns, row :: rows, .cons hrow hrows, ?_⟩
  rw [hsum, Relation.plus, add_assoc, ← Multiset.coe_singleton, Multiset.coe_add]
  rfl

theorem explained_grown {name : Bytes} {s s' : Store} {rs : List Request}
    {os : List (Outcome Errors Stop (Option QueryResult))}
    (h : Explains (storeStep S) Answer.Seen (droppedRequest P E) s rs os s') {r : Relation} (hr : s name = some r) :
    ∃ r', s' name = some r' ∧ Grown S r (reported S name rs os) r' := by
  induction h generalizing r with
  | nil s => exact ⟨r, hr, rfl, [], .nil, by simp⟩
  | @answered s s' request rs o os hseen hrest ih =>
    change ((s.step S request.2).1).Seen o at hseen
    rcases Store.step_table S hr request.2 with ⟨tuple, row, htuple, hrow, hdone, hr'⟩ | ⟨hr', hnot⟩
    · rw [hdone] at hseen
      cases hseen
      obtain ⟨r', hs', hgrown⟩ := ih hr'
      refine ⟨r', hs', ?_⟩
      simpa [reported, returnedOk, htuple] using grown_cons hrow hgrown
    · obtain ⟨r', hs', hgrown⟩ := ih hr'
      refine ⟨r', hs', ?_⟩
      rcases hnot with hnone | ⟨e, hfailed⟩
      · simpa [reported, hnone] using hgrown
      · rw [hfailed] at hseen
        cases hseen
        simpa [reported, returnedOk] using hgrown
  | dropped hdropped _ ih =>
    obtain ⟨r', hs', hgrown⟩ := ih hr
    refine ⟨r', hs', ?_⟩
    simpa [reported, returnedOk_dropped P hdropped] using hgrown
  | ended hdropped => exact ⟨r, hr, rfl, [], by simp [reported, returnedOk_dropped P hdropped], by simp⟩

/-- After any run, whichever calls were dropped in it, a table has the rows it had before and one for
each insertion that was reported to its caller. -/
theorem rows_exactly_once (hE : E.Executes S) (hdistinct : (E.tables w.server).Distinct) (name : Bytes) (r : Relation)
    (hr : E.tables w.server name = some r) (rs : List Request)
    (hup : ∀ r ∈ rs, w.stateIs r.1.connection .usable = true) (hwithin : ∀ r ∈ rs, r.2.Within S) :
    ∃ r', E.tables (runRequests P E.server w rs).2.server name = some r' ∧
      Grown S r (reported S name rs (runRequests P E.server w rs).1) r' := by
  have hholds : Holds E w (E.tables w.server) := ⟨rfl, hdistinct⟩
  obtain ⟨s', hexplains, hlast⟩ := runRequests_holds (P := P) hE hup hwithin hholds
  rw [hlast.tables]
  exact explained_grown P hexplains hr

theorem rows_exactly_once_member :
    ∃ r', tables.tables (runRequests Platform.simple tables.server (connected visits) memberRequests).2.server
        (ascii "member") = some r' ∧
      Grown .plain ⟨declared .plain accountsMember, {[some (.number 7), some (.text (ascii "Ann"))]}⟩ (reported .plain (ascii "member") memberRequests
        (runRequests Platform.simple tables.server (connected visits) memberRequests).1) r' :=
  rows_exactly_once Platform.simple (connected visits) tables_executes visits_distinct (ascii "member")
    ⟨declared .plain accountsMember, {[some (.number 7), some (.text (ascii "Ann"))]}⟩ rfl memberRequests (memberRequests_up _) memberRequests_within

/-! ### selectJoin either way round -/

/-- Both give the same rows under the same columns, in some order, or both fail with the error. -/
def Agree (e : Errors) (o₁ o₂ : Outcome Errors Stop QueryResult) : Prop :=
  (∃ q₁ q₂, o₁ = .ok q₁ ∧ o₂ = .ok q₂ ∧ q₁.contents.columns = q₂.contents.columns ∧
      q₁.contents.rows.Perm q₂.contents.rows) ∨
    o₁ = .err e ∧ o₂ = .err e

theorem within_swap {mainTable joinTable joinValue : Name} {columns : Columns}
    (h : (Operation.join mainTable joinTable joinValue columns).Within S) :
    (Operation.join joinTable mainTable joinValue columns).Within S := by
  obtain ⟨hmain, hjoin, hvalue, hrefs⟩ := h
  exact ⟨hjoin, hmain, hvalue, fun ref href => ⟨(hrefs ref href).1, fun hnone => ((hrefs ref href).2 hnone).symm⟩⟩

/-- With a list of columns, the two tables of selectJoin may change places. -/
theorem selectJoin_swap (hP : P.Succeeds) (hE : E.Executes S) (self : Self)
    (hup : w.stateIs self.connection .usable = true) (hdistinct : (E.tables w.server).Distinct)
    (mainTable joinTable joinValue : Name) (columns : Columns) (hcolumns : columns.output ≠ .all)
    (hwithin : (Operation.join mainTable joinTable joinValue columns).Within S)
    (htakes : ∀ l r, (l, r) = (mainTable, joinTable) ∨ (l, r) = (joinTable, mainTable) →
      E.Takes (span (selectJoinQuery l.text r.text joinValue.text columns.argument))) :
    Agree .SelectJoinFailed
      (selectJoin P E.server self mainTable.text joinTable.text joinValue.text columns.argument w).1
      (selectJoin P E.server self joinTable.text mainTable.text joinValue.text columns.argument w).1 := by
  have hw : Holds E w (E.tables w.server) := ⟨rfl, hdistinct⟩
  have hdone (l r : Name) (hlr : (l, r) = (mainTable, joinTable) ∨ (l, r) = (joinTable, mainTable))
      (hwithin : (Operation.join l r joinValue columns).Within S) :
      (Store.shown (Store.join S (E.tables w.server) l r joinValue columns)).Seen
        ((selectJoin P E.server self l.text r.text joinValue.text columns.argument w).1.map some) := by
    have hjoin : (Operation.join l r joinValue columns).Done P E S self w (E.tables w.server) :=
      operation_done hE hup hw _ hwithin
    rcases hjoin.2 with ⟨hseen, -, -⟩ | ⟨hdropped, -⟩
    · rwa [Operation.run, bind_pure_run] at hseen
    · refine absurd hdropped (not_dropped hP (fun text htext => ?_) _)
      cases htext
      exact htakes l r hlr
  have hfirst := hdone mainTable joinTable (.inl rfl) hwithin
  have hsecond := hdone joinTable mainTable (.inr rfl) (within_swap hwithin)
  rw [Store.join_swap S _ mainTable joinTable joinValue hcolumns] at hsecond
  cases hjoin : Store.join S (E.tables w.server) mainTable joinTable joinValue columns with
  | ok r =>
    rw [hjoin] at hfirst hsecond
    obtain ⟨q₁, h₁, hnames₁, hrows₁⟩ := hfirst
    obtain ⟨_, ho₁, ⟨⟩⟩ := map_eq_ok h₁
    obtain ⟨q₂, h₂, hnames₂, hrows₂⟩ := hsecond
    obtain ⟨_, ho₂, ⟨⟩⟩ := map_eq_ok h₂
    exact .inl ⟨q₁, q₂, ho₁, ho₂, hnames₁.trans hnames₂.symm,
      Multiset.coe_eq_coe.mp (hrows₁.trans hrows₂.symm)⟩
  | error e =>
    have he : e = .SelectJoinFailed := by
      obtain ⟨j, -, hj⟩ := mapError_eq_error hjoin
      exact hj.symm
    rw [hjoin, he] at hfirst hsecond
    exact .inr ⟨map_eq_err hfirst, map_eq_err hsecond⟩

def visitColumns : Columns := ⟨.refs [⟨some (ascii "Member"), ascii "name"⟩, ⟨none, ascii "day"⟩], by decide +kernel⟩

theorem selectJoin_swap_visits :
    Agree .SelectJoinFailed
      (selectJoin Platform.simple tables.server testSelf (ascii "Member") (ascii "Visit") (ascii "id")
        (some (ascii "Member.name, day")) (connected visits)).1
      (selectJoin Platform.simple tables.server testSelf (ascii "Visit") (ascii "Member") (ascii "id")
        (some (ascii "Member.name, day")) (connected visits)).1 :=
  selectJoin_swap Platform.simple (connected visits) Platform.simple_succeeds tables_executes testSelf rfl
    visits_distinct memberName visitName idName visitColumns (by simp [visitColumns])
    ⟨rfl, rfl, by decide +kernel, by decide +kernel⟩ fun _ _ _ _ hrefuses => hrefuses

end

end Psql
