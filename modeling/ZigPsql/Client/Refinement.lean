import ZigPsql.Lib.Machine
import ZigPsql.Client.Attempts
import ZigPsql.Client.Store
import ZigPsql.Client.Injection

/-!
# The calls carry out the store's operations

On a server that executes the statements, each call does to the tables what its
operation does to the store and answers like it, or it is lost for lack of
memory, or refused by the server for a reason of its own, and has done nothing.
-/

namespace Psql
open Effect Effect.Eff Text Zig Libpq Postgres Scanner

variable {α : Type}

/-! ### Tuples -/

theorem mapM_congr {β γ : Type} {f g : β → Option γ} {l : List β} (h : ∀ x ∈ l, f x = g x) : l.mapM f = l.mapM g := by
  induction l with
  | nil => rfl
  | cons x rest ih =>
    rw [List.mapM_cons, List.mapM_cons, h x (List.mem_cons_self ..), ih fun y hy => h y (List.mem_cons_of_mem _ hy)]

theorem constant_sendable {v : Value} (hkind : ∀ type, v ≠ .other type) (hs : sendable v = true) :
    constant (constantTokens v) = constantFor v := by
  have hdecimal (d : FloatDecimal) :
      constant (decimalTokens d) = if d.fits then some (.number (decimalValue d)) else none := by
    cases hfits : d.fits with
    | true => exact (literal_decimalText d hfits).reads
    | false =>
      rw [decimalTokens, hfits]
      rfl
  cases v with
  | int signed bits z => exact (literal_intText z).reads
  | comptimeInt z => exact (literal_intText z).reads
  | float bits x =>
    cases x with
    | finite d => exact hdecimal d
    | inf | nan => cases hs
  | comptimeFloat x =>
    cases x with
    | finite d => exact hdecimal d
    | inf | nan => cases hs
  | pointer size isConst child sentinel bytes => exact (literal_string bytes).reads
  | other type => exact absurd rfl (hkind type)

namespace Params

variable (tuple : Params)

theorem accepted : ∀ v ∈ tuple.values, accepted v = true := by
  have h := tuple.listed
  simp only [Psql.listed, Bool.and_eq_true, List.all_eq_true] at h
  exact h.1

theorem kind (v : Value) (hv : v ∈ tuple.values) (type : ZigType) : v ≠ .other type := by
  rintro rfl
  cases tuple.accepted _ hv

theorem sent (v : Value) (hv : v ∈ tuple.values) : Sent v := sent_of_sendable (tuple.kind v hv) (tuple.sendable v hv)

theorem text_eq : (fragments true tuple.values).flatten = valuesText tuple.values := by
  have h := tuple.listed
  simp only [Psql.listed, Bool.and_eq_true, List.all_eq_true] at h
  rw [fragments_of_startsTyped _ h.1 h.2, joined, valuesText]
  refine congrArg _ (List.map_congr_left fun v hv => ?_)
  exact rendering_eq_constantText (rendering_of_accepted v (h.1 v hv))

theorem constants : (tuple.values.map constantTokens).mapM constant = tuple.values.mapM constantFor := by
  rw [List.mapM_map]
  exact mapM_congr fun v hv => constant_sendable (tuple.kind v hv) (tuple.sendable v hv)

end Params

theorem appended_eq (S : Settings) (s : Store) (name : Bytes) (values : List Value) :
    s.appended S name values = (values.mapM constantFor).bind fun cs =>
      if cs = [] then none else Relations.insert S s name cs := by
  unfold Store.appended rowFor Relations.insert
  cases values.mapM constantFor with
  | none => cases s name <;> rfl
  | some cs =>
    by_cases hnil : cs = []
    · simp only [hnil, Option.bind_some, if_true]
      cases s name <;> rfl
    · simp only [hnil, Option.bind_some, if_false]

/-! ### Queries -/

theorem refText_noNul {ref : ColumnRef} (h : plainRef ref = true) : 0 ∉ refText ref := by
  obtain ⟨table, name⟩ := ref
  simp only [plainRef, Bool.and_eq_true] at h
  have hname := plainName_noNul h.2
  cases table with
  | none => exact hname
  | some t =>
    have ht := plainName_noNul (n := t) h.1
    simp [refText, hname, ht]

theorem outputText_noNul {out : Output} (h : plainOutput out = true) : 0 ∉ outputText out := by
  cases out with
  | all => decide
  | refs list =>
    intro hmem
    rcases mem_of_mem_intercalate hmem with hsep | ⟨t, ht, hb⟩
    · exact absurd hsep (by decide)
    · obtain ⟨ref, href, rfl⟩ := List.mem_map.mp ht
      exact refText_noNul (List.all_eq_true.mp h ref href) hb

def Columns.argument (c : Columns) : Option Bytes :=
  match c.output with
  | .all => none
  | .refs list => some (listText list)

theorem selectJoinQuery_eq (mainTable joinTable joinValue : Bytes) (columns : Columns) :
    selectJoinQuery mainTable joinTable joinValue columns.argument =
      joinText columns.output mainTable joinTable joinValue := by
  obtain ⟨output, _⟩ := columns
  cases output <;> rfl

theorem joinText_noNul (mainTable joinTable joinValue : Name) (columns : Columns) :
    0 ∉ joinText columns.output mainTable.text joinTable.text joinValue.text := by
  have hout := outputText_noNul columns.plain
  have hmain := plainName_noNul mainTable.plain
  have hjoin := plainName_noNul joinTable.plain
  have hvalue := plainName_noNul joinValue.plain
  simp only [joinText, List.mem_append, hout, hmain, hjoin, hvalue, or_false]
  decide

section
variable {σ : Type} {S : Settings} {E : Engine σ} (hE : E.Executes S) (s : σ)
include hE

theorem append_becomes (table : Name) (tuple : Params) (hfree : S.others (table.ident S) = false)
    (htakes : ¬ E.refuses s (span (insertQuery table.text (valuesText tuple.values)))) :
    E.Becomes s (span (insertQuery table.text (valuesText tuple.values)))
      (Store.appended S (E.tables s) (table.ident S) tuple.values) := by
  rw [appended_eq, ← tuple.constants]
  exact insert_becomes hE s table.plain hfree tuple.sent htakes

theorem join_gives (mainTable joinTable joinValue : Name) (columns : Columns)
    (hwithin : (Operation.join mainTable joinTable joinValue columns).Within S) (hdistinct : (E.tables s).Distinct)
    (htakes : ¬ E.refuses s
      (span (selectJoinQuery mainTable.text joinTable.text joinValue.text columns.argument))) :
    E.Gives s (span (selectJoinQuery mainTable.text joinTable.text joinValue.text columns.argument))
      (Store.join S (E.tables s) mainTable joinTable joinValue columns).toOption := by
  obtain ⟨hmain, hjoin, hordinary⟩ := hwithin
  have hgives : (Store.join S (E.tables s) mainTable joinTable joinValue columns).toOption =
      (namedJoin (mainTable.ident S) (joinTable.ident S) (E.tables s) (joinValue.ident S)
        (S.output (foldOutput columns.output))).toOption := by
    unfold Store.join
    cases namedJoin (mainTable.ident S) (joinTable.ident S) (E.tables s) (joinValue.ident S)
      (S.output (foldOutput columns.output)) <;> rfl
  rw [selectJoinQuery_eq, span_of_noNul _ (joinText_noNul mainTable joinTable joinValue columns)] at htakes ⊢
  rw [hgives]
  exact hE.joins (reads_join columns.plain mainTable.plain joinTable.plain joinValue.plain S) hmain hjoin hordinary
    hdistinct htakes

end

/-! ### The calls -/

section
variable {σ : Type} (P : Platform) (srv : Server σ) (self : Self) (w : World σ)

theorem insertParams_attempted {f : Bool} {L : Multiset Block} (hh : Above f L w.heap) (table : Bytes)
    (values : List Value) :
    Attempted P srv self.connection (insertQuery table (fragments true values).flatten) (fun _ : Unit => 0) f L
      (fun result o => o = insertOutcome result) w (insertParams P srv self table values w) := by
  rcases QParams_exits P L values w.heap hh with ⟨q, h, hq, ho⟩ | ⟨x, h, hx, hspent⟩
  · have hin : (inHeap (QParams P values) : Eff (World σ) Errors Stop QueryParams) w = (.ok q, { w with heap := h }) :=
      zoom_run hq
    have htext := QParams_text P values w.heap trivial q h hq
    have hinsert := insert_attempted P srv self { w with heap := h } ho table q.paramString.text
    rcases hi : insert P srv self table q.paramString.text { w with heap := h } with ⟨o, w'⟩
    rw [hi, htext] at hinsert
    rcases hinsert with ⟨x, h₁, hrun, hspent⟩ | ⟨b, hb, h₁, R, hw, hge, hle, habove, htold⟩
    · cases hrun
      have hnone : returned (fun _ : Unit => 0) (exiting x : Outcome Errors Stop Unit) = 0 := by cases x <;> rfl
      obtain ⟨h₂, hfree, habove⟩ := deferring_free_above q.paramString.block (fun _ : Unit => 0) hi
        (by rw [hnone, zero_add]; exact hspent.2)
      rw [hnone, zero_add] at habove
      exact .inl ⟨x, h₂, (bind_ok hin).trans hfree, hspent.1, habove⟩
    · cases hw
      obtain ⟨h₂, hfree, habove'⟩ := deferring_free_above q.paramString.block (fun _ : Unit => 0) hi habove
      have hrun : insertParams P srv self table values w = _ := (bind_ok hin).trans hfree
      rw [hrun]
      exact .inr ⟨b, hb, h₂, R, rfl, hge, hle, habove', htold⟩
  · exact .inl ⟨x, h, bind_exiting (zoom_run hx), hspent⟩

end

theorem mapError_eq_error {ε ε' β : Type} {f : ε → ε'} {x : Except ε β} {e : ε'} (h : x.mapError f = .error e) :
    ∃ d, x = .error d ∧ f d = e := by
  cases x with
  | ok a => cases h
  | error d => exact ⟨d, rfl, Except.error.inj h⟩

section
variable {σ : Type} (P : Platform) (E : Engine σ) (S : Settings) (self : Self)

def Operation.run (P : Platform) (srv : Server σ) (self : Self) :
    Operation → Eff (World σ) Errors Stop (Option QueryResult)
  | .declare d => do
    let _ ← createTableFor P srv self d.type
    return none
  | .append table tuple => do
    let _ ← insertParams P srv self table.text tuple.values
    return none
  | .read table => do
    let q ← select P srv self table.text
    return some q
  | .join mainTable joinTable joinValue columns => do
    let q ← selectJoin P srv self mainTable.text joinTable.text joinValue.text columns.argument
    return some q

/-- The text that is handed over for an operation. -/
def Operation.text : Operation → Option Bytes
  | .declare d =>
    match d.type.info with
    | .struct fields => some (createTableQuery d.type.typeName fields)
    | .other => none
  | .append table tuple => some (insertQuery table.text (valuesText tuple.values))
  | .read table => some (selectQuery table.text)
  | .join mainTable joinTable joinValue columns =>
    some (selectJoinQuery mainTable.text joinTable.text joinValue.text columns.argument)

/-- What a caller sees of an answer: cells as texts, in some order of the rows. -/
def Answer.Seen : Answer → Outcome Errors Stop (Option QueryResult) → Prop
  | .done, o => o = .ok none
  | .failed e, o => o = .err e
  | .rows r, o => ∃ q, o = .ok (some q) ∧ q.contents.columns = r.columns.map (fun c => span c.name) ∧
      (q.contents.rows : Multiset (List Bytes)) = r.rows.map cellsOf

def LostFor (P : Platform) (o : Outcome Errors Stop α) : Prop := ∃ x, o = exiting x ∧ Lost P x

/-- Lost for lack of memory, or refused by the server for a reason of its own. -/
inductive Dropped (P : Platform) (E : Engine σ) (op : Operation) (o : Outcome Errors Stop α) : Prop
  | memory (lost : LostFor P o)
  | refused (s : σ) (text : Bytes) (own : op.text = some text) (refuses : E.refuses s (span text)) (e : Errors)
    (failed : o = .err e)

/-- The tables are those of the store. -/
structure Holds (E : Engine σ) (w : World σ) (s : Store) : Prop where
  tables : E.tables w.server = s
  distinct : s.Distinct

/-- The call does what its operation does, or it is dropped and has done nothing. -/
def Operation.Done (op : Operation) (w : World σ) (s : Store) : Prop :=
  (op.run P E.server self w).2.conns = w.conns ∧
    (((s.step S op).1.Seen (op.run P E.server self w).1 ∧ (op.run P E.server self w).1.stopped = false ∧
        Holds E (op.run P E.server self w).2 (s.step S op).2) ∨
      Dropped P E op (op.run P E.server self w).1 ∧ Holds E (op.run P E.server self w).2 s)

theorem seen_goes {answer : Answer} {o : Outcome Errors Stop (Option QueryResult)} (h : answer.Seen o) :
    o.stopped = false := by
  cases answer with
  | done =>
    cases h
    rfl
  | failed e =>
    cases h
    rfl
  | rows r =>
    obtain ⟨q, rfl, -⟩ := h
    rfl

variable {P E S self} {w : World σ} {s : Store} (hE : E.Executes S) (hup : w.stateIs self.connection .usable = true)
  (hw : Holds E w s) {op : Operation}
include hE hup hw

/-- What becomes of a call whose statement is not refused for a reason of the server's own. -/
theorem done_of_attempted {m : Eff (World σ) Errors Stop α} {g : α → Option QueryResult} {text : Bytes}
    {own : α → Multiset Block} {f : Bool} {L : Multiset Block}
    {outcome : Option PGresult → Outcome Errors Stop α → Prop}
    (hrun : op.run P E.server self w = ((m w).1.map g, (m w).2)) (htext : op.text = some text)
    (hm : Attempted P E.server self.connection text own f L outcome w (m w))
    (hrefused : ∀ id code o, outcome (some ⟨id, .plain .fatalError (some code)⟩) o → ∃ e, o = .err e)
    (hreply : ¬ E.refuses w.server (span text) → ∃ d, E.reply w.server (span text) = ⟨some d, true⟩ ∧
      E.tables (E.after w.server (span text)) = (s.step S op).2 ∧
      (∀ id o, outcome (some ⟨id, d⟩) o → (s.step S op).1.Seen (o.map g)) ∧
      (d.status ≠ .commandOk → (s.step S op).2 = s)) :
    op.Done P E S self w s := by
  have hdistinct := Store.step_distinct S hw.distinct op
  unfold Operation.Done
  rw [hrun]
  rcases hm with ⟨x, h, hx, hlost', -⟩ | ⟨b, rfl, h, R, hw', -, -, -, htold⟩
  · rw [hx]
    exact ⟨rfl, .inr ⟨.memory ⟨x, map_exiting g x, hlost'⟩, hw.tables, hw.distinct⟩⟩
  obtain ⟨hresult, hserver, -, hconns⟩ := exec_usable (E := E) w hup b
  have hserver' : (m w).2.server = E.after w.server (span b.text) := by rw [hw', ← hserver]
  rw [hresult] at htold
  by_cases hr : E.refuses w.server (span b.text)
  · obtain ⟨code, hreply', htables⟩ := hE.refusal hr
    rw [hreply'] at htold hconns
    have hholds : Holds E (m w).2 s := ⟨by rw [hserver', htables, hw.tables], hw.distinct⟩
    refine ⟨by rw [hw', ← hconns rfl], .inr ⟨?_, hholds⟩⟩
    rcases htold with ho | ⟨-, x, hx, hlost'⟩
    · obtain ⟨e, he⟩ := hrefused _ code _ ho
      exact .refused w.server b.text htext hr e (by rw [he]; rfl)
    · exact .memory ⟨x, by rw [hx, map_exiting], hlost'⟩
  · obtain ⟨d, hd, htables, hseen, hlost⟩ := hreply hr
    rw [hd] at htold hconns
    have hholds : Holds E (m w).2 (s.step S op).2 := ⟨by rw [hserver', htables], hdistinct⟩
    refine ⟨by rw [hw', ← hconns rfl], ?_⟩
    rcases htold with ho | ⟨hnot, x, hx, hlost'⟩
    · have hsees := hseen _ _ ho
      exact .inl ⟨hsees, seen_goes hsees, hholds⟩
    · rw [hlost hnot] at hholds
      exact .inr ⟨.memory ⟨x, by rw [hx, map_exiting], hlost'⟩, hholds⟩

theorem done_change {m : Eff (World σ) Errors Stop Unit} {text : Bytes} {own : Unit → Multiset Block} {f : Bool}
    {L : Multiset Block} {outcome : Option PGresult → Outcome Errors Stop Unit} {e : Errors} {result : Option Relations}
    (hrun : op.run P E.server self w = ((m w).1.map fun _ => none, (m w).2)) (htext : op.text = some text)
    (hm : Attempted P E.server self.connection text own f L (fun r o => o = outcome r) w (m w))
    (hstep : s.step S op = s.changed (result.elim (.error e) .ok))
    (hbecomes : ¬ E.refuses w.server (span text) → E.Becomes w.server (span text) result)
    (hok : ∀ id, outcome (some ⟨id, .plain .commandOk none⟩) = .ok ())
    (herr : ∀ id code, 0 ∉ code → code ≠ ascii "23505" →
      outcome (some ⟨id, .plain .fatalError (some code)⟩) = .err e)
    (hrefused : ∀ id code, ∃ e, outcome (some ⟨id, .plain .fatalError (some code)⟩) = .err e) :
    op.Done P E S self w s := by
  refine done_of_attempted hE hup hw hrun htext hm (fun id code o ho => ho ▸ hrefused id code) fun hr => ?_
  have hbecomes' := hbecomes hr
  rw [hstep]
  cases result with
  | some db =>
    obtain ⟨hreply, htables⟩ := hbecomes'
    refine ⟨_, hreply, htables, ?_, fun hnot => absurd rfl hnot⟩
    rintro id o rfl
    rw [hok]
    rfl
  | none =>
    obtain ⟨code, hnul, hkey, hreply, htables⟩ := hbecomes'
    refine ⟨_, hreply, htables.trans hw.tables, ?_, fun _ => rfl⟩
    rintro id o rfl
    rw [herr id code hnul hkey]
    rfl

theorem done_query {m : Eff (World σ) Errors Stop QueryResult} {text : Bytes}
    {own : QueryResult → Multiset Block}
    {f : Bool} {L : Multiset Block} {e : Errors} {result : Except Errors Relation}
    (hrun : op.run P E.server self w = ((m w).1.map some, (m w).2)) (htext : op.text = some text)
    (hm : Attempted P E.server self.connection text own f L (rowsOutcome e) w (m w))
    (hstep : s.step S op = (Store.shown result, s)) (herr : ∀ e', result = .error e' → e' = e)
    (hgives : ¬ E.refuses w.server (span text) → E.Gives w.server (span text) result.toOption) :
    op.Done P E S self w s := by
  have hfatal (id : ℕ) (code : Bytes) (o : Outcome Errors Stop QueryResult)
      (ho : rowsOutcome e (some ⟨id, .plain .fatalError (some code)⟩) o) : o = .err e := by
    rcases ho with ⟨-, ho⟩ | ⟨r, q, hr, hstatus, -⟩
    · exact ho
    · cases hr
      cases hstatus
  refine done_of_attempted hE hup hw hrun htext hm (fun id code o ho => ⟨e, hfatal id code o ho⟩) fun hr => ?_
  have hgives' := hgives hr
  rw [hstep]
  cases result with
  | ok r =>
    obtain ⟨d, hreply, hshows, htables⟩ := hgives'
    refine ⟨d, hreply, htables.trans hw.tables, ?_, fun _ => rfl⟩
    intro id o ho
    rcases ho with ⟨hnot, -⟩ | ⟨r', q, hr', -, rfl, hnames, hrows⟩
    · exact absurd hshows.status hnot
    · cases hr'
      refine ⟨q, rfl, ?_, ?_⟩
      · rw [QueryResult.contents, hnames, hshows.names, List.map_map]
        rfl
      · rw [QueryResult.contents, hrows, cellTexts_of_shows hshows]
  | error e' =>
    obtain ⟨code, -, -, hreply, htables⟩ := hgives'
    refine ⟨_, hreply, htables.trans hw.tables, ?_, fun _ => rfl⟩
    intro id o ho
    rw [hfatal id code o ho, herr e' rfl]
    rfl

/-- Each call does what its operation does, or it is dropped. -/
theorem operation_done (op : Operation) (hwithin : op.Within S) : op.Done P E S self w s := by
  have hh := above_now w.heap
  have hserver := hw.tables
  cases op with
  | declare d =>
    cases hT : d.type.info with
    | other =>
      have hrun : (Operation.declare d).run P E.server self w = (.err .NotAStruct, w) := by
        simp only [Operation.run, createTableFor, hT]
        rfl
      have hstep : s.step S (.declare d) = (.failed .NotAStruct, s) := by
        simp only [Store.step, Store.declare, hT]
        rfl
      unfold Operation.Done
      rw [hrun, hstep]
      exact ⟨rfl, .inl ⟨rfl, rfl, hw⟩⟩
    | struct fields =>
      have hstep : s.step S (.declare d) =
          s.changed ((s.create (tableName S d.type) (declared S d.type)).elim (.error .QueryFailed) .ok) := by
        simp only [Store.step, Store.declare, hT]
      refine done_change hE hup hw (bind_pure_run _ _ w) (by simp only [Operation.text, hT])
        (createTableFor_attempted P _ self w hh d.type fields hT) hstep (fun htakes => ?_) (fun _ => rfl)
        (fun _ _ _ _ => rfl) fun _ _ => ⟨_, rfl⟩
      rw [← hserver]
      exact hE.creates (reads_struct d.plain hT S) hwithin htakes
  | append table tuple =>
    have hm := insertParams_attempted P E.server self w hh table.text tuple.values
    rw [tuple.text_eq] at hm
    refine done_change hE hup hw (bind_pure_run _ _ w) rfl hm rfl (fun htakes => ?_) (fun _ => rfl)
      (fun _ code hnul hkey => ?_) fun _ code => ?_
    · rw [← hserver]
      exact append_becomes hE w.server table tuple hwithin htakes
    · simp only [insertOutcome, status, field, sqlstate, ResultData.plain, reduceCtorEq, if_false,
        span_of_noNul _ hnul, hkey]
    · simp only [insertOutcome, status, field, sqlstate, ResultData.plain, reduceCtorEq, if_false]
      split
      · exact ⟨_, rfl⟩
      · exact ⟨_, rfl⟩
  | read table =>
    refine done_query hE hup hw (bind_pure_run _ _ w) rfl (select_attempted P _ self w hh table.text) rfl ?_
      fun htakes => ?_
    · intro e he
      unfold Store.read at he
      cases hs : s (table.ident S) with
      | some r =>
        rw [hs] at he
        cases he
      | none =>
        rw [hs] at he
        cases he
        rfl
    · have hgives := select_gives hE w.server table.plain hwithin htakes
      have hread : (Store.read S s table).toOption = s (table.ident S) := by
        unfold Store.read
        cases s (table.ident S) <;> rfl
      rw [hread, ← hserver]
      exact hgives
  | join mainTable joinTable joinValue columns =>
    refine done_query hE hup hw (bind_pure_run _ _ w) rfl (selectJoin_attempted P _ self w hh mainTable.text
      joinTable.text joinValue.text columns.argument) rfl (fun e he => (mapError_eq_error he).elim fun _ h => h.2.symm)
      fun htakes => ?_
    rw [← hserver]
    have hdistinct : (E.tables w.server).Distinct := hserver.symm ▸ hw.distinct
    exact join_gives hE w.server mainTable joinTable joinValue columns hwithin hdistinct htakes

end

end Psql
