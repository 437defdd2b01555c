import ZigPsql.Client.Attempts
import ZigPsql.Client.Runs

/-!
# The blocks that no one gives back

While memory lasts every call leaves behind just the blocks that its reply, or
its arguments, tell: the text of a connection that was refused, that of a table
that was not created, the list of each row with a cell, the pieces of a
parameter string.
-/

namespace Psql
open Effect Effect.Eff Text Zig Libpq

variable {σ α : Type} {f : Bool}

/-- Besides the blocks of `L` the heap holds just `n` others. -/
def Besides (f : Bool) (n : ℕ) (L : Multiset Block) (h : Heap) : Prop := ∃ K, K.card = n ∧ Owns f (K + L) h

theorem besides_returns {n : ℕ} {m : Eff Heap Errors Stop α} {M : Multiset Block} {N : α → Multiset Block}
    {A : α → Prop} (hm : ∀ L, Returns (Owns f (M + L)) m fun a h => A a ∧ Owns f (N a + L) h) (L : Multiset Block) :
    Returns (Besides f n (M + L)) m fun a h => A a ∧ Besides f n (N a + L) h := by
  intro h hh
  obtain ⟨K, hK, ho⟩ := hh
  rw [add_left_comm] at ho
  obtain ⟨a, h', ha, hA, ho'⟩ := hm (K + L) h ho
  exact ⟨a, h', ha, hA, K, hK, by rwa [add_left_comm]⟩

theorem besides_drop {n : ℕ} {b : Block} {L : Multiset Block} {h : Heap} (hb : b.size ≠ 0)
    (hh : Besides f n (entry b + L) h) : Besides f (n + 1) L h := by
  obtain ⟨K, hK, ho⟩ := hh
  refine ⟨K + entry b, ?_, by rwa [add_assoc]⟩
  rw [Multiset.card_add, hK, entry_card b hb]

theorem free_besides {n : ℕ} (L : Multiset Block) (b : Block) :
    Returns (Besides f n (entry b + L)) (free b : Eff Heap Errors Stop Unit) fun _ => Besides f n L := by
  have hfree := besides_returns (f := f) (n := n) (M := entry b) (N := fun _ : Unit => 0) (A := fun _ => True)
    (m := free b) (fun L => returns_conseq (free_returns L b) (fun _ hs => hs)
      fun _ _ hq => ⟨trivial, by rwa [zero_add]⟩) L
  exact returns_conseq hfree (fun _ hs => hs) fun _ _ hq => by simpa using hq.2

/-- A deferred free gives back its block, unless the run has stopped. -/
theorem deferring_free_besides {n : ℕ} {w₁ w₂ : World σ} {L : Multiset Block} (b : Block) (own : α → Multiset Block)
    {m : Eff (World σ) Errors Stop α} {o : Outcome Errors Stop α} (hm : m w₁ = (o, w₂)) (hgoes : o.stopped = false)
    (hh : Besides f n (returned own o + (entry b + L)) w₂.heap) :
    ∃ h, deferring (inHeap (free b)) m w₁ = (o, { w₂ with heap := h }) ∧ Besides f n (returned own o + L) h := by
  rw [add_left_comm] at hh
  obtain ⟨_, h, hfree, ho⟩ := free_besides (returned own o + L) b w₂.heap hh
  cases o with
  | ok a => exact ⟨h, deferring_ok hm (zoom_run hfree), ho⟩
  | err e => exact ⟨h, deferring_err hm (zoom_run hfree), ho⟩
  | stop c => cases hgoes

/-! ### What a reply leaves behind -/

/-- The rows of a result with a cell in them. -/
def rowsLeft : Option ResultData → ℕ
  | some d => if d.status = .tuplesOk ∧ d.fnames ≠ [] then d.tuples.length else 0
  | none => 0

def tableLeft : Option ResultData → ℕ
  | some d => if d.status = .tuplesOk ∨ d.status = .commandOk then 0 else 1
  | none => 1

/-- The blocks that a call leaves behind, from what its query comes back with. -/
def Call.left : Call → Option ResultData → ℕ
  | .select _, reply | .selectJoin _ _ _ _, reply => rowsLeft reply
  | .createTableFor _, reply => tableLeft reply
  | _, _ => 0

section
variable (P : Platform) (hP : P.Succeeds) (self : Self) {n : ℕ} {L : Multiset Block}
include hP

theorem allocPrint_besides (text : Bytes) :
    Returns (Besides f n L) (allocPrint P text : Eff Heap Errors Stop Buf) fun b h =>
      b.text = text ∧ Besides f n (entry b.block + L) h := by
  have hprint := besides_returns (f := f) (n := n) (M := 0) (N := fun b : Buf => entry b.block)
      (A := fun b => b.text = text)
    (m := allocPrint P text) (fun L => by simpa only [zero_add] using allocPrint_returns P hP L text) L
  simpa only [zero_add] using hprint

theorem rowsOr_besides (e : Errors) (result : Option PGresult) {X : Multiset ℕ} {w₁ : World σ}
    (hX : w₁.results = World.held result + X) (htouched : w₁.touched self.connection = w₁)
    (hh : Besides f n L w₁.heap) :
    (rowsOr P self e result w₁).1.stopped = false ∧
      Besides f (n + rowsLeft (result.map PGresult.data)) (returned QueryResult.owned (rowsOr P self e result w₁).1 + L)
        (rowsOr P self e result w₁).2.heap := by
  have hheld : World.held result ≤ w₁.results := by rw [hX]; exact Multiset.le_add_right _ _
  by_cases hs : status result ≠ .tuplesOk
  · have hrun : rowsOr P self e result w₁ = (.err e, w₁.cleared result) :=
      (bind_ok (readResult_run _ _ hheld)).trans ((congrFun (if_pos hs) _).trans (fail_run self htouched _ _))
    have hnone : rowsLeft (result.map PGresult.data) = 0 := by
      cases result with
      | none => rfl
      | some r => exact if_neg fun h => hs h.1
    rw [hrun, hnone]
    exact ⟨rfl, by simpa [returned, World.cleared, World.reading] using hh⟩
  · have hrun : rowsOr P self e result w₁ = getResult P result w₁ :=
      (bind_ok (readResult_run _ _ hheld)).trans (congrFun (if_neg hs) _)
    cases result with
    | none => exact absurd (by decide) hs
    | some r =>
      obtain ⟨K, hK, ho⟩ := hh
      obtain ⟨q, h, hq, -, -, J, hJ, ho'⟩ := getResult_returns hheld P hP (K + L) ho
      have hrows : rowsLeft (some r.data) = J.card := by
        rw [hJ, rowsLeft]
        have hok : r.data.status = .tuplesOk := not_not.mp hs
        by_cases hnames : r.data.fnames = []
        · simp [hnames]
        · simp [hnames, hok]
      rw [hrun, hq]
      refine ⟨rfl, K + J, ?_, ?_⟩
      · rw [Multiset.card_add, hK, Option.map_some, hrows]
      · have hperm : K + J + (q.owned + L) = q.owned + (J + (K + L)) := by abel
        rw [returned, hperm]
        exact ho'

theorem insertedOr_besides (result : Option PGresult) {X : Multiset ℕ} {w₁ : World σ}
    (hX : w₁.results = World.held result + X) (htouched : w₁.touched self.connection = w₁)
    (hh : Besides f n L w₁.heap) :
    Besides f n L (insertedOr P self result w₁).2.heap := by
  have hheld : World.held result ≤ w₁.results := by rw [hX]; exact Multiset.le_add_right _ _
  by_cases hs : status result = .commandOk
  · rw [insertedOr_done P self hheld hs]
    exact hh
  cases hc : sqlstate result with
  | none =>
    rw [insertedOr_null P self hheld hs hc]
    exact hh
  | some code =>
    obtain ⟨b, h, hb, -, ho⟩ := allocPrint_besides (f := f) P hP (span code) w₁.heap hh
    have htouched' := congrArg (fun w' : World σ => { w' with heap := h }) htouched
    have hbody := @refused_run _ self result { w₁ with heap := h } hheld htouched' b
    obtain ⟨h', hexit, ho'⟩ := deferring_free_besides (f := f) (L := L) b.block (fun _ : Unit => 0) hbody
      rfl (by simpa [returned] using ho)
    rw [insertedOr_coded P self hheld hs hc, (bind_ok (inHeap_run hb)).trans hexit]
    simpa [returned] using ho'

end

/-! ### Calls -/

section
variable (P : Platform) (hP : P.Succeeds) (srv : Server σ) (self : Self) (w : World σ) {n : ℕ} {L : Multiset Block}
  (hh : Besides f n L w.heap)
include hP hh

theorem select_besides (table : Bytes) :
    Besides f (n + rowsLeft (w.answer srv self.connection (span (selectQuery table))))
      (returned QueryResult.owned (select P srv self table w).1 + L) (select P srv self table w).2.heap := by
  obtain ⟨b, h, hb, ht, ho⟩ := allocPrint_besides (f := f) P hP (selectQuery table) w.heap hh
  have hresults : World.results { (w.exec srv self.connection b).2 with heap := h } =
      World.held (w.exec srv self.connection b).1 + w.results := rfl
  obtain ⟨hgoes, hrows⟩ := rowsOr_besides P hP self .QueryFailed _ hresults
    (World.exec_touched { w with heap := h } srv _ b) ho
  have hbody : (do let result ← PQexec srv self.connection b; rowsOr P self .QueryFailed result)
      { w with heap := h } = rowsOr P self .QueryFailed (w.exec srv self.connection b).1
        { (w.exec srv self.connection b).2 with heap := h } := bind_ok rfl
  obtain ⟨h', hfree, ho'⟩ := deferring_free_besides b.block QueryResult.owned
    (hbody.trans (Prod.ext rfl rfl)) hgoes hrows
  have hrun : select P srv self table w = _ := (bind_ok (inHeap_run hb)).trans hfree
  rw [World.exec_reply, ht] at ho'
  rw [hrun]
  exact ho'

/-- The calls that free their text before they look at the result. -/
theorem besides_freed (text : Bytes) (own : α → Multiset Block) (left : Option ResultData → ℕ)
    (k : Option PGresult → Eff (World σ) Errors Stop α) {run : Outcome Errors Stop α × World σ}
    (hrun : run = (do
      let query ← inHeap (allocPrint P text)
      let result ← PQexec srv self.connection query
      inHeap (free query.block)
      k result : Eff (World σ) Errors Stop α) w)
    (hk : ∀ result (w₁ : World σ) X, w₁.results = World.held result + X → w₁.touched self.connection = w₁ →
      Besides f n L w₁.heap →
        Besides f (n + left (result.map PGresult.data)) (returned own (k result w₁).1 + L) (k result w₁).2.heap) :
    Besides f (n + left (w.answer srv self.connection (span text))) (returned own run.1 + L) run.2.heap := by
  obtain ⟨b, h, hb, ht, ho⟩ := allocPrint_besides (f := f) P hP text w.heap hh
  obtain ⟨_, h₁, hfree, ho'⟩ := free_besides L b.block h ho
  have hfree' : (inHeap (free b.block) : Eff (World σ) Errors Stop Unit)
      { (w.exec srv self.connection b).2 with heap := h } =
        (.ok (), { (w.exec srv self.connection b).2 with heap := h₁ }) :=
    zoom_run hfree
  have hresult := hk (w.exec srv self.connection b).1 { (w.exec srv self.connection b).2 with heap := h₁ } w.results rfl
    (World.exec_touched { w with heap := h₁ } srv _ b) ho'
  rw [World.exec_reply, ht] at hresult
  rw [hrun, (bind_ok (inHeap_run hb)).trans ((bind_ok rfl).trans (bind_ok hfree'))]
  exact hresult

theorem selectJoin_besides (mainTable joinTable joinValue : Bytes) (columns : Option Bytes) :
    Besides f
      (n + rowsLeft (w.answer srv self.connection (span (selectJoinQuery mainTable joinTable joinValue columns))))
      (returned QueryResult.owned (selectJoin P srv self mainTable joinTable joinValue columns w).1 + L)
      (selectJoin P srv self mainTable joinTable joinValue columns w).2.heap :=
  besides_freed P hP srv self w hh _ QueryResult.owned rowsLeft _ rfl fun result _ _ hX htouched ho =>
    (rowsOr_besides P hP self .SelectJoinFailed result hX htouched ho).2

theorem insert_besides (table values : Bytes) : Besides f n L (insert P srv self table values w).2.heap := by
  have hnone (o : Outcome Errors Stop Unit) : returned (fun _ => 0) o = 0 := by cases o <;> rfl
  have hinsert := besides_freed P hP srv self w hh (insertQuery table values) (fun _ : Unit => 0) (fun _ => 0)
    (insertedOr P self) (rfl : insert P srv self table values w = _) fun result _ _ hX htouched ho => by
      rw [hnone, zero_add]
      exact insertedOr_besides P hP self result hX htouched ho
  rwa [hnone, zero_add] at hinsert

omit hP in
theorem execQuery_besides (query : Buf) : Besides f n L (execQuery srv self query w).2.heap := by
  rw [execQuery_run]
  exact hh

/-! createTableFor frees its text only where its query has succeeded. -/

omit hP hh in
theorem queryOutcome_left (result : Option PGresult) :
    (queryOutcome result = .ok () ∧ tableLeft (result.map PGresult.data) = 0) ∨
      (queryOutcome result = .err .QueryFailed ∧ tableLeft (result.map PGresult.data) = 1) := by
  cases result with
  | none => exact .inr ⟨rfl, rfl⟩
  | some r =>
    by_cases hok : r.data.status = .tuplesOk ∨ r.data.status = .commandOk
    · exact .inl ⟨if_neg fun h => hok.elim h.1 h.2, if_pos hok⟩
    · exact .inr ⟨if_pos (not_or.mp hok), if_neg hok⟩

theorem sendParts_besides (parts : Parts) (hne : parts.items.flatten ≠ []) :
    (sendParts P srv self parts w).1.stopped = false ∧
      Besides f (n + tableLeft (w.answer srv self.connection (span parts.items.flatten))) L
        (sendParts P srv self parts w).2.heap := by
  obtain ⟨b, h, hb, ht, ho⟩ := allocPrint_besides (f := f) P hP ([].intercalate parts.items) w.heap hh
  rw [nil_intercalate] at ht
  have hquery := execQuery_run srv self { w with heap := h } b
  have hreply := World.exec_reply w srv self.connection b
  rw [ht] at hreply
  rw [← hreply]
  rcases queryOutcome_left (w.exec srv self.connection b).1 with ⟨houtcome, hleft⟩ | ⟨houtcome, hleft⟩
  · obtain ⟨_, h₁, hfree, ho'⟩ := free_besides L b.block h ho
    have hfree' : (inHeap (free b.block) : Eff (World σ) Errors Stop Unit)
        { (w.exec srv self.connection b).2 with heap := h, results := w.results } =
          (.ok (), { (w.exec srv self.connection b).2 with heap := h₁, results := w.results }) := zoom_run hfree
    have hrun : sendParts P srv self parts w = _ :=
      (bind_ok (inHeap_run hb)).trans ((bind_ok (hquery.trans (Prod.ext houtcome rfl))).trans hfree')
    rw [hrun, hleft]
    exact ⟨rfl, ho'⟩
  · have hrun : sendParts P srv self parts w = _ :=
      (bind_ok (inHeap_run hb)).trans (bind_err (hquery.trans (Prod.ext houtcome rfl)))
    have hsize : b.block.size ≠ 0 := by
      rw [← ht] at hne
      exact fun h => hne (List.length_eq_zero_iff.mp h)
    rw [hrun, hleft]
    exact ⟨rfl, besides_drop hsize ho⟩

theorem createTableFor_besides (T : TypeArg) (fields : List StructField) (hT : T.info = .struct fields) :
    Besides f (n + tableLeft (w.answer srv self.connection (span (createTableQuery T.typeName fields)))) L
      (createTableFor P srv self T w).2.heap := by
  obtain ⟨K, hK, hKL⟩ := hh
  rcases appendParts_ends P w.heap.attempts (K + L) T fields (w.heap, ArrayList.init)
      (ArrayList.varLasts_init _ (lasts_now hKL)) with
    ⟨_, ⟨h, l⟩, hparts, hl, -⟩ | ⟨e, ⟨h, l⟩, -, hfail, -⟩
  swap
  · exact absurd hP hfail
  have hspell : l.items.flatten = createTableQuery T.typeName fields :=
    yields_of_tries (appendParts_tries P T.typeName fields T.named T.addressable) (w.heap, ArrayList.init) rfl ()
      (h, l) hparts
  have hne : l.items.flatten ≠ [] := by
    rw [hspell]
    simp [createTableQuery, ascii]
  obtain ⟨hgoes, hsent⟩ := sendParts_besides P hP srv self { w with heap := h } (n := n) (L := entry l.block + L)
    ⟨K, hK, by rwa [add_left_comm]⟩ l hne
  rw [hspell] at hsent
  rcases hs : sendParts P srv self l { w with heap := h } with ⟨o, w'⟩
  rw [hs] at hgoes hsent
  have hcreate : createTable P srv self T.typeName fields (w, ArrayList.init) = (o, (w', l)) :=
    (bind_ok (inHeapVar_run hparts)).trans ((bind_ok rfl).trans (lifted_run hs))
  obtain ⟨_, h', hfree, ho⟩ := free_besides L l.block w'.heap hsent
  have hcleanup : (inHeapVar ArrayList.deinitVar : Eff (World σ × Parts) Errors Stop Unit) (w', l) =
      (.ok (), ({ w' with heap := h' }, l)) := inHeapVar_run ((bind_ok rfl).trans (lifted_run hfree))
  have hrun : deferring (inHeapVar ArrayList.deinitVar) (createTable P srv self T.typeName fields) (w, ArrayList.init) =
      (o, ({ w' with heap := h' }, l)) := by
    cases o with
    | ok a => exact deferring_ok hcreate hcleanup
    | err e => exact deferring_err hcreate hcleanup
    | stop c => cases hgoes
  simp only [createTableFor, hT, withVar, hrun]
  exact ho

/-! init frees its text only where the connection is up. -/

omit hP hh in
theorem connectedOr_besides (cs : ConnectionParams) (b : Buf) (conn : Option ℕ) (hb : b.text ≠ [])
    (htouched : w.touched conn = w) (hh : Besides f n (entry b.block + L) w.heap) :
    (connectedOr cs b conn w).1.stopped = false ∧
      Besides f (n + if w.stateIs conn .usable then 0 else 1) L (connectedOr cs b conn w).2.heap := by
  have hstatus : (PQstatusOk conn : Eff (World σ) Errors Stop Bool) w = (.ok (w.stateIs conn .usable), w) := by
    rw [PQstatusOk, htouched]
  cases hu : w.stateIs conn .usable with
  | true =>
    obtain ⟨_, h, hfree, ho⟩ := free_besides L b.block w.heap hh
    rw [hu] at hstatus
    have hrun : connectedOr cs b conn w = _ := (bind_ok hstatus).trans (bind_ok (zoom_run hfree))
    rw [hrun]
    exact ⟨rfl, ho⟩
  | false =>
    rw [hu] at hstatus
    have hrun : connectedOr cs b conn w = _ :=
      (bind_ok hstatus).trans ((bind_ok (PQerrorMessage_run htouched)).trans (bind_ok rfl))
    rw [hrun]
    exact ⟨rfl, besides_drop (fun h => hb (List.length_eq_zero_iff.mp h)) hh⟩

theorem init_besides (cs : ConnectionParams) :
    Besides f (n + if (srv.connect w.server (span (connectionText cs))).1 = some true then 0 else 1) L
      (init P srv cs w).2.heap := by
  obtain ⟨p, h, hp, ht, ho⟩ := allocPrint_besides (f := f) P hP (portText cs.port) w.heap hh
  obtain ⟨b, h₁, hb, hbt, hbo⟩ := allocPrint_besides (f := f) P hP ([].intercalate (connectionParts cs p.text)) h ho
  rw [nil_intercalate, ht] at hbt
  have hne : b.text ≠ [] := by
    rw [hbt]
    simp [connectionParts, ascii]
  obtain ⟨hgoes, hconn⟩ := connectedOr_besides { (w.connect srv b).2 with heap := h₁ } cs b (w.connect srv b).1 hne
    (World.connect_touched { w with heap := h₁ } srv b) hbo
  rcases hc : connectedOr cs b (w.connect srv b).1 { (w.connect srv b).2 with heap := h₁ } with ⟨o, w'⟩
  rw [hc] at hgoes hconn
  have hbody : connectWith P srv cs p.text { w with heap := h } = (o, w') :=
    (bind_ok (inHeap_run hb)).trans ((bind_ok rfl).trans hc)
  have hnone : returned (fun _ : Self => 0) o = 0 := by cases o <;> rfl
  obtain ⟨h', hfree, ho'⟩ := deferring_free_besides p.block (fun _ : Self => 0) hbody hgoes (by rwa [hnone, zero_add])
  have hrun : init P srv cs w = _ := (bind_ok (inHeap_run hp)).trans hfree
  have hleft : (if World.stateIs { (w.connect srv b).2 with heap := h₁ } (w.connect srv b).1 .usable then 0 else 1) =
      if (srv.connect w.server (span (connectionText cs))).1 = some true then 0 else 1 := by
    have hup := w.connect_usable srv b
    rw [hbt] at hup
    exact if_congr hup rfl rfl
  rw [hnone, zero_add, hleft] at ho'
  rw [hrun]
  exact ho'

end

/-! ### QParams -/

/-- The blocks that QParams leaves behind for a value: the text it prints, and the escaped copy of a string. -/
def valueLeft (v : Value) : ℕ :=
  match rendering v, stringOf v with
  | none, _ => 0
  | some _, some (_ :: _) => 2
  | some _, _ => 1

/-- Besides the block of the list. -/
def BesidesVar (f : Bool) (n : ℕ) (L : Multiset Block) (s : Heap × Fragments) : Prop :=
  Besides f n (entry s.2.block + L) s.1

section
variable (P : Platform) (hP : P.Succeeds) {n : ℕ} (L : Multiset Block)
include hP

theorem appendFragment_besides (b : Buf) :
    Returns (BesidesVar f n L) (update fun l => (l.append P b : Eff Heap Errors Stop Fragments)) fun _ =>
      BesidesVar f n L := by
  intro s hs
  obtain ⟨K, hK, ho⟩ := hs
  rw [add_left_comm] at ho
  obtain ⟨u, s', hu, ho'⟩ := append_holds P hP (K + L) b s ho
  exact ⟨u, s', hu, K, hK, by rwa [add_left_comm]⟩

theorem separate_besides (first : Bool) :
    Returns (BesidesVar f n L) (separate P first) fun _ => BesidesVar f n L := by
  cases first with
  | true => exact returns_pure _ fun _ hs => hs
  | false => exact appendFragment_besides P hP L _

theorem appendPrinted_besides (text : Bytes) (ht : text ≠ []) :
    Returns (BesidesVar f n L) (appendPrinted P text) fun _ => BesidesVar f (n + 1) L := by
  refine returns_bind (Q := fun _ => BesidesVar f (n + 1) L) ?_ fun b => appendFragment_besides P hP L b
  intro s hs
  obtain ⟨h, l⟩ := s
  obtain ⟨b, h', hb, hbt, ho⟩ := returns_orStop Stop.unreachable (allocPrint_besides P hP text) h hs
  refine ⟨b, (h', l), lifted_run hb, besides_drop ?_ ho⟩
  rw [← hbt] at ht
  exact fun h => ht (List.length_eq_zero_iff.mp h)

theorem escapeString_besides (str : Bytes) :
    Returns (Besides f n L) (escapeString P str) fun b h =>
      b.text = escaped str ∧ Besides f n (entry b.block + L) h := by
  have hescape := besides_returns (f := f) (n := n) (M := 0) (N := fun b : Buf => entry b.block)
    (A := fun b => b.text = escaped str) (m := escapeString P str) (fun L h hh => ?_) L
  · simpa only [zero_add] using hescape
  · rw [zero_add] at hh
    obtain ⟨b, h', hb, ho⟩ := escapeString_returns P hP L str h hh
    exact ⟨b, h', hb, escapeString_text P str h trivial b h' hb, ho⟩

theorem appendString_besides (first : Bool) (value : Bytes) :
    Returns (BesidesVar f n L) (appendString P first value) fun _ =>
      BesidesVar f (n + if value = [] then 1 else 2) L := by
  apply returns_bind (separate_besides P hP L first)
  intro _ s hs
  obtain ⟨h, l⟩ := s
  obtain ⟨b, h', hb, hbt, ho⟩ := escapeString_besides P hP (entry l.block + L) value h hs
  have hquoted : quoted b.text ≠ [] := by simp [quoted, quote]
  by_cases hv : value = []
  · -- the copy of an empty string is no block
    have hempty : entry b.block = 0 := entry_of_zero (by simp [Buf.block, hbt, hv, escaped])
    rw [hempty, zero_add] at ho
    obtain ⟨u, s', hu, ho'⟩ := appendPrinted_besides P hP L (quoted b.text) hquoted (h', l) ho
    refine ⟨u, s', (bind_ok (lifted_run hb)).trans hu, ?_⟩
    rwa [if_pos hv]
  · have hsize : b.block.size ≠ 0 := by
      obtain ⟨c, rest, rfl⟩ := List.exists_cons_of_ne_nil hv
      have hne : b.text ≠ [] := by
        rw [hbt, escaped, List.flatMap_cons]
        split <;> exact List.cons_ne_nil _ _
      exact fun h => hne (List.length_eq_zero_iff.mp h)
    obtain ⟨u, s', hu, ho'⟩ := appendPrinted_besides P hP L (quoted b.text) hquoted (h', l) (besides_drop hsize ho)
    refine ⟨u, s', (bind_ok (lifted_run hb)).trans hu, ?_⟩
    rwa [if_neg hv]

theorem item_besides (first : Bool) (v : Value) :
    Returns (BesidesVar f n L) (QParams.item P first v) fun _ => BesidesVar f (n + valueLeft v) L := by
  rcases item_cases P first v with ⟨hr, hitem⟩ | ⟨t, ht, hr, hs, hitem⟩ | ⟨x, hr, hs, hitem⟩
  · rw [hitem, valueLeft, hr]
    exact returns_pure _ fun _ hs => hs
  · rw [hitem, valueLeft, hr, hs]
    exact returns_bind (returns_bind (separate_besides P hP L first) fun _ => appendPrinted_besides P hP L t ht)
      fun _ =>
      returns_pure _ fun _ hs => hs
  · have hleft : valueLeft v = if x = [] then 1 else 2 := by
      rw [valueLeft, hr, hs]
      cases x <;> rfl
    rw [hitem, hleft]
    exact returns_bind (appendString_besides P hP L first x) fun _ => returns_pure _ fun _ hs => hs

/-- Besides its string QParams leaves behind the pieces of every value it renders. -/
theorem QParams_besides (values : List Value) :
    Returns (Besides f n L) (QParams P values) fun q =>
      Besides f (n + (values.map valueLeft).sum) (entry q.paramString.block + L) := by
  have hfree (k : ℕ) (L : Multiset Block) :
      Returns (BesidesVar f k L) (ArrayList.deinitVar : Eff (Heap × Fragments) Errors Stop Unit) fun _ s =>
        Besides f k L s.1 := by
    intro s hs
    obtain ⟨K, hK, ho⟩ := hs
    rw [add_left_comm] at ho
    obtain ⟨u, s', hu, ho'⟩ := ArrayList.deinitVar_returns (E := Errors) (C := Stop) (K + L) s ho
    exact ⟨u, s', hu, K, hK, ho'⟩
  refine returns_withVar (returns_deferring (Q := fun q s =>
    BesidesVar f (n + (values.map valueLeft).sum) (entry q.paramString.block + L) s) ?_ fun q => hfree _ _)
  have hloop := returns_foldlM (fun done _ => BesidesVar f (n + (done.map valueLeft).sum) L) (QParams.item P) [] values
    (fun done v _ first => ?_) true
  · refine returns_bind (returns_conseq hloop (fun s hs => ?_) fun _ _ h => h) fun _ => ?_
    · obtain ⟨h, l⟩ := s
      obtain ⟨hh, rfl⟩ := hs
      change Besides f n (entry (ArrayList.init : Fragments).block + L) h
      rwa [ArrayList.entry_init, zero_add]
    intro s hs
    obtain ⟨h, l⟩ := s
    obtain ⟨b, h', hb, -, ho⟩ := allocPrint_besides P hP ([].intercalate (l.items.map Buf.text)) h hs
    refine ⟨⟨b⟩, (h', l), (bind_ok rfl).trans ((bind_ok (lifted_run hb)).trans rfl), ?_⟩
    rwa [add_left_comm] at ho
  · have hitem := item_besides (f := f) (n := n + (done.map valueLeft).sum) P hP L first v
    simpa [add_assoc] using hitem

end

end Psql
