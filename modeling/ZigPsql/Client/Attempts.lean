import ZigPsql.Client.Exits

/-!
# The calls by all of their exits

A call hands its text over at most once. If memory runs out before, nothing else
has happened; if it runs out after, the statement has been sent.
-/

namespace Psql
open Effect Effect.Eff Text Zig Libpq

variable {σ α : Type} {f : Bool}

/-- Either memory ran out before the text was handed over, or it was, once, and its result handled. -/
def Attempted (P : Platform) (srv : Server σ) (conn : Option ℕ) (text : Bytes) (own : α → Multiset Block) (f : Bool)
    (L : Multiset Block) (outcome : Option PGresult → Outcome Errors Stop α → Prop) (w : World σ)
    (run : Outcome Errors Stop α × World σ) : Prop :=
  (∃ x h, run = (exiting x, { w with heap := h }) ∧ Spent P f L x h) ∨
    ∃ b, b.text = text ∧ ∃ h R, run.2 = { (w.exec srv conn b).2 with heap := h, results := R } ∧
      w.results ≤ R ∧ R ≤ World.held (w.exec srv conn b).1 + w.results ∧ Above f (returned own run.1 + L) h ∧
      Told P outcome (w.exec srv conn b).1 run.1

/-- A deferred free gives back its block on every way out but a stop. -/
theorem deferring_free_above {w₁ w₂ : World σ} {L : Multiset Block} (b : Block) (own : α → Multiset Block)
    {m : Eff (World σ) Errors Stop α} {o : Outcome Errors Stop α} (hm : m w₁ = (o, w₂))
    (hh : Above f (returned own o + (entry b + L)) w₂.heap) :
    ∃ h, deferring (inHeap (free b)) m w₁ = (o, { w₂ with heap := h }) ∧ Above f (returned own o + L) h := by
  rw [add_left_comm] at hh
  obtain ⟨_, h, hfree, ho⟩ := free_above (returned own o + L) b w₂.heap hh
  cases o with
  | ok a => exact ⟨h, deferring_ok hm (zoom_run hfree), ho⟩
  | err e => exact ⟨h, deferring_err hm (zoom_run hfree), ho⟩
  | stop c => exact ⟨w₂.heap, deferring_stop hm, above_add hh⟩

section
variable (P : Platform) (srv : Server σ) (self : Self) (w : World σ) {L : Multiset Block} (hh : Above f L w.heap)
include hh

theorem select_attempted (table : Bytes) :
    Attempted P srv self.connection (selectQuery table) QueryResult.owned f L (rowsOutcome .QueryFailed) w
      (select P srv self table w) := by
  rcases inHeap_exits w (allocPrint_exits P L (selectQuery table)) w ⟨w.heap, hh, rfl⟩ with
    ⟨b, _, hb, h, ⟨ht, ho⟩, rfl⟩ | ⟨x, _, hx, h, hspent, rfl⟩
  · have hresults : World.results { (w.exec srv self.connection b).2 with heap := h } =
        World.held (w.exec srv self.connection b).1 + w.results := rfl
    obtain ⟨h₁, R, hw, hge, hle, habove, htold⟩ := rowsOr_handled P self _ hresults
      (World.exec_touched { w with heap := h } srv _ b) ho .QueryFailed
    have hbody : (do let result ← PQexec srv self.connection b; rowsOr P self .QueryFailed result)
        { w with heap := h } = (_, { (w.exec srv self.connection b).2 with heap := h₁, results := R }) :=
      (bind_ok rfl).trans (Prod.ext rfl hw)
    obtain ⟨h₂, hfree, habove'⟩ := deferring_free_above b.block QueryResult.owned hbody habove
    have hrun : select P srv self table w = _ := (bind_ok hb).trans hfree
    rw [hrun]
    exact .inr ⟨b, ht, h₂, R, rfl, hge, hle, habove', htold⟩
  · exact .inl ⟨x, h, bind_exiting hx, hspent⟩

theorem attempted_freed {text : Bytes} {own : α → Multiset Block} {k : Option PGresult → Eff (World σ) Errors Stop α}
    {outcome : Option PGresult → Outcome Errors Stop α → Prop}
    (hk : ∀ result (w₁ : World σ) X, w₁.results = World.held result + X → w₁.touched self.connection = w₁ →
      Above f L w₁.heap → Handled P own f L outcome result X w₁ (k result w₁)) :
    Attempted P srv self.connection text own f L outcome w
      ((do
        let query ← inHeap (allocPrint P text)
        let result ← PQexec srv self.connection query
        inHeap (free query.block)
        k result : Eff (World σ) Errors Stop α) w) := by
  rcases inHeap_exits w (allocPrint_exits P L text) w ⟨w.heap, hh, rfl⟩ with
    ⟨b, _, hb, h, ⟨ht, ho⟩, rfl⟩ | ⟨x, _, hx, h, hspent, rfl⟩
  · obtain ⟨_, h₁, hfree, ho'⟩ := free_above L b.block h ho
    have hfree' : (inHeap (free b.block) : Eff (World σ) Errors Stop Unit)
        { (w.exec srv self.connection b).2 with heap := h } =
          (.ok (), { (w.exec srv self.connection b).2 with heap := h₁ }) :=
      zoom_run hfree
    obtain ⟨h₂, R, hw, hge, hle, habove, htold⟩ := hk (w.exec srv self.connection b).1
      { (w.exec srv self.connection b).2 with heap := h₁ } w.results rfl
      (World.exec_touched { w with heap := h₁ } srv _ b) ho'
    rw [(bind_ok hb).trans ((bind_ok rfl).trans (bind_ok hfree'))]
    exact .inr ⟨b, ht, h₂, R, hw, hge, hle, habove, htold⟩
  · exact .inl ⟨x, h, bind_exiting hx, hspent⟩

theorem selectJoin_attempted (mainTable joinTable joinValue : Bytes) (columns : Option Bytes) :
    Attempted P srv self.connection (selectJoinQuery mainTable joinTable joinValue columns) QueryResult.owned f L
      (rowsOutcome .SelectJoinFailed) w (selectJoin P srv self mainTable joinTable joinValue columns w) :=
  attempted_freed P srv self w hh fun result _ _ hX htouched ho =>
    rowsOr_handled P self result hX htouched ho .SelectJoinFailed

theorem insert_attempted (table values : Bytes) :
    Attempted P srv self.connection (insertQuery table values) (fun _ : Unit => 0) f L
      (fun result o => o = insertOutcome result) w (insert P srv self table values w) :=
  attempted_freed P srv self w hh fun result _ _ hX htouched ho => insertedOr_handled P self result hX htouched ho

theorem execQuery_attempted (query : Buf) :
    Attempted P srv self.connection query.text (fun _ : Unit => 0) f L (fun result o => o = queryOutcome result) w
      (execQuery srv self query w) := by
  rw [execQuery_run]
  exact .inr ⟨query, rfl, w.heap, w.results, rfl, le_rfl, Multiset.le_add_left _ _,
    by cases queryOutcome (w.exec srv self.connection query).1 <;> simpa [returned] using hh, .inl rfl⟩

end

/-! ### createTableFor -/

theorem appendPart_ends (P : Platform) (a : ℕ) (L : Multiset Block) (part : Bytes) :
    Ends (ArrayList.VarLasts P f a L) (appendPart P part) (fun _ => ArrayList.VarLasts P f a L)
      (ArrayList.VarRanOut P f L) := ArrayList.appendSliceVar_ends P L [part]

theorem appendField_ends (P : Platform) (a : ℕ) (L : Multiset Block) (first : Bool) (field : StructField) :
    Ends (ArrayList.VarLasts P f a L) (appendField P first field) (fun _ => ArrayList.VarLasts P f a L)
      (ArrayList.VarRanOut P f L) := by
  have hpart (part : Bytes) := appendPart_ends (f := f) P a L part
  refine ends_bind (Q := fun _ => ArrayList.VarLasts P f a L) ?_ fun _ => ?_
  · cases first with
    | true => exact ends_of_returns (returns_pure _ fun _ hs => hs)
    | false => exact hpart _
  · exact ends_bind (hpart _) fun _ => ends_bind (hpart _) fun _ => ends_bind (hpart _) fun _ =>
      ends_of_returns (returns_pure _ fun _ hs => hs)

theorem appendFields_ends (P : Platform) (a : ℕ) (L : Multiset Block) (fields : List StructField) (first : Bool) :
    Ends (ArrayList.VarLasts P f a L) (fields.foldlM (appendField P) first) (fun _ => ArrayList.VarLasts P f a L)
      (ArrayList.VarRanOut P f L) := by
  induction fields generalizing first with
  | nil => exact ends_of_returns (returns_pure _ fun _ hs => hs)
  | cons field rest ih =>
    rw [List.foldlM_cons]
    exact ends_bind (appendField_ends P a L first field) ih

theorem appendParts_ends (P : Platform) (a : ℕ) (L : Multiset Block) (T : TypeArg) (fields : List StructField) :
    Ends (ArrayList.VarLasts P f a L) (appendParts P T.typeName fields) (fun _ => ArrayList.VarLasts P f a L)
      (ArrayList.VarRanOut P f L) := by
  have hpart (part : Bytes) := appendPart_ends (f := f) P a L part
  unfold appendParts
  rw [stripModuleName_eq T.typeName T.named T.addressable]
  exact ends_bind (hpart _) fun _ => ends_bind (hpart _) fun _ => ends_bind (hpart _) fun _ =>
    ends_bind (appendFields_ends P a L fields true) fun _ => hpart _

section
variable (P : Platform) (srv : Server σ) (self : Self) (w : World σ) {L : Multiset Block} (hh : Above f L w.heap)
include hh

theorem sendParts_attempted (parts : Parts) :
    Attempted P srv self.connection parts.items.flatten (fun _ : Unit => 0) f L
      (fun result o => o = queryOutcome result) w (sendParts P srv self parts w) := by
  rcases inHeap_exits w (allocPrint_exits P L ([].intercalate parts.items)) w ⟨w.heap, hh, rfl⟩ with
    ⟨b, _, hb, h, ⟨ht, ho⟩, rfl⟩ | ⟨x, _, hx, h, hspent, rfl⟩
  · rw [nil_intercalate] at ht
    have hquery := execQuery_run srv self { w with heap := h } b
    obtain ⟨_, h₁, hfree, ho'⟩ := free_above L b.block h ho
    have hfree' : (inHeap (free b.block) : Eff (World σ) Errors Stop Unit)
        { (w.exec srv self.connection b).2 with heap := h, results := w.results } =
          (.ok (), { (w.exec srv self.connection b).2 with heap := h₁, results := w.results }) := zoom_run hfree
    have hle := Multiset.le_add_left w.results (World.held (w.exec srv self.connection b).1)
    cases ho : queryOutcome (w.exec srv self.connection b).1 with
    | ok u =>
      have hrun : sendParts P srv self parts w = _ :=
        (bind_ok hb).trans ((bind_ok (hquery.trans (Prod.ext ho rfl))).trans hfree')
      rw [hrun]
      exact .inr ⟨b, ht, h₁, w.results, rfl, le_rfl, hle, by simpa [returned] using ho', .inl ho.symm⟩
    | err e =>
      have hrun : sendParts P srv self parts w = _ :=
        (bind_ok hb).trans (bind_err (hquery.trans (Prod.ext ho rfl)))
      rw [hrun]
      refine .inr ⟨b, ht, h, w.results, rfl, le_rfl, hle, ?_, .inl ho.symm⟩
      simpa [returned] using above_add ‹Above f (entry b.block + L) h›
    | stop c =>
      have hrun : sendParts P srv self parts w = _ :=
        (bind_ok hb).trans (bind_stop (hquery.trans (Prod.ext ho rfl)))
      rw [hrun]
      refine .inr ⟨b, ht, h, w.results, rfl, le_rfl, hle, ?_, .inl ho.symm⟩
      simpa [returned] using above_add ‹Above f (entry b.block + L) h›
  · exact .inl ⟨x, h, bind_exiting hx, hspent⟩

omit hh in
theorem deferring_deinitVar_above {s : World σ × Parts} {w' : World σ} {l : Parts} (own : α → Multiset Block)
    {m : Eff (World σ × Parts) Errors Stop α} {o : Outcome Errors Stop α} (hm : m s = (o, (w', l)))
    (hh : Above f (returned own o + (entry l.block + L)) w'.heap) :
    ∃ h l', deferring (inHeapVar ArrayList.deinitVar) m s = (o, ({ w' with heap := h }, l')) ∧
      Above f (returned own o + L) h := by
  obtain ⟨K, hK⟩ := hh
  have hperm : K + (returned own o + (entry l.block + L)) = entry l.block + (K + (returned own o + L)) := by abel
  rw [hperm] at hK
  obtain ⟨_, ⟨h, l'⟩, hdeinit, ho⟩ := ArrayList.deinitVar_returns (E := Errors) (C := Stop) _ (w'.heap, l) hK
  have hcleanup : (inHeapVar ArrayList.deinitVar : Eff (World σ × Parts) Errors Stop Unit) (w', l) =
      (.ok (), ({ w' with heap := h }, l')) := inHeapVar_run hdeinit
  cases o with
  | ok a => exact ⟨h, l', deferring_ok hm hcleanup, K, ho⟩
  | err e => exact ⟨h, l', deferring_err hm hcleanup, K, ho⟩
  | stop c => exact ⟨w'.heap, l, deferring_stop hm, entry l.block + K, by rwa [add_assoc]⟩

theorem createTableFor_attempted (T : TypeArg) (fields : List StructField) (hT : T.info = .struct fields) :
    Attempted P srv self.connection (createTableQuery T.typeName fields) (fun _ : Unit => 0) f L
      (fun result o => o = queryOutcome result) w (createTableFor P srv self T w) := by
  have hguard (o : Outcome Errors Stop Unit) (w' : World σ) (l : Parts)
      (hm : createTable P srv self T.typeName fields (w, ArrayList.init) = (o, (w', l)))
      (ho : Above f (returned (fun _ : Unit => 0) o + (entry l.block + L)) w'.heap) :
      ∃ h, createTableFor P srv self T w = (o, { w' with heap := h }) ∧
        Above f (returned (fun _ : Unit => 0) o + L) h := by
    obtain ⟨h, l', hd, habove⟩ := deferring_deinitVar_above (fun _ : Unit => 0) hm ho
    exact ⟨h, by simp only [createTableFor, hT, withVar, hd], habove⟩
  obtain ⟨K, hK⟩ := hh
  rcases appendParts_ends P w.heap.attempts (K + L) T fields (w.heap, ArrayList.init)
      (ArrayList.varLasts_init _ (lasts_now hK)) with
    ⟨_, ⟨h, l⟩, hparts, hl, -⟩ | ⟨e, ⟨h, l⟩, he, hP, heq, hl⟩
  swap
  · -- a part that could not be appended
    obtain ⟨h', hrun, habove⟩ := hguard (.err e) { w with heap := h } l (bind_err (inHeapVar_run he))
      ⟨K, by simpa [returned, add_left_comm] using hl⟩
    exact .inl ⟨.inl e, h', hrun, ⟨hP, .inl (congrArg Sum.inl heq)⟩, by simpa [returned] using habove⟩
  have hspell : l.items.flatten = createTableQuery T.typeName fields :=
    yields_of_tries (appendParts_tries P T.typeName fields T.named T.addressable) (w.heap, ArrayList.init) rfl ()
      (h, l) hparts
  have habove : Above f (entry l.block + L) h := ⟨K, by rwa [add_left_comm]⟩
  rcases hs : sendParts P srv self l { w with heap := h } with ⟨o, w'⟩
  have hcreate : createTable P srv self T.typeName fields (w, ArrayList.init) = (o, (w', l)) :=
    (bind_ok (inHeapVar_run hparts)).trans ((bind_ok rfl).trans (lifted_run hs))
  have hsent := sendParts_attempted P srv self { w with heap := h } habove l
  rw [hs] at hsent
  rcases hsent with ⟨x, h₁, hrun, hspent⟩ | ⟨b, hb, h₁, R, hw, hge, hle, ho, htold⟩
  · cases hrun
    obtain ⟨h', hrun, ho⟩ := hguard _ _ l hcreate (by cases x <;> simpa [returned, exiting] using hspent.2)
    exact .inl ⟨x, h', hrun, hspent.1, by cases x <;> simpa [returned, exiting] using ho⟩
  · cases hw
    obtain ⟨h', hrun, ho'⟩ := hguard _ _ l hcreate ho
    rw [hrun]
    exact .inr ⟨b, hb.trans hspell, h', R, rfl, hge, hle, ho', htold⟩

/-! ### init -/

omit hh in
theorem connectedOr_above (cs : ConnectionParams) (b : Buf) (conn : Option ℕ) (w₁ : World σ)
    (htouched : w₁.touched conn = w₁) (ho : Above f (entry b.block + L) w₁.heap) :
    ∃ h, Above f L h ∧ connectedOr cs b conn w₁ =
      if w₁.stateIs conn .usable then (.ok ⟨cs, conn, .OK⟩, { w₁ with heap := h })
      else (.err .ConnectionFailed, { w₁.finish conn with heap := h }) := by
  have hstatus : (PQstatusOk conn : Eff (World σ) Errors Stop Bool) w₁ = (.ok (w₁.stateIs conn .usable), w₁) := by
    rw [PQstatusOk, htouched]
  cases hu : w₁.stateIs conn .usable with
  | true =>
    obtain ⟨_, h, hfree, ho'⟩ := free_above L b.block w₁.heap ho
    rw [hu] at hstatus
    exact ⟨h, ho', (bind_ok hstatus).trans (bind_ok (zoom_run hfree))⟩
  | false =>
    -- the text stays allocated
    rw [hu] at hstatus
    exact ⟨w₁.heap, above_add ho, (bind_ok hstatus).trans ((bind_ok (PQerrorMessage_run htouched)).trans (bind_ok rfl))⟩

theorem init_exits (cs : ConnectionParams) :
    (∃ x h, init P srv cs w = (exiting x, { w with heap := h }) ∧ Spent P f L x h) ∨
      ∃ b h, b.text = connectionText cs ∧ Above f L h ∧ init P srv cs w =
        if (w.connect srv b).2.stateIs (w.connect srv b).1 .usable then
          (.ok ⟨cs, (w.connect srv b).1, .OK⟩, { (w.connect srv b).2 with heap := h })
        else (.err .ConnectionFailed, { (w.connect srv b).2.finish (w.connect srv b).1 with heap := h }) := by
  rcases inHeap_exits w (allocPrint_exits P L (portText cs.port)) w ⟨w.heap, hh, rfl⟩ with
    ⟨p, _, hp, h, ⟨ht, ho⟩, rfl⟩ | ⟨x, _, hx, h, hspent, rfl⟩
  swap
  · exact .inl ⟨x, h, bind_exiting hx, hspent⟩
  have hend (o : Outcome Errors Stop Self) (w' : World σ)
      (hm : connectWith P srv cs p.text { w with heap := h } = (o, w')) (ho : Above f (entry p.block + L) w'.heap) :
      ∃ h', init P srv cs w = (o, { w' with heap := h' }) ∧ Above f L h' := by
    have hnone : returned (fun _ : Self => 0) o = 0 := by cases o <;> rfl
    obtain ⟨h', hd, ho'⟩ := deferring_free_above p.block (fun _ : Self => 0) hm (by rwa [hnone, zero_add])
    rw [hnone, zero_add] at ho'
    exact ⟨h', (bind_ok hp).trans hd, ho'⟩
  rcases inHeap_exits { w with heap := h } (allocPrint_exits P (entry p.block + L)
      ([].intercalate (connectionParts cs p.text))) _ ⟨h, ho, rfl⟩ with
    ⟨b, _, hb, h₁, ⟨hbt, hbo⟩, rfl⟩ | ⟨x, _, hx, h₁, hspent, rfl⟩
  swap
  · obtain ⟨h', hrun, ho'⟩ := hend (exiting x) { w with heap := h₁ } (bind_exiting hx) hspent.2
    exact .inl ⟨x, h', hrun, hspent.1, ho'⟩
  rw [nil_intercalate, ht] at hbt
  obtain ⟨h₂, ho₂, hconn⟩ := connectedOr_above cs b (w.connect srv b).1 { (w.connect srv b).2 with heap := h₁ }
    (World.connect_touched { w with heap := h₁ } srv b) hbo
  have hbody : connectWith P srv cs p.text { w with heap := h } = _ := (bind_ok hb).trans ((bind_ok rfl).trans hconn)
  by_cases hu : (w.connect srv b).2.stateIs (w.connect srv b).1 .usable = true
  · obtain ⟨h', hrun, ho'⟩ := hend _ _ (hbody.trans (if_pos hu)) ho₂
    exact .inr ⟨b, h', hbt, ho', hrun.trans (if_pos hu).symm⟩
  · obtain ⟨h', hrun, ho'⟩ := hend _ _ (hbody.trans (if_neg hu)) ho₂
    exact .inr ⟨b, h', hbt, ho', hrun.trans (if_neg hu).symm⟩

end

/-! ### QParams -/

/-- Besides the block of the list the heap holds those of `L`, and maybe others. -/
def AboveVar (f : Bool) (L : Multiset Block) (s : Heap × Fragments) : Prop := Above f (entry s.2.block + L) s.1

def SpentVar (P : Platform) (f : Bool) (L : Multiset Block) (x : Exit Errors Stop) (s : Heap × Fragments) : Prop :=
  Lost P x ∧ AboveVar f L s

section
variable (P : Platform) (L : Multiset Block)

theorem lifted_exits {m : Eff Heap Errors Stop Buf}
    (hm : ∀ L, Exits (Above f L) m (fun b => Above f (entry b.block + L)) (Spent P f L)) :
    Exits (AboveVar f L) (lifted m) (fun b => AboveVar f (entry b.block + L)) (SpentVar P f L) := by
  intro s hs
  obtain ⟨h, l⟩ := s
  rcases hm (entry l.block + L) h hs with ⟨b, h', hb, ho⟩ | ⟨x, h', hx, hspent⟩
  · rw [add_left_comm] at ho
    exact .inl ⟨b, (h', l), lifted_run hb, ho⟩
  · exact .inr ⟨x, (h', l), lifted_run hx, hspent⟩

theorem appendFragment_exits (b : Buf) :
    Exits (AboveVar f L) (update fun l => (l.append P b : Eff Heap Errors Stop Fragments)) (fun _ => AboveVar f L)
      (SpentVar P f L) := by
  refine exits_of_ends fun s hs => ?_
  obtain ⟨K, hK⟩ := hs
  rw [add_left_comm] at hK
  rcases ArrayList.appendSliceVar_ends (E := Errors) (C := Stop) P (K + L) [b] s (lasts_now hK) with
    ⟨u, s', hu, ho, -⟩ | ⟨e, s', he, hP, heq, ho⟩
  · exact .inl ⟨u, s', hu, K, by rwa [add_left_comm]⟩
  · exact .inr ⟨e, s', he, ⟨hP, .inl (congrArg Sum.inl heq)⟩, K, by rwa [add_left_comm]⟩

theorem separate_exits (first : Bool) :
    Exits (AboveVar f L) (separate P first) (fun _ => AboveVar f L) (SpentVar P f L) := by
  cases first with
  | true => exact exits_pure _ fun _ hs => hs
  | false => exact appendFragment_exits P L _

theorem aboveVar_add {K : Multiset Block} {s : Heap × Fragments} (hs : AboveVar f (K + L) s) : AboveVar f L s := by
  rw [AboveVar, add_left_comm] at hs
  exact above_add hs

theorem appendPrinted_exits (text : Bytes) :
    Exits (AboveVar f L) (appendPrinted P text) (fun _ => AboveVar f L) (SpentVar P f L) := by
  refine exits_bind (lifted_exits P L fun L => ?_) fun b => exits_conseq (appendFragment_exits P L b)
    (fun _ hs => aboveVar_add L hs) (fun _ _ hq => hq) fun _ _ hr => hr
  exact exits_orStop _ (exits_conseq (allocPrint_exits P L text) (fun _ hs => hs) (fun _ _ hq => hq.2) fun _ _ hr => hr)
    lost_stop

theorem escapeString_exits (str : Bytes) :
    Exits (Above f L) (escapeString P str) (fun b => Above f (entry b.block + L)) (Spent P f L) := by
  have hall := above_exits (P := P) (f := f) (M := 0) (N := fun b : Buf => entry b.block) (A := fun _ => True)
    (m := escapeString P str) L fun a K => by
      refine ends_conseq (escapeString_ends P a K str) ?_ (fun _ _ hq => ⟨trivial, hq⟩) ?_ <;> simp
  simp only [zero_add, true_and] at hall
  exact hall

theorem item_exits (first : Bool) (v : Value) :
    Exits (AboveVar f L) (QParams.item P first v) (fun _ => AboveVar f L) (SpentVar P f L) := by
  rcases item_cases P first v with ⟨-, hitem⟩ | ⟨t, -, -, -, hitem⟩ | ⟨x, -, -, hitem⟩
  · rw [hitem]
    exact exits_pure _ fun _ hs => hs
  · rw [hitem]
    exact exits_bind (exits_bind (separate_exits P L first) fun _ => appendPrinted_exits P L t) fun _ =>
      exits_pure _ fun _ hs => hs
  · rw [hitem]
    refine exits_bind (exits_bind (separate_exits P L first) fun _ => exits_bind
      (lifted_exits P L fun L => escapeString_exits P L x) fun b => ?_) fun _ => exits_pure _ fun _ hs => hs
    -- the escaped copy is not freed
    exact exits_conseq (appendPrinted_exits P L _) (fun _ hs => aboveVar_add L hs) (fun _ _ hq => hq) fun _ _ hr => hr

theorem collect_exits (values : List Value) (first : Bool) :
    Exits (AboveVar f L) (collect P values first) (fun q => AboveVar f (entry q.paramString.block + L))
      (SpentVar P f L) := by
  have hloop := exits_foldlM (R := SpentVar P f L) (fun _ _ => AboveVar f L) (QParams.item P) [] values
    (fun _ v _ b => item_exits P L b v) first
  refine exits_bind hloop fun _ => exits_bind (Q := fun _ => AboveVar f L) ?_ fun l => exits_bind
    (lifted_exits P L fun L => exits_conseq (allocPrint_exits P L _) (fun _ hs => hs) (fun _ _ hq => hq.2)
      fun _ _ hr => hr) fun _ => exits_pure _ fun _ hs => hs
  exact exits_of_returns fun s hs => ⟨s.2, s, rfl, hs⟩

/-- QParams returns a string, or memory ran out; it spares what it found. -/
theorem QParams_exits (values : List Value) :
    Exits (Above f L) (QParams P values) (fun q => Above f (entry q.paramString.block + L)) (Spent P f L) := by
  have hfree (L : Multiset Block) : Returns (AboveVar f L)
      (ArrayList.deinitVar : Eff (Heap × Fragments) Errors Stop Unit)
      fun _ s => Above f L s.1 := by
    intro s hs
    obtain ⟨K, hK⟩ := hs
    rw [add_left_comm] at hK
    obtain ⟨u, s', hu, ho⟩ := ArrayList.deinitVar_returns (E := Errors) (C := Stop) (K + L) s hK
    exact ⟨u, s', hu, K, ho⟩
  rw [QParams_collect]
  refine exits_withVar (exits_deferring (exits_conseq (collect_exits P L values true) ?_ (fun _ _ hq => hq)
    fun _ _ hr => hr) (fun q => hfree _) (fun e => ?_) fun c s hs => ?_)
  · intro s hs
    obtain ⟨h, l⟩ := s
    obtain ⟨hh, rfl⟩ := hs
    rwa [AboveVar, ArrayList.entry_init, zero_add]
  · intro s hs
    obtain ⟨u, s', hu, ho⟩ := hfree L s hs.2
    exact ⟨u, s', hu, hs.1, ho⟩
  · exact ⟨hs.1, above_add hs.2⟩

end

end Psql
