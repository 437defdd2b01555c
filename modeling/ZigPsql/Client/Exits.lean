import ZigPsql.Lib.Exits
import ZigPsql.Client.AllocFailure
import ZigPsql.Client.Calls

/-!
# Every call by all of its exits

Whichever allocations fail, a call spares the blocks it found, clears its result
at most once, and ends as its result tells or for lack of memory.
-/

namespace Psql
open Effect Effect.Eff Text Zig Libpq

variable {σ α : Type} {f : Bool}

/-- For lack of memory a call ends in an error return, or in the stop of a `catch unreachable`. -/
def Lost (P : Platform) (x : Exit Errors Stop) : Prop :=
  ¬ P.Succeeds ∧ (x = .inl .OutOfMemory ∨ x = .inr .unreachable)

/-- Memory has run out, and the heap holds the blocks of `L`, and maybe others. -/
def Spent (P : Platform) (f : Bool) (L : Multiset Block) (x : Exit Errors Stop) (h : Heap) : Prop :=
  Lost P x ∧ Above f L h

/-! ### Blocks that are spared -/

theorem above_add {K L : Multiset Block} {h : Heap} (hh : Above f (K + L) h) : Above f L h := by
  obtain ⟨J, hJ⟩ := hh
  exact ⟨J + K, by rwa [add_assoc]⟩

theorem above_now (h : Heap) : Above h.faulted h.ledger h := ⟨0, by rw [zero_add]; exact ⟨rfl, rfl⟩⟩

theorem spent_add {P : Platform} {K L : Multiset Block} {x : Exit Errors Stop} {h : Heap}
    (hh : Spent P f (K + L) x h) : Spent P f L x h := ⟨hh.1, above_add hh.2⟩

/-- An operation on the blocks of `M`, which leaves those of `N` instead, in a heap that holds more. -/
theorem above_exits {P : Platform} {m : Eff Heap Errors Stop α} {M : Multiset Block} {N : α → Multiset Block}
    {A : α → Prop} (L : Multiset Block)
    (hm : ∀ a K, Ends (Lasts P f a (M + K)) m (fun b h => A b ∧ Lasts P f a (N b + K) h) (RanOut P f (M + K))) :
    Exits (Above f (M + L)) m (fun b h => A b ∧ Above f (N b + L) h) (Spent P f (M + L)) := by
  refine exits_of_ends fun h hh => ?_
  obtain ⟨K, hK⟩ := hh
  rw [add_left_comm] at hK
  rcases hm h.attempts (K + L) h (lasts_now hK) with ⟨b, h', hb, ha, ho, -⟩ | ⟨e, h', he, hP, heq, ho⟩
  · exact .inl ⟨b, h', hb, ha, K, by rwa [add_left_comm]⟩
  · exact .inr ⟨e, h', he, ⟨hP, .inl (congrArg Sum.inl heq)⟩, K, by rwa [add_left_comm]⟩

theorem allocPrint_exits (P : Platform) (L : Multiset Block) (text : Bytes) :
    Exits (Above f L) (allocPrint P text : Eff Heap Errors Stop Buf)
      (fun b h => b.text = text ∧ Above f (entry b.block + L) h) (Spent P f L) := by
  have hall := above_exits (P := P) (f := f) (M := 0) (N := fun b : Buf => entry b.block) (A := fun b => b.text = text)
    (m := allocPrint P text) L fun a K => by simpa only [zero_add] using allocPrint_ends P K text
  simpa only [zero_add] using hall

theorem lost_stop {P : Platform} {L : Multiset Block} (e : Errors) (h : Heap) (hs : Spent P f L (.inl e) h) :
    Spent P f L (.inr .unreachable) h := ⟨⟨hs.1.1, .inr rfl⟩, hs.2⟩

theorem append_exits {β : Type} (P : Platform) (L : Multiset Block) (l : ArrayList β 16) (x : β) :
    Exits (Above f (entry l.block + L)) (orStop .unreachable (l.append P x) : Eff Heap Errors Stop (ArrayList β 16))
      (fun g h => g.items = l.items ++ [x] ∧ Above f (entry g.block + L) h) (Spent P f (entry l.block + L)) :=
  exits_orStop _ (above_exits L fun _ K => ArrayList.appendSlice_ends P K l [x]) lost_stop

/-- What gives back the blocks of `M` spares the others. -/
theorem returns_above {m : Eff Heap Errors Stop α} {M : Multiset Block}
    (hm : ∀ L, Returns (Owns f (M + L)) m fun _ => Owns f L) (L : Multiset Block) :
    Returns (Above f (M + L)) m fun _ => Above f L := by
  intro h hh
  obtain ⟨K, hK⟩ := hh
  rw [add_left_comm] at hK
  obtain ⟨a, h', ha, ho⟩ := hm (K + L) h hK
  exact ⟨a, h', ha, K, ho⟩

theorem free_above (L : Multiset Block) (b : Block) :
    Returns (Above f (entry b + L)) (free b : Eff Heap Errors Stop Unit) fun _ => Above f L :=
  returns_above (fun L => free_returns L b) L

theorem inHeap_exits {I : Heap → Prop} {m : Eff Heap Errors Stop α} {Q : α → Heap → Prop}
    {R : Exit Errors Stop → Heap → Prop} (w : World σ) (hm : Exits I m Q R) :
    Exits (w.Over I) (inHeap m) (fun a => w.Over (Q a)) fun x => w.Over (R x) := by
  intro _ hover
  obtain ⟨h, hh, rfl⟩ := hover
  rcases hm h hh with ⟨a, h', ha, hq⟩ | ⟨x, h', hx, hr⟩
  · exact .inl ⟨a, _, inHeap_run ha, h', hq, rfl⟩
  · exact .inr ⟨x, _, inHeap_run hx, h', hr, rfl⟩

theorem over_mono {I J : Heap → Prop} {w w' : World σ} (hover : w.Over I w') (h : ∀ g, I g → J g) : w.Over J w' := by
  obtain ⟨g, hg, rfl⟩ := hover
  exact ⟨g, h g hg, rfl⟩

/-! ### getResult -/

section
variable (P : Platform) (L : Multiset Block)

theorem copyTexts_exits (w : World σ) (read : ℕ → Eff (World σ) Errors Stop (Option Bytes)) (texts : ℕ → Bytes) (n : ℕ)
    (hread : ∀ i < n, ∀ h, read i { w with heap := h } = (.ok (some (texts i)), { w with heap := h })) :
    Exits (w.Over (Above f L)) (copyTexts P read n)
      (fun l => w.Over (Above f (blocks l.items + (entry l.block + L)))) fun x => w.Over (Spent P f L x) := by
  have hspent {K : Multiset Block} (x : Exit Errors Stop) (s : World σ) (hs : w.Over (Spent P f (K + L) x) s) :
      w.Over (Spent P f L x) s := over_mono hs fun _ => spent_add
  refine exits_conseq (exits_foldlM (fun _ (l : ArrayList Buf 16) =>
    w.Over (Above f (blocks l.items + (entry l.block + L)))) _ [] (List.range n) ?_ _) ?_ (fun _ _ hq => hq)
    fun _ _ hr => hr
  · intro _ i hi l
    refine exits_bind (Q := fun value s => value = some (texts i) ∧
      w.Over (Above f (blocks l.items + (entry l.block + L))) s) (exits_of_returns ?_) fun value => ?_
    · intro _ hover
      obtain ⟨h, hh, rfl⟩ := hover
      exact ⟨_, _, hread i (List.mem_range.mp hi) h, rfl, h, hh, rfl⟩
    · intro s hs
      obtain ⟨rfl, hover⟩ := hs
      refine exits_bind (Q := fun b => w.Over (Above f (entry l.block + (entry b.block + (blocks l.items + L)))))
        (exits_conseq (inHeap_exits w (allocPrint_exits P _ (span (texts i)))) (fun _ hs => hs) ?_ ?_) ?_ s hover
      · intro b s hs
        refine over_mono hs fun h hh => ?_
        have hperm : entry l.block + (entry b.block + (blocks l.items + L)) =
          entry b.block + (blocks l.items + (entry l.block + L)) := by abel
        rw [hperm]
        exact hh.2
      · intro x s hs
        rw [← add_assoc] at hs
        exact hspent x s hs
      · intro b
        refine exits_conseq (inHeap_exits w (append_exits (f := f) P _ l b)) (fun _ hs => hs) ?_ ?_
        · intro g s hs
          refine over_mono hs fun h hh => ?_
          obtain ⟨hitems, hh⟩ := hh
          have hperm : blocks g.items + (entry g.block + L) =
              entry g.block + (entry b.block + (blocks l.items + L)) := by
            rw [hitems, blocks_append_one]
            abel
          rwa [hperm]
        · intro x s hs
          rw [← add_assoc, ← add_assoc] at hs
          exact hspent x s hs
  · intro s hs
    simpa [blocks] using hs

section
variable {w : World σ} {r : PGresult} (hr : World.held (some r) ≤ w.results)
include hr

/-- The block of a row's list stays behind. -/
theorem copyRows_exits :
    Exits (w.Over (Above f L)) ((List.range r.data.tuples.length).foldlM
      (fun (rows : ArrayList RowSlice 16) i => do
        let row ← copyTexts P (PQgetvalue (some r) i) r.data.fnames.length
        inHeap (orStop .unreachable (rows.append P ⟨row.addr, row.items⟩))) ArrayList.init)
      (fun rows => w.Over (Above f (cellBlocks rows.items + (entry rows.block + L))))
        fun x => w.Over (Spent P f L x) := by
  refine exits_conseq (exits_foldlM (fun _ (rows : ArrayList RowSlice 16) =>
    w.Over (Above f (cellBlocks rows.items + (entry rows.block + L)))) _ [] (List.range r.data.tuples.length) ?_ _) ?_
    (fun _ _ hq => hq) fun _ _ hx => hx
  · intro _ i hi rows
    refine exits_bind (exits_conseq (copyTexts_exits P (cellBlocks rows.items + (entry rows.block + L)) w
      (PQgetvalue (some r) i) (cellText r.data i) r.data.fnames.length
      fun j hj h => PQgetvalue_run hr (List.mem_range.mp hi) hj h) (fun _ hs => hs) (fun _ _ hq => hq) ?_) fun row => ?_
    · intro x s hs
      refine over_mono hs fun h hh => ?_
      rw [← add_assoc] at hh
      exact spent_add hh
    · refine exits_conseq (inHeap_exits w (append_exits (f := f) P (blocks row.items + (cellBlocks rows.items + L)) rows
        ⟨row.addr, row.items⟩)) ?_ ?_ ?_
      · intro s hs
        refine over_mono hs fun h hh => ?_
        have hperm : blocks row.items + (entry row.block + (cellBlocks rows.items + (entry rows.block + L))) =
            entry row.block + (entry rows.block + (blocks row.items + (cellBlocks rows.items + L))) := by abel
        rw [hperm] at hh
        exact above_add hh
      · intro g s hs
        refine over_mono hs fun h hh => ?_
        obtain ⟨hitems, hh⟩ := hh
        have hperm : cellBlocks g.items + (entry g.block + L) =
            entry g.block + (blocks row.items + (cellBlocks rows.items + L)) := by
          rw [hitems, cellBlocks_append_one]
          abel
        rwa [hperm]
      · intro x s hs
        refine over_mono hs fun h hh => ?_
        rw [← add_assoc, ← add_assoc] at hh
        exact spent_add hh
  · intro s hs
    simpa [cellBlocks] using hs

/-- getResult clears the result where it returns, with a copy of what the result holds, and nowhere else. -/
theorem getResult_exits :
    Exits (w.Over (Above f L)) (getResult P (some r))
      (fun q s => (∃ h, Above f (q.owned + L) h ∧
          s = { w with heap := h, results := w.results - World.held (some r) }) ∧
        q.contents = ⟨r.data.fnames.map span, cellTexts r.data⟩)
      fun x => w.Over (Spent P f L x) := by
  refine exits_conseq (exits_yields ?_ (getResult_contents P r)) (fun s hs => ⟨hs, trivial⟩) (fun _ _ hq => hq)
    fun _ _ hx => hx
  unfold getResult
  have hread {β : Type} (null : β) (g : ResultData → β) :
      Exits (w.Over (Above f L)) (readResult (some r) null g : Eff (World σ) Errors Stop β)
        (fun b s => b = g r.data ∧ w.Over (Above f L) s) fun x => w.Over (Spent P f L x) := by
    refine exits_of_returns ?_
    intro _ hover
    obtain ⟨h, hh, rfl⟩ := hover
    exact ⟨_, _, readResult_run (w := { w with heap := h }) _ _ hr, rfl, h, hh, rfl⟩
  refine exits_bind (hread _ _) fun nFields => ?_
  intro s hs
  obtain ⟨rfl, hover⟩ := hs
  refine exits_bind (hread _ _) (fun nRows => ?_) s hover
  intro s hs
  obtain ⟨rfl, hover⟩ := hs
  refine exits_bind (copyTexts_exits P L w (PQfname (some r)) (fun i => r.data.fnames[i]?.getD []) _
    fun i hi h => PQfname_run hr hi h) (fun columns => ?_) s hover
  refine exits_bind (exits_conseq (copyRows_exits P (blocks columns.items + (entry columns.block + L)) hr)
    (fun _ hs => hs) (fun _ _ hq => hq) fun x s hs => ?_) fun rows => ?_
  · refine over_mono hs fun h hh => ?_
    rw [← add_assoc] at hh
    exact spent_add hh
  · refine exits_of_returns ?_
    intro _ hover
    obtain ⟨h, hh, rfl⟩ := hover
    have hclear := World.cleared_of_held { w with heap := h } (some r) hr
    have howned : (QueryResult.mk rows columns).owned + L =
        cellBlocks rows.items + (entry rows.block + (blocks columns.items + (entry columns.block + L))) := by
      simp only [QueryResult.owned]
      abel
    refine ⟨⟨rows, columns⟩, _, bind_ok rfl, h, ?_, hclear⟩
    rwa [howned]

end
end

/-! ### What insert does with its result -/

/-- What the deferred free of the SQLSTATE's copy guards. -/
def refused (self : Self) (result : Option PGresult) (errorCode : Buf) : Eff (World σ) Errors Stop Unit := do
  PQerrorMessage self.connection
  if errorCode.text = ascii "23505" then throw .PrimaryKeyDuplicate
  else do
    PQclear result
    throw .InsertionFailed

section
variable (P : Platform) (self : Self) {result : Option PGresult} {w₁ : World σ}
  (hheld : World.held result ≤ w₁.results)
include hheld

theorem insertedOr_done (hs : status result = .commandOk) :
    insertedOr P self result w₁ = (.ok (), w₁.cleared result) :=
  (bind_ok (readResult_run _ _ hheld)).trans (congrFun (if_neg (not_not.mpr hs)) _)

theorem insertedOr_null (hs : status result ≠ .commandOk) (hc : sqlstate result = none) :
    insertedOr P self result w₁ = (.stop .nullPointer, w₁) := by
  refine (bind_ok (readResult_run _ _ hheld)).trans ((congrFun (if_pos hs) _).trans
    ((bind_ok (readResult_run _ _ hheld)).trans (bind_stop ?_)))
  change inHeap (printC P (sqlstate result)) w₁ = _
  rw [hc]
  rfl

theorem insertedOr_coded (hs : status result ≠ .commandOk) {code : Bytes} (hc : sqlstate result = some code) :
    insertedOr P self result w₁ = (do
      let errorCode ← inHeap (allocPrint P (span code))
      deferring (inHeap (free errorCode.block)) (refused self result errorCode) :
        Eff (World σ) Errors Stop Unit) w₁ := by
  refine (bind_ok (readResult_run _ _ hheld)).trans ((congrFun (if_pos hs) _).trans
    ((bind_ok (readResult_run _ _ hheld)).trans ?_))
  change (do
    let errorCode ← inHeap (printC P (sqlstate result))
    deferring (inHeap (free errorCode.block)) (refused self result errorCode) :
      Eff (World σ) Errors Stop Unit) w₁ = _
  rw [hc]
  rfl

/-- The result of a duplicate key is not cleared. -/
theorem refused_run (htouched : w₁.touched self.connection = w₁) (errorCode : Buf) :
    refused self result errorCode w₁ =
      (.err (if errorCode.text = ascii "23505" then .PrimaryKeyDuplicate else .InsertionFailed),
        { w₁ with
          results := if errorCode.text = ascii "23505" then w₁.results else w₁.results - World.held result }) := by
  rw [refused, bind_ok (PQerrorMessage_run htouched)]
  by_cases hd : errorCode.text = ascii "23505"
  · simp only [hd, if_true, throw_run]
  · have hclear : (do PQclear result; throw .InsertionFailed : Eff (World σ) Errors Stop Unit) w₁ =
        (.err .InsertionFailed, w₁.cleared result) := bind_ok rfl
    simp only [hd, if_false, hclear, w₁.cleared_of_held result hheld]

end

/-! ### What a result is made into -/

/-- The blocks of what a run returned. -/
def returned (own : α → Multiset Block) : Outcome Errors Stop α → Multiset Block
  | .ok a => own a
  | _ => 0

/-- The outcome is as the result tells, or memory ran out, but not after a command that was executed. -/
def Told (P : Platform) (outcome : Option PGresult → Outcome Errors Stop α → Prop) (result : Option PGresult)
    (o : Outcome Errors Stop α) : Prop :=
  outcome result o ∨ status result ≠ .commandOk ∧ ∃ x, o = exiting x ∧ Lost P x

/-- What is done with a result in the world `w₁`: it is cleared at most once, and no other result is. -/
def Handled (P : Platform) (own : α → Multiset Block) (f : Bool) (L : Multiset Block)
    (outcome : Option PGresult → Outcome Errors Stop α → Prop) (result : Option PGresult) (X : Multiset ℕ)
    (w₁ : World σ) (run : Outcome Errors Stop α × World σ) : Prop :=
  ∃ h R, run.2 = { w₁ with heap := h, results := R } ∧ X ≤ R ∧ R ≤ World.held result + X ∧
    Above f (returned own run.1 + L) h ∧ Told P outcome result run.1

section
variable (P : Platform) (self : Self) {L : Multiset Block} (result : Option PGresult) {X : Multiset ℕ} {w₁ : World σ}
  (hX : w₁.results = World.held result + X) (htouched : w₁.touched self.connection = w₁) (hh : Above f L w₁.heap)
include hX htouched hh

theorem rowsOr_handled (e : Errors) :
    Handled P QueryResult.owned f L (rowsOutcome e) result X w₁ (rowsOr P self e result w₁) := by
  have hheld : World.held result ≤ w₁.results := by rw [hX]; exact Multiset.le_add_right _ _
  have hsub : w₁.results - World.held result = X := by rw [hX, add_tsub_cancel_left]
  by_cases hs : status result ≠ .tuplesOk
  · have hrun : rowsOr P self e result w₁ = (.err e, w₁.cleared result) :=
      (bind_ok (readResult_run _ _ hheld)).trans ((congrFun (if_pos hs) _).trans (fail_run self htouched _ _))
    rw [hrun, w₁.cleared_of_held result hheld]
    exact ⟨w₁.heap, _, rfl, hsub.ge, hsub.le.trans (Multiset.le_add_left _ _),
      by simpa [returned] using hh, .inl (.inl ⟨hs, rfl⟩)⟩
  · have hrun : rowsOr P self e result w₁ = getResult P result w₁ :=
      (bind_ok (readResult_run _ _ hheld)).trans (congrFun (if_neg hs) _)
    rw [hrun]
    cases result with
    | none => exact absurd (by decide) hs
    | some r =>
      rcases getResult_exits P L hheld w₁ ⟨w₁.heap, hh, rfl⟩ with
        ⟨q, _, hq, ⟨h, ho, rfl⟩, hcontents⟩ | ⟨x, _, hx, h, hspent, rfl⟩
      · obtain ⟨hnames, hrows⟩ := Contents.mk.inj hcontents
        rw [hq]
        exact ⟨h, _, rfl, hsub.ge, hsub.le.trans (Multiset.le_add_left _ _), ho,
          .inl (.inr ⟨r, q, rfl, not_not.mp hs, rfl, hnames, hrows⟩)⟩
      · rw [hx]
        have hrows : status (some r) ≠ .commandOk := by
          rw [not_not.mp hs]
          decide
        refine ⟨h, w₁.results, rfl, hX ▸ Multiset.le_add_left _ _, hX.le, ?_, .inr ⟨hrows, x, rfl, hspent.1⟩⟩
        cases x <;> simpa [returned, exiting] using hspent.2

theorem insertedOr_handled :
    Handled P (fun _ : Unit => 0) f L (fun result o => o = insertOutcome result) result X w₁
      (insertedOr P self result w₁) := by
  have hheld : World.held result ≤ w₁.results := by rw [hX]; exact Multiset.le_add_right _ _
  have hsub : w₁.results - World.held result = X := by rw [hX, add_tsub_cancel_left]
  by_cases hs : status result = .commandOk
  · rw [insertedOr_done P self hheld hs, w₁.cleared_of_held result hheld]
    refine ⟨w₁.heap, _, rfl, hsub.ge, hsub.le.trans (Multiset.le_add_left _ _), by simpa [returned] using hh, .inl ?_⟩
    change Outcome.ok () = insertOutcome result
    rw [insertOutcome, if_pos hs]
  cases hc : sqlstate result with
  | none =>
    rw [insertedOr_null P self hheld hs hc]
    refine ⟨w₁.heap, w₁.results, rfl, hX ▸ Multiset.le_add_left _ _, hX.le, by simpa [returned] using hh, .inl ?_⟩
    simp only [insertOutcome, hs, hc, if_false]
  | some code =>
    rw [insertedOr_coded P self hheld hs hc]
    rcases inHeap_exits w₁ (allocPrint_exits P L (span code)) w₁ ⟨w₁.heap, hh, rfl⟩ with
      ⟨b, _, hb, h, ⟨ht, ho⟩, rfl⟩ | ⟨x, _, hx, h, hspent, rfl⟩
    · have htouched' := congrArg (fun w' : World σ => { w' with heap := h }) htouched
      have hbody := @refused_run _ self result { w₁ with heap := h } hheld htouched' b
      obtain ⟨_, h', hfree, ho'⟩ := free_above L b.block h ho
      have hexit := deferring_err hbody (k := inHeap (free b.block)) (zoom_run hfree)
      rw [(bind_ok hb).trans hexit]
      simp only [ht, hsub]
      refine ⟨h', _, rfl, ?_, ?_, by simpa [returned] using ho', .inl ?_⟩
      · split
        · exact hX ▸ Multiset.le_add_left _ _
        · exact le_rfl
      · split
        · exact hX.le
        · exact Multiset.le_add_left _ _
      · simp only [insertOutcome, hs, hc, if_false]
        split <;> rfl
    · rw [bind_exiting hx]
      refine ⟨h, w₁.results, rfl, hX ▸ Multiset.le_add_left _ _, hX.le, ?_, .inr ⟨hs, x, rfl, hspent.1⟩⟩
      cases x <;> simpa [returned, exiting] using hspent.2

end

end Psql
