import ZigPsql.Zig.ArrayList
import ZigPsql.Libpq.World
import ZigPsql.Client.Params

/-!
# Query results: psql.getResult and psql.queryResult

A row of the result is the slice of a list that is dropped without its block
being freed, so every row with a cell in it leaves a block behind.
-/

namespace Psql
open Effect Effect.Eff Text Zig Libpq

variable {σ : Type}

/-- The slice `row.items`: an address that no one frees, and the cells. -/
structure RowSlice where
  addr : ℕ
  cells : List Buf

structure QueryResult where
  rows : ArrayList RowSlice 16
  columns : ArrayList Buf 16

def freeAll (bs : List Buf) : Eff Heap Errors Stop Unit := bs.forM fun b => free b.block

def QueryResult.deinit (self : QueryResult) : Eff Heap Errors Stop Unit := do
  freeAll self.columns.items
  self.columns.deinit
  self.rows.items.forM fun row => freeAll row.cells
  self.rows.deinit

/-- std.fmt.allocPrint(allocator, "{s}", .{text}) of a C pointer. -/
def printC (P : Platform) (text : Option Bytes) : Eff Heap Errors Stop Buf :=
  match text with
  | none => halt .nullPointer
  | some t => allocPrint P (span t)

/-- The loop that copies the texts libpq has at the indexes below `n` into a list. -/
def copyTexts (P : Platform) (read : ℕ → Eff (World σ) Errors Stop (Option Bytes)) (n : ℕ) :
    Eff (World σ) Errors Stop (ArrayList Buf 16) :=
  (List.range n).foldlM (fun (list : ArrayList Buf 16) i => do
    let value ← read i
    let valStr ← inHeap (printC P value)
    inHeap (orStop .unreachable (list.append P valStr))) ArrayList.init

def getResult (P : Platform) (result : Option PGresult) : Eff (World σ) Errors Stop QueryResult := do
  let nFields ← PQnfields result
  let nRows ← PQntuples result
  let columns ← copyTexts P (PQfname result) nFields
  let rows ← (List.range nRows).foldlM (fun (rows : ArrayList RowSlice 16) i => do
    let row ← copyTexts P (PQgetvalue result i) nFields
    inHeap (orStop .unreachable (rows.append P ⟨row.addr, row.items⟩))) ArrayList.init
  PQclear result
  return ⟨rows, columns⟩

/-! ### What is freed -/

def blocks (bs : List Buf) : Multiset Block := (bs.map fun b => entry b.block).sum

theorem blocks_append_one (bs : List Buf) (b : Buf) : blocks (bs ++ [b]) = entry b.block + blocks bs := by
  simp [blocks, add_comm]

def cellBlocks (rows : List RowSlice) : Multiset Block := (rows.map fun row => blocks row.cells).sum

theorem cellBlocks_append_one (rows : List RowSlice) (row : RowSlice) :
    cellBlocks (rows ++ [row]) = blocks row.cells + cellBlocks rows := by
  simp [cellBlocks, add_comm]

def QueryResult.owned (q : QueryResult) : Multiset Block :=
  blocks q.columns.items + (entry q.columns.block + (cellBlocks q.rows.items + entry q.rows.block))

theorem freeAll_returns {f : Bool} (L : Multiset Block) (bs : List Buf) :
    Returns (Owns f (blocks bs + L)) (freeAll bs) fun _ => Owns f L := by
  induction bs with
  | nil =>
    apply returns_pure _
    intro h hh
    simpa [blocks] using hh
  | cons b rest ih =>
    refine returns_bind (Q := fun _ => Owns f (blocks rest + L)) ?_ fun _ => ih
    refine returns_conseq (free_returns (blocks rest + L) b.block) (fun h hh => ?_) fun _ _ hh => hh
    simpa [blocks, add_assoc] using hh

theorem freeRows_returns {f : Bool} (L : Multiset Block) (rows : List RowSlice) :
    Returns (Owns f (cellBlocks rows + L)) (rows.forM fun row => freeAll row.cells) fun _ => Owns f L := by
  induction rows with
  | nil =>
    apply returns_pure _
    intro h hh
    simpa [cellBlocks] using hh
  | cons row rest ih =>
    refine returns_bind (Q := fun _ => Owns f (cellBlocks rest + L)) ?_ fun _ => ih
    refine returns_conseq (freeAll_returns (cellBlocks rest + L) row.cells) (fun h hh => ?_) fun _ _ hh => hh
    simpa [cellBlocks, add_assoc] using hh

theorem deinit_returns {f : Bool} (L : Multiset Block) (q : QueryResult) :
    Returns (Owns f (q.owned + L)) q.deinit fun _ => Owns f L := by
  unfold QueryResult.owned QueryResult.deinit
  refine returns_bind (Q := fun _ => Owns f (entry q.columns.block + (cellBlocks q.rows.items +
    (entry q.rows.block + L)))) ?_ fun _ => ?_
  · refine returns_conseq (freeAll_returns _ q.columns.items) (fun h hh => ?_) fun _ _ hh => hh
    simpa only [add_assoc] using hh
  apply returns_bind (ArrayList.deinit_returns _ q.columns)
  intro _
  exact returns_bind (freeRows_returns _ q.rows.items) fun _ => ArrayList.deinit_returns L q.rows

/-! ### What getResult copies -/

section
variable (P : Platform) (hP : P.Succeeds) {f : Bool} (L : Multiset Block)
include hP

theorem copyTexts_returns (w : World σ) (read : ℕ → Eff (World σ) Errors Stop (Option Bytes))
    (texts : ℕ → Bytes) (n : ℕ)
    (hread : ∀ i < n, ∀ h, read i { w with heap := h } = (.ok (some (texts i)), { w with heap := h })) :
    Returns (w.Over (Owns f L)) (copyTexts P read n) fun l => w.Over fun h =>
      l.items.map Buf.text = (List.range n).map (fun i => span (texts i)) ∧
        Owns f (blocks l.items + (entry l.block + L)) h := by
  refine returns_conseq (returns_foldlM (fun done (l : ArrayList Buf 16) => w.Over fun h =>
    l.items.map Buf.text = done.map (fun i => span (texts i)) ∧
      Owns f (blocks l.items + (entry l.block + L)) h) _ [] (List.range n) ?_ _) ?_ fun _ _ hq => hq
  · -- one text: its copy takes a block, which stays in the list
    intro done i hi l _ hover
    obtain ⟨h, ⟨ht, hh⟩, rfl⟩ := hover
    obtain ⟨b, h₁, hb, hbt, hbo⟩ := allocPrint_returns (E := Errors) (C := Stop) P hP
      (blocks l.items + (entry l.block + L)) (span (texts i)) h hh
    rw [add_left_comm (blocks l.items), add_left_comm (entry b.block)] at hbo
    obtain ⟨g, h₂, hg, hgi, hgo⟩ := returns_orStop Stop.unreachable
      (ArrayList.append_returns (E := Errors) P hP _ l b) h₁ hbo
    refine ⟨g, { w with heap := h₂ }, ?_, h₂, ⟨?_, ?_⟩, rfl⟩
    · exact (bind_ok (hread i (List.mem_range.mp hi) h)).trans
        ((bind_ok (inHeap_run hb)).trans (inHeap_run hg))
    · simp [hgi, ht, hbt]
    · rw [hgi, blocks_append_one]
      convert hgo using 1
      abel
  · intro _ hover
    obtain ⟨h, hh, rfl⟩ := hover
    exact ⟨h, ⟨rfl, by simpa [blocks] using hh⟩, rfl⟩

/-- A list that is dropped after its slice was taken leaves its block, unless it never had one. -/
theorem copyRow_returns (w : World σ) (read : ℕ → Eff (World σ) Errors Stop (Option Bytes))
    (texts : ℕ → Bytes) (n : ℕ)
    (hread : ∀ i < n, ∀ h, read i { w with heap := h } = (.ok (some (texts i)), { w with heap := h })) :
    Returns (w.Over (Owns f L)) (copyTexts P read n) fun l => w.Over fun h =>
      l.items.map Buf.text = (List.range n).map (fun i => span (texts i)) ∧
        ∃ K, K.card = (if n = 0 then 0 else 1) ∧ Owns f (blocks l.items + (K + L)) h := by
  rcases Nat.eq_zero_or_pos n with rfl | hn
  · apply returns_pure _
    intro _ hover
    obtain ⟨h, hh, rfl⟩ := hover
    exact ⟨h, ⟨rfl, 0, rfl, by simpa [blocks] using hh⟩, rfl⟩
  · apply returns_conseq (copyTexts_returns P hP L w read texts n hread) (fun _ hs => hs)
    intro l _ hover
    obtain ⟨h, ⟨ht, hh⟩, rfl⟩ := hover
    refine ⟨h, ⟨ht, entry l.block, ?_, hh⟩, rfl⟩
    have hlen : l.items.length = n := by simpa using congrArg List.length ht
    have hsize : l.block.size ≠ 0 := by
      have hfits := l.fits
      simp only [ArrayList.block]
      omega
    rw [entry_card l.block hsize, if_neg (by omega)]

end

def cellTexts (d : ResultData) : List (List Bytes) :=
  d.tuples.map fun tuple => tuple.map fun cell => span (cell.getD [])

def cellText (d : ResultData) (i j : ℕ) : Bytes := ((d.tuples[i]?.bind fun tuple => tuple[j]?).getD none).getD []

theorem map_range_getD {α β : Type} (l : List α) (g : Option α → β) :
    (List.range l.length).map (fun i => g l[i]?) = l.map fun a => g (some a) := by
  apply List.ext_getElem (by simp)
  intro i h₁ h₂
  have hi : i < l.length := by simpa using h₂
  simp [hi]

theorem rowTexts_eq (d : ResultData) (i : ℕ) (hi : i < d.tuples.length) :
    (List.range d.fnames.length).map (fun j => span (cellText d i j)) =
      (d.tuples[i].map fun cell => span (cell.getD [])) := by
  have hrow := map_range_getD d.tuples[i] fun cell => span ((cell.getD none).getD [])
  rw [← d.rect _ (List.getElem_mem hi)]
  simpa [cellText, hi] using hrow

section
variable {w : World σ} {r : PGresult} (hr : World.held (some r) ≤ w.results)
include hr

theorem PQfname_run {i : ℕ} (hi : i < r.data.fnames.length) (h : Heap) :
    (PQfname (some r) i : Eff (World σ) Errors Stop (Option Bytes)) { w with heap := h } =
      (.ok (some (r.data.fnames[i]?.getD [])), { w with heap := h }) := by
  rw [PQfname, readResult_run (w := { w with heap := h }) _ _ hr]
  simp [field, hi]

theorem PQgetvalue_run {i j : ℕ} (hi : i < r.data.tuples.length) (hj : j < r.data.fnames.length) (h : Heap) :
    (PQgetvalue (some r) i j : Eff (World σ) Errors Stop (Option Bytes)) { w with heap := h } =
      (.ok (some (cellText r.data i j)), { w with heap := h }) := by
  rw [PQgetvalue, readResult_run (w := { w with heap := h }) _ _ hr]
  have hlen := r.data.rect _ (List.getElem_mem hi)
  have hj' : j < r.data.tuples[i].length := by omega
  simp [field, cellText, hi, hj']

/-- After the rows `done`: their texts, and a block left behind for each of them that has a cell. -/
def RowsInv (d : ResultData) (f : Bool) (L : Multiset Block) (done : List ℕ) (rows : ArrayList RowSlice 16)
    (h : Heap) : Prop :=
  rows.items.map (fun row => row.cells.map Buf.text) =
      done.map (fun i => (List.range d.fnames.length).map fun j => span (cellText d i j)) ∧
    ∃ K, K.card = (if d.fnames.length = 0 then 0 else done.length) ∧
      Owns f (cellBlocks rows.items + (entry rows.block + (K + L))) h

theorem copyRows_returns (P : Platform) (hP : P.Succeeds) {f : Bool} (L : Multiset Block) :
    Returns (w.Over (Owns f L)) ((List.range r.data.tuples.length).foldlM
      (fun (rows : ArrayList RowSlice 16) i => do
        let row ← copyTexts P (PQgetvalue (some r) i) r.data.fnames.length
        inHeap (orStop .unreachable (rows.append P ⟨row.addr, row.items⟩))) ArrayList.init)
      fun rows => w.Over (RowsInv r.data f L (List.range r.data.tuples.length) rows) := by
  refine returns_conseq (returns_foldlM (fun done rows => w.Over (RowsInv r.data f L done rows)) _ []
    (List.range r.data.tuples.length) ?_ _) ?_ fun _ _ hq => hq
  · intro done i hi rows _ hover
    obtain ⟨h, ⟨ht, K, hK, hh⟩, rfl⟩ := hover
    obtain ⟨row, _, hrow, h₁, ⟨hrt, K', hK', hro⟩, rfl⟩ := copyRow_returns P hP
      (cellBlocks rows.items + (entry rows.block + (K + L))) w (PQgetvalue (some r) i)
      (cellText r.data i) r.data.fnames.length
      (fun j hj h => PQgetvalue_run hr (List.mem_range.mp hi) hj h) _ ⟨h, hh, rfl⟩
    rw [show blocks row.items + (K' + (cellBlocks rows.items + (entry rows.block + (K + L)))) =
      entry rows.block + (blocks row.items + (cellBlocks rows.items + (K' + (K + L)))) by abel] at hro
    obtain ⟨g, h₂, hg, hgi, hgo⟩ := returns_orStop Stop.unreachable
      (ArrayList.append_returns (E := Errors) P hP _ rows ⟨row.addr, row.items⟩) h₁ hro
    refine ⟨g, { w with heap := h₂ }, (bind_ok hrow).trans (inHeap_run hg), h₂, ⟨?_, K' + K, ?_, ?_⟩, rfl⟩
    · simp [hgi, ht, hrt]
    · rw [Multiset.card_add, hK, hK']
      split
      · rfl
      · rw [List.length_append, List.length_singleton, add_comm]
    · rw [hgi, cellBlocks_append_one]
      convert hgo using 1
      abel
  · intro _ hover
    obtain ⟨h, hh, rfl⟩ := hover
    exact ⟨h, ⟨rfl, 0, by simp, by simpa [cellBlocks] using hh⟩, rfl⟩

/-- getResult clears the result and copies every name and cell; all its rows with a cell leave a block. -/
theorem getResult_returns (P : Platform) (hP : P.Succeeds) {f : Bool} (L : Multiset Block)
    (hh : Owns f L w.heap) :
    ∃ q h, getResult P (some r) w =
        (.ok q, { w with heap := h, results := w.results - World.held (some r) }) ∧
      q.columns.items.map Buf.text = r.data.fnames.map span ∧
      q.rows.items.map (fun row => row.cells.map Buf.text) = cellTexts r.data ∧
      ∃ K, K.card = (if r.data.fnames.length = 0 then 0 else r.data.tuples.length) ∧
        Owns f (q.owned + (K + L)) h := by
  obtain ⟨columns, _, hc, h₁, ⟨hct, hco⟩, rfl⟩ := copyTexts_returns P hP L w (PQfname (some r))
    (fun i => r.data.fnames[i]?.getD []) r.data.fnames.length (fun i hi h => PQfname_run hr hi h) w
    ⟨w.heap, hh, rfl⟩
  obtain ⟨rows, _, hrows, h₂, ⟨hrt, K, hK, hro⟩, rfl⟩ := copyRows_returns hr P hP
    (blocks columns.items + (entry columns.block + L)) _ ⟨h₁, hco, rfl⟩
  refine ⟨⟨rows, columns⟩, h₂, ?_, ?_, ?_, K, ?_, ?_⟩
  · unfold getResult
    refine (bind_ok (readResult_run _ _ hr)).trans ((bind_ok (readResult_run _ _ hr)).trans ?_)
    refine (bind_ok hc).trans ((bind_ok hrows).trans ?_)
    have hclear := World.cleared_of_held { w with heap := h₂ } (some r) hr
    exact (bind_ok rfl).trans (congrArg (fun w' => (Outcome.ok _, w')) hclear)
  · rw [hct, map_range_getD r.data.fnames fun name => span (name.getD [])]
    rfl
  · rw [hrt, cellTexts]
    apply List.ext_getElem (by simp)
    intro i h₁ h₂
    have hi : i < r.data.tuples.length := by simpa using h₂
    simpa using rowTexts_eq r.data i hi
  · simpa using hK
  · convert hro using 1
    simp only [QueryResult.owned]
    abel

end

/-! ### However getResult ends -/

section
variable {I : World σ → Prop} (hheap : ∀ w h, I w → I { w with heap := h })
include hheap

theorem inHeap_keeps {α : Type} (m : Eff Heap Errors Stop α) : Keeps I (inHeap m) := keeps_zoom hheap m

theorem copyTexts_keeps (P : Platform) {read : ℕ → Eff (World σ) Errors Stop (Option Bytes)}
    (hread : ∀ i, Keeps I (read i)) (n : ℕ) : Keeps I (copyTexts P read n) :=
  keeps_foldlM (fun _ i => keeps_bind (hread i) fun _ => keeps_bind (inHeap_keeps hheap _) fun _ =>
    inHeap_keeps hheap _) _ _

variable {result : Option PGresult} (hreading : ∀ w, I w → I (w.reading result))
include hreading

omit hheap in
theorem readResult_keeps {α : Type} (null : α) (f : ResultData → α) :
    Keeps I (readResult result null f : Eff (World σ) Errors Stop α) := fun w hw => hreading w hw

theorem copyRows_keeps (P : Platform) (nRows nFields : ℕ) :
    Keeps I ((List.range nRows).foldlM (fun (rows : ArrayList RowSlice 16) i => do
      let row ← copyTexts P (PQgetvalue result i) nFields
      inHeap (orStop .unreachable (rows.append P ⟨row.addr, row.items⟩))) ArrayList.init :
        Eff (World σ) Errors Stop (ArrayList RowSlice 16)) :=
  keeps_foldlM (fun _ _ => keeps_bind (copyTexts_keeps hheap P (fun _ => readResult_keeps hreading _ _) nFields)
    fun _ => inHeap_keeps hheap _) _ _

end

/-- However getResult ends, it has changed only the heap and the record of results. -/
theorem getResult_keeps (P : Platform) (w : World σ) (result : Option PGresult) :
    Keeps (fun w' => ∃ h R m, w' = { w with heap := h, results := R, resultMisuse := m })
      (getResult P result) := by
  have hheap (w' : World σ) (h : Heap)
      (hover : ∃ h R m, w' = { w with heap := h, results := R, resultMisuse := m }) :
      ∃ h' R m, { w' with heap := h } = { w with heap := h', results := R, resultMisuse := m } := by
    obtain ⟨_, R, m, rfl⟩ := hover
    exact ⟨h, R, m, rfl⟩
  have hreading (w' : World σ) (hover : ∃ h R m, w' = { w with heap := h, results := R, resultMisuse := m }) :
      ∃ h R m, w'.reading result = { w with heap := h, results := R, resultMisuse := m } := by
    obtain ⟨h, R, m, rfl⟩ := hover
    exact ⟨h, R, _, rfl⟩
  refine keeps_bind (readResult_keeps hreading _ _) fun _ => keeps_bind (readResult_keeps hreading _ _) fun _ => ?_
  refine keeps_bind (copyTexts_keeps hheap P (fun _ => readResult_keeps hreading _ _) _) fun _ => ?_
  refine keeps_bind (copyRows_keeps hheap hreading P _ _) fun _ => keeps_bind ?_ fun _ => keeps_pure _ _
  intro _ hover
  obtain ⟨h, R, m, rfl⟩ := hover
  exact ⟨h, _, _, rfl⟩

/-- An error return comes before the result is cleared. -/
theorem getResult_err (P : Platform) {w w' : World σ} {result : Option PGresult} {e : Errors}
    (h : getResult P result w = (.err e, w')) : w'.results = w.results := by
  have hheap (w' : World σ) (h : Heap) (hw : w'.results = w.results) : { w' with heap := h }.results = w.results := hw
  have hreading (w' : World σ) (hw : w'.results = w.results) : (w'.reading result).results = w.results := hw
  have hcolumns (n : ℕ) : Keeps (fun w' => w'.results = w.results) (copyTexts P (PQfname result) n) :=
    copyTexts_keeps hheap P (fun _ => readResult_keeps hreading _ _) n
  have hrows := copyRows_keeps hheap hreading P
  rcases bind_eq_err h with h | ⟨nFields, w₁, h₁, h⟩
  · cases h
  have hw₁ : w₁.results = w.results := by
    cases h₁
    rfl
  rcases bind_eq_err h with h | ⟨nRows, w₂, h₂, h⟩
  · cases h
  have hw₂ : w₂.results = w.results := by
    cases h₂
    exact hw₁
  rcases bind_eq_err h with h | ⟨columns, w₃, h₃, h⟩
  · simpa only [h] using hcolumns nFields w₂ hw₂
  have hw₃ : w₃.results = w.results := by
    simpa only [h₃] using hcolumns nFields w₂ hw₂
  rcases bind_eq_err h with h | ⟨rows, w₄, -, h⟩
  · simpa only [h] using hrows nRows nFields w₃ hw₃
  · rcases bind_eq_err h with h | ⟨_, _, -, h⟩
    · cases h
    · cases h

end Psql
