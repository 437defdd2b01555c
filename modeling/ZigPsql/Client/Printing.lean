import ZigPsql.Lib.Lines
import ZigPsql.Client.Contents
import ZigPsql.Postgres.Literals

/-!
# What is printed: psql.printResult and psql.printQueryResult

Both by the text they write. It tells the cells apart only where they hold no
byte that the layout uses.
-/

namespace Psql
open Effect Effect.Eff Text Zig Libpq Lines

variable {σ : Type}

/-- `{s}` of a C pointer. -/
def printed (text : Option Bytes) : Eff (World σ) Errors Stop Bytes :=
  match text with
  | none => halt .nullPointer
  | some t => return span t

def printResult (result : Option PGresult) : Eff (World σ) Errors Stop Bytes := do
  let rows ← PQntuples result
  let columns ← PQnfields result
  (List.range rows).foldlM (fun (out : Bytes) row => do
    let line ← (List.range columns).foldlM (fun (out : Bytes) column => do
      let value ← PQgetvalue result row column
      let text ← printed value
      return out ++ (text ++ ascii " ")) out
    return line ++ ascii "\n") (ascii "Result set:\n")

/-- `{s}` of a slice of strings. -/
def rowText (row : List Bytes) : Bytes := ascii "\x7b " ++ (ascii ", ").intercalate row ++ ascii " \x7d"

def printQueryResult (result : QueryResult) : Bytes :=
  (result.rows.items.flatMap fun row => rowText (row.cells.map Buf.text) ++ ascii "\n") ++
    result.columns.items.flatMap fun column => column.text ++ ascii "\n"

/-! ### Reading what was printed -/

/-- The lines after the first one, by their words. -/
def readPrinted (text : Bytes) : Option (List (List Bytes)) := do
  let lines ← readEnded 10 text
  lines.tail.mapM (readEnded 32)

/-- A row of so many cells. -/
def readRow (columns : ℕ) (line : Bytes) : List Bytes :=
  if columns = 0 then [] else readBetween 44 32 ((line.drop 2).take (line.length - 4))

/-- The last lines are the names of the columns. -/
def readTable (columns : ℕ) (text : Bytes) : Option Contents := do
  let lines ← readEnded 10 text
  return ⟨lines.drop (lines.length - columns), (lines.take (lines.length - columns)).map (readRow columns)⟩

/-! ### printResult -/

theorem foldlM_appends {ι : Type} {w : World σ} {body : Bytes → ι → Eff (World σ) Errors Stop Bytes} {g : ι → Bytes}
    (is : List ι) (hbody : ∀ i ∈ is, ∀ out, body out i w = (.ok (out ++ g i), w)) (out : Bytes) :
    is.foldlM body out w = (.ok (out ++ is.flatMap g), w) := by
  induction is generalizing out with
  | nil => exact congrArg (fun t => (Outcome.ok t, w)) (List.append_nil out).symm
  | cons i rest ih =>
    have hrest := ih (fun j hj => hbody j (List.mem_cons_of_mem _ hj)) (out ++ g i)
    rw [List.foldlM_cons, List.flatMap_cons, ← List.append_assoc]
    exact (bind_ok (hbody i (List.mem_cons_self ..) out)).trans hrest

theorem cellTexts_eq (d : ResultData) :
    cellTexts d = (List.range d.tuples.length).map fun i =>
      (List.range d.fnames.length).map fun j => span (cellText d i j) := by
  apply List.ext_getElem (by simp [cellTexts])
  intro i h₁ h₂
  have hi : i < d.tuples.length := by simpa [cellTexts] using h₁
  simpa [cellTexts] using (rowTexts_eq d i hi).symm

/-- Lines of words after a first line; the result is read and not changed. -/
theorem printResult_run {w : World σ} {r : PGresult} (hr : World.held (some r) ≤ w.results) :
    printResult (some r) w = (.ok (ended 10 (ascii "Result set:" :: (cellTexts r.data).map (ended 32))), w) := by
  have hcell (i : ℕ) (hi : i ∈ List.range r.data.tuples.length) (j : ℕ) (hj : j ∈ List.range r.data.fnames.length)
      (out : Bytes) :
      (do let value ← PQgetvalue (some r) i j
          let text ← printed value
          return out ++ (text ++ ascii " ") : Eff (World σ) Errors Stop Bytes) w =
        (.ok (out ++ (span (cellText r.data i j) ++ [32])), w) :=
    bind_ok (PQgetvalue_run hr (List.mem_range.mp hi) (List.mem_range.mp hj) w.heap)
  have hrow (i : ℕ) (hi : i ∈ List.range r.data.tuples.length) (out : Bytes) :
      (do let line ← (List.range r.data.fnames.length).foldlM (fun (out : Bytes) column => do
            let value ← PQgetvalue (some r) i column
            let text ← printed value
            return out ++ (text ++ ascii " ")) out
          return line ++ ascii "\n" : Eff (World σ) Errors Stop Bytes) w =
        (.ok (out ++
          (ended 32 ((List.range r.data.fnames.length).map fun j => span (cellText r.data i j)) ++ [10])), w) := by
    refine (bind_ok (foldlM_appends _ (hcell i hi) out)).trans ?_
    rw [ended, List.flatMap_map, ← List.append_assoc]
    rfl
  unfold printResult
  refine (bind_ok (readResult_run _ _ hr)).trans ((bind_ok (readResult_run _ _ hr)).trans ?_)
  refine (foldlM_appends _ hrow _).trans ?_
  rw [cellTexts_eq, ended, List.flatMap_cons, List.map_map, List.flatMap_map]
  rfl

theorem readPrinted_iff (rows : List (List Bytes)) :
    readPrinted (ended 10 (ascii "Result set:" :: rows.map (ended 32))) = some rows ↔
      ∀ row ∈ rows, ∀ cell ∈ row, 10 ∉ cell ∧ 32 ∉ cell := by
  constructor
  · intro h row hrow cell hcell
    obtain ⟨lines, hlines, hwords⟩ := Option.bind_eq_some_iff.mp h
    obtain ⟨line, hline, hread⟩ := Postgres.mem_of_mapM_some hwords row hrow
    obtain ⟨hspace, hmem⟩ := readEnded_parts hread cell hcell
    have hnewline := (readEnded_parts hlines line (List.mem_of_mem_tail hline)).1
    exact ⟨fun h => hnewline (hmem 10 h), hspace⟩
  · intro h
    have hlines : ∀ line ∈ ascii "Result set:" :: rows.map (ended 32), 10 ∉ line := by
      intro line hline
      rcases List.mem_cons.mp hline with rfl | hline
      · decide
      · obtain ⟨row, hrow, rfl⟩ := List.mem_map.mp hline
        intro hmem
        obtain ⟨cell, hcell, hin⟩ := List.mem_flatMap.mp hmem
        rcases List.mem_append.mp hin with hin | hin
        · exact (h row hrow cell hcell).1 hin
        · exact absurd hin (by decide)
    rw [readPrinted, readEnded_ended hlines]
    simpa using Postgres.mapM_map_some rows fun row hrow => readEnded_ended fun cell hcell => (h row hrow cell hcell).2

/-- The cells can be read back exactly where none has a space or a newline in it. -/
theorem printResult_reads_iff (w : World σ) (r : PGresult) (hr : World.held (some r) ≤ w.results) :
    ∃ text, printResult (some r) w = (.ok text, w) ∧
      (readPrinted text = some (cellTexts r.data) ↔ ∀ row ∈ cellTexts r.data, ∀ cell ∈ row, 10 ∉ cell ∧ 32 ∉ cell) :=
  ⟨_, printResult_run hr, readPrinted_iff (cellTexts r.data)⟩

theorem printResult_reads_twoMembers :
    ∃ text, printResult (some twoMembers) holdingOneCell = (.ok text, holdingOneCell) ∧
      readPrinted text = some [[ascii "1", ascii "Ann"], [ascii "2", []]] := by
  obtain ⟨text, hrun, hiff⟩ := printResult_reads_iff holdingOneCell twoMembers (le_refl {0})
  exact ⟨text, hrun, hiff.mpr (by decide)⟩

/-! ### printQueryResult -/

theorem printQueryResult_eq (q : QueryResult) :
    printQueryResult q = ended 10 (q.contents.rows.map rowText ++ q.contents.columns) := by
  simp only [printQueryResult, QueryResult.contents, ended, List.flatMap_append, List.flatMap_map]
  rfl

theorem readRow_rowText {row : List Bytes} (h : ∀ cell ∈ row, ¬ [44, 32] <:+: cell) :
    readRow row.length (rowText row) = row := by
  have hinner : ((rowText row).drop 2).take ((rowText row).length - 4) = [44, 32].intercalate row := by
    have hlen : (rowText row).length - 4 = ([44, 32].intercalate row).length := by
      simp only [rowText, List.length_append]
      change 2 + ([44, 32].intercalate row).length + 2 - 4 = _
      omega
    rw [hlen]
    exact List.take_left
  rw [readRow, hinner]
  split
  next hnone => exact (List.length_eq_zero_iff.mp hnone).symm
  next hsome => exact readBetween_intercalate (by decide) (fun h => hsome (congrArg List.length h)) h

theorem readRow_parts {columns : ℕ} {line cell : Bytes} (h : cell ∈ readRow columns line) :
    ¬ [44, 32] <:+: cell ∧ ∀ b ∈ cell, b ∈ line := by
  rw [readRow] at h
  split at h
  next => cases h
  next =>
    obtain ⟨hfree, hmem⟩ := readBetween_parts _ cell h
    exact ⟨hfree, fun b hb => List.mem_of_mem_drop (List.mem_of_mem_take (hmem b hb))⟩

theorem newline_rowText {row : List Bytes} (h : ∀ cell ∈ row, 10 ∉ cell) : 10 ∉ rowText row := by
  intro hmem
  rcases List.mem_append.mp hmem with hmem | hclose
  · rcases List.mem_append.mp hmem with hopen | hmem
    · exact absurd hopen (by decide)
    · rcases mem_of_mem_intercalate hmem with hcomma | ⟨cell, hcell, hin⟩
      · exact absurd hcomma (by decide)
      · exact h cell hcell hin
  · exact absurd hclose (by decide)

theorem readTable_iff (c : Contents) (hrect : ∀ row ∈ c.rows, row.length = c.columns.length) :
    readTable c.columns.length (ended 10 (c.rows.map rowText ++ c.columns)) = some c ↔
      (∀ name ∈ c.columns, 10 ∉ name) ∧ ∀ row ∈ c.rows, ∀ cell ∈ row, 10 ∉ cell ∧ ¬ [44, 32] <:+: cell := by
  constructor
  · intro h
    obtain ⟨lines, hlines, hc⟩ := Option.bind_eq_some_iff.mp h
    obtain ⟨hnames, hrows⟩ := Contents.mk.inj (Option.some.inj hc)
    refine ⟨fun name hname => ?_, fun row hrow cell hcell => ?_⟩
    · rw [← hnames] at hname
      exact (readEnded_parts hlines name (List.mem_of_mem_drop hname)).1
    · rw [← hrows] at hrow
      obtain ⟨line, hline, rfl⟩ := List.mem_map.mp hrow
      obtain ⟨hfree, hmem⟩ := readRow_parts hcell
      have hnewline := (readEnded_parts hlines line (List.mem_of_mem_take hline)).1
      exact ⟨fun h => hnewline (hmem 10 h), hfree⟩
  · intro h
    obtain ⟨hnames, hcells⟩ := h
    have hlines : ∀ line ∈ c.rows.map rowText ++ c.columns, 10 ∉ line := by
      intro line hline
      rcases List.mem_append.mp hline with hline | hline
      · obtain ⟨row, hrow, rfl⟩ := List.mem_map.mp hline
        exact newline_rowText fun cell hcell => (hcells row hrow cell hcell).1
      · exact hnames line hline
    have hrows : (c.rows.map rowText).map (readRow c.columns.length) = c.rows := by
      rw [List.map_map]
      conv => rhs; rw [← List.map_id c.rows]
      refine List.map_congr_left fun row hrow => ?_
      rw [Function.comp_apply, ← hrect row hrow]
      exact readRow_rowText fun cell hcell => (hcells row hrow cell hcell).2
    have hsplit : (c.rows.map rowText ++ c.columns).length - c.columns.length = (c.rows.map rowText).length := by
      rw [List.length_append, Nat.add_sub_cancel]
    rw [readTable, readEnded_ended hlines]
    change some (Contents.mk _ _) = _
    rw [hsplit, List.drop_left, List.take_left, hrows]

/-- What getResult copies can be read back from its print exactly where no name and no cell has a newline
in it, and no cell what stands between two cells. -/
theorem printQueryResult_reads_iff (P : Platform) (w : World σ) (r : PGresult) (hr : World.held (some r) ≤ w.results) :
    (∀ q w', getResult P (some r) w = (.ok q, w') →
      (readTable r.data.fnames.length (printQueryResult q) = some ⟨r.data.fnames.map span, cellTexts r.data⟩ ↔
        (∀ name ∈ r.data.fnames, 10 ∉ span name) ∧
          ∀ row ∈ cellTexts r.data, ∀ cell ∈ row, 10 ∉ cell ∧ ¬ ascii ", " <:+: cell)) ∧
    (P.Succeeds → ∃ q w', getResult P (some r) w = (.ok q, w')) := by
  constructor
  · intro q w' hq
    have hrect : ∀ row ∈ cellTexts r.data, row.length = (r.data.fnames.map span).length := by
      intro row hrow
      obtain ⟨tuple, htuple, rfl⟩ := List.mem_map.mp hrow
      rw [List.length_map, List.length_map, r.data.rect tuple htuple]
    have hiff := readTable_iff ⟨r.data.fnames.map span, cellTexts r.data⟩ hrect
    rw [List.length_map, List.forall_mem_map] at hiff
    rw [printQueryResult_eq, getResult_contents P r w trivial q w' hq]
    exact hiff
  · intro hP
    obtain ⟨q, h, hq, -⟩ := getResult_returns hr P hP w.heap.ledger ⟨rfl, rfl⟩
    exact ⟨q, _, hq⟩

theorem printQueryResult_reads_twoMembers :
    ∃ q w', getResult Platform.simple (some twoMembers) holdingOneCell = (.ok q, w') ∧
      readTable 2 (printQueryResult q) =
        some ⟨[ascii "id", ascii "name"], [[ascii "1", ascii "Ann"], [ascii "2", []]]⟩ := by
  obtain ⟨hiff, hreturns⟩ := printQueryResult_reads_iff Platform.simple holdingOneCell twoMembers (le_refl {0})
  obtain ⟨q, w', hq⟩ := hreturns Platform.simple_succeeds
  exact ⟨q, w', hq, (hiff q w' hq).mpr (by decide)⟩

end Psql
