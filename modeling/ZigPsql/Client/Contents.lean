import ZigPsql.Client.Accounting

/-!
# What a queryResult tells of its PGresult

A cell is a slice of bytes, for an SQL NULL the empty one. But for that the
table that was asked for can be read off the copy.
-/

namespace Psql
open Effect Effect.Eff Text Zig Libpq

variable {σ : Type}

/-- The column names and the cells of each row. -/
structure Contents where
  columns : List Bytes
  rows : List (List Bytes)
  deriving DecidableEq

def QueryResult.contents (q : QueryResult) : Contents :=
  ⟨q.columns.items.map Buf.text, q.rows.items.map fun row => row.cells.map Buf.text⟩

/-- The table of a result, with the empty text for NULL. -/
def shown (d : ResultData) : Contents := ⟨d.fnames, d.tuples.map fun tuple => tuple.map fun cell => cell.getD []⟩

def Contents.noNul (c : Contents) : Prop := (∀ name ∈ c.columns, 0 ∉ name) ∧ ∀ row ∈ c.rows, ∀ cell ∈ row, 0 ∉ cell

/-! ### What the loops copy, if they return -/

theorem printC_yields (P : Platform) (value : Option Bytes) :
    Yields (fun _ => True) (printC P value) fun b _ => ∃ t, value = some t ∧ b.text = span t := by
  intro h _ b h' hb
  cases value with
  | none => cases hb
  | some t => exact ⟨t, rfl, yields_of_tries (allocPrint_tries P (span t)) h trivial b h' hb⟩

theorem append_yields {α : Type} (P : Platform) (l : ArrayList α 16) (x : α) :
    Yields (fun _ => True) (inHeap (orStop .unreachable (l.append P x)) : Eff (World σ) Errors Stop (ArrayList α 16))
      fun g _ => g.items = l.items ++ [x] :=
  yields_zoom (yields_orStop _ (yields_of_tries (ArrayList.appendSlice_tries P l [x])))

theorem copyTexts_yields (P : Platform) (read : ℕ → Eff (World σ) Errors Stop (Option Bytes)) (texts : ℕ → Bytes)
    (hread : ∀ i, Yields (fun _ => True) (read i) fun value _ => ∀ t, value = some t → t = texts i) (n : ℕ) :
    Yields (fun _ => True) (copyTexts P read n) fun l _ =>
      l.items.map Buf.text = (List.range n).map fun i => span (texts i) := by
  have hloop := yields_foldlM (E := Errors) (C := Stop)
    (fun done (l : ArrayList Buf 16) (_ : World σ) => l.items.map Buf.text = done.map fun i => span (texts i))
    (fun list i => do
      let value ← read i
      let valStr ← inHeap (printC P value)
      inHeap (orStop .unreachable (list.append P valStr))) ?_ [] (List.range n) ArrayList.init
  · exact fun w _ => hloop w rfl
  intro done i l w hl g w₃ hrun
  obtain ⟨value, w₁, hvalue, hrest⟩ := bind_eq_ok hrun
  obtain ⟨valStr, w₂, hprint, happend⟩ := bind_eq_ok hrest
  obtain ⟨t, ht, hcopy⟩ := yields_zoom (printC_yields P value) w₁ trivial valStr w₂ hprint
  rw [append_yields P l valStr w₂ trivial g w₃ happend, List.map_append, List.map_append, hl, List.map_singleton,
    List.map_singleton, hcopy, hread i w trivial value w₁ hvalue t ht]

theorem readResult_yields {α : Type} (result : Option PGresult) (null : α) (f : ResultData → α) :
    Yields (fun _ => True) (readResult result null f : Eff (World σ) Errors Stop α) fun a _ =>
      a = field result null f := by
  intro w _ a w' ha
  cases ha
  rfl

section
variable (P : Platform) (r : PGresult)

theorem columns_yields (n : ℕ) :
    Yields (fun _ => True) (copyTexts P (PQfname (some r)) n : Eff (World σ) Errors Stop (ArrayList Buf 16)) fun l _ =>
      l.items.map Buf.text = (List.range n).map fun i => span (r.data.fnames[i]?.getD []) := by
  apply copyTexts_yields
  intro i w _ value w' hvalue t ht
  have hfield : value = r.data.fnames[i]? := readResult_yields _ _ _ w trivial value w' hvalue
  rw [← hfield, ht, Option.getD_some]

theorem row_yields (i n : ℕ) :
    Yields (fun _ => True) (copyTexts P (PQgetvalue (some r) i) n : Eff (World σ) Errors Stop (ArrayList Buf 16))
      fun l _ => l.items.map Buf.text = (List.range n).map fun j => span (cellText r.data i j) := by
  apply copyTexts_yields
  intro j w _ value w' hvalue t ht
  have hfield : value = (r.data.tuples[i]?.bind fun tuple => tuple[j]?).map fun cell => cell.getD [] :=
    readResult_yields _ _ _ w trivial value w' hvalue
  obtain ⟨cell, hcell, rfl⟩ := Option.map_eq_some_iff.mp (hfield.symm.trans ht)
  rw [cellText, hcell, Option.getD_some]

theorem rows_yields (nRows nFields : ℕ) :
    Yields (fun _ => True) ((List.range nRows).foldlM (fun (rows : ArrayList RowSlice 16) i => do
        let row ← copyTexts P (PQgetvalue (some r) i) nFields
        inHeap (orStop .unreachable (rows.append P ⟨row.addr, row.items⟩))) ArrayList.init :
          Eff (World σ) Errors Stop (ArrayList RowSlice 16))
      fun rows _ => rows.items.map (fun row => row.cells.map Buf.text) =
        (List.range nRows).map fun i => (List.range nFields).map fun j => span (cellText r.data i j) := by
  have hloop := yields_foldlM (E := Errors) (C := Stop)
    (fun done (rows : ArrayList RowSlice 16) (_ : World σ) => rows.items.map (fun row => row.cells.map Buf.text) =
      done.map fun i => (List.range nFields).map fun j => span (cellText r.data i j))
    (fun rows i => do
      let row ← copyTexts P (PQgetvalue (some r) i) nFields
      inHeap (orStop .unreachable (rows.append P ⟨row.addr, row.items⟩))) ?_ [] (List.range nRows) ArrayList.init
  · exact fun w _ => hloop w rfl
  intro done i rows w hrows g w₂ hrun
  obtain ⟨row, w₁, hrow, happend⟩ := bind_eq_ok hrun
  have hcells := row_yields P r i nFields w trivial row w₁ hrow
  rw [append_yields P rows _ w₁ trivial g w₂ happend, List.map_append, List.map_append, hrows, List.map_singleton,
    List.map_singleton, hcells]

theorem getResult_contents :
    Yields (fun _ => True) (getResult P (some r) : Eff (World σ) Errors Stop QueryResult) fun q _ =>
      q.contents = ⟨r.data.fnames.map span, cellTexts r.data⟩ := by
  intro w _ q w' hq
  obtain ⟨nFields, w₁, hFields, hq⟩ := bind_eq_ok hq
  obtain ⟨nRows, w₂, hRows, hq⟩ := bind_eq_ok hq
  obtain ⟨columns, w₃, hcolumns, hq⟩ := bind_eq_ok hq
  obtain ⟨rows, w₄, hrows, hq⟩ := bind_eq_ok hq
  obtain ⟨_, w₅, -, hlast⟩ := bind_eq_ok hq
  cases hFields
  cases hRows
  cases hlast
  have hc := columns_yields P r _ _ trivial columns w₃ hcolumns
  have hr := rows_yields P r _ _ w₃ trivial rows w₄ hrows
  rw [QueryResult.contents, hc, hr]
  congr 1
  · exact map_range_getD r.data.fnames fun name => span (name.getD [])
  · apply List.ext_getElem (by simp [field, cellTexts])
    intro i h₁ h₂
    have hi : i < r.data.tuples.length := by simpa [cellTexts] using h₂
    simpa [cellTexts, field] using rowTexts_eq r.data i hi

end

/-! ### Recovering the table -/

theorem shown_noNul (d : ResultData) (h : (shown d).noNul) : shown d = ⟨d.fnames.map span, cellTexts d⟩ := by
  obtain ⟨hnames, hcells⟩ := h
  have hn : d.fnames.map span = d.fnames := by
    refine (List.map_congr_left fun name hmem => ?_).trans (List.map_id _)
    exact span_of_noNul name (hnames name hmem)
  have hc : cellTexts d = d.tuples.map fun tuple => tuple.map fun cell => cell.getD [] := by
    refine List.map_congr_left fun tuple htuple => List.map_congr_left fun cell hcell => ?_
    exact span_of_noNul _ (hcells _ (List.mem_map_of_mem htuple) _ (List.mem_map_of_mem hcell))
  rw [shown, hn, hc]

/-- getResult makes the same of two results that differ in nothing but which empty cells are NULL. -/
theorem getResult_congr (P : Platform) (r₁ r₂ : PGresult) (hid : r₁.id = r₂.id) (hshown : shown r₁.data = shown r₂.data) :
    (getResult P (some r₁) : Eff (World σ) Errors Stop QueryResult) = getResult P (some r₂) := by
  obtain ⟨hnames, hrows⟩ := Contents.mk.inj hshown
  have hheld : World.held (some r₁) = World.held (some r₂) := congrArg (fun i => ({i} : Multiset ℕ)) hid
  have hreading (w : World σ) : w.reading (some r₁) = w.reading (some r₂) := by
    rw [World.reading, hheld, ← World.reading]
  have hread {α : Type} (null : α) (f : ResultData → α) (h : f r₁.data = f r₂.data) :
      (readResult (some r₁) null f : Eff (World σ) Errors Stop α) = readResult (some r₂) null f := by
    funext w
    simp only [readResult, field, hreading, h]
  have hfields : (PQnfields (some r₁) : Eff (World σ) Errors Stop ℕ) = PQnfields (some r₂) :=
    hread _ _ (congrArg List.length hnames)
  have htuples : (PQntuples (some r₁) : Eff (World σ) Errors Stop ℕ) = PQntuples (some r₂) :=
    hread _ _ (by simpa using congrArg List.length hrows)
  have hname : (PQfname (some r₁) : ℕ → Eff (World σ) Errors Stop (Option Bytes)) = PQfname (some r₂) := by
    funext i
    exact hread _ _ (by rw [hnames])
  have hcell (d : ResultData) (i j : ℕ) : ((d.tuples[i]?.bind fun tuple => tuple[j]?).map fun cell => cell.getD []) =
      (shown d).rows[i]?.bind fun row => row[j]? := by
    cases hi : d.tuples[i]? <;> simp [shown, hi]
  have hvalue : (PQgetvalue (some r₁) : ℕ → ℕ → Eff (World σ) Errors Stop (Option Bytes)) = PQgetvalue (some r₂) := by
    funext i j
    apply hread
    rw [hcell, hcell, hshown]
  have hclear : (PQclear (some r₁) : Eff (World σ) Errors Stop Unit) = PQclear (some r₂) := by
    funext w
    simp only [PQclear, modify_run, World.cleared, hreading, hheld]
  simp only [getResult, hfields, htuples, hname, hvalue, hclear]

/-- What getResult returns is the table, each of its rows as wide as it has columns; the copies of two
results differ where their tables do. -/
theorem getResult_recovers (P : Platform) (w₁ w₂ : World σ) (r₁ r₂ : PGresult) (h₁ : (shown r₁.data).noNul)
    (h₂ : (shown r₂.data).noNul) (hr : World.held (some r₁) ≤ w₁.results) :
    (∀ q w, getResult P (some r₁) w₁ = (.ok q, w) →
      q.contents = shown r₁.data ∧ ∀ row ∈ q.rows.items, row.cells.length = q.columns.items.length) ∧
    (∀ q₁ w₁' q₂ w₂', getResult P (some r₁) w₁ = (.ok q₁, w₁') → getResult P (some r₂) w₂ = (.ok q₂, w₂') →
      (q₁.contents = q₂.contents ↔ shown r₁.data = shown r₂.data)) ∧
    (P.Succeeds → ∃ q w, getResult P (some r₁) w₁ = (.ok q, w)) := by
  have hcontents (r : PGresult) (h : (shown r.data).noNul) (w : World σ) (q : QueryResult) (w' : World σ)
      (hq : getResult P (some r) w = (.ok q, w')) : q.contents = shown r.data :=
    (getResult_contents P r w trivial q w' hq).trans (shown_noNul r.data h).symm
  refine ⟨fun q w hq => ?_, fun q₁ w₁' q₂ w₂' hq₁ hq₂ => ?_, fun hP => ?_⟩
  · have hc := hcontents r₁ h₁ w₁ q w hq
    obtain ⟨hnames, hrows⟩ := Contents.mk.inj hc
    refine ⟨hc, fun row hrow => ?_⟩
    have hmem : row.cells.map Buf.text ∈ r₁.data.tuples.map fun tuple => tuple.map fun cell => cell.getD [] :=
      hrows ▸ List.mem_map_of_mem hrow
    obtain ⟨tuple, htuple, hcells⟩ := List.mem_map.mp hmem
    have hlen := congrArg List.length hcells
    have hwidth := congrArg List.length hnames
    have hrect := r₁.data.rect tuple htuple
    simp only [List.length_map] at hlen hwidth
    omega
  · rw [hcontents r₁ h₁ w₁ q₁ w₁' hq₁, hcontents r₂ h₂ w₂ q₂ w₂' hq₂]
  · obtain ⟨q, h, hq, -⟩ := getResult_returns hr P hP w₁.heap.ledger ⟨rfl, rfl⟩
    exact ⟨q, _, hq⟩

/-- Two members, one of them without a name. -/
def twoMembers : PGresult :=
  ⟨0, ⟨.tuplesOk, none, [ascii "id", ascii "name"],
    [[some (ascii "1"), some (ascii "Ann")], [some (ascii "2"), none]], by decide⟩⟩

/-- The same rows in the other order. -/
def turnedMembers : PGresult :=
  ⟨0, ⟨.tuplesOk, none, [ascii "id", ascii "name"],
    [[some (ascii "2"), none], [some (ascii "1"), some (ascii "Ann")]], by decide⟩⟩

theorem getResult_recovers_twoMembers :
    ∃ q₁ w₁ q₂ w₂, getResult Platform.simple (some twoMembers) holdingOneCell = (.ok q₁, w₁) ∧
      getResult Platform.simple (some turnedMembers) holdingOneCell = (.ok q₂, w₂) ∧
      q₁.contents = ⟨[ascii "id", ascii "name"], [[ascii "1", ascii "Ann"], [ascii "2", []]]⟩ ∧
      q₁.contents ≠ q₂.contents := by
  have hone : (shown twoMembers.data).noNul := ⟨by decide, by decide⟩
  have hother : (shown turnedMembers.data).noNul := ⟨by decide, by decide⟩
  obtain ⟨htable, hdiffer, hreturns⟩ := getResult_recovers Platform.simple holdingOneCell holdingOneCell twoMembers
    turnedMembers hone hother (le_refl {0})
  obtain ⟨-, -, hreturns'⟩ := getResult_recovers Platform.simple holdingOneCell holdingOneCell turnedMembers
    twoMembers hother hone (le_refl {0})
  obtain ⟨q₁, w₁, hq₁⟩ := hreturns Platform.simple_succeeds
  obtain ⟨q₂, w₂, hq₂⟩ := hreturns' Platform.simple_succeeds
  refine ⟨q₁, w₁, q₂, w₂, hq₁, hq₂, (htable q₁ w₁ hq₁).1, ?_⟩
  rw [ne_eq, hdiffer q₁ w₁ q₂ w₂ hq₁ hq₂]
  decide

def nullCell : PGresult :=
  ⟨0, ⟨.tuplesOk, none, [ascii "name"], [[none]], by decide⟩⟩

def emptyCell : PGresult :=
  ⟨0, ⟨.tuplesOk, none, [ascii "name"], [[some []]], by decide⟩⟩

theorem getResult_null_empty :
    nullCell.data.tuples ≠ emptyCell.data.tuples ∧
      ∃ q w, getResult Platform.simple (some nullCell) holdingOneCell = (.ok q, w) ∧
        getResult Platform.simple (some emptyCell) holdingOneCell = (.ok q, w) := by
  obtain ⟨q, h, hq, -⟩ := getResult_returns (w := holdingOneCell) (r := nullCell) (le_refl {0}) Platform.simple
    Platform.simple_succeeds 0 ⟨rfl, rfl⟩
  refine ⟨by decide, q, _, hq, ?_⟩
  rw [← getResult_congr Platform.simple nullCell emptyCell rfl rfl]
  exact hq

end Psql
