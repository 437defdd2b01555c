import ZigPsql.Client.Runs

/-!
# What libpq reads from the pointers it is handed

No text the wrapper builds has a terminator of its own; the zero byte that ends
the scan, if any, is in the unused end of the last page.
-/

namespace Psql
open Effect Effect.Eff Text Zig Libpq

variable {σ : Type}

/-- A call that builds a text and hands over its pointer. -/
inductive Site where
  | init (connectionString : ConnectionParams)
  | select (table : Bytes)
  | insert (table values : Bytes)
  | selectJoin (mainTable joinTable joinValue : Bytes) (columns : Option Bytes)
  | createTableFor (T : TypeArg) (fields : List StructField) (isStruct : T.info = .struct fields)

namespace Site

def run (P : Platform) (srv : Server σ) (self : Self) (w : World σ) : Site → World σ
  | .init connectionString => (Psql.init P srv connectionString w).2
  | .select table => (Psql.select P srv self table w).2
  | .insert table values => (Psql.insert P srv self table values w).2
  | .selectJoin mainTable joinTable joinValue columns =>
    (Psql.selectJoin P srv self mainTable joinTable joinValue columns w).2
  | .createTableFor T _ _ => (Psql.createTableFor P srv self T w).2

def text : Site → Bytes
  | .init connectionString => connectionText connectionString
  | .select table => selectQuery table
  | .insert table values => insertQuery table values
  | .selectJoin mainTable joinTable joinValue columns => selectJoinQuery mainTable joinTable joinValue columns
  | .createTableFor T fields _ => createTableQuery T.typeName fields

def args : Site → List Bytes
  | .init cs => [cs.database, cs.user, cs.password, cs.host]
  | .select table => [table]
  | .insert table values => [table, values]
  | .selectJoin mainTable joinTable joinValue columns => mainTable :: joinTable :: joinValue :: columns.toList
  | .createTableFor T fields _ => T.typeName :: fields.map StructField.name

/-- The buffers whose pointers the call hands to libpq. -/
def handed (P : Platform) (srv : Server σ) (self : Self) (w : World σ) (site : Site) : List Buf :=
  (site.run P srv self w).handed.drop w.handed.length

theorem handed_eq (P : Platform) (srv : Server σ) (self : Self) (w : World σ) (site : Site) :
    (¬ P.Succeeds ∧ site.handed P srv self w = []) ∨
      ∃ b, b.text = site.text ∧ site.handed P srv self w = [b] := by
  cases site with
  | init cs =>
    rcases init_run P srv w cs with ⟨hP, e, h, he⟩ | ⟨b, hb, h, hrun⟩
    · exact .inl ⟨hP, by simp [handed, run, he]⟩
    · refine .inr ⟨b, hb, ?_⟩
      have hhanded : (Psql.init P srv cs w).2.handed = w.handed ++ [b] := by
        rw [hrun]
        split <;> rfl
      simp [handed, run, hhanded]
  | select table => simpa only [handed, run, text] using handed_of_queried (select_queried P srv self w table)
  | insert table values =>
    simpa only [handed, run, text] using handed_of_queried (insert_queried P srv self w table values)
  | selectJoin mainTable joinTable joinValue columns =>
    simpa only [handed, run, text] using
      handed_of_queried (selectJoin_queried P srv self w mainTable joinTable joinValue columns)
  | createTableFor T fields hT =>
    simpa only [handed, run, text] using handed_of_queried (createTableFor_queried P srv self w T fields hT)

theorem span_noNul (t : Bytes) : 0 ∉ span t := by
  intro hmem
  exact absurd (List.all_eq_true.mp List.all_takeWhile 0 hmem) (by decide)

theorem portText_noNul (port : UInt16) : 0 ∉ portText port := by
  intro hmem
  exact absurd (decimal_isDigit _ 0 hmem) (by decide)

theorem text_noNul (site : Site) (h : ∀ a ∈ site.args, 0 ∉ a) : 0 ∉ site.text := by
  cases site with
  | init cs =>
    simp only [args, List.mem_cons, List.not_mem_nil, or_false, forall_eq_or_imp, forall_eq] at h
    obtain ⟨hd, hu, hp, hh⟩ := h
    have hport := portText_noNul cs.port
    simp only [text, connectionText, connectionParts, List.flatten_cons, List.flatten_nil, List.mem_append,
      List.append_nil, hd, hu, hp, hh, hport, or_false]
    decide
  | select table =>
    have hs := span_noNul table
    simp only [text, selectQuery, List.mem_append, hs, or_false]
    decide
  | insert table values =>
    simp only [args, List.mem_cons, List.not_mem_nil, or_false, forall_eq_or_imp, forall_eq] at h
    obtain ⟨ht, hv⟩ := h
    simp only [text, insertQuery, valuesPrefix, List.mem_append, ht, hv, or_false]
    decide
  | selectJoin mainTable joinTable joinValue columns =>
    simp only [args, List.mem_cons, forall_eq_or_imp] at h
    obtain ⟨hm, hj, hv, hc⟩ := h
    have hcols : 0 ∉ columns.getD (ascii "*") := by
      cases columns with
      | none => decide
      | some c => exact hc c (by simp)
    simp only [text, selectJoinQuery, List.mem_append, hm, hj, hv, hcols, or_false]
    decide
  | createTableFor T fields hT =>
    simp only [args, List.mem_cons, List.mem_map, forall_eq_or_imp, forall_exists_index, and_imp,
      forall_apply_eq_imp_iff₂] at h
    exact createTableQuery_noNul (afterLastDot_noNul _ h.1) h.2

/-- What is built is what is read unless the text fills its pages; then, once it is handed over,
the scan leaves its block. While memory lasts one text is handed over. -/
theorem handed_read_iff (P : Platform) (srv : Server σ) (self : Self) (w : World σ) (site : Site)
    (hargs : ∀ a ∈ site.args, 0 ∉ a) :
    (¬ P.pageSize ∣ site.text.length →
      ∀ b ∈ site.handed P srv self w, scanZ (b.memory P) = some site.text) ∧
    (P.Succeeds → (∃ b, site.handed P srv self w = [b]) ∧
      ((∀ b ∈ site.handed P srv self w, scanZ (b.memory P) = some site.text) ↔ ¬ P.pageSize ∣ site.text.length)) := by
  have htext := text_noNul site hargs
  rcases handed_eq P srv self w site with ⟨hP, hnone⟩ | ⟨b, hb, hone⟩
  · exact ⟨fun _ b hmem => by simp [hnone] at hmem, fun h => absurd h hP⟩
  · have hiff : (∀ b ∈ site.handed P srv self w, scanZ (b.memory P) = some site.text) ↔
        ¬ P.pageSize ∣ site.text.length := by
      rw [hone, List.forall_mem_singleton, ← hb, scanZ_memory_iff P b (hb ▸ htext)]
    exact ⟨hiff.mpr, fun _ => ⟨⟨b, hone⟩, hiff⟩⟩

theorem handed_read_users :
    ∃ b, (Site.select (ascii "users")).handed Platform.simple scripted testSelf (connected ⟨none, true⟩) = [b] ∧
      scanZ (b.memory Platform.simple) = some (ascii "SELECT * FROM users") := by
  refine ⟨_, rfl, ?_⟩
  exact (handed_read_iff Platform.simple scripted testSelf (connected ⟨none, true⟩) (.select (ascii "users"))
    (by decide)).1 (by decide) _ (List.mem_singleton.mpr rfl)

theorem insertQuery_length (table values : Bytes) :
    (insertQuery table values).length = table.length + values.length + 22 := by
  simp only [insertQuery, valuesPrefix, List.length_append, show (ascii "INSERT INTO ").length = 12 from rfl,
    show (ascii " VALUES (").length = 9 from rfl, show (ascii ")").length = 1 from rfl]
  omega

def pageLong : Site := .insert (ascii "t") (List.replicate 4073 55)

theorem handed_pageLong : (∀ a ∈ pageLong.args, 0 ∉ a) ∧
    ¬ ∀ b ∈ pageLong.handed Platform.simple scripted testSelf (connected ⟨none, true⟩),
      scanZ (b.memory Platform.simple) = some pageLong.text := by
  have hargs : ∀ a ∈ pageLong.args, 0 ∉ a := by
    intro a ha
    simp only [pageLong, args, List.mem_cons, List.not_mem_nil, or_false] at ha
    rcases ha with rfl | rfl
    · decide
    · exact fun h => absurd (List.eq_of_mem_replicate h) (by decide)
  refine ⟨hargs, fun h => ?_⟩
  have hlen : pageLong.text.length = 4096 := by
    refine (insertQuery_length _ _).trans ?_
    rw [List.length_replicate]
    rfl
  rcases handed_eq Platform.simple scripted testSelf (connected ⟨none, true⟩) pageLong with
    ⟨hP, -⟩ | ⟨b, hb, hone⟩
  · exact hP Platform.simple_succeeds
  · have hread := h b (by simp [hone])
    rw [← hb, scanZ_memory_iff Platform.simple b (hb ▸ text_noNul pageLong hargs), hb, hlen] at hread
    exact hread (dvd_refl 4096)

end Site
end Psql
