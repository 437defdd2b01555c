import ZigPsql.Client.CStrings
import ZigPsql.Client.Schema
import ZigPsql.Postgres.Words
import Mathlib.Data.List.Forall2

/-!
# What the statement for a struct says

The names of a struct go into the statement as they are. A statement that reads
as the struct has names that are words of SQL, and with such names it does.
-/

namespace Psql
open Effect Text Zig Libpq Postgres Scanner

variable {σ : Type} {standard : Bool}

/-- What @typeName prints for the type `own` of the module or the container `path`. -/
def qualified (path : Option Bytes) (own : Bytes) : Bytes :=
  match path with
  | none => own
  | some p => p ++ 46 :: own

/-- The column has the name of the field, up to case, and the type that mapTypeToSQL writes. -/
def Declares (standard : Bool) (field : StructField) (c : Column) : Prop :=
  c.name = fold field.name ∧ (lex standard (mapTypeToSQL field.type)).bind sqlType = some c.type

/-- The text is one CREATE TABLE statement, in unquoted names, for a table of the name `own` and the
fields for columns. -/
def MeansStruct (standard : Bool) (own : Bytes) (fields : List StructField) (text : Bytes) : Prop :=
  ∃ ts columns, lex standard text = some ts ∧ (∀ n, .quotedName false n ∉ ts) ∧
    parse ts = some (.createTable (fold own) columns) ∧ List.Forall₂ (Declares standard) fields columns ∧
    (columns.map Column.name).Nodup

/-- All names can stand unquoted, and no two fields have names that differ only in case. -/
def PlainStruct (own : Bytes) (fields : List StructField) : Prop :=
  plainName own = true ∧ (∀ field ∈ fields, plainName field.name = true) ∧
    (fields.map fun field => fold field.name).Nodup

theorem plainName_of_fold {n : Bytes} (h : isWord (fold n) = true ∧ fold n ∉ reservedKeywords) : plainName n = true :=
  (plainName_iff n).mpr ⟨(isWord_fold n).symm.trans h.1, h.2⟩

theorem names_of_declares {fields : List StructField} {columns : List Column}
    (h : List.Forall₂ (Declares standard) fields columns) :
    columns.map Column.name = fields.map fun field => fold field.name := by
  induction h with
  | nil => rfl
  | cons hc hrest ih => rw [List.map_cons, List.map_cons, hc.1, ih]

theorem plainStruct_of_means {own text : Bytes} {fields : List StructField}
    (h : MeansStruct standard own fields text) : PlainStruct own fields := by
  obtain ⟨ts, columns, hlex, hplain, hparse, hcolumns, hdistinct⟩ := h
  have hnames := names_of_lex hlex hplain hparse
  rw [names_of_declares hcolumns] at hnames hdistinct
  refine ⟨plainName_of_fold (hnames _ (.inl rfl)), fun field hfield => ?_, hdistinct⟩
  exact plainName_of_fold (hnames _ (.inr (List.mem_map_of_mem hfield)))

/-! ### The statement of plain names -/

theorem afterLastDot_qualified (path : Option Bytes) {own : Bytes} (h : plainName own = true) :
    afterLastDot (qualified path own) = own := by
  have hdot : 46 ∉ own := notMem_of_plainName h rfl
  cases path with
  | none => exact afterLastDot_noDot own hdot
  | some p => exact afterLastDot_append p own hdot

theorem noQuotedName_structTokens (name : Bytes) (fields : List StructField) (n : Bytes) :
    .quotedName false n ∉ structTokens name fields := by
  have hitems : .quotedName false n ∉ [Token.self 44].intercalate (fields.map fieldTokens) := by
    intro hmem
    rcases mem_of_mem_intercalate hmem with hsep | ⟨ts, hts, hmem⟩
    · cases List.mem_singleton.mp hsep
    · obtain ⟨field, -, rfl⟩ := List.mem_map.mp hts
      unfold fieldTokens typeTokens at hmem
      split at hmem <;> simp at hmem
  simp [structTokens, createTokens, keywords, hitems]

theorem sqlType_mapTypeToSQL (T : ZigType) : (lex standard (mapTypeToSQL T)).bind sqlType = some (sqlTypeOf T) := by
  cases T <;> cases standard <;> rfl

theorem means_of_plainStruct (path : Option Bytes) {own : Bytes} {fields : List StructField}
    (h : PlainStruct own fields) : MeansStruct standard own fields (createTableQuery (qualified path own) fields) := by
  obtain ⟨hown, hf, hdistinct⟩ := h
  have hname := afterLastDot_qualified path hown
  have hquote : 39 ∉ createTableQuery (qualified path own) fields := by
    intro hmem
    rcases mem_createTableQuery hmem with hmem | ⟨field, hfield, hmem⟩ | hmem
    · rw [hname] at hmem
      exact notMem_of_plainName hown rfl hmem
    · exact notMem_of_plainName (hf field hfield) rfl hmem
    · exact absurd hmem (by decide)
  refine ⟨structTokens own fields, fields.map columnOf, ?_, noQuotedName_structTokens own fields,
    parse_structTokens hown hf, ?_, ?_⟩
  · rw [lex_standard hquote]
    exact lex_structTokens hown hf hname
  · rw [List.forall₂_map_right_iff, List.forall₂_same]
    exact fun field _ => ⟨rfl, sqlType_mapTypeToSQL field.type⟩
  · rw [List.map_map]
    exact hdistinct

/-- The text that reaches the server means the struct exactly when the struct has plain names. -/
theorem createTableFor_means_iff (P : Platform) (srv : Server σ) (self : Self) (w : World σ) (T : TypeArg)
    (fields : List StructField) (hT : T.info = .struct fields) (path : Option Bytes) (own : Bytes)
    (hname : T.typeName = qualified path own) (standard : Bool) :
    (∀ b ∈ (Site.createTableFor T fields hT).handed P srv self w,
      MeansStruct standard own fields (span b.text) ↔ PlainStruct own fields) ∧
    (P.Succeeds → ∃ b, (Site.createTableFor T fields hT).handed P srv self w = [b]) := by
  rcases Site.handed_eq P srv self w (.createTableFor T fields hT) with ⟨hP, hnone⟩ | ⟨b, hb, hone⟩
  · rw [hnone]
    exact ⟨fun b hmem => absurd hmem List.not_mem_nil, fun h => absurd h hP⟩
  · rw [hone, List.forall_mem_singleton]
    refine ⟨⟨plainStruct_of_means, fun h => ?_⟩, fun _ => ⟨b, rfl⟩⟩
    have htext : b.text = createTableQuery (qualified path own) fields := by rw [hb, ← hname]; rfl
    have hspan : span b.text = b.text := by
      refine span_of_noNul _ (htext ▸ createTableQuery_noNul ?_ fun field hfield => plainName_noNul (h.2.1 field hfield))
      rw [afterLastDot_qualified path h.1]
      exact plainName_noNul h.1
    rw [hspan, htext]
    exact means_of_plainStruct path h

/-- The struct of the repository's own test. -/
def userTestAuto : List StructField :=
  [⟨ascii "id", .int true 32⟩, ⟨ascii "name", .constU8Slice⟩, ⟨ascii "age", .int true 32⟩]

theorem createTableFor_means_userTestAuto :
    ∃ b, (Site.createTableFor ⟨ascii "psql-tests.UserTestAuto", .struct userTestAuto, by decide, by decide⟩ userTestAuto
        rfl).handed Platform.simple scripted testSelf (connected ⟨none, true⟩) = [b] ∧
      MeansStruct true (ascii "UserTestAuto") userTestAuto (span b.text) := by
  obtain ⟨hiff, hsent⟩ := createTableFor_means_iff Platform.simple scripted testSelf (connected ⟨none, true⟩)
    ⟨ascii "psql-tests.UserTestAuto", .struct userTestAuto, by decide, by decide⟩ userTestAuto rfl
    (some (ascii "psql-tests")) (ascii "UserTestAuto") rfl true
  obtain ⟨b, hb⟩ := hsent Platform.simple_succeeds
  refine ⟨b, hb, (hiff b (by rw [hb]; exact List.mem_singleton_self b)).mpr ⟨?_, ?_, ?_⟩⟩
  · decide +kernel
  · decide +kernel
  · decide +kernel

/-- An instance of a generic type: the struct that Box(User) makes, in the module main. -/
def boxOfUser : TypeArg :=
  ⟨ascii "main.Box(main.User)", .struct [⟨ascii "id", .int true 32⟩], by decide, by decide⟩

theorem createTableFor_boxOfUser :
    ∃ b, (Site.createTableFor boxOfUser [⟨ascii "id", .int true 32⟩] rfl).handed Platform.simple scripted testSelf
        (connected ⟨none, true⟩) = [b] ∧
      b.text = ascii "CREATE TABLE IF NOT EXISTS User) (id INTEGER);" ∧
      ∀ standard, ¬ MeansStruct standard (ascii "Box(main.User)") [⟨ascii "id", .int true 32⟩] (span b.text) := by
  rcases Site.handed_eq Platform.simple scripted testSelf (connected ⟨none, true⟩)
    (.createTableFor boxOfUser [⟨ascii "id", .int true 32⟩] rfl) with ⟨hP, -⟩ | ⟨b, hb, hone⟩
  · exact absurd Platform.simple_succeeds hP
  · refine ⟨b, hone, hb.trans (by decide), fun standard hmeans => ?_⟩
    have hplain := (plainStruct_of_means hmeans).1
    exact absurd hplain (by decide +kernel)

end Psql
