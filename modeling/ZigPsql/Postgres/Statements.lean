import ZigPsql.Postgres.Literals

/-!
# Statements from their texts

The three forms of statement, with lists of any length in them, lex and parse to
what they were written for.
-/

namespace Postgres
open Text Scanner

variable {standard : Bool} {α : Type} {text : α → Bytes} {tokens : α → List Token}

/-- A word that can name a table or a column. -/
def plainName (n : Bytes) : Bool := isWord n && !reservedKeywords.contains (fold n)

theorem isWord_of_plainName {n : Bytes} (h : plainName n = true) : isWord n = true := by
  simp only [plainName, Bool.and_eq_true] at h
  exact h.1

theorem colId_of_plainName {n : Bytes} (h : plainName n = true) : colId (.word (fold n)) = some (fold n) := by
  simp only [plainName, Bool.and_eq_true, Bool.not_eq_true', List.contains_eq_mem, decide_eq_false_iff_not] at h
  exact if_neg h.2

theorem notMem_of_plainName {n : Bytes} (h : plainName n = true) {c : Byte} (hc : isWordByte c = false) : c ∉ n := by
  intro hmem
  have hw := isWord_of_plainName h
  cases n with
  | nil => cases hmem
  | cons b rest =>
    simp only [isWord, Bool.and_eq_true, List.all_eq_true] at hw
    have hbyte : isWordByte c = true := by
      rcases List.mem_cons.mp hmem with rfl | hrest
      · simp [isWordByte, hw.1]
      · exact hw.2 c hrest
    exact absurd (hbyte.symm.trans hc) (by decide)

theorem plainName_noNul {n : Bytes} (h : plainName n = true) : 0 ∉ n := notMem_of_plainName h rfl

def createTokens (name : Bytes) (items : List Token) : List Token :=
  keywords ["create", "table", "if", "not", "exists"] ++ .word name :: .self 40 :: (items ++ [.self 41, .self 59])
def insertTokens (name : Bytes) (items : List Token) : List Token :=
  keywords ["insert", "into"] ++ .word name :: (keywords ["values"] ++ .self 40 :: (items ++ [.self 41]))
def selectTokens (name : Bytes) : List Token :=
  [.word (ascii "select"), .op [42], .word (ascii "from")] ++ [.word name]

/-! ### Lexing -/

theorem lexes_name {n : Bytes} (h : plainName n = true) : Lexes standard (n ++ [32]) [.word (fold n)] :=
  lexes_word n 32 (isWord_of_plainName h) rfl

theorem lex_create {n : Bytes} (hn : plainName n = true) (xs : List α)
    (hx : ∀ x ∈ xs, ListItem (text x) (tokens x)) :
    lex true (ascii "CREATE TABLE IF NOT EXISTS " ++ n ++ ascii " (" ++ (ascii ", ").intercalate (xs.map text) ++
        ascii ");") =
      some (createTokens (fold n) ([.self 44].intercalate (xs.map tokens))) := by
  have hstart : Lexes true (ascii "CREATE TABLE IF NOT EXISTS ")
      (keywords ["create", "table", "if", "not", "exists"]) := rfl
  have hopen : Lexes true [40] [.self 40] := rfl
  have hend : Lexes true [59] [.self 59] := rfl
  have hall := lexes_append (lexes_append (lexes_append hstart (lexes_name hn)) hopen)
    (lexes_append (lexes_list xs hx) hend)
  refine (congrArg (lex true) ?_).trans ((lex_of_lexes hall).trans (congrArg some ?_))
  · simp [ascii]
  · simp [createTokens]

theorem lex_insert {n : Bytes} (hn : plainName n = true) (xs : List α)
    (hx : ∀ x ∈ xs, ListItem (text x) (tokens x)) :
    lex true (ascii "INSERT INTO " ++ n ++ ascii " VALUES (" ++ (ascii ", ").intercalate (xs.map text) ++
        ascii ")") =
      some (insertTokens (fold n) ([.self 44].intercalate (xs.map tokens))) := by
  have hstart : Lexes true (ascii "INSERT INTO ") (keywords ["insert", "into"]) := rfl
  have hopen : Lexes true (ascii "VALUES (") [.word (ascii "values"), .self 40] := rfl
  have hall := lexes_append (lexes_append (lexes_append hstart (lexes_name hn)) hopen) (lexes_list xs hx)
  refine (congrArg (lex true) ?_).trans ((lex_of_lexes hall).trans (congrArg some ?_))
  · simp [ascii]
  · simp [insertTokens, keywords]

theorem lex_selectAll {n : Bytes} (hn : plainName n = true) :
    lex true (ascii "SELECT * FROM " ++ n) =
      some (selectTokens (fold n)) := by
  have hstart : Lexes true (ascii "SELECT * FROM ") [.word (ascii "select"), .op [42], .word (ascii "from")] := rfl
  have hname : Emits (step true) .start n [] (.word n) := emits_word n (isWord_of_plainName hn)
  have hall := emits_append hstart hname
  unfold Emits at hall
  simp only [lex, hall, finish, Option.map_some, List.append_nil, selectTokens]

/-! ### Parsing -/

theorem stripPrefix_append (start rest : List Token) : stripPrefix start (start ++ rest) = some rest := by
  have hstart : start.isPrefixOf (start ++ rest) = true := List.isPrefixOf_iff_prefix.mpr ⟨rest, rfl⟩
  simp only [stripPrefix, hstart, if_true, List.drop_left]

theorem parenthesized_self (items : List Token) :
    parenthesized (.self 40 :: (items ++ [.self 41])) = some items := by
  simp [parenthesized]

theorem parse_create {n : Bytes} (hn : plainName n = true) (items : List Token) {columns : List Column}
    (hitems : commaList column items = some columns) :
    parse (createTokens (fold n) items) = some (.createTable (fold n) columns) := by
  have hsplit : createTokens (fold n) items = (keywords ["create", "table", "if", "not", "exists"] ++
      .word (fold n) :: .self 40 :: (items ++ [.self 41])) ++ [.self 59] := by simp [createTokens]
  have hcreate : parseCreate (keywords ["create", "table", "if", "not", "exists"] ++ .word (fold n) ::
      .self 40 :: (items ++ [.self 41])) = some (.createTable (fold n) columns) := by
    simp only [parseCreate, stripPrefix_append, Option.bind_eq_bind, Option.bind_some, List.head?_cons,
      colId_of_plainName hn, List.tail_cons, parenthesized_self, hitems]
    rfl
  rw [hsplit, parse, List.getLast?_append, List.getLast?_singleton, Option.some_or, if_pos rfl,
    List.dropLast_concat, hcreate]
  rfl

theorem parse_insertTokens (name : Bytes) (items : List Token) :
    parse (insertTokens name items) = (colId (.word name)).bind fun n =>
      (valueList items).bind fun values => if values = [] then none else some (.insert n values) := by
  have hlast : (insertTokens name items).getLast? ≠ some (.self 59) := by
    have hsplit : insertTokens name items = (keywords ["insert", "into"] ++ .word name ::
        (keywords ["values"] ++ .self 40 :: items)) ++ [.self 41] := by simp [insertTokens]
    rw [hsplit, List.getLast?_append, List.getLast?_singleton, Option.some_or]
    decide
  have hcreate : parseCreate (insertTokens name items) = none := rfl
  have hselect : parseSelect (insertTokens name items) = none := rfl
  have hinsert : parseInsert (insertTokens name items) = (colId (.word name)).bind fun n =>
      (valueList items).bind fun values => if values = [] then none else some (.insert n values) := by
    simp only [parseInsert, insertTokens, stripPrefix_append, Option.bind_eq_bind, Option.bind_some,
      List.head?_cons, List.tail_cons, parenthesized_self]
    rfl
  rw [parse, if_neg hlast, hcreate, hinsert, hselect]
  simp

theorem parse_insert {n : Bytes} (hn : plainName n = true) (items : List Token) :
    parse (insertTokens (fold n) items) =
      (valueList items).bind fun values => if values = [] then none else some (.insert (fold n) values) := by
  rw [parse_insertTokens, colId_of_plainName hn, Option.bind_some]

theorem parse_selectAll {n : Bytes} (hn : plainName n = true) :
    parse (selectTokens (fold n)) = some (.selectAll (fold n)) := by
  have hselect : parseSelect (selectTokens (fold n)) = some (.selectAll (fold n)) := by
    simp only [parseSelect, selectTokens, stripPrefix_append, Option.bind_eq_bind, Option.bind_some,
      List.head?_cons, colId_of_plainName hn, List.tail_cons, if_true]
    rfl
  have hcreate : parseCreate (selectTokens (fold n)) = none := rfl
  have hinsert : parseInsert (selectTokens (fold n)) = none := rfl
  have hlast : (selectTokens (fold n)).getLast? ≠ some (.self 59) := by
    rw [selectTokens, List.getLast?_append, List.getLast?_singleton, Option.some_or]
    simp
  rw [parse, if_neg hlast, hcreate, hinsert, hselect]
  rfl

end Postgres
