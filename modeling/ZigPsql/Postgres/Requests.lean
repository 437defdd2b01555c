import ZigPsql.Postgres.Join
import ZigPsql.Postgres.Statements

/-!
# What a text asks of a server

The statement of an inner join read from its tokens, beside the other statements,
and the texts of all of them as requests whose names are cut.
-/

namespace Postgres
open Text Libpq Scanner

/-! ### The statement -/

/-- A word after a point may be any. -/
def colLabel : Token → Option Bytes
  | .word name => some name
  | .quotedName false name => some name
  | _ => none

def columnRef : List Token → Option ColumnRef
  | [c] => (colId c).map fun name => ⟨none, name⟩
  | [t, .self 46, c] => do
    let table ← colId t
    let name ← colLabel c
    return ⟨some table, name⟩
  | _ => none

def output (ts : List Token) : Option Output :=
  if ts = [.op [42]] then some .all else (commaList columnRef ts).map .refs

def fromClause : List Token → Option (Output → JoinQuery)
  | [l, .word i, .word j, r, .word o, lt, .self 46, lc, .op e, rt, .self 46, rc] =>
    if [i, j, o] = ["inner", "join", "on"].map ascii ∧ e = [61] then do
      let left ← colId l
      let right ← colId r
      let leftKey ← columnRef [lt, .self 46, lc]
      let rightKey ← columnRef [rt, .self 46, rc]
      return fun out => ⟨out, left, right, leftKey, rightKey⟩
    else none
  | _ => none

def isFrom (t : Token) : Bool := t = .word (ascii "from")

def parseJoin (ts : List Token) : Option JoinQuery := do
  let rest ← stripPrefix (keywords ["select"]) ts
  let out ← output (rest.takeWhile fun t => !isFrom t)
  let clause ← fromClause (rest.dropWhile fun t => !isFrom t).tail
  return clause out

inductive Request where
  | statement (s : Statement)
  | join (q : JoinQuery)

def request (ts : List Token) : Option Request :=
  let body := if ts.getLast? = some (.self 59) then ts.dropLast else ts
  match parseJoin body with
  | some q => some (.join q)
  | none => (parse ts).map .statement

/-! ### Names are cut -/

namespace Settings
variable (S : Settings)

def column (c : Column) : Column := ⟨S.clip c.name, c.type⟩
def ref (r : ColumnRef) : ColumnRef := ⟨r.table.map S.clip, S.clip r.name⟩

def output : Output → Output
  | .all => .all
  | .refs list => .refs (list.map S.ref)

def request : Request → Request
  | .statement (.createTable name columns) => .statement (.createTable (S.clip name) (columns.map S.column))
  | .statement (.insert name values) => .statement (.insert (S.clip name) values)
  | .statement (.selectAll name) => .statement (.selectAll (S.clip name))
  | .join q => .join ⟨S.output q.output, S.clip q.left, S.clip q.right, S.ref q.leftKey, S.ref q.rightKey⟩

/-- What a text asks for, in the default state of standard_conforming_strings. -/
def reads (text : Bytes) : Option Request := ((lex true text).bind Postgres.request).map S.request

end Settings

/-! ### Texts of references -/

variable {standard : Bool}

def refText (ref : ColumnRef) : Bytes := ref.table.elim [] (· ++ [46]) ++ ref.name

def foldRef (ref : ColumnRef) : ColumnRef := ⟨ref.table.map fold, fold ref.name⟩

def refTokens (ref : ColumnRef) : List Token :=
  ref.table.elim [] (fun t => [.word (fold t), .self 46]) ++ [.word (fold ref.name)]

def plainRef (ref : ColumnRef) : Bool := ref.table.all plainName && plainName ref.name

/-- A word that begins in the mode `m`. -/
theorem emits_wordFrom (m : Mode) (out : List Token) (w : Bytes) (hw : isWord w = true)
    (hm : ∀ b, isWordStart b = true → step standard m b = (.word [b], out)) :
    Emits (step standard) m w out (.word w) := by
  cases w with
  | nil => cases hw
  | cons b rest =>
    simp only [isWord, Bool.and_eq_true, List.all_eq_true] at hw
    have hrest : Emits (step standard) (.word [b]) rest [] (.word ([b] ++ rest)) :=
      emits_accumulate Mode.word rest (fun acc i hi => by simp [step, wordStep, hw.2 i hi]) [b]
    simpa using emits_cons (hm b hw.1) hrest

theorem dotStep_wordStart (b : Byte) (h : isWordStart b = true) :
    step standard .dot b = (.word [b], [.self 46]) := by
  have hdigit : isDigit b = false := by grind [isDigit, isWordStart]
  have hdot : b ≠ 46 := by grind [isWordStart]
  simp [step, hdigit, hdot, openToken_wordStart b h, after]

theorem emits_qualified {t c : Bytes} (ht : plainName t = true) (hc : plainName c = true) :
    Emits (step standard) .start (t ++ 46 :: c) [.word (fold t), .self 46] (.word c) := by
  have htable : Emits (step standard) .start t [] (.word t) := emits_word t (isWord_of_plainName ht)
  have hdot : step standard (.word t) 46 = (.dot, [.word (fold t)]) := rfl
  have hname : Emits (step standard) .dot c [.self 46] (.word c) :=
    emits_wordFrom .dot [.self 46] c (isWord_of_plainName hc) dotStep_wordStart
  exact emits_append htable (emits_cons hdot hname)

theorem lexes_ref {ref : ColumnRef} (h : plainRef ref = true) (d : Byte) (hd : isDelimiter d = true) :
    Lexes standard (refText ref ++ [d]) (refTokens ref ++ delimiterTokens d) := by
  obtain ⟨table, name⟩ := ref
  simp only [plainRef, Bool.and_eq_true] at h
  obtain ⟨ht, hn⟩ := h
  cases table with
  | none => exact lexes_word name d (isWord_of_plainName hn) hd
  | some t =>
    have hall := emits_append (@emits_qualified standard t name ht hn) (emits_one (wordStep_delimiter name d hd))
    simpa [refText, refTokens] using hall

theorem listItem_ref {ref : ColumnRef} (h : plainRef ref = true) : ListItem (refText ref) (refTokens ref) where
  lexes d hd hne := by
    rw [← delimiterTokens_of_ne hne]
    exact lexes_ref h d hd
  nonempty := List.append_ne_nil_of_right_ne_nil _ (List.cons_ne_nil _ _)
  noComma := by
    cases ht : ref.table <;> simp [refTokens, ht]

theorem columnRef_refTokens {ref : ColumnRef} (h : plainRef ref = true) :
    columnRef (refTokens ref) = some (foldRef ref) := by
  obtain ⟨table, name⟩ := ref
  simp only [plainRef, Bool.and_eq_true] at h
  cases table with
  | none => simp [columnRef, refTokens, foldRef, colId_of_plainName h.2]
  | some t =>
    have ht : plainName t = true := h.1
    simp [columnRef, refTokens, foldRef, colId_of_plainName ht, colLabel]

/-- A word that is no keyword, or a byte on its own. -/
def isRefToken : Token → Bool
  | .word w => !reservedKeywords.contains w
  | .self _ => true
  | _ => false

theorem refTokens_all {ref : ColumnRef} (h : plainRef ref = true) : ∀ t ∈ refTokens ref, isRefToken t = true := by
  have hword {n : Bytes} (hn : plainName n = true) : isRefToken (.word (fold n)) = true := by
    simp only [plainName, Bool.and_eq_true] at hn
    exact hn.2
  obtain ⟨table, name⟩ := ref
  simp only [plainRef, Bool.and_eq_true] at h
  cases table with
  | none => simpa [refTokens] using hword h.2
  | some t =>
    intro x hx
    have ht : plainName t = true := h.1
    rcases List.mem_cons.mp hx with rfl | hx
    · exact hword ht
    rcases List.mem_cons.mp hx with rfl | hx
    · rfl
    · rw [List.mem_singleton.mp hx]
      exact hword h.2

/-! ### Texts of joins -/

def listText (refs : List ColumnRef) : Bytes := (ascii ", ").intercalate (refs.map refText)
def refListTokens (refs : List ColumnRef) : List Token := [.self 44].intercalate (refs.map refTokens)

def outputText : Output → Bytes
  | .all => ascii "*"
  | .refs list => listText list

def outputTokens : Output → List Token
  | .all => [.op [42]]
  | .refs list => refListTokens list

def foldOutput : Output → Output
  | .all => .all
  | .refs list => .refs (list.map foldRef)

def plainOutput : Output → Bool
  | .all => true
  | .refs list => list.all plainRef

def joinText (out : Output) (l r v : Bytes) : Bytes :=
  ascii "SELECT " ++ outputText out ++ ascii " FROM " ++ l ++ ascii " INNER JOIN " ++ r ++ ascii " ON " ++ l ++
    ascii "." ++ v ++ ascii " = " ++ r ++ ascii "." ++ v

def joinTokens (out : List Token) (l r v : Bytes) : List Token :=
  keywords ["select"] ++ (out ++ .word (ascii "from") ::
    [.word l, .word (ascii "inner"), .word (ascii "join"), .word r, .word (ascii "on"), .word l, .self 46, .word v,
      .op [61], .word r, .self 46, .word v])

theorem lexes_refs (refs : List ColumnRef) (h : ∀ ref ∈ refs, plainRef ref = true) :
    Lexes true (listText refs ++ [32]) (refListTokens refs) := by
  induction refs with
  | nil => rfl
  | cons ref rest ih =>
    have href := h ref (List.mem_cons_self ..)
    cases rest with
    | nil => simpa [listText, refListTokens, delimiterTokens] using lexes_ref href 32 rfl
    | cons next rest =>
      have hrest := ih fun x hx => h x (List.mem_cons_of_mem _ hx)
      have hall := lexes_append (lexes_ref href 44 rfl) (lexes_append (@lexes_delimiter true 32 (by decide)) hrest)
      simp only [listText, refListTokens, List.map_cons, List.intercalate_cons_cons] at hall ⊢
      simpa [ascii, delimiterTokens] using hall

theorem refListTokens_all {refs : List ColumnRef} (h : ∀ ref ∈ refs, plainRef ref = true) :
    ∀ t ∈ refListTokens refs, isRefToken t = true := by
  intro t ht
  rcases mem_of_mem_intercalate ht with hsep | ⟨ts, hts, hmem⟩
  · rw [List.mem_singleton.mp hsep]
    rfl
  · obtain ⟨ref, href, rfl⟩ := List.mem_map.mp hts
    exact refTokens_all (h ref href) t hmem

theorem lexes_output {out : Output} (h : plainOutput out = true) :
    Lexes true (outputText out ++ [32]) (outputTokens out) := by
  cases out with
  | all => rfl
  | refs list => exact lexes_refs list (List.all_eq_true.mp h)

section
variable {out : Output} {l r v : Bytes} (hout : plainOutput out = true) (hl : plainName l = true)
  (hr : plainName r = true) (hv : plainName v = true)
include hout hl hr hv

theorem lex_join :
    lex true (joinText out l r v) = some (joinTokens (outputTokens out) (fold l) (fold r) (fold v)) := by
  have hselect : Lexes true (ascii "SELECT ") (keywords ["select"]) := rfl
  have hfrom : Lexes true (ascii "FROM ") [.word (ascii "from")] := rfl
  have hinner : Lexes true (ascii "INNER JOIN ") [.word (ascii "inner"), .word (ascii "join")] := rfl
  have hon : Lexes true (ascii "ON ") [.word (ascii "on")] := rfl
  have hequals : Lexes true (ascii "= ") [.op [61]] := rfl
  have hkey := @lexes_ref true ⟨some l, v⟩ (by simp [plainRef, hl, hv]) 32 rfl
  have hhead := lexes_append (lexes_append (lexes_append hselect (lexes_output hout)) hfrom)
    (lexes_append (lexes_append (lexes_name hl) hinner) (lexes_append (lexes_name hr) hon))
  have hall := emits_append (lexes_append hhead (lexes_append hkey hequals)) (@emits_qualified true r v hr hv)
  have htext : joinText out l r v = ascii "SELECT " ++ (outputText out ++ [32]) ++ ascii "FROM " ++
      (l ++ [32] ++ ascii "INNER JOIN " ++ (r ++ [32] ++ ascii "ON ")) ++
      (refText ⟨some l, v⟩ ++ [32] ++ ascii "= ") ++ (r ++ 46 :: v) := by
    simp [joinText, refText, ascii]
  unfold Emits at hall
  rw [← htext] at hall
  simp only [lex, hall, finish, Option.map_some]
  simp [joinTokens, refTokens, delimiterTokens, keywords]

omit hl hr hv in
theorem output_outputTokens : output (outputTokens out) = some (foldOutput out) := by
  cases out with
  | all => rfl
  | refs list =>
    have hlist := List.all_eq_true.mp hout
    have hitems := (commaList_items columnRef list fun ref hmem => listItem_ref (hlist ref hmem)).trans
      (mapM_map_some list fun ref hmem => columnRef_refTokens (hlist ref hmem))
    have hstar : refListTokens list ≠ [.op [42]] := by
      intro heq
      have hstar := refListTokens_all hlist (.op [42]) (by rw [heq]; exact List.mem_cons_self ..)
      cases hstar
    simp only [output, outputTokens, hstar, if_false]
    rw [refListTokens, hitems]
    rfl

omit hl hr hv in
theorem outputTokens_noFrom : ∀ t ∈ outputTokens out, (!isFrom t) = true := by
  cases out with
  | all => decide
  | refs list =>
    intro t ht
    have hall := refListTokens_all (List.all_eq_true.mp hout) t ht
    have hfrom : isRefToken (.word (ascii "from")) = false := by decide +kernel
    simp only [isFrom, Bool.not_eq_true', decide_eq_false_iff_not]
    rintro rfl
    exact Bool.false_ne_true (hfrom.symm.trans hall)

omit hv in
theorem parse_join :
    parseJoin (joinTokens (outputTokens out) (fold l) (fold r) (fold v)) =
      some ⟨foldOutput out, fold l, fold r, ⟨some (fold l), fold v⟩, ⟨some (fold r), fold v⟩⟩ := by
  have hnone := outputTokens_noFrom hout
  have hfrom : (!isFrom (.word (ascii "from"))) = false := by decide
  rw [parseJoin, joinTokens, stripPrefix_append, Option.bind_eq_bind, Option.bind_some,
    List.takeWhile_append_of_pos hnone,
    List.takeWhile_cons_of_neg (by rw [hfrom]; decide), List.append_nil, List.dropWhile_append_of_pos hnone,
    List.dropWhile_cons_of_neg (by rw [hfrom]; decide), output_outputTokens hout]
  simp [fromClause, columnRef, colLabel, colId_of_plainName hl, colId_of_plainName hr]

omit hv in
theorem request_join :
    request (joinTokens (outputTokens out) (fold l) (fold r) (fold v)) =
      some (.join ⟨foldOutput out, fold l, fold r, ⟨some (fold l), fold v⟩, ⟨some (fold r), fold v⟩⟩) := by
  have hlast : (joinTokens (outputTokens out) (fold l) (fold r) (fold v)).getLast? = some (.word (fold v)) := by
    rw [joinTokens, List.getLast?_append, List.getLast?_append]
    rfl
  rw [request, hlast, if_neg (by simp), parse_join hout hl hr]

theorem reads_join (S : Settings) :
    S.reads (joinText out l r v) = some (.join ⟨S.output (foldOutput out), S.clip (fold l), S.clip (fold r),
      ⟨some (S.clip (fold l)), S.clip (fold v)⟩, ⟨some (S.clip (fold r)), S.clip (fold v)⟩⟩) := by
  rw [Settings.reads, lex_join hout hl hr hv, Option.bind_some, request_join hout hl hr]
  rfl

end

/-! ### The other statements -/

section
variable {w : Bytes} (t : Token) (rest : List Token)

theorem body_cons :
    ∃ rest', (if (Token.word w :: t :: rest).getLast? = some (.self 59) then (Token.word w :: t :: rest).dropLast
      else Token.word w :: t :: rest) = .word w :: rest' := by
  split
  · exact ⟨(t :: rest).dropLast, rfl⟩
  · exact ⟨t :: rest, rfl⟩

variable (hw : w ≠ ascii "select")
include hw

theorem request_notSelect : request (.word w :: t :: rest) = (parse (.word w :: t :: rest)).map .statement := by
  obtain ⟨rest', hbody⟩ := body_cons (w := w) t rest
  have hjoin : parseJoin (.word w :: rest') = none := by
    simp [parseJoin, stripPrefix, keywords, Ne.symm hw]
  rw [request, hbody, hjoin]

/-- A text that begins with another word than SELECT is no join. -/
theorem reads_notSelect (S : Settings) {text : Bytes} (hlex : lex true text = some (.word w :: t :: rest)) :
    S.reads text = (parse (.word w :: t :: rest)).map fun s => S.request (.statement s) := by
  rw [Settings.reads, hlex, Option.bind_some, request_notSelect t rest hw, Option.map_map]
  rfl

end

theorem reads_selectAll (S : Settings) {n : Bytes} (hn : plainName n = true) :
    S.reads (ascii "SELECT * FROM " ++ n) = some (.statement (.selectAll (S.clip (fold n)))) := by
  have hjoin : parseJoin (selectTokens (fold n)) = none := rfl
  have hlast : (selectTokens (fold n)).getLast? = some (.word (fold n)) := by
    rw [selectTokens, List.getLast?_append]
    rfl
  have hrequest : request (selectTokens (fold n)) = some (.statement (.selectAll (fold n))) := by
    rw [request, hlast, if_neg (by simp), hjoin, parse_selectAll hn]
    rfl
  rw [Settings.reads, lex_selectAll hn, Option.bind_some, hrequest]
  rfl

end Postgres
