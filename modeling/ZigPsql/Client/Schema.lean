import ZigPsql.Client.Runs
import ZigPsql.Postgres.Engine

/-!
# The tables that createTableFor leaves

Names lose their module and their case on the way to the server, and a table
that exists already stays as it is: the first type that succeeds for a name
settles the columns.
-/

namespace Psql
open Effect Effect.Eff Text Zig Libpq Postgres Scanner

/-! ### What the server makes of a struct -/

def sqlTypeOf : ZigType → SqlType
  | .int _ _ => .integer
  | .float _ => .numeric 255
  | _ => .varchar 255

def columnOf (field : StructField) : Column := ⟨fold field.name, sqlTypeOf field.type⟩

/-- The name stripModuleName gives, as the server folds and cuts it. -/
def tableName (S : Settings) (T : TypeArg) : Bytes := S.clip (fold ((stripModuleName T.typeName).getD []))

def declared (S : Settings) (T : TypeArg) : List Column :=
  match T.info with
  | .struct fields => fields.map fun field => S.column (columnOf field)
  | .other => []

/-- The columns under the whole names of the fields. -/
def wholeColumns (T : TypeArg) : List Column :=
  match T.info with
  | .struct fields => fields.map columnOf
  | .other => []

/-- All names have at most 63 bytes. -/
def shortNames (T : TypeArg) : Bool :=
  match T.info with
  | .struct fields => ((stripModuleName T.typeName).getD []).length ≤ 63 && fields.all fun f => f.name.length ≤ 63
  | .other => true

def plainType (T : TypeArg) : Bool :=
  match T.info with
  | .struct fields => plainName ((stripModuleName T.typeName).getD []) && fields.all fun f => plainName f.name
  | .other => true

def typeTokens : ZigType → List Token
  | .int _ _ => [.word (ascii "integer")]
  | .float _ => [.word (ascii "numeric"), .self 40, .number (ascii "255"), .self 41]
  | _ => [.word (ascii "varchar"), .self 40, .number (ascii "255"), .self 41]

def fieldTokens (field : StructField) : List Token := .word (fold field.name) :: typeTokens field.type

theorem stripModuleName_getD (T : TypeArg) : (stripModuleName T.typeName).getD [] = afterLastDot T.typeName := by
  rw [stripModuleName_eq T.typeName T.named T.addressable, Option.getD_some]

theorem lexes_type (T : ZigType) (d : Byte) (hd : isDelimiter d = true) (hne : d ≠ 32) :
    Lexes true (mapTypeToSQL T ++ [d]) (typeTokens T ++ [.self d]) := by
  have hclose (text : Bytes) (ts : List Token) (h : Lexes true text ts) :
      Lexes true (text ++ [d]) (ts ++ [.self d]) := by
    rw [← delimiterTokens_of_ne hne]
    exact lexes_append h (lexes_delimiter d hd)
  have hinteger := @lexes_word true (ascii "INTEGER") d rfl hd
  rw [delimiterTokens_of_ne hne] at hinteger
  cases T with
  | int => exact hinteger
  | float => exact hclose (ascii "NUMERIC(255)") _ rfl
  | _ => exact hclose (ascii "VARCHAR(255)") _ rfl

theorem sqlType_typeTokens (T : ZigType) : sqlType (typeTokens T) = some (sqlTypeOf T) := by
  unfold typeTokens sqlTypeOf
  split <;> rfl

theorem noComma_typeTokens (T : ZigType) : Token.self 44 ∉ typeTokens T := by
  unfold typeTokens
  split <;> decide

theorem listItem_field (field : StructField) (hn : plainName field.name = true) :
    ListItem (fieldText field) (fieldTokens field) where
  lexes d hd hne := by
    have hall := lexes_append (@lexes_name true field.name hn) (lexes_type field.type d hd hne)
    simpa [fieldText, fieldTokens, ascii] using hall
  nonempty := List.cons_ne_nil _ _
  noComma := by simpa [fieldTokens] using noComma_typeTokens field.type

theorem column_fieldTokens (field : StructField) (hn : plainName field.name = true) :
    column (fieldTokens field) = some (columnOf field) := by
  simp only [fieldTokens, column, colId_of_plainName hn, sqlType_typeTokens, Option.bind_eq_bind, Option.bind_some]
  rfl

def structTokens (name : Bytes) (fields : List StructField) : List Token :=
  createTokens (fold name) ([.self 44].intercalate (fields.map fieldTokens))

section
variable {name : Bytes} {fields : List StructField} (hname : plainName name = true)
  (hf : ∀ field ∈ fields, plainName field.name = true)
include hname hf

theorem lex_structTokens {typeName : Bytes} (hown : afterLastDot typeName = name) :
    lex true (createTableQuery typeName fields) = some (structTokens name fields) := by
  rw [createTableQuery, hown]
  exact lex_create hname fields fun field hmem => listItem_field field (hf field hmem)

theorem parse_structTokens :
    parse (structTokens name fields) = some (.createTable (fold name) (fields.map columnOf)) := by
  have hitems : commaList column ([.self 44].intercalate (fields.map fieldTokens)) = some (fields.map columnOf) :=
    (commaList_items column fields fun field hmem => listItem_field field (hf field hmem)).trans
      (mapM_map_some fields fun field hmem => column_fieldTokens field (hf field hmem))
  exact parse_create hname _ hitems

theorem reads_createTable (S : Settings) {typeName : Bytes} (hown : afterLastDot typeName = name) :
    S.reads (createTableQuery typeName fields) = some (.statement (.createTable (S.clip (fold name))
      (fields.map fun field => S.column (columnOf field)))) := by
  have hreads := reads_notSelect _ _ (by decide) S (lex_structTokens hname hf hown)
  change S.reads _ = (parse (structTokens name fields)).map _ at hreads
  rw [parse_structTokens hname hf] at hreads
  rw [hreads, Option.map_some, Settings.request, List.map_map]
  rfl

end

/-! ### One call on a server with tables -/

section
variable {σ : Type} (P : Platform) {S : Settings} {E : Engine σ} (self : Self) (w : World σ)

theorem exec_usable {conn : Option ℕ} (hup : w.stateIs conn .usable = true) (b : Buf) :
    (w.exec E.server conn b).1 = (E.reply w.server (span b.text)).result.map (PGresult.mk w.nextResult) ∧
      (w.exec E.server conn b).2.server = E.after w.server (span b.text) ∧
      ((w.exec E.server conn b).2.stateIs conn .usable = true → (E.reply w.server (span b.text)).alive = true) ∧
      ((E.reply w.server (span b.text)).alive = true → (w.exec E.server conn b).2.conns = w.conns) := by
  refine ⟨by simp [World.exec, World.answer, hup, Engine.reply], by simp [World.exec, hup, Engine.after], ?_, ?_⟩
  · intro hstill
    cases halive : (E.server.exec w.server (span b.text)).1.alive with
    | true => exact halive
    | false =>
      have hlost : (w.exec E.server conn b).2.conns = w.marking conn .lost := by simp [World.exec, hup, halive]
      cases conn with
      | none => cases hup
      | some c => simp [World.stateIs, hlost, World.marking] at hstill
  · intro halive
    simp [World.exec, show (E.server.exec w.server (span b.text)).1.alive = true from halive]

theorem exec_unusable (srv : Server σ) {conn : Option ℕ} (hdown : w.stateIs conn .usable = false) (b : Buf) :
    (w.exec srv conn b).1 = none ∧ (w.exec srv conn b).2.conns = w.conns := by
  simp [World.exec, World.answer, hdown]

theorem stateIs_of_conns {w w' : World σ} {conn : Option ℕ} {state : ConnState} (h : w'.conns = w.conns) :
    w'.stateIs conn state = w.stateIs conn state := by
  cases conn with
  | none => rfl
  | some c => simp only [World.stateIs, h]

theorem queryOutcome_ok {result : Option PGresult} :
    queryOutcome result = .ok () ↔ ∃ r, result = some r ∧ (r.data.status = .tuplesOk ∨ r.data.status = .commandOk) := by
  cases result with
  | none => simp [queryOutcome, status, field]
  | some r => by_cases h₁ : r.data.status = .tuplesOk <;> by_cases h₂ : r.data.status = .commandOk <;>
      simp [queryOutcome, status, field, h₁, h₂]

theorem reads_struct {T : TypeArg} (hT : plainType T = true) {fields : List StructField}
    (hinfo : T.info = .struct fields) (S : Settings) : S.reads (span (createTableQuery T.typeName fields)) =
      some (.statement (.createTable (tableName S T) (declared S T))) := by
  simp only [plainType, hinfo, stripModuleName_getD, Bool.and_eq_true, List.all_eq_true] at hT
  obtain ⟨hname, hf⟩ := hT
  have hnul := createTableQuery_noNul (plainName_noNul hname) fun f hmem => plainName_noNul (hf f hmem)
  simp only [tableName, declared, hinfo, stripModuleName_getD]
  rw [span_of_noNul _ hnul, reads_createTable hname hf S rfl]

/-- createTableFor succeeds only where the server creates the table or has it, and does nothing
where it fails on a connection that stays up. -/
theorem createTableFor_creates (hE : E.Creates S) (T : TypeArg) (hT : plainType T = true)
    (hfree : S.others (tableName S T) = false) (hup : w.stateIs self.connection .usable = true) :
    ((createTableFor P E.server self T w).1 = .ok () ∧
        (E.tables w.server).create (tableName S T) (declared S T) =
          some (E.tables (createTableFor P E.server self T w).2.server)) ∨
      (createTableFor P E.server self T w).1 ≠ .ok () ∧
        ((createTableFor P E.server self T w).2.stateIs self.connection .usable = true →
          E.tables (createTableFor P E.server self T w).2.server = E.tables w.server) := by
  cases hinfo : T.info with
  | other =>
    have hrun : createTableFor P E.server self T w = (.err .NotAStruct, w) := by
      simp only [createTableFor, hinfo, throw_run]
    rw [hrun]
    exact .inr ⟨by simp, fun _ => rfl⟩
  | struct fields =>
    rcases createTableFor_run P E.server self w T fields hinfo with ⟨-, e, h, hrun⟩ | ⟨b, hb, h, hrun⟩
    · rw [hrun]
      exact .inr ⟨by simp, fun _ => rfl⟩
    · have hreads := reads_struct hT hinfo S
      rw [← hb] at hreads
      obtain ⟨hresult, hserver, hstill, -⟩ := exec_usable (E := E) w hup b
      rw [hrun]
      by_cases hok : queryOutcome (w.exec E.server self.connection b).1 = .ok ()
      · obtain ⟨r, hr, hstatus⟩ := queryOutcome_ok.mp hok
        rw [hresult] at hr
        obtain ⟨d, hd, rfl⟩ := Option.map_eq_some_iff.mp hr
        refine .inl ⟨hok, (hE.done hreads hfree hd hstatus).trans ?_⟩
        simp only [hserver]
      · refine .inr ⟨hok, fun hlives => ?_⟩
        simp only [hserver]
        refine hE.kept hreads hfree (hstill hlives) fun d hd hstatus => hok ?_
        rw [queryOutcome_ok, hresult, hd]
        exact ⟨_, rfl, hstatus⟩

/-- On a connection that is not up it fails, and the connection stays so. -/
theorem createTableFor_down (srv : Server σ) (T : TypeArg) (hdown : w.stateIs self.connection .usable = false) :
    (createTableFor P srv self T w).1 ≠ .ok () ∧
      (createTableFor P srv self T w).2.stateIs self.connection .usable = false := by
  cases hinfo : T.info with
  | other =>
    have hrun : createTableFor P srv self T w = (.err .NotAStruct, w) := by
      simp only [createTableFor, hinfo, throw_run]
    rw [hrun]
    exact ⟨by simp, hdown⟩
  | struct fields =>
    rcases createTableFor_run P srv self w T fields hinfo with ⟨-, e, h, hrun⟩ | ⟨b, -, h, hrun⟩
    · rw [hrun]
      exact ⟨by simp, hdown⟩
    · obtain ⟨hresult, hconns⟩ := exec_unusable w srv hdown b
      rw [hrun, hresult]
      exact ⟨by simp [queryOutcome, status, field], (stateIs_of_conns hconns).trans hdown⟩

/-- The server has no reason of its own against the statement of the call. -/
def Willing (E : Engine σ) (call : Call) : Prop := ∀ text, call.text = some text → E.Takes (span text)

/-- While memory lasts, a willing server does what the statement says. -/
theorem createTableFor_executes (hP : P.Succeeds) (hE : E.Executes S) (T : TypeArg) (hT : plainType T = true)
    (hs : T.info ≠ .other) (hfree : S.others (tableName S T) = false) (hwilling : Willing E (.createTableFor T))
    (hup : w.stateIs self.connection .usable = true) :
    (createTableFor P E.server self T w).2.conns = w.conns ∧
      (∀ db, (E.tables w.server).create (tableName S T) (declared S T) = some db →
        (createTableFor P E.server self T w).1 = .ok () ∧
          E.tables (createTableFor P E.server self T w).2.server = db) ∧
      ((E.tables w.server).create (tableName S T) (declared S T) = none →
        (createTableFor P E.server self T w).1 ≠ .ok ()) := by
  cases hinfo : T.info with
  | other => exact absurd hinfo hs
  | struct fields =>
    rcases createTableFor_run P E.server self w T fields hinfo with ⟨hnot, -⟩ | ⟨b, hb, h, hrun⟩
    · exact absurd hP hnot
    · have hreads := reads_struct hT hinfo S
      rw [← hb] at hreads
      have htakes := hwilling _ (show Call.text _ = some b.text by simp only [Call.text, hinfo, hb]) w.server
      have hbecomes := hE.creates hreads hfree htakes
      obtain ⟨hresult, hserver, -, hconns⟩ := exec_usable (E := E) w hup b
      rw [hrun, hresult]
      cases hc : (E.tables w.server).create (tableName S T) (declared S T) with
      | some db =>
        rw [hc] at hbecomes
        obtain ⟨hreply, htables⟩ := hbecomes
        rw [hreply] at hconns ⊢
        refine ⟨hconns rfl, fun db' hdb => ?_, fun hnone => (by cases hnone)⟩
        cases hdb
        exact ⟨rfl, by simp only [hserver, htables]⟩
      | none =>
        rw [hc] at hbecomes
        obtain ⟨code, -, -, hreply, -⟩ := hbecomes
        rw [hreply] at hconns ⊢
        refine ⟨hconns rfl, fun db hdb => (by cases hdb), fun _ => ?_⟩
        simp [queryOutcome, status, field, ResultData.plain]

theorem declared_short (S : Settings) {T : TypeArg} (h : shortNames T = true) : declared S T = wholeColumns T := by
  unfold declared wholeColumns
  cases hinfo : T.info with
  | other => rfl
  | struct fields =>
    simp only [shortNames, hinfo, Bool.and_eq_true, List.all_eq_true, decide_eq_true_eq] at h
    refine List.map_congr_left fun field hf => ?_
    have hlen : (fold field.name).length ≤ 63 := (List.length_map ..).trans_le (h.2 field hf)
    simp only [Settings.column, columnOf, S.clip_short _ hlen]

/-! ### Runs of createTableFor -/

def worldAfter (srv : Server σ) (w : World σ) (Ts : List TypeArg) : World σ :=
  Ts.foldl (fun w T => (createTableFor P srv self T w).2) w

theorem worldAfter_one (srv : Server σ) (T : TypeArg) :
    worldAfter P self srv w [T] = (createTableFor P srv self T w).2 := rfl

def succeeded (srv : Server σ) : World σ → List TypeArg → List TypeArg
  | _, [] => []
  | w, T :: rest =>
    match createTableFor P srv self T w with
    | (.ok _, w') => T :: succeeded srv w' rest
    | (_, w') => succeeded srv w' rest

def firstFor (S : Settings) (name : Bytes) (Ts : List TypeArg) : Option TypeArg :=
  Ts.find? fun T => tableName S T = name

/-- While the connection is up, the columns of every table are those of the first type that had
success with its name. -/
def Settled (S : Settings) (E : Engine σ) (w : World σ) (Ts : List TypeArg) : Prop :=
  w.stateIs self.connection .usable = true →
    ∀ name, (E.tables w.server name).map Relation.columns = (firstFor S name Ts).map (declared S)

theorem create_columns {db db' : Relations} {name : Bytes} {columns : List Column}
    (h : db.create name columns = some db') (n : Bytes) :
    (db' n).map Relation.columns = ((db n).map Relation.columns).or (if name = n then some columns else none) := by
  cases hdb : db name with
  | some r =>
    simp only [Relations.create, hdb] at h
    cases h
    by_cases hn : name = n
    · rw [← hn, hdb]
      rfl
    · simp [hn]
  | none =>
    simp only [Relations.create, hdb] at h
    split at h
    · cases h
      by_cases hn : name = n
      · rw [← hn, hdb]
        simp
      · simp [hn, Function.update_of_ne (Ne.symm hn)]
    · cases h

theorem succeeded_one (srv : Server σ) (T : TypeArg) :
    ((createTableFor P srv self T w).1 = .ok () → succeeded P self srv w [T] = [T]) ∧
      ((createTableFor P srv self T w).1 ≠ .ok () → succeeded P self srv w [T] = []) := by
  rcases hrun : createTableFor P srv self T w with ⟨_ | _ | _, w'⟩ <;> simp [succeeded, hrun]

theorem settled_step (hE : E.Creates S) (T : TypeArg) (hT : plainType T = true)
    (hfree : S.others (tableName S T) = false) (Ts : List TypeArg) (hs : Settled self S E w Ts) :
    Settled self S E (createTableFor P E.server self T w).2 (Ts ++ succeeded P self E.server w [T]) := by
  intro hlives name
  obtain ⟨hone, hnone⟩ := succeeded_one P self w E.server T
  cases hup : w.stateIs self.connection .usable with
  | false =>
    have hdown := (createTableFor_down P self w E.server T hup).2
    exact absurd (hlives.symm.trans hdown) (by decide)
  | true =>
    rcases createTableFor_creates P self w hE T hT hfree hup with ⟨hok, hcreate⟩ | ⟨hfail, hkept⟩
    · rw [hone hok, create_columns hcreate, hs hup name, firstFor, firstFor, List.find?_append, Option.map_or]
      by_cases hn : tableName S T = name <;> simp [hn]
    · rw [hkept hlives, hnone hfail, List.append_nil]
      exact hs hup name

theorem succeeded_cons (srv : Server σ) (T : TypeArg) (rest : List TypeArg) :
    succeeded P self srv w (T :: rest) =
      succeeded P self srv w [T] ++ succeeded P self srv (createTableFor P srv self T w).2 rest := by
  simp only [succeeded]
  split <;> simp_all

theorem settled_run (hE : E.Creates S) (Ts : List TypeArg) (hTs : ∀ T ∈ Ts, plainType T = true)
    (hfree : ∀ T ∈ Ts, S.others (tableName S T) = false) (before : List TypeArg) (hs : Settled self S E w before) :
    Settled self S E (worldAfter P self E.server w Ts) (before ++ succeeded P self E.server w Ts) := by
  induction Ts generalizing w before with
  | nil => simpa [worldAfter, succeeded] using hs
  | cons T rest ih =>
    have hmem : T ∈ T :: rest := List.mem_cons_self ..
    have hstep := settled_step P self w hE T (hTs T hmem) (hfree T hmem) before hs
    have hrest := ih (createTableFor P E.server self T w).2 (fun U hU => hTs U (List.mem_cons_of_mem _ hU))
      (fun U hU => hfree U (List.mem_cons_of_mem _ hU)) _ hstep
    rw [succeeded_cons, ← List.append_assoc]
    exact hrest

/-- After a successful call the table has the columns of the first type in the run that had success
with its name, which are this type's own unless an earlier one declared others. -/
theorem createTableFor_agrees (hE : E.Creates S) (hempty : ∀ name, E.tables w.server name = none)
    (Ts : List TypeArg) (T : TypeArg) (hplain : ∀ U ∈ Ts ++ [T], plainType U = true)
    (hfree : ∀ U ∈ Ts ++ [T], S.others (tableName S U) = false)
    (hok : (createTableFor P E.server self T (worldAfter P self E.server w Ts)).1 = .ok ()) :
    ∃ r, E.tables (createTableFor P E.server self T (worldAfter P self E.server w Ts)).2.server (tableName S T) =
        some r ∧
      r.columns = declared S ((firstFor S (tableName S T) (succeeded P self E.server w Ts)).getD T) ∧
      ((∀ U ∈ succeeded P self E.server w Ts, tableName S U = tableName S T → declared S U = declared S T) →
        r.columns = declared S T) ∧
      (shortNames T = true → declared S T = wholeColumns T) := by
  have hstart : Settled self S E w [] := fun _ name => by simp [hempty name, firstFor]
  have hsettled := settled_run P self w hE Ts (fun U hU => hplain U (List.mem_append_left _ hU))
    (fun U hU => hfree U (List.mem_append_left _ hU)) [] hstart
  rw [List.nil_append] at hsettled
  cases hup : (worldAfter P self E.server w Ts).stateIs self.connection .usable with
  | false => exact absurd hok (createTableFor_down P self _ E.server T hup).1
  | true =>
    rcases createTableFor_creates P self (worldAfter P self E.server w Ts) hE T
        (hplain T (List.mem_append_right _ (List.mem_singleton_self T)))
        (hfree T (List.mem_append_right _ (List.mem_singleton_self T))) hup with ⟨-, hcreate⟩ | ⟨hfail, -⟩
    swap
    · exact absurd hok hfail
    have hcolumns := create_columns hcreate (tableName S T)
    rw [hsettled hup (tableName S T), if_pos rfl] at hcolumns
    have hfirst : ((firstFor S (tableName S T) (succeeded P self E.server w Ts)).map (declared S)).or
        (some (declared S T)) =
          some (declared S ((firstFor S (tableName S T) (succeeded P self E.server w Ts)).getD T)) := by
      cases firstFor S (tableName S T) (succeeded P self E.server w Ts) <;> rfl
    rw [hfirst] at hcolumns
    obtain ⟨r, hr, hc⟩ := Option.map_eq_some_iff.mp hcolumns
    refine ⟨r, hr, hc, fun hsame => hc.trans ?_, declared_short S⟩
    cases hf : firstFor S (tableName S T) (succeeded P self E.server w Ts) with
    | none => rfl
    | some U =>
      have hname : tableName S U = tableName S T := by simpa using List.find?_some hf
      exact hsame U (List.mem_of_find?_eq_some hf) hname

end

/-! Two types of one name in two modules. -/

def accountsMember : TypeArg :=
  ⟨ascii "accounts.Member", .struct [⟨ascii "id", .int true 32⟩, ⟨ascii "name", .constU8Slice⟩], by decide, by decide⟩

def adminMember : TypeArg :=
  ⟨ascii "admin.Member", .struct [⟨ascii "role", .constU8Slice⟩], by decide, by decide⟩

/-- A server without tables. -/
def tables : Engine Database := reference .plain .stored

def noTables : World Database := connected fun _ => none

theorem tables_executes : tables.Executes .plain := reference_executes .plain .stored

theorem tables_takes (call : Call) : Willing tables call := fun _ _ _ hrefuses => hrefuses

theorem plainType_members : ∀ U ∈ [accountsMember] ++ [adminMember], plainType U = true := by decide +kernel

theorem tableName_members : tableName .plain accountsMember = ascii "member" ∧
    tableName .plain adminMember = ascii "member" := by decide +kernel

/-- The table of either type, with the first one's columns. -/
def memberTable : Relations :=
  Function.update (fun _ => none) (ascii "member") (some ⟨declared .plain accountsMember, 0⟩)

theorem accountsMember_succeeds :
    (createTableFor Platform.simple tables.server testSelf accountsMember noTables).1 = .ok () ∧
      tables.tables (createTableFor Platform.simple tables.server testSelf accountsMember noTables).2.server =
        memberTable ∧
      (createTableFor Platform.simple tables.server testSelf accountsMember noTables).2.conns = noTables.conns := by
  have hexecutes := createTableFor_executes Platform.simple testSelf noTables Platform.simple_succeeds tables_executes
    accountsMember (plainType_members _ (by simp)) (by simp [accountsMember]) rfl (tables_takes _) rfl
  obtain ⟨hconns, hcreated, -⟩ := hexecutes
  rw [tableName_members.1] at hcreated
  have hwidth : (declared .plain accountsMember).length ≤ maxColumns := by simp [declared, accountsMember, maxColumns]
  obtain ⟨hok, htables⟩ := hcreated memberTable (Relations.create_fresh rfl (by decide) hwidth)
  exact ⟨hok, htables, hconns⟩

/-- The second type's call succeeds too, and leaves the table. -/
theorem adminMember_succeeds :
    (createTableFor Platform.simple tables.server testSelf adminMember
      (worldAfter Platform.simple testSelf tables.server noTables [accountsMember])).1 = .ok () ∧
      tables.tables (createTableFor Platform.simple tables.server testSelf adminMember
        (worldAfter Platform.simple testSelf tables.server noTables [accountsMember])).2.server = memberTable := by
  obtain ⟨-, htables, hconns⟩ := accountsMember_succeeds
  rw [← worldAfter_one] at htables hconns
  have hup : (worldAfter Platform.simple testSelf tables.server noTables [accountsMember]).stateIs
      testSelf.connection .usable = true := (stateIs_of_conns hconns).trans rfl
  have hexecutes := createTableFor_executes Platform.simple testSelf _ Platform.simple_succeeds tables_executes
    adminMember (plainType_members _ (by simp)) (by simp [adminMember]) rfl (tables_takes _) hup
  obtain ⟨-, hcreated, -⟩ := hexecutes
  rw [htables, tableName_members.2] at hcreated
  exact hcreated memberTable (Relations.create_existing (Function.update_self ..) _)

theorem createTableFor_agrees_member :
    ∃ r, tables.tables (createTableFor Platform.simple tables.server testSelf adminMember
        (worldAfter Platform.simple testSelf tables.server noTables [accountsMember])).2.server (ascii "member") =
          some r ∧
      r.columns = [⟨ascii "id", .integer⟩, ⟨ascii "name", .varchar 255⟩] := by
  have hagrees := createTableFor_agrees Platform.simple testSelf noTables tables_executes.toCreates
    (fun _ => rfl) [accountsMember] adminMember plainType_members (fun _ _ => rfl) adminMember_succeeds.1
  obtain ⟨r, hr, hcolumns, -⟩ := hagrees
  have hone : succeeded Platform.simple testSelf tables.server noTables [accountsMember] = [accountsMember] :=
    (succeeded_one Platform.simple testSelf noTables tables.server accountsMember).1 accountsMember_succeeds.1
  rw [hone] at hcolumns
  rw [tableName_members.2] at hr hcolumns
  exact ⟨r, hr, hcolumns.trans (by decide +kernel)⟩

theorem createTableFor_clash :
    (∀ U ∈ [accountsMember] ++ [adminMember], plainType U = true) ∧
      (createTableFor Platform.simple tables.server testSelf adminMember
        (worldAfter Platform.simple testSelf tables.server noTables [accountsMember])).1 = .ok () ∧
      ∃ r, tables.tables (createTableFor Platform.simple tables.server testSelf adminMember
        (worldAfter Platform.simple testSelf tables.server noTables [accountsMember])).2.server
          (tableName .plain adminMember) = some r ∧
        r.columns ≠ declared .plain adminMember := by
  obtain ⟨hok, htables⟩ := adminMember_succeeds
  refine ⟨plainType_members, hok, ⟨declared .plain accountsMember, 0⟩, ?_, by decide⟩
  rw [htables, tableName_members.2]
  exact Function.update_self ..

end Psql
