import ZigPsql.Client.Framing
import ZigPsql.Client.Runs
import ZigPsql.Client.Constants

/-!
# Inserting a tuple of values

Two tuples of the same types give statements that differ in nothing but what
their constants hold, and the constants read back as the values.
-/

namespace Psql
open Effect Effect.Eff Text Zig Libpq Postgres Scanner

variable {σ : Type}

/-- QParams, insert with its string, and the deferred deinit (psql-tests.zig). -/
def insertParams (P : Platform) (srv : Server σ) (self : Self) (table : Bytes) (values : List Value) :
    Eff (World σ) Errors Stop Unit := do
  let params ← inHeap (QParams P values)
  deferring (inHeap params.deinit) (insert P srv self table params.paramString.text)

def statements (P : Platform) (srv : Server σ) (self : Self) (w : World σ) (table : Bytes)
    (values : List Value) : List Buf :=
  (insertParams P srv self table values w).2.handed.drop w.handed.length

theorem statements_eq (P : Platform) (srv : Server σ) (self : Self) (w : World σ) (table : Bytes)
    (values : List Value) :
    (¬ P.Succeeds ∧ statements P srv self w table values = []) ∨
      ∃ b, b.text = insertQuery table (fragments true values).flatten ∧
        statements P srv self w table values = [b] := by
  rcases hq : QParams P values w.heap with ⟨o, h⟩
  have hin : inHeap (QParams P values) w = (o, { w with heap := h }) := zoom_run hq
  by_cases hok : ∃ q, o = .ok q
  · obtain ⟨q, rfl⟩ := hok
    have htext := QParams_text P values w.heap trivial q h hq
    have hqueried := insert_queried P srv self { w with heap := h } table q.paramString.text
    rcases hi : insert P srv self table q.paramString.text { w with heap := h } with ⟨o, w'⟩
    obtain ⟨h', hdeinit⟩ := deferring_free q.paramString.block hi
    have hrun : insertParams P srv self table values w = (o, { w' with heap := h' }) := (bind_ok hin).trans hdeinit
    rw [hi] at hqueried
    have hhanded : (¬ P.Succeeds ∧ w'.handed.drop w.handed.length = []) ∨ ∃ b,
        b.text = insertQuery table q.paramString.text ∧ w'.handed.drop w.handed.length = [b] :=
      handed_of_queried hqueried
    rwa [← htext, statements, hrun]
  · have hnot : ¬ P.Succeeds := by
      intro hP
      obtain ⟨q, h', hq', -⟩ := QParams_returns P hP w.heap.ledger values w.heap ⟨rfl, rfl⟩
      exact hok ⟨q, congrArg Prod.fst (hq.symm.trans hq')⟩
    have hhanded : (insertParams P srv self table values w).2.handed = w.handed := by
      cases o with
      | ok q => exact absurd ⟨q, rfl⟩ hok
      | err e => rw [insertParams, bind_err hin]
      | stop c => rw [insertParams, bind_stop hin]
    exact .inl ⟨hnot, by simp [statements, hhanded]⟩

/-! ### The tokens of a value -/

/-- A runtime i32 or a []const u8. -/
def plain : Value → Bool
  | .int true 32 _ | .pointer .slice true (.int false 8) none _ => true
  | _ => false

def constantOf : Value → Constant
  | .int _ _ v => .number v
  | .pointer _ _ _ _ bytes => .string bytes
  | _ => .string []

/-- What blanking leaves of a value of this type. -/
def blankOf : ZigType → List Token
  | .int _ _ => [.number []]
  | _ => [.string .plain []]

theorem literal_plain (v : Value) (h : plain v = true) : Literal (element v) (constantTokens v) (constantOf v) := by
  unfold plain at h
  split at h
  · exact literal_intText _
  · exact literal_string _
  · cases h

theorem blanked_plain (v : Value) (h : plain v = true) : blanked (constantTokens v) = blankOf v.typeOf := by
  unfold plain at h
  split at h
  next x =>
    have hdigits : (decimal x.natAbs).all isDigit = true := List.all_eq_true.mpr (decimal_isDigit _)
    cases hx : decide (x < 0) <;> simp [constantTokens, signTokens, hx, blanked, hdigits, blankOf, Value.typeOf]
  · rfl
  · cases h

theorem accepted_of_plain (v : Value) (h : plain v = true) : accepted v = true := by
  unfold plain at h
  split at h
  · rfl
  · rfl
  · cases h

theorem startsTyped_of_plain (vs : List Value) (h : ∀ v ∈ vs, plain v = true) : startsTyped vs = true := by
  match vs with
  | [] | [_] => rfl
  | v :: w :: rest =>
    have hv := h v (List.mem_cons_self ..)
    unfold plain at hv
    split at hv
    · rfl
    · rfl
    · cases hv

def listTokens (vs : List Value) : List Token := [.self 44].intercalate (vs.map constantTokens) ++ [.self 41]

theorem blanked_listTokens (vs : List Value) (h : ∀ v ∈ vs, plain v = true) :
    blanked (listTokens vs) = [.self 44].intercalate (vs.map fun v => blankOf v.typeOf) ++ [.self 41] := by
  induction vs with
  | nil => rfl
  | cons v rest ih =>
    have hv := blanked_plain v (h v (List.mem_cons_self ..))
    cases rest with
    | nil =>
      have hone : listTokens [v] = constantTokens v ++ .self 41 :: [] := by simp [listTokens]
      rw [hone, blanked_append_self, hv]
      simp [blanked]
    | cons w rest =>
      have hcons : listTokens (v :: w :: rest) = constantTokens v ++ .self 44 :: listTokens (w :: rest) := by
        simp [listTokens, List.intercalate_cons_cons]
      rw [hcons, blanked_append_self, hv, ih fun x hx => h x (List.mem_cons_of_mem _ hx)]
      simp [List.intercalate_cons_cons]

/-! ### The statement -/

def prefixTokens (table : Bytes) : List Token := (scan (step true) .start (valuesPrefix table)).2

/-- The statement is the prefix and a list of constants, of which the i-th reads back as the i-th value. -/
def ReadsBack (table : Bytes) (values : List Value) (ts : List Token) : Prop :=
  ∃ list, ts = prefixTokens table ++ list ++ [.self 41] ∧ valueList list = some (values.map constantOf)

theorem lexes_prefix (table : Bytes) (hmode : (modeAfter true (valuesPrefix table)).inside = false) :
    ∃ before, prefixTokens table = before ++ [.self 40] ∧ Lexes true (valuesPrefix table) (prefixTokens table) := by
  have hsplit : valuesPrefix table = ascii "INSERT INTO " ++ table ++ ascii " VALUES " ++ [40] := by
    simp [valuesPrefix, ascii]
  obtain ⟨before, hlex⟩ := @lexes_paren true (ascii "INSERT INTO " ++ table ++ ascii " VALUES ")
    (hsplit ▸ hmode)
  rw [← hsplit] at hlex
  have htokens : prefixTokens table = before ++ [.self 40] := congrArg Prod.snd hlex
  exact ⟨before, htokens, htokens ▸ hlex⟩

theorem lex_insertQuery (table : Bytes) (hmode : (modeAfter true (valuesPrefix table)).inside = false)
    (values : List Value) (hv : ∀ v ∈ values, plain v = true) :
    lex true (insertQuery table (joined values)) = some (prefixTokens table ++ listTokens values) := by
  obtain ⟨-, -, hprefix⟩ := lexes_prefix table hmode
  have hitem (v : Value) (hmem : v ∈ values) : ListItem (element v) (constantTokens v) :=
    (literal_plain v (hv v hmem)).toListItem
  have hlist := lexes_list values hitem
  have hall := lexes_append hprefix hlist
  rw [← List.append_assoc] at hall
  exact lex_of_lexes hall

theorem readsBack_listTokens (table : Bytes) (values : List Value) (hv : ∀ v ∈ values, plain v = true) :
    ReadsBack table values (prefixTokens table ++ listTokens values) :=
  ⟨[.self 44].intercalate (values.map constantTokens), by rw [listTokens, List.append_assoc],
    valueList_literals values fun v hmem => literal_plain v (hv v hmem)⟩

/-- The statements of two tuples of the same types are one and the same once their constants are
blanked, and each reads back as its tuple. -/
theorem insert_isolates (P : Platform) (srv : Server σ) (self : Self) (w₁ w₂ : World σ) (table : Bytes)
    (hmode : (modeAfter true (valuesPrefix table)).inside = false) (values₁ values₂ : List Value)
    (h₁ : ∀ v ∈ values₁, plain v = true) (h₂ : ∀ v ∈ values₂, plain v = true)
    (htypes : values₁.map Value.typeOf = values₂.map Value.typeOf) :
    (∀ b₁ ∈ statements P srv self w₁ table values₁, ∀ b₂ ∈ statements P srv self w₂ table values₂,
      ∃ ts₁ ts₂, lex true b₁.text = some ts₁ ∧ lex true b₂.text = some ts₂ ∧ blanked ts₁ = blanked ts₂ ∧
        ReadsBack table values₁ ts₁ ∧ ReadsBack table values₂ ts₂) ∧
    (P.Succeeds → ∃ b₁ b₂, statements P srv self w₁ table values₁ = [b₁] ∧
      statements P srv self w₂ table values₂ = [b₂]) := by
  have htext (w : World σ) (values : List Value) (h : ∀ v ∈ values, plain v = true) (b : Buf)
      (hb : b ∈ statements P srv self w table values) : b.text = insertQuery table (joined values) := by
    have hjoined := fragments_of_startsTyped values (fun v hv => accepted_of_plain v (h v hv))
      (startsTyped_of_plain values h)
    rcases statements_eq P srv self w table values with ⟨-, hnone⟩ | ⟨b', hb', hone⟩
    · rw [hnone] at hb
      cases hb
    · rw [hone, List.mem_singleton] at hb
      rw [hb, hb', hjoined]
  have hone (hP : P.Succeeds) (w : World σ) (values : List Value) :
      ∃ b, statements P srv self w table values = [b] := by
    rcases statements_eq P srv self w table values with ⟨hnot, -⟩ | ⟨b, -, hb⟩
    · exact absurd hP hnot
    · exact ⟨b, hb⟩
  constructor
  · intro b₁ hb₁ b₂ hb₂
    refine ⟨_, _, (congrArg (lex true) (htext w₁ values₁ h₁ b₁ hb₁)).trans (lex_insertQuery table hmode values₁ h₁),
      (congrArg (lex true) (htext w₂ values₂ h₂ b₂ hb₂)).trans (lex_insertQuery table hmode values₂ h₂), ?_,
      readsBack_listTokens table values₁ h₁, readsBack_listTokens table values₂ h₂⟩
    obtain ⟨before, hbefore, -⟩ := lexes_prefix table hmode
    have hblanks : values₁.map (fun v => blankOf v.typeOf) = values₂.map (fun v => blankOf v.typeOf) := by
      simpa only [List.map_map, Function.comp_def] using congrArg (List.map blankOf) htypes
    rw [hbefore, List.append_assoc, List.append_assoc, List.singleton_append, List.singleton_append,
      blanked_append_self, blanked_append_self, blanked_listTokens values₁ h₁, blanked_listTokens values₂ h₂,
      hblanks]
  · intro hP
    obtain ⟨b₁, hb₁⟩ := hone hP w₁ values₁
    obtain ⟨b₂, hb₂⟩ := hone hP w₂ values₂
    exact ⟨b₁, b₂, hb₁, hb₂⟩

def userNamed (id : ℤ) (name : String) : List Value := [.int true 32 id, .pointer .slice true .u8 none (ascii name)]

/-- The payload of the repository's own test, beside a harmless name. -/
theorem insert_isolates_drop :
    ∃ b₁ b₂ ts₁ ts₂,
      statements Platform.simple scripted testSelf (connected ⟨none, true⟩) (ascii "Users") (userNamed 1
        "'; DROP TABLE users; --") = [b₁] ∧
      statements Platform.simple scripted testSelf (connected ⟨none, true⟩) (ascii "Users") (userNamed 7 "John") = [b₂] ∧
      lex true b₁.text = some ts₁ ∧ lex true b₂.text = some ts₂ ∧ blanked ts₁ = blanked ts₂ ∧
      ReadsBack (ascii "Users") (userNamed 1 "'; DROP TABLE users; --") ts₁ ∧
      ReadsBack (ascii "Users") (userNamed 7 "John") ts₂ := by
  obtain ⟨hlex, hone⟩ := insert_isolates Platform.simple scripted testSelf (connected ⟨none, true⟩)
    (connected ⟨none, true⟩) (ascii "Users") (by decide) (userNamed 1 "'; DROP TABLE users; --") (userNamed 7 "John")
    (by decide) (by decide) rfl
  obtain ⟨b₁, b₂, hb₁, hb₂⟩ := hone Platform.simple_succeeds
  obtain ⟨ts₁, ts₂, h₁, h₂, hblank, hread₁, hread₂⟩ := hlex b₁ (by simp [hb₁]) b₂ (by simp [hb₂])
  exact ⟨b₁, b₂, ts₁, ts₂, hb₁, hb₂, h₁, h₂, hblank, hread₁, hread₂⟩

end Psql
