import ZigPsql.Client.Schema
import ZigPsql.Client.Constants

/-!
# Writing a row and reading it back

A row of a table that createTableFor made comes back as it was written exactly
when the server can have the table and the row, and every number is an integer
within its column.
-/

namespace Psql
open Effect Effect.Eff Text Zig Libpq Postgres Scanner

/-- A finite number, or a short []const u8 that is valid in the encoding and has no zero byte. -/
def storable (S : Settings) : Value → Bool
  | .int _ _ _ => true
  | .float _ (.finite _) => true
  | .pointer .slice true (.int false 8) none bytes => 0 ∉ bytes && (S.chars bytes).any (· ≤ 255)
  | _ => false

/-- A row for a struct type: plain names in lower case, and a value for every field. -/
structure Row (S : Settings) where
  T : TypeArg
  fields : List StructField
  isStruct : T.info = .struct fields
  plain : plainType T = true
  lower : ∀ field ∈ fields, fold field.name = field.name
  values : List Value
  typed : fields.map StructField.type = values.map Value.typeOf
  stored : ∀ v ∈ values, storable S v = true

def valuesText (values : List Value) : Bytes := (ascii ", ").intercalate (values.map constantText)

def Row.name {S : Settings} (row : Row S) : Bytes := (stripModuleName row.T.typeName).getD []

def Row.calls {S : Settings} (row : Row S) : List Call :=
  [.createTableFor row.T, .insert row.name (valuesText row.values), .select row.name]

def writeAndRead {σ : Type} {S : Settings} (P : Platform) (srv : Server σ) (self : Self) (row : Row S) :
    Eff (World σ) Errors Stop QueryResult := do
  createTableFor P srv self row.T
  insert P srv self row.name (valuesText row.values)
  select P srv self row.name

/-- A cell denotes a value: the same number, or the same bytes. -/
def Denotes (cell : Bytes) : Value → Prop
  | .int _ _ v => signedValue cell = some (v : ℚ)
  | .float _ v => ∃ q, signedValue v.text = some q ∧ signedValue cell = some q
  | .pointer _ _ _ _ bytes => cell = bytes
  | _ => False

def Reads (q : QueryResult) (values : List Value) : Prop :=
  ∃ cells, q.rows.items.map (fun row => row.cells.map Buf.text) = [cells] ∧ List.Forall₂ Denotes cells values

/-- A string, or an integer that a column of its kind holds. -/
def keeps : Value → Bool
  | .int _ _ v => -2 ^ 31 ≤ v && v < 2 ^ 31
  | .float _ (.finite d) => 0 ≤ d.exponent && d.mantissa * 10 ^ d.exponent.toNat < 10 ^ 255
  | .pointer _ _ _ _ _ => true
  | _ => false

/-- What a column that keeps a value has of it. -/
def held : Value → Option Datum
  | .int _ _ v => some (.number v)
  | .float _ (.finite d) => some (.number (roundHalfAway (decimalValue d)))
  | .pointer _ _ _ _ bytes => some (.text bytes)
  | _ => none

/-- The names, as far as the server keeps them, are distinct and none is a system column's, and the
columns are not too many. -/
def Row.Creatable {S : Settings} (row : Row S) : Prop :=
  (systemColumns ++ row.fields.map fun field => S.clip field.name).Nodup ∧ row.fields.length ≤ maxColumns

/-- The server can have the table, and has room for the row. -/
def Row.HasRoom {S : Settings} (row : Row S) : Prop := row.Creatable ∧ S.fits (row.values.map held) = true

/-! ### One value -/

theorem sent_of_storable {S : Settings} {v : Value} (h : storable S v = true) : Sent v := by
  unfold storable at h
  split at h
  · exact sent_of_sendable (by simp) rfl
  · exact sent_of_sendable (by simp) rfl
  · simp only [Bool.and_eq_true] at h
    exact sent_of_sendable (by simp) h.1
  · cases h

theorem fits_of_lt (d : FloatDecimal) (he : 0 ≤ d.exponent)
    (hd : d.mantissa * 10 ^ d.exponent.toNat < 10 ^ 255) : d.fits = true := by
  have hlen : d.exponent.toNat + (decimal d.mantissa).length ≤ 256 := by
    rcases Nat.eq_zero_or_pos d.mantissa with hm | hm
    · have hzero := d.zero hm
      have hone : (decimal d.mantissa).length ≤ 1 := (decimal_length_le_iff _ 1 Nat.one_pos).mpr (by rw [hm]; decide)
      rw [hzero, Int.toNat_zero]
      omega
    · have hexp : d.exponent.toNat < 255 :=
        (Nat.pow_lt_pow_iff_right (by decide)).mp (lt_of_le_of_lt (Nat.le_mul_of_pos_left _ hm) hd)
      have hsplit : 10 ^ 255 = 10 ^ (255 - d.exponent.toNat) * 10 ^ d.exponent.toNat := by
        rw [← pow_add, Nat.sub_add_cancel hexp.le]
      rw [hsplit] at hd
      have hdigits := (decimal_length_le_iff d.mantissa (255 - d.exponent.toNat) (Nat.sub_pos_of_lt hexp)).mpr
        (lt_of_mul_lt_mul_right hd (Nat.zero_le _))
      omega
  clear hd
  unfold FloatDecimal.fits floatBufferSize
  exact decide_eq_true (by omega)

theorem decimalValue_ne_intCast (d : FloatDecimal) (he : d.exponent < 0) (z : ℤ) : decimalValue d ≠ z := by
  intro h
  have hten : (10 : ℚ) ^ (-d.exponent).toNat ≠ 0 := pow_ne_zero _ (by norm_num)
  obtain ⟨y, hy⟩ : ∃ y : ℤ, (d.mantissa : ℚ) / 10 ^ (-d.exponent).toNat = y := by
    rw [decimalValue, if_pos he] at h
    cases hs : d.sign with
    | false => exact ⟨z, by simpa [signed, hs] using h⟩
    | true =>
      refine ⟨-z, ?_⟩
      rw [hs] at h
      push_cast
      rw [← h, signed, if_pos rfl, neg_neg]
  rw [div_eq_iff hten] at hy
  have hint : (d.mantissa : ℤ) = y * 10 ^ (-d.exponent).toNat := by exact_mod_cast hy
  have hdvd : (10 : ℤ) ∣ d.mantissa := by
    rw [hint]
    exact Dvd.dvd.mul_left (dvd_pow_self 10 (by omega)) y
  exact d.canonical he (by omega)

theorem decimalValue_intCast (d : FloatDecimal) (he : 0 ≤ d.exponent) :
    ∃ z : ℤ, decimalValue d = z ∧ z.natAbs = d.mantissa * 10 ^ d.exponent.toNat := by
  rw [decimalValue, if_neg (not_lt.mpr he)]
  cases d.sign with
  | false => exact ⟨(d.mantissa * 10 ^ d.exponent.toNat : ℕ), by simp [signed], Int.natAbs_natCast _⟩
  | true =>
    refine ⟨-(d.mantissa * 10 ^ d.exponent.toNat : ℕ), by simp [signed], ?_⟩
    rw [Int.natAbs_neg, Int.natAbs_natCast]

theorem denotes_number (z : ℤ) : signedValue (span (Datum.number z).output) = some (z : ℚ) := by
  rw [Datum.output, span_of_noNul _ (intText_noNul z), signedValue_intText]

theorem int_iff (S : Settings) (signed : Bool) (bits : ℕ) (z : ℤ) :
    (∃ c d, constant (constantTokens (.int signed bits z)) = some c ∧ coerce S .integer c = .ok d ∧
      Denotes (span d.output) (.int signed bits z)) ↔ keeps (.int signed bits z) = true := by
  have hreads : constant (constantTokens (.int signed bits z)) = some (.number z) := (literal_intText z).reads
  have hcoerce : coerce S .integer (.number z) =
      if -2 ^ 31 ≤ z ∧ z < 2 ^ 31 then .ok (.number z) else .error .outOfRange := by
    rw [coerce, roundHalfAway_intCast]
  have hkeeps : keeps (.int signed bits z) = true ↔ -2 ^ 31 ≤ z ∧ z < 2 ^ 31 := by simp [keeps]
  rw [hkeeps, hreads]
  constructor
  · intro h
    obtain ⟨c, d, ⟨⟩, hd, -⟩ := h
    rw [hcoerce] at hd
    by_contra hrange
    rw [if_neg hrange] at hd
    cases hd
  · intro hrange
    exact ⟨_, _, rfl, by rw [hcoerce, if_pos hrange], denotes_number z⟩

theorem decimal_iff (S : Settings) (bits : ℕ) (x : FloatDecimal) :
    (∃ c d, constant (constantTokens (.float bits (.finite x))) = some c ∧ coerce S (.numeric 255) c = .ok d ∧
      Denotes (span d.output) (.float bits (.finite x))) ↔ keeps (.float bits (.finite x)) = true := by
  have hkeeps : keeps (.float bits (.finite x)) = true ↔
      0 ≤ x.exponent ∧ x.mantissa * 10 ^ x.exponent.toNat < 10 ^ 255 := by simp [keeps]
  rw [hkeeps]
  cases hfits : x.fits with
  | false =>
    -- the text is no constant
    have hnone : constant (constantTokens (.float bits (.finite x))) = none := by
      rw [constantTokens, decimalTokens, hfits]
      rfl
    rw [hnone]
    constructor
    · intro h
      obtain ⟨c, d, ⟨⟩, -⟩ := h
    · intro hkept
      obtain ⟨he, hlt⟩ := hkept
      rw [fits_of_lt x he hlt] at hfits
      cases hfits
  | true =>
    have hreads : constant (constantTokens (.float bits (.finite x))) = some (.number (decimalValue x)) :=
      (literal_decimalText x hfits).reads
    have hvalue : signedValue x.text = some (decimalValue x) := by rw [signedValue_decimalText, if_pos hfits]
    rw [hreads]
    by_cases he : x.exponent < 0
    · constructor
      · intro hread
        obtain ⟨c, d, ⟨⟩, hd, q, hq, hcell⟩ := hread
        have hq' : decimalValue x = q := Option.some.inj (hvalue.symm.trans hq)
        have hround : d = .number (roundHalfAway (decimalValue x)) := by
          rw [coerce] at hd
          split at hd
          · exact (Except.ok.inj hd).symm
          · cases hd
        rw [hround, denotes_number] at hcell
        exact absurd (hq'.trans (Option.some.inj hcell).symm) (decimalValue_ne_intCast x he _)
      · intro hkept
        obtain ⟨he', -⟩ := hkept
        exact absurd he (not_lt.mpr he')
    · obtain ⟨z, hz, habs⟩ := decimalValue_intCast x (not_lt.mp he)
      have hcoerce : coerce S (.numeric 255) (.number (decimalValue x)) =
          if x.mantissa * 10 ^ x.exponent.toNat < 10 ^ 255 then .ok (.number z) else .error .outOfRange := by
        rw [coerce, hz, roundHalfAway_intCast, habs]
      constructor
      · rintro ⟨c, d, ⟨⟩, hd, -⟩
        rw [hcoerce] at hd
        refine ⟨not_lt.mp he, ?_⟩
        by_contra hrange
        rw [if_neg hrange] at hd
        cases hd
      · rintro ⟨-, hlt⟩
        refine ⟨_, _, rfl, by rw [hcoerce, if_pos hlt], decimalValue x, hvalue, ?_⟩
        rw [denotes_number, hz]

theorem coerce_string {S : Settings} {bytes : Bytes} {k : ℕ} (hk : S.chars bytes = some k) (hle : k ≤ 255) :
    coerce S (.varchar 255) (.string bytes) = .ok (.text bytes) := by
  simp [coerce, hk, Nat.sub_eq_zero_of_le hle]

theorem value_iff (S : Settings) (v : Value) (hv : storable S v = true) :
    (∃ c d, constant (constantTokens v) = some c ∧ coerce S (sqlTypeOf v.typeOf) c = .ok d ∧
      Denotes (span d.output) v) ↔ keeps v = true := by
  unfold storable at hv
  split at hv
  next signed bits z => exact int_iff S signed bits z
  next bits x => exact decimal_iff S bits x
  next bytes =>
    simp only [Bool.and_eq_true, decide_eq_true_eq, Option.any_eq_true] at hv
    obtain ⟨hnul, k, hk, hle⟩ := hv
    exact ⟨fun _ => rfl, fun _ => ⟨_, _, (literal_string bytes).reads, coerce_string hk hle, span_of_noNul bytes hnul⟩⟩
  next => cases hv

/-- A column that takes a constant for a value has the value, or its rounding. -/
theorem held_of_coerce {S : Settings} {v : Value} (hv : storable S v = true) {c : Constant} {d : Datum}
    (hc : constant (constantTokens v) = some c) (hd : coerce S (sqlTypeOf v.typeOf) c = .ok d) : held v = some d := by
  unfold storable at hv
  split at hv
  next signed bits z =>
    have hreads : constant (constantTokens (.int signed bits z)) = some (.number z) := (literal_intText z).reads
    cases hreads.symm.trans hc
    change coerce S .integer (.number z) = .ok d at hd
    rw [coerce, roundHalfAway_intCast] at hd
    split at hd
    · cases hd
      rfl
    · cases hd
  next bits x =>
    cases hfits : x.fits with
    | false =>
      have hnone : constant (constantTokens (.float bits (.finite x))) = none := by
        rw [constantTokens, decimalTokens, hfits]
        rfl
      cases hnone.symm.trans hc
    | true =>
      have hreads : constant (constantTokens (.float bits (.finite x))) = some (.number (decimalValue x)) :=
        (literal_decimalText x hfits).reads
      cases hreads.symm.trans hc
      change coerce S (.numeric 255) (.number (decimalValue x)) = .ok d at hd
      rw [coerce] at hd
      split at hd
      · cases hd
        rfl
      · cases hd
  next bytes =>
    simp only [Bool.and_eq_true, Option.any_eq_true, decide_eq_true_eq] at hv
    obtain ⟨-, k, hk, hle⟩ := hv
    have hreads : constant (constantTokens (.pointer .slice true (.int false 8) none bytes)) = some (.string bytes) :=
      (literal_string bytes).reads
    cases hreads.symm.trans hc
    change coerce S (.varchar 255) (.string bytes) = .ok d at hd
    rw [coerce_string hk hle] at hd
    cases hd
    rfl
  next => cases hv

/-! ### One row -/

def cellsOf (row : List (Option Datum)) : List Bytes := row.map fun cell => span ((cell.map Datum.output).getD [])

theorem row_iff (S : Settings) (fields : List StructField) (values : List Value)
    (htyped : fields.map StructField.type = values.map Value.typeOf) (hv : ∀ v ∈ values, storable S v = true) :
    (∃ cs row, (values.map constantTokens).mapM constant = some cs ∧
        coerceRow S (fields.map fun field => S.column (columnOf field)) cs = .ok row ∧
        List.Forall₂ Denotes (cellsOf row.val) values) ↔
      ∀ v ∈ values, keeps v = true := by
  induction values generalizing fields with
  | nil =>
    rw [List.map_nil, List.map_eq_nil_iff] at htyped
    subst htyped
    exact ⟨by simp, fun _ => ⟨[], ⟨[], rfl⟩, rfl, rfl, .nil⟩⟩
  | cons v rest ih =>
    cases fields with
    | nil => cases htyped
    | cons field fields =>
      obtain ⟨htype, hrest⟩ := List.cons.inj htyped
      have hone := value_iff S v (hv v (List.mem_cons_self ..))
      have hall := ih fields hrest fun w hw => hv w (List.mem_cons_of_mem _ hw)
      have hcolumn : (S.column (columnOf field)).type = sqlTypeOf v.typeOf := congrArg sqlTypeOf htype
      rw [List.forall_mem_cons, ← hone, ← hall]
      constructor
      · intro h
        obtain ⟨cs, row, hcs, hrow, hread⟩ := h
        obtain ⟨c, cs', hc, hcs', rfl⟩ := mapM_cons_some.mp hcs
        obtain ⟨d, row', hd, hrow', hval⟩ := coerceRow_cons.mp hrow
        rw [hcolumn] at hd
        rw [hval, cellsOf, List.map_cons] at hread
        obtain ⟨hhead, htail⟩ := List.forall₂_cons.mp hread
        exact ⟨⟨c, d, hc, hd, hhead⟩, cs', row', hcs', hrow', htail⟩
      · intro hboth
        obtain ⟨⟨c, d, hc, hd, hhead⟩, cs', row', hcs', hrow', htail⟩ := hboth
        rw [← hcolumn] at hd
        refine ⟨c :: cs', ⟨some d :: row'.val, ?_⟩, mapM_cons_some.mpr ⟨c, cs', hc, hcs', rfl⟩,
          coerceRow_cons.mpr ⟨d, row', hd, hrow', rfl⟩, List.forall₂_cons.mpr ⟨hhead, htail⟩⟩
        rw [List.length_cons, row'.property, List.map_cons, List.length_cons]

theorem held_row (S : Settings) (fields : List StructField) (values : List Value)
    (htyped : fields.map StructField.type = values.map Value.typeOf) (hv : ∀ v ∈ values, storable S v = true)
    {cs : List Constant} (hcs : (values.map constantTokens).mapM constant = some cs)
    {row : { row : List (Option Datum) // row.length = (fields.map fun field => S.column (columnOf field)).length }}
    (hrow : coerceRow S (fields.map fun field => S.column (columnOf field)) cs = .ok row) :
    row.val = values.map held := by
  induction values generalizing fields cs with
  | nil =>
    rw [List.map_nil, List.map_eq_nil_iff] at htyped
    subst htyped
    cases hcs
    cases hrow
    rfl
  | cons v rest ih =>
    cases fields with
    | nil => cases htyped
    | cons field fields =>
      obtain ⟨htype, hrest⟩ := List.cons.inj htyped
      obtain ⟨c, cs', hc, hcs', rfl⟩ := mapM_cons_some.mp hcs
      obtain ⟨d, row', hd, hrow', hval⟩ := coerceRow_cons.mp hrow
      have hcolumn : (S.column (columnOf field)).type = sqlTypeOf v.typeOf := congrArg sqlTypeOf htype
      rw [hcolumn] at hd
      have hhead := held_of_coerce (hv v (List.mem_cons_self ..)) hc hd
      have htail := ih fields hrest (fun w hw => hv w (List.mem_cons_of_mem _ hw)) hcs' hrow'
      rw [hval, List.map_cons, hhead, htail]

/-! ### The statements -/

section
variable {σ : Type} {S : Settings} {E : Engine σ} (hE : E.Executes S) (s : σ) {n : Bytes} (hn : plainName n = true)
  (hfree : S.others (S.clip (fold n)) = false)
include hn

omit hE in
theorem insertQuery_noNul {values : List Value} (hv : ∀ v ∈ values, Sent v) :
    0 ∉ insertQuery n (valuesText values) := by
  have hvalues : 0 ∉ valuesText values := by
    intro hmem
    rcases mem_of_mem_intercalate hmem with hsep | ⟨t, ht, hb⟩
    · exact absurd hsep (by decide)
    · obtain ⟨v, hmem, rfl⟩ := List.mem_map.mp ht
      exact (hv v hmem).noNul hb
  have hname := plainName_noNul hn
  simp only [insertQuery, valuesPrefix, List.mem_append, hname, hvalues, or_false]
  decide

include hE hfree

/-- The insertion of a list of values is that of their constants, if every one is a constant. -/
theorem insert_becomes {values : List Value} (hv : ∀ v ∈ values, Sent v)
    (htakes : ¬ E.refuses s (span (insertQuery n (valuesText values)))) :
    E.Becomes s (span (insertQuery n (valuesText values))) (((values.map constantTokens).mapM constant).bind fun cs =>
      if cs = [] then none else (E.tables s).insert S (S.clip (fold n)) cs) := by
  have hspan := span_of_noNul _ (insertQuery_noNul hn hv)
  rw [hspan] at htakes ⊢
  have hitem (v : Value) (hmem : v ∈ values) := (hv v hmem).item
  have hlex : lex true (insertQuery n (valuesText values)) = _ := lex_insert hn values hitem
  have hvalues : valueList ([.self 44].intercalate (values.map constantTokens)) =
      (values.map constantTokens).mapM constant := commaList_items constant values hitem
  have hitems : ∀ item ∈ values.map constantTokens, item = placeholder ∨ (constant item).isSome = true := by
    intro item hitem
    obtain ⟨v, hmem, rfl⟩ := List.mem_map.mp hitem
    exact (hv v hmem).value
  cases hcs : (values.map constantTokens).mapM constant with
  | none =>
    obtain ⟨item, hmem, hnone⟩ := exists_of_mapM_none hcs
    have hplace : item = placeholder := (hitems item hmem).resolve_right (by rw [hnone]; decide)
    exact hE.lacksValue hlex hitems (.inr (hplace ▸ hmem)) htakes
  | some cs =>
    rw [Option.bind_some]
    split
    next hnil =>
      have hempty : values.map constantTokens = [] := by
        rw [hnil] at hcs
        exact List.length_eq_zero_iff.mp (length_of_mapM_some hcs).symm
      exact hE.lacksValue hlex hitems (.inl hempty) htakes
    next hne =>
      have hreads := reads_notSelect _ _ (by decide) S hlex
      change S.reads _ = (parse (insertTokens _ _)).map _ at hreads
      rw [parse_insert hn, hvalues, hcs, Option.bind_some, if_neg hne] at hreads
      exact hE.inserts hreads hfree htakes

theorem select_gives (htakes : ¬ E.refuses s (span (selectQuery n))) :
    E.Gives s (span (selectQuery n)) (E.tables s (S.clip (fold n))) := by
  have hnul := plainName_noNul hn
  have htext : span (selectQuery n) = ascii "SELECT * FROM " ++ n := by
    have hprefix : (0 : Byte) ∉ ascii "SELECT * FROM " := by decide
    rw [selectQuery, span_of_noNul _ hnul, span_of_noNul]
    simp only [List.mem_append, hnul, hprefix, or_self, not_false_eq_true]
  rw [htext] at htakes ⊢
  exact hE.selects (reads_selectAll S hn) hfree htakes

end

/-! ### The calls -/

theorem cellTexts_of_shows {d : ResultData} {r : Relation} (h : Shows d r) :
    (cellTexts d : Multiset (List Bytes)) = r.rows.map cellsOf := by
  rw [cellTexts, ← Multiset.map_coe, h.tuples, Multiset.map_map]
  exact Multiset.map_congr rfl fun row _ => by simp [cellsOf]

section
variable {σ : Type} (P : Platform) (hP : P.Succeeds) {E : Engine σ} (self : Self) (w : World σ)
  (hup : w.stateIs self.connection .usable = true)
include hP hup

theorem insert_executes {table values : Bytes} {result : Option Relations}
    (h : E.Becomes w.server (span (insertQuery table values)) result) :
    (insert P E.server self table values w).2.conns = w.conns ∧
      (∀ db, result = some db → (insert P E.server self table values w).1 = .ok () ∧
        E.tables (insert P E.server self table values w).2.server = db) ∧
      (result = none → (insert P E.server self table values w).1 ≠ .ok ()) := by
  rcases insert_queried P E.server self w table values with ⟨hnot, -⟩ | ⟨b, hb, h', R, M, hw, hspec⟩
  · exact absurd hP hnot
  · rw [← hb] at h
    obtain ⟨hresult, hserver, -, hconns⟩ := exec_usable (E := E) w hup b
    rw [hw, (hspec hP).1, hresult]
    cases result with
    | some db =>
      obtain ⟨hreply, htables⟩ := h
      rw [hreply] at hconns ⊢
      refine ⟨hconns rfl, fun db' hdb => ?_, fun hnone => (by cases hnone)⟩
      cases hdb
      exact ⟨rfl, by simp only [hserver, htables]⟩
    | none =>
      obtain ⟨code, -, -, hreply, -⟩ := h
      rw [hreply] at hconns ⊢
      refine ⟨hconns rfl, fun db hdb => (by cases hdb), fun _ => ?_⟩
      simp only [insertOutcome, Option.map_some, status, field, sqlstate, ResultData.plain, reduceCtorEq, if_false]
      split <;> simp

theorem select_executes {table : Bytes} {r : Relation} (h : E.Gives w.server (span (selectQuery table)) (some r)) :
    ∃ q w', select P E.server self table w = (.ok q, w') ∧
      (q.rows.items.map (fun row => row.cells.map Buf.text) : Multiset (List Bytes)) = r.rows.map cellsOf := by
  rcases select_queried P E.server self w table with ⟨hnot, -⟩ | ⟨b, hb, h', R, M, hw, hspec⟩
  · exact absurd hP hnot
  · obtain ⟨d, hreply, hshows, -⟩ := h
    rw [← hb] at hreply
    obtain ⟨hresult, -⟩ := exec_usable (E := E) w hup b
    obtain ⟨houtcome, -⟩ := hspec hP
    rw [hresult, hreply] at houtcome
    rcases houtcome with ⟨hstatus, -⟩ | ⟨r', q, hr, -, ho, -, hrows⟩
    · exact absurd hshows.status hstatus
    · cases hr
      exact ⟨q, _, Prod.ext ho rfl, by rw [hrows, cellTexts_of_shows hshows]⟩

end

/-! ### The whole way -/

section
variable {σ : Type} {S : Settings} (row : Row S)

theorem Row.plainName : plainName row.name = true := by
  have h := row.plain
  simp only [plainType, row.isStruct, Bool.and_eq_true] at h
  exact h.1

theorem Row.sent : ∀ v ∈ row.values, Sent v := fun v hv => sent_of_storable (row.stored v hv)

theorem Row.declared_eq : declared S row.T = row.fields.map fun field => S.column (columnOf field) := by
  simp only [declared, row.isStruct]

theorem Row.declared_names : (declared S row.T).map Column.name = row.fields.map fun field => S.clip field.name := by
  rw [row.declared_eq, List.map_map]
  exact List.map_congr_left fun field hf => congrArg S.clip (row.lower field hf)

theorem Row.declared_length : (declared S row.T).length = row.fields.length := by
  rw [row.declared_eq, List.length_map]

theorem Row.rowOf_eq {cs : List Constant} (hcs : (row.values.map constantTokens).mapM constant = some cs) :
    rowOf S (declared S row.T) cs = ((coerceRow S (declared S row.T) cs).toOption.map Subtype.val).filter S.fits := by
  have hlen : cs.length = (declared S row.T).length := by
    rw [length_of_mapM_some hcs, row.declared_length, List.length_map]
    simpa using (congrArg List.length row.typed).symm
  rw [rowOf, if_neg (by omega)]

/-- The row of the table that the values make, if the server makes one of them. -/
def Row.made : Option Postgres.Tuple :=
  ((row.values.map constantTokens).mapM constant).bind fun cs =>
    if cs = [] then none else rowOf S (declared S row.T) cs

theorem Row.made_eq_some {r : Postgres.Tuple} :
    row.made = some r ↔ ∃ cs r', (row.values.map constantTokens).mapM constant = some cs ∧ cs ≠ [] ∧
      coerceRow S (declared S row.T) cs = .ok r' ∧ S.fits r'.val = true ∧ r'.val = r := by
  unfold Row.made
  cases hcs : (row.values.map constantTokens).mapM constant with
  | none => simp
  | some cs =>
    by_cases hnil : cs = []
    · simp [hnil]
    · simp only [Option.bind_some, hnil, if_false, row.rowOf_eq hcs]
      cases hr : coerceRow S (declared S row.T) cs with
      | error e => simp [Except.toOption, hr]
      | ok r' =>
        simp only [Except.toOption, Option.map_some, Option.filter_eq_some_iff, Option.some.injEq]
        constructor
        · rintro ⟨rfl, hfits⟩
          exact ⟨cs, r', rfl, hnil, hr, hfits, rfl⟩
        · rintro ⟨cs', r'', rfl, -, hr', hfits, rfl⟩
          cases hr.symm.trans hr'
          exact ⟨rfl, hfits⟩

section
variable {E : Engine σ} (hE : E.Executes S) (P : Platform) (hP : P.Succeeds) (self : Self) (w : World σ)
  (hup : w.stateIs self.connection .usable = true) (hwilling : ∀ call ∈ row.calls, Willing E call)
  (hfree : S.others (tableName S row.T) = false)
include hE hP hup hwilling hfree

/-- createTableFor makes the table, or it fails. -/
theorem created_or_failed (hfresh : E.tables w.server (tableName S row.T) = none) :
    (row.Creatable ∧
        ∃ w₁, createTableFor P E.server self row.T w = (.ok (), w₁) ∧
          E.tables w₁.server (tableName S row.T) = some ⟨declared S row.T, 0⟩ ∧
          w₁.stateIs self.connection .usable = true) ∨
      ¬ row.Creatable ∧ (createTableFor P E.server self row.T w).1 ≠ .ok () := by
  have hexecutes := createTableFor_executes P self w hP hE row.T row.plain (by simp [row.isStruct]) hfree
    (hwilling _ (by simp [Row.calls])) hup
  obtain ⟨hconns, hcreated, hrefused⟩ := hexecutes
  rw [Row.Creatable, ← row.declared_names, ← row.declared_length]
  by_cases hroom : (systemColumns ++ (declared S row.T).map Column.name).Nodup ∧ (declared S row.T).length ≤ maxColumns
  · obtain ⟨hok, htables⟩ := hcreated _ (Relations.create_fresh hfresh hroom.1 hroom.2)
    refine .inl ⟨hroom, _, Prod.ext hok rfl, ?_, (stateIs_of_conns hconns).trans hup⟩
    rw [htables]
    exact Function.update_self ..
  · exact .inr ⟨hroom, hrefused (Relations.create_refused hfresh hroom)⟩

/-- insert puts the row into the new table, or it fails. -/
theorem inserted_or_failed (ht : E.tables w.server (tableName S row.T) = some ⟨declared S row.T, 0⟩) :
    (∃ r w₂, row.made = some r ∧ insert P E.server self row.name (valuesText row.values) w = (.ok (), w₂) ∧
        E.tables w₂.server (tableName S row.T) = some ⟨declared S row.T, {r}⟩ ∧
        w₂.stateIs self.connection .usable = true) ∨
      row.made = none ∧ (insert P E.server self row.name (valuesText row.values) w).1 ≠ .ok () := by
  have hinsert (cs : List Constant) : (E.tables w.server).insert S (tableName S row.T) cs =
      (rowOf S (declared S row.T) cs).map fun r =>
        Function.update (E.tables w.server) (tableName S row.T) (some ⟨declared S row.T, {r}⟩) := by
    rw [Relations.insert, ht, Option.bind_some]
    simp only [Relation.plus, zero_add]
  have htext := hwilling (.insert row.name (valuesText row.values)) (by simp [Row.calls]) _ rfl w.server
  have hbecomes := insert_becomes hE w.server row.plainName hfree row.sent htext
  have hresult : (((row.values.map constantTokens).mapM constant).bind fun cs =>
      if cs = [] then none else (E.tables w.server).insert S (tableName S row.T) cs) = row.made.map fun r =>
        Function.update (E.tables w.server) (tableName S row.T) (some ⟨declared S row.T, {r}⟩) := by
    unfold Row.made
    cases (row.values.map constantTokens).mapM constant with
    | none => rfl
    | some cs =>
      simp only [Option.bind_some, hinsert]
      split <;> rfl
  change E.Becomes _ _ (((row.values.map constantTokens).mapM constant).bind fun cs =>
    if cs = [] then none else (E.tables w.server).insert S (tableName S row.T) cs) at hbecomes
  rw [hresult] at hbecomes
  obtain ⟨hconns, hinserted, hrefused⟩ := insert_executes P hP self w hup hbecomes
  cases hmade : row.made with
  | none =>
    rw [hmade] at hrefused
    exact .inr ⟨rfl, hrefused rfl⟩
  | some r =>
    rw [hmade] at hinserted
    obtain ⟨hok, htables⟩ := hinserted _ rfl
    refine .inl ⟨r, _, rfl, Prod.ext hok rfl, ?_, (stateIs_of_conns hconns).trans hup⟩
    rw [htables]
    exact Function.update_self ..

theorem writeAndRead_run (hfresh : E.tables w.server (tableName S row.T) = none) (cells : List Bytes) :
    (∃ q w', writeAndRead P E.server self row w = (.ok q, w') ∧
        q.rows.items.map (fun row => row.cells.map Buf.text) = [cells]) ↔
      row.Creatable ∧ ∃ r, row.made = some r ∧ cellsOf r = cells := by
  rcases created_or_failed row hE P hP self w hup hwilling hfree hfresh with
    ⟨hroom, w₁, hcreated, ht, hup₁⟩ | ⟨hno, hfails⟩
  · rcases inserted_or_failed row hE P hP self w₁ hup₁ hwilling hfree ht with
      ⟨r, w₂, hmade, hinserted, ht₂, hup₂⟩ | ⟨hnone, hfails⟩
    · have hselect := hwilling (.select row.name) (by simp [Row.calls]) _ rfl
      have hgives := select_gives hE w₂.server row.plainName hfree (hselect _)
      rw [show S.clip (fold row.name) = tableName S row.T from rfl, ht₂] at hgives
      obtain ⟨q, w₃, hselected, hrows⟩ := select_executes P hP self w₂ hup₂ hgives
      have hrun : writeAndRead P E.server self row w = (.ok q, w₃) :=
        (bind_ok hcreated).trans ((bind_ok hinserted).trans hselected)
      rw [Multiset.map_singleton, Multiset.coe_eq_singleton] at hrows
      constructor
      · intro hwritten
        obtain ⟨q', w', hrun', hrows'⟩ := hwritten
        cases hrun.symm.trans hrun'
        exact ⟨hroom, r, hmade, List.singleton_inj.mp (hrows.symm.trans hrows')⟩
      · rintro ⟨-, r', hmade', hcells⟩
        cases hmade.symm.trans hmade'
        exact ⟨q, w₃, hrun, hrows.trans (congrArg (fun c => [c]) hcells)⟩
    · constructor
      · intro hwritten
        obtain ⟨q, w', hrun, -⟩ := hwritten
        obtain ⟨_, w₁', h₁, hrest⟩ := bind_eq_ok hrun
        cases hcreated.symm.trans h₁
        obtain ⟨_, w₂, h₂, -⟩ := bind_eq_ok hrest
        exact absurd (congrArg Prod.fst h₂) hfails
      · rintro ⟨-, r, hmade, -⟩
        cases hnone.symm.trans hmade
  · constructor
    · intro hwritten
      obtain ⟨q, w', hrun, -⟩ := hwritten
      obtain ⟨_, w₁, h₁, -⟩ := bind_eq_ok hrun
      exact absurd (congrArg Prod.fst h₁) hfails
    · exact fun h => absurd h.1 hno

/-- A written row reads back exactly when it has a field, the server can have it, and every value is
kept by its column. -/
theorem writeAndRead_iff (hfresh : E.tables w.server (tableName S row.T) = none) :
    (∃ q w', writeAndRead P E.server self row w = (.ok q, w') ∧ Reads q row.values) ↔
      row.values ≠ [] ∧ row.HasRoom ∧ ∀ v ∈ row.values, keeps v = true := by
  have hrow := row_iff S row.fields row.values row.typed row.stored
  have hheld (cs : List Constant) := @held_row S row.fields row.values row.typed row.stored cs
  have hrun (cells : List Bytes) := writeAndRead_run row hE P hP self w hup hwilling hfree hfresh cells
  rw [← row.declared_eq] at hrow hheld
  rw [← hrow]
  constructor
  · intro h
    obtain ⟨q, w', hq, cells, hrows, hreads⟩ := h
    obtain ⟨hroom, _, hmade, rfl⟩ := (hrun cells).mp ⟨q, w', hq, hrows⟩
    obtain ⟨cs, r, hcs, hne, hr, hfits, rfl⟩ := row.made_eq_some.mp hmade
    rw [hheld cs hcs hr] at hfits
    refine ⟨?_, ⟨hroom, hfits⟩, cs, r, hcs, hr, hreads⟩
    intro hnil
    rw [hnil] at hcs
    cases hcs
    exact hne rfl
  · intro hkept
    obtain ⟨hne, ⟨hroom, hfits⟩, cs, r, hcs, hr, hreads⟩ := hkept
    have hcs' : cs ≠ [] := by
      intro hnil
      subst hnil
      have hlen := length_of_mapM_some hcs
      rw [List.length_map] at hlen
      exact hne (List.length_eq_zero_iff.mp hlen.symm)
    rw [← hheld cs hcs hr] at hfits
    have hmade := row.made_eq_some.mpr ⟨cs, r, hcs, hcs', hr, hfits, rfl⟩
    obtain ⟨q, w', hq, hrows⟩ := (hrun _).mpr ⟨hroom, _, hmade, rfl⟩
    exact ⟨q, w', hq, _, hrows, hreads⟩

end

end

/-! Rows of one type: a number, a text and a price. -/

def itemFields : List StructField :=
  [⟨ascii "id", .int true 32⟩, ⟨ascii "title", .constU8Slice⟩, ⟨ascii "price", .float 64⟩]

def item : TypeArg := ⟨ascii "shop.Item", .struct itemFields, by decide, by decide⟩

def itemRow (price : FloatDecimal) : Row .plain where
  T := item
  fields := itemFields
  isStruct := rfl
  plain := by decide +kernel
  lower := by decide
  values := [.int true 32 (-7), .pointer .slice true .u8 none (ascii "it's"), .float 64 (.finite price)]
  typed := rfl
  stored := by
    simp only [List.forall_mem_cons]
    exact ⟨rfl, by decide, rfl, by simp⟩

/-- 250 -/
def wholePrice : FloatDecimal := ⟨false, 25, 1, by decide, by decide⟩

/-- 1.5 -/
def halfPrice : FloatDecimal := ⟨false, 15, -1, by decide, by decide⟩

theorem itemRow_hasRoom : (itemRow wholePrice).HasRoom :=
  ⟨⟨by decide, by simp [itemRow, itemFields, maxColumns]⟩, rfl⟩

theorem writeAndRead_wholePrice :
    ∃ q w', writeAndRead Platform.simple tables.server testSelf (itemRow wholePrice) noTables =
        (.ok q, w') ∧ Reads q (itemRow wholePrice).values :=
  (writeAndRead_iff (itemRow wholePrice) tables_executes Platform.simple
    Platform.simple_succeeds testSelf noTables rfl (fun call _ => tables_takes call) rfl rfl).mpr
    ⟨List.cons_ne_nil _ _, itemRow_hasRoom, by decide +kernel⟩

theorem writeAndRead_halfPrice :
    ¬ ∃ q w', writeAndRead Platform.simple tables.server testSelf (itemRow halfPrice) noTables =
        (.ok q, w') ∧ Reads q (itemRow halfPrice).values := by
  intro h
  obtain ⟨q, w', hq, cells, hrows, hreads⟩ := h
  obtain ⟨-, _, hmade, rfl⟩ := (writeAndRead_run (itemRow halfPrice)
    tables_executes Platform.simple Platform.simple_succeeds testSelf noTables rfl (fun call _ => tables_takes call)
    rfl rfl cells).mp ⟨q, w', hq, hrows⟩
  obtain ⟨cs, r, hcs, -, hr, -, rfl⟩ := (itemRow halfPrice).made_eq_some.mp hmade
  have hkeeps := (row_iff .plain itemFields (itemRow halfPrice).values rfl
    (itemRow _).stored).mp ⟨cs, r, hcs, hr, hreads⟩
  exact absurd (hkeeps (.float 64 (.finite halfPrice)) (by simp [itemRow])) (by decide)

end Psql
