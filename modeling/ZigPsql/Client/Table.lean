import ZigPsql.Client.Connection
import Mathlib.Data.List.Induction

/-!
# Tables for struct types: psql.mapTypeToSQL, stripModuleName and createTableFor
-/

namespace Psql
open Effect Effect.Eff Text Zig Libpq

variable {σ : Type}

structure StructField where
  name : Bytes
  type : ZigType
  deriving DecidableEq

inductive TypeInfo where
  | struct (fields : List StructField)
  | other

/-- A comptime type: what @typeName and @typeInfo give for it. -/
structure TypeArg where
  typeName : Bytes
  info : TypeInfo
  named : typeName ≠ []
  addressable : typeName.length < 2 ^ 63

def mapTypeToSQL (T : ZigType) : Bytes :=
  match T with
  | .int _ _ => ascii "INTEGER"
  | .float _ => ascii "NUMERIC(255)"
  | _ => ascii "VARCHAR(255)"

/-! The machine integers of the backward scan: a conversion or a subtraction that does not fit is
`none`, and so is an index outside the string. -/

def usizeSub (a b : ℕ) : Option ℕ := if b ≤ a then some (a - b) else none
def toIsize (n : ℕ) : Option ℤ := if n < 2 ^ 63 then some n else none
def toUsize (z : ℤ) : Option ℕ := if 0 ≤ z then some z.toNat else none
def isizeAdd (a b : ℤ) : Option ℤ := if -2 ^ 63 ≤ a + b ∧ a + b < 2 ^ 63 then some (a + b) else none
/-- typeName[i..] -/
def sliceFrom (t : Bytes) (i : ℕ) : Option Bytes := if i ≤ t.length then some (t.drop i) else none

/-- The loop from index `i` down, for at most `fuel` steps. -/
def stripFrom (typeName : Bytes) : ℕ → ℤ → Option Bytes
  | 0, _ => none
  | fuel + 1, i =>
    if 0 ≤ i then do
      let at_i ← toUsize i
      let b ← typeName[at_i]?
      if b = 46 then
        let next ← isizeAdd i 1
        let start ← toUsize next
        sliceFrom typeName start
      else
        let below ← isizeAdd i (-1)
        stripFrom typeName fuel below
    else some typeName

def stripModuleName (typeName : Bytes) : Option Bytes := do
  let last ← usizeSub typeName.length 1
  let i ← toIsize last
  stripFrom typeName (typeName.length + 1) i

abbrev Parts := ArrayList Bytes 16

def appendPart (P : Platform) (part : Bytes) : Eff (Heap × Parts) Errors Stop Unit :=
  update fun parts => parts.append P part

def separateParts (P : Platform) (first : Bool) : Eff (Heap × Parts) Errors Stop Unit :=
  if !first then appendPart P (ascii ", ") else return ()

/-- One pass of the inline loop over the fields: the flag `first` before and after it. -/
def appendField (P : Platform) (first : Bool) (field : StructField) : Eff (Heap × Parts) Errors Stop Bool := do
  separateParts P first
  appendPart P field.name
  appendPart P (ascii " ")
  appendPart P (mapTypeToSQL field.type)
  return false

def appendParts (P : Platform) (typeName : Bytes) (fields : List StructField) :
    Eff (Heap × Parts) Errors Stop Unit := do
  appendPart P (ascii "CREATE TABLE IF NOT EXISTS ")
  match stripModuleName typeName with
  | none => halt .safetyCheck
  | some name => appendPart P name
  appendPart P (ascii " (")
  let _ ← fields.foldlM (appendField P) true
  appendPart P (ascii ");")

/-- A step on the heap and a local list, in the larger state. -/
def inHeapVar {L α : Type} (m : Eff (Heap × L) Errors Stop α) : Eff (World σ × L) Errors Stop α :=
  zoom (fun s => (s.1.heap, s.2)) (fun s t => ({ s.1 with heap := t.1 }, t.2)) m

theorem inHeapVar_run {L α : Type} {m : Eff (Heap × L) Errors Stop α} {w : World σ} {l l' : L}
    {o : Outcome Errors Stop α} {h : Heap} (hm : m (w.heap, l) = (o, (h, l'))) :
    inHeapVar m (w, l) = (o, ({ w with heap := h }, l')) := by
  simp only [inHeapVar, zoom, hm]

def sendParts (P : Platform) (srv : Server σ) (self : Self) (parts : Parts) : Eff (World σ) Errors Stop Unit := do
  let query ← inHeap (join P [] parts.items)
  execQuery srv self query
  inHeap (free query.block)

/-- What the deferred deinit of the list guards. -/
def createTable (P : Platform) (srv : Server σ) (self : Self) (typeName : Bytes) (fields : List StructField) :
    Eff (World σ × Parts) Errors Stop Unit := do
  inHeapVar (appendParts P typeName fields)
  let parts ← readVar
  lifted (sendParts P srv self parts)

def createTableFor (P : Platform) (srv : Server σ) (self : Self) (T : TypeArg) :
    Eff (World σ) Errors Stop Unit :=
  match T.info with
  | .other => throw .NotAStruct
  | .struct fields =>
    withVar (ArrayList.init : Parts) <|
      deferring (inHeapVar ArrayList.deinitVar) (createTable P srv self T.typeName fields)

/-! ### What the scan finds and what the parts spell -/

def afterLastDot (t : Bytes) : Bytes := (t.reverse.takeWhile (· != 46)).reverse

theorem takeWhile_noDot (t u : Bytes) (h : 46 ∉ t) :
    (t ++ u).takeWhile (· != 46) = t ++ u.takeWhile (· != 46) := by
  apply List.takeWhile_append_of_pos
  intro b hb
  have hne : b ≠ 46 := fun he => h (he ▸ hb)
  simp [hne]

theorem afterLastDot_noDot (t : Bytes) (h : 46 ∉ t) : afterLastDot t = t := by
  have ht := takeWhile_noDot t.reverse [] (by simpa using h)
  rw [List.append_nil, List.takeWhile_nil, List.append_nil] at ht
  rw [afterLastDot, ht, List.reverse_reverse]

theorem afterLastDot_append (p r : Bytes) (h : 46 ∉ r) : afterLastDot (p ++ 46 :: r) = r := by
  have hr := takeWhile_noDot r.reverse (46 :: p.reverse) (by simpa using h)
  rw [List.takeWhile_cons_of_neg (by decide), List.append_nil] at hr
  simp [afterLastDot, hr]

/-! The scan at an index inside the string, and what it knows of the bytes above it. -/

theorem toUsize_natCast (n : ℕ) : toUsize (n : ℤ) = some n := if_pos (Int.natCast_nonneg n)

section
variable {t : Bytes} {k : ℕ} (hk : k < t.length)
include hk

theorem stripFrom_step (fuel : ℕ) : stripFrom t (fuel + 1) k =
    if t[k] = 46 then (isizeAdd k 1).bind fun next => (toUsize next).bind (sliceFrom t)
    else (isizeAdd k (-1)).bind (stripFrom t fuel) := by
  have hbyte : t[k]? = some t[k] := List.getElem?_eq_getElem hk
  generalize hnext : isizeAdd (k : ℤ) 1 = next
  generalize hbelow : isizeAdd (k : ℤ) (-1) = below
  rw [stripFrom, if_pos (Int.natCast_nonneg k), toUsize_natCast, hnext, hbelow]
  simp only [Option.bind_eq_bind, Option.bind_some, hbyte]

theorem afterLastDot_dot (hb : t[k] = 46) (hseen : 46 ∉ t.drop (k + 1)) : afterLastDot t = t.drop (k + 1) := by
  have hsplit : t = t.take k ++ 46 :: t.drop (k + 1) := by
    rw [← hb, ← List.drop_eq_getElem_cons hk, List.take_append_drop]
  conv_lhs => rw [hsplit]
  exact afterLastDot_append _ _ hseen

theorem notSeen_other (hb : t[k] ≠ 46) (hseen : 46 ∉ t.drop (k + 1)) : 46 ∉ t.drop k := by
  rw [List.drop_eq_getElem_cons hk, List.mem_cons, not_or]
  exact ⟨Ne.symm hb, hseen⟩

end

/-- Below index `k` the scan has seen no dot, and it ends with the longest suffix that has none. -/
theorem stripFrom_eq (t : Bytes) (ht : t.length < 2 ^ 63) (fuel k : ℕ) (hk : k ≤ t.length) (hf : k < fuel)
    (hseen : 46 ∉ t.drop k) : stripFrom t fuel (k - 1) = some (afterLastDot t) := by
  induction k generalizing fuel with
  | zero =>
    obtain ⟨fuel, rfl⟩ := Nat.exists_eq_add_of_lt hf
    simpa [stripFrom] using (afterLastDot_noDot t hseen).symm
  | succ k ih =>
    obtain ⟨n, rfl⟩ := Nat.exists_eq_add_of_lt hf
    have hi : ((k + 1 : ℕ) : ℤ) - 1 = k := by omega
    rw [hi, stripFrom_step hk]
    by_cases hb : t[k] = 46
    · have hnext : isizeAdd k 1 = some ((k + 1 : ℕ) : ℤ) := if_pos (by omega)
      have hslice : sliceFrom t (k + 1) = some (t.drop (k + 1)) := if_pos hk
      rw [if_pos hb, hnext, Option.bind_some, toUsize_natCast, Option.bind_some, hslice, afterLastDot_dot hk hb hseen]
    · have hbelow : isizeAdd k (-1) = some ((k : ℤ) - 1) := if_pos (by omega)
      rw [if_neg hb, hbelow, Option.bind_some]
      exact ih (k + 1 + n) (by omega) (by omega) (notSeen_other hk hb hseen)

theorem stripModuleName_eq (t : Bytes) (hne : t ≠ []) (ht : t.length < 2 ^ 63) :
    stripModuleName t = some (afterLastDot t) := by
  have hpos : 1 ≤ t.length := List.length_pos_iff.mpr hne
  have hlast : usizeSub t.length 1 = some (t.length - 1) := if_pos hpos
  have hi : toIsize (t.length - 1) = some ((t.length : ℤ) - 1) := by
    rw [toIsize, if_pos (by omega), Nat.cast_sub hpos, Nat.cast_one]
  have hscan := stripFrom_eq t ht (t.length + 1) t.length le_rfl (Nat.lt_succ_self _) (by simp)
  simp [stripModuleName, hlast, hi, hscan]

/-! A scan that ends has found that suffix, whatever the length of the string. -/

theorem some_of_guard {α : Type} {p : Prop} [Decidable p] {a b : α} (h : (if p then some a else none) = some b) :
    p ∧ b = a := by
  split at h
  next hp => exact ⟨hp, (Option.some.inj h).symm⟩
  next => cases h

theorem stripFrom_sound (t : Bytes) (fuel k : ℕ) (hk : k ≤ t.length) (hseen : 46 ∉ t.drop k) {r : Bytes}
    (hr : stripFrom t fuel (k - 1) = some r) : r = afterLastDot t := by
  induction fuel generalizing k with
  | zero => cases hr
  | succ fuel ih =>
    cases k with
    | zero =>
      have hwhole : some t = some r := by simpa [stripFrom] using hr
      rw [afterLastDot_noDot t hseen]
      exact (Option.some.inj hwhole).symm
    | succ k =>
      have hi : ((k + 1 : ℕ) : ℤ) - 1 = k := by omega
      rw [hi, stripFrom_step hk] at hr
      by_cases hb : t[k] = 46
      · rw [if_pos hb] at hr
        obtain ⟨next, hnext, start, hstart, hslice⟩ := by simpa only [Option.bind_eq_some_iff] using hr
        obtain ⟨-, rfl⟩ := some_of_guard hnext
        rw [show (k : ℤ) + 1 = (k + 1 : ℕ) from rfl, toUsize_natCast] at hstart
        cases hstart
        rw [afterLastDot_dot hk hb hseen]
        exact (some_of_guard hslice).2
      · rw [if_neg hb] at hr
        obtain ⟨below, hbelow, hrest⟩ := Option.bind_eq_some_iff.mp hr
        obtain ⟨-, rfl⟩ := some_of_guard hbelow
        exact ih k (by omega) (notSeen_other hk hb hseen) hrest

theorem stripModuleName_sound {t r : Bytes} (hr : stripModuleName t = some r) : r = afterLastDot t := by
  obtain ⟨last, hlast, i, hi, hscan⟩ := by
    simpa only [stripModuleName, Option.bind_eq_bind, Option.bind_eq_some_iff] using hr
  obtain ⟨hpos, rfl⟩ := some_of_guard hlast
  obtain ⟨-, rfl⟩ := some_of_guard hi
  rw [Nat.cast_sub hpos, Nat.cast_one] at hscan
  exact stripFrom_sound t _ t.length le_rfl (by simp) hscan

theorem afterLastDot_splits (t : Bytes) :
    46 ∉ afterLastDot t ∧ (46 ∉ t ∧ afterLastDot t = t ∨ ∃ p, t = p ++ 46 :: afterLastDot t) := by
  induction t using List.reverseRec with
  | nil => exact ⟨List.not_mem_nil, .inl ⟨List.not_mem_nil, rfl⟩⟩
  | append_singleton t b ih =>
    by_cases hb : b = 46
    · subst hb
      have hlast : afterLastDot (t ++ [46]) = [] := afterLastDot_append t [] List.not_mem_nil
      rw [hlast]
      exact ⟨List.not_mem_nil, .inr ⟨t, rfl⟩⟩
    · have hgrow : afterLastDot (t ++ [b]) = afterLastDot t ++ [b] := by simp [afterLastDot, hb]
      have hb' : (46 : Byte) ≠ b := Ne.symm hb
      rw [hgrow]
      obtain ⟨hno, ⟨hnot, hwhole⟩ | ⟨p, hp⟩⟩ := ih
      · exact ⟨by simp [hno, hb'], .inl ⟨by simp [hnot, hb'], by rw [hwhole]⟩⟩
      · refine ⟨by simp [hno, hb'], .inr ⟨p, ?_⟩⟩
        rw [← List.cons_append, ← List.append_assoc, ← hp]

/-- The scan of any name that fits the address space ends without a failed conversion or an index
outside it; what it returns is the name after the last dot, or the whole of a name without one. -/
theorem stripModuleName_splits (t : Bytes) (hne : t ≠ []) :
    (t.length < 2 ^ 63 → ∃ r, stripModuleName t = some r) ∧
      ∀ r, stripModuleName t = some r → 46 ∉ r ∧ (46 ∉ t ∧ r = t ∨ ∃ p, t = p ++ 46 :: r) := by
  constructor
  · intro ht
    exact ⟨_, stripModuleName_eq t hne ht⟩
  · intro r hr
    rw [stripModuleName_sound hr]
    exact afterLastDot_splits t

/-- Dots in the first and the last position. -/
theorem stripModuleName_splits_ends : ∃ r, stripModuleName (ascii ".m.User.") = some r ∧ 46 ∉ r := by
  obtain ⟨hreturns, hsplits⟩ := stripModuleName_splits (ascii ".m.User.") (by decide)
  obtain ⟨r, hr⟩ := hreturns (by decide)
  exact ⟨r, hr, (hsplits r hr).1⟩

def fieldText (field : StructField) : Bytes := field.name ++ ascii " " ++ mapTypeToSQL field.type

def createTableQuery (typeName : Bytes) (fields : List StructField) : Bytes :=
  ascii "CREATE TABLE IF NOT EXISTS " ++ afterLastDot typeName ++ ascii " (" ++
    (ascii ", ").intercalate (fields.map fieldText) ++ ascii ");"

theorem afterLastDot_noNul (t : Bytes) (h : 0 ∉ t) : 0 ∉ afterLastDot t := by
  intro hmem
  have hmem' := List.takeWhile_subset _ (List.mem_reverse.mp hmem)
  exact h (List.mem_reverse.mp hmem')

/-- The bytes of the statement that come from no name. -/
def createTableBytes : Bytes :=
  ascii "CREATE TABLE IF NOT EXISTS (, );" ++ ascii "INTEGER" ++ ascii "NUMERIC(255)" ++ ascii "VARCHAR(255)"

theorem mapTypeToSQL_subset (T : ZigType) : mapTypeToSQL T ⊆ createTableBytes := by
  unfold mapTypeToSQL
  split <;> decide

theorem mem_createTableQuery {typeName : Bytes} {fields : List StructField} {b : Byte}
    (h : b ∈ createTableQuery typeName fields) :
    b ∈ afterLastDot typeName ∨ (∃ field ∈ fields, b ∈ field.name) ∨ b ∈ createTableBytes := by
  have hstart : ascii "CREATE TABLE IF NOT EXISTS " ⊆ createTableBytes := by decide
  have hopen : ascii " (" ⊆ createTableBytes := by decide
  have hcomma : ascii ", " ⊆ createTableBytes := by decide
  have hspace : ascii " " ⊆ createTableBytes := by decide
  have hend : ascii ");" ⊆ createTableBytes := by decide
  simp only [createTableQuery, List.mem_append] at h
  rcases h with (((h | h) | h) | h) | h
  · exact .inr (.inr (hstart h))
  · exact .inl h
  · exact .inr (.inr (hopen h))
  · rcases mem_of_mem_intercalate h with h | ⟨t, ht, hb⟩
    · exact .inr (.inr (hcomma h))
    · obtain ⟨field, hfield, rfl⟩ := List.mem_map.mp ht
      simp only [fieldText, List.mem_append] at hb
      rcases hb with (hb | hb) | hb
      · exact .inr (.inl ⟨field, hfield, hb⟩)
      · exact .inr (.inr (hspace hb))
      · exact .inr (.inr (mapTypeToSQL_subset field.type hb))
  · exact .inr (.inr (hend h))

theorem createTableQuery_noNul {typeName : Bytes} {fields : List StructField} (hname : 0 ∉ afterLastDot typeName)
    (hf : ∀ field ∈ fields, 0 ∉ field.name) : 0 ∉ createTableQuery typeName fields := by
  intro hmem
  rcases mem_createTableQuery hmem with h | ⟨field, hfield, h⟩ | h
  · exact hname h
  · exact hf field hfield h
  · exact absurd h (by decide)

def Spells (text : Bytes) (s : Heap × Parts) : Prop := s.2.items.flatten = text

theorem appendPart_tries (P : Platform) (text part : Bytes) :
    Tries (¬ P.Succeeds) (Spells text) (appendPart P part) fun _ => Spells (text ++ part) := by
  refine tries_update (P := fun (l : Parts) _ => l.items.flatten = text)
    (Q := fun (l : Parts) _ => l.items.flatten = text ++ part) fun l h hl => ?_
  rcases ArrayList.appendSlice_tries (E := Errors) (C := Stop) P l [part] h trivial with ⟨g, h', hg, hi⟩ | he
  · have hspell : g.items.flatten = text ++ part := by
      rw [hi, List.flatten_append, hl, List.flatten_singleton]
    exact .inl ⟨g, h', hg, hspell⟩
  · exact .inr he

theorem separateParts_tries (P : Platform) (text : Bytes) (first : Bool) :
    Tries (¬ P.Succeeds) (Spells text) (separateParts P first) fun _ =>
      Spells (text ++ if first then [] else ascii ", ") := by
  cases first with
  | true => exact tries_of_returns (returns_pure _ fun _ hs => by simpa using hs)
  | false => exact appendPart_tries P text (ascii ", ")

theorem appendField_tries (P : Platform) (text : Bytes) (done : List StructField) (field : StructField)
    (first : Bool) :
    Tries (¬ P.Succeeds)
      (fun s => first = done.isEmpty ∧ Spells (text ++ (ascii ", ").intercalate (done.map fieldText)) s)
      (appendField P first field)
      (fun first s => first = (done ++ [field]).isEmpty ∧
        Spells (text ++ (ascii ", ").intercalate ((done ++ [field]).map fieldText)) s) := by
  intro s h
  obtain ⟨rfl, hs⟩ := h
  have hjoin : text ++ (ascii ", ").intercalate ((done ++ [field]).map fieldText) =
      text ++ (ascii ", ").intercalate (done.map fieldText) ++ (if done.isEmpty then [] else ascii ", ") ++
        field.name ++ ascii " " ++ mapTypeToSQL field.type := by
    rw [List.map_append, List.map_singleton, intercalate_append_one]
    cases done <;> simp [fieldText]
  rw [hjoin]
  exact tries_bind (separateParts_tries P _ done.isEmpty) (fun _ =>
    tries_bind (appendPart_tries P _ field.name) fun _ =>
      tries_bind (appendPart_tries P _ (ascii " ")) fun _ =>
        tries_bind (appendPart_tries P _ (mapTypeToSQL field.type)) fun _ =>
          tries_of_returns (returns_pure false fun _ hs => ⟨by simp, hs⟩)) s hs

theorem appendParts_tries (P : Platform) (typeName : Bytes) (fields : List StructField) (hne : typeName ≠ [])
    (hlen : typeName.length < 2 ^ 63) :
    Tries (¬ P.Succeeds) (Spells []) (appendParts P typeName fields) fun _ =>
      Spells (createTableQuery typeName fields) := by
  unfold appendParts createTableQuery
  rw [stripModuleName_eq typeName hne hlen]
  refine tries_bind (appendPart_tries P [] _) fun _ => tries_bind (appendPart_tries P _ _) fun _ =>
    tries_bind (appendPart_tries P _ _) fun _ => ?_
  have hloop : Tries (¬ P.Succeeds)
      (fun s => true = ([] : List StructField).isEmpty ∧
        Spells (ascii "CREATE TABLE IF NOT EXISTS " ++ afterLastDot typeName ++ ascii " (" ++
          (ascii ", ").intercalate ([].map fieldText)) s)
      (fields.foldlM (appendField P) true)
      (fun first s => first = ([] ++ fields).isEmpty ∧
        Spells (ascii "CREATE TABLE IF NOT EXISTS " ++ afterLastDot typeName ++ ascii " (" ++
          (ascii ", ").intercalate (([] ++ fields).map fieldText)) s) :=
    tries_foldlM (fun done first s => first = done.isEmpty ∧
      Spells (ascii "CREATE TABLE IF NOT EXISTS " ++ afterLastDot typeName ++ ascii " (" ++
        (ascii ", ").intercalate (done.map fieldText)) s) (appendField P)
      (fun done field first => appendField_tries P _ done field first) [] fields true
  apply tries_bind (fun s hs => hloop s ⟨rfl, by simpa [Spells] using hs⟩)
  intro _
  exact fun s hs => appendPart_tries P _ (ascii ");") s hs.2

end Psql
