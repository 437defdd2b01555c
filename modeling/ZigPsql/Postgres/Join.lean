import ZigPsql.Postgres.Server
import ZigPsql.Lib.Equijoin

/-!
# SELECT of columns from an inner join

A list of columns, or *, of two tables joined on the equality of two of their
columns. The server may give the rows in any order, here and for SELECT * of one
table. It reads neither system columns nor a table's name for a whole row.
-/

namespace Postgres
open Text Libpq Equijoin

abbrev Tuple := List (Option Datum)

structure ColumnRef where
  table : Option Bytes
  name : Bytes
  deriving DecidableEq

inductive Output where
  | all
  | refs (list : List ColumnRef)
  deriving DecidableEq

structure JoinQuery where
  output : Output
  left : Bytes
  right : Bytes
  leftKey : ColumnRef
  rightKey : ColumnRef
  deriving DecidableEq

inductive JoinRefusal where
  | undefinedTable | duplicateAlias | undefinedColumn | ambiguousColumn | undefinedOperator
  deriving DecidableEq, Repr

def JoinRefusal.sqlstate : JoinRefusal → Bytes
  | .undefinedTable => ascii "42P01"
  | .duplicateAlias => ascii "42712"
  | .undefinedColumn => ascii "42703"
  | .ambiguousColumn => ascii "42702"
  | .undefinedOperator => ascii "42883"

/-- The order in which the server gives the rows of a table that it was asked for. -/
structure Plan where
  arrange : List Tuple → List Tuple
  perm : ∀ rows, (arrange rows).Perm rows

def Plan.stored : Plan := ⟨id, fun _ => .refl _⟩

/-! ### Names -/

/-- A column that a name stands for, and where it is in the rows. -/
structure Place where
  column : Column
  index : ℕ

abbrev Scope := List (Bytes × Column)

def inScope (columns : List Column) (name : Bytes) : Scope := columns.map fun c => (name, c)

def ColumnRef.reads (ref : ColumnRef) (entry : Bytes × Column) : Bool :=
  ref.table.all (· = entry.1) && ref.name = entry.2.name

def resolve (tables : List Bytes) (scope : Scope) (ref : ColumnRef) : Except JoinRefusal Place :=
  if ref.table.any fun t => !tables.contains t then .error .undefinedTable
  else
    match scope.zipIdx.filter fun e => ref.reads e.1 with
    | [] => .error .undefinedColumn
    | [e] => .ok ⟨e.1.2, e.2⟩
    | _ => .error .ambiguousColumn

def Output.places (tables : List Bytes) (scope : Scope) : Output → Except JoinRefusal (List Place)
  | .all => .ok (scope.zipIdx.map fun e => ⟨e.1.2, e.2⟩)
  | .refs list => list.mapM (resolve tables scope)

/-- Whether there is an operator = for the two types; numbers of any type compare. -/
def comparable : SqlType → SqlType → Bool
  | .varchar _, .varchar _ => true
  | .varchar _, _ | _, .varchar _ => false
  | _, _ => true

/-! ### Rows -/

def cell (row : Tuple) (i : ℕ) : Option Datum := row[i]?.join

/-- NULL equals nothing. -/
def equal (i j : ℕ) (row : Tuple) : Bool := (cell row i).isSome && cell row i = cell row j

def picked (plan : Plan) (rows : List Tuple) (places : List Place) : Table where
  columns := places.map Place.column
  rows := plan.arrange (rows.map fun row => places.map fun p => cell row p.index)
  rect := by
    intro row hrow
    obtain ⟨r, -, rfl⟩ := List.mem_map.mp ((plan.perm _).mem_iff.mp hrow)
    rw [List.length_map, List.length_map]

def joined (plan : Plan) (db : Database) (q : JoinQuery) : Except JoinRefusal Table :=
  match db q.left, db q.right with
  | some l, some r =>
    if q.left = q.right then .error .duplicateAlias
    else do
      let scope := inScope l.columns q.left ++ inScope r.columns q.right
      let a ← resolve [q.left, q.right] scope q.leftKey
      let b ← resolve [q.left, q.right] scope q.rightKey
      if comparable a.column.type b.column.type then do
        let places ← q.output.places [q.left, q.right] scope
        let rows := (l.rows.product r.rows).map fun p => p.1 ++ p.2
        return picked plan (rows.filter (equal a.index b.index)) places
      else .error .undefinedOperator
  | _, _ => .error .undefinedTable

/-! ### Where a name leads -/

/-- The column of that name. -/
def findColumn (columns : List Column) (name : Bytes) : Option (Fin columns.length) :=
  (List.finRange columns.length).find? fun i => columns[i].name = name

/-- The column that a reference reads in a table of this name. -/
def findRef (columns : List Column) (name : Bytes) (ref : ColumnRef) : Option (Fin columns.length) :=
  if ref.table.all (· = name) then findColumn columns ref.name else none

theorem filter_eq_find? {α : Type} {p : α → Bool} {l : List α} (h : l.Pairwise fun a b => ¬ (p a = true ∧ p b = true)) :
    l.filter p = (l.find? p).toList := by
  induction l with
  | nil => rfl
  | cons a rest ih =>
    obtain ⟨ha, hrest⟩ := List.pairwise_cons.mp h
    cases hp : p a with
    | false => rw [List.filter_cons_of_neg (by simp [hp]), List.find?_cons_of_neg (by simp [hp]), ih hrest]
    | true =>
      have hnone : rest.filter p = [] := List.filter_eq_nil_iff.mpr fun b hb hpb => ha b hb ⟨hp, hpb⟩
      rw [List.filter_cons_of_pos hp, List.find?_cons_of_pos hp, hnone]
      rfl

theorem zipIdx_inScope (columns : List Column) (name : Bytes) (k : ℕ) :
    (inScope columns name).zipIdx k = (List.finRange columns.length).map fun i => ((name, columns[i]), i.val + k) := by
  apply List.ext_getElem
  · simp [inScope]
  · intro i h₁ h₂
    simp [inScope, Nat.add_comm]

/-- The columns of one table that a reference reads, from place `k` on. -/
theorem reads_inScope {columns : List Column} (hn : (columns.map Column.name).Nodup) (name : Bytes) (ref : ColumnRef)
    (k : ℕ) :
    ((inScope columns name).zipIdx k).filter (fun e => ref.reads e.1) =
      ((findRef columns name ref).map fun i => ((name, columns[i]), i.val + k)).toList := by
  rw [zipIdx_inScope, List.filter_map, findRef]
  split
  next htable =>
    have hpairs : (List.finRange columns.length).Pairwise fun i j =>
        ¬ (decide (columns[i].name = ref.name) = true ∧ decide (columns[j].name = ref.name) = true) := by
      refine (List.nodup_finRange _).imp fun {i j} hne hboth => hne ?_
      obtain ⟨hi, hj⟩ := hboth
      have hnames : (columns.map Column.name)[i.val] = (columns.map Column.name)[j.val] := by
        simpa using (of_decide_eq_true hi).trans (of_decide_eq_true hj).symm
      exact Fin.ext ((List.Nodup.getElem_inj_iff hn).mp hnames)
    have hpred : ((fun e : (Bytes × Column) × ℕ => ref.reads e.1) ∘
        fun i : Fin columns.length => ((name, columns[i]), i.val + k)) =
          fun i => decide (columns[i].name = ref.name) := by
      funext i
      simp only [Function.comp_apply, ColumnRef.reads, htable, Bool.true_and]
      exact decide_eq_decide.mpr eq_comm
    rw [hpred, filter_eq_find? hpairs, findColumn]
    cases (List.finRange columns.length).find? fun i => columns[i].name = ref.name <;> rfl
  next htable =>
    have hnone : (List.finRange columns.length).filter ((fun e : (Bytes × Column) × ℕ => ref.reads e.1) ∘
        fun i => ((name, columns[i]), i.val + k)) = [] := by
      rw [List.filter_eq_nil_iff]
      intro e _
      simp [ColumnRef.reads, Bool.eq_false_iff.mpr htable]
    rw [hnone]
    rfl

/-! ### Inner joins as equijoins -/

/-- A table but for the order of its rows. -/
structure Relation where
  columns : List Column
  rows : Multiset Tuple
  deriving DecidableEq

def Table.relation (t : Table) : Relation := ⟨t.columns, t.rows⟩

def Relation.plus (r : Relation) (row : Tuple) : Relation := ⟨r.columns, r.rows + {row}⟩

/-- A column of the left relation or of the right one. -/
abbrev Located (cl cr : List Column) : Type := Fin cl.length ⊕ Fin cr.length

section
variable (l r : Bytes) (cl cr : List Column)

def locate (ref : ColumnRef) : Except JoinRefusal (Located cl cr) :=
  if ref.table.any fun t => !([l, r].contains t) then .error .undefinedTable
  else
    match findRef cl l ref, findRef cr r ref with
    | none, none => .error .undefinedColumn
    | some i, none => .ok (.inl i)
    | none, some j => .ok (.inr j)
    | some _, some _ => .error .ambiguousColumn

def locations : Output → Except JoinRefusal (List (Located cl cr))
  | .all => .ok ((List.finRange _).map .inl ++ (List.finRange _).map .inr)
  | .refs list => list.mapM (locate l r cl cr)

variable {cl cr}

def columnAt : Located cl cr → Column
  | .inl i => cl[i]
  | .inr j => cr[j]

def valueAt (p : Tuple × Tuple) : Located cl cr → Option Datum
  | .inl i => cell p.1 i
  | .inr j => cell p.2 j

/-- A column of either table as a place in the rows of both. -/
def flat : Located cl cr → Place
  | .inl i => ⟨cl[i], i⟩
  | .inr j => ⟨cr[j], j + cl.length⟩

/-- The equijoin of two relations on the column `v` of each, as it is asked for. -/
def innerJoin (L R : Relation) (v : Bytes) (out : Output) : Except JoinRefusal Relation :=
  match findColumn L.columns v, findColumn R.columns v with
  | some i, some j =>
    if comparable L.columns[i].type R.columns[j].type then do
      let places ← locations l r L.columns R.columns out
      let pairs := equijoin (fun a => cell a i) (fun b => cell b j) L.rows R.rows
      return ⟨places.map columnAt, pairs.map fun p => places.map (valueAt p)⟩
    else .error .undefinedOperator
  | _, _ => .error .undefinedColumn

/-- The equijoin of two named relations; one is not joined with itself under one name. -/
def namedJoin (s : Bytes → Option Relation) (v : Bytes) (out : Output) : Except JoinRefusal Relation :=
  match s l, s r with
  | some L, some R => if l = r then .error .duplicateAlias else innerJoin l r L R v out
  | _, _ => .error .undefinedTable

variable {l r}

theorem cell_flat {a b : Tuple} (ha : a.length = cl.length) (s : Located cl cr) :
    cell (a ++ b) (flat s).index = valueAt (a, b) s := by
  cases s with
  | inl i =>
    have hi : i.val < a.length := by omega
    simp only [cell, flat, valueAt, List.getElem?_append_left hi]
  | inr j =>
    have hle : a.length ≤ j.val + cl.length := by omega
    have hsub : j.val + cl.length - a.length = j.val := by omega
    simp only [cell, flat, valueAt, List.getElem?_append_right hle, hsub]

theorem column_flat (s : Located cl cr) : (flat s).column = columnAt s := by
  cases s <;> rfl

theorem locate_left (hne : l ≠ r) (v : Bytes) :
    locate l r cl cr ⟨some l, v⟩ = (findColumn cl v).elim (.error .undefinedColumn) fun i => .ok (.inl i) := by
  have hother : findRef cr r ⟨some l, v⟩ = none := by simp [findRef, hne]
  have hown : findRef cl l ⟨some l, v⟩ = findColumn cl v := by simp [findRef]
  rw [locate, if_neg (by simp), hother, hown]
  cases findColumn cl v <;> rfl

theorem locate_right (hne : l ≠ r) (v : Bytes) :
    locate l r cl cr ⟨some r, v⟩ = (findColumn cr v).elim (.error .undefinedColumn) fun j => .ok (.inr j) := by
  have hother : findRef cl l ⟨some r, v⟩ = none := by simp [findRef, hne.symm]
  have hown : findRef cr r ⟨some r, v⟩ = findColumn cr v := by simp [findRef]
  rw [locate, if_neg (by simp), hother, hown]
  cases findColumn cr v <;> rfl

/-- The rows of both tables in which the two columns are equal, projected, are the pairs of the equijoin. -/
theorem joinedRows_eq (plan : Plan) (tl tr : Table) (i : Fin tl.columns.length) (j : Fin tr.columns.length)
    (places : List (Located tl.columns tr.columns)) :
    ((picked plan (((tl.rows.product tr.rows).map fun p => p.1 ++ p.2).filter
        (equal (flat (.inl i : Located tl.columns tr.columns)).index
          (flat (.inr j : Located tl.columns tr.columns)).index)) (places.map flat)).rows : Multiset Tuple) =
      (equijoin (fun a => cell a i) (fun b => cell b j) (tl.rows : Multiset Tuple) tr.rows).map
        fun p => places.map (valueAt p) := by
  have hlen (p : Tuple × Tuple) (hp : p ∈ tl.rows.product tr.rows) : p.1.length = tl.columns.length :=
    tl.rect p.1 (List.pair_mem_product.mp hp).1
  have hfilter : ((tl.rows.product tr.rows).map fun p => p.1 ++ p.2).filter
      (equal (flat (.inl i : Located tl.columns tr.columns)).index
        (flat (.inr j : Located tl.columns tr.columns)).index) =
        ((tl.rows.product tr.rows).filter fun p =>
          decide (Matches (fun a => cell a i) (fun b => cell b j) p)).map fun p => p.1 ++ p.2 := by
    rw [List.filter_map]
    refine congrArg _ (List.filter_congr fun p hp => ?_)
    rw [Function.comp_apply, equal, cell_flat (hlen p hp), cell_flat (hlen p hp), Bool.eq_iff_iff,
      Bool.and_eq_true, decide_eq_true_iff, decide_eq_true_iff]
    rfl
  have hperm := plan.perm ((((tl.rows.product tr.rows).filter fun p =>
    decide (Matches (fun a => cell a i) (fun b => cell b j) p)).map fun p => p.1 ++ p.2).map
      fun row => (places.map flat).map fun p => cell row p.index)
  rw [equijoin_coe, Multiset.map_coe, picked, hfilter, Multiset.coe_eq_coe.mpr hperm, List.map_map]
  refine congrArg _ (List.map_congr_left fun p hp => ?_)
  rw [Function.comp_apply, List.map_map]
  exact List.map_congr_left fun s _ => cell_flat (hlen p (List.mem_of_mem_filter hp)) s

variable (hl : (cl.map Column.name).Nodup) (hr : (cr.map Column.name).Nodup)
include hl hr

theorem resolve_eq (ref : ColumnRef) :
    resolve [l, r] (inScope cl l ++ inScope cr r) ref = (locate l r cl cr ref).map flat := by
  unfold resolve locate
  split
  · rfl
  have hlen : (inScope cl l).length = cl.length := List.length_map ..
  rw [List.zipIdx_append, List.filter_append, reads_inScope hl, reads_inScope hr, hlen, Nat.zero_add]
  cases findRef cl l ref <;> cases findRef cr r ref <;> rfl

theorem places_eq (out : Output) :
    out.places [l, r] (inScope cl l ++ inScope cr r) = (locations l r cl cr out).map fun places => places.map flat := by
  cases out with
  | all =>
    have hlen : (inScope cl l).length = cl.length := List.length_map ..
    simp only [Output.places, locations, Except.map, List.zipIdx_append, zipIdx_inScope, List.map_append, hlen,
      Nat.zero_add, List.map_map]
    rfl
  | refs list =>
    simp only [Output.places, locations]
    induction list with
    | nil => rfl
    | cons ref rest ih =>
      rw [List.mapM_cons, List.mapM_cons, ih, resolve_eq hl hr]
      cases locate l r cl cr ref with
      | error e => rfl
      | ok p => cases rest.mapM (locate l r cl cr) <;> rfl

end

theorem joined_eq (plan : Plan) {db : Database} {l r : Bytes} {tl tr : Table} (hdl : db l = some tl)
    (hdr : db r = some tr)
    (hl : (tl.columns.map Column.name).Nodup) (hr : (tr.columns.map Column.name).Nodup) (hne : l ≠ r) (v : Bytes)
    (out : Output) :
    (joined plan db ⟨out, l, r, ⟨some l, v⟩, ⟨some r, v⟩⟩).map Table.relation =
      innerJoin l r tl.relation tr.relation v out := by
  simp only [joined, innerJoin, Table.relation, hdl, hdr, hne, if_false, resolve_eq hl hr, places_eq hl hr,
    locate_left hne, locate_right hne]
  cases findColumn tl.columns v with
  | none => rfl
  | some i =>
    cases findColumn tr.columns v with
    | none => rfl
    | some j =>
      have hrows := joinedRows_eq plan tl tr i j
      change Except.map _ (if comparable tl.columns[i].type tr.columns[j].type then _ else _) =
        if comparable tl.columns[i].type tr.columns[j].type then _ else _
      by_cases hc : comparable tl.columns[i].type tr.columns[j].type = true
      · rw [if_pos hc, if_pos hc]
        cases locations l r tl.columns tr.columns out with
        | error e => rfl
        | ok places =>
          have hcolumns : (places.map flat).map Place.column = places.map columnAt := by
            rw [List.map_map]
            exact List.map_congr_left fun s _ => column_flat s
          exact congrArg Except.ok (congrArg₂ Relation.mk hcolumns (hrows places))
      · rw [if_neg hc, if_neg hc]
        rfl

theorem joined_named (plan : Plan) {db : Database} (hdb : ∀ n t, db n = some t → (t.columns.map Column.name).Nodup)
    (l r v : Bytes) (out : Output) :
    (joined plan db ⟨out, l, r, ⟨some l, v⟩, ⟨some r, v⟩⟩).map Table.relation =
      namedJoin l r (fun n => (db n).map Table.relation) v out := by
  cases hdl : db l with
  | none =>
    simp only [joined, namedJoin, hdl]
    rfl
  | some tl =>
    cases hdr : db r with
    | none =>
      simp only [joined, namedJoin, hdl, hdr]
      rfl
    | some tr =>
      by_cases hne : l = r
      · simp only [joined, namedJoin, hdr, hne, if_true]
        rfl
      · rw [joined_eq plan hdl hdr (hdb l tl hdl) (hdb r tr hdr) hne v out]
        simp only [namedJoin, hdl, hdr, hne, Option.map_some, if_false]

/-! ### Either way round -/

theorem comparable_swap (a b : SqlType) : comparable a b = comparable b a := by
  cases a <;> cases b <;> rfl

section
variable (l r : Bytes) {cl cr : List Column}

theorem locate_swap (ref : ColumnRef) : locate r l cr cl ref = (locate l r cl cr ref).map Sum.swap := by
  have htables : (ref.table.any fun t => !([r, l].contains t)) = ref.table.any fun t => !([l, r].contains t) := by
    cases ref.table with
    | none => rfl
    | some t => simp [Bool.and_comm]
  unfold locate
  rw [htables]
  split
  · rfl
  · cases findRef cl l ref <;> cases findRef cr r ref <;> rfl

theorem locations_swap (list : List ColumnRef) :
    locations r l cr cl (.refs list) = (locations l r cl cr (.refs list)).map (List.map Sum.swap) := by
  simp only [locations]
  induction list with
  | nil => rfl
  | cons ref rest ih =>
    rw [List.mapM_cons, List.mapM_cons, ih, locate_swap]
    cases locate l r cl cr ref with
    | error e => rfl
    | ok p => cases rest.mapM (locate l r cl cr) <;> rfl

theorem columnAt_swap (p : Located cl cr) : columnAt p.swap = columnAt p := by
  cases p <;> rfl

theorem valueAt_swap (a b : Tuple) (p : Located cl cr) : valueAt (b, a) p.swap = valueAt (a, b) p := by
  cases p <;> rfl

/-- With a list of columns it does not matter which relation comes first. -/
theorem innerJoin_swap (L R : Relation) (v : Bytes) (list : List ColumnRef) :
    innerJoin r l R L v (.refs list) = innerJoin l r L R v (.refs list) := by
  unfold innerJoin
  cases findColumn L.columns v with
  | none => cases findColumn R.columns v <;> rfl
  | some i =>
    cases findColumn R.columns v with
    | none => rfl
    | some j =>
      simp only [comparable_swap R.columns[j].type, locations_swap l r]
      split
      · cases locations l r L.columns R.columns (.refs list) with
        | error e => rfl
        | ok places =>
          refine congrArg Except.ok (congrArg₂ Relation.mk ?_ ?_)
          · rw [List.map_map]
            exact List.map_congr_left fun p _ => columnAt_swap p
          · rw [← equijoin_swap, Multiset.map_map]
            refine Multiset.map_congr rfl fun p _ => ?_
            rw [Function.comp_apply, List.map_map]
            exact List.map_congr_left fun q _ => valueAt_swap p.1 p.2 q
      · rfl

theorem namedJoin_swap (s : Bytes → Option Relation) (v : Bytes) (list : List ColumnRef) :
    namedJoin r l s v (.refs list) = namedJoin l r s v (.refs list) := by
  unfold namedJoin
  cases s l with
  | none => cases s r <;> rfl
  | some L =>
    cases s r with
    | none => rfl
    | some R =>
      by_cases hne : l = r
      · simp only [hne, if_true]
      · simp only [hne, Ne.symm hne, if_false, innerJoin_swap]

end
end Postgres
