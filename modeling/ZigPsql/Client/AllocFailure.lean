import ZigPsql.Zig.Demand
import ZigPsql.Client.Contents

/-!
# When memory runs out

What escapeString holds it frees on every way out. A fragment of the parameter
string, once it is allocated, is not freed on any; and getResult gives up
without freeing or clearing anything.
-/

namespace Psql
open Effect Effect.Eff Text Zig Libpq

variable {σ : Type} {f : Bool}

/-- The k-th allocation that a call attempts is made, and fails. -/
def FailsAt (P : Platform) (k : ℕ) (before after : Heap) : Prop :=
  P.fails (before.attempts + k) = true ∧ before.attempts + k < after.attempts

/-- The call returns OutOfMemory and has freed whatever it allocated. -/
def Unwinds {α : Type} (before : Heap) (o : Outcome Errors Stop α) (after : Heap) : Prop :=
  o = .err .OutOfMemory ∧ after.ledger = before.ledger ∧ after.faulted = before.faulted

/-- The string of the first element that is rendered, where it is one. -/
def leadingString : List Value → Option Bytes
  | [] => none
  | v :: rest => if rendering v = none then leadingString rest else stringOf v

/-! ### The allocations of escapeString -/

/-- What escaping the character asks of the list. -/
def escapeDemand (P : Platform) (d : Demand) (c : Byte) : Demand := d.append P (if c = 39 then 2 else 1)

/-- How many allocations escapeString makes when none fails. -/
def escapeAllocs (P : Platform) (remapAttempts : ℕ) (str : Bytes) : ℕ :=
  let d := str.foldl (escapeDemand P) ⟨0, 0, remapAttempts, 0⟩
  (d.resize P d.length).allocs

theorem le_escapeDemands (P : Platform) (str : Bytes) (d : Demand) : d.allocs ≤ (str.foldl (escapeDemand P) d).allocs := by
  induction str generalizing d with
  | nil => exact le_refl _
  | cons c rest ih => exact (d.le_append P _).trans (ih _)

theorem escapeDemands_met (P : Platform) {a : ℕ} (str : Bytes) (d : Demand) :
    Ends (ArrayList.VarMet a d)
      (str.forM fun c =>
        if c = 39 then update fun escaped => escaped.appendSlice P [39, 39]
        else update fun escaped => escaped.append P c : Eff (Heap × ArrayList Byte 1) Errors Stop PUnit)
      (fun _ => ArrayList.VarMet a (str.foldl (escapeDemand P) d))
      fun _ s => s.1.attempts ≤ a + (str.foldl (escapeDemand P) d).allocs := by
  induction str generalizing d with
  | nil => exact ends_of_returns (returns_pure _ fun _ hh => hh)
  | cons c rest ih =>
    refine ends_bind (Q := fun _ => ArrayList.VarMet a (escapeDemand P d c)) ?_ fun _ => ih _
    have hstep (xs : Bytes) (hx : escapeDemand P d c = d.append P xs.length) :
        Ends (ArrayList.VarMet a d)
          (update fun escaped => escaped.appendSlice P xs : Eff (Heap × ArrayList Byte 1) Errors Stop Unit)
          (fun _ => ArrayList.VarMet a (escapeDemand P d c))
          fun _ s => s.1.attempts ≤ a + ((c :: rest).foldl (escapeDemand P) d).allocs := by
      refine ends_conseq (ArrayList.appendSliceVar_met P d xs) (fun _ hh => hh) (fun _ _ hq => hx ▸ hq) fun _ _ hr => ?_
      rw [hr.1, ← hx]
      exact Nat.add_le_add_left (le_escapeDemands P rest _) a
    change Ends _ (if c = 39 then _ else _) _ _
    split
    · exact hstep [39, 39] (by rw [escapeDemand, if_pos ‹_›]; rfl)
    · exact hstep [c] (by rw [escapeDemand, if_neg ‹_›]; rfl)

/-- A call of escapeString attempts no more allocations than it needs, and as many where it returns. -/
theorem escapeString_allocs (P : Platform) {a r : ℕ} (str : Bytes) :
    Ends (fun h => h.attempts = a ∧ h.remapAttempts = r) (escapeString P str)
      (fun _ h => h.attempts = a + escapeAllocs P r str) fun _ h => h.attempts ≤ a + escapeAllocs P r str := by
  refine ends_withVar (ends_deferring (Q := fun _ s => s.1.attempts = a + escapeAllocs P r str)
    (R := fun _ s => s.1.attempts ≤ a + escapeAllocs P r str) (ends_bind
      (Q := fun _ => ArrayList.VarMet a (str.foldl (escapeDemand P) ⟨0, 0, r, 0⟩))
      (ends_conseq (escapeDemands_met P str ⟨0, 0, r, 0⟩) ?_ (fun _ _ hq => hq) ?_) fun _ =>
      ends_conseq (ArrayList.toOwnedSliceVar_met P _) (fun _ hs => hs) (fun _ _ hq => hq.1) fun _ _ hr => hr.1.le)
    (fun _ => ArrayList.deinitVar_attempts fun n => n = a + escapeAllocs P r str) fun _ =>
    ArrayList.deinitVar_attempts fun n => n ≤ a + escapeAllocs P r str)
  · intro s hs
    obtain ⟨h, l⟩ := s
    obtain ⟨⟨rfl, rfl⟩, hl⟩ := hs
    cases hl
    exact ⟨rfl, rfl, rfl, rfl⟩
  · intro _ s hs
    exact hs.trans (Nat.add_le_add_left (Demand.le_resize P _ _) a)

/-! ### Blocks that nothing frees -/

section
variable (P : Platform) (L : Multiset Block)

/-- The heap holds the blocks of `L`, and maybe others. -/
def Above (f : Bool) (L : Multiset Block) (h : Heap) : Prop := ∃ K, Owns f (K + L) h

theorem above_of_ends {m : Eff Heap Errors Stop Buf} {Q : ℕ → Multiset Block → Buf → Heap → Prop}
    (hm : ∀ a L, Ends (Lasts P f a L) m (Q a L) (RanOut P f L))
    (hq : ∀ a L b h, Q a L b h → Owns f (entry b.block + L) h) : Keeps (Above f L) m := by
  intro h habove
  obtain ⟨K, hh⟩ := habove
  rcases ends_owns (fun a => hm a (K + L)) (fun a => hq a (K + L)) h hh with ⟨b, h', hb, ho⟩ | ⟨e, h', he, -, ho⟩
  · rw [hb]
    exact ⟨entry b.block + K, by rwa [add_assoc]⟩
  · rw [he]
    exact ⟨K, ho⟩

theorem allocPrint_above (text : Bytes) : Keeps (Above f L) (allocPrint P text : Eff Heap Errors Stop Buf) :=
  above_of_ends P L (fun _ L => allocPrint_ends P L text) fun _ _ _ _ hq => hq.2.1

theorem escapeString_above (str : Bytes) : Keeps (Above f L) (escapeString P str) :=
  above_of_ends P L (fun a L => escapeString_ends P a L str) fun _ _ _ _ hq => hq.1

/-- Besides the blocks of `L` and that of the list the heap holds at least one more. -/
def Leaky (f : Bool) (L : Multiset Block) (s : Heap × Fragments) : Prop :=
  ∃ K, 0 < K.card ∧ ArrayList.VarHolds f (K + L) s

theorem leaky_add {K : Multiset Block} {s : Heap × Fragments} (h : Leaky f (K + L) s) : Leaky f L s := by
  obtain ⟨J, hJ, hh⟩ := h
  refine ⟨J + K, ?_, by rwa [add_assoc]⟩
  rw [Multiset.card_add]
  omega

theorem lifted_leaky {α : Type} {m : Eff Heap Errors Stop α} (hm : ∀ L, Keeps (Above f L) m) :
    Keeps (Leaky f L) (lifted m) := by
  intro s hs
  obtain ⟨K, hK, hh⟩ := hs
  obtain ⟨J, hJ⟩ := hm (entry s.2.block + (K + L)) s.1 ⟨0, by rwa [zero_add]⟩
  refine ⟨J + K, by rw [Multiset.card_add]; omega, ?_⟩
  rwa [add_left_comm, ← add_assoc J] at hJ

theorem append_leaky (b : Buf) :
    Keeps (Leaky f L) (update fun l => (l.append P b : Eff Heap Errors Stop Fragments)) := by
  intro s hs
  obtain ⟨K, hK, hh⟩ := hs
  have hkeeps : Keeps (ArrayList.VarHolds f (K + L)) (update fun l => (l.append P b : Eff Heap Errors Stop Fragments)) :=
    keeps_of_ends (ends_update (P := fun l h => ArrayList.VarHolds f (K + L) (h, l))
      (Q := fun l h => ArrayList.VarHolds f (K + L) (h, l)) (R := fun _ l h => ArrayList.VarHolds f (K + L) (h, l))
      fun l => ends_conseq (ends_owns (fun _ => ArrayList.appendSlice_ends P (K + L) l [b]) fun _ _ _ hq => hq.2.1)
        (fun _ hh => hh) (fun _ _ hq => hq) fun _ _ hr => hr.2)
  exact ⟨K, hK, hkeeps s hh⟩

theorem separate_leaky (first : Bool) : Keeps (Leaky f L) (separate P first) := by
  cases first with
  | true => exact keeps_pure _ _
  | false => exact append_leaky P L _

theorem appendPrinted_leaky (text : Bytes) : Keeps (Leaky f L) (appendPrinted P text) :=
  keeps_bind (lifted_leaky L fun L => keeps_orStop _ (allocPrint_above P L text)) fun b => append_leaky P L b

theorem item_leaky (first : Bool) (v : Value) : Keeps (Leaky f L) (QParams.item P first v) := by
  rcases item_cases P first v with ⟨-, hitem⟩ | ⟨t, -, -, -, hitem⟩ | ⟨x, -, -, hitem⟩
  · rw [hitem]
    exact keeps_pure _ _
  · rw [hitem]
    exact keeps_bind (keeps_bind (separate_leaky P L first) fun _ => appendPrinted_leaky P L t) fun _ => keeps_pure _ _
  · rw [hitem]
    refine keeps_bind (keeps_bind (separate_leaky P L first) fun _ => keeps_bind ?_ fun b => ?_) fun _ => keeps_pure _ _
    · exact lifted_leaky L fun L => escapeString_above P L x
    · exact appendPrinted_leaky P L _

/-! ### The first fragment -/

/-- The computation stops, or leaves a block that is no longer freed. -/
def Spoils {α : Type} (f : Bool) (L : Multiset Block) (m : Eff (Heap × Fragments) Errors Stop α) (s : Heap × Fragments) :
    Prop := (∃ c, (m s).1 = .stop c) ∨ Leaky f L (m s).2

theorem spoils_bind {α β : Type} {m : Eff (Heap × Fragments) Errors Stop α} {g : α → Eff (Heap × Fragments) Errors Stop β}
    {s : Heap × Fragments} (hm : Spoils f L m s) (hg : ∀ a, Keeps (Leaky f L) (g a)) : Spoils f L (m >>= g) s := by
  unfold Spoils at hm ⊢
  rw [bind_run]
  rcases hr : m s with ⟨o, s'⟩
  rw [hr] at hm
  cases o with
  | ok a => exact .inr (hg a s' (hm.resolve_left fun hc => by obtain ⟨c, hc⟩ := hc; cases hc))
  | err e => exact .inr (hm.resolve_left fun hc => by obtain ⟨c, hc⟩ := hc; cases hc)
  | stop c => exact .inl ⟨c, rfl⟩

theorem appendPrinted_spoils {text : Bytes} (ht : text ≠ []) {s : Heap × Fragments} (hs : ArrayList.VarHolds f L s) :
    Spoils f L (appendPrinted P text) s := by
  obtain ⟨h, l⟩ := s
  rcases allocPrint_ends (E := Errors) (C := Stop) P (entry l.block + L) text h (lasts_now hs) with
    ⟨b, h', hb, htext, ho, -⟩ | ⟨e, h', he, -⟩
  · have hrun : appendPrinted P text (h, l) =
        (update fun l => (l.append P b : Eff Heap Errors Stop Fragments)) (h', l) := bind_ok (lifted_run (orStop_ok hb))
    rw [Spoils, hrun]
    refine .inr (append_leaky P L b (h', l) ⟨entry b.block, ?_, by rwa [ArrayList.VarHolds, add_left_comm]⟩)
    rw [entry_card _ (by simpa [Buf.block, htext] using ht)]
    exact Nat.one_pos
  · have hstop : (orStop .unreachable (allocPrint P text) : Eff Heap Errors Stop Buf) h = (.stop .unreachable, h') := by
      simp only [orStop, he]
    exact .inl ⟨.unreachable, congrArg Prod.fst (bind_stop (lifted_run hstop))⟩

theorem appendString_spoils {x : Bytes} {h h' : Heap} {l : Fragments} {b : Buf} (hs : ArrayList.VarHolds f L (h, l))
    (hb : escapeString P x h = (.ok b, h')) : Spoils f L (appendString P true x) (h, l) := by
  have hrun : appendString P true x (h, l) = appendPrinted P (quoted b.text) (h', l) :=
    (bind_ok rfl).trans (bind_ok (lifted_run hb))
  have hstring : Owns f (entry b.block + (entry l.block + L)) h' :=
    yields_of_ends (ends_owns (fun a => escapeString_ends P a (entry l.block + L) x) fun _ _ _ hq => hq.1) h hs b h' hb
  have ho : ArrayList.VarHolds f (entry b.block + L) (h', l) := by rwa [ArrayList.VarHolds, add_left_comm]
  rw [Spoils, hrun]
  exact (appendPrinted_spoils P _ (List.cons_ne_nil _ _) ho).imp_right (leaky_add L)

end

/-! ### QParams -/

/-- What the deferred deinit of the fragments guards, from the element at hand on. -/
def collect (P : Platform) (values : List Value) (first : Bool) : Eff (Heap × Fragments) Errors Stop QueryParams := do
  let _ ← values.foldlM (QParams.item P) first
  let paramString ← readVar
  let joined ← lifted (join P [] (paramString.items.map Buf.text))
  return ⟨joined⟩

theorem QParams_collect (P : Platform) (values : List Value) :
    QParams P values = withVar ArrayList.init (deferring ArrayList.deinitVar (collect P values true)) := rfl

theorem collect_cons (P : Platform) (v : Value) (rest : List Value) (first : Bool) :
    collect P (v :: rest) first = QParams.item P first v >>= collect P rest := by
  rw [collect, List.foldlM_cons, bind_bind]
  rfl

theorem collect_leaky (P : Platform) (L : Multiset Block) (values : List Value) (first : Bool) :
    Keeps (Leaky f L) (collect P values first) := by
  refine keeps_bind (keeps_foldlM (fun b v => item_leaky P L b v) values first) fun _ => ?_
  refine keeps_bind (fun s hs => hs) fun l => keeps_bind ?_ fun _ => keeps_pure _ _
  exact lifted_leaky L fun L => allocPrint_above P L _

section
variable (P : Platform) {h : Heap} {v : Value} {rest : List Value}

theorem init_holds (h : Heap) : ArrayList.VarHolds h.faulted h.ledger (h, (ArrayList.init : Fragments)) :=
  ArrayList.varHolds_init h.ledger h ⟨rfl, rfl⟩

theorem QParams_skip (hr : rendering v = none) : QParams P (v :: rest) = QParams P rest := by
  rcases item_cases P true v with ⟨-, hitem⟩ | ⟨t, -, hsome, -⟩ | ⟨x, hsome, -⟩
  · rw [QParams_collect, collect_cons, hitem]
    rfl
  · cases hr.symm.trans hsome
  · cases hr.symm.trans hsome

/-- A call whose first rendered element spoils it never ends as it should. -/
theorem not_unwinds_of_spoils (hs : Spoils h.faulted h.ledger (QParams.item P true v) (h, ArrayList.init)) :
    ¬ Unwinds h (QParams P (v :: rest) h).1 (QParams P (v :: rest) h).2 := by
  have hcollect := spoils_bind h.ledger hs fun first => collect_leaky P h.ledger rest first
  rw [← collect_cons] at hcollect
  rcases hr : collect P (v :: rest) true (h, ArrayList.init) with ⟨o, s⟩
  rw [Spoils, hr] at hcollect
  intro hun
  rcases hcollect with ⟨c, hc⟩ | ⟨K, hK, hheld⟩
  · have hrun : (QParams P (v :: rest) h).1 = .stop c := by
      rw [QParams_collect, withVar, deferring_stop (hr.trans (congrArg (·, s) hc))]
    cases hrun.symm.trans hun.1
  · obtain ⟨u, s', hu, ho⟩ := ArrayList.deinitVar_returns (E := Errors) (C := Stop) (K + h.ledger) s hheld
    have hafter : (QParams P (v :: rest) h).2 = s'.1 := by
      cases o with
      | ok q => rw [QParams_collect, withVar, deferring_ok hr hu]
      | err e => rw [QParams_collect, withVar, deferring_err hr hu]
      | stop c =>
        have hrun : (QParams P (v :: rest) h).1 = .stop c := by
          rw [QParams_collect, withVar, deferring_stop hr]
        cases hrun.symm.trans hun.1
    -- the block that is left over is one that the call allocated
    have hleft : K + h.ledger = h.ledger := by rw [← ho.1, ← hafter, hun.2.1]
    have hcard := congrArg Multiset.card hleft
    rw [Multiset.card_add] at hcard
    omega

/-- The failure of escapeString on the first rendered element is that of the call. -/
theorem QParams_escape_err {x : Bytes} {b : Bool} {h' : Heap} {e : Errors}
    (hitem : QParams.item P true v = do appendString P true x; return b) (he : escapeString P x h = (.err e, h')) :
    QParams P (v :: rest) h = (.err e, h') := by
  have hstring : appendString P true x (h, ArrayList.init) = (.err e, (h', ArrayList.init)) :=
    (bind_ok rfl).trans (bind_err (lifted_run he))
  have hcollect : collect P (v :: rest) true (h, ArrayList.init) = (.err e, (h', ArrayList.init)) := by
    rw [collect_cons, hitem]
    exact bind_err (bind_err hstring)
  have hdeinit : (ArrayList.deinitVar : Eff (Heap × Fragments) Errors Stop Unit) (h', ArrayList.init) =
      (.ok (), (h', ArrayList.init)) := rfl
  rw [QParams_collect, withVar, deferring_err hcollect hdeinit]

theorem QParams_unwinds_iff (values : List Value) (h : Heap) (k : ℕ) (hk : FailsAt P k h (QParams P values h).2) :
    Unwinds h (QParams P values h).1 (QParams P values h).2 ↔
      ∃ str, leadingString values = some str ∧ k < escapeAllocs P h.remapAttempts str := by
  induction values with
  | nil => exact (lt_irrefl _ ((Nat.le_add_right _ _).trans_lt hk.2)).elim
  | cons v rest ih =>
    rcases item_cases P true v with ⟨hr, -⟩ | ⟨t, ht, hr, hs, hitem⟩ | ⟨x, hr, hs, hitem⟩
    · -- an element that is skipped
      rw [leadingString, if_pos hr]
      rw [QParams_skip P hr] at hk ⊢
      exact ih hk
    · rw [leadingString, if_neg (by rw [hr]; exact Option.some_ne_none t), hs]
      refine iff_of_false (not_unwinds_of_spoils P ?_) (by simp)
      rw [hitem]
      exact spoils_bind _ (appendPrinted_spoils P _ ht (init_holds h)) fun _ => keeps_pure _ _
    · rw [leadingString, if_neg (by rw [hr]; exact Option.some_ne_none _), hs]
      have hallocs := escapeString_allocs P (a := h.attempts) (r := h.remapAttempts) x
      rcases escapeString_ends P h.attempts h.ledger x h (lasts_now ⟨rfl, rfl⟩) with
        ⟨b, h', hb, -, hunfailed⟩ | ⟨e, h', he, hran⟩
      · -- escapeString has what it asked for, so it is a later allocation that fails
        have hcount := yields_of_ends hallocs h ⟨rfl, rfl⟩ b h' hb
        refine iff_of_false (not_unwinds_of_spoils P ?_) ?_
        · rw [hitem]
          exact spoils_bind _ (appendString_spoils P _ (init_holds h) hb) fun _ => keeps_pure _ _
        · rintro ⟨str, hstr, hlt⟩
          cases hstr
          have hmade : h.attempts + k < h'.attempts := hcount ▸ Nat.add_lt_add_left hlt _
          exact Bool.false_ne_true ((hunfailed _ (Nat.le_add_right _ _) hmade).symm.trans hk.1)
      · have hcount := ends_err hallocs ⟨rfl, rfl⟩ he
        have hrun : QParams P (v :: rest) h = (.err e, h') := QParams_escape_err P hitem he
        rw [hrun] at hk ⊢
        refine iff_of_true ⟨congrArg _ hran.2.1, hran.2.2.1, hran.2.2.2⟩ ⟨x, rfl, ?_⟩
        exact Nat.lt_of_add_lt_add_left (hk.2.trans_le hcount)

end

/-! ### getResult -/

/-- A result that getResult gives up on stays uncleared. -/
theorem getResult_never_unwinds (P : Platform) {w : World σ} {result : Option PGresult}
    (hr : World.held result ≤ w.results) {k : ℕ} (hk : FailsAt P k w.heap (getResult P result w).2.heap) :
    ¬ (Unwinds w.heap (getResult P result w).1 (getResult P result w).2.heap ∧
      (getResult P result w).2.results = w.results - World.held result) := by
  rintro ⟨⟨herr, -, -⟩, hcleared⟩
  cases result with
  | none => exact lt_irrefl _ ((Nat.le_add_right _ _).trans_lt hk.2)
  | some r =>
    rcases hrun : getResult P (some r) w with ⟨o, w'⟩
    rw [hrun] at herr hcleared
    have hkept : w'.results = w.results := getResult_err P (hrun.trans (congrArg (·, w') herr))
    have hcard := congrArg Multiset.card (hcleared.symm.trans hkept)
    rw [Multiset.card_sub hr] at hcard
    have hpos : 0 < w.results.card := (Multiset.card_le_card hr).trans_lt' Nat.one_pos
    have hone : (World.held (some r)).card = 1 := rfl
    omega

theorem alloc_failure_iff (P : Platform) :
    (∀ (values : List Value) (h : Heap) (k : ℕ), FailsAt P k h (QParams P values h).2 →
      (Unwinds h (QParams P values h).1 (QParams P values h).2 ↔
        ∃ str, leadingString values = some str ∧ k < escapeAllocs P h.remapAttempts str)) ∧
    ∀ (w : World σ) (result : Option PGresult) (k : ℕ), World.held result ≤ w.results →
      FailsAt P k w.heap (getResult P result w).2.heap →
      ¬ (Unwinds w.heap (getResult P result w).1 (getResult P result w).2.heap ∧
        (getResult P result w).2.results = w.results - World.held result) :=
  ⟨QParams_unwinds_iff P, fun _ _ _ hr hk => getResult_never_unwinds P hr hk⟩

/-- As `Platform.simple`, but one allocation fails. -/
def failingAt (k : ℕ) : Platform := { Platform.simple with fails := fun i => decide (i = k) }

theorem alloc_failure_failingAt :
    Unwinds Heap.initial (QParams (failingAt 2) [.pointer .slice true .u8 none (ascii "John")] Heap.initial).1
        (QParams (failingAt 2) [.pointer .slice true .u8 none (ascii "John")] Heap.initial).2 ∧
      ¬ (Unwinds holdingOneCell.heap (getResult (failingAt 2) (some oneCell) holdingOneCell).1
          (getResult (failingAt 2) (some oneCell) holdingOneCell).2.heap ∧
        (getResult (failingAt 2) (some oneCell) holdingOneCell).2.results = {0} - {0}) := by
  obtain ⟨hparams, hresult⟩ := alloc_failure_iff (σ := Unit) (failingAt 2)
  constructor
  · exact (hparams _ _ 2 ⟨rfl, by decide⟩).mpr ⟨ascii "John", rfl, by decide⟩
  · exact hresult holdingOneCell (some oneCell) 2 (le_refl {0}) ⟨rfl, by decide⟩

/-- The first fragment that cannot be had ends the program, and a name that could be had is lost with the
result where the cell after it cannot. -/
theorem alloc_failure_unreachable :
    (FailsAt (failingAt 0) 0 Heap.initial (QParams (failingAt 0) [.int true 32 1] Heap.initial).2 ∧
      (QParams (failingAt 0) [.int true 32 1] Heap.initial).1 = .stop .unreachable) ∧
    FailsAt (failingAt 2) 2 holdingOneCell.heap (getResult (failingAt 2) (some oneCell) holdingOneCell).2.heap ∧
      (getResult (failingAt 2) (some oneCell) holdingOneCell).1 = .err .OutOfMemory ∧
      (getResult (failingAt 2) (some oneCell) holdingOneCell).2.heap.ledger ≠ holdingOneCell.heap.ledger ∧
      (getResult (failingAt 2) (some oneCell) holdingOneCell).2.results = {0} := by
  refine ⟨⟨⟨rfl, by decide⟩, rfl⟩, ⟨rfl, by decide⟩, rfl, by decide, rfl⟩

end Psql
