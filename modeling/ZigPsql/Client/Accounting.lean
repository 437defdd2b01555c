import ZigPsql.Client.Framing
import ZigPsql.Client.Result

/-!
# Block accounting of results and parameters

A fault flag that is set stays set, so what it says at the end it says of the
whole way.
-/

namespace Psql
open Effect Text Zig Libpq

variable {σ S : Type}

/-- The run returns with the ledger it began with, and without a fault. -/
def Settles (heap : S → Heap) (m : Eff S Errors Stop Unit) (s : S) : Prop :=
  ∃ s', m s = (.ok (), s') ∧ (heap s').ledger = (heap s).ledger ∧ (heap s').faulted = (heap s).faulted

def getResultAndDeinit (P : Platform) (r : PGresult) : Eff (World σ) Errors Stop Unit := do
  let q ← getResult P (some r)
  inHeap q.deinit

def QParamsAndDeinit (P : Platform) (values : List Value) : Eff Heap Errors Stop Unit := do
  let params ← QParams P values
  params.deinit

theorem settles_iff {heap : S → Heap} {m : Eff S Errors Stop Unit} {s s' : S} {K : Multiset Block}
    (hm : m s = (.ok (), s')) (ho : Owns (heap s).faulted (K + (heap s).ledger) (heap s')) :
    Settles heap m s ↔ K.card = 0 := by
  constructor
  · rintro ⟨s'', hm', hl, -⟩
    cases hm.symm.trans hm'
    have hlen := congrArg Multiset.card (ho.1.symm.trans hl)
    rw [Multiset.card_add] at hlen
    omega
  · intro hK
    rw [Multiset.card_eq_zero] at hK
    rw [hK, zero_add] at ho
    exact ⟨s', hm, ho.1, ho.2⟩

theorem getResult_settles_iff (P : Platform) (hP : P.Succeeds) (w : World σ) (r : PGresult)
    (hr : World.held (some r) ≤ w.results) :
    Settles World.heap (getResultAndDeinit P r) w ↔ r.data.fnames = [] ∨ r.data.tuples = [] := by
  obtain ⟨q, h, hq, -, -, K, hK, ho⟩ := getResult_returns hr P hP w.heap.ledger ⟨rfl, rfl⟩
  obtain ⟨_, h', hd, ho'⟩ := deinit_returns (K + w.heap.ledger) q h ho
  have hrun : getResultAndDeinit P r w =
      (.ok (), { w with heap := h', results := w.results - World.held (some r) }) :=
    (bind_ok hq).trans (zoom_run hd)
  rw [settles_iff hrun ho', hK, ← List.length_eq_zero_iff, ← List.length_eq_zero_iff]
  split <;> omega

theorem QParams_settles_iff (P : Platform) (hP : P.Succeeds) (h : Heap) (values : List Value)
    (hv : ∀ v ∈ values, accepted v = true) :
    Settles id (QParamsAndDeinit P values) h ↔ values = [] := by
  obtain ⟨q, h', hq, K, hK, ho⟩ := QParams_returns P hP h.ledger values h ⟨rfl, rfl⟩
  obtain ⟨_, h'', hd, ho'⟩ := free_returns (E := Errors) (C := Stop) (K + h.ledger) q.paramString.block h' ho
  have hrun : QParamsAndDeinit P values h = (.ok (), h'') := (bind_ok hq).trans hd
  have hsettles : Settles id (QParamsAndDeinit P values) h ↔ K.card = 0 := settles_iff hrun ho'
  rw [hsettles]
  cases values with
  | nil => simpa using hK
  | cons v rest =>
    have hsome : rendering v ≠ none := by simp [rendering_of_accepted v (hv v (List.mem_cons_self ..))]
    have hpos := hK.mpr ⟨v, List.mem_cons_self .., hsome⟩
    simp only [reduceCtorEq, iff_false]
    omega

/-- The two deinits give everything back exactly for results without a cell and for empty tuples. -/
theorem accounting_iff (P : Platform) (hP : P.Succeeds) :
    (∀ (w : World σ) (r : PGresult), World.held (some r) ≤ w.results →
      (Settles World.heap (getResultAndDeinit P r) w ↔ r.data.fnames = [] ∨ r.data.tuples = [])) ∧
    (∀ (h : Heap) (values : List Value), (∀ v ∈ values, accepted v = true) →
      (Settles id (QParamsAndDeinit P values) h ↔ values = [])) :=
  ⟨getResult_settles_iff P hP, QParams_settles_iff P hP⟩

def oneCell : PGresult :=
  ⟨0, ⟨.tuplesOk, none, [ascii "id"], [[some (ascii "1")]], by decide⟩⟩

def holdingOneCell : World Unit := { World.initial () with results := {0} }

def noRows : PGresult := ⟨0, ⟨.tuplesOk, none, [ascii "id", ascii "name"], [], by simp⟩⟩

/-- Columns alone are given back; of a tuple with an element something stays. -/
theorem accounting_noRows :
    Settles World.heap (getResultAndDeinit Platform.simple noRows) holdingOneCell ∧
      Settles id (QParamsAndDeinit Platform.simple []) Heap.initial ∧
      ¬ Settles id (QParamsAndDeinit Platform.simple [.int true 32 1]) Heap.initial := by
  obtain ⟨hresult, hparams⟩ := accounting_iff (σ := Unit) Platform.simple Platform.simple_succeeds
  refine ⟨(hresult holdingOneCell noRows (le_refl {0})).mpr (.inr rfl), (hparams Heap.initial [] (by simp)).mpr rfl, ?_⟩
  rw [hparams Heap.initial [.int true 32 1] (by decide)]
  exact List.cons_ne_nil _ _

theorem accounting_oneCell_leaks :
    ¬ Settles World.heap (getResultAndDeinit Platform.simple oneCell) holdingOneCell := by
  rw [getResult_settles_iff Platform.simple Platform.simple_succeeds holdingOneCell oneCell (le_refl {0})]
  decide

end Psql
