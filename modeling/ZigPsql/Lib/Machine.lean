import Mathlib.Tactic.Common
import Mathlib.Data.List.Forall2

/-!
# Machines that answer requests, and what their runs refine

A machine answers one request after another until an answer ends the run. Where
each of its steps does what a specified machine does and answers like it, or
is lost without a trace in the state, every run is one of the specified machine
on the requests that were not lost.
-/

namespace Machine

variable {σ τ ι ο α β : Type}

def run (step : σ → ι → ο × σ) (ends : ο → Bool) : σ → List ι → List ο × σ
  | s, [] => ([], s)
  | s, i :: rest =>
    let next := step s i
    if ends next.1 then ([next.1], next.2)
    else (next.1 :: (run step ends next.2 rest).1, (run step ends next.2 rest).2)

theorem run_ends {step : σ → ι → ο × σ} {ends : ο → Bool} {s : σ} {i : ι} (h : ends (step s i).1 = true)
    (rest : List ι) : run step ends s (i :: rest) = ([(step s i).1], (step s i).2) := by
  simp only [run, h, if_true]

theorem run_goes {step : σ → ι → ο × σ} {ends : ο → Bool} {s : σ} {i : ι} (h : ends (step s i).1 = false)
    (rest : List ι) : run step ends s (i :: rest) =
      ((step s i).1 :: (run step ends (step s i).2 rest).1, (run step ends (step s i).2 rest).2) := by
  simp [run, h]

/-- What every step keeps, a run keeps. -/
theorem run_invariant {step : σ → ι → ο × σ} {ends : ο → Bool} {I : σ → Prop} (is : List ι)
    (hstep : ∀ i ∈ is, ∀ s, I s → I (step s i).2) (s : σ) (hs : I s) : I (run step ends s is).2 := by
  induction is generalizing s with
  | nil => exact hs
  | cons i rest ih =>
    have hnext := hstep i (List.mem_cons_self ..) s hs
    cases h : ends (step s i).1 with
    | true =>
      rw [run_ends h]
      exact hnext
    | false =>
      rw [run_goes h]
      exact ih (fun j hj => hstep j (List.mem_cons_of_mem _ hj)) _ hnext

/-- Every request of a run is good where it comes. -/
def Along (step : σ → ι → ο × σ) (ends : ο → Bool) (good : σ → ι → Prop) : σ → List ι → Prop
  | _, [] => True
  | s, i :: rest => good s i ∧ (ends (step s i).1 = false → Along step ends good (step s i).2 rest)

instance Along.decidable (step : σ → ι → ο × σ) (ends : ο → Bool) (good : σ → ι → Prop)
    [∀ s i, Decidable (good s i)] : ∀ s is, Decidable (Along step ends good s is)
  | _, [] => isTrue trivial
  | s, i :: rest =>
    have := Along.decidable step ends good (step s i).2 rest
    inferInstanceAs (Decidable (good s i ∧ (ends (step s i).1 = false → Along step ends good (step s i).2 rest)))

theorem along_of_forall {step : σ → ι → ο × σ} {ends : ο → Bool} {good : σ → ι → Prop} {is : List ι}
    (h : ∀ i ∈ is, ∀ s, good s i) (s : σ) : Along step ends good s is := by
  induction is generalizing s with
  | nil => trivial
  | cons i rest ih =>
    exact ⟨h i (List.mem_cons_self ..) s, fun _ => ih (fun j hj => h j (List.mem_cons_of_mem _ hj)) _⟩

/-- What the answers to good requests have, all answers of a run of good requests have. -/
theorem run_along {step : σ → ι → ο × σ} {ends : ο → Bool} {good : σ → ι → Prop} {I : σ → Prop} {Q : ο → Prop}
    (hstep : ∀ i s, I s → good s i → Q (step s i).1 ∧ I (step s i).2) (is : List ι) (s : σ) (hs : I s)
    (h : Along step ends good s is) :
    (∀ o ∈ (run step ends s is).1, Q o) ∧ I (run step ends s is).2 := by
  induction is generalizing s with
  | nil => exact ⟨nofun, hs⟩
  | cons i rest ih =>
    obtain ⟨hgood, hrest⟩ := h
    obtain ⟨hanswer, hnext⟩ := hstep i s hs hgood
    cases hend : ends (step s i).1 with
    | true =>
      rw [run_ends hend]
      exact ⟨List.forall_mem_singleton.mpr hanswer, hnext⟩
    | false =>
      rw [run_goes hend]
      obtain ⟨hall, hlast⟩ := ih _ hnext (hrest hend)
      exact ⟨List.forall_mem_cons.mpr ⟨hanswer, hall⟩, hlast⟩

/-- Where no answer ends the run, every request is answered. -/
theorem run_complete {step : σ → ι → ο × σ} {ends : ο → Bool} (is : List ι) (s : σ)
    (h : ∀ o ∈ (run step ends s is).1, ends o = false) : (run step ends s is).1.length = is.length := by
  induction is generalizing s with
  | nil => rfl
  | cons i rest ih =>
    cases hend : ends (step s i).1 with
    | true =>
      rw [run_ends hend, List.forall_mem_singleton, hend] at h
      cases h
    | false =>
      rw [run_goes hend] at h ⊢
      exact congrArg Nat.succ (ih _ (List.forall_mem_cons.mp h).2)

/-- Where each step of a machine is one of the specified machine on what `f` shows of its states, so is a run. -/
theorem run_commutes {step : σ → ι → ο × σ} {ends : ο → Bool} {I : σ → Prop} {f : σ → τ} {spec : τ → ι → ο × τ}
    (hstep : ∀ i s, I s → spec (f s) i = ((step s i).1, f (step s i).2) ∧ I (step s i).2) (is : List ι) (s : σ)
    (hs : I s) :
    run spec ends (f s) is = ((run step ends s is).1, f (run step ends s is).2) := by
  induction is generalizing s with
  | nil => rfl
  | cons i rest ih =>
    obtain ⟨hspec, hnext⟩ := hstep i s hs
    simp only [run, hspec, ih _ hnext]
    split <;> rfl

/-! ### What a run leaves on record -/

/-- What the steps of a run put on record, up to its end. -/
def trace (step : σ → ι → ο × σ) (ends : ο → Bool) (emit : σ → ι → List β) : σ → List ι → List β
  | _, [] => []
  | s, i :: rest => emit s i ++ if ends (step s i).1 then [] else trace step ends emit (step s i).2 rest

/-- A record that is read off every step, and adds up, is read off a run. -/
theorem run_traced {step : σ → ι → ο × σ} {ends : ο → Bool} {emit : σ → ι → List β} {I : σ → Prop}
    {L : List β → σ → σ → Prop} (hnil : ∀ s, L [] s s)
    (happend : ∀ {as bs s s' s''}, L as s s' → L bs s' s'' → L (as ++ bs) s s'')
    (hstep : ∀ i s, I s → L (emit s i) s (step s i).2 ∧ I (step s i).2) (is : List ι) (s : σ) (hs : I s) :
    L (trace step ends emit s is) s (run step ends s is).2 := by
  induction is generalizing s with
  | nil => exact hnil s
  | cons i rest ih =>
    obtain ⟨hemit, hnext⟩ := hstep i s hs
    cases hend : ends (step s i).1 with
    | true =>
      rw [run_ends hend, trace, if_pos hend, List.append_nil]
      exact hemit
    | false =>
      rw [run_goes hend, trace, if_neg (by simp [hend])]
      exact happend hemit (ih _ hnext)

/-- Two machines whose steps put alike things on record do so as long as both run. -/
theorem trace_twins {step₁ : σ → ι → ο × σ} {step₂ : τ → ι → ο × τ} {ends : ο → Bool} {emit₁ : σ → ι → List β}
    {emit₂ : τ → ι → List β} {R : σ → τ → Prop} {twin : ι → ι → Prop} {like : β → β → Prop}
    (hstep : ∀ i j s t, twin i j → R s t → List.Forall₂ like (emit₁ s i) (emit₂ t j) ∧ R (step₁ s i).2 (step₂ t j).2)
    {is js : List ι} (h : List.Forall₂ twin is js) (s : σ) (t : τ) (hR : R s t) :
    (∀ a ∈ (trace step₁ ends emit₁ s is).zip (trace step₂ ends emit₂ t js), like a.1 a.2) ∧
      ((∀ o ∈ (run step₁ ends s is).1, ends o = false) → (∀ o ∈ (run step₂ ends t js).1, ends o = false) →
        (trace step₁ ends emit₁ s is).length = (trace step₂ ends emit₂ t js).length) := by
  induction h generalizing s t with
  | nil => exact ⟨nofun, fun _ _ => rfl⟩
  | @cons i j is js hij _ ih =>
    obtain ⟨hemit, hnext⟩ := hstep i j s t hij hR
    obtain ⟨hzip, hlength⟩ := ih _ _ hnext
    have hfirst : ∀ a ∈ (emit₁ s i).zip (emit₂ t j), like a.1 a.2 := fun a ha => List.forall₂_zip hemit ha
    constructor
    · intro a ha
      rw [trace, trace, List.zip_append hemit.length_eq, List.mem_append] at ha
      rcases ha with ha | ha
      · exact hfirst a ha
      · split at ha
        · cases ha
        · split at ha
          · simp at ha
          · exact hzip a ha
    · intro hs ht
      cases hend₁ : ends (step₁ s i).1 with
      | true =>
        rw [run_ends hend₁, List.forall_mem_singleton, hend₁] at hs
        cases hs
      | false =>
        cases hend₂ : ends (step₂ t j).1 with
        | true =>
          rw [run_ends hend₂, List.forall_mem_singleton, hend₂] at ht
          cases ht
        | false =>
          rw [run_goes hend₁, List.forall_mem_cons] at hs
          rw [run_goes hend₂, List.forall_mem_cons] at ht
          rw [trace, trace, if_neg (by simp [hend₁]), if_neg (by simp [hend₂]), List.length_append, List.length_append,
            hemit.length_eq, hlength hs.2 ht.2]

/-! ### Refinement with losses -/

/-- The answers `os` to the requests are those of the specified machine, which goes from `t` to `t'`,
but for lost requests, in which it takes no part; a loss may end the run. -/
inductive Explains (spec : τ → ι → α × τ) (like : α → ο → Prop) (lost : ι → ο → Prop) :
    τ → List ι → List ο → τ → Prop
  | nil (t : τ) : Explains spec like lost t [] [] t
  | answered {t t' : τ} {i : ι} {is : List ι} {o : ο} {os : List ο} :
    like (spec t i).1 o → Explains spec like lost (spec t i).2 is os t' →
      Explains spec like lost t (i :: is) (o :: os) t'
  | dropped {t t' : τ} {i : ι} {is : List ι} {o : ο} {os : List ο} :
    lost i o → Explains spec like lost t is os t' → Explains spec like lost t (i :: is) (o :: os) t'
  | ended {t : τ} {i : ι} {is : List ι} {o : ο} : lost i o → Explains spec like lost t (i :: is) [o] t

variable {step : σ → ι → ο × σ} {ends : ο → Bool} {spec : τ → ι → α × τ} {like : α → ο → Prop}
  {lost : ι → ο → Prop}

/-- A step for a step, or a loss. -/
theorem run_explained {R : σ → τ → Prop} (is : List ι) (hstep : ∀ i ∈ is, ∀ s t, R s t →
      (like (spec t i).1 (step s i).1 ∧ ends (step s i).1 = false ∧ R (step s i).2 (spec t i).2) ∨
        (lost i (step s i).1 ∧ R (step s i).2 t))
    (s : σ) (t : τ) (hR : R s t) :
    ∃ t', Explains spec like lost t is (run step ends s is).1 t' ∧ R (run step ends s is).2 t' := by
  induction is generalizing s t with
  | nil => exact ⟨t, .nil t, hR⟩
  | cons i rest ih =>
    have ih := ih fun j hj => hstep j (List.mem_cons_of_mem _ hj)
    rcases hstep i (List.mem_cons_self ..) s t hR with ⟨hlike, hgoes, hR'⟩ | ⟨hlost, hR'⟩
    · obtain ⟨t', hrest, hlast⟩ := ih _ _ hR'
      rw [run_goes hgoes]
      exact ⟨t', .answered hlike hrest, hlast⟩
    · cases h : ends (step s i).1 with
      | true =>
        rw [run_ends h]
        exact ⟨t, .ended hlost, hR'⟩
      | false =>
        obtain ⟨t', hrest, hlast⟩ := ih _ _ hR'
        rw [run_goes h]
        exact ⟨t', .dropped hlost hrest, hlast⟩

end Machine
