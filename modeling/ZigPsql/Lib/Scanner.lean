import Mathlib.Tactic.Common

/-!
# Scanners that emit tokens while they read

A scanner is a step function on states and input symbols that may emit tokens.
A text is read in pieces: what a whole text gives is put together from what its
pieces give, so a lexical property of a long text is a chain of short ones.
-/

namespace Scanner

variable {S I O : Type}

def scan (step : S → I → S × List O) : S → List I → S × List O
  | s, [] => (s, [])
  | s, i :: rest =>
    let (s', out) := step s i
    let (t, out') := scan step s' rest
    (t, out ++ out')

/-- From `s`, reading `text` emits `out` and ends in `t`. -/
def Emits (step : S → I → S × List O) (s : S) (text : List I) (out : List O) (t : S) : Prop :=
  scan step s text = (t, out)

theorem emits_nil (step : S → I → S × List O) (s : S) : Emits step s [] [] s := rfl

theorem emits_cons {step : S → I → S × List O} {s s' t : S} {i : I} {rest : List I} {out out' : List O}
    (hi : step s i = (s', out)) (h : Emits step s' rest out' t) :
    Emits step s (i :: rest) (out ++ out') t := by
  unfold Emits at h ⊢
  simp only [scan, hi, h]

theorem emits_silent {step : S → I → S × List O} {s s' t : S} {i : I} {rest : List I} {out : List O}
    (hi : step s i = (s', [])) (h : Emits step s' rest out t) : Emits step s (i :: rest) out t :=
  emits_cons hi h

theorem emits_one {step : S → I → S × List O} {s t : S} {i : I} {out : List O}
    (h : step s i = (t, out)) : Emits step s [i] out t := by
  simpa using emits_cons h (emits_nil step t)

theorem emits_append {step : S → I → S × List O} {s t u : S} {a b : List I} {out out' : List O}
    (ha : Emits step s a out t) (hb : Emits step t b out' u) : Emits step s (a ++ b) (out ++ out') u := by
  induction a generalizing s out with
  | nil =>
    cases ha
    simpa using hb
  | cons i rest ih =>
    have hrest : Emits step (step s i).1 rest (scan step (step s i).1 rest).2 t := by
      have ht := congrArg Prod.fst ha
      simp only [scan] at ht
      exact Prod.ext ht rfl
    have hout : out = (step s i).2 ++ (scan step (step s i).1 rest).2 := by
      have ho := congrArg Prod.snd ha
      simpa only [scan] using ho.symm
    rw [hout, List.append_assoc, List.cons_append]
    exact emits_cons rfl (ih hrest)

/-- A stretch of input that a state only accumulates. -/
theorem emits_accumulate {step : S → I → S × List O} (state : List I → S) (text : List I)
    (h : ∀ acc, ∀ i ∈ text, step (state acc) i = (state (acc ++ [i]), [])) (acc : List I) :
    Emits step (state acc) text [] (state (acc ++ text)) := by
  induction text generalizing acc with
  | nil => simpa using emits_nil step (state acc)
  | cons i rest ih =>
    have hi := h acc i (List.mem_cons_self ..)
    have hrest := ih (fun acc' j hj => h acc' j (List.mem_cons_of_mem _ hj)) (acc ++ [i])
    rw [List.append_assoc, List.singleton_append] at hrest
    exact emits_cons hi hrest

/-- What every step keeps of the state and gives of its tokens, a scan keeps and gives. -/
theorem scan_invariant {step : S → I → S × List O} {P : S → Prop} {Q : O → Prop}
    (hstep : ∀ s i, P s → P (step s i).1 ∧ ∀ o ∈ (step s i).2, Q o) (text : List I) (s : S) (hs : P s) :
    P (scan step s text).1 ∧ ∀ o ∈ (scan step s text).2, Q o := by
  induction text generalizing s with
  | nil => exact ⟨hs, fun o ho => absurd ho List.not_mem_nil⟩
  | cons i rest ih =>
    obtain ⟨hi, hout⟩ := hstep s i hs
    obtain ⟨hrest, hout'⟩ := ih _ hi
    refine ⟨hrest, fun o ho => ?_⟩
    rcases List.mem_append.mp ho with h | h
    · exact hout o h
    · exact hout' o h

theorem scan_congr {step step' : S → I → S × List O} (text : List I) (h : ∀ s, ∀ i ∈ text, step s i = step' s i)
    (s : S) : scan step s text = scan step' s text := by
  induction text generalizing s with
  | nil => rfl
  | cons i rest ih =>
    have hrest := ih fun t j hj => h t j (List.mem_cons_of_mem _ hj)
    simp only [scan, h s i (List.mem_cons_self ..), hrest]

end Scanner
