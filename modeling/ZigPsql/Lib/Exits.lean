import ZigPsql.Lib.Effect

/-!
# A computation by all of its exits

A run that does not return ends in an error return or in a stop. These two share
one postcondition, so that a rule speaks of them at once where nothing tells them
apart; a cleanup does.
-/

namespace Effect
open Eff

variable {S T E C α β : Type}

/-- How a run ends that does not return. -/
abbrev Exit (E C : Type) := E ⊕ C

def exiting : Exit E C → Outcome E C α
  | .inl e => .err e
  | .inr c => .stop c

def Outcome.map (g : α → β) : Outcome E C α → Outcome E C β
  | .ok a => .ok (g a)
  | .err e => .err e
  | .stop c => .stop c

def Outcome.stopped : Outcome E C α → Bool
  | .stop _ => true
  | _ => false

theorem bind_pure_run (m : Eff S E C α) (g : α → β) (s : S) :
    (do let a ← m; return g a : Eff S E C β) s = ((m s).1.map g, (m s).2) := by
  rw [bind_run]
  rcases m s with ⟨o, s'⟩
  cases o <;> rfl

theorem map_eq_ok {g : α → β} {o : Outcome E C α} {b : β} (h : o.map g = .ok b) : ∃ a, o = .ok a ∧ g a = b := by
  cases o with
  | ok a => exact ⟨a, rfl, Outcome.ok.inj h⟩
  | err e => cases h
  | stop c => cases h

theorem map_eq_err {g : α → β} {o : Outcome E C α} {e : E} (h : o.map g = .err e) : o = .err e := by
  cases o with
  | ok a => cases h
  | err e' => exact congrArg Outcome.err (Outcome.err.inj h)
  | stop c => cases h

theorem map_exiting (g : α → β) (x : Exit E C) : (exiting x : Outcome E C α).map g = exiting x := by
  cases x <;> rfl

/-- From every state in `P` the run returns, and `Q` relates its value and its last state, or it ends
otherwise, and `R` relates the exit and the state. -/
def Exits (P : S → Prop) (m : Eff S E C α) (Q : α → S → Prop) (R : Exit E C → S → Prop) : Prop :=
  ∀ s, P s → (∃ a s', m s = (.ok a, s') ∧ Q a s') ∨ ∃ x s', m s = (exiting x, s') ∧ R x s'

theorem bind_exiting {m : Eff S E C α} {f : α → Eff S E C β} {s s' : S} {x : Exit E C}
    (h : m s = (exiting x, s')) : (m >>= f) s = (exiting x, s') := by
  cases x with
  | inl e => exact bind_err h
  | inr c => exact bind_stop h

theorem exits_of_returns {P : S → Prop} {m : Eff S E C α} {Q : α → S → Prop} {R : Exit E C → S → Prop}
    (hm : Returns P m Q) : Exits P m Q R := fun s hs => .inl (hm s hs)

theorem exits_of_ends {P : S → Prop} {m : Eff S E C α} {Q : α → S → Prop} {R : Exit E C → S → Prop}
    (hm : Ends P m Q fun e => R (.inl e)) : Exits P m Q R := by
  intro s hs
  rcases hm s hs with ha | ⟨e, s', he, hr⟩
  · exact .inl ha
  · exact .inr ⟨.inl e, s', he, hr⟩

theorem exits_pure {P : S → Prop} {Q : α → S → Prop} {R : Exit E C → S → Prop} (a : α) (h : ∀ s, P s → Q a s) :
    Exits P (Pure.pure a : Eff S E C α) Q R := exits_of_returns (returns_pure a h)

theorem exits_conseq {P P' : S → Prop} {m : Eff S E C α} {Q Q' : α → S → Prop} {R R' : Exit E C → S → Prop}
    (hm : Exits P m Q R) (hp : ∀ s, P' s → P s) (hq : ∀ a s, Q a s → Q' a s) (hr : ∀ x s, R x s → R' x s) :
    Exits P' m Q' R' := by
  intro s hs
  rcases hm s (hp s hs) with ⟨a, s', ha, h⟩ | ⟨x, s', hx, h⟩
  · exact .inl ⟨a, s', ha, hq a s' h⟩
  · exact .inr ⟨x, s', hx, hr x s' h⟩

/-- What is known of a value that a run returns joins what is known of all exits. -/
theorem exits_yields {P P' : S → Prop} {m : Eff S E C α} {Q Q' : α → S → Prop} {R : Exit E C → S → Prop}
    (hm : Exits P m Q R) (hy : Yields P' m Q') :
    Exits (fun s => P s ∧ P' s) m (fun a s => Q a s ∧ Q' a s) R := by
  intro s h
  obtain ⟨hs, hs'⟩ := h
  rcases hm s hs with ⟨a, t, ha, hq⟩ | hx
  · exact .inl ⟨a, t, ha, hq, hy s hs' a t ha⟩
  · exact .inr hx

theorem exits_bind {P : S → Prop} {m : Eff S E C α} {Q : α → S → Prop} {R : Exit E C → S → Prop}
    {f : α → Eff S E C β} {Q' : β → S → Prop} (hm : Exits P m Q R) (hf : ∀ a, Exits (Q a) (f a) Q' R) :
    Exits P (m >>= f) Q' R := by
  intro s hs
  rcases hm s hs with ⟨a, s', ha, hq⟩ | ⟨x, s', hx, hr⟩
  · rcases hf a s' hq with ⟨b, s'', hb, hq'⟩ | ⟨x, s'', hx, hr⟩
    · exact .inl ⟨b, s'', (bind_ok ha).trans hb, hq'⟩
    · exact .inr ⟨x, s'', (bind_ok ha).trans hx, hr⟩
  · exact .inr ⟨x, s', bind_exiting hx, hr⟩

/-- A failed run is turned into a stop. -/
theorem exits_orStop {P : S → Prop} {m : Eff S E C α} {Q : α → S → Prop} {R : Exit E C → S → Prop} (c : C)
    (hm : Exits P m Q R) (hr : ∀ e s, R (.inl e) s → R (.inr c) s) : Exits P (orStop c m) Q R := by
  intro s hs
  rcases hm s hs with ⟨a, s', ha, hq⟩ | ⟨x, s', hx, h⟩
  · exact .inl ⟨a, s', orStop_ok ha, hq⟩
  · cases x with
    | inl e => exact .inr ⟨.inr c, s', by simp only [orStop, hx, exiting], hr e s' h⟩
    | inr d => exact .inr ⟨.inr d, s', by simp only [orStop, hx, exiting], h⟩

theorem exits_deferring {P : S → Prop} {m : Eff S E C α} {k : Eff S E C Unit} {Q Q' : α → S → Prop}
    {R R' : Exit E C → S → Prop} (hm : Exits P m Q R) (hk : ∀ a, Returns (Q a) k fun _ => Q' a)
    (herr : ∀ e, Returns (R (.inl e)) k fun _ => R' (.inl e)) (hstop : ∀ c s, R (.inr c) s → R' (.inr c) s) :
    Exits P (deferring k m) Q' R' := by
  intro s hs
  rcases hm s hs with ⟨a, s', ha, hq⟩ | ⟨x, s', hx, hr⟩
  · obtain ⟨u, s'', hu, hq'⟩ := hk a s' hq
    exact .inl ⟨a, s'', deferring_ok ha hu, hq'⟩
  · cases x with
    | inl e =>
      obtain ⟨u, s'', hu, hr'⟩ := herr e s' hr
      exact .inr ⟨.inl e, s'', deferring_err hx hu, hr'⟩
    | inr c => exact .inr ⟨.inr c, s', deferring_stop hx, hstop c s' hr⟩

theorem exits_foldlM {ι : Type} (Inv : List ι → β → S → Prop) {R : Exit E C → S → Prop} (body : β → ι → Eff S E C β)
    (done todo : List ι)
    (hbody : ∀ done, ∀ i ∈ todo, ∀ b, Exits (Inv done b) (body b i) (Inv (done ++ [i])) R) (b : β) :
    Exits (Inv done b) (todo.foldlM body b) (Inv (done ++ todo)) R := by
  induction todo generalizing done b with
  | nil =>
    rw [List.append_nil]
    exact exits_pure b fun _ hs => hs
  | cons i rest ih =>
    rw [List.foldlM_cons]
    apply exits_bind (hbody done i (List.mem_cons_self ..) b)
    intro b'
    have hrest := ih (done ++ [i]) (fun d j hj => hbody d j (List.mem_cons_of_mem _ hj)) b'
    rwa [List.append_assoc, List.singleton_append] at hrest

theorem exits_withVar {L : Type} {l : L} {m : Eff (S × L) E C α} {P : S → Prop} {Q : α → S → Prop}
    {R : Exit E C → S → Prop} (hm : Exits (fun s => P s.1 ∧ s.2 = l) m (fun a s => Q a s.1) fun x s => R x s.1) :
    Exits P (withVar l m) Q R := by
  intro s hs
  rcases hm (s, l) ⟨hs, rfl⟩ with ⟨a, s', ha, hq⟩ | ⟨x, s', hx, hr⟩
  · exact .inl ⟨a, s'.1, by simp only [withVar, ha], hq⟩
  · refine .inr ⟨x, s'.1, ?_, hr⟩
    cases x <;> simp only [withVar, hx, exiting]

end Effect
