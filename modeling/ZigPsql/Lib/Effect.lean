import Mathlib.Tactic.Common

/-!
# Effects: state, error return and abnormal stop

A computation over a state `S` ends in one of three ways. An error return keeps
the state, so that what was allocated before it stays visible; a stop models a
failed safety check or undefined behaviour, after which nothing runs. The rules
below are the ones a proof about such a program uses: what a run returns, what
every run keeps, and how both pass through sequencing and loops.
-/

namespace Effect

inductive Outcome (E C α : Type) where
  | ok (a : α)
  | err (e : E)
  | stop (c : C)
  deriving DecidableEq, Repr

def Eff (S E C α : Type) : Type := S → Outcome E C α × S

variable {S T E C α β : Type}

namespace Eff

def pure (a : α) : Eff S E C α := fun s => (.ok a, s)

def bind (m : Eff S E C α) (f : α → Eff S E C β) : Eff S E C β := fun s =>
  match m s with
  | (.ok a, s') => f a s'
  | (.err e, s') => (.err e, s')
  | (.stop c, s') => (.stop c, s')

instance : Monad (Eff S E C) where
  pure := Eff.pure
  bind := Eff.bind

def gets (f : S → α) : Eff S E C α := fun s => (.ok (f s), s)
def modify (f : S → S) : Eff S E C Unit := fun s => (.ok (), f s)
def throw (e : E) : Eff S E C α := fun s => (.err e, s)
def halt (c : C) : Eff S E C α := fun s => (.stop c, s)

/-- Runs `cleanup` on every way out of `m` but a stop; the outcome is that of `m`. -/
def deferring (cleanup : Eff S E C Unit) (m : Eff S E C α) : Eff S E C α := fun s =>
  match m s with
  | (.stop c, s') => (.stop c, s')
  | (o, s') =>
    match cleanup s' with
    | (.stop c, s'') => (.stop c, s'')
    | (_, s'') => (o, s'')

def orStop (c : C) (m : Eff S E C α) : Eff S E C α := fun s =>
  match m s with
  | (.err _, s') => (.stop c, s')
  | r => r

def zoom (get : S → T) (set : S → T → S) (m : Eff T E C α) : Eff S E C α := fun s =>
  ((m (get s)).1, set s (m (get s)).2)

/-! A local variable that outlives an error return, for the cleanups that read it, is a second
component of the state. -/

def withVar {L : Type} (l : L) (m : Eff (S × L) E C α) : Eff S E C α := fun s =>
  ((m (s, l)).1, (m (s, l)).2.1)
def readVar {L : Type} : Eff (S × L) E C L := gets Prod.snd
def assign {L : Type} (l : L) : Eff (S × L) E C Unit := modify fun s => (s.1, l)
def lifted {L : Type} (m : Eff S E C α) : Eff (S × L) E C α := zoom Prod.fst (fun s t => (t, s.2)) m

/-- Replaces the variable by what `f` makes of it; an error return leaves it as it was. -/
def update {L : Type} (f : L → Eff S E C L) : Eff (S × L) E C Unit := do
  let l ← readVar
  let l' ← lifted (f l)
  assign l'

end Eff

open Eff

@[simp] theorem modify_run (f : S → S) (s : S) : (modify f : Eff S E C Unit) s = (.ok (), f s) := rfl
@[simp] theorem throw_run (e : E) (s : S) : (throw e : Eff S E C α) s = (.err e, s) := rfl

theorem bind_run (m : Eff S E C α) (f : α → Eff S E C β) (s : S) :
    (m >>= f) s = match m s with
      | (.ok a, s') => f a s'
      | (.err e, s') => (.err e, s')
      | (.stop c, s') => (.stop c, s') := rfl

theorem bind_ok {m : Eff S E C α} {f : α → Eff S E C β} {s s' : S} {a : α}
    (h : m s = (.ok a, s')) : (m >>= f) s = f a s' := by
  rw [bind_run, h]

theorem bind_err {m : Eff S E C α} {f : α → Eff S E C β} {s s' : S} {e : E}
    (h : m s = (.err e, s')) : (m >>= f) s = (.err e, s') := by
  rw [bind_run, h]

theorem bind_stop {m : Eff S E C α} {f : α → Eff S E C β} {s s' : S} {c : C}
    (h : m s = (.stop c, s')) : (m >>= f) s = (.stop c, s') := by
  rw [bind_run, h]

theorem bind_bind {γ : Type} (m : Eff S E C α) (f : α → Eff S E C β) (g : β → Eff S E C γ) :
    (m >>= f) >>= g = m >>= fun a => f a >>= g := by
  funext s
  rw [bind_run, bind_run, bind_run]
  rcases m s with ⟨o, s'⟩
  cases o <;> rfl

theorem zoom_run {get : S → T} {set : S → T → S} {m : Eff T E C α} {s : S} {o : Outcome E C α} {t : T}
    (h : m (get s) = (o, t)) : zoom get set m s = (o, set s t) := by
  simp only [zoom, h]

theorem lifted_run {L : Type} {m : Eff S E C α} {s t : S} {l : L} {o : Outcome E C α}
    (h : m s = (o, t)) : lifted m (s, l) = (o, (t, l)) := by
  simp only [lifted, zoom, h]

theorem orStop_ok {m : Eff S E C α} {c : C} {s s' : S} {a : α} (h : m s = (.ok a, s')) :
    orStop c m s = (.ok a, s') := by
  simp only [orStop, h]

theorem deferring_ok {m : Eff S E C α} {k : Eff S E C Unit} {s s' s'' : S} {a : α}
    (h : m s = (.ok a, s')) (hk : k s' = (.ok (), s'')) : deferring k m s = (.ok a, s'') := by
  simp only [deferring, h, hk]

theorem deferring_err {m : Eff S E C α} {k : Eff S E C Unit} {s s' s'' : S} {e : E}
    (h : m s = (.err e, s')) (hk : k s' = (.ok (), s'')) : deferring k m s = (.err e, s'') := by
  simp only [deferring, h, hk]

theorem deferring_stop {m : Eff S E C α} {k : Eff S E C Unit} {s s' : S} {c : C}
    (h : m s = (.stop c, s')) : deferring k m s = (.stop c, s') := by
  simp only [deferring, h]

/-! ### Runs that return -/

/-- From every state in `P` the computation returns, and `Q` relates its value and its last state. -/
def Returns (P : S → Prop) (m : Eff S E C α) (Q : α → S → Prop) : Prop :=
  ∀ s, P s → ∃ a s', m s = (.ok a, s') ∧ Q a s'

theorem returns_pure {P : S → Prop} {Q : α → S → Prop} (a : α) (h : ∀ s, P s → Q a s) :
    Returns P (Pure.pure a : Eff S E C α) Q :=
  fun s hs => ⟨a, s, rfl, h s hs⟩

theorem returns_bind {P : S → Prop} {m : Eff S E C α} {Q : α → S → Prop} {f : α → Eff S E C β}
    {R : β → S → Prop} (hm : Returns P m Q) (hf : ∀ a, Returns (Q a) (f a) R) :
    Returns P (m >>= f) R := by
  intro s hs
  obtain ⟨a, s', ha, hq⟩ := hm s hs
  obtain ⟨b, s'', hb, hr⟩ := hf a s' hq
  exact ⟨b, s'', (bind_ok ha).trans hb, hr⟩

theorem returns_conseq {P P' : S → Prop} {m : Eff S E C α} {Q Q' : α → S → Prop}
    (hm : Returns P m Q) (hp : ∀ s, P' s → P s) (hq : ∀ a s, Q a s → Q' a s) : Returns P' m Q' := by
  intro s hs
  obtain ⟨a, s', ha, h⟩ := hm s (hp s hs)
  exact ⟨a, s', ha, hq a s' h⟩

theorem returns_orStop {P : S → Prop} {m : Eff S E C α} {Q : α → S → Prop} (c : C)
    (hm : Returns P m Q) : Returns P (orStop c m) Q := by
  intro s hs
  obtain ⟨a, s', ha, hq⟩ := hm s hs
  exact ⟨a, s', orStop_ok ha, hq⟩

theorem returns_deferring {P : S → Prop} {m : Eff S E C α} {k : Eff S E C Unit}
    {Q R : α → S → Prop} (hm : Returns P m Q) (hk : ∀ a, Returns (Q a) k fun _ => R a) :
    Returns P (deferring k m) R := by
  intro s hs
  obtain ⟨a, s', ha, hq⟩ := hm s hs
  obtain ⟨u, s'', hu, hr⟩ := hk a s' hq
  exact ⟨a, s'', deferring_ok ha hu, hr⟩

theorem returns_foldlM {ι : Type} (Inv : List ι → β → S → Prop) (body : β → ι → Eff S E C β)
    (done todo : List ι)
    (hbody : ∀ done, ∀ i ∈ todo, ∀ b, Returns (Inv done b) (body b i) (Inv (done ++ [i]))) (b : β) :
    Returns (Inv done b) (todo.foldlM body b) (Inv (done ++ todo)) := by
  induction todo generalizing done b with
  | nil =>
    rw [List.append_nil]
    exact returns_pure b fun s hs => hs
  | cons i rest ih =>
    rw [List.foldlM_cons]
    apply returns_bind (hbody done i (List.mem_cons_self ..) b)
    intro b'
    have hrest := ih (done ++ [i]) (fun d j hj => hbody d j (List.mem_cons_of_mem _ hj)) b'
    rwa [List.append_assoc, List.singleton_append] at hrest

theorem returns_withVar {L : Type} {l : L} {m : Eff (S × L) E C α} {P : S → Prop} {Q : α → S → Prop}
    (hm : Returns (fun s => P s.1 ∧ s.2 = l) m fun a s => Q a s.1) : Returns P (withVar l m) Q := by
  intro s hs
  obtain ⟨a, s', ha, hq⟩ := hm (s, l) ⟨hs, rfl⟩
  exact ⟨a, s'.1, by simp only [withVar, ha], hq⟩

theorem returns_update {L : Type} {f : L → Eff S E C L} {P Q : L → S → Prop}
    (hf : ∀ l, Returns (P l) (f l) Q) :
    Returns (fun s => P s.2 s.1) (update f) fun _ s => Q s.2 s.1 := by
  intro h hs
  obtain ⟨s, l⟩ := h
  obtain ⟨l', s', hl, hq⟩ := hf l s hs
  exact ⟨(), (s', l'), (bind_ok rfl).trans ((bind_ok (lifted_run hl)).trans rfl), hq⟩

/-! ### What is left where a run fails -/

/-- From every state in `P` the computation returns, and `Q` relates its value and its last state, or it
ends in an error return, and `R` relates the error and the state. -/
def Ends (P : S → Prop) (m : Eff S E C α) (Q : α → S → Prop) (R : E → S → Prop) : Prop :=
  ∀ s, P s → (∃ a s', m s = (.ok a, s') ∧ Q a s') ∨ ∃ e s', m s = (.err e, s') ∧ R e s'

theorem ends_of_returns {P : S → Prop} {m : Eff S E C α} {Q : α → S → Prop} {R : E → S → Prop}
    (hm : Returns P m Q) : Ends P m Q R := fun s hs => .inl (hm s hs)

theorem returns_of_ends {P : S → Prop} {m : Eff S E C α} {Q : α → S → Prop} {R : E → S → Prop} (hm : Ends P m Q R)
    (hr : ∀ e s, ¬ R e s) : Returns P m Q := by
  intro s hs
  rcases hm s hs with ha | ⟨e, s', -, he⟩
  · exact ha
  · exact absurd he (hr e s')

theorem ends_conseq {P P' : S → Prop} {m : Eff S E C α} {Q Q' : α → S → Prop} {R R' : E → S → Prop}
    (hm : Ends P m Q R) (hp : ∀ s, P' s → P s) (hq : ∀ a s, Q a s → Q' a s) (hr : ∀ e s, R e s → R' e s) :
    Ends P' m Q' R' := by
  intro s hs
  rcases hm s (hp s hs) with ⟨a, s', ha, h⟩ | ⟨e, s', he, h⟩
  · exact .inl ⟨a, s', ha, hq a s' h⟩
  · exact .inr ⟨e, s', he, hr e s' h⟩

theorem ends_err {P : S → Prop} {m : Eff S E C α} {Q : α → S → Prop} {R : E → S → Prop} (hm : Ends P m Q R) {s s' : S}
    (hs : P s) {e : E} (he : m s = (.err e, s')) : R e s' := by
  rcases hm s hs with ⟨a, t, ha, -⟩ | ⟨e', t, he', hr⟩
  · cases he.symm.trans ha
  · cases he.symm.trans he'
    exact hr

theorem ends_bind {P : S → Prop} {m : Eff S E C α} {Q : α → S → Prop} {R : E → S → Prop} {f : α → Eff S E C β}
    {Q' : β → S → Prop} (hm : Ends P m Q R) (hf : ∀ a, Ends (Q a) (f a) Q' R) : Ends P (m >>= f) Q' R := by
  intro s hs
  rcases hm s hs with ⟨a, s', ha, hq⟩ | ⟨e, s', he, hr⟩
  · rcases hf a s' hq with ⟨b, s'', hb, hq'⟩ | ⟨e, s'', he, hr⟩
    · exact .inl ⟨b, s'', (bind_ok ha).trans hb, hq'⟩
    · exact .inr ⟨e, s'', (bind_ok ha).trans he, hr⟩
  · exact .inr ⟨e, s', bind_err he, hr⟩

theorem ends_forM {ι : Type} {P : S → Prop} {R : E → S → Prop} {body : ι → Eff S E C PUnit}
    (hbody : ∀ i, Ends P (body i) (fun _ => P) R) (xs : List ι) : Ends P (xs.forM body) (fun _ => P) R := by
  induction xs with
  | nil => exact ends_of_returns (returns_pure PUnit.unit fun _ hs => hs)
  | cons i rest ih => exact ends_bind (hbody i) fun _ => ih

theorem ends_deferring {P : S → Prop} {m : Eff S E C α} {k : Eff S E C Unit} {Q Q' : α → S → Prop}
    {R R' : E → S → Prop} (hm : Ends P m Q R) (hk : ∀ a, Returns (Q a) k fun _ => Q' a)
    (hk' : ∀ e, Returns (R e) k fun _ => R' e) : Ends P (deferring k m) Q' R' := by
  intro s hs
  rcases hm s hs with ⟨a, s', ha, hq⟩ | ⟨e, s', he, hr⟩
  · obtain ⟨u, s'', hu, hq'⟩ := hk a s' hq
    exact .inl ⟨a, s'', deferring_ok ha hu, hq'⟩
  · obtain ⟨u, s'', hu, hr'⟩ := hk' e s' hr
    exact .inr ⟨e, s'', deferring_err he hu, hr'⟩

theorem ends_withVar {L : Type} {l : L} {m : Eff (S × L) E C α} {P : S → Prop} {Q : α → S → Prop} {R : E → S → Prop}
    (hm : Ends (fun s => P s.1 ∧ s.2 = l) m (fun a s => Q a s.1) fun e s => R e s.1) : Ends P (withVar l m) Q R := by
  intro s hs
  rcases hm (s, l) ⟨hs, rfl⟩ with ⟨a, s', ha, hq⟩ | ⟨e, s', he, hr⟩
  · exact .inl ⟨a, s'.1, by simp only [withVar, ha], hq⟩
  · exact .inr ⟨e, s'.1, by simp only [withVar, he], hr⟩

theorem ends_update {L : Type} {f : L → Eff S E C L} {P Q : L → S → Prop} {R : E → L → S → Prop}
    (hf : ∀ l, Ends (P l) (f l) Q fun e s => R e l s) :
    Ends (fun s => P s.2 s.1) (update f) (fun _ s => Q s.2 s.1) fun e s => R e s.2 s.1 := by
  intro h hs
  obtain ⟨s, l⟩ := h
  rcases hf l s hs with ⟨l', s', hl, hq⟩ | ⟨e, s', he, hr⟩
  · exact .inl ⟨(), (s', l'), (bind_ok rfl).trans ((bind_ok (lifted_run hl)).trans rfl), hq⟩
  · exact .inr ⟨e, (s', l), (bind_ok rfl).trans (bind_err (lifted_run he)), hr⟩

/-! ### Runs that return or fail -/

/-- As `Returns`, but where `may` holds the computation may end in an error return. -/
def Tries (may : Prop) (P : S → Prop) (m : Eff S E C α) (Q : α → S → Prop) : Prop :=
  ∀ s, P s → (∃ a s', m s = (.ok a, s') ∧ Q a s') ∨ may ∧ ∃ e s', m s = (.err e, s')

theorem tries_of_returns {may : Prop} {P : S → Prop} {m : Eff S E C α} {Q : α → S → Prop}
    (hm : Returns P m Q) : Tries may P m Q := fun s hs => .inl (hm s hs)

theorem tries_iff_ends {may : Prop} {P : S → Prop} {m : Eff S E C α} {Q : α → S → Prop} :
    Tries may P m Q ↔ Ends P m Q fun _ _ => may := by
  constructor
  · intro hm s hs
    exact (hm s hs).imp_right fun ⟨hmay, e, s', he⟩ => ⟨e, s', he, hmay⟩
  · intro hm s hs
    exact (hm s hs).imp_right fun ⟨e, s', he, hmay⟩ => ⟨hmay, e, s', he⟩

theorem tries_bind {may : Prop} {P : S → Prop} {m : Eff S E C α} {Q : α → S → Prop} {f : α → Eff S E C β}
    {R : β → S → Prop} (hm : Tries may P m Q) (hf : ∀ a, Tries may (Q a) (f a) R) :
    Tries may P (m >>= f) R :=
  tries_iff_ends.mpr (ends_bind (tries_iff_ends.mp hm) fun a => tries_iff_ends.mp (hf a))

theorem tries_foldlM {ι : Type} {may : Prop} (Inv : List ι → β → S → Prop) (body : β → ι → Eff S E C β)
    (hbody : ∀ done i b, Tries may (Inv done b) (body b i) (Inv (done ++ [i]))) (done todo : List ι) (b : β) :
    Tries may (Inv done b) (todo.foldlM body b) (Inv (done ++ todo)) := by
  induction todo generalizing done b with
  | nil =>
    rw [List.append_nil]
    exact tries_of_returns (returns_pure b fun s hs => hs)
  | cons i rest ih =>
    rw [List.foldlM_cons]
    apply tries_bind (hbody done i b)
    intro b'
    have hrest := ih (done ++ [i]) b'
    rwa [List.append_assoc, List.singleton_append] at hrest

theorem tries_update {L : Type} {may : Prop} {f : L → Eff S E C L} {P Q : L → S → Prop}
    (hf : ∀ l, Tries may (P l) (f l) Q) :
    Tries may (fun s => P s.2 s.1) (update f) fun _ s => Q s.2 s.1 :=
  tries_iff_ends.mpr (ends_update (R := fun _ _ _ => may) fun l => tries_iff_ends.mp (hf l))

/-! ### What a run returns, if it returns -/

/-- Whenever the computation returns from a state in `P`, `Q` relates its value and its last state. -/
def Yields (P : S → Prop) (m : Eff S E C α) (Q : α → S → Prop) : Prop :=
  ∀ s, P s → ∀ a s', m s = (.ok a, s') → Q a s'

theorem bind_eq_ok {m : Eff S E C α} {f : α → Eff S E C β} {s s'' : S} {b : β}
    (h : (m >>= f) s = (.ok b, s'')) : ∃ a s', m s = (.ok a, s') ∧ f a s' = (.ok b, s'') := by
  rw [bind_run] at h
  split at h
  next a s' ha => exact ⟨a, s', ha, h⟩
  next => cases h
  next => cases h

theorem bind_eq_err {m : Eff S E C α} {f : α → Eff S E C β} {s s'' : S} {e : E}
    (h : (m >>= f) s = (.err e, s'')) :
    m s = (.err e, s'') ∨ ∃ a s', m s = (.ok a, s') ∧ f a s' = (.err e, s'') := by
  rw [bind_run] at h
  split at h
  next a s' ha => exact .inr ⟨a, s', ha, h⟩
  next e' s' he =>
    cases h
    exact .inl he
  next => cases h

theorem yields_of_ends {P : S → Prop} {m : Eff S E C α} {Q : α → S → Prop} {R : E → S → Prop} (hm : Ends P m Q R) :
    Yields P m Q := by
  intro s hs a s' ha
  rcases hm s hs with ⟨b, t, hb, hq⟩ | ⟨e, t, he, -⟩
  · cases ha.symm.trans hb
    exact hq
  · cases ha.symm.trans he

theorem yields_of_tries {may : Prop} {P : S → Prop} {m : Eff S E C α} {Q : α → S → Prop}
    (hm : Tries may P m Q) : Yields P m Q := yields_of_ends (tries_iff_ends.mp hm)

theorem yields_pure {P : S → Prop} {Q : α → S → Prop} (a : α) (h : ∀ s, P s → Q a s) :
    Yields P (Pure.pure a : Eff S E C α) Q := by
  intro s hs _ _ hrun
  cases hrun
  exact h s hs

theorem yields_bind {P : S → Prop} {m : Eff S E C α} {Q : α → S → Prop} {f : α → Eff S E C β}
    {R : β → S → Prop} (hm : Yields P m Q) (hf : ∀ a, Yields (Q a) (f a) R) : Yields P (m >>= f) R := by
  intro s hs b s'' hb
  obtain ⟨a, s', ha, hfa⟩ := bind_eq_ok hb
  exact hf a s' (hm s hs a s' ha) b s'' hfa

theorem yields_orStop {P : S → Prop} {m : Eff S E C α} {Q : α → S → Prop} (c : C) (hm : Yields P m Q) :
    Yields P (orStop c m) Q := by
  intro s hs a s' ha
  unfold orStop at ha
  split at ha
  · cases ha
  · exact hm s hs a s' ha

theorem yields_deferring {P : S → Prop} {m : Eff S E C α} {k : Eff S E C Unit} {R : α → Prop}
    (hm : Yields P m fun a _ => R a) : Yields P (deferring k m) fun a _ => R a := by
  intro s hs a s' ha
  unfold deferring at ha
  split at ha
  · cases ha
  next o t _ hmo =>
    split at ha
    · cases ha
    next => cases ha; exact hm s hs a t hmo

theorem yields_foldlM {ι : Type} (Inv : List ι → β → S → Prop) (body : β → ι → Eff S E C β)
    (hbody : ∀ done i b, Yields (Inv done b) (body b i) (Inv (done ++ [i]))) (done todo : List ι) (b : β) :
    Yields (Inv done b) (todo.foldlM body b) (Inv (done ++ todo)) := by
  induction todo generalizing done b with
  | nil =>
    rw [List.append_nil]
    exact yields_pure b fun s hs => hs
  | cons i rest ih =>
    rw [List.foldlM_cons]
    refine yields_bind (hbody done i b) fun b' => ?_
    have hrest := ih (done ++ [i]) b'
    rwa [List.append_assoc, List.singleton_append] at hrest

theorem yields_forM {ι : Type} (Inv : List ι → S → Prop) (body : ι → Eff S E C PUnit)
    (hbody : ∀ done i, Yields (Inv done) (body i) fun _ => Inv (done ++ [i])) (done todo : List ι) :
    Yields (Inv done) (todo.forM body) fun _ => Inv (done ++ todo) := by
  induction todo generalizing done with
  | nil =>
    rw [List.append_nil]
    exact yields_pure PUnit.unit fun s hs => hs
  | cons i rest ih =>
    refine yields_bind (hbody done i) fun _ => ?_
    have hrest := ih (done ++ [i])
    rwa [List.append_assoc, List.singleton_append] at hrest

theorem yields_withVar {L : Type} {l : L} {m : Eff (S × L) E C α} {P : S → Prop} {Q : α → S → Prop}
    (hm : Yields (fun s => P s.1 ∧ s.2 = l) m fun a s => Q a s.1) : Yields P (withVar l m) Q := by
  intro s hs a s' ha
  obtain ⟨hout, rfl⟩ := Prod.mk.inj ha
  exact hm (s, l) ⟨hs, rfl⟩ a (m (s, l)).2 (Prod.ext hout rfl)

theorem yields_readVar {L : Type} (P : S × L → Prop) :
    Yields P (readVar : Eff (S × L) E C L) fun l s => s.2 = l ∧ P s := by
  intro s hs _ _ h
  cases h
  exact ⟨rfl, hs⟩

theorem yields_zoom {get : S → T} {set : S → T → S} {m : Eff T E C α} {R : α → Prop}
    (hm : Yields (fun _ => True) m fun a _ => R a) : Yields (fun _ => True) (zoom get set m) fun a _ => R a := by
  intro s _ a s' ha
  obtain ⟨hout, -⟩ := Prod.mk.inj ha
  exact hm (get s) trivial a (m (get s)).2 (Prod.ext hout rfl)

theorem yields_lifted {L : Type} {m : Eff S E C α} {I : L → Prop} {R : α → Prop}
    (hm : Yields (fun _ => True) m fun a _ => R a) :
    Yields (fun s => I s.2) (lifted m) fun a s => R a ∧ I s.2 := by
  intro s hs a s' ha
  obtain ⟨hout, rfl⟩ := Prod.mk.inj ha
  exact ⟨hm s.1 trivial a (m s.1).2 (Prod.ext hout rfl), hs⟩

theorem yields_update {L : Type} {f : L → Eff S E C L} {P Q : L → Prop}
    (hf : ∀ l, P l → Yields (fun _ => True) (f l) fun l' _ => Q l') :
    Yields (fun s => P s.2) (update f) fun _ s => Q s.2 := by
  intro s hs _ s'' ha
  obtain ⟨l, s₁, hl, hrest⟩ := bind_eq_ok ha
  obtain ⟨l', s₂, hl', hlast⟩ := bind_eq_ok hrest
  cases hl
  cases hlast
  exact (yields_lifted (I := fun _ => True) (hf s.2 hs) s trivial l' s₂ hl').1

/-! ### However a run ends -/

/-- However the computation ends, it ends in a state that satisfies `I` if it began in one. -/
def Keeps (I : S → Prop) (m : Eff S E C α) : Prop := ∀ s, I s → I (m s).2

theorem keeps_pure (I : S → Prop) (a : α) : Keeps I (Pure.pure a : Eff S E C α) := fun _ hs => hs

theorem keeps_bind {I : S → Prop} {m : Eff S E C α} {f : α → Eff S E C β} (hm : Keeps I m)
    (hf : ∀ a, Keeps I (f a)) : Keeps I (m >>= f) := by
  intro s hs
  have h := hm s hs
  rw [bind_run]
  split
  next a s' hr =>
    rw [hr] at h
    exact hf a s' h
  next hr => rwa [hr] at h
  next hr => rwa [hr] at h

theorem keeps_of_ends {I : S → Prop} {m : Eff S E C α} (hm : Ends I m (fun _ => I) fun _ => I) : Keeps I m := by
  intro s hs
  rcases hm s hs with ⟨a, s', ha, h⟩ | ⟨e, s', he, h⟩
  · rwa [ha]
  · rwa [he]

theorem keeps_orStop {I : S → Prop} {m : Eff S E C α} (c : C) (hm : Keeps I m) : Keeps I (orStop c m) := by
  intro s hs
  have h := hm s hs
  unfold orStop
  split
  next hr => rwa [hr] at h
  next => exact h

theorem returns_keeps {P I : S → Prop} {m : Eff S E C α} {Q : α → S → Prop} (hm : Returns P m Q) (hk : Keeps I m) :
    Returns (fun s => P s ∧ I s) m fun a s => Q a s ∧ I s := by
  intro s h
  obtain ⟨hs, hi⟩ := h
  obtain ⟨a, s', ha, hq⟩ := hm s hs
  have hi' := hk s hi
  rw [ha] at hi'
  exact ⟨a, s', ha, hq, hi'⟩

theorem keeps_zoom {get : S → T} {set : S → T → S} {I : S → Prop} (hset : ∀ s t, I s → I (set s t))
    (m : Eff T E C α) : Keeps I (zoom get set m) :=
  fun s hs => hset s _ hs

theorem keeps_foldlM {ι : Type} {I : S → Prop} {body : β → ι → Eff S E C β}
    (hbody : ∀ b i, Keeps I (body b i)) (xs : List ι) (b : β) : Keeps I (xs.foldlM body b) := by
  induction xs generalizing b with
  | nil => exact keeps_pure I b
  | cons i rest ih =>
    rw [List.foldlM_cons]
    exact keeps_bind (hbody b i) ih

end Effect
