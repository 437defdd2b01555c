import ZigPsql.Client.SessionRefinement
import ZigPsql.Client.EscapedStrings

/-!
# What the values cannot change

Two programs do the same events, but QParams has other values of the same types
in one than in the other. On whatever connections, and whatever the two servers
answer, they ask for the same but for what the constants hold.
-/

namespace Psql
open Effect Text Zig Libpq Postgres Machine

variable {σ τ : Type}

/-! ### Statements of the same shape -/

/-- The two are one and the same once their constants are blanked. -/
def SameShape (t u : Bytes) : Prop :=
  t = u ∨ ∃ ts us, lex true t = some ts ∧ lex true u = some us ∧ blanked ts = blanked us

/-- Tuples of the same types, of numbers and of strings without a zero byte. -/
structure Twins (values₁ values₂ : List Value) : Prop where
  types : values₁.map Value.typeOf = values₂.map Value.typeOf
  left : ∀ v ∈ values₁, plain v = true ∧ holdsNul v = false
  right : ∀ v ∈ values₂, plain v = true ∧ holdsNul v = false

theorem joined_noNul {values : List Value} (h : ∀ v ∈ values, plain v = true ∧ holdsNul v = false) :
    0 ∉ joined values := by
  intro hmem
  rcases mem_of_mem_intercalate hmem with hsep | ⟨t, ht, hmem⟩
  · exact absurd hsep (by decide)
  · obtain ⟨v, hv, rfl⟩ := List.mem_map.mp ht
    exact element_noNul v (h v hv).1 (h v hv).2 hmem

theorem span_eq_of_nul {t : Bytes} (ht : 0 ∈ t) (u v : Bytes) : span (t ++ u) = span (t ++ v) := by
  obtain ⟨before, after, rfl, hnot⟩ := List.eq_append_cons_of_mem ht
  simp only [List.append_assoc, List.cons_append, span_append_nul hnot]

/-- Where the table holds a zero byte, nothing behind it is read. -/
theorem insertQuery_shape {table : Bytes} (hmode : (modeAfter true (valuesPrefix table)).inside = false)
    {values₁ values₂ : List Value} (h : Twins values₁ values₂) :
    SameShape (span (insertQuery table (joined values₁))) (span (insertQuery table (joined values₂))) := by
  by_cases hnul : 0 ∈ valuesPrefix table
  · left
    rw [insertQuery, insertQuery, List.append_assoc, List.append_assoc]
    exact span_eq_of_nul hnul _ _
  · have hread (values : List Value) (hv : ∀ v ∈ values, plain v = true ∧ holdsNul v = false) :
        lex true (span (insertQuery table (joined values))) = some (prefixTokens table ++ listTokens values) := by
      have hquery : 0 ∉ insertQuery table (joined values) := by
        simp [insertQuery, hnul, joined_noNul hv, ascii]
      rw [span_of_noNul _ hquery]
      exact lex_insertQuery table hmode values fun v hmem => (hv v hmem).1
    refine .inr ⟨_, _, hread values₁ h.left, hread values₂ h.right, ?_⟩
    obtain ⟨before, hbefore, -⟩ := lexes_prefix table hmode
    rw [hbefore, List.append_assoc, List.append_assoc, List.singleton_append, List.singleton_append,
      blanked_append_self, blanked_append_self, blanked_listTokens values₁ fun v hv => (h.left v hv).1,
      blanked_listTokens values₂ fun v hv => (h.right v hv).1]
    have hblanks := congrArg (List.map blankOf) h.types
    simp only [List.map_map, Function.comp_def] at hblanks
    rw [hblanks]

/-! ### Sessions that differ in values only -/

/-- The same event, but for the values of a tuple. -/
inductive TwinEvents : Event → Event → Prop
  | init (connectionString : ConnectionParams) : TwinEvents (.init connectionString) (.init connectionString)
  | call (c : ℕ) (request : Call) : TwinEvents (.call c request) (.call c request)
  | QParams {values₁ values₂ : List Value} (h : Twins values₁ values₂) :
      TwinEvents (.QParams values₁) (.QParams values₂)
  | insertParams (c : ℕ) {table : Bytes} (hmode : (modeAfter true (valuesPrefix table)).inside = false) (k : ℕ) :
    TwinEvents (.insertParams c table k) (.insertParams c table k)
  | deinitResult (k : ℕ) : TwinEvents (.deinitResult k) (.deinitResult k)
  | deinitParams (k : ℕ) : TwinEvents (.deinitParams k) (.deinitParams k)

def TwinTexts (t u : Bytes) : Prop := ∃ values₁ values₂, Twins values₁ values₂ ∧ t = joined values₁ ∧ u = joined values₂

/-- Neither server looks at more than the connection string to admit a connection. -/
def AdmitAlike (srv₁ : Server σ) (srv₂ : Server τ) : Prop :=
  ∀ s t text, (srv₁.connect s (span text)).1 = some true ↔ (srv₂.connect t (span text)).1 = some true

namespace Session

structure Alike (s : Session σ) (t : Session τ) : Prop where
  opened : ∀ c, s.up c = none ↔ t.up c = none
  next : s.next = t.next
  params : List.Forall₂ TwinTexts s.params t.params

/-- What an event asks for. -/
def text (s : Session σ) : Event → Option Bytes
  | .init connectionString => some (connectionText connectionString)
  | .call c request => if s.up c = none then none else request.text
  | .insertParams c table k => if s.up c = none then none else s.params[k]?.map (insertQuery table)
  | _ => none

variable {srv₁ : Server σ} {srv₂ : Server τ} {s : Session σ} {t : Session τ}

theorem ask_keeps (srv : Server σ) (s : Session σ) (c : ℕ) (text : Bytes) :
    (∀ d, (s.ask srv c text).2.up d = none ↔ s.up d = none) ∧ (s.ask srv c text).2.next = s.next ∧
      (s.ask srv c text).2.params = s.params := by
  by_cases hc : s.up c = some true
  · rw [ask_up hc]
    refine ⟨fun d => ?_, rfl, rfl⟩
    by_cases hd : d = c
    · simp [hd, hc]
    · simp [Function.update_of_ne hd]
  · have hask : s.ask srv c text = (none, s) := if_neg hc
    rw [hask]
    exact ⟨fun _ => Iff.rfl, rfl, rfl⟩

theorem fetching_keeps (s : Session σ) (o : Outcome Errors Stop (Option Contents)) :
    (s.fetching o).2.up = s.up ∧ (s.fetching o).2.next = s.next ∧ (s.fetching o).2.params = s.params := by
  cases o <;> exact ⟨rfl, rfl, rfl⟩

/-- A call changes which connections are open only if it closes one. -/
theorem call_keeps (srv : Server σ) (s : Session σ) (c : ℕ) (request : Call) :
    (∀ d, (s.call srv c request).2.up d = none ↔ s.up d = none ∨ (request = .close ∧ d = c)) ∧
      (s.call srv c request).2.next = s.next ∧ (s.call srv c request).2.params = s.params := by
  by_cases hc : s.up c = none
  · rw [call_absent hc]
    refine ⟨fun d => ⟨.inl, ?_⟩, rfl, rfl⟩
    rintro (hd | ⟨-, rfl⟩)
    · exact hd
    · exact hc
  by_cases hclose : request = .close
  · subst hclose
    rw [call_close hc]
    refine ⟨fun d => ?_, rfl, rfl⟩
    by_cases hd : d = c
    · simp [hd]
    · simp [hd]
  · simp only [hclose, false_and, or_false]
    cases ht : request.text with
    | none =>
      rw [call_silent hc hclose ht]
      exact ⟨fun _ => Iff.rfl, rfl, rfl⟩
    | some text =>
      obtain ⟨hup, hnext, hparams⟩ := s.ask_keeps srv c text
      obtain ⟨hup', hnext', hparams'⟩ := (s.ask srv c text).2.fetching_keeps (request.means (s.ask srv c text).1)
      rw [call_asks hc ht, hup', hnext', hparams']
      exact ⟨hup, hnext, hparams⟩

theorem call_alike (hs : s.Alike t) (c : ℕ) {request request' : Call} (hclose : request = .close ↔ request' = .close) :
    (s.call srv₁ c request).2.Alike (t.call srv₂ c request').2 := by
  obtain ⟨hup, hnext, hparams⟩ := s.call_keeps srv₁ c request
  obtain ⟨hup', hnext', hparams'⟩ := t.call_keeps srv₂ c request'
  refine ⟨fun d => ?_, by rw [hnext, hnext', hs.next], ?_⟩
  · rw [hup, hup', hs.opened, hclose]
  · rw [hparams, hparams']
    exact hs.params

theorem connect_alike (hconnect : AdmitAlike srv₁ srv₂) (hs : s.Alike t) (conninfo : Bytes) :
    (s.connect srv₁ conninfo).2.Alike (t.connect srv₂ conninfo).2 := by
  have hiff := hconnect s.server t.server conninfo
  unfold connect
  by_cases hup : (srv₁.connect s.server (span conninfo)).1 = some true
  · simp only [hup, hiff.mp hup, if_true]
    refine ⟨fun d => ?_, congrArg (· + 1) hs.next, hs.params⟩
    simp only [hs.next]
    by_cases hd : d = t.next
    · simp [hd]
    · simp [Function.update_of_ne hd, hs.opened d]
  · simp only [hup, hiff.not.mp hup, if_false]
    exact ⟨hs.opened, congrArg (· + 1) hs.next, hs.params⟩

theorem params_alike (hs : s.Alike t) (k : ℕ) : List.Forall₂ TwinTexts (s.params.eraseIdx k) (t.params.eraseIdx k) := by
  rw [List.eraseIdx_eq_take_drop_succ, List.eraseIdx_eq_take_drop_succ]
  exact List.rel_append (List.forall₂_take k hs.params) (List.forall₂_drop (k + 1) hs.params)

/-- Both have a string of the number `k`, or neither has. -/
theorem string_alike (hs : s.Alike t) (k : ℕ) :
    (s.params[k]? = none ∧ t.params[k]? = none) ∨
      ∃ x y, s.params[k]? = some x ∧ t.params[k]? = some y ∧ TwinTexts x y := by
  obtain ⟨hlen, hget⟩ := List.forall₂_iff_get.mp hs.params
  by_cases hk : k < s.params.length
  · have hk' : k < t.params.length := hlen ▸ hk
    exact .inr ⟨_, _, List.getElem?_eq_getElem hk, List.getElem?_eq_getElem hk', hget k hk hk'⟩
  · have hk' : ¬ k < t.params.length := hlen ▸ hk
    exact .inl ⟨List.getElem?_eq_none (not_lt.mp hk), List.getElem?_eq_none (not_lt.mp hk')⟩

theorem text_alike (hs : s.Alike t) {e e' : Event} (he : TwinEvents e e') :
    List.Forall₂ (fun x y => SameShape (span x) (span y)) (s.text e).toList (t.text e').toList := by
  have hsame (text : Option Bytes) :
      List.Forall₂ (fun x y => SameShape (span x) (span y)) text.toList text.toList :=
    List.forall₂_same.mpr fun _ _ => .inl rfl
  cases he with
  | init connectionString => exact hsame _
  | call c request =>
    simp only [text, hs.opened c]
    exact hsame _
  | insertParams c hmode k =>
    simp only [text, hs.opened c]
    split
    · exact hsame none
    · rcases string_alike hs k with ⟨hx, hy⟩ | ⟨_, _, hx, hy, values₁, values₂, htwins, rfl, rfl⟩
      · rw [hx, hy]
        exact hsame none
      · rw [hx, hy]
        exact .cons (insertQuery_shape hmode htwins) .nil
  | QParams | deinitResult | deinitParams => exact hsame none

theorem step_alike (hconnect : AdmitAlike srv₁ srv₂) (hs : s.Alike t) {e e' : Event} (he : TwinEvents e e') :
    (s.step srv₁ e).2.Alike (t.step srv₂ e').2 := by
  cases he with
  | init connectionString => exact connect_alike hconnect hs _
  | call c request => exact call_alike hs c Iff.rfl
  | @QParams values₁ values₂ h =>
    have htext (values : List Value) (hv : ∀ v ∈ values, plain v = true ∧ holdsNul v = false) :
        (fragments true values).flatten = joined values :=
      fragments_of_startsTyped values (fun v hmem => accepted_of_plain v (hv v hmem).1)
        (startsTyped_of_plain values fun v hmem => (hv v hmem).1)
    simp only [step, htext values₁ h.left, htext values₂ h.right]
    exact ⟨hs.opened, hs.next, .cons ⟨values₁, values₂, h, rfl, rfl⟩ hs.params⟩
  | insertParams c hmode k =>
    rcases string_alike hs k with ⟨hx, hy⟩ | ⟨_, _, hx, hy, -⟩
    · simp only [step, hx, hy]
      exact hs
    · simp only [step, hx, hy]
      exact call_alike hs c (by simp)
  | deinitResult k =>
    have hkeeps {ρ : Type} (srv : Server ρ) (r : Session ρ) : (r.step srv (.deinitResult k)).2.up = r.up ∧
        (r.step srv (.deinitResult k)).2.next = r.next ∧ (r.step srv (.deinitResult k)).2.params = r.params := by
      simp only [step]
      split <;> exact ⟨rfl, rfl, rfl⟩
    obtain ⟨hup, hnext, hparams⟩ := hkeeps srv₁ s
    obtain ⟨hup', hnext', hparams'⟩ := hkeeps srv₂ t
    exact ⟨by rw [hup, hup']; exact hs.opened, by rw [hnext, hnext', hs.next],
      by rw [hparams, hparams']; exact hs.params⟩
  | deinitParams k =>
    simp only [step, hs.params.length_eq]
    split
    · exact ⟨hs.opened, hs.next, params_alike hs k⟩
    · exact hs

end Session

/-! ### Programs -/

namespace Program

theorem text_session (p : Program σ) (e : Event) : e.text p = p.session.text e := by
  have hup (c : ℕ) : p.session.up c = none ↔ p.handle c = none := by simp [session]
  cases e with
  | call c request =>
    cases hc : p.handle c <;> simp [Event.text, Session.text, hup, hc]
  | insertParams c table k =>
    cases hc : p.handle c with
    | none => simp [Event.text, Session.text, hup, hc]
    | some self =>
      have hstring : p.session.params[k]? = p.params[k]?.map fun q => q.paramString.text := List.getElem?_map ..
      simp [Event.text, Session.text, hup, hc, hstring, Function.comp_def]
  | init | QParams | deinitResult | deinitParams => rfl

section
variable (P : Platform) (hP : P.Succeeds) (srv₁ : Server σ) (srv₂ : Server τ) (hconnect : AdmitAlike srv₁ srv₂)
  {base₁ base₂ : Multiset Block} (p₁ : Program σ) (p₂ : Program τ) (hp₁ : p₁.Sound base₁) (hp₂ : p₂.Sound base₂)
include hP hconnect hp₁ hp₂

theorem step_twins (hs : p₁.session.Alike p₂.session) {e e' : Event} (he : TwinEvents e e') :
    List.Forall₂ (fun x y => SameShape (span x) (span y)) (e.text p₁).toList (e'.text p₂).toList ∧
      (step P srv₁ p₁ e).2.Sound base₁ ∧ (step P srv₂ p₂ e').2.Sound base₂ ∧
      (step P srv₁ p₁ e).2.session.Alike (step P srv₂ p₂ e').2.session := by
  have halike := Session.step_alike hconnect hs he
  rw [step_refines hP hp₁ e, step_refines hP hp₂ e'] at halike
  rw [text_session, text_session]
  exact ⟨Session.text_alike hs he, step_sound hp₁ e, step_sound hp₂ e', halike⟩

/-- What two programs hand over is the same but for what the constants hold, statement for statement as long as
both run. -/
theorem run_twins (hs : p₁.session.Alike p₂.session) {es₁ es₂ : List Event} (hes : List.Forall₂ TwinEvents es₁ es₂) :
    ∃ new₁ new₂ : List Buf, (p₁.run P srv₁ es₁).2.world.handed = p₁.world.handed ++ new₁ ∧
      (p₂.run P srv₂ es₂).2.world.handed = p₂.world.handed ++ new₂ ∧
      (∀ b ∈ new₁.zip new₂, SameShape (span b.1.text) (span b.2.text)) ∧
      ((∀ o ∈ (p₁.run P srv₁ es₁).1, o.stopped = false) → (∀ o ∈ (p₂.run P srv₂ es₂).1, o.stopped = false) →
        new₁.length = new₂.length) := by
  have hstep (e e' : Event) (q : Program σ) (r : Program τ) (he : TwinEvents e e')
      (hqr : q.Sound base₁ ∧ r.Sound base₂ ∧ q.session.Alike r.session) :=
    step_twins P hP srv₁ srv₂ hconnect q r hqr.1 hqr.2.1 hqr.2.2 he
  obtain ⟨hzip, hlength⟩ := trace_twins hstep hes p₁ p₂ ⟨hp₁, hp₂, hs⟩
  obtain ⟨new₁, hnew₁, -, htexts₁⟩ := logged_run P srv₁ p₁ hp₁ es₁
  obtain ⟨new₂, hnew₂, -, htexts₂⟩ := logged_run P srv₂ p₂ hp₂ es₂
  rw [← asked, ← asked, ← htexts₁ hP, ← htexts₂ hP] at hzip hlength
  refine ⟨new₁, new₂, hnew₁, hnew₂, fun b hb => ?_, ?_⟩
  · refine hzip (b.1.text, b.2.text) ?_
    rw [List.zip_map]
    exact List.mem_map_of_mem hb
  · intro hruns₁ hruns₂
    simpa using hlength hruns₁ hruns₂

end
end Program

/-! The payload of the repository's own test, beside a harmless name. -/

def adding (name : String) : List Event :=
  [.QParams [.pointer .slice true .u8 none (ascii name), .int true 32 7], .insertParams 0 (ascii "Users") 0,
    .call 0 (.select (ascii "Users")), .deinitParams 0]

theorem run_twins_drop :
    ∃ new₁ new₂ : List Buf,
      ((oneOpen ()).run Platform.simple obliging (adding "'; DROP TABLE users; --")).2.world.handed = new₁ ∧
      ((oneOpen ()).run Platform.simple obliging (adding "John")).2.world.handed = new₂ ∧
      (∀ b ∈ new₁.zip new₂, SameShape (span b.1.text) (span b.2.text)) ∧ new₁.length = new₂.length := by
  have hconnect : AdmitAlike obliging obliging := fun _ _ _ => Iff.rfl
  have htwins : Twins [.pointer .slice true .u8 none (ascii "'; DROP TABLE users; --"), .int true 32 7]
      [.pointer .slice true .u8 none (ascii "John"), .int true 32 7] := ⟨rfl, by decide, by decide⟩
  have hevents : List.Forall₂ TwinEvents (adding "'; DROP TABLE users; --") (adding "John") :=
    .cons (.QParams htwins) (.cons (.insertParams 0 (by decide) 0) (.cons (.call 0 _) (.cons (.deinitParams 0) .nil)))
  obtain ⟨new₁, new₂, hnew₁, hnew₂, hshape, hlength⟩ := Program.run_twins Platform.simple Platform.simple_succeeds
    obliging obliging hconnect (oneOpen ()) (oneOpen ()) (oneOpen_sound ()) (oneOpen_sound ())
    ⟨fun _ => Iff.rfl, rfl, .nil⟩ hevents
  exact ⟨new₁, new₂, hnew₁, hnew₂, hshape, hlength (by decide +kernel) (by decide +kernel)⟩

end Psql
