import ZigPsql.Client.SessionRefinement

/-!
# What stops a program

Only an insertion can stop a program, when it comes back with an error and no
SQLSTATE; so it does on a connection that was lost. A program is safe from this
with just those servers that keep every connection up and code every refusal.
-/

namespace Psql
open Effect Effect.Eff Text Zig Libpq Machine

variable {σ : Type}

structure Steady (srv : Server σ) : Prop where
  alive : ∀ s text, (srv.exec s (span text)).1.alive = true
  coded : ∀ s table values, ∃ d, (srv.exec s (span (insertQuery table values))).1.result = some d ∧
    (d.status = .commandOk ∨ d.sqlstate ≠ none)

/-! ### Steady servers -/

theorem insertedBy_goes {reply : Option ResultData} :
    (insertedBy reply).stopped = false ↔ ∃ d, reply = some d ∧ (d.status = .commandOk ∨ d.sqlstate ≠ none) := by
  cases reply with
  | none => simp [insertedBy, Outcome.stopped]
  | some d =>
    unfold insertedBy
    by_cases hs : d.status = .commandOk
    · simp [hs, Outcome.stopped]
    · cases hcode : d.sqlstate with
      | none => simp [hs, hcode, Outcome.stopped]
      | some code =>
        simp only [hs, hcode, if_false]
        split <;> simp [hs, hcode, Outcome.stopped]

theorem means_goes {request : Call} {text : Bytes} (ht : request.text = some text) (reply : Option ResultData)
    (hinsert : ∀ table values, request = .insert table values → (insertedBy reply).stopped = false) :
    (request.means reply).stopped = false := by
  have hdone : (doneWith reply).stopped = false := by
    unfold doneWith
    split
    · split <;> rfl
    · rfl
  have hrows (e : Errors) : (rowsOf e reply).stopped = false := by
    unfold rowsOf
    split
    · split <;> rfl
    · rfl
  cases request with
  | execQuery query => exact hdone
  | select table => exact hrows .QueryFailed
  | insert table values => exact hinsert table values rfl
  | selectJoin mainTable joinTable joinValue columns => exact hrows .SelectJoinFailed
  | createTableFor T => exact hdone
  | close => cases ht

namespace Session

/-- No connection that is open was lost. -/
def Up (s : Session σ) : Prop := ∀ c, s.up c ≠ some false

variable {srv : Server σ} {s : Session σ}

theorem fetching_goes {o : Outcome Errors Stop (Option Contents)} (h : o.stopped = false) :
    (s.fetching o).1.stopped = false ∧ (s.fetching o).2.up = s.up := by
  cases o with
  | ok contents => exact ⟨rfl, rfl⟩
  | err e => exact ⟨rfl, rfl⟩
  | stop c => cases h

theorem up_update {c : ℕ} {b : Option Bool} (hs : s.Up) (hb : b ≠ some false) (d : ℕ) :
    Function.update s.up c b d ≠ some false := by
  by_cases hd : d = c
  · rwa [hd, Function.update_self]
  · rw [Function.update_of_ne hd]
    exact hs d

/-- A connection that is open is up, and the server is asked. -/
theorem ask_steady (hsrv : Steady srv) (hs : s.Up) {c : ℕ} (hc : s.up c ≠ none) (text : Bytes) :
    (s.ask srv c text).1 = (srv.exec s.server (span text)).1.result ∧ (s.ask srv c text).2.Up := by
  have hup : s.up c = some true := by
    cases hb : s.up c with
    | none => exact absurd hb hc
    | some b =>
      cases b with
      | true => rfl
      | false => exact absurd hb (hs c)
  rw [ask_up hup, hsrv.alive]
  exact ⟨rfl, up_update hs (by decide)⟩

theorem call_goes (hsrv : Steady srv) (hs : s.Up) {c : ℕ} (hc : s.up c ≠ none) (request : Call) :
    (s.call srv c request).1.stopped = false ∧ (s.call srv c request).2.Up := by
  by_cases hclose : request = .close
  · subst hclose
    rw [call_close hc]
    exact ⟨rfl, up_update hs (by decide)⟩
  cases ht : request.text with
  | none =>
    rw [call_silent hc hclose ht]
    exact ⟨rfl, hs⟩
  | some text =>
    obtain ⟨hreply, hup⟩ := ask_steady hsrv hs hc text
    have hmeans := means_goes ht (s.ask srv c text).1 fun table values hinsert => by
      subst hinsert
      cases ht
      rw [hreply]
      exact insertedBy_goes.mpr (hsrv.coded s.server table values)
    obtain ⟨hgoes, hkept⟩ := fetching_goes (s := (s.ask srv c text).2) hmeans
    rw [call_asks hc ht]
    refine ⟨hgoes, fun d => ?_⟩
    rw [hkept]
    exact hup d

/-- The event uses what the session has. -/
def proper (s : Session σ) : Event → Prop
  | .init _ | .QParams _ => True
  | .call c _ => s.up c ≠ none
  | .insertParams c _ k => s.up c ≠ none ∧ k < s.params.length
  | .deinitResult k => k < s.fetched.length
  | .deinitParams k => k < s.params.length

theorem step_goes (hsrv : Steady srv) (hs : s.Up) (e : Event) (he : s.proper e) :
    (s.step srv e).1.stopped = false ∧ (s.step srv e).2.Up := by
  cases e with
  | init connectionString =>
    unfold step connect
    simp only
    split
    · exact ⟨rfl, up_update hs (by decide)⟩
    · exact ⟨rfl, hs⟩
  | call c request => exact call_goes hsrv hs he request
  | QParams values => exact ⟨rfl, hs⟩
  | insertParams c table k =>
    obtain ⟨hc, hk⟩ := he
    simp only [step, List.getElem?_eq_getElem hk]
    exact call_goes hsrv hs hc _
  | deinitResult k =>
    have hk : k < s.fetched.length := he
    simp only [step, hk, if_true]
    exact ⟨rfl, hs⟩
  | deinitParams k =>
    have hk : k < s.params.length := he
    simp only [step, hk, if_true]
    exact ⟨rfl, hs⟩

/-! ### Programs that are stopped -/

theorem call_up {c : ℕ} (hc : s.up c = some true) (request : Call) {text : Bytes} (ht : request.text = some text) :
    (s.call srv c request).1.stopped = (request.means (srv.exec s.server (span text)).1.result).stopped ∧
      (s.call srv c request).2.up = Function.update s.up c (some (srv.exec s.server (span text)).1.alive) := by
  rw [call_asks (by simp [hc]) ht, ask_up hc]
  cases request.means (srv.exec s.server (span text)).1.result <;> exact ⟨rfl, rfl⟩

theorem call_lost {c : ℕ} (hc : s.up c = some false) (table values : Bytes) :
    s.call srv c (.insert table values) = (.stop .nullPointer, s) := by
  rw [call_asks (by simp [hc]) rfl, ask_lost hc]
  rfl

/-- A query on which the connection is lost, and an insertion after it. -/
theorem run_lost {c : ℕ} (hc : s.up c = some true) {text : Bytes}
    (hlost : (srv.exec s.server (span text)).1.alive = false) :
    ∃ o ∈ (s.run srv [.call c (.execQuery text), .call c (.insert [] [])]).1, o.stopped = true := by
  obtain ⟨hstop, hup⟩ := @call_up _ srv s c hc (.execQuery text) text rfl
  have hgoes : (step srv s (.call c (.execQuery text))).1.stopped = false :=
    hstop.trans (means_goes rfl _ fun _ _ h => Call.noConfusion h)
  have hnext : (step srv s (.call c (.execQuery text))).2.up c = some false :=
    (congrFun hup c).trans (by rw [Function.update_self, hlost])
  have hinsert : (step srv (step srv s (.call c (.execQuery text))).2 (.call c (.insert [] []))).1 =
      .stop .nullPointer :=
    congrArg Prod.fst (call_lost hnext [] [])
  refine ⟨.stop .nullPointer, ?_, rfl⟩
  rw [run, run_goes hgoes, run_ends (by rw [hinsert]; rfl), hinsert]
  exact List.mem_cons_of_mem _ (List.mem_singleton_self _)

theorem run_uncoded {c : ℕ} (hc : s.up c = some true) {table values : Bytes}
    (hcode : (insertedBy (srv.exec s.server (span (insertQuery table values))).1.result).stopped = true) :
    ∃ o ∈ (s.run srv [.call c (.insert table values)]).1, o.stopped = true := by
  have hstop : (step srv s (.call c (.insert table values))).1.stopped = true :=
    (call_up hc (.insert table values) rfl).1.trans hcode
  rw [run, run_ends hstop]
  exact ⟨_, List.mem_singleton_self _, hstop⟩

end Session

namespace Program

theorem oneOpen_up (server : σ) : (oneOpen server).session.Up := by
  intro c
  by_cases hc : testSelf.connection = some c
  · cases hc
    simp [session, handle, oneOpen, testSelf, connected]
  · have hnone : (oneOpen server).handle c = none := List.find?_eq_none.mpr fun self hself => by
      cases List.mem_singleton.mp hself
      simpa using hc
    simp [session, hnone]

theorem proper_session {p : Program σ} {e : Event} (he : e.proper p = true) : p.session.proper e := by
  have hup {c : ℕ} (hc : (p.handle c).isSome = true) : p.session.up c ≠ none := by
    obtain ⟨self, hself⟩ := Option.isSome_iff_exists.mp hc
    simp [session, hself]
  have hlt {β : Type} {l : List β} {k : ℕ} (hk : l[k]?.isSome = true) : k < l.length := by simpa using hk
  cases e with
  | init | QParams => trivial
  | call c request => exact hup he
  | insertParams c table k =>
    obtain ⟨hc, hk⟩ := (Bool.and_eq_true _ _).mp he
    exact ⟨hup hc, by simpa [session] using hlt hk⟩
  | deinitResult k =>
    change k < (p.results.map _).length
    simpa using hlt he
  | deinitParams k =>
    change k < (p.params.map _).length
    simpa using hlt he

/-- Calls on a connection that is open are proper as long as none of them is close. -/
theorem calls_disciplined (P : Platform) (srv : Server σ) {c : ℕ} (requests : List Call)
    (hrequests : ∀ request ∈ requests, request ≠ .close) (p : Program σ) (hc : (p.handle c).isSome = true) :
    p.Disciplined P srv (requests.map (.call c)) := by
  induction requests generalizing p with
  | nil => trivial
  | cons request rest ih =>
    obtain ⟨self, hself⟩ := Option.isSome_iff_exists.mp hc
    refine ⟨hc, fun _ => ih (fun r hr => hrequests r (List.mem_cons_of_mem _ hr)) _ ?_⟩
    have hhandles : (step P srv p (.call c request)).2.handles = p.handles := by
      rw [step_request hself (hrequests request (List.mem_cons_self ..))]
      rcases request.returning P srv self p.world with ⟨_ | _ | _, w⟩ <;> rfl
    rwa [handle, hhandles]

/-- Every event of every program is answered if, and only if, the server is steady. -/
theorem completes_iff (P : Platform) (hP : P.Succeeds) (srv : Server σ) :
    (∀ base (p : Program σ), p.Sound base → p.session.Up → ∀ es, p.Disciplined P srv es →
      (p.run P srv es).1.length = es.length ∧ ∀ o ∈ (p.run P srv es).1, o.stopped = false) ↔ Steady srv := by
  constructor
  · intro h
    -- a program with one connection meets whatever the server has in store for it
    have hnone (server : σ) (requests : List Call) (hrequests : ∀ request ∈ requests, request ≠ .close) :
        ¬ ∃ o ∈ ((oneOpen server).session.run srv (requests.map (.call 0))).1, o.stopped = true := by
      have hstep (e : Event) (q : Program σ) (hq : q.Sound 0) :
          q.session.step srv e = ((step P srv q e).1, (step P srv q e).2.session) ∧ (step P srv q e).2.Sound 0 :=
        ⟨step_refines hP hq e, step_sound hq e⟩
      have hsame : ((oneOpen server).session.run srv (requests.map (.call 0))).1 =
          ((oneOpen server).run P srv (requests.map (.call 0))).1 :=
        congrArg Prod.fst (run_commutes hstep _ (oneOpen server) (oneOpen_sound server))
      have hproper := calls_disciplined P srv requests hrequests (oneOpen server) (c := 0) rfl
      rintro ⟨o, ho, hstop⟩
      rw [hsame] at ho
      have hgoes := (h 0 _ (oneOpen_sound server) (oneOpen_up server) _ hproper).2 o ho
      exact Bool.false_ne_true (hgoes.symm.trans hstop)
    refine ⟨fun server text => ?_, fun server table values => ?_⟩
    · rw [← Bool.not_eq_false]
      exact fun hlost => hnone server [.execQuery text, .insert [] []] (by simp)
        (Session.run_lost (s := (oneOpen server).session) (c := 0) rfl hlost)
    · rw [← insertedBy_goes, ← Bool.not_eq_true]
      exact fun hcode => hnone server [.insert table values] (by simp)
        (Session.run_uncoded (s := (oneOpen server).session) (c := 0) rfl hcode)
  · intro hsrv base p hp hup es hes
    have hall := (run_along (I := fun q => Sound base q ∧ q.session.Up) (Q := fun o => o.stopped = false)
      (fun e q hq hproper => ?_) es p ⟨hp, hup⟩ hes).1
    · exact ⟨run_complete es p hall, hall⟩
    obtain ⟨hq, hqup⟩ := hq
    obtain ⟨hgoes, hnext⟩ := Session.step_goes hsrv hqup e (proper_session hproper)
    rw [step_refines hP hq e] at hgoes hnext
    exact ⟨hgoes, step_sound hq e, hnext⟩

end Program

theorem obliging_steady : Steady obliging where
  alive _ _ := rfl
  coded _ _ _ := ⟨_, rfl, .inl rfl⟩

theorem completes_obliging :
    ((oneOpen ()).run Platform.simple obliging otherEvents).1.length = 6 ∧
      ∀ o ∈ ((oneOpen ()).run Platform.simple obliging otherEvents).1, o.stopped = false :=
  (Program.completes_iff Platform.simple Platform.simple_succeeds obliging).mpr obliging_steady 0 (oneOpen ())
    (oneOpen_sound _) (Program.oneOpen_up _) otherEvents (by decide +kernel)

end Psql
