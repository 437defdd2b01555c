import ZigPsql.Client.Leaks
import ZigPsql.Client.SessionRuns

/-!
# What a program leaks

A program that gives back all it is given still leaves blocks behind. How many
is told by what it asks for and what the server answers.
-/

namespace Psql
open Effect Effect.Eff Text Zig Libpq Machine

variable {σ α : Type}

/-- The blocks that an event leaves behind. -/
def Event.left (srv : Server σ) (p : Program σ) : Event → ℕ
  | .init connectionString =>
    if (srv.connect p.world.server (span (connectionText connectionString))).1 = some true then 0 else 1
  | .call c request =>
    match p.handle c, request.text with
    | some self, some text => request.left (p.world.answer srv self.connection (span text))
    | _, _ => 0
  | .QParams values => (values.map valueLeft).sum
  | _ => 0

theorem returning_besides (P : Platform) (hP : P.Succeeds) (srv : Server σ) (self : Self) (w : World σ) {f : Bool}
    {n : ℕ}
    {L : Multiset Block} (hh : Besides f n L w.heap) (request : Call) (text : Bytes) (ht : request.text = some text) :
    Besides f (n + request.left (w.answer srv self.connection (span text)))
      (returned ownedBy (request.returning P srv self w).1 + L) (request.returning P srv self w).2.heap := by
  have hunit {run : Outcome Errors Stop (Option QueryResult) × World σ} {m : Eff (World σ) Errors Stop Unit} {k : ℕ}
      (hrun : run = (do let _ ← m; return none : Eff (World σ) Errors Stop (Option QueryResult)) w)
      (hm : Besides f k L (m w).2.heap) : Besides f k (returned ownedBy run.1 + L) run.2.heap := by
    have hnone : returned ownedBy ((m w).1.map fun _ => none) = 0 := by cases (m w).1 <;> rfl
    rw [hrun, bind_pure_run]
    simpa only [hnone, zero_add] using hm
  have hrows {run : Outcome Errors Stop (Option QueryResult) × World σ} {m : Eff (World σ) Errors Stop QueryResult}
      {k : ℕ}
      (hrun : run = (do let q ← m; return some q : Eff (World σ) Errors Stop (Option QueryResult)) w)
      (hm : Besides f k (returned QueryResult.owned (m w).1 + L) (m w).2.heap) :
      Besides f k (returned ownedBy run.1 + L) run.2.heap := by
    have hsome : returned ownedBy ((m w).1.map some) = returned QueryResult.owned (m w).1 := by
      cases (m w).1 with
      | ok q => simp [returned, Outcome.map, ownedBy]
      | err e => rfl
      | stop c => rfl
    rw [hrun, bind_pure_run]
    simpa only [hsome] using hm
  cases request with
  | execQuery query => exact hunit rfl (execQuery_besides srv self w hh (.static query))
  | select table =>
    cases ht
    exact hrows rfl (select_besides P hP srv self w hh table)
  | insert table values => exact hunit rfl (insert_besides P hP srv self w hh table values)
  | selectJoin mainTable joinTable joinValue columns =>
    cases ht
    exact hrows rfl (selectJoin_besides P hP srv self w hh mainTable joinTable joinValue columns)
  | createTableFor T =>
    cases hT : T.info with
    | struct fields =>
      simp only [Call.text, hT] at ht
      cases ht
      exact hunit rfl (createTableFor_besides P hP srv self w hh T fields hT)
    | other =>
      simp only [Call.text, hT] at ht
      cases ht
  | close => cases ht

namespace Program

/-- The blocks that the events of a run leave behind, up to its end. -/
def leaked (P : Platform) (srv : Server σ) : Program σ → List Event → ℕ
  | _, [] => 0
  | p, e :: es => e.left srv p + if (step P srv p e).1.stopped then 0 else leaked P srv (step P srv p e).2 es

/-- Besides what the program keeps just `n` blocks are allocated. -/
def Balanced (n : ℕ) (p : Program σ) : Prop := Besides false n p.kept p.world.heap

section
variable {P : Platform} {srv : Server σ} {n : ℕ} {p : Program σ}

theorem after_balanced {own : α → Multiset Block} {run : Outcome Errors Stop α × World σ}
    {keep : α → Program σ → Program σ} (hrun : Besides false n (returned own run.1 + p.kept) run.2.heap)
    (hworld : ∀ a q, (keep a q).world = q.world) (hkept : ∀ a q, (keep a q).kept = own a + q.kept) :
    Balanced n (p.after run keep).2 := by
  rcases run with ⟨o, w⟩
  cases o with
  | ok a =>
    rw [Balanced, after, hkept, hworld]
    exact hrun
  | err e =>
    simp only [returned, zero_add] at hrun
    exact hrun
  | stop c =>
    simp only [returned, zero_add] at hrun
    exact hrun

theorem after_deinit_balanced {m : Eff Heap Errors Stop Unit} {M : Multiset Block} {keep : Unit → Program σ → Program σ}
    (hp : Balanced n p) (hm : ∀ L, Returns (Owns false (M + L)) m fun _ => Owns false L)
    (hworld : ∀ a q, (keep a q).world = q.world) (hkept : ∀ w, p.kept = M + (keep () { p with world := w }).kept) :
    Balanced n (p.after (inHeap m p.world) keep).2 := by
  have hsame (w : World σ) : (keep () { p with world := w }).kept = (keep () p).kept :=
    add_left_cancel ((hkept w).symm.trans (hkept p.world))
  rw [Balanced, hkept p.world] at hp
  have hreturns := besides_returns (n := n) (N := fun _ : Unit => 0) (A := fun _ => True)
    (fun L => returns_conseq (hm L) (fun _ hs => hs) fun _ _ hq => ⟨trivial, by rwa [zero_add]⟩) (keep () p).kept
  obtain ⟨_, h, hrun, -, ho⟩ := hreturns p.world.heap hp
  rw [zero_add] at ho
  have hrun' : inHeap m p.world = (.ok (), { p.world with heap := h }) := inHeap_run hrun
  rw [hrun', Balanced, after, hworld, hsame]
  exact ho

theorem call_balanced (hP : P.Succeeds) (hp : Balanced n p) (c : ℕ) (request : Call) :
    Balanced (n + (Event.call c request).left srv p) (step P srv p (.call c request)).2 := by
  cases hc : p.handle c with
  | none =>
    rw [step_absent hc]
    simpa [Event.left, hc] using hp
  | some self =>
    have hsilent (ht : request.text = none) : (Event.call c request).left srv p = 0 := by simp [Event.left, ht]
    by_cases hclose : request = .close
    · subst hclose
      simp only [step, hc, hsilent rfl]
      exact hp
    · rw [step_request hc hclose]
      cases ht : request.text with
      | some text =>
        simp only [Event.left, hc, ht]
        exact after_balanced (returning_besides P hP srv self p.world hp request text ht) (fun _ _ => rfl)
          fun q _ => kept_returned q
      | none =>
        rw [returning_silent P srv self p.world request ht hclose, hsilent ht]
        exact hp

theorem step_balanced (hP : P.Succeeds) (hp : Balanced n p) (e : Event) :
    Balanced (n + e.left srv p) (step P srv p e).2 := by
  cases e with
  | init connectionString =>
    have hnone (o : Outcome Errors Stop Self) : returned (fun _ => 0) o = 0 := by cases o <;> rfl
    have hrun : Besides false (n + (Event.init connectionString).left srv p)
        (returned (fun _ => 0) (Psql.init P srv connectionString p.world).1 + p.kept)
        (Psql.init P srv connectionString p.world).2.heap := by
      rw [hnone, zero_add]
      exact init_besides P hP srv p.world hp connectionString
    exact after_balanced hrun (fun _ _ => rfl) fun _ _ => (zero_add _).symm
  | call c request => exact call_balanced hP hp c request
  | QParams values =>
    obtain ⟨q, h, hrun, ho⟩ := QParams_besides P hP p.kept values p.world.heap hp
    have hrun' : inHeap (Psql.QParams P values) p.world = (.ok q, { p.world with heap := h }) := inHeap_run hrun
    simp only [step, hrun']
    change Besides false _ { p with params := q :: p.params }.kept h
    rwa [kept_string]
  | insertParams c table k =>
    cases hk : p.params[k]? with
    | none =>
      rw [step_noString hk]
      exact hp
    | some q =>
      have hleft : (Event.call c (.insert table q.paramString.text)).left srv p = 0 := by
        simp only [Event.left]
        split <;> rfl
      have hcall := @call_balanced _ P srv n p hP hp c (.insert table q.paramString.text)
      rw [step_insertParams hk]
      rwa [hleft] at hcall
  | deinitResult k =>
    cases hk : p.results[k]? with
    | none =>
      simp only [step, hk]
      exact hp
    | some q =>
      simp only [step, hk]
      exact after_deinit_balanced hp (fun L => deinit_returns L q) (fun _ _ => rfl) fun _ => kept_result hk
  | deinitParams k =>
    cases hk : p.params[k]? with
    | none =>
      simp only [step, hk]
      exact hp
    | some q =>
      simp only [step, hk]
      exact after_deinit_balanced hp (fun L => free_returns L q.paramString.block) (fun _ _ => rfl)
        fun _ => kept_params hk

end

/-- While memory lasts, what is allocated after a run is what the program keeps and just the blocks
that its events leave behind. -/
theorem run_leaks (P : Platform) (hP : P.Succeeds) (srv : Server σ) {n : ℕ} (p : Program σ) (hp : Balanced n p)
    (es : List Event) : Balanced (n + leaked P srv p es) (p.run P srv es).2 := by
  induction es generalizing n p with
  | nil => exact hp
  | cons e rest ih =>
    have hstep : Balanced (n + e.left srv p) (step P srv p e).2 := step_balanced hP hp e
    cases hstop : (step P srv p e).1.stopped with
    | true =>
      rw [Program.run, run_ends hstop, leaked, if_pos hstop]
      exact hstep
    | false =>
      rw [Program.run, run_goes hstop, leaked, if_neg (by simp [hstop]), ← add_assoc]
      exact ih _ hstep

end Program

/-! A program that gives back all it is given. -/

def thrifty : List Event :=
  [.call 0 (.select (ascii "member")), .QParams [.int true 32 7], .deinitParams 0, .deinitResult 0]

theorem thrifty_leaked : Program.leaked Platform.simple scripted (oneOpen oneRow) thrifty = 2 := by decide +kernel

theorem run_leaks_thrifty : Program.Balanced 2 ((oneOpen oneRow).run Platform.simple scripted thrifty).2 := by
  have hstart : Program.Balanced 0 (oneOpen oneRow) := ⟨0, rfl, rfl, rfl⟩
  have hrun := Program.run_leaks Platform.simple Platform.simple_succeeds scripted (oneOpen oneRow) hstart thrifty
  rwa [thrifty_leaked] at hrun

end Psql
