import ZigPsql.Lib.Machine
import ZigPsql.Client.Attempts
import ZigPsql.Client.Injection

/-!
# Programs with many connections

A program opens connections, calls what it likes on those it has not closed,
keeps the results and the parameter strings it is given, and gives each back
when it likes. It names a connection by its number, and gives nothing back twice.
-/

namespace Psql
open Effect Effect.Eff Text Zig Libpq

variable {σ α : Type}

structure Program (σ : Type) where
  world : World σ
  handles : List Self
  results : List QueryResult
  params : List QueryParams

inductive Event where
  | init (connectionString : ConnectionParams)
  | call (c : ℕ) (request : Call)
  | QParams (values : List Value)
  | insertParams (c : ℕ) (table : Bytes) (k : ℕ)
  | deinitResult (k : ℕ)
  | deinitParams (k : ℕ)

namespace Program

def start (server : σ) : Program σ := ⟨World.initial server, [], [], []⟩

def handle (p : Program σ) (c : ℕ) : Option Self := p.handles.find? fun self => self.connection = some c

/-- The blocks of what the program keeps. -/
def kept (p : Program σ) : Multiset Block :=
  (p.results.map QueryResult.owned).sum + (p.params.map fun q => entry q.paramString.block).sum

/-- The program after a run, which keeps what the run returned. -/
def after (p : Program σ) (run : Outcome Errors Stop α × World σ) (keep : α → Program σ → Program σ) :
    Outcome Errors Stop Unit × Program σ :=
  match run with
  | (.ok a, w) => (.ok (), keep a { p with world := w })
  | (.err e, w) => (.err e, { p with world := w })
  | (.stop c, w) => (.stop c, { p with world := w })

end Program

def Call.returning (P : Platform) (srv : Server σ) (self : Self) : Call → Eff (World σ) Errors Stop (Option QueryResult)
  | .select table => do
    let q ← Psql.select P srv self table
    return some q
  | .selectJoin mainTable joinTable joinValue columns => do
    let q ← Psql.selectJoin P srv self mainTable joinTable joinValue columns
    return some q
  | call => do
    let _ ← call.run P srv self
    return none

namespace Program

variable (P : Platform) (srv : Server σ)

/-- To use a connection that is closed, or what was given back, ends the program. -/
def step (p : Program σ) : Event → Outcome Errors Stop Unit × Program σ
  | .init connectionString =>
    p.after (Psql.init P srv connectionString p.world) fun self p => { p with handles := p.handles ++ [self] }
  | .call c .close =>
    match p.handle c with
    | none => (.stop .misuse, p)
    | some self => p.after (Psql.close self p.world) fun _ p =>
        { p with handles := p.handles.filter fun self => self.connection ≠ some c }
  | .call c request =>
    match p.handle c with
    | none => (.stop .misuse, p)
    | some self => p.after (request.returning P srv self p.world) fun q p => { p with results := q.toList ++ p.results }
  | .QParams values =>
    p.after (inHeap (Psql.QParams P values) p.world) fun q p => { p with params := q :: p.params }
  | .insertParams c table k =>
    match p.handle c, p.params[k]? with
    | some self, some q => p.after (Psql.insert P srv self table q.paramString.text p.world) fun _ p => p
    | _, _ => (.stop .misuse, p)
  | .deinitResult k =>
    match p.results[k]? with
    | none => (.stop .misuse, p)
    | some q => p.after (inHeap q.deinit p.world) fun _ p => { p with results := p.results.eraseIdx k }
  | .deinitParams k =>
    match p.params[k]? with
    | none => (.stop .misuse, p)
    | some q => p.after (inHeap q.deinit p.world) fun _ p => { p with params := p.params.eraseIdx k }

def run (p : Program σ) (es : List Event) : List (Outcome Errors Stop Unit) × Program σ :=
  Machine.run (step P srv) Outcome.stopped p es

end Program

/-- The connection that an event is about. -/
def Event.connection : Event → Option ℕ
  | .call c _ | .insertParams c _ _ => some c
  | _ => none

/-- The event uses what the program has: connections it has not closed, values it has not given back. -/
def Event.proper (p : Program σ) : Event → Bool
  | .init _ | .QParams _ => true
  | .call c _ => (p.handle c).isSome
  | .insertParams c _ k => (p.handle c).isSome && p.params[k]?.isSome
  | .deinitResult k => p.results[k]?.isSome
  | .deinitParams k => p.params[k]?.isSome

/-- Every event of a run is proper where it comes. -/
def Program.Disciplined (P : Platform) (srv : Server σ) (p : Program σ) (es : List Event) : Prop :=
  Machine.Along (step P srv) Outcome.stopped (fun p e => e.proper p = true) p es

instance (P : Platform) (srv : Server σ) (p : Program σ) (es : List Event) : Decidable (p.Disciplined P srv es) :=
  inferInstanceAs (Decidable (Machine.Along (Program.step P srv) Outcome.stopped _ p es))

/-- The text that an event has to hand to libpq. -/
def Event.text (p : Program σ) : Event → Option Bytes
  | .init connectionString => some (connectionText connectionString)
  | .call c request => (p.handle c).bind fun _ => request.text
  | .insertParams c table k => (p.handle c).bind fun _ => p.params[k]?.map fun q => insertQuery table q.paramString.text
  | _ => none

/-! ### What a step can do -/

/-- The connections and the handles after an event, and the text that was handed over for it. -/
inductive Moves (P : Platform) (srv : Server σ) (p : Program σ) (e : Event) (p' : Program σ) : Prop
  | idle (h : Heap) (world : p'.world = { p.world with heap := h }) (handles : p'.handles = p.handles)
    (silent : P.Succeeds → e.text p = none)
  | opened (b : Buf) (h : Heap) (self : Self) (text : e.text p = some b.text) (other : e.connection = none)
    (connection : self.connection = (p.world.connect srv b).1)
    (usable : (p.world.connect srv b).2.stateIs (p.world.connect srv b).1 .usable = true)
    (world : p'.world = { (p.world.connect srv b).2 with heap := h }) (handles : p'.handles = p.handles ++ [self])
  | refused (b : Buf) (h : Heap) (text : e.text p = some b.text) (other : e.connection = none)
    (world : p'.world = { (p.world.connect srv b).2.finish (p.world.connect srv b).1 with heap := h })
    (handles : p'.handles = p.handles)
  | asked (c : ℕ) (self : Self) (b : Buf) (h : Heap) (R : Multiset ℕ) (handle : p.handle c = some self)
    (text : e.text p = some b.text) (own : e.connection = some c)
    (world : p'.world = { (p.world.exec srv self.connection b).2 with heap := h, results := R })
    (handles : p'.handles = p.handles)
  | closed (c : ℕ) (self : Self) (handle : p.handle c = some self) (text : e.text p = none)
    (own : e.connection = some c) (world : p'.world = p.world.finish self.connection)
    (handles : p'.handles = p.handles.filter fun self => self.connection ≠ some c)

/-- What was done has an outcome. -/
def Defined (o : Outcome Errors Stop α) : Prop := o ≠ .stop .misuse

theorem defined_of_goes {o : Outcome Errors Stop α} (h : o.stopped = false) : Defined o := by
  rintro rfl
  cases h

theorem defined_map {β : Type} {o : Outcome Errors Stop α} (h : Defined o) (g : α → β) : Defined (o.map g) := by
  cases o with
  | ok a => exact defined_of_goes rfl
  | err e => exact defined_of_goes rfl
  | stop c =>
    intro heq
    cases heq
    exact h rfl

theorem defined_lost {P : Platform} {x : Exit Errors Stop} (h : Lost P x) :
    Defined (exiting x : Outcome Errors Stop α) := by
  obtain ⟨-, rfl | rfl⟩ := h
  · exact defined_of_goes rfl
  · intro heq
    cases heq

theorem defined_told {P : Platform} {outcome : Option PGresult → Outcome Errors Stop α → Prop}
    {result : Option PGresult} {o : Outcome Errors Stop α} (hdefined : ∀ r o, outcome r o → Defined o)
    (h : Told P outcome result o) : Defined o := by
  rcases h with h | ⟨-, x, rfl, hlost⟩
  · exact hdefined _ _ h
  · exact defined_lost hlost

theorem defined_queryOutcome (result : Option PGresult) : Defined (queryOutcome result) := by
  unfold queryOutcome
  split <;> exact defined_of_goes rfl

theorem defined_insertOutcome (result : Option PGresult) : Defined (insertOutcome result) := by
  unfold insertOutcome
  split
  · exact defined_of_goes rfl
  · split
    · intro heq
      cases heq
    · split <;> exact defined_of_goes rfl

theorem defined_rowsOutcome {e : Errors} {result : Option PGresult} {o : Outcome Errors Stop QueryResult}
    (h : rowsOutcome e result o) : Defined o := by
  rcases h with ⟨-, rfl⟩ | ⟨-, q, -, -, rfl, -⟩ <;> exact defined_of_goes rfl

def ownedBy (q : Option QueryResult) : Multiset Block := (q.toList.map QueryResult.owned).sum

theorem attempted_map {β : Type} {P : Platform} {srv : Server σ} {conn : Option ℕ} {text : Bytes}
    {own : α → Multiset Block} {own' : β → Multiset Block} {f : Bool} {L : Multiset Block}
    {outcome : Option PGresult → Outcome Errors Stop α → Prop}
    {w : World σ} {run : Outcome Errors Stop α × World σ} {g : α → β} (hg : ∀ a, own' (g a) = own a)
    (hdefined : ∀ r o, outcome r o → Defined o) (h : Attempted P srv conn text own f L outcome w run) :
    Attempted P srv conn text own' f L (fun _ o => Defined o) w (run.1.map g, run.2) := by
  rcases h with ⟨x, h, rfl, hspent⟩ | ⟨b, hb, h, R, hw, hge, hle, habove, htold⟩
  · exact .inl ⟨x, h, by rw [map_exiting], hspent⟩
  · refine .inr ⟨b, hb, h, R, hw, hge, hle, ?_, .inl (defined_map ?_ g)⟩
    · have hreturned : returned own' (run.1.map g) = returned own run.1 := by
        cases run.1 with
        | ok a => exact hg a
        | err e => rfl
        | stop c => rfl
      rwa [hreturned]
    · exact defined_told hdefined htold

section
variable (P : Platform) (srv : Server σ) (self : Self) (w : World σ) {f : Bool} {L : Multiset Block}
  (hh : Above f L w.heap)
include hh

theorem returning_attempted (request : Call) (text : Bytes) (ht : request.text = some text) :
    Attempted P srv self.connection text ownedBy f L (fun _ o => Defined o) w (request.returning P srv self w) := by
  have hunit {m : Eff (World σ) Errors Stop Unit} {outcome : Option PGresult → Outcome Errors Stop Unit}
      (hdefined : ∀ r, Defined (outcome r))
      (hm : Attempted P srv self.connection text (fun _ : Unit => 0) f L (fun r o => o = outcome r) w (m w)) :
      Attempted P srv self.connection text ownedBy f L (fun _ o => Defined o) w
        ((do let _ ← m; return none : Eff (World σ) Errors Stop (Option QueryResult)) w) := by
    rw [bind_pure_run]
    exact attempted_map (fun _ => rfl) (fun r _ ho => by rw [ho]; exact hdefined r) hm
  have hrows {m : Eff (World σ) Errors Stop QueryResult} {e : Errors}
      (hm : Attempted P srv self.connection text QueryResult.owned f L (rowsOutcome e) w (m w)) :
      Attempted P srv self.connection text ownedBy f L (fun _ o => Defined o) w
        ((do let q ← m; return some q : Eff (World σ) Errors Stop (Option QueryResult)) w) := by
    rw [bind_pure_run]
    exact attempted_map (fun q => by simp [ownedBy]) (fun _ _ => defined_rowsOutcome) hm
  cases request with
  | execQuery query =>
    cases ht
    exact hunit defined_queryOutcome (execQuery_attempted P srv self w hh (.static _))
  | select table =>
    cases ht
    exact hrows (select_attempted P srv self w hh table)
  | insert table values =>
    cases ht
    exact hunit defined_insertOutcome (insert_attempted P srv self w hh table values)
  | selectJoin mainTable joinTable joinValue columns =>
    cases ht
    exact hrows (selectJoin_attempted P srv self w hh mainTable joinTable joinValue columns)
  | createTableFor T =>
    cases hT : T.info with
    | struct fields =>
      simp only [Call.text, hT] at ht
      cases ht
      exact hunit defined_queryOutcome (createTableFor_attempted P srv self w hh T fields hT)
    | other =>
      simp only [Call.text, hT] at ht
      cases ht
  | close => cases ht

end

theorem returning_silent (P : Platform) (srv : Server σ) (self : Self) (w : World σ) (request : Call)
    (ht : request.text = none) (hc : request ≠ .close) : request.returning P srv self w = (.err .NotAStruct, w) := by
  have hrun := request.silent P srv self w ht hc
  cases request with
  | createTableFor T => exact bind_err hrun
  | close => exact absurd rfl hc
  | execQuery | select | insert | selectJoin => cases ht

/-! ### The step lemma -/

namespace Program

/-- A step moves so, what is kept is still allocated, besides the blocks of `base`, and a proper event has
an outcome. -/
structure Steps (P : Platform) (srv : Server σ) (base : Multiset Block) (p : Program σ) (e : Event)
    (next : Outcome Errors Stop Unit × Program σ) : Prop where
  moves : Moves P srv p e next.2
  blocks : Above false (next.2.kept + base) next.2.world.heap
  defined : e.proper p = true → Defined next.1

section
variable {P : Platform} {srv : Server σ} {base : Multiset Block} {p : Program σ} {e : Event}

theorem after_fst (run : Outcome Errors Stop α × World σ) (keep : α → Program σ → Program σ) :
    (p.after run keep).1 = run.1.map fun _ => () := by
  rcases run with ⟨_ | _ | _, w⟩ <;> rfl

theorem after_attempted {text : Bytes} {own : α → Multiset Block}
    {outcome : Option PGresult → Outcome Errors Stop α → Prop}
    {run : Outcome Errors Stop α × World σ} {keep : α → Program σ → Program σ} {c : ℕ} {self : Self}
    (hhandle : p.handle c = some self) (htext : e.text p = some text) (hown : e.connection = some c)
    (hrun : Attempted P srv self.connection text own false (p.kept + base) outcome p.world run)
    (hdefined : ∀ r o, outcome r o → Defined o)
    (hworld : ∀ a q, (keep a q).world = q.world) (hhandles : ∀ a q, (keep a q).handles = q.handles)
    (hkept : ∀ a q, (keep a q).kept = own a + q.kept) : Steps P srv base p e (p.after run keep) := by
  rcases run with ⟨o, w⟩
  rcases hrun with ⟨x, h, hx, hlost, hh⟩ | ⟨b, rfl, h, R, hw, -, -, hh, htold⟩
  · cases hx
    have hsilent : P.Succeeds → e.text p = none := fun hP => absurd hP hlost.1
    have hends : Defined (p.after (exiting x, { p.world with heap := h }) keep).1 := by
      rw [after_fst]
      exact defined_map (defined_lost hlost) _
    cases x with
    | inl e => exact ⟨.idle h rfl rfl hsilent, hh, fun _ => hends⟩
    | inr c => exact ⟨.idle h rfl rfl hsilent, hh, fun _ => hends⟩
  · change w = _ at hw
    cases hw
    have hends (w : World σ) : Defined (p.after (o, w) keep).1 := by
      rw [after_fst]
      exact defined_map (defined_told hdefined htold) _
    cases o with
    | ok a =>
      refine ⟨.asked c self b h R hhandle htext hown (hworld _ _) (hhandles _ _), ?_, fun _ => hends _⟩
      simp only [after, hkept, hworld]
      rwa [returned, ← add_assoc] at hh
    | err e =>
      simp only [returned, zero_add] at hh
      exact ⟨.asked c self b h R hhandle htext hown rfl rfl, hh, fun _ => hends _⟩
    | stop d =>
      simp only [returned, zero_add] at hh
      exact ⟨.asked c self b h R hhandle htext hown rfl rfl, hh, fun _ => hends _⟩

theorem after_inHeap {m : Eff Heap Errors Stop α} {Q : α → Heap → Prop} {keep : α → Program σ → Program σ}
    (hsilent : e.text p = none) (hm : Exits (Above false (p.kept + base)) m Q (Spent P false (p.kept + base)))
    (hb : Above false (p.kept + base) p.world.heap)
    (hworld : ∀ a q, (keep a q).world = q.world) (hhandles : ∀ a q, (keep a q).handles = q.handles)
    (hkept : ∀ a h, Q a h → Above false ((keep a { p with world := { p.world with heap := h } }).kept + base) h) :
    Steps P srv base p e (p.after (inHeap m p.world) keep) := by
  rcases hm p.world.heap hb with ⟨a, h, ha, hq⟩ | ⟨x, h, hx, hspent⟩
  · have hrun : inHeap m p.world = (.ok a, { p.world with heap := h }) := inHeap_run ha
    rw [hrun]
    refine ⟨.idle h (hworld _ _) (hhandles _ _) fun _ => hsilent, ?_, fun _ => defined_of_goes rfl⟩
    simp only [after, hworld]
    exact hkept a h hq
  · have hrun : inHeap m p.world = (exiting x, { p.world with heap := h }) := inHeap_run hx
    have hends : Defined (p.after (inHeap m p.world) keep).1 := by
      rw [after_fst, hrun]
      exact defined_map (defined_lost hspent.1) _
    rw [hrun] at hends ⊢
    cases x with
    | inl e => exact ⟨.idle h rfl rfl fun _ => hsilent, hspent.2, fun _ => hends⟩
    | inr c => exact ⟨.idle h rfl rfl fun _ => hsilent, hspent.2, fun _ => hends⟩

theorem idles (hb : Above false (p.kept + base) p.world.heap) (hsilent : e.text p = none)
    {o : Outcome Errors Stop Unit} (hdefined : e.proper p = true → Defined o) : Steps P srv base p e (o, p) :=
  ⟨.idle p.world.heap rfl rfl fun _ => hsilent, hb, hdefined⟩

theorem misuses (hb : Above false (p.kept + base) p.world.heap) (hsilent : e.text p = none)
    (himproper : e.proper p = false) : Steps P srv base p e (.stop .misuse, p) :=
  idles hb hsilent fun hproper => absurd (himproper.symm.trans hproper) Bool.false_ne_true

theorem kept_result {k : ℕ} {q : QueryResult} (hk : p.results[k]? = some q) :
    p.kept = q.owned + { p with results := p.results.eraseIdx k }.kept := by
  obtain ⟨hlt, rfl⟩ := List.getElem?_eq_some_iff.mp hk
  have hsum := ((List.getElem_cons_eraseIdx_perm hlt).map QueryResult.owned).sum_eq
  rw [List.map_cons, List.sum_cons] at hsum
  rw [kept, kept, ← hsum, add_assoc]

theorem kept_params {k : ℕ} {q : QueryParams} (hk : p.params[k]? = some q) :
    p.kept = entry q.paramString.block + { p with params := p.params.eraseIdx k }.kept := by
  obtain ⟨hlt, rfl⟩ := List.getElem?_eq_some_iff.mp hk
  have hsum := ((List.getElem_cons_eraseIdx_perm hlt).map fun q : QueryParams => entry q.paramString.block).sum_eq
  rw [List.map_cons, List.sum_cons] at hsum
  rw [kept, kept, ← hsum, add_left_comm]

theorem after_deinit {m : Eff Heap Errors Stop Unit} {M : Multiset Block} {keep : Unit → Program σ → Program σ}
    (hsilent : e.text p = none) (hm : ∀ L, Returns (Owns false (M + L)) m fun _ => Owns false L)
    (hb : Above false (p.kept + base) p.world.heap) (hworld : ∀ a q, (keep a q).world = q.world)
    (hhandles : ∀ a q, (keep a q).handles = q.handles)
    (hkept : ∀ w, p.kept = M + (keep () { p with world := w }).kept) :
    Steps P srv base p e (p.after (inHeap m p.world) keep) := by
  refine after_inHeap (Q := fun _ => Above false ((keep () p).kept + base)) hsilent (exits_of_returns ?_) hb hworld
    hhandles fun _ h hq => ?_
  · have hreturns := returns_above hm ((keep () p).kept + base)
    rwa [← add_assoc, ← hkept p.world] at hreturns
  · have hsame := (hkept p.world).symm.trans (hkept { p.world with heap := h })
    rwa [← add_left_cancel hsame]

theorem step_init (hb : Above false (p.kept + base) p.world.heap) (connectionString : ConnectionParams) :
    Steps P srv base p (.init connectionString) (step P srv p (.init connectionString)) := by
  simp only [step]
  rcases init_exits P srv p.world hb connectionString with ⟨x, h, hx, hlost, hh⟩ | ⟨b, h, hb', hh, hrun⟩
  · have hsilent (hP : P.Succeeds) : (Event.init connectionString).text p = none := absurd hP hlost.1
    have hends (keep : Self → Program σ → Program σ) :
        Defined (p.after (Psql.init P srv connectionString p.world) keep).1 := by
      rw [after_fst, hx]
      exact defined_map (defined_lost hlost) _
    rw [hx] at hends ⊢
    cases x with
    | inl e => exact ⟨.idle h rfl rfl hsilent, hh, fun _ => hends _⟩
    | inr c => exact ⟨.idle h rfl rfl hsilent, hh, fun _ => hends _⟩
  · have htext : (Event.init connectionString).text p = some b.text := congrArg some hb'.symm
    rw [hrun]
    split
    next hu =>
      exact ⟨.opened b h ⟨connectionString, (p.world.connect srv b).1, .OK⟩ htext rfl rfl hu rfl rfl, hh,
        fun _ => defined_of_goes rfl⟩
    next => exact ⟨.refused b h htext rfl rfl rfl, hh, fun _ => defined_of_goes rfl⟩

theorem step_absent {c : ℕ} (hc : p.handle c = none) (request : Call) :
    step P srv p (.call c request) = (.stop .misuse, p) := by
  cases request <;> simp only [step, hc]

theorem step_request {c : ℕ} {self : Self} (hc : p.handle c = some self) {request : Call} (hclose : request ≠ .close) :
    step P srv p (.call c request) =
      p.after (request.returning P srv self p.world) fun q p => { p with results := q.toList ++ p.results } := by
  cases request with
  | close => exact absurd rfl hclose
  | execQuery | select | insert | selectJoin | createTableFor => simp only [step, hc]

theorem step_noString {c k : ℕ} {table : Bytes} (hk : p.params[k]? = none) :
    step P srv p (.insertParams c table k) = (.stop .misuse, p) := by
  cases hc : p.handle c <;> simp only [step, hc, hk]

/-- A parameter string is inserted as any text is. -/
theorem step_insertParams {c k : ℕ} {table : Bytes} {q : QueryParams} (hk : p.params[k]? = some q) :
    step P srv p (.insertParams c table k) = step P srv p (.call c (.insert table q.paramString.text)) := by
  cases hc : p.handle c with
  | none => simp only [step, hc]
  | some self =>
    rw [step_request hc Call.noConfusion]
    simp only [step, hc, hk, Call.returning, Call.run]
    rw [bind_pure_run]
    rcases Psql.insert P srv self table q.paramString.text p.world with ⟨_ | _ | _, w'⟩ <;> rfl

theorem kept_returned (q : Option QueryResult) :
    { p with results := q.toList ++ p.results }.kept = ownedBy q + p.kept := by
  simp [kept, ownedBy, add_assoc]

theorem kept_string (q : QueryParams) :
    { p with params := q :: p.params }.kept = entry q.paramString.block + p.kept := by
  rw [kept, List.map_cons, List.sum_cons, add_left_comm, kept]

theorem step_call (hb : Above false (p.kept + base) p.world.heap) (c : ℕ) (request : Call) :
    Steps P srv base p (.call c request) (step P srv p (.call c request)) := by
  cases hc : p.handle c with
  | none =>
    rw [step_absent hc]
    exact misuses hb (by simp [Event.text, hc]) (by simp [Event.proper, hc])
  | some self =>
    have htext : (Event.call c request).text p = request.text := by simp [Event.text, hc]
    by_cases hclose : request = .close
    · subst hclose
      simp only [step, hc]
      exact ⟨.closed c self hc htext rfl rfl rfl, hb, fun _ => defined_of_goes rfl⟩
    · rw [step_request hc hclose]
      cases ht : request.text with
      | some text =>
        exact after_attempted hc (htext.trans ht) rfl (returning_attempted P srv self p.world hb request text ht)
          (fun _ _ ho => ho) (fun _ _ => rfl) (fun _ _ => rfl) fun q _ => kept_returned q
      | none =>
        rw [returning_silent P srv self p.world request ht hclose]
        exact idles hb (htext.trans ht) fun _ => defined_of_goes rfl

/-- What a step can do. -/
theorem step_moves (hb : Above false (p.kept + base) p.world.heap) (e : Event) :
    Steps P srv base p e (step P srv p e) := by
  cases e with
  | init connectionString => exact step_init hb connectionString
  | call c request => exact step_call hb c request
  | QParams values =>
    change Steps P srv base p (.QParams values)
      (p.after (inHeap (Psql.QParams P values) p.world) fun q p => { p with params := q :: p.params })
    refine after_inHeap rfl (QParams_exits P _ values) hb (fun _ _ => rfl) (fun _ _ => rfl) fun q h hq => ?_
    change Above false ({ p with params := q :: p.params }.kept + base) h
    rwa [kept_string, add_assoc]
  | insertParams c table k =>
    cases hc : p.handle c with
    | none =>
      simp only [step, hc]
      exact misuses hb (by simp [Event.text, hc]) (by simp [Event.proper, hc])
    | some self =>
      cases hk : p.params[k]? with
      | none =>
        simp only [step, hc, hk]
        exact misuses hb (by simp [Event.text, hk]) (by simp [Event.proper, hk])
      | some q =>
        simp only [step, hc, hk]
        exact after_attempted hc (by simp [Event.text, hc, hk]) rfl
          (insert_attempted P srv self p.world hb table q.paramString.text)
          (fun r _ ho => by rw [ho]; exact defined_insertOutcome r) (fun _ _ => rfl) (fun _ _ => rfl)
          fun _ p => (zero_add _).symm
  | deinitResult k =>
    cases hk : p.results[k]? with
    | none =>
      simp only [step, hk]
      exact misuses hb rfl (by simp [Event.proper, hk])
    | some q =>
      simp only [step, hk]
      exact after_deinit rfl (fun L => deinit_returns L q) hb (fun _ _ => rfl) (fun _ _ => rfl) fun _ => kept_result hk
  | deinitParams k =>
    cases hk : p.params[k]? with
    | none =>
      simp only [step, hk]
      exact misuses hb rfl (by simp [Event.proper, hk])
    | some q =>
      simp only [step, hk]
      exact after_deinit rfl (fun L => free_returns L q.paramString.block) hb (fun _ _ => rfl) (fun _ _ => rfl)
        fun _ => kept_params hk

end
end Program
end Psql
