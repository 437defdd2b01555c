import ZigPsql.Client.Sessions

/-!
# What holds in every run of a program

The invariants hold for every server and whichever allocations fail. No
connection sees the events on another, and what is handed to libpq is what the
events ask for, in their order.
-/

namespace Psql
open Effect Effect.Eff Text Zig Libpq Machine

variable {σ : Type}

namespace Program

/-! ### What every run keeps -/

theorem mem_of_handle {p : Program σ} {c : ℕ} {self : Self} (h : p.handle c = some self) :
    self ∈ p.handles ∧ self.connection = some c := by
  refine ⟨List.mem_of_find?_eq_some h, ?_⟩
  simpa using List.find?_some h

/-- What the program keeps is allocated, nothing was freed that was not there, no result was used after
its PQclear, and no connection after its PQfinish; the connections that the program has not closed are
distinct, and not finished. -/
structure Sound (base : Multiset Block) (p : Program σ) : Prop where
  blocks : Above false (p.kept + base) p.world.heap
  results : p.world.resultMisuse = false
  connections : p.world.connMisuse = false
  distinct : (p.handles.map Self.connection).Nodup
  opened : ∀ self ∈ p.handles, ∃ c < p.world.nextConn, self.connection = some c ∧ p.world.conns c ≠ .finished

theorem start_sound (server : σ) : (start server).Sound 0 where
  blocks := ⟨0, rfl, rfl⟩
  results := rfl
  connections := rfl
  distinct := List.nodup_nil
  opened _ h := by cases h

theorem connect_fresh {w : World σ} {srv : Server σ} {b : Buf}
    (h : (w.connect srv b).2.stateIs (w.connect srv b).1 .usable = true) : (w.connect srv b).1 = some w.nextConn := by
  unfold World.connect at h ⊢
  cases hup : (srv.connect w.server (span b.text)).1 with
  | none =>
    rw [hup] at h
    cases h
  | some up => rfl

/-- A connection that is there is not changed by the making of another. -/
theorem connect_conns (w : World σ) (srv : Server σ) (b : Buf) {c : ℕ} (hc : c < w.nextConn) (state : ConnState) :
    (w.connect srv b).2.conns c = w.conns c ∧
      (w.connect srv b).2.marking (w.connect srv b).1 state c = w.conns c := by
  unfold World.connect
  cases hup : (srv.connect w.server (span b.text)).1 with
  | none => exact ⟨rfl, rfl⟩
  | some up => simp [World.marking, Nat.ne_of_lt hc]

theorem exec_conns (w : World σ) (srv : Server σ) (conn : Option ℕ) (b : Buf) {c : ℕ} (h : w.conns c ≠ .finished) :
    (w.exec srv conn b).2.conns c ≠ .finished := by
  cases conn with
  | none => simpa [World.exec, World.stateIs] using h
  | some d =>
    simp only [World.exec]
    split
    · by_cases hcd : c = d
      · simp [World.marking, hcd]
      · simpa [World.marking, hcd] using h
    · exact h

section
variable {P : Platform} {srv : Server σ} {base : Multiset Block} {p p' : Program σ} {e : Event}

theorem handle_live (hp : p.Sound base) {c : ℕ} {self : Self} (h : p.handle c = some self) :
    p.world.stateIs self.connection .finished = false := by
  obtain ⟨hmem, hself⟩ := mem_of_handle h
  obtain ⟨d, -, hconn, hstate⟩ := hp.opened self hmem
  rw [hconn]
  exact decide_eq_false hstate

theorem touched_live (hp : p.Sound base) {c : ℕ} {self : Self} (h : p.handle c = some self) :
    (p.world.touched self.connection).connMisuse = false := by
  change (p.world.connMisuse || p.world.stateIs self.connection .finished) = false
  rw [hp.connections, handle_live hp h]
  rfl

/-- The handles stay open where no connection of theirs is finished. -/
theorem stay_opened (hp : p.Sound base) {w : World σ} (hnext : p.world.nextConn ≤ w.nextConn)
    (hkeep : ∀ c < p.world.nextConn, p.world.conns c ≠ .finished → w.conns c ≠ .finished) :
    ∀ self ∈ p.handles, ∃ c < w.nextConn, self.connection = some c ∧ w.conns c ≠ .finished := by
  intro self hmem
  obtain ⟨c, hc, hconn, hstate⟩ := hp.opened self hmem
  exact ⟨c, hc.trans_le hnext, hconn, hkeep c hc hstate⟩

theorem distinct_opened (hp : p.Sound base) {self : Self} (hself : self.connection = some p.world.nextConn) :
    ((p.handles ++ [self]).map Self.connection).Nodup := by
  rw [List.map_append, List.map_singleton, hself]
  refine List.nodup_append.mpr ⟨hp.distinct, List.nodup_singleton _, ?_⟩
  intro x hx y hy
  obtain ⟨s, hs, rfl⟩ := List.mem_map.mp hx
  obtain ⟨c, hc, hconn, -⟩ := hp.opened s hs
  rw [List.mem_singleton.mp hy, hconn]
  simpa using Nat.ne_of_lt hc

theorem sound_of_steps (hp : p.Sound base) (h : Moves P srv p e p')
    (hblocks : Above false (p'.kept + base) p'.world.heap) : p'.Sound base := by
  rcases h with ⟨h, hworld, hhandles, -⟩ | ⟨b, h, self, -, -, hself, hu, hworld, hhandles⟩ |
    ⟨b, h, -, -, hworld, hhandles⟩ | ⟨c, self, b, h, R, hhandle, -, -, hworld, hhandles⟩ |
      ⟨c, self, hhandle, -, -, hworld, hhandles⟩
  · -- idle
    refine ⟨hblocks, ?_, ?_, ?_, ?_⟩
    · rw [hworld]; exact hp.results
    · rw [hworld]; exact hp.connections
    · rw [hhandles]; exact hp.distinct
    · rw [hworld, hhandles]; exact hp.opened
  · -- opened
    have hself' : self.connection = some p.world.nextConn := hself.trans (connect_fresh hu)
    refine ⟨hblocks, by rw [hworld]; exact hp.results, by rw [hworld]; exact hp.connections, ?_, ?_⟩
    · rw [hhandles]
      exact distinct_opened hp hself'
    · rw [hworld, hhandles]
      intro s hs
      rcases List.mem_append.mp hs with hs | hs
      · refine stay_opened hp (Nat.le_succ _) (fun c hc hstate => ?_) s hs
        change (p.world.connect srv b).2.conns c ≠ _
        rwa [(connect_conns p.world srv b hc .usable).1]
      · rw [List.mem_singleton.mp hs]
        rw [connect_fresh hu] at hu
        have hstate : (p.world.connect srv b).2.conns p.world.nextConn = .usable := of_decide_eq_true hu
        refine ⟨_, Nat.lt_succ_self _, hself', ?_⟩
        change (p.world.connect srv b).2.conns p.world.nextConn ≠ _
        rw [hstate]
        decide
  · -- refused
    have htouched : ((p.world.connect srv b).2.touched (p.world.connect srv b).1).connMisuse = p.world.connMisuse := by
      rw [World.connect_touched]
      rfl
    refine ⟨hblocks, by rw [hworld]; exact hp.results, ?_, by rw [hhandles]; exact hp.distinct, ?_⟩
    · rw [hworld]
      exact htouched.trans hp.connections
    · rw [hworld, hhandles]
      refine stay_opened hp (Nat.le_succ _) fun c hc hstate => ?_
      change (p.world.connect srv b).2.marking (p.world.connect srv b).1 .finished c ≠ _
      rwa [(connect_conns p.world srv b hc .finished).2]
  · -- asked
    refine ⟨hblocks, by rw [hworld]; exact hp.results, ?_, by rw [hhandles]; exact hp.distinct, ?_⟩
    · rw [hworld]
      exact touched_live hp hhandle
    · rw [hworld, hhandles]
      exact stay_opened hp le_rfl fun c _ => exec_conns p.world srv self.connection b
  · -- closed
    refine ⟨hblocks, by rw [hworld]; exact hp.results, ?_, ?_, ?_⟩
    · rw [hworld]
      exact touched_live hp hhandle
    · rw [hhandles]
      exact hp.distinct.sublist (List.filter_sublist.map _)
    · rw [hworld, hhandles]
      intro s hs
      obtain ⟨hmem, hother⟩ := List.mem_filter.mp hs
      obtain ⟨d, hd, hconn, hstate⟩ := hp.opened s hmem
      refine ⟨d, hd, hconn, ?_⟩
      have hne : d ≠ c := by
        rintro rfl
        exact of_decide_eq_true hother hconn
      rw [(mem_of_handle hhandle).2]
      simpa [World.finish, World.marking, hne] using hstate

end

section
variable {P : Platform} {srv : Server σ} {base : Multiset Block} {p p' : Program σ} {e : Event}

theorem step_sound (hp : p.Sound base) (e : Event) : (step P srv p e).2.Sound base :=
  sound_of_steps hp (step_moves hp.blocks e).moves (step_moves hp.blocks e).blocks

/-! ### What other connections see of an event -/

theorem moves_nextConn (h : Moves P srv p e p') : p.world.nextConn ≤ p'.world.nextConn := by
  rcases h with ⟨h, hworld, -⟩ | ⟨b, h, self, -, -, -, -, hworld, -⟩ | ⟨b, h, -, -, hworld, -⟩ |
    ⟨c, self, b, h, R, -, -, -, hworld, -⟩ | ⟨c, self, -, -, -, hworld, -⟩
  · rw [hworld]
  · rw [hworld]
    exact Nat.le_succ _
  · rw [hworld]
    exact Nat.le_succ _
  · rw [hworld]
    exact le_rfl
  · rw [hworld]
    exact le_rfl

theorem moves_frame (h : Moves P srv p e p') {c : ℕ} (hc : c < p.world.nextConn) (he : e.connection ≠ some c) :
    p'.world.conns c = p.world.conns c ∧ p'.handle c = p.handle c := by
  unfold handle
  rcases h with ⟨h, hworld, hhandles, -⟩ | ⟨b, h, self, -, -, hself, hu, hworld, hhandles⟩ |
    ⟨b, h, -, -, hworld, hhandles⟩ | ⟨d, self, b, h, R, hhandle, -, hown, hworld, hhandles⟩ |
    ⟨d, self, hhandle, -, hown, hworld, hhandles⟩
  · rw [hworld, hhandles]
    exact ⟨rfl, rfl⟩
  · rw [hworld, hhandles, List.find?_append]
    refine ⟨(connect_conns p.world srv b hc .usable).1, ?_⟩
    have hnew : [self].find? (fun self => self.connection = some c) = none := by
      rw [connect_fresh hu] at hself
      simpa [hself] using Nat.ne_of_gt hc
    rw [hnew, Option.or_none]
  · rw [hworld, hhandles]
    exact ⟨(connect_conns p.world srv b hc .finished).2, rfl⟩
  · have hne : c ≠ d := fun hcd => he (hcd ▸ hown)
    rw [hworld, hhandles, (mem_of_handle hhandle).2]
    refine ⟨?_, rfl⟩
    simp only [World.exec]
    split
    · simp [World.marking, hne]
    · rfl
  · have hne : c ≠ d := fun hcd => he (hcd ▸ hown)
    rw [hworld, hhandles, (mem_of_handle hhandle).2]
    refine ⟨by simp [World.finish, World.marking, hne], ?_⟩
    rw [List.find?_filter]
    congr 1
    funext self
    by_cases hself : self.connection = some c
    · simp [hself, hne]
    · simp [hself]

/-! ### What is handed over -/

/-- The texts that the events of a run have to hand over, up to its end. -/
def asked (P : Platform) (srv : Server σ) : Program σ → List Event → List Bytes :=
  Machine.trace (step P srv) Outcome.stopped fun p e => (e.text p).toList

/-- What was handed over is among the texts, in their order and each once; while memory lasts it is all of them. -/
def Logged (P : Platform) (texts : List Bytes) (p p' : Program σ) : Prop :=
  ∃ new : List Buf, p'.world.handed = p.world.handed ++ new ∧ (new.map Buf.text).Sublist texts ∧
    (P.Succeeds → new.map Buf.text = texts)

theorem moves_logged (h : Moves P srv p e p') : Logged P (e.text p).toList p p' := by
  have hone (b : Buf) (htext : e.text p = some b.text) : [b].map Buf.text = (e.text p).toList := by
    rw [htext]
    rfl
  rcases h with ⟨h, hworld, -, hsilent⟩ | ⟨b, h, self, htext, -, -, -, hworld, -⟩ | ⟨b, h, htext, -, hworld, -⟩ |
    ⟨c, self, b, h, R, -, htext, -, hworld, -⟩ | ⟨c, self, -, htext, -, hworld, -⟩
  · refine ⟨[], by rw [hworld, List.append_nil], List.nil_sublist _, fun hP => ?_⟩
    rw [hsilent hP]
    rfl
  · exact ⟨[b], by rw [hworld]; rfl, (hone b htext).symm ▸ List.Sublist.refl _, fun _ => hone b htext⟩
  · exact ⟨[b], by rw [hworld]; rfl, (hone b htext).symm ▸ List.Sublist.refl _, fun _ => hone b htext⟩
  · exact ⟨[b], by rw [hworld]; rfl, (hone b htext).symm ▸ List.Sublist.refl _, fun _ => hone b htext⟩
  · refine ⟨[], by rw [hworld, List.append_nil]; rfl, List.nil_sublist _, fun _ => ?_⟩
    rw [htext]
    rfl

theorem logged_nil (p : Program σ) : Logged P [] p p :=
  ⟨[], by rw [List.append_nil], List.nil_sublist _, fun _ => rfl⟩

theorem logged_append {first rest : List Bytes} {p p' p'' : Program σ} (h : Logged P first p p')
    (h' : Logged P rest p' p'') :
    Logged P (first ++ rest) p p'' := by
  obtain ⟨new, hhanded, hsub, hall⟩ := h
  obtain ⟨new', hhanded', hsub', hall'⟩ := h'
  refine ⟨new ++ new', by rw [hhanded', hhanded, List.append_assoc], ?_, fun hP => ?_⟩
  · rw [List.map_append]
    exact hsub.append hsub'
  · rw [List.map_append, hall hP, hall' hP]

end

/-! ### Runs -/

section
variable (P : Platform) (srv : Server σ) {base : Multiset Block} (p : Program σ) (hp : p.Sound base)
include hp

/-- A program that uses what it has faults nowhere, whatever fails and whatever the server answers. -/
theorem run_sound (es : List Event) (hes : p.Disciplined P srv es) :
    (∀ o ∈ (p.run P srv es).1, o ≠ .stop .misuse) ∧ (p.run P srv es).2.Sound base :=
  run_along (I := Sound base) (Q := Defined)
    (fun e _ hq hproper => ⟨(step_moves hq.blocks e).defined hproper, step_sound hq e⟩) es p hp hes

/-- A connection and its handle are as they were after any events on others. -/
theorem run_independent (c : ℕ) (hc : c < p.world.nextConn) (es : List Event)
    (hes : ∀ e ∈ es, e.connection ≠ some c) :
    (p.run P srv es).2.world.conns c = p.world.conns c ∧ (p.run P srv es).2.handle c = p.handle c := by
  have hall := @run_invariant _ _ _ (step P srv) Outcome.stopped
    (fun q => q.Sound base ∧ c < q.world.nextConn ∧ q.world.conns c = p.world.conns c ∧ q.handle c = p.handle c)
    es (fun e he q hq => ?_) p ⟨hp, hc, rfl, rfl⟩
  · exact hall.2.2
  · obtain ⟨hsound, hlt, hconns, hhandle⟩ := hq
    have hmoves : Moves P srv q e (step P srv q e).2 := (step_moves hsound.blocks e).moves
    obtain ⟨hconns', hhandle'⟩ := moves_frame hmoves hlt (hes e he)
    exact ⟨step_sound hsound e, hlt.trans_le (moves_nextConn hmoves), hconns'.trans hconns, hhandle'.trans hhandle⟩

theorem logged_run (es : List Event) : Logged P (asked P srv p es) p (p.run P srv es).2 :=
  run_traced logged_nil logged_append (I := Sound base)
    (fun e _ hq => ⟨moves_logged (step_moves hq.blocks e).moves, step_sound hq e⟩) es p hp

/-- No text is handed over that no event asks for, none twice, and none out of turn; while memory
lasts none is missing. -/
theorem run_logged (es : List Event) : Logged P (asked P srv p es) p (p.run P srv es).2 := logged_run P srv p hp es

end
end Program

/-! A program with one connection, and memory for one result but not for the next. -/

def oneOpen (server : σ) : Program σ := ⟨connected server, [testSelf], [], []⟩

theorem oneOpen_sound (server : σ) : (oneOpen server).Sound 0 where
  blocks := ⟨0, rfl, rfl⟩
  results := rfl
  connections := rfl
  distinct := List.nodup_singleton _
  opened self h := by
    cases List.mem_singleton.mp h
    exact ⟨0, Nat.one_pos, rfl, ConnState.noConfusion⟩

/-- Every tenth allocation fails. -/
def tight : Platform := { Platform.simple with fails := fun k => k % 10 = 9 }

def otherEvents : List Event :=
  [.init testConnection, .QParams [.int true 32 7], .insertParams 1 (ascii "visit") 0,
    .call 1 (.select (ascii "visit")),
    .call 1 .close, .deinitParams 0]

def oneRow : Reply := ⟨some oneCell.data, true⟩

/-- A server that takes every command. -/
def obliging : Server Unit := ⟨fun _ _ => (some true, ()), fun _ _ => (⟨some (.plain .commandOk none), true⟩, ())⟩

/-- There is no memory for the second result. -/
def carefulEvents : List Event :=
  [.init testConnection, .call 0 (.select (ascii "member")), .call 0 (.select (ascii "member")),
    .QParams [.int true 32 7], .deinitParams 0, .deinitResult 0, .call 0 .close]

theorem run_sound_careful :
    (∀ o ∈ ((Program.start oneRow).run tight scripted carefulEvents).1, o ≠ .stop .misuse) ∧
      ((Program.start oneRow).run tight scripted carefulEvents).2.Sound 0 :=
  Program.run_sound tight scripted (Program.start oneRow) (Program.start_sound _) carefulEvents (by decide +kernel)

theorem run_independent_other :
    ((oneOpen oneRow).run tight scripted otherEvents).2.world.conns 0 = .usable ∧
      ((oneOpen oneRow).run tight scripted otherEvents).2.handle 0 = some testSelf :=
  Program.run_independent tight scripted (oneOpen oneRow) (oneOpen_sound _) 0 Nat.one_pos otherEvents (by decide)

theorem run_logged_close :
    Program.Logged tight (Program.asked tight scripted (oneOpen oneRow) otherEvents) (oneOpen oneRow)
      ((oneOpen oneRow).run tight scripted otherEvents).2 :=
  Program.run_logged tight scripted (oneOpen oneRow) (oneOpen_sound _) otherEvents

end Psql
