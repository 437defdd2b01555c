import ZigPsql.Client.Runs

/-!
# The life of a connection

The status field is written by init only, and close tells libpq alone.
-/

namespace Psql
open Effect Effect.Eff Text Zig Libpq

/-- No finished connection was ever passed, and the status says whether the handle can be used. -/
def Intact (self : Self) (w : World Reply) : Prop :=
  w.connMisuse = false ∧ (self.connectionStatus = .OK ↔ w.stateIs self.connection .usable = true)

/-- Not close, and if a statement is sent, the connection is up after the reply. -/
def Step.calm (P : Platform) (self : Self) (w : World Reply) (s : Step) : Prop :=
  s.call ≠ .close ∧ ((s.run P self w).2.handed ≠ w.handed → s.reply.alive = true)

def Up (self : Self) (w : World Reply) : Prop :=
  w.connMisuse = false ∧ w.stateIs self.connection .usable = true

theorem finished_of_usable {σ : Type} (w : World σ) (conn : Option ℕ) (h : w.stateIs conn .usable = true) :
    w.stateIs conn .finished = false := by
  cases conn with
  | none => rfl
  | some c =>
    have hc : w.conns c = .usable := by simpa [World.stateIs] using h
    simp [World.stateIs, hc]

theorem exec_up (self : Self) (w : World Reply) (b : Buf) (hw : Up self w) (halive : w.server.alive = true) :
    Up self (w.exec scripted self.connection b).2 := by
  obtain ⟨hm, hu⟩ := hw
  refine ⟨?_, ?_⟩
  · change (w.connMisuse || w.stateIs self.connection .finished) = false
    rw [hm, finished_of_usable w _ hu, Bool.or_false]
  · have hconns : (w.exec scripted self.connection b).2.conns = w.conns := by
      simp [World.exec, scripted, halive]
    simpa only [World.stateIs, hconns] using hu

theorem calm_step_up (P : Platform) (self : Self) (s : Step) (w : World Reply) (hs : s.calm P self w)
    (hw : Up self w) : Up self (s.run P self w).2 := by
  obtain ⟨hclose, halive⟩ := hs
  unfold Step.run at halive ⊢
  cases ht : s.call.text with
  | none =>
    rw [Call.silent P scripted self _ s.call ht hclose]
    exact hw
  | some text =>
    rcases Call.queried P scripted self { w with server := s.reply } s.call text ht with
      ⟨-, e, h, he⟩ | ⟨b, -, h, R, M, hw', -⟩
    · rw [he]
      exact hw
    · rw [hw'] at halive ⊢
      have hsent : w.handed ++ [b] ≠ w.handed := by simp
      exact exec_up self { w with server := s.reply } b hw (halive hsent)

theorem init_up (P : Platform) (cs : ConnectionParams) (w₀ w : World Reply) (self : Self)
    (h₀ : w₀.connMisuse = false) (hinit : init P scripted cs w₀ = (.ok self, w)) :
    Up self w ∧ self.connectionStatus = .OK := by
  rcases init_run P scripted w₀ cs with ⟨-, e, h, he⟩ | ⟨b, -, h, hrun⟩
  · cases he.symm.trans hinit
  · split at hrun
    next hu =>
      cases hrun.symm.trans hinit
      exact ⟨⟨h₀, hu⟩, rfl⟩
    next => cases hrun.symm.trans hinit

/-- As long as nobody closes the connection and the server stays, the status is right and no
finished connection is used. -/
theorem lifecycle_intact (P : Platform) (cs : ConnectionParams) (w₀ w : World Reply) (self : Self)
    (h₀ : w₀.connMisuse = false) (hinit : init P scripted cs w₀ = (.ok self, w)) (steps : List Step)
    (hsteps : Throughout (Step.calm P self) P self w steps) :
    Intact self w ∧ ∀ w' ∈ reached P self w steps, Intact self w' := by
  obtain ⟨hup, hok⟩ := init_up P cs w₀ w self h₀ hinit
  have hintact (w' : World Reply) (hw' : Up self w') : Intact self w' := ⟨hw'.1, by simp [hok, hw'.2]⟩
  refine ⟨hintact w hup, fun w' hw' => hintact w' ?_⟩
  exact reached_invariant (calm_step_up P self) steps w hup hsteps w' hw'

def welcoming : World Reply := World.initial ⟨some (.plain .commandOk none), true⟩

/-- A duplicate key is no loss of the connection. -/
def calmSteps : List Step :=
  [⟨.execQuery (ascii "SELECT 1"), welcoming.server⟩,
    ⟨.select (ascii "users"), ⟨some (.plain .tuplesOk none), true⟩⟩,
    ⟨.insert (ascii "users") (ascii "7"), ⟨some (.plain .fatalError (some (ascii "23505"))), true⟩⟩,
    ⟨.selectJoin (ascii "users") (ascii "visits") (ascii "id") none, ⟨some (.plain .tuplesOk none), true⟩⟩]

theorem lifecycle_calm : ∃ self w, init Platform.simple scripted testConnection welcoming = (.ok self, w) ∧
    ∀ w' ∈ reached Platform.simple self w calmSteps, Intact self w' := by
  refine ⟨_, _, rfl, ?_⟩
  have hcalm : ∀ s ∈ calmSteps, s.call ≠ .close ∧ s.reply.alive = true := by simp [calmSteps, welcoming, World.initial]
  exact (lifecycle_intact Platform.simple testConnection welcoming _ _ rfl rfl calmSteps
    (Machine.along_of_forall (fun s hs _ => ⟨(hcalm s hs).1, fun _ => (hcalm s hs).2⟩) _)).2

/-- init, close: the status still says OK; and a query after that goes to the finished connection. -/
theorem lifecycle_closed : ∃ self w, init Platform.simple scripted testConnection welcoming = (.ok self, w) ∧
    (¬ ∀ w' ∈ reached Platform.simple self w [⟨.close, welcoming.server⟩], Intact self w') ∧
    ∃ w' ∈ reached Platform.simple self w [⟨.close, welcoming.server⟩,
      ⟨.execQuery (ascii "SELECT 1"), welcoming.server⟩], w'.connMisuse = true := by
  refine ⟨_, _, rfl, fun h => ?_, ?_⟩
  · have hclosed := (h _ (List.mem_singleton.mpr rfl)).2
    exact absurd (hclosed.mp rfl) (by decide)
  · exact ⟨_, List.mem_cons_of_mem _ (List.mem_singleton.mpr rfl), rfl⟩

end Psql
