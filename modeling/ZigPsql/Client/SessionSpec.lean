import ZigPsql.Client.Sessions

/-!
# What a program sees of its connections

No heap, no handles to libpq and no results to clear: the connections that are
open, each up or lost, what was fetched on them, and the parameter strings.
-/

namespace Psql
open Effect Effect.Eff Text Zig Libpq

variable {σ : Type}

@[ext]
structure Session (σ : Type) where
  server : σ
  /-- Whether an open connection is up. -/
  up : ℕ → Option Bool
  next : ℕ
  fetched : List Contents
  params : List Bytes

/-! ### What a reply means to each call -/

def doneWith : Option ResultData → Outcome Errors Stop (Option Contents)
  | some d => if d.status = .tuplesOk ∨ d.status = .commandOk then .ok none else .err .QueryFailed
  | none => .err .QueryFailed

def rowsOf (e : Errors) : Option ResultData → Outcome Errors Stop (Option Contents)
  | some d => if d.status = .tuplesOk then .ok (some ⟨d.fnames.map span, cellTexts d⟩) else .err e
  | none => .err e

/-- An insertion stops on an error that comes without an SQLSTATE, as libpq's own do. -/
def insertedBy : Option ResultData → Outcome Errors Stop (Option Contents)
  | some d =>
    if d.status = .commandOk then .ok none
    else
      match d.sqlstate with
      | none => .stop .nullPointer
      | some code => if span code = ascii "23505" then .err .PrimaryKeyDuplicate else .err .InsertionFailed
  | none => .stop .nullPointer

def Call.means : Call → Option ResultData → Outcome Errors Stop (Option Contents)
  | .execQuery _, reply | .createTableFor _, reply => doneWith reply
  | .select _, reply => rowsOf .QueryFailed reply
  | .selectJoin _ _ _ _, reply => rowsOf .SelectJoinFailed reply
  | .insert _ _, reply => insertedBy reply
  | .close, _ => .ok none

namespace Session

variable (srv : Server σ)

/-- A connection that is not up at once is not open. -/
def connect (s : Session σ) (conninfo : Bytes) : Outcome Errors Stop Unit × Session σ :=
  let answer := srv.connect s.server (span conninfo)
  if answer.1 = some true then
    (.ok (), { s with server := answer.2, up := Function.update s.up s.next (some true), next := s.next + 1 })
  else (.err .ConnectionFailed, { s with server := answer.2, next := s.next + 1 })

/-- Only a connection that is up reaches the server. -/
def ask (s : Session σ) (c : ℕ) (text : Bytes) : Option ResultData × Session σ :=
  if s.up c = some true then
    let answer := srv.exec s.server (span text)
    (answer.1.result, { s with server := answer.2, up := Function.update s.up c (some answer.1.alive) })
  else (none, s)

def fetching (s : Session σ) : Outcome Errors Stop (Option Contents) → Outcome Errors Stop Unit × Session σ
  | .ok contents => (.ok (), { s with fetched := contents.toList ++ s.fetched })
  | .err e => (.err e, s)
  | .stop x => (.stop x, s)

def requested (s : Session σ) (c : ℕ) : Call → Outcome Errors Stop Unit × Session σ
  | .close => (.ok (), { s with up := Function.update s.up c none })
  | request =>
    match request.text with
    | none => (.err .NotAStruct, s)
    | some text => (s.ask srv c text).2.fetching (request.means (s.ask srv c text).1)

def call (s : Session σ) (c : ℕ) (request : Call) : Outcome Errors Stop Unit × Session σ :=
  if s.up c = none then (.stop .misuse, s) else s.requested srv c request

def step (s : Session σ) : Event → Outcome Errors Stop Unit × Session σ
  | .init connectionString => s.connect srv (connectionText connectionString)
  | .call c request => s.call srv c request
  | .QParams values => (.ok (), { s with params := (fragments true values).flatten :: s.params })
  | .insertParams c table k =>
    match s.params[k]? with
    | none => (.stop .misuse, s)
    | some values => s.call srv c (.insert table values)
  | .deinitResult k =>
    if k < s.fetched.length then (.ok (), { s with fetched := s.fetched.eraseIdx k }) else (.stop .misuse, s)
  | .deinitParams k =>
    if k < s.params.length then (.ok (), { s with params := s.params.eraseIdx k }) else (.stop .misuse, s)

def run (s : Session σ) (es : List Event) : List (Outcome Errors Stop Unit) × Session σ :=
  Machine.run (step srv) Outcome.stopped s es

theorem ask_fetched (s : Session σ) (c : ℕ) (text : Bytes) : (s.ask srv c text).2.fetched = s.fetched := by
  unfold ask
  split <;> rfl

variable {srv}

theorem ask_up {s : Session σ} {c : ℕ} (h : s.up c = some true) (text : Bytes) :
    s.ask srv c text = ((srv.exec s.server (span text)).1.result,
      { s with
        server := (srv.exec s.server (span text)).2
        up := Function.update s.up c (some (srv.exec s.server (span text)).1.alive) }) := if_pos h

theorem ask_lost {s : Session σ} {c : ℕ} (h : s.up c = some false) (text : Bytes) : s.ask srv c text = (none, s) :=
  if_neg (by simp [h])

theorem call_absent {s : Session σ} {c : ℕ} (h : s.up c = none) (request : Call) :
    s.call srv c request = (.stop .misuse, s) := if_pos h

theorem call_close {s : Session σ} {c : ℕ} (h : s.up c ≠ none) :
    s.call srv c .close = (.ok (), { s with up := Function.update s.up c none }) := if_neg h

theorem call_silent {s : Session σ} {c : ℕ} (h : s.up c ≠ none) {request : Call} (hclose : request ≠ .close)
    (ht : request.text = none) : s.call srv c request = (.err .NotAStruct, s) := by
  cases request with
  | close => exact absurd rfl hclose
  | execQuery | select | insert | selectJoin => cases ht
  | createTableFor T => simp only [call, requested, h, if_false, ht]

theorem call_asks {s : Session σ} {c : ℕ} (h : s.up c ≠ none) {request : Call} {text : Bytes}
    (ht : request.text = some text) :
    s.call srv c request = (s.ask srv c text).2.fetching (request.means (s.ask srv c text).1) := by
  cases request with
  | close => cases ht
  | execQuery | select | insert | selectJoin | createTableFor => simp only [call, requested, h, if_false, ht]

end Session
end Psql
