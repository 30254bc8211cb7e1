import TimeManager.Coordinator.Responses
import TimeManager.Framework.Ledger

/-! # The App and its Server

    Deletes, updates and creates change the tasks of the server.  A `World`
    is the app together with the writes it has sent: the server accepts or
    refuses each of them some time after it was sent, in any order, and only
    then can a response report its success.

    An accepted write is marked with the identity that the app's next screen
    gets, so the screens made after it are those with this identity or a
    later one. -/

namespace TimeManager

open Lts Ledger

/-- The app, every write it has sent, and the writes whose success was
    reported to it. -/
structure World where
  app : App
  writes : List (Entry Call Nat)
  acknowledged : List Nat
deriving DecidableEq

/-- An event of the app, or the decision of the server on a write. -/
inductive Act where
  | app (e : App.Event)
  | server (id : Nat) (accepts : Bool)

def Act.isServer : Act → Prop
  | .app _ => False
  | .server _ _ => True

namespace World

def start (userToken : Option String) : World := ⟨App.start userToken, [], []⟩

/-- The writes that the app has sent on its way from `a` to `b`. -/
def sentWrites (a b : App) : List (Entry Call Nat) :=
  (b.requests.filter fun p => a.nextRequest ≤ p.id ∧ p.call.writer.isSome).map fun p =>
    ⟨p.id, p.call, .waiting⟩

/-- The writes whose success an event reports. -/
def successes (env : Environment) (w : World) : App.Event → List (Entry Call Nat)
  | .deliver id body => w.writes.filter fun wr => wr.id = id ∧ wr.item.succeeds env body
  | _ => []

/-- One act.  Success is reported only of a write that the server has
    accepted. -/
def step (env : Environment) (w : World) : Act → Option World
  | .app e =>
    if (w.successes env e).all fun wr => wr.verdict.isAccepted then
      (w.app.step env e).map fun b =>
        { app := b
          writes := w.writes ++ sentWrites w.app b
          acknowledged := w.acknowledged ++ (w.successes env e).map (·.id) }
    else none
  | .server id accepts =>
    let verdict := if accepts then .accepted w.app.nextScreen else .refused
    some { w with writes := settle id verdict w.writes }

/-- Acts one after another. -/
def run (env : Environment) (w : World) (acts : List Act) : Option World :=
  acts.foldlM (step env) w

end World

/-- The runs of the app from `start()`, with its server. -/
def worldSystem (env : Environment) (userToken : Option String) : System World Act where
  init := fun w => w = World.start userToken
  step := fun w act w' => w.step env act = some w'

namespace World

variable {env : Environment} {w w' : World}

/-! ## Section 1: Acts -/

/-- Everything an event of the app does. -/
theorem step_app {e : App.Event} (h : w.step env (.app e) = some w') :
    (∀ wr ∈ w.successes env e, wr.verdict.isAccepted) ∧
    ∃ b, w.app.step env e = some b ∧
      w' = ⟨b, w.writes ++ sentWrites w.app b,
        w.acknowledged ++ (w.successes env e).map (·.id)⟩ := by
  simp only [step] at h
  by_cases hall : (w.successes env e).all fun wr => wr.verdict.isAccepted
  · rw [if_pos hall] at h
    obtain ⟨b, hb, rfl⟩ := Option.map_eq_some_iff.mp h
    exact ⟨List.all_eq_true.mp hall, b, hb, rfl⟩
  · rw [if_neg hall] at h
    cases h

/-- Everything a decision of the server does. -/
theorem step_server {id : Nat} {accepts : Bool} (h : w.step env (.server id accepts) = some w') :
    ∃ verdict, w' = { w with writes := settle id verdict w.writes } ∧
      ∀ mark, verdict = .accepted mark → mark = w.app.nextScreen := by
  have hw' := (Option.some.inj h).symm
  cases accepts with
  | true =>
    refine ⟨.accepted w.app.nextScreen, hw', ?_⟩
    intro mark hmark
    exact (Verdict.accepted.inj hmark).symm
  | false =>
    refine ⟨.refused, hw', ?_⟩
    intro mark hmark
    cases hmark

theorem mem_sentWrites {a b : App} {wr : Entry Call Nat} (h : wr ∈ sentWrites a b) :
    ∃ p ∈ b.requests, a.nextRequest ≤ p.id ∧ wr = ⟨p.id, p.call, .waiting⟩ := by
  obtain ⟨p, hp, rfl⟩ := List.mem_map.mp h
  obtain ⟨hmem, hnew⟩ := List.mem_filter.mp hp
  have hnew := of_decide_eq_true hnew
  exact ⟨p, hmem, hnew.1, rfl⟩

theorem mem_successes {e : App.Event} {wr : Entry Call Nat} (h : wr ∈ w.successes env e) :
    ∃ body, e = .deliver wr.id body ∧ wr ∈ w.writes ∧ wr.item.succeeds env body := by
  cases e with
  | deliver id body =>
    obtain ⟨hmem, hwr⟩ := List.mem_filter.mp h
    have hwr := of_decide_eq_true hwr
    rw [hwr.1]
    exact ⟨body, rfl, hmem, hwr.2⟩
  | _ => cases h

/-! ## Section 2: The invariant of the world -/

/-- The writes belong to the requests of the app. -/
structure Consistent (w : World) : Prop where
  app : w.app.WellFormed
  fresh : ∀ wr ∈ w.writes, wr.id < w.app.nextRequest
  calls : ∀ wr ∈ w.writes, ∀ p ∈ w.app.requests, p.id = wr.id → p.call = wr.item
  marks : ∀ wr ∈ w.writes, ∀ mark, wr.verdict = .accepted mark → mark ≤ w.app.nextScreen
  reported : ∀ id ∈ w.acknowledged, ∃ wr ∈ w.writes, wr.id = id

theorem consistent_start (userToken : Option String) : Consistent (start userToken) := by
  refine ⟨App.wellFormed_start userToken, ?_, ?_, ?_, ?_⟩
  · intro wr hwr
    cases hwr
  · intro wr hwr
    cases hwr
  · intro wr hwr
    cases hwr
  · intro id hid
    cases hid

theorem Consistent.step_app {e : App.Event} (h : Consistent w)
    (hstep : w.step env (.app e) = some w') : Consistent w' := by
  obtain ⟨_, b, hb, rfl⟩ := World.step_app hstep
  have happ : b.WellFormed := h.app.step hb
  obtain ⟨hscreen, hrequest⟩ := App.step_next h.app hb
  refine ⟨happ, ?_, ?_, ?_, ?_⟩
  · intro wr hwr
    rcases List.mem_append.mp hwr with hold | hnew
    · exact Nat.lt_of_lt_of_le (h.fresh wr hold) hrequest
    · obtain ⟨p, hp, _, rfl⟩ := mem_sentWrites hnew
      exact happ.requestFresh p hp
  · intro wr hwr p hp hid
    rcases List.mem_append.mp hwr with hold | hnew
    · -- an old identity belongs to an old request
      rcases App.step_requests hb hp with hpold | hpnew
      · exact h.calls wr hold p hpold hid
      · have hlt := h.fresh wr hold
        omega
    · -- a new write is a request, which its identity determines
      obtain ⟨q, hq, _, rfl⟩ := mem_sentWrites hnew
      rw [happ.request_inj hp hq hid]
  · intro wr hwr mark hmark
    rcases List.mem_append.mp hwr with hold | hnew
    · exact Nat.le_trans (h.marks wr hold mark hmark) hscreen
    · obtain ⟨q, _, _, rfl⟩ := mem_sentWrites hnew
      cases hmark
  · intro id hid
    rcases List.mem_append.mp hid with hold | hnew
    · obtain ⟨wr, hwr, hwrid⟩ := h.reported id hold
      exact ⟨wr, List.mem_append_left _ hwr, hwrid⟩
    · obtain ⟨wr, hwr, rfl⟩ := List.mem_map.mp hnew
      obtain ⟨_, _, hmem, _⟩ := mem_successes hwr
      exact ⟨wr, List.mem_append_left _ hmem, rfl⟩

theorem Consistent.step_server {id : Nat} {accepts : Bool} (h : Consistent w)
    (hstep : w.step env (.server id accepts) = some w') : Consistent w' := by
  obtain ⟨verdict, rfl, hverdict⟩ := World.step_server hstep
  refine ⟨h.app, ?_, ?_, ?_, ?_⟩
  · intro wr hwr
    obtain ⟨wr', hwr', rfl⟩ := mem_settle hwr
    rw [Entry.settle_id]
    exact h.fresh wr' hwr'
  · intro wr hwr p hp hid
    obtain ⟨wr', hwr', rfl⟩ := mem_settle hwr
    rw [Entry.settle_id] at hid
    rw [Entry.settle_item]
    exact h.calls wr' hwr' p hp hid
  · intro wr hwr mark hmark
    obtain ⟨wr', hwr', rfl⟩ := mem_settle hwr
    -- accepted before, or now and marked with the next identity
    rcases wr'.settle_verdict id verdict with hsame | ⟨_, _, hnew⟩
    · exact h.marks wr' hwr' mark (hsame.symm.trans hmark)
    · exact Nat.le_of_eq (hverdict mark (hnew.symm.trans hmark))
  · intro id' hid'
    obtain ⟨wr, hwr, hwrid⟩ := h.reported id' hid'
    exact ⟨wr.settle id verdict, List.mem_map_of_mem hwr, by rw [Entry.settle_id, hwrid]⟩

/-- **Step lemma**: an act keeps the invariant. -/
theorem Consistent.step {act : Act} (h : Consistent w) (hstep : w.step env act = some w') :
    Consistent w' := by
  cases act with
  | app e => exact h.step_app hstep
  | server id accepts => exact h.step_server hstep

/-- A response is handled by the call of the writes that it answers. -/
theorem Consistent.answers {id : Nat} {body : Option (List UInt8)} {b : App} (h : Consistent w)
    (hstep : w.app.step env (.deliver id body) = some b) :
    ∃ call, b = (w.app.dropRequest id).respond env call body ∧
      ∀ wr ∈ w.writes, wr.id = id → wr.item = call := by
  cases hp : w.app.requests.find? (fun q => q.id = id) with
  | none =>
    simp only [App.step, hp] at hstep
    cases hstep
  | some p =>
    refine ⟨p.call, App.step_deliver hp hstep, ?_⟩
    intro wr hwr hid
    have hpid : p.id = id := by simpa using List.find?_some hp
    exact (h.calls wr hwr p (List.mem_of_find?_eq_some hp) (hpid.trans hid.symm)).symm

theorem consistent_of_reachable {userToken : Option String}
    (h : (worldSystem env userToken).Reachable w) : Consistent w := by
  apply h.invariant
  · intro s hs
    have hs : s = start userToken := hs
    rw [hs]
    exact consistent_start userToken
  · intro s act s' _ hcons hstep
    exact hcons.step hstep

/-! ## Section 3: Decisions of the server -/

/-- The server can accept all writes that wait. -/
theorem leads_settleAll {userToken : Option String} (env : Environment) (w : World) (ids : List Nat) :
    (worldSystem env userToken).Leads Act.isServer w
      { w with writes := settleAll w.app.nextScreen ids w.writes } := by
  have hall : ∀ w', (worldSystem env userToken).Leads Act.isServer w w' →
      (worldSystem env userToken).Leads Act.isServer w
        { w' with writes := settleAll w'.app.nextScreen ids w'.writes } := by
    induction ids with
    | nil =>
      intro w' h
      exact h
    | cons id ids ih =>
      intro w' h
      have haccept : w'.step env (.server id true) =
          some { w' with writes := settle id (.accepted w'.app.nextScreen) w'.writes } := rfl
      have hserver : Act.isServer (.server id true) := trivial
      exact ih _ (.step h hserver haccept)
  exact hall w .refl

/-! ### A run to the first list -/

/-- The first list, before any write. -/
def firstList : World := ⟨App.firstList, [], []⟩

/-- The steps to it, the latest first. -/
def firstListSteps : List (World × Act) :=
  System.stepsOf (step epochEnvironment) [] (start none) (App.toFirstList.map .app)

theorem run_toFirstList :
    (start none).run epochEnvironment (App.toFirstList.map .app) = some firstList ∧
      ∀ x ∈ firstListSteps, x.1.writes = [] := by
  decide +kernel

/-- A run from the first list, as a run from `start()`. -/
theorem trace_of_firstList {acts : List Act}
    (h : firstList.run epochEnvironment acts = some w) :
    (worldSystem epochEnvironment none).Trace
      (System.stepsOf (step epochEnvironment) firstListSteps firstList acts) w := by
  have hfirst : (worldSystem epochEnvironment none).Trace firstListSteps firstList :=
    System.Trace.of_foldlM (fun _ _ _ hstep => hstep) (.init rfl) run_toFirstList.1
  exact hfirst.of_foldlM (fun _ _ _ hstep => hstep) h

/-- A condition on writes is to be checked from the first list on. -/
theorem guarded_of_firstList {ok : World → Act → Prop} {acts : List Act}
    (hnone : ∀ w act, w.writes = [] → ok w act)
    (hacts : System.Guarded ok (System.stepsOf (step epochEnvironment) [] firstList acts)) :
    System.Guarded ok
      (System.stepsOf (step epochEnvironment) firstListSteps firstList acts) := by
  intro x hx
  rcases System.mem_stepsOf.mp hx with hx | hx
  · exact hacts x hx
  · exact hnone _ _ (run_toFirstList.2 x hx)

end World

end TimeManager
