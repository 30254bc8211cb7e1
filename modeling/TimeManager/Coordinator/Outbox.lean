import TimeManager.Coordinator.Authorization
import TimeManager.Coordinator.Forms
import TimeManager.Coordinator.Responses
import TimeManager.Framework.Tickets
import TimeManager.Managers.JSONEncoding

/-! # The Writes in Flight

    A delete or a save goes from the screen through its view controller to
    `RequesterURL` and out.  Seen from outside, each tap that asks for a write
    draws a ticket, and a response answers one: the writes in flight are those
    asked for and not yet answered, each for what the user saw and typed, down
    to the body that the server reads (`writes_as_tapped`). -/

namespace TimeManager

open Lts RequesterURL

/-! ## Section 1: What the user asks for -/

/-- The task of a Save on a form that was opened with `data`, after these
    actions, at the time `now`. -/
def savedTask (data : Option InternalTaskData) (actions : List FormAction) (now : Int) :
    TaskData where
  id := (data.map (·.id)).getD (-1)
  title := lastTitle ((data.map (·.title)).getD "") actions
  dueBy := now
  priority := lastPriority ((data.map (·.priority)).getD .low) actions

/-- The write that a Save asks for. -/
def TaskData.saving (task : TaskData) (vc : Nat) : Call :=
  if task.id < 0 then .createTask task vc else .updateTask task vc

/-- The task that a screen was opened for. -/
def AvailableScreens.task : AvailableScreens → Option InternalTaskData
  | .login => none
  | .taskList _ => none
  | .taskDetail data => data
  | .taskEdit data => data

/-- The number of the request that a response answers. -/
def App.Event.answers : App.Event → Option Nat
  | .deliver id _ => some id
  | _ => none

namespace App

/-- The write that a tap asks for: of the top screen it is only looked at what
    it was opened for, and what has been done to it in the run before. -/
def writeDue (tr : List (App × Event)) (a : App) : Event → Option Call
  | .deleteEventPressed => do
    let v ← a.topViewController
    let data ← v.madeFrom.task
    some (.deleteTask data.id v.id)
  | .saveEventPressed now => do
    let v ← a.topViewController
    match v.madeFrom with
    | .taskEdit data =>
      let task := savedTask data (formActions v.id tr) now
      -- without a title nothing is saved
      if task.title = "" then none else some (task.saving v.id)
    | _ => none
  | _ => none

/-- The writes asked for in a run, each with the number of its request. -/
def writesTapped : List (App × Event) → List (Nat × Call)
  | [] => []
  | (a, e) :: tr =>
    writesTapped tr ++ ((a.writeDue tr e).map fun call => (a.nextRequest, call)).toList

/-- The numbers of the requests that have been answered in a run. -/
def answeredRequests (tr : List (App × Event)) : List Nat := tr.filterMap fun x => x.2.answers

/-- The writes in flight, each with the number of its request. -/
def writesInFlight (a : App) : List (Nat × Call) :=
  (a.requests.filter fun p => p.call.writer.isSome).map fun p => (p.id, p.call)

variable {env : Environment} {a b : App} {tr : List (App × Event)}

/-! ## Section 2: The parts of an event -/

/-- A write that is sent is in flight. -/
theorem writesInFlight_send_write {call : Call} {vc : Nat} (h : call.writer = some vc) (a : App) :
    (a.send call).writesInFlight = a.writesInFlight ++ [(a.nextRequest, call)] := by
  unfold writesInFlight App.send
  rw [List.filter_append, List.map_append]
  simp [h]

/-- Other requests do not count. -/
theorem writesInFlight_send {call : Call} (h : call.writer = none) (a : App) :
    (a.send call).writesInFlight = a.writesInFlight := by
  unfold writesInFlight App.send
  rw [List.filter_append, List.map_append]
  simp [h]

theorem writesInFlight_jumpToScreen (a : App) (target : AvailableScreens) :
    (a.jumpToScreen target).writesInFlight = a.writesInFlight := by
  rcases a.jumpToScreen_cases target with ⟨screen, _, _, heq⟩ | ⟨list, _, heq⟩
  · rw [heq]
    rfl
  · rw [heq]
    exact writesInFlight_send rfl a

theorem writesInFlight_presentAlert (a : App) (vc : Nat) (title : String)
    (message : Option String) : (a.presentAlert vc title message).writesInFlight = a.writesInFlight := by
  unfold presentAlert
  split <;> rfl

theorem writesInFlight_back (a : App) : a.back.writesInFlight = a.writesInFlight := by
  unfold back popViewController
  split <;> rfl

theorem Grows.writesInFlight (h : Grows a b) : b.writesInFlight = a.writesInFlight := by
  induction h with
  | refl => rfl
  | jump target _ ih => rw [writesInFlight_jumpToScreen, ih]
  | alert shown _ ih => exact ih

/-- A response takes its request away. -/
theorem writesInFlight_answered (env : Environment) (a : App) (p : Pending)
    (body : Option (List UInt8)) :
    (a.answered env p body).writesInFlight = a.writesInFlight.filter fun w => w.1 ≠ p.id := by
  show ((a.requests.filter fun q => q.id ≠ p.id).filter _).map _ = _
  unfold App.writesInFlight
  rw [List.filter_map, List.filter_filter, List.filter_filter]
  simp only [Function.comp_def, Bool.and_comm]

/-! ## Section 3: Save -/

theorem writer_saving (task : TaskData) (vc : Nat) : (task.saving vc).writer = some vc := by
  unfold TaskData.saving
  split <;> rfl

theorem saveTask_eq (a : App) (vc : Nat) (task : TaskData) :
    a.saveTask vc task = a.send (task.saving vc) := by
  unfold saveTask TaskData.saving
  split <;> rfl

/-- The priority after some actions is the last one tapped, or the old one. -/
theorem foldl_act_priority_getD (view : TaskEditMainView) (actions : List FormAction) :
    (actions.foldl TaskEditMainView.act view).priority.getD .low =
      lastPriority (view.priority.getD .low) actions := by
  cases hpriority : view.priority with
  | some old =>
    rw [TaskEditMainView.foldl_act_priority view old hpriority]
    rfl
  | none =>
    induction actions generalizing view with
    | nil =>
      rw [List.foldl_nil, hpriority]
      rfl
    | cons action actions ih =>
      cases action with
      | typeTitle text => exact ih _ hpriority
      | typeDescription text => exact ih _ hpriority
      | _ =>
        -- the first tap on a priority
        rw [List.foldl_cons, TaskEditMainView.foldl_act_priority _ _ rfl]
        simp only [lastPriority, List.filterMap_cons, FormAction.priority?, List.getLast?_cons]
        rfl

/-- Save on a form that shows what it was opened with and what was done to it. -/
theorem saveEventPressed_form (data : Option InternalTaskData) (actions : List FormAction)
    (now : Int) :
    (actions.foldl TaskEditMainView.act (TaskEditMainView.setData data)).saveEventPressed now =
      if (savedTask data actions now).title = "" then none
      else some (savedTask data actions now) := by
  have htitle := TaskEditMainView.foldl_act_titleText (TaskEditMainView.setData data) actions
  have hpriority := foldl_act_priority_getD (TaskEditMainView.setData data) actions
  have hdata := TaskEditMainView.foldl_act_data (TaskEditMainView.setData data) actions
  unfold TaskEditMainView.saveEventPressed
  rw [htitle, hpriority, hdata, ite_not]
  rfl

/-! ## Section 4: What an event draws and answers -/

/-- The writes in flight are joined by the one that is due, if one is. -/
structure Draws (a b : App) (due : Option Call) : Prop where
  writes : b.writesInFlight =
    a.writesInFlight ++ (due.map fun call => (a.nextRequest, call)).toList
  next : a.nextRequest + due.toList.length ≤ b.nextRequest

theorem Draws.of_same (hwrites : b.writesInFlight = a.writesInFlight)
    (hnext : a.nextRequest ≤ b.nextRequest) : Draws a b none :=
  ⟨by rw [hwrites]; exact (List.append_nil _).symm, hnext⟩

theorem Draws.of_send {call : Call} {vc : Nat} (h : call.writer = some vc) (a : App) :
    Draws a (a.send call) (some call) :=
  ⟨writesInFlight_send_write h a, Nat.le_refl _⟩

theorem Draws.anyOrder {drawn : List (Nat × Call)} {answered : List Nat} {due : Option Call}
    (hdraws : Draws a b due)
    (h : Tickets.AnyOrder drawn answered a.writesInFlight a.nextRequest) :
    Tickets.AnyOrder (drawn ++ (due.map fun call => (a.nextRequest, call)).toList) answered
      b.writesInFlight b.nextRequest := by
  have hnext := hdraws.next
  rw [hdraws.writes]
  cases due with
  | none =>
    simp only [Option.map_none, Option.toList_none, List.append_nil]
    exact h.skip hnext
  | some call => exact (h.draw call).skip hnext

/-- The top screen, and the step it takes. -/
theorem step_top {e : Event} (hstep : a.step env e = some b) (hdisplay : ∀ vc row, e ≠ .willDisplay vc row)
    (hdeliver : ∀ id body, e ≠ .deliver id body) :
    ∃ v, a.topViewController = some v ∧ a.tap v.id v.screen e = some b := by
  cases e with
  | willDisplay vc row => exact absurd rfl (hdisplay vc row)
  | deliver id body => exact absurd rfl (hdeliver id body)
  | _ =>
    simp only [step] at hstep
    split at hstep
    · next v htop => exact ⟨v, htop, hstep⟩
    · cases hstep

/-- Delete asks for a write of the task that the screen was opened for. -/
theorem draws_delete (hwf : WellFormed a) (tr : List (App × Event))
    (hstep : a.step env .deleteEventPressed = some b) :
    Draws a b (a.writeDue tr .deleteEventPressed) := by
  obtain ⟨v, htop, htap⟩ := step_top hstep (by simp) (by simp)
  have hkind := hwf.kinds v (List.mem_of_getLast? htop)
  -- both screens delete the task they were opened for
  have hdelete : ∀ data : Option InternalTaskData, v.madeFrom.task = data →
      b = a.deleteTask v.id (data.map (·.id)) → Draws a b (a.writeDue tr .deleteEventPressed) := by
    rintro data hmade rfl
    have hdue : a.writeDue tr .deleteEventPressed =
        data.map fun data => .deleteTask data.id v.id := by
      simp only [writeDue, htop, Option.bind_eq_bind, Option.bind_some, hmade]
      cases data <;> rfl
    rw [hdue]
    cases data with
    | none =>
      refine Draws.of_same (writesInFlight_presentAlert a _ _ _) ?_
      show a.nextRequest ≤ (a.presentAlert _ _ _).nextRequest
      unfold presentAlert
      split <;> exact Nat.le_refl _
    | some data => exact .of_send rfl a
  obtain ⟨id, madeFrom, screen⟩ := v
  cases screen with
  | login view => cases htap
  | taskList model => cases htap
  | taskDetail shown =>
    cases madeFrom with
    | taskDetail data =>
      obtain rfl : shown = data := hkind
      exact hdelete shown rfl (Option.some.inj htap).symm
    | _ => cases hkind
  | taskEdit view =>
    cases madeFrom with
    | taskEdit data =>
      obtain rfl : view.data = data := hkind
      exact hdelete view.data rfl (Option.some.inj htap).symm
    | _ => cases hkind

/-- Save asks for a write of what was typed into the form. -/
theorem draws_save (hwf : WellFormed a) (hforms : FormsShow tr a) {now : Int}
    (hstep : a.step env (.saveEventPressed now) = some b) :
    Draws a b (a.writeDue tr (.saveEventPressed now)) := by
  obtain ⟨v, htop, htap⟩ := step_top hstep (by simp) (by simp)
  have hmem : v ∈ a.viewControllers := List.mem_of_getLast? htop
  have hkind := hwf.kinds v hmem
  have hshows := hforms.forms v hmem
  obtain ⟨id, madeFrom, screen⟩ := v
  cases screen with
  | taskEdit view =>
    cases madeFrom with
    | taskEdit data =>
      have hview : view = (formActions id tr).foldl TaskEditMainView.act
          (TaskEditMainView.setData data) := Screen.taskEdit.inj (hshows data rfl)
      have hdue : a.writeDue tr (.saveEventPressed now) =
          if (savedTask data (formActions id tr) now).title = "" then none
          else some ((savedTask data (formActions id tr) now).saving id) := by
        unfold writeDue
        rw [htop]
        rfl
      simp only [tap, hview, saveEventPressed_form] at htap
      rw [hdue]
      by_cases htitle : (savedTask data (formActions id tr) now).title = ""
      · rw [if_pos htitle] at htap ⊢
        obtain rfl := Option.some.inj htap
        exact .of_same rfl (Nat.le_refl _)
      · rw [if_neg htitle] at htap ⊢
        obtain rfl := Option.some.inj htap
        rw [saveTask_eq]
        exact .of_send (writer_saving _ _) a
    | _ => cases hkind
  | _ => cases htap

/-- Other events ask for no write. -/
theorem draws_none {e : Event} (hstep : a.step env e = some b) (hdelete : e ≠ .deleteEventPressed)
    (hsave : ∀ now, e ≠ .saveEventPressed now) (hdeliver : ∀ id body, e ≠ .deliver id body) :
    Draws a b none := by
  cases step_effect hstep with
  | grows _ hgrows => exact .of_same hgrows.writesInFlight hgrows.nextRequest
  | typed _ => exact .of_same rfl (Nat.le_refl _)
  | login _ => exact .of_same (writesInFlight_send rfl _) (Nat.le_succ _)
  | more _ _ _ _ => exact .of_same (writesInFlight_send rfl _) (Nat.le_succ _)
  | delete _ => exact absurd rfl hdelete
  | save _ _ _ => exact absurd rfl (hsave _)
  | form _ _ => exact .of_same rfl (Nat.le_refl _)
  | back _ _ =>
    refine .of_same (writesInFlight_back a) ?_
    unfold back popViewController
    split <;> exact Nat.le_refl _
  | deliver _ _ _ => exact absurd rfl (hdeliver _ _)
  | load _ _ _ _ => exact absurd rfl (hdeliver _ _)
  | session _ _ _ _ => exact absurd rfl (hdeliver _ _)

/-- A response answers its request, and asks for no write. -/
theorem writes_deliver (hwf : WellFormed a) {id : Nat} {body : Option (List UInt8)}
    (hstep : a.step env (.deliver id body) = some b) :
    b.writesInFlight = (a.writesInFlight.filter fun w => w.1 ≠ id) ∧ id < a.nextRequest ∧
      a.nextRequest ≤ b.nextRequest := by
  have hanswered : ∀ p, a.requests.find? (fun q => q.id = id) = some p →
      p.id = id ∧ id < a.nextRequest := by
    intro p hp
    have hid : p.id = id := by simpa using List.find?_some hp
    exact ⟨hid, hid ▸ hwf.requestFresh p (List.mem_of_find?_eq_some hp)⟩
  cases step_effect hstep with
  | grows hminor _ => cases hminor
  | @deliver _ _ p _ hp _ hgrows =>
    obtain ⟨hid, hlt⟩ := hanswered p hp
    rw [hgrows.writesInFlight, writesInFlight_answered, hid]
    exact ⟨rfl, hlt, hgrows.nextRequest⟩
  | @load _ body p _ _ w list hp _ _ _ =>
    obtain ⟨hid, hlt⟩ := hanswered p hp
    have hwrites := writesInFlight_answered env a p body
    rw [hid] at hwrites
    exact ⟨hwrites, hlt, Nat.le_refl _⟩
  | @session _ _ p _ _ _ _ hp _ _ _ =>
    obtain ⟨hid, hlt⟩ := hanswered p hp
    rw [writesInFlight_send rfl, writesInFlight_answered, hid]
    exact ⟨rfl, hlt, Nat.le_succ _⟩

/-- **Step lemma**: a tap draws a ticket for its write, and a response answers one. -/
theorem anyOrder_step {e : Event} (hwf : WellFormed a) (hforms : FormsShow tr a)
    (h : Tickets.AnyOrder (writesTapped tr) (answeredRequests tr) a.writesInFlight a.nextRequest)
    (hstep : a.step env e = some b) :
    Tickets.AnyOrder (writesTapped ((a, e) :: tr)) (answeredRequests ((a, e) :: tr))
      b.writesInFlight b.nextRequest := by
  have hnone : ∀ {e}, Draws a b none → e.answers = none → a.writeDue tr e = none →
      Tickets.AnyOrder (writesTapped ((a, e) :: tr)) (answeredRequests ((a, e) :: tr))
        b.writesInFlight b.nextRequest := by
    intro e hdraws hanswers hdue
    have hstays := hdraws.anyOrder h
    rw [← hdue] at hstays
    unfold answeredRequests
    rw [List.filterMap_cons_none (by exact hanswers)]
    exact hstays
  cases e with
  | deleteEventPressed => exact (draws_delete hwf tr hstep).anyOrder h
  | saveEventPressed now => exact (draws_save hwf hforms hstep).anyOrder h
  | deliver id body =>
    obtain ⟨hwrites, hlt, hnext⟩ := writes_deliver hwf hstep
    rw [hwrites]
    have hanswer := (h.answer hlt).skip hnext
    rw [← List.append_nil (writesTapped tr)] at hanswer
    exact hanswer
  | _ => exact hnone (draws_none hstep (by simp) (by simp) (by simp)) rfl rfl

/-- **Run lemma**: in every run the tickets are in order. -/
theorem anyOrder_of_trace {userToken : Option String} (h : (appSystem env userToken).Trace tr a) :
    Tickets.AnyOrder (writesTapped tr) (answeredRequests tr) a.writesInFlight a.nextRequest := by
  induction h with
  | init hs =>
    have hs : _ = App.start userToken := hs
    rw [hs]
    exact Tickets.anyOrder_nil _
  | step htr hstep ih =>
    exact anyOrder_step (wellFormed_of_reachable htr.reachable) (forms_of_trace htr) ih hstep

/-! ## Section 5: Writes on the wire -/

/-- The request of a write as the server sees it, however its body is written. -/
def WrittenAs (request : Request) : Call → Prop
  | .deleteTask id _ => request.method = .delete ∧
      request.url = mainURL ++ "/tasks/" ++ toString id ∧ ∀ s, request.sentBody s = none
  | .updateTask task _ => request.method = .put ∧
      request.url = mainURL ++ "/tasks/" ++ toString task.id ∧ BodyReads request task
  | .createTask task _ => request.method = .post ∧ request.url = mainURL ++ "/tasks" ∧
      BodyReads request task
  | _ => True
where
  BodyReads (request : Request) (task : TaskData) : Prop :=
    ∀ s, ∃ data ps, request.sentBody s = some data ∧ JSONEncoding.read data = some ps ∧
      ps.Perm [("title", .string task.title), ("dueBy", .int task.dueBy),
        ("priority", .string task.priority.rawValue)]

theorem writtenAs_of_request {request : Request} {call : Call} {token : Option String}
    (h : request = call.operation.request token) : WrittenAs request call := by
  have hbody : ∀ task : TaskData, request.parameters = taskParameters task →
      WrittenAs.BodyReads request task := by
    intro task hparameters s
    obtain ⟨ps, hread, hperm⟩ := JSONEncoding.read_encode s
      [("title", .string task.title), ("dueBy", .int task.dueBy),
        ("priority", .string task.priority.rawValue)]
    refine ⟨_, ps, ?_, hread, hperm⟩
    unfold Request.sentBody
    rw [hparameters]
    rfl
  subst h
  cases call with
  | deleteTask id vc => exact ⟨rfl, rfl, fun _ => rfl⟩
  | updateTask task vc => exact ⟨rfl, rfl, hbody task rfl⟩
  | createTask task vc => exact ⟨rfl, rfl, hbody task rfl⟩
  | _ => trivial

theorem writtenAs_of_reachable {userToken : Option String}
    (h : (appSystem env userToken).Reachable a) : ∀ p ∈ a.requests, WrittenAs p.request p.call := by
  apply h.invariant
  · intro s hs p hp
    have hs : s = App.start userToken := hs
    rw [hs] at hp
    cases hp
  · intro s e s' _ ih hstep p hp
    rcases step_request hstep hp with hold | hnew
    · exact ih p hold
    · exact writtenAs_of_request hnew

end App

/-- **Writes as tapped.**  In every run of the app, whatever is answered late or
    never, the deletes and saves in flight are those that were tapped and not
    yet answered, in the order of the taps.  A delete is for the task that the
    screen was opened for; a save has its id, the last title and priority that
    were typed into that form, and the time of the tap; and the server reads
    them from the request. -/
theorem writes_as_tapped {env : Environment} {userToken : Option String}
    {tr : List (App × App.Event)} {a : App} (h : (appSystem env userToken).Trace tr a) :
    a.writesInFlight =
      (App.writesTapped tr).filter (fun w => w.1 ∉ App.answeredRequests tr) ∧
    ∀ p ∈ a.requests, App.WrittenAs p.request p.call :=
  ⟨(App.anyOrder_of_trace h).opened_eq, App.writtenAs_of_reachable h.reachable⟩

/-- Save is tapped twice, and the first create is answered. -/
theorem writes_as_tapped_twice :
    ∃ tr b, (appSystem epochEnvironment none).Trace tr b ∧
      (App.writesTapped tr).filter (fun w => w.1 ∉ App.answeredRequests tr) =
        [(4, .createTask ⟨-1, "b", 6, .high⟩ 2)] ∧
      ∀ p ∈ b.requests, App.WrittenAs p.request p.call := by
  obtain ⟨tr, htr⟩ := App.reachable_firstList.trace
  have hrun : App.firstList.run epochEnvironment [.addTaskButtonPressed, .form (.typeTitle "b"),
      .form .highPriorityChoosen, .saveEventPressed 5, .saveEventPressed 6, .deliver 3 none] =
        some _ := rfl
  have hlong := htr.of_foldlM (fun _ _ _ hstep => hstep) hrun
  have hall := writes_as_tapped hlong
  exact ⟨_, _, hlong, hall.1.symm, hall.2⟩

end TimeManager
