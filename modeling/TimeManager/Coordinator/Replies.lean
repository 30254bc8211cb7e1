import TimeManager.Coordinator.FailedLogins
import TimeManager.Coordinator.Gate
import TimeManager.Coordinator.ListScreens

/-! # The Order of Responses

    Most responses are quiet: they fill a list, present an alert or end the
    session, but open no screen and send no request.  What a batch of quiet
    responses does is written down at once (`App.hear`), and from that it can
    be seen which orders of them make a difference: only the order of the
    replies to one list does (`quiet_order`). -/

namespace TimeManager

open Lts RequesterURL

/-! ## Section 1: Quiet responses -/

/-- A request and the body of its response. -/
structure Reply where
  request : Pending
  body : Option (List UInt8)
deriving DecidableEq

def Reply.event (r : Reply) : App.Event := .deliver r.request.id r.body

/-- The response to a request of the list screen `vc`. -/
def Reply.isFor (vc : Nat) (r : Reply) : Bool := (r.request.call.listRequest vc).isSome

/-- The response opens no screen and sends no request. -/
def Call.Quiet (env : Environment) (body : Option (List UInt8)) : Call → Prop
  | .loginUser _ _ => App.responseToken env body = none
  | .getTaskList request .coordinator => ¬ Shown env body (.getTaskList request .coordinator)
  | .getTaskList _ (.firstTasks _) => True
  | .getTaskList _ (.nextTask _) => True
  | .deleteTask id vc => (Call.deleteTask id vc).succeeds env body = false
  | .updateTask task vc => (Call.updateTask task vc).succeeds env body = false
  | .createTask task vc => (Call.createTask task vc).succeeds env body = false

/-- What the error closure is called with. -/
def Completion.error? {σ ε : Type} : Completion σ ε → Option ε
  | .toDoIfSuccess _ => none
  | .toDoIfError e => some e

/-- The alerts of a response, if their screens are there. -/
def Call.errors (env : Environment) (body : Option (List UInt8)) : Call → List Alert
  | .loginUser _ vc =>
    (loginUserResponse none (body.map (Payload.read env.decoder.loginResultData))).2.filterMap
      fun c => c.error?.map fun result => ⟨vc, "Error in the fields", result.message⟩
  | .getTaskList _ .coordinator => []
  | .getTaskList _ (.firstTasks vc) =>
    (getTaskListResponse (body.map (Payload.read env.decoder.taskList))).filterMap
      fun c => c.error?.map fun list => ⟨vc, "Error in the result", some (list.message.getD "")⟩
  | .getTaskList _ (.nextTask _) => []
  | .deleteTask id vc => ((Call.deleteTask id vc).outcomes env body).filterMap
      fun c => c.error?.map fun message => ⟨vc, "Error in deleting", message⟩
  | .updateTask task vc => ((Call.updateTask task vc).outcomes env body).filterMap
      fun c => c.error?.map fun message => ⟨vc, "Error in deleting", message⟩
  | .createTask task vc => ((Call.createTask task vc).outcomes env body).filterMap
      fun c => c.error?.map fun message => ⟨vc, "Error in deleting", message⟩

/-- The response to a login that decodes: without a token, it ends the session. -/
def Reply.signsOut (env : Environment) (r : Reply) : Bool :=
  r.request.call.isLogin && (r.body.bind env.decoder.loginResultData).isSome

/-- A list screen with the replies to its requests. -/
def ViewController.fill (env : Environment) (rs : List Reply) (v : ViewController) :
    ViewController :=
  { v with
    screen := v.screen.updateModel fun model =>
      (rs.filter (Reply.isFor v.id)).foldl
        (fun m r => m.respond env.dates (r.body.map (Payload.read env.decoder.taskList))) model }

theorem ViewController.fill_of_not_isFor {env : Environment} {rs : List Reply}
    {v : ViewController} (h : ∀ r ∈ rs, r.isFor v.id = false) : v.fill env rs = v := by
  have hnil : rs.filter (Reply.isFor v.id) = [] := by
    rw [List.filter_eq_nil_iff]
    intro r hr
    simp [h r hr]
  obtain ⟨id, madeFrom, screen⟩ := v
  unfold fill
  rw [hnil]
  cases screen with
  | _ => rfl

theorem ViewController.fill_fill (env : Environment) (r : Reply) (rs : List Reply)
    (v : ViewController) : (v.fill env [r]).fill env rs = v.fill env (r :: rs) := by
  have hcons : (r :: rs).filter (Reply.isFor v.id) =
      [r].filter (Reply.isFor v.id) ++ rs.filter (Reply.isFor v.id) := by
    rw [← List.filter_append]
    rfl
  obtain ⟨id, madeFrom, screen⟩ := v
  unfold fill
  rw [hcons]
  cases screen with
  | taskList model => simp only [Screen.updateModel, List.foldl_append]
  | _ => rfl

namespace App

variable {env : Environment} {a b : App}

/-- The app after a batch of quiet responses. -/
def hear (env : Environment) (a : App) (rs : List Reply) : App :=
  { a with
    viewControllers := a.viewControllers.map (ViewController.fill env rs)
    userToken := if rs.any (Reply.signsOut env) then none else a.userToken
    requests := a.requests.filter fun p => p.id ∉ rs.map (·.request.id)
    presented := a.presented ++
      (rs.flatMap fun r => r.request.call.errors env r.body).filter fun alert => a.isLive alert.vc }

theorem hear_nil (env : Environment) (a : App) : a.hear env [] = a := by
  have hstack : a.viewControllers.map (ViewController.fill env []) = a.viewControllers := by
    rw [List.map_congr_left fun v _ => ViewController.fill_of_not_isFor (by simp), List.map_id'']
    exact fun _ => rfl
  have hrequests : (a.requests.filter fun p => p.id ∉ ([] : List Reply).map (·.request.id)) =
      a.requests := by
    rw [List.filter_eq_self]
    simp
  unfold hear
  rw [hstack, hrequests]
  simp

@[simp] theorem isLive_hear (env : Environment) (a : App) (rs : List Reply) (vc : Nat) :
    (a.hear env rs).isLive vc = a.isLive vc := by
  show (a.viewControllers.map _).any _ = a.viewControllers.any _
  rw [List.any_map]
  rfl

/-- A batch is heard one response after another. -/
theorem hear_hear (env : Environment) (a : App) (r : Reply) (rs : List Reply) :
    (a.hear env [r]).hear env rs = a.hear env (r :: rs) := by
  have hstack : (a.viewControllers.map (ViewController.fill env [r])).map
      (ViewController.fill env rs) = a.viewControllers.map (ViewController.fill env (r :: rs)) := by
    rw [List.map_map]
    exact List.map_congr_left fun v _ => v.fill_fill env r rs
  have htoken : (if rs.any (Reply.signsOut env) then none
      else if [r].any (Reply.signsOut env) then none else a.userToken) =
      if (r :: rs).any (Reply.signsOut env) then none else a.userToken := by
    cases hr : r.signsOut env <;> cases hrs : rs.any (Reply.signsOut env) <;> simp [hr, hrs]
  have hrequests : ((a.requests.filter fun p => p.id ∉ [r].map (·.request.id)).filter
      fun p => p.id ∉ rs.map (·.request.id)) =
      a.requests.filter fun p => p.id ∉ (r :: rs).map (·.request.id) := by
    rw [List.filter_filter]
    congr 1
    funext p
    simp [Bool.and_comm]
  have halerts : a.presented ++ ([r].flatMap fun r => r.request.call.errors env r.body).filter
        (fun alert => a.isLive alert.vc) ++
        (rs.flatMap fun r => r.request.call.errors env r.body).filter
          (fun alert => (a.hear env [r]).isLive alert.vc) =
      a.presented ++ ((r :: rs).flatMap fun r => r.request.call.errors env r.body).filter
        fun alert => a.isLive alert.vc := by
    simp only [isLive_hear, List.flatMap_cons, List.flatMap_nil, List.append_nil,
      List.filter_append, List.append_assoc]
  unfold hear at halerts ⊢
  simp only [App.mk.injEq, true_and, and_true]
  exact ⟨hstack, htoken, hrequests, halerts⟩

/-! ## Section 2: One quiet response -/

/-- Alerts on those screens that are there. -/
def warn (a : App) (alerts : List Alert) : App :=
  { a with presented := a.presented ++ alerts.filter fun alert => a.isLive alert.vc }

@[simp] theorem warn_nil (a : App) : a.warn [] = a := by
  unfold warn
  rw [List.filter_nil, List.append_nil]

theorem warn_append (a : App) (alerts more : List Alert) :
    a.warn (alerts ++ more) = (a.warn alerts).warn more := by
  have hlive : ∀ vc, (a.warn alerts).isLive vc = a.isLive vc := fun _ => rfl
  show { a with presented := _ } = { a with presented := _ }
  rw [List.filter_append, ← List.append_assoc]
  simp only [hlive]
  rfl

theorem presentAlert_eq (a : App) (vc : Nat) (title : String) (message : Option String) :
    a.presentAlert vc title message = a.warn [⟨vc, title, message⟩] := by
  unfold presentAlert warn
  by_cases hlive : a.isLive vc
  · simp [hlive]
  · simp [hlive]

/-- A write that does not succeed only presents alerts. -/
theorem foldl_written_of_errors (vc : Nat) {cs : List (Completion Unit (Option String))}
    (h : cs.any Completion.isSuccess = false) :
    cs.foldl (written vc) a = a.warn (cs.filterMap fun c =>
      c.error?.map fun message => ⟨vc, "Error in deleting", message⟩) := by
  induction cs generalizing a with
  | nil => exact a.warn_nil.symm
  | cons c cs ih =>
    rw [List.any_cons, Bool.or_eq_false_iff] at h
    cases c with
    | toDoIfSuccess result => cases h.1
    | toDoIfError message =>
      rw [List.foldl_cons, ih h.2]
      show (a.presentAlert vc "Error in deleting" message).warn _ = _
      rw [presentAlert_eq, ← warn_append]
      rfl

theorem hear_singleton (env : Environment) (a : App) (r : Reply) :
    a.hear env [r] = { a.dropRequest r.request.id with
      viewControllers := a.viewControllers.map (ViewController.fill env [r])
      userToken := if r.signsOut env then none else a.userToken
      presented := a.presented ++
        (r.request.call.errors env r.body).filter fun alert => a.isLive alert.vc } := by
  unfold hear dropRequest
  simp

/-- What a response does that fills no list. -/
theorem hear_of_not_isFor {r : Reply} (h : ∀ vc, r.isFor vc = false) :
    a.hear env [r] = ({ a.dropRequest r.request.id with
      userToken := if r.signsOut env then none else a.userToken } : App).warn
        (r.request.call.errors env r.body) := by
  have hstack : a.viewControllers.map (ViewController.fill env [r]) = a.viewControllers := by
    rw [List.map_congr_left fun v _ => ViewController.fill_of_not_isFor (by simp [h]),
      List.map_id'']
    exact fun _ => rfl
  rw [hear_singleton, hstack]
  rfl

theorem isFor_iff {r : Reply} {vc : Nat} {request : ListRequest}
    (h : r.request.call.listRequest vc = some request) (w : Nat) : r.isFor w = true ↔ w = vc := by
  obtain ⟨caller, hcall, hscreen⟩ := Call.listRequest_eq_some.mp h
  unfold Reply.isFor Call.listRequest
  simp only [hcall, hscreen, Option.some.injEq]
  split
  · next heq => exact iff_of_true rfl heq.symm
  · next hne => exact iff_of_false Bool.false_ne_true fun heq => hne heq.symm

theorem fill_singleton {r : Reply} {vc : Nat} {request : ListRequest}
    (h : r.request.call.listRequest vc = some request) (v : ViewController) :
    v.fill env [r] = v.update vc (Screen.updateModel fun model =>
      model.respond env.dates (r.body.map (Payload.read env.decoder.taskList))) := by
  unfold ViewController.update
  by_cases hv : v.id = vc
  · rw [if_pos hv]
    unfold ViewController.fill
    rw [List.filter_cons_of_pos ((isFor_iff h v.id).mpr hv), List.filter_nil]
    rfl
  · rw [if_neg hv]
    have hno : r.isFor v.id = false := by simpa using mt (isFor_iff h v.id).mp hv
    exact ViewController.fill_of_not_isFor (by simp [hno])

theorem isLive_updateScreen (a : App) (vc : Nat) (f : Screen → Screen) (w : Nat) :
    (a.updateScreen vc f).isLive w = a.isLive w := by
  rw [Bool.eq_iff_iff, isLive_iff, isLive_iff, updateScreen_map (update_origin _ _)]

/-- What the response to a list screen does. -/
theorem hear_of_isFor {r : Reply} {vc : Nat} {request : ListRequest}
    (h : r.request.call.listRequest vc = some request) :
    a.hear env [r] = ((a.dropRequest r.request.id).updateScreen vc
      (Screen.updateModel fun model =>
        model.respond env.dates (r.body.map (Payload.read env.decoder.taskList)))).warn
          (r.request.call.errors env r.body) := by
  have hstack : a.viewControllers.map (ViewController.fill env [r]) =
      a.viewControllers.map (ViewController.update vc (Screen.updateModel fun model =>
        model.respond env.dates (r.body.map (Payload.read env.decoder.taskList)))) :=
    List.map_congr_left fun v _ => fill_singleton h v
  have hsignsOut : r.signsOut env = false := by
    obtain ⟨caller, hcall, -⟩ := Call.listRequest_eq_some.mp h
    unfold Reply.signsOut
    rw [hcall]
    rfl
  rw [hear_singleton, hstack, hsignsOut]
  unfold warn
  simp only [isLive_updateScreen]
  rfl

/-- A change of a list that changes nothing. -/
theorem updateScreen_of_eq {vc : Nat} {f : TaskListModel → TaskListModel} (hf : ∀ m, f m = m) :
    a.updateScreen vc (Screen.updateModel f) = a := by
  have hid : f = id := funext hf
  have hscreen : Screen.updateModel f = id := by
    funext screen
    rw [hid]
    cases screen <;> rfl
  have hupdate : ∀ v, ViewController.update vc id v = v := by
    intro v
    unfold ViewController.update
    split <;> rfl
  unfold updateScreen
  rw [hscreen, List.map_congr_left fun v _ => hupdate v, List.map_id'']
  exact fun _ => rfl

theorem respond_quiet_login (a : App) {user : LoginData} {vc : Nat} {id : Nat} {sent : Request}
    {body : Option (List UInt8)} (hquiet : responseToken env body = none) :
    (a.dropRequest id).respond env (.loginUser user vc) body =
      a.hear env [⟨⟨id, .loginUser user vc, sent⟩, body⟩] := by
  rw [hear_of_not_isFor fun _ => rfl]
  cases body with
  | none => exact (warn_nil _).symm
  | some data =>
    cases hdec : env.decoder.loginResultData data with
    | none =>
      simp [respond, loginUserResponse, Payload.read, hdec, Reply.signsOut, Call.errors]
    | some result =>
      have htoken : result.token = none := by simpa [responseToken, hdec] using hquiet
      simp [respond, loginUserResponse, Payload.read, hdec, htoken, Reply.signsOut, Call.errors,
        Call.isLogin, loginCompletion, presentAlert_eq, Completion.error?]

/-- The response to a list screen's request: its list is filled, or an alert
    is presented, or nothing happens. -/
theorem respond_list_screen (a : App) {request : ListRequest} {caller : ListCaller} {vc : Nat}
    (hscreen : caller.screen = some vc) {id : Nat} {sent : Request}
    (body : Option (List UInt8)) :
    (a.dropRequest id).respond env (.getTaskList request caller) body =
      a.hear env [⟨⟨id, .getTaskList request caller, sent⟩, body⟩] := by
  have hfor : (Call.getTaskList request caller).listRequest vc = some request :=
    Call.listRequest_eq_some.mpr ⟨caller, rfl, hscreen⟩
  rw [@hear_of_isFor env a ⟨⟨id, .getTaskList request caller, sent⟩, body⟩ vc request hfor]
  have hrespond : (a.dropRequest id).respond env (.getTaskList request caller) body =
      (getTaskListResponse (body.map (Payload.read env.decoder.taskList))).foldl
        (listCompletion env caller) (a.dropRequest id) := rfl
  rw [hrespond]
  rcases getTaskListResponse_cases (body.map (Payload.read env.decoder.taskList)) with
    ⟨heq, -⟩ | ⟨_, result, -, -, ⟨-, -, list, heq⟩ | ⟨-, heq⟩⟩
  · -- no body, or one that does not decode
    have hsame : ∀ model : TaskListModel,
        model.respond env.dates (body.map (Payload.read env.decoder.taskList)) = model := by
      intro model
      rw [TaskListModel.respond, heq]
      rfl
    have hnone : (Call.getTaskList request caller).errors env body = [] := by
      cases caller <;> first | rfl | simp [Call.errors, heq]
    rw [heq, updateScreen_of_eq hsame, hnone, warn_nil]
    rfl
  · -- a list
    have hloads : ∀ model : TaskListModel,
        model.respond env.dates (body.map (Payload.read env.decoder.taskList)) =
          model.successAll env.dates list := by
      intro model
      rw [TaskListModel.respond, heq]
      rfl
    have hnone : (Call.getTaskList request caller).errors env body = [] := by
      cases caller <;> first | rfl | simp [Call.errors, heq, Completion.error?]
    simp only [hloads]
    rw [heq, hnone, warn_nil]
    cases caller with
    | coordinator => cases hscreen
    | firstTasks w =>
      obtain rfl : w = vc := Option.some.inj hscreen
      rfl
    | nextTask w =>
      obtain rfl : w = vc := Option.some.inj hscreen
      rfl
  · -- an error: only the first request of a screen has a closure for it
    have hsame : ∀ model : TaskListModel,
        model.respond env.dates (body.map (Payload.read env.decoder.taskList)) = model := by
      intro model
      rw [TaskListModel.respond, heq]
      rfl
    rw [heq, updateScreen_of_eq hsame]
    cases caller with
    | coordinator => cases hscreen
    | firstTasks w =>
      have hone : (Call.getTaskList request (.firstTasks w)).errors env body =
          [⟨w, "Error in the result", some (result.message.getD "")⟩] := by
        simp [Call.errors, heq, Completion.error?]
      rw [hone]
      exact presentAlert_eq _ _ _ _
    | nextTask w => exact (warn_nil _).symm

/-- **Step lemma**: a quiet response is heard. -/
theorem step_quiet {r : Reply} (hr : a.requests.find? (fun q => q.id = r.request.id) = some r.request)
    (hquiet : r.request.call.Quiet env r.body) : a.step env r.event = some (a.hear env [r]) := by
  have hstep : a.step env r.event =
      some ((a.dropRequest r.request.id).respond env r.request.call r.body) := by
    simp only [step, Reply.event, hr]
  rw [hstep]
  congr 1
  obtain ⟨⟨id, call, sent⟩, body⟩ := r
  have hwrite : ∀ vc, call.writer = some vc → call.succeeds env body = false →
      (call.errors env body = (call.outcomes env body).filterMap fun c =>
        c.error?.map fun message => ⟨vc, "Error in deleting", message⟩) →
      (a.dropRequest id).respond env call body = a.hear env [⟨⟨id, call, sent⟩, body⟩] := by
    intro vc hwriter hno herrors
    have hother : ∀ w, Reply.isFor w ⟨⟨id, call, sent⟩, body⟩ = false := by
      intro w
      cases call <;> first | rfl | cases hwriter
    have hin : Reply.signsOut env ⟨⟨id, call, sent⟩, body⟩ = false := by
      cases call <;> first | rfl | cases hwriter
    rw [respond_write hwriter, foldl_written_of_errors vc hno, hear_of_not_isFor hother, herrors, hin]
    rfl
  cases call with
  | deleteTask taskID vc => exact hwrite vc rfl hquiet rfl
  | updateTask task vc => exact hwrite vc rfl hquiet rfl
  | createTask task vc => exact hwrite vc rfl hquiet rfl
  | loginUser user vc => exact respond_quiet_login a hquiet
  | getTaskList request caller =>
    cases caller with
    | coordinator =>
      rcases respond_coordinator env (a.dropRequest id) request body with ⟨hshown, -⟩ | ⟨-, heq⟩
      · exact absurd hshown hquiet
      · rw [hear_of_not_isFor fun _ => rfl]
        exact heq.trans (warn_nil _).symm
    | firstTasks vc => exact respond_list_screen a rfl body
    | nextTask vc => exact respond_list_screen a rfl body

/-! ## Section 3: A batch of quiet responses -/

/-- A request in flight is found by its identity. -/
theorem find_of_mem (h : WellFormed a) {p : Pending} (hp : p ∈ a.requests) :
    a.requests.find? (fun q => q.id = p.id) = some p := by
  cases hfind : a.requests.find? (fun q => q.id = p.id) with
  | none =>
    have hne := List.find?_eq_none.mp hfind p hp
    exact absurd (decide_eq_true rfl) hne
  | some q =>
    have hid : q.id = p.id := by simpa using List.find?_some hfind
    rw [h.request_inj (List.mem_of_find?_eq_some hfind) hp hid]

/-- **Run lemma**: a batch of quiet responses is heard, in any order. -/
theorem run_quiet (h : WellFormed a) {rs : List Reply} (hin : ∀ r ∈ rs, r.request ∈ a.requests)
    (honce : (rs.map (·.request.id)).Nodup)
    (hquiet : ∀ r ∈ rs, r.request.call.Quiet env r.body) :
    a.run env (rs.map Reply.event) = some (a.hear env rs) := by
  induction rs generalizing a with
  | nil => rw [hear_nil]; rfl
  | cons r rs ih =>
    obtain ⟨hr, hrest⟩ := List.forall_mem_cons.mp hin
    obtain ⟨hq, hquiet⟩ := List.forall_mem_cons.mp hquiet
    rw [List.map_cons, List.nodup_cons] at honce
    have hstep := step_quiet (find_of_mem h hr) hq
    rw [List.map_cons, run_cons, hstep, Option.bind_some, ← hear_hear env a r rs]
    apply ih (h.step hstep) _ honce.2 hquiet
    -- the other requests are still in flight
    intro r' hr'
    refine List.mem_filter.mpr ⟨hrest r' hr', ?_⟩
    have hne : r'.request.id ≠ r.request.id := by
      intro heq
      exact honce.1 (heq ▸ List.mem_map_of_mem hr')
    simpa using hne

/-- The app after a batch, in terms of what the order of the batch leaves
    open: the order of the replies to each list, and the order of the alerts. -/
theorem hear_perm {rs rs' : List Reply} (hperm : rs'.Perm rs)
    (hsame : ∀ vc, rs'.filter (Reply.isFor vc) = rs.filter (Reply.isFor vc)) :
    (a.hear env rs').presented.Perm (a.hear env rs).presented ∧
      { a.hear env rs' with presented := (a.hear env rs).presented } = a.hear env rs := by
  have hstack : a.viewControllers.map (ViewController.fill env rs') =
      a.viewControllers.map (ViewController.fill env rs) := by
    apply List.map_congr_left
    intro v _
    unfold ViewController.fill
    rw [hsame]
  have htoken : rs'.any (Reply.signsOut env) = rs.any (Reply.signsOut env) := hperm.any_eq
  have hrequests : (a.requests.filter fun p => p.id ∉ rs'.map (·.request.id)) =
      a.requests.filter fun p => p.id ∉ rs.map (·.request.id) := by
    apply List.filter_congr
    intro p _
    simp only [(hperm.map fun r => r.request.id).mem_iff]
  refine ⟨((hperm.flatMap_right _).filter _).append_left _, ?_⟩
  unfold hear
  rw [hstack, htoken, hrequests]

/-! ### Responses without a body -/

theorem quiet_none (env : Environment) (call : Call) : call.Quiet env none := by
  cases call with
  | getTaskList request caller =>
    cases caller with
    | coordinator =>
      rintro ⟨data, result, hdata, -⟩
      cases hdata
    | _ => exact trivial
  | _ => rfl

theorem errors_none (env : Environment) (call : Call) : call.errors env none = [] := by
  cases call with
  | getTaskList request caller => cases caller <;> rfl
  | _ => rfl

theorem hear_none (env : Environment) (a : App) (ps : List Pending) :
    a.hear env (ps.map fun p => ⟨p, none⟩) =
      { a with requests := a.requests.filter fun p => p.id ∉ ps.map (·.id) } := by
  have hfill : ∀ v : ViewController, v.fill env (ps.map fun p => ⟨p, none⟩) = v := by
    intro v
    have hsame : ∀ (rs : List Reply) (m : TaskListModel), (∀ r ∈ rs, r.body = none) →
        rs.foldl (fun m r => m.respond env.dates (r.body.map (Payload.read env.decoder.taskList))) m =
          m := by
      intro rs m hrs
      induction rs with
      | nil => rfl
      | cons r rs ih =>
        obtain ⟨hr, hrs⟩ := List.forall_mem_cons.mp hrs
        rw [List.foldl_cons, hr]
        exact ih hrs
    have hbodies : ∀ r ∈ (ps.map fun p => (⟨p, none⟩ : Reply)).filter (Reply.isFor v.id),
        r.body = none := by
      intro r hr
      obtain ⟨p, -, rfl⟩ := List.mem_map.mp (List.mem_filter.mp hr).1
      rfl
    obtain ⟨id, madeFrom, screen⟩ := v
    unfold ViewController.fill
    cases screen with
    | taskList model => simp only [Screen.updateModel, hsame _ model hbodies]
    | _ => rfl
  have hstack : a.viewControllers.map (ViewController.fill env (ps.map fun p => ⟨p, none⟩)) =
      a.viewControllers := by
    rw [List.map_congr_left fun v _ => hfill v, List.map_id'']
    exact fun _ => rfl
  have hsignsOut : (ps.map fun p => (⟨p, none⟩ : Reply)).any (Reply.signsOut env) = false := by
    rw [List.any_eq_false]
    intro r hr
    obtain ⟨p, -, rfl⟩ := List.mem_map.mp hr
    simp [Reply.signsOut]
  have herrors : ((ps.map fun p => (⟨p, none⟩ : Reply)).flatMap
      fun r => r.request.call.errors env r.body) = [] := by
    rw [List.flatMap_eq_nil_iff]
    intro r hr
    obtain ⟨p, -, rfl⟩ := List.mem_map.mp hr
    exact errors_none env p.call
  unfold hear
  rw [hstack, hsignsOut, herrors, List.map_map]
  simp only [List.filter_nil, List.append_nil]
  rfl

end App

/-- **The order of responses.**  From any reachable state, let a batch of
    requests in flight get quiet responses: replies to lists, refusals and
    failures.  Whatever their order, the app comes to the same state, but for
    the order of the alerts, if only the replies to each single list come in
    the same order. -/
theorem quiet_order {env : Environment} {userToken : Option String} {a : App}
    (h : (appSystem env userToken).Reachable a) {rs rs' : List Reply}
    (hin : ∀ r ∈ rs, r.request ∈ a.requests) (honce : (rs.map (·.request.id)).Nodup)
    (hquiet : ∀ r ∈ rs, r.request.call.Quiet env r.body) (hperm : rs'.Perm rs)
    (hsame : ∀ vc, rs'.filter (Reply.isFor vc) = rs.filter (Reply.isFor vc)) :
    ∃ b b', a.run env (rs.map Reply.event) = some b ∧ a.run env (rs'.map Reply.event) = some b' ∧
      b'.presented.Perm b.presented ∧ { b' with presented := b.presented } = b := by
  have hwf := App.wellFormed_of_reachable h
  have hrun := App.run_quiet hwf hin honce hquiet
  have hrun' := App.run_quiet hwf (fun r hr => hin r (hperm.mem_iff.mp hr))
    ((hperm.map _).nodup_iff.mpr honce) (fun r hr => hquiet r (hperm.mem_iff.mp hr))
  obtain ⟨halerts, hrest⟩ := @App.hear_perm env a rs rs' hperm hsame
  exact ⟨_, _, hrun, hrun', halerts, hrest⟩

/-- Two logins fail, one without a body and one without a token. -/
theorem quiet_order_logins :
    ∃ b b', App.twoLogins.run epochEnvironment [.deliver 0 none, .deliver 1 (utf8 "\x7b\x7d")] = some b ∧
      App.twoLogins.run epochEnvironment [.deliver 1 (utf8 "\x7b\x7d"), .deliver 0 none] = some b' ∧
      b'.presented.Perm b.presented ∧ { b' with presented := b.presented } = b := by
  have hreach := (App.trace_twoLogins epochEnvironment).reachable
  have hquiet : App.responseToken epochEnvironment (utf8 "\x7b\x7d") = none := by decide +kernel
  exact @quiet_order _ _ _ hreach
    [⟨⟨0, .loginUser App.firstUser 0, RequesterURL.loginUser App.firstUser⟩, none⟩,
      ⟨⟨1, .loginUser App.secondUser 0, RequesterURL.loginUser App.secondUser⟩, utf8 "\x7b\x7d"⟩]
    [⟨⟨1, .loginUser App.secondUser 0, RequesterURL.loginUser App.secondUser⟩, utf8 "\x7b\x7d"⟩,
      ⟨⟨0, .loginUser App.firstUser 0, RequesterURL.loginUser App.firstUser⟩, none⟩]
    (by decide) (by decide) (List.forall_mem_cons.mpr ⟨rfl, List.forall_mem_singleton.mpr hquiet⟩)
    (List.Perm.swap _ _ _) (fun _ => rfl)

/-- **Lost responses.**  From any reachable state, let any of the requests in
    flight fail without a body, in any order.  They are gone, and nothing else
    about the app has changed: no screen, no alert, no token. -/
theorem lost_responses {env : Environment} {userToken : Option String} {a : App}
    (h : (appSystem env userToken).Reachable a) {ps : List Pending} (hin : ∀ p ∈ ps, p ∈ a.requests)
    (honce : (ps.map (·.id)).Nodup) :
    a.run env (ps.map fun p => .deliver p.id none) =
      some { a with requests := a.requests.filter fun p => p ∉ ps } := by
  have hwf := App.wellFormed_of_reachable h
  have hids : (ps.map fun p => (⟨p, none⟩ : Reply)).map (·.request.id) = ps.map (·.id) := by
    rw [List.map_map]
    rfl
  have hrun := @App.run_quiet env a hwf (ps.map fun p => ⟨p, none⟩)
    (List.forall_mem_map.mpr hin) (hids ▸ honce)
    (List.forall_mem_map.mpr fun p _ => App.quiet_none env p.call)
  have hevents : (ps.map fun p => (⟨p, none⟩ : Reply)).map Reply.event =
      ps.map fun p => .deliver p.id none := by
    rw [List.map_map]
    rfl
  have hkept : (a.requests.filter fun p => p.id ∉ ps.map (·.id)) =
      a.requests.filter fun p => p ∉ ps := by
    apply List.filter_congr
    intro p hp
    -- a request in flight is told by its identity
    have hiff : p.id ∈ ps.map (·.id) ↔ p ∈ ps := by
      constructor
      · intro hmem
        obtain ⟨q, hq, hid⟩ := List.mem_map.mp hmem
        rw [← hwf.request_inj (hin q hq) hp hid]
        exact hq
      · intro hmem
        exact List.mem_map_of_mem hmem
    simp only [hiff]
  rw [← hevents, hrun, App.hear_none, hkept]

/-- Two logins get no response, the later one first. -/
theorem lost_responses_logins :
    App.twoLogins.run epochEnvironment [.deliver 1 none, .deliver 0 none] =
      some { App.twoLogins with requests := [] } := by
  have hreach := (App.trace_twoLogins epochEnvironment).reachable
  exact @lost_responses _ _ _ hreach
    [⟨1, .loginUser App.secondUser 0, RequesterURL.loginUser App.secondUser⟩,
      ⟨0, .loginUser App.firstUser 0, RequesterURL.loginUser App.firstUser⟩] (by decide) (by decide)

end TimeManager
