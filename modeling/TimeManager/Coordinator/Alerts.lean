import TimeManager.Coordinator.Replies

/-! # What the User Is Told

    The app reports with alerts.  An alert is due where a response is a
    refusal (`Call.refusal`) and the screen that sent the request is still
    there, and where a task is deleted that the server does not know.  In
    every run these are the alerts there are, in their order: none is
    missing, none comes twice, and nothing else is reported
    (`alerts_are_refusals`). -/

namespace TimeManager

open Lts RequesterURL

/-! ## Section 1: Refusals -/

/-- The alert that a response calls for: a login response without a token, a
    list for `getFirstTasks` without tasks or meta data, and a response to a
    write that has a message. -/
def Call.refusal (env : Environment) (body : Option (List UInt8)) : Call → Option Alert
  | .loginUser _ vc => do
    let result ← body.bind env.decoder.loginResultData
    if result.token.isSome then none else some ⟨vc, "Error in the fields", result.message⟩
  | .getTaskList _ (.firstTasks vc) => do
    let list ← body.bind env.decoder.taskList
    if list.tasks.isSome ∧ list.meta.isSome then none
    else some ⟨vc, "Error in the result", some (list.message.getD "")⟩
  -- the other callers have no error closure
  | .getTaskList _ (.nextTask _) => none
  | .getTaskList _ .coordinator => none
  | .deleteTask _ vc => do
    let list ← body.bind env.decoder.taskList
    list.message.map fun message => ⟨vc, "Error in deleting", some message⟩
  | .updateTask _ vc => do
    let data ← body
    -- two bytes are a success, whatever they are
    if data.length = 2 then none
    else
      let detail ← env.decoder.taskDetail data
      detail.message.map fun message => ⟨vc, "Error in deleting", some message⟩
  | .createTask _ vc => do
    let detail ← body.bind env.decoder.taskDetail
    detail.message.map fun message => ⟨vc, "Error in deleting", some message⟩

/-- The error closures are called with the refusal, if there is one. -/
theorem Call.errors_eq (env : Environment) (body : Option (List UInt8)) (call : Call) :
    call.errors env body = (call.refusal env body).toList := by
  cases body with
  | none =>
    cases call with
    | getTaskList request caller => cases caller <;> rfl
    | _ => rfl
  | some data =>
    cases call with
    | loginUser user vc =>
      cases hdec : env.decoder.loginResultData data with
      | none => simp [errors, refusal, loginUserResponse, Payload.read, hdec]
      | some result =>
        cases htoken : result.token <;>
          simp [errors, refusal, loginUserResponse, Payload.read, hdec, htoken, Completion.error?]
    | getTaskList request caller =>
      cases caller with
      | coordinator => rfl
      | nextTask vc => rfl
      | firstTasks vc =>
        cases hdec : env.decoder.taskList data with
        | none => simp [errors, refusal, getTaskListResponse, Payload.read, hdec]
        | some list =>
          cases htasks : list.tasks <;> cases hmeta : list.meta <;>
            simp [errors, refusal, getTaskListResponse, Payload.read, hdec, htasks, hmeta,
              Completion.error?]
    | deleteTask id vc =>
      by_cases hlen : data.length = 2 <;> cases hdec : env.decoder.taskList data with
      | none => simp [errors, refusal, outcomes, deleteTaskResponse, Payload.read, hlen, hdec,
          Completion.outcome, Completion.error?]
      | some list =>
        cases hmessage : list.message <;>
          simp [errors, refusal, outcomes, deleteTaskResponse, Payload.read, hlen, hdec, hmessage,
            Completion.outcome, Completion.error?]
    | updateTask task vc =>
      by_cases hlen : data.length = 2
      · simp [errors, refusal, outcomes, updateTaskResponse, Payload.read, hlen,
          Completion.outcome, Completion.error?]
      · cases hdec : env.decoder.taskDetail data with
        | none => simp [errors, refusal, outcomes, updateTaskResponse, Payload.read, hlen, hdec]
        | some detail =>
          cases hmessage : detail.message <;>
            simp [errors, refusal, outcomes, updateTaskResponse, taskDetailResult, Payload.read,
              hlen, hdec, hmessage, Completion.outcome, Completion.error?]
    | createTask task vc =>
      cases hdec : env.decoder.taskDetail data with
      | none => simp [errors, refusal, outcomes, createTaskResponse, Payload.read, hdec]
      | some detail =>
        cases hmessage : detail.message <;>
          simp [errors, refusal, outcomes, createTaskResponse, taskDetailResult, Payload.read,
            hdec, hmessage, Completion.outcome, Completion.error?]

/-- A delete of this screen's task is refused without asking the server. -/
def Screen.isUnsaved : Screen → Bool
  | .taskDetail data => data.isNone
  | .taskEdit view => view.data.isNone
  | _ => false

namespace App

/-- The alert that an event calls for. -/
def alertDue (env : Environment) (a : App) : Event → Option Alert
  | .deliver id body => do
    let p ← a.requests.find? fun p => p.id = id
    (p.call.refusal env body).filter fun alert => a.isLive alert.vc
  | .deleteEventPressed => do
    let v ← a.topViewController
    if v.screen.isUnsaved then some ⟨v.id, "Error in deleting", notSaved.message⟩ else none
  | _ => none

variable {env : Environment} {userToken : Option String} {a b : App} {body : Option (List UInt8)}

/-! ## Section 2: What is presented -/

@[simp] theorem presented_warn (a : App) (alerts : List Alert) :
    (a.warn alerts).presented = a.presented ++ alerts.filter fun alert => a.isLive alert.vc := rfl

@[simp] theorem presented_send (a : App) (call : Call) : (a.send call).presented = a.presented :=
  rfl

@[simp] theorem presented_updateScreen (a : App) (vc : Nat) (f : Screen → Screen) :
    (a.updateScreen vc f).presented = a.presented := rfl

@[simp] theorem presented_logInPressed (a : App) (vc : Nat) (user : LoginData) :
    (a.logInPressed vc user).presented = a.presented := rfl

@[simp] theorem presented_back (a : App) : a.back.presented = a.presented := by
  unfold back popViewController
  split <;> rfl

@[simp] theorem presented_saveTask (a : App) (vc : Nat) (task : TaskData) :
    (a.saveTask vc task).presented = a.presented := by
  unfold saveTask
  split <;> rfl

@[simp] theorem presented_jumpToScreen (a : App) (target : AvailableScreens) :
    (a.jumpToScreen target).presented = a.presented := by
  rcases a.jumpToScreen_cases target with ⟨screen, -, -, heq⟩ | ⟨list, -, heq⟩ <;>
    · rw [heq]
      rfl

@[simp] theorem presented_refresh (a : App) (vc : Nat) :
    (a.refresh vc).presented = a.presented := by
  unfold refresh
  split
  · exact presented_jumpToScreen a _
  · rfl

/-- A refresh leaves the screen that caused it, if it is there. -/
theorem isLive_refresh (a : App) (vc : Nat) : (a.refresh vc).isLive vc = a.isLive vc := by
  unfold refresh
  split
  · next hlive => rw [hlive, (extends_jumpToScreen a (.taskList none)).isLive hlive]
  · rfl

/-- The error closures of a write present their alerts, refreshed or not. -/
theorem presented_foldl_written (vc : Nat) (cs : List (Completion Unit (Option String))) :
    (cs.foldl (written vc) a).presented = a.presented ++
      if a.isLive vc then cs.filterMap fun c =>
        c.error?.map fun message => ⟨vc, "Error in deleting", message⟩
      else [] := by
  induction cs generalizing a with
  | nil => simp
  | cons c cs ih =>
    rw [List.foldl_cons, ih]
    cases c with
    | toDoIfSuccess result =>
      show (a.refresh vc).presented ++ (if (a.refresh vc).isLive vc then _ else _) = _
      rw [presented_refresh, isLive_refresh]
      rfl
    | toDoIfError message =>
      show (a.presentAlert vc "Error in deleting" message).presented ++
        (if (a.presentAlert vc "Error in deleting" message).isLive vc then _ else _) = _
      rw [presentAlert_eq]
      show a.presented ++ [_].filter _ ++ (if a.isLive vc then _ else _) = _
      by_cases hlive : a.isLive vc <;> simp [hlive, Completion.error?]

/-- Alerts that are all for one screen. -/
theorem filter_isLive {vc : Nat} {alerts : List Alert} (h : ∀ alert ∈ alerts, alert.vc = vc) :
    alerts.filter (fun alert => a.isLive alert.vc) = if a.isLive vc then alerts else [] := by
  split
  · next hlive =>
    rw [List.filter_eq_self]
    intro alert halert
    rw [h alert halert, hlive]
  · next hlive =>
    rw [List.filter_eq_nil_iff]
    intro alert halert
    rwa [h alert halert]

theorem presented_write {call : Call} {vc : Nat} (hwriter : call.writer = some vc)
    (herrors : call.errors env body = (call.outcomes env body).filterMap fun c =>
      c.error?.map fun message => ⟨vc, "Error in deleting", message⟩) :
    (a.respond env call body).presented =
      a.presented ++ (call.errors env body).filter fun alert => a.isLive alert.vc := by
  have hvc : ∀ alert ∈ call.errors env body, alert.vc = vc := by
    intro alert halert
    rw [herrors, List.mem_filterMap] at halert
    obtain ⟨c, -, hc⟩ := halert
    obtain ⟨message, -, rfl⟩ := Option.map_eq_some_iff.mp hc
    rfl
  rw [filter_isLive hvc, herrors, respond_write hwriter, presented_foldl_written]

/-- A response presents the alerts of its errors on those screens that are there. -/
theorem presented_respond (env : Environment) (a : App) (call : Call)
    (body : Option (List UInt8)) : (a.respond env call body).presented =
      a.presented ++ (call.errors env body).filter fun alert => a.isLive alert.vc := by
  cases call with
  | deleteTask id vc => exact presented_write rfl rfl
  | updateTask task vc => exact presented_write rfl rfl
  | createTask task vc => exact presented_write rfl rfl
  | loginUser user vc =>
    cases body with
    | none => simp [respond, Call.errors, loginUserResponse]
    | some data =>
      cases hdec : env.decoder.loginResultData data with
      | none => simp [respond, Call.errors, loginUserResponse, Payload.read, hdec]
      | some result =>
        cases htoken : result.token with
        | none =>
          simp [respond, Call.errors, loginUserResponse, Payload.read, hdec, htoken,
            loginCompletion, presentAlert_eq, Completion.error?]
          rfl
        | some token =>
          simp [respond, Call.errors, loginUserResponse, Payload.read, hdec, htoken,
            loginCompletion, Completion.error?]
          split <;> rfl
  | getTaskList request caller =>
    have hrespond : a.respond env (.getTaskList request caller) body =
      (getTaskListResponse (body.map (Payload.read env.decoder.taskList))).foldl
        (listCompletion env caller) a := rfl
    rw [hrespond]
    rcases getTaskListResponse_cases (body.map (Payload.read env.decoder.taskList)) with
      ⟨heq, -⟩ | ⟨_, result, -, -, ⟨-, -, list, heq⟩ | ⟨-, heq⟩⟩
    all_goals
      cases caller <;>
        simp [heq, Call.errors, listCompletion, presentAlert_eq, Completion.error?]

/-- A delete is refused at once where there is no id to delete. -/
theorem presented_deleteTask {vc : Nat} (hlive : a.isLive vc) (data : Option InternalTaskData) :
    (a.deleteTask vc (data.map (·.id))).presented = a.presented ++
      if data.isNone then [⟨vc, "Error in deleting", notSaved.message⟩] else [] := by
  cases data with
  | none =>
    show (a.presentAlert vc "Error in deleting" notSaved.message).presented = _
    rw [presentAlert_eq, presented_warn]
    simp [hlive]
  | some data => exact (List.append_nil _).symm

theorem alertDue_delete {v : ViewController} (htop : a.topViewController = some v) :
    (a.alertDue env .deleteEventPressed).toList =
      if v.screen.isUnsaved then [⟨v.id, "Error in deleting", notSaved.message⟩] else [] := by
  simp only [alertDue, htop, Option.bind_eq_bind, Option.bind_some]
  split <;> rfl

theorem presented_tap {e : Event} {v : ViewController} (htop : a.topViewController = some v)
    (htap : a.tap v.id v.screen e = some b) :
    b.presented = a.presented ++ (a.alertDue env e).toList := by
  have hlive : a.isLive v.id := List.any_eq_true.mpr ⟨v, List.mem_of_getLast? htop, by simp⟩
  unfold tap at htap
  split at htap
  -- a delete, on the detail screen and on the edit screen
  case h_8 data heq =>
    obtain rfl := Option.some.inj htap
    rw [presented_deleteTask hlive, alertDue_delete htop, heq]
    rfl
  case h_10 view heq =>
    obtain rfl := Option.some.inj htap
    rw [presented_deleteTask hlive, alertDue_delete htop, heq]
    rfl
  -- no other tap presents an alert
  case h_3 =>
    obtain ⟨data, -, rfl⟩ := Option.map_eq_some_iff.mp htap
    simp [alertDue]
  case h_12 =>
    split at htap
    · obtain rfl := Option.some.inj htap
      simp [alertDue]
    · obtain rfl := Option.some.inj htap
      simp [alertDue]
  case h_13 => cases htap
  all_goals
    obtain rfl := Option.some.inj htap
    simp [alertDue]

/-- **Step lemma**: an event presents the alert that is due. -/
theorem step_presented {e : Event} (hstep : a.step env e = some b) :
    b.presented = a.presented ++ (a.alertDue env e).toList := by
  cases e with
  | deliver id body =>
    simp only [step] at hstep
    cases hp : a.requests.find? fun p => p.id = id with
    | none =>
      rw [hp] at hstep
      cases hstep
    | some p =>
      rw [hp] at hstep
      obtain rfl := Option.some.inj hstep
      have hdue : a.alertDue env (.deliver id body) =
          (p.call.refusal env body).filter fun alert => a.isLive alert.vc := by
        simp only [alertDue, hp]
        rfl
      rw [presented_respond, Call.errors_eq, hdue]
      cases p.call.refusal env body with
      | none => rfl
      | some alert =>
        show a.presented ++ [alert].filter (fun alert => a.isLive alert.vc) = _
        by_cases hlive : a.isLive alert.vc <;> simp [Option.filter, hlive]
  | willDisplay w row =>
    rw [step_willDisplay_eq] at hstep
    obtain ⟨model, -, hstep⟩ := Option.bind_eq_some_iff.mp hstep
    have hsame : b.presented = a.presented := by
      split at hstep
      · split at hstep
        · next request _ =>
          obtain rfl := Option.some.inj hstep
          cases request <;> rfl
        · cases hstep
      · cases hstep
    rw [hsame]
    exact (List.append_nil _).symm
  | _ =>
    simp only [step] at hstep
    split at hstep
    · next v htop => exact presented_tap htop hstep
    · cases hstep

end App

/-! ## Section 3: Runs -/

/-- **Alerts.**  In every run of the app the alerts that have been presented
    are those that were due, in their order: one for each refusal that came
    for a screen still there, with its message, and one for each delete of a
    task the server does not know. -/
theorem alerts_are_refusals {env : Environment} {userToken : Option String}
    {tr : List (App × App.Event)} {a : App} (h : (appSystem env userToken).Trace tr a) :
    a.presented = tr.reverse.filterMap fun x => x.1.alertDue env x.2 := by
  induction h with
  | init hstart =>
    have hstart : _ = App.start userToken := hstart
    rw [hstart]
    rfl
  | step _ hstep ih =>
    rw [App.step_presented hstep, ih, List.reverse_cons, List.filterMap_append]
    rfl

/-- A login that is refused without a message. -/
theorem alerts_are_refusals_login :
    ∃ tr a, (appSystem epochEnvironment (some "old")).Trace tr a ∧
      a.presented = [⟨0, "Error in the fields", none⟩] := by
  have hdeliver : ∃ a, App.loginOverToken.step epochEnvironment (.deliver 0 (utf8 "\x7b\x7d")) =
      some a :=
    ⟨_, rfl⟩
  obtain ⟨a, hstep⟩ := hdeliver
  have htr := System.Trace.step (App.trace_loginOverToken epochEnvironment) hstep
  refine ⟨_, a, htr, ?_⟩
  rw [alerts_are_refusals htr]
  decide +kernel

end TimeManager
