import TimeManager.Coordinator.App

/-! # What an Event Does

    Every event changes the app in one of a few ways (`App.Effect`): it lets
    the app grow, it sends one request, it fills the list that asked for a page, it
    changes the form, or it goes back.
    `App.step_effect` is the one place where `App.step` is taken apart; the
    invariants of the app are derived from it. -/

namespace TimeManager

open Checked RequesterURL

/-- The screen is of the kind that the view controller was made for, and made
    from the same payload. -/
def ViewController.Matches (v : ViewController) : Prop :=
  match v.madeFrom, v.screen with
  | .login, .login _ => True
  | .taskList _, .taskList _ => True
  | .taskDetail data, .taskDetail shown => shown = data
  | .taskEdit data, .taskEdit view => view.data = data
  | _, _ => False

/-- The screen that called `getTaskList`, if it was one. -/
def ListCaller.screen : ListCaller → Option Nat
  | .coordinator => none
  | .firstTasks vc => some vc
  | .nextTask vc => some vc

namespace App

/-! ## Section 1: Growth -/

/-- A new screen, on the record and on the stack. -/
def push (a : App) (target : AvailableScreens) (screen : Screen) : App :=
  { a with
    navigationScreens := a.navigationScreens ++ [target]
    viewControllers := a.viewControllers ++ [⟨a.nextScreen, target, screen⟩]
    nextScreen := a.nextScreen + 1 }

/-- An alert. -/
def alert (a : App) (shown : Alert) : App :=
  { a with presented := a.presented ++ [shown] }

/-- What the app can do on its own: screens are opened and alerts are
    presented. -/
inductive Grows (a : App) : App → Prop where
  | refl : Grows a a
  | jump {b} (target : AvailableScreens) : Grows a b → Grows a (b.jumpToScreen target)
  | alert {b} (shown : Alert) : Grows a b → Grows a (b.alert shown)

/-- The model of a new list screen: it is empty. -/
def newTaskList (list : Option TaskList) : TaskListModel :=
  ((TaskListModel.ofList list).setSeekParameters 1 .title true).reset

/-- A new list screen asks for its first tasks. -/
theorem makeTaskList_eq (a : App) (list : Option TaskList) :
    a.makeTaskList list =
      (a.send (.getTaskList ⟨1, .title, true⟩ (.firstTasks a.nextScreen))).push (.taskList list)
        (.taskList (newTaskList list)) := by
  rw [makeTaskList, TaskListModel.getFirstTasks_eq]
  rfl

/-- Opening a screen pushes it, and a list screen sends its first request. -/
theorem jumpToScreen_cases (a : App) (target : AvailableScreens) :
    (∃ screen, (ViewController.mk a.nextScreen target screen).Matches ∧
      (∀ model, screen ≠ .taskList model) ∧ a.jumpToScreen target = a.push target screen) ∨
    ∃ list, target = .taskList list ∧ a.jumpToScreen target =
      (a.send (.getTaskList ⟨1, .title, true⟩ (.firstTasks a.nextScreen))).push target
        (.taskList (newTaskList list)) := by
  cases target with
  | login =>
    left
    exact ⟨.login LoginMainView.fromStoryboard, trivial, by simp, rfl⟩
  | taskList list =>
    right
    exact ⟨list, rfl, a.makeTaskList_eq list⟩
  | taskDetail data =>
    left
    exact ⟨.taskDetail data, rfl, by simp, rfl⟩
  | taskEdit data =>
    left
    exact ⟨.taskEdit (TaskEditMainView.setData data), rfl, by simp, rfl⟩

theorem Grows.presentAlert {a b : App} (vc : Nat) (title : String) (message : Option String)
    (h : Grows a b) : Grows a (b.presentAlert vc title message) := by
  unfold App.presentAlert
  by_cases hlive : b.isLive vc
  · rw [if_pos hlive]
    exact .alert _ h
  · rw [if_neg hlive]
    exact h

theorem Grows.refresh {a b : App} (vc : Nat) (h : Grows a b) : Grows a (b.refresh vc) := by
  unfold App.refresh
  by_cases hlive : b.isLive vc
  · rw [if_pos hlive]
    exact .jump _ h
  · rw [if_neg hlive]
    exact h

theorem nextRequest_jumpToScreen (a : App) (target : AvailableScreens) :
    a.nextRequest ≤ (a.jumpToScreen target).nextRequest := by
  rcases a.jumpToScreen_cases target with ⟨screen, _, _, heq⟩ | ⟨list, _, heq⟩
  · rw [heq]
    exact Nat.le_refl _
  · rw [heq]
    exact Nat.le_succ _

theorem userToken_jumpToScreen (a : App) (target : AvailableScreens) :
    (a.jumpToScreen target).userToken = a.userToken := by
  rcases a.jumpToScreen_cases target with ⟨screen, _, _, heq⟩ | ⟨list, _, heq⟩
  · rw [heq]
    rfl
  · rw [heq]
    rfl

theorem Grows.nextRequest {a b : App} (h : Grows a b) : a.nextRequest ≤ b.nextRequest := by
  induction h with
  | refl => exact Nat.le_refl _
  | jump target _ ih => exact Nat.le_trans ih (nextRequest_jumpToScreen _ target)
  | alert shown _ ih => exact ih

/-- Growing sends first requests of list screens only. -/
theorem Grows.requests {a b : App} (h : Grows a b) {p : Pending} (hp : p ∈ b.requests) :
    p ∈ a.requests ∨
      (a.nextRequest ≤ p.id ∧ ∃ request vc, p.call = .getTaskList request (.firstTasks vc)) := by
  induction h with
  | refl => exact .inl hp
  | @jump b target hgrows ih =>
    rcases b.jumpToScreen_cases target with ⟨screen, _, _, heq⟩ | ⟨list, _, heq⟩
    · rw [heq] at hp
      exact ih hp
    · rw [heq] at hp
      rcases List.mem_append.mp hp with hp | hp
      · exact ih hp
      · -- the request of the new list screen
        rw [List.mem_singleton.mp hp]
        exact .inr ⟨hgrows.nextRequest, _, _, rfl⟩
  | alert shown _ ih => exact ih hp

/-! ## Section 2: The closures grow the app -/

theorem Grows.deleteCompletion {a b : App} (vc : Nat) (c : Completion Unit TaskList)
    (h : Grows a b) : Grows a (b.deleteCompletion vc c) := by
  cases c with
  | toDoIfSuccess => exact h.refresh vc
  | toDoIfError list => exact h.presentAlert _ _ _

theorem Grows.saveCompletion {a b : App} (vc : Nat) (c : Completion TaskDetail TaskDetail)
    (h : Grows a b) : Grows a (b.saveCompletion vc c) := by
  cases c with
  | toDoIfSuccess detail => exact h.refresh vc
  | toDoIfError detail => exact h.presentAlert _ _ _

/-- Completions that each let the app grow let it grow together. -/
theorem Grows.foldl {γ : Type} {a b : App} {complete : App → γ → App}
    (hc : ∀ b c, Grows a b → Grows a (complete b c)) (cs : List γ) (h : Grows a b) :
    Grows a (cs.foldl complete b) := by
  induction cs generalizing b with
  | nil => exact h
  | cons c cs ih => exact ih (hc b c h)

/-! ## Section 3: Responses -/

/-- The token stored after a response. -/
def tokenAfter (env : Environment) (userToken : Option String) (body : Option (List UInt8)) :
    Call → Option String
  | .loginUser _ _ =>
    (loginUserResponse userToken (body.map (Payload.read env.decoder.loginResultData))).1
  | _ => userToken

/-- The app once the request `id` no longer waits and the token is stored,
    before any closure is called. -/
def answered (env : Environment) (a : App) (p : Pending) (body : Option (List UInt8)) : App :=
  { a.dropRequest p.id with userToken := tokenAfter env a.userToken body p.call }

/-- All that `loginUser` can do with a response. -/
theorem loginUserResponse_cases (userToken : Option String)
    (response : Option (Payload LoginResultData)) :
    (loginUserResponse userToken response = (userToken, []) ∧
      ∀ data, response = some data → data.decoded = none) ∨
    ∃ data result, response = some data ∧ data.decoded = some result ∧
      ((∃ token, result.token = some token ∧
          loginUserResponse userToken response = (some token, [.toDoIfSuccess result])) ∨
        (result.token = none ∧
          loginUserResponse userToken response = (none, [.toDoIfError result]))) := by
  cases response with
  | none => exact .inl ⟨rfl, by intro data h; cases h⟩
  | some data =>
    cases hdec : data.decoded with
    | none =>
      left
      refine ⟨by simp [loginUserResponse, hdec], ?_⟩
      intro data' h
      obtain rfl := Option.some.inj h
      exact hdec
    | some result =>
      right
      refine ⟨data, result, rfl, hdec, ?_⟩
      cases htoken : result.token with
      | some token => exact .inl ⟨token, rfl, by simp [loginUserResponse, hdec, htoken]⟩
      | none => exact .inr ⟨rfl, by simp [loginUserResponse, hdec, htoken]⟩

/-- A list response completes once if it decodes, and how is decided by its
    tasks and meta data. -/
theorem getTaskListResponse_cases (response : Option (Payload TaskList)) :
    (getTaskListResponse response = [] ∧
      ∀ data, response = some data → data.decoded = none) ∨
    ∃ data result, response = some data ∧ data.decoded = some result ∧
      ((result.tasks.isSome ∧ result.meta.isSome ∧
          ∃ list, getTaskListResponse response = [.toDoIfSuccess list]) ∨
        (¬ (result.tasks.isSome ∧ result.meta.isSome) ∧
          getTaskListResponse response = [.toDoIfError result])) := by
  cases response with
  | none => exact .inl ⟨rfl, by intro data h; cases h⟩
  | some data =>
    cases hdec : data.decoded with
    | none =>
      left
      refine ⟨by simp [getTaskListResponse, hdec], ?_⟩
      intro data' h
      obtain rfl := Option.some.inj h
      exact hdec
    | some result =>
      right
      refine ⟨data, result, rfl, hdec, ?_⟩
      cases htasks : result.tasks with
      | none =>
        right
        cases hmeta : result.meta <;> simp [getTaskListResponse, hdec, htasks, hmeta]
      | some tasks =>
        cases hmeta : result.meta with
        | none =>
          right
          simp [getTaskListResponse, hdec, hmeta]
        | some page =>
          left
          simp [getTaskListResponse, hdec, htasks, hmeta]

/-! ## Section 4: Events -/

/-- Whether the response to a call fills the list of a screen. -/
def Fills (env : Environment) (body : Option (List UInt8)) : Call → Prop
  | .getTaskList _ caller => caller.screen.isSome ∧ ∃ list,
      getTaskListResponse (body.map (Payload.read env.decoder.taskList)) = [.toDoIfSuccess list]
  | _ => False

/-- The events that are not at a login form, not a step back and not a
    response. -/
def Event.isMinor : Event → Bool
  | .typeLogin _ => false
  | .logInPressed _ => false
  | .backPressed => false
  | .deliver _ _ => false
  | _ => true

/-- Everything an event can do. -/
inductive Effect (env : Environment) (a : App) : Event → App → Prop where
  /-- A tap, or a displayed row, that sends nothing of its own. -/
  | grows {e b} : e.isMinor → Grows a b → Effect env a e b
  | typed {user v} : a.topViewController = some v →
      Effect env a (.typeLogin user) (a.updateScreen v.id (Screen.fillIn user))
  | login {user v} : a.topViewController = some v →
      Effect env a (.logInPressed user) (a.logInPressed v.id user)
  | more {vc row request v model} : a.viewControllers.find? (fun v => v.id = vc) = some v →
      v.screen = .taskList model → row < model.data.length →
      model.willDisplay row = .ok (some request) →
      Effect env a (.willDisplay vc row) (a.send (.getTaskList request (.nextTask vc)))
  | delete {id v} : a.topViewController = some v →
      Effect env a .deleteEventPressed (a.send (.deleteTask id v.id))
  | save {now v view task} : a.topViewController = some v → v.screen = .taskEdit view →
      view.saveEventPressed now = some task →
      Effect env a (.saveEventPressed now) (a.saveTask v.id task)
  | form {action v view} : a.topViewController = some v → v.screen = .taskEdit view →
      Effect env a (.form action) (a.updateScreen v.id (Screen.act action))
  | back {v} : a.topViewController = some v →
      ((∃ data, v.screen = .taskDetail data) ∨ ∃ view, v.screen = .taskEdit view) →
      Effect env a .backPressed a.back
  /-- A response that fills no list, and its closures. -/
  | deliver {id body p b} : a.requests.find? (fun q => q.id = id) = some p →
      ¬ Fills env body p.call → Grows (a.answered env p body) b →
      Effect env a (.deliver id body) b
  /-- A response that fills the list of the screen that asked for it. -/
  | load {id body p request caller vc list} :
      a.requests.find? (fun q => q.id = id) = some p →
      p.call = .getTaskList request caller → caller.screen = some vc →
      getTaskListResponse (body.map (Payload.read env.decoder.taskList)) = [.toDoIfSuccess list] →
      Effect env a (.deliver id body) ((a.answered env p body).updateScreen vc
        (Screen.updateModel (·.successAll env.dates list)))
  /-- A successful login: the coordinator asks for the list. -/
  | session {id body p user vc result token} : a.requests.find? (fun q => q.id = id) = some p →
      p.call = .loginUser user vc → body.bind env.decoder.loginResultData = some result →
      result.token = some token →
      Effect env a (.deliver id body)
        ((a.answered env p body).send (.getTaskList ⟨1, .title, true⟩ .coordinator))

theorem not_fills {env : Environment} {body : Option (List UInt8)} {call : Call}
    (h : ∀ request caller, call ≠ .getTaskList request caller) : ¬ Fills env body call := by
  cases call with
  | getTaskList request caller => exact absurd rfl (h request caller)
  | _ => exact not_false

/-- A list response that is no success fills no list. -/
theorem not_fills_of_response {env : Environment} {body : Option (List UInt8)}
    {request : ListRequest} {caller : ListCaller}
    (h : ∀ list, getTaskListResponse (body.map (Payload.read env.decoder.taskList)) ≠
      [.toDoIfSuccess list]) : ¬ Fills env body (.getTaskList request caller) := by
  rintro ⟨_, list, hlist⟩
  exact h list hlist

/-- Only the response to a login touches the token. -/
theorem answered_eq {env : Environment} {a : App} {p : Pending} {body : Option (List UInt8)}
    (h : ∀ user vc, p.call ≠ .loginUser user vc) : a.answered env p body = a.dropRequest p.id := by
  unfold answered
  cases hcall : p.call with
  | loginUser user vc => exact absurd hcall (h user vc)
  | _ => rfl

/-- The response to a list request. -/
theorem getTaskList_effect {env : Environment} {a : App} {p : Pending}
    {body : Option (List UInt8)} {request : ListRequest} {caller : ListCaller} {id : Nat}
    (hp : a.requests.find? (fun q => q.id = id) = some p)
    (hcall : p.call = .getTaskList request caller) :
    Effect env a (.deliver id body) ((a.answered env p body).respond env p.call body) := by
  have hresponse : (a.answered env p body).respond env p.call body =
      (getTaskListResponse (body.map (Payload.read env.decoder.taskList))).foldl
        (listCompletion env caller) (a.answered env p body) := by
    rw [hcall]
    rfl
  rw [hresponse]
  rcases getTaskListResponse_cases (body.map (Payload.read env.decoder.taskList)) with
    ⟨heq, _⟩ | ⟨data, result, _, _, ⟨_, _, list, heq⟩ | ⟨_, heq⟩⟩
  · -- no body, or one that does not decode: no closure is called
    have hfills : ¬ Fills env body p.call := by
      rw [hcall]
      exact not_fills_of_response (by simp [heq])
    rw [heq]
    exact .deliver hp hfills .refl
  · -- a success: the coordinator opens a screen, a list screen is filled
    rw [heq]
    cases caller with
    | coordinator =>
      have hfills : ¬ Fills env body p.call := by
        rw [hcall]
        rintro ⟨hscreen, _⟩
        cases hscreen
      exact .deliver hp hfills (.jump (.taskList (some list)) .refl)
    | firstTasks vc => exact .load hp hcall rfl heq
    | nextTask vc => exact .load hp hcall rfl heq
  · -- an error: only the first request of a screen has a closure
    have hfills : ¬ Fills env body p.call := by
      rw [hcall]
      exact not_fills_of_response (by simp [heq])
    rw [heq]
    cases caller with
    | coordinator => exact .deliver hp hfills .refl
    | firstTasks vc => exact .deliver hp hfills (Grows.presentAlert _ _ _ .refl)
    | nextTask vc => exact .deliver hp hfills .refl

/-- The response to a login. -/
theorem loginUser_effect {env : Environment} {a : App} {p : Pending}
    {body : Option (List UInt8)} {user : LoginData} {vc id : Nat}
    (hp : a.requests.find? (fun q => q.id = id) = some p) (hcall : p.call = .loginUser user vc) :
    Effect env a (.deliver id body) ((a.dropRequest p.id).respond env p.call body) := by
  have hfills : ¬ Fills env body p.call := not_fills (by simp [hcall])
  have hresponse : (a.dropRequest p.id).respond env p.call body =
      (loginUserResponse a.userToken (body.map (Payload.read env.decoder.loginResultData))).2.foldl
        (loginCompletion vc) (a.answered env p body) := by
    rw [hcall]
    simp only [respond, answered, tokenAfter, dropRequest_userToken, hcall]
  rw [hresponse]
  rcases loginUserResponse_cases a.userToken
      (body.map (Payload.read env.decoder.loginResultData)) with
    ⟨heq, -⟩ | ⟨data, result, hdata, hdec, ⟨token, htoken, heq⟩ | ⟨-, heq⟩⟩
  · rw [heq]
    exact .deliver hp hfills .refl
  · -- a success: the coordinator asks, if the login screen is there
    obtain ⟨bytes, rfl, rfl⟩ := Option.map_eq_some_iff.mp hdata
    rw [heq]
    by_cases hlive : (a.answered env p (some bytes)).isLive vc
    · have hsend : loginCompletion vc (a.answered env p (some bytes)) (.toDoIfSuccess result) =
          (a.answered env p (some bytes)).send (.getTaskList ⟨1, .title, true⟩ .coordinator) :=
        if_pos hlive
      show Effect env a _ (loginCompletion vc _ (.toDoIfSuccess result))
      rw [hsend]
      exact .session hp hcall hdec htoken
    · have hsame : loginCompletion vc (a.answered env p (some bytes)) (.toDoIfSuccess result) =
          a.answered env p (some bytes) := if_neg hlive
      show Effect env a _ (loginCompletion vc _ (.toDoIfSuccess result))
      rw [hsame]
      exact .deliver hp hfills .refl
  · rw [heq]
    exact .deliver hp hfills (Grows.presentAlert _ _ _ .refl)

/-- The response to any request. -/
theorem respond_effect {env : Environment} {a : App} {p : Pending} {body : Option (List UInt8)}
    {id : Nat} (hp : a.requests.find? (fun q => q.id = id) = some p) :
    Effect env a (.deliver id body) ((a.dropRequest p.id).respond env p.call body) := by
  cases hcall : p.call with
  | loginUser user vc =>
    rw [← hcall]
    exact loginUser_effect hp hcall
  | getTaskList request caller =>
    rw [← hcall, ← @answered_eq env a p body (by simp [hcall])]
    exact getTaskList_effect hp hcall
  | deleteTask taskID vc =>
    apply Effect.deliver hp (not_fills (by simp [hcall]))
    rw [answered_eq (by simp [hcall])]
    exact Grows.foldl (fun _ c hb => hb.deleteCompletion vc c) _ .refl
  | updateTask task vc =>
    apply Effect.deliver hp (not_fills (by simp [hcall]))
    rw [answered_eq (by simp [hcall])]
    exact Grows.foldl (fun _ c hb => hb.saveCompletion vc c) _ .refl
  | createTask task vc =>
    apply Effect.deliver hp (not_fills (by simp [hcall]))
    rw [answered_eq (by simp [hcall])]
    exact Grows.foldl (fun _ c hb => hb.saveCompletion vc c) _ .refl

theorem deleteTask_effect {env : Environment} {a : App} {v : ViewController} (id : Option Int)
    (htop : a.topViewController = some v) :
    Effect env a .deleteEventPressed (a.deleteTask v.id id) := by
  cases id with
  | none =>
    apply Effect.grows
    · rfl
    · exact Grows.deleteCompletion v.id (.toDoIfError notSaved) .refl
  | some id => exact .delete htop

theorem tap_effect {env : Environment} {a b : App} {v : ViewController} {e : Event}
    (htop : a.topViewController = some v) (h : a.tap v.id v.screen e = some b) :
    Effect env a e b := by
  unfold tap at h
  split at h
  · -- the login form
    obtain rfl := Option.some.inj h
    exact .typed htop
  · -- the login button
    obtain rfl := Option.some.inj h
    exact .login htop
  · -- the info button of a row
    obtain ⟨data, -, rfl⟩ := Option.map_eq_some_iff.mp h
    exact .grows rfl (Grows.jump _ .refl)
  · -- the sort button
    obtain rfl := Option.some.inj h
    exact .grows rfl (Grows.jump _ .refl)
  · -- the button for a new task
    obtain rfl := Option.some.inj h
    exact .grows rfl (Grows.jump _ .refl)
  · next data hscreen =>
    -- back from a detail screen
    obtain rfl := Option.some.inj h
    exact .back htop (.inl ⟨data, hscreen⟩)
  · -- the edit button
    obtain rfl := Option.some.inj h
    exact .grows rfl (Grows.jump _ .refl)
  · -- delete on a detail screen
    obtain rfl := Option.some.inj h
    exact deleteTask_effect _ htop
  · next view hscreen =>
    -- back from an edit screen
    obtain rfl := Option.some.inj h
    exact .back htop (.inr ⟨view, hscreen⟩)
  · -- delete on an edit screen
    obtain rfl := Option.some.inj h
    exact deleteTask_effect _ htop
  · next view action hscreen =>
    obtain rfl := Option.some.inj h
    exact .form htop hscreen
  · next view now hscreen =>
    -- the save button, which does nothing while the title is empty
    split at h
    · next task htask =>
      obtain rfl := Option.some.inj h
      exact .save htop hscreen htask
    · obtain rfl := Option.some.inj h
      exact .grows rfl .refl
  · cases h

/-- **Every event has one of the effects.** -/
theorem step_effect {env : Environment} {a b : App} {e : Event}
    (h : a.step env e = some b) : Effect env a e b := by
  unfold step at h
  split at h
  · next vc row =>
    -- a row of a list screen is displayed
    split at h
    · next vc' madeFrom model hv =>
      split at h
      · next hrow =>
        split at h
        · next request hrequest =>
          obtain rfl := Option.some.inj h
          cases request with
          | none => exact .grows rfl .refl
          | some r => exact .more hv rfl hrow hrequest
        · cases h
      · cases h
    · cases h
  · next id body =>
    split at h
    · next p hp =>
      have hid : p.id = id := by simpa using List.find?_some hp
      obtain rfl := Option.some.inj h
      rw [← hid]
      exact respond_effect (hid ▸ hp)
    · cases h
  · split at h
    · next v hv => exact tap_effect hv h
    · cases h

end App

end TimeManager
