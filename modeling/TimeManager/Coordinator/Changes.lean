import TimeManager.Coordinator.Stack

/-! # What an Event Opens and Sends

    `App.Effect` tells which parts of the app an event changes.  `App.Change`
    also tells where the data in them come from: a tap opens and sends what
    the screen on top shows, and a response opens list screens only. -/

namespace TimeManager

open RequesterURL

/-! ## Section 1: Screens and their tasks -/

/-- The tasks that a screen shows or was opened with. -/
def Screen.tasks : Screen → List InternalTaskData
  | .login _ => []
  | .taskList model => model.data
  | .taskDetail data => data.toList
  | .taskEdit view => view.data.toList

/-- What a screen can be tapped to open. -/
inductive Screen.Opens : Screen → AvailableScreens → Prop where
  /-- The info button of a row. -/
  | detail {model data} : data ∈ model.data → Opens (.taskList model) (.taskDetail (some data))
  /-- The sort button. -/
  | login {model} : Opens (.taskList model) .login
  /-- The button for a new task. -/
  | newTask {model} : Opens (.taskList model) (.taskEdit none)
  /-- The edit button. -/
  | edit {data} : Opens (.taskDetail data) (.taskEdit data)

/-- What a screen shows when it is opened. -/
def AvailableScreens.screen : AvailableScreens → Screen
  | .login => .login LoginMainView.fromStoryboard
  | .taskList list => .taskList (App.newTaskList list)
  | .taskDetail data => .taskDetail data
  | .taskEdit data => .taskEdit (TaskEditMainView.setData data)

namespace App

variable {env : Environment} {a b : App}

theorem stack_jumpToScreen (a : App) (target : AvailableScreens) :
    (a.jumpToScreen target).viewControllers =
      a.viewControllers ++ [⟨a.nextScreen, target, target.screen⟩] := by
  cases target with
  | taskList list =>
    show (a.makeTaskList list).viewControllers = _
    rw [makeTaskList_eq]
    rfl
  | _ => rfl

/-- A list screen that is opened asks for its first tasks; no other request is
    sent. -/
theorem requests_jumpToScreen {target : AvailableScreens} {p : Pending}
    (hp : p ∈ (a.jumpToScreen target).requests) :
    p ∈ a.requests ∨ ∃ vc, p.call = .getTaskList ⟨1, .title, true⟩ (.firstTasks vc) ∧
      p.request = p.call.operation.request a.userToken := by
  rcases a.jumpToScreen_cases target with ⟨screen, _, _, heq⟩ | ⟨list, _, heq⟩
  · rw [heq] at hp
    exact .inl hp
  · rw [heq] at hp
    rcases List.mem_append.mp hp with hp | hp
    · exact .inl hp
    · rw [List.mem_singleton.mp hp]
      exact .inr ⟨_, rfl, rfl⟩

/-! ## Section 2: List screens that responses open -/

/-- The app has opened list screens, and maybe presented alerts. -/
structure OpensLists (a b : App) : Prop where
  stack : ∃ lists, b.viewControllers = a.viewControllers ++ lists ∧
    ∀ v ∈ lists, ∃ list, v.madeFrom = .taskList list ∧ v.screen = .taskList (newTaskList list)
  token : b.userToken = a.userToken
  requests : ∀ p ∈ b.requests, p ∈ a.requests ∨
    ∃ vc, p.call = .getTaskList ⟨1, .title, true⟩ (.firstTasks vc) ∧
      p.request = p.call.operation.request a.userToken

theorem OpensLists.refl (a : App) : OpensLists a a :=
  ⟨⟨[], (List.append_nil _).symm, by simp⟩, rfl, fun _ hp => .inl hp⟩

theorem OpensLists.jump (h : OpensLists a b) (list : Option TaskList) :
    OpensLists a (b.jumpToScreen (.taskList list)) := by
  refine ⟨?_, (userToken_jumpToScreen _ _).trans h.token, ?_⟩
  · obtain ⟨lists, hstack, hlists⟩ := h.stack
    refine ⟨lists ++ [⟨b.nextScreen, .taskList list, .taskList (newTaskList list)⟩], ?_, ?_⟩
    · rw [stack_jumpToScreen, hstack, List.append_assoc]
      rfl
    · intro v hv
      rcases List.mem_append.mp hv with hv | hv
      · exact hlists v hv
      · rw [List.mem_singleton.mp hv]
        exact ⟨list, rfl, rfl⟩
  · intro p hp
    rcases requests_jumpToScreen hp with hold | ⟨vc, hcall, hrequest⟩
    · exact h.requests p hold
    · rw [h.token] at hrequest
      exact .inr ⟨vc, hcall, hrequest⟩

theorem OpensLists.presentAlert (h : OpensLists a b) (vc : Nat) (title : String)
    (message : Option String) : OpensLists a (b.presentAlert vc title message) := by
  unfold App.presentAlert
  split
  · exact ⟨h.stack, h.token, h.requests⟩
  · exact h

theorem OpensLists.refresh (h : OpensLists a b) (vc : Nat) : OpensLists a (b.refresh vc) := by
  unfold App.refresh
  split
  · exact h.jump none
  · exact h

theorem OpensLists.deleteCompletion (h : OpensLists a b) (vc : Nat)
    (c : Completion Unit TaskList) : OpensLists a (b.deleteCompletion vc c) := by
  cases c with
  | toDoIfSuccess => exact h.refresh vc
  | toDoIfError list => exact h.presentAlert _ _ _

theorem OpensLists.saveCompletion (h : OpensLists a b) (vc : Nat)
    (c : Completion TaskDetail TaskDetail) : OpensLists a (b.saveCompletion vc c) := by
  cases c with
  | toDoIfSuccess detail => exact h.refresh vc
  | toDoIfError detail => exact h.presentAlert _ _ _

theorem OpensLists.foldl {γ : Type} {complete : App → γ → App}
    (hc : ∀ b c, OpensLists a b → OpensLists a (complete b c)) (cs : List γ)
    (h : OpensLists a b) : OpensLists a (cs.foldl complete b) := by
  induction cs generalizing b with
  | nil => exact h
  | cons c cs ih => exact ih (hc b c h)

/-! ## Section 3: Changes -/

/-- Everything an event can do, with where its data come from. -/
inductive Change (env : Environment) (a : App) : Event → App → Prop where
  | typed {user v view} : a.topViewController = some v → v.screen = .login view →
      Change env a (.typeLogin user) (a.updateScreen v.id (Screen.fillIn user))
  | login {user v view} : a.topViewController = some v → v.screen = .login view →
      Change env a (.logInPressed user) (a.logInPressed v.id user)
  | opens {e v target} : a.topViewController = some v → v.screen.Opens target →
      Change env a e (a.jumpToScreen target)
  | back {v} : a.topViewController = some v →
      ((∃ data, v.screen = .taskDetail data) ∨ ∃ view, v.screen = .taskEdit view) →
      Change env a .backPressed a.back
  /-- Delete on a task that was never saved. -/
  | unsaved {vc title message} :
      Change env a .deleteEventPressed (a.presentAlert vc title message)
  | delete {v data} : a.topViewController = some v → data ∈ v.screen.tasks →
      Change env a .deleteEventPressed (a.send (.deleteTask data.id v.id))
  | form {action v view} : a.topViewController = some v → v.screen = .taskEdit view →
      Change env a (.form action) (a.updateScreen v.id (Screen.act action))
  | save {now v view task} : a.topViewController = some v → v.screen = .taskEdit view →
      view.saveEventPressed now = some task →
      Change env a (.saveEventPressed now) (a.saveTask v.id task)
  /-- Save with an empty title. -/
  | idle {now} : Change env a (.saveEventPressed now) a
  | display {vc row v model request} :
      a.viewControllers.find? (fun v => v.id = vc) = some v → v.screen = .taskList model →
      model.willDisplay row = .ok request →
      Change env a (.willDisplay vc row)
        (a.sendIfAny (request.map fun r => .getTaskList r (.nextTask vc)))
  /-- A response that fills no list and does not complete a login. -/
  | deliver {id body p b} : a.requests.find? (fun q => q.id = id) = some p →
      OpensLists (a.answered env p body) b → Change env a (.deliver id body) b
  /-- A response that fills the list of the screen that asked for it. -/
  | load {id body p request caller vc list} :
      a.requests.find? (fun q => q.id = id) = some p →
      p.call = .getTaskList request caller → caller.screen = some vc →
      getTaskListResponse (body.map (Payload.read env.decoder.taskList)) = [.toDoIfSuccess list] →
      Change env a (.deliver id body) ((a.answered env p body).updateScreen vc
        (Screen.updateModel (·.successAll env.dates list)))
  /-- A successful login. -/
  | session {id body p user vc} : a.requests.find? (fun q => q.id = id) = some p →
      p.call = .loginUser user vc →
      Change env a (.deliver id body)
        ((a.answered env p body).send (.getTaskList ⟨1, .title, true⟩ .coordinator))

/-- The response to a login. -/
theorem loginUser_change {p : Pending} {body : Option (List UInt8)} {user : LoginData}
    {vc id : Nat} (hp : a.requests.find? (fun q => q.id = id) = some p)
    (hcall : p.call = .loginUser user vc) :
    Change env a (.deliver id body) ((a.dropRequest p.id).respond env p.call body) := by
  have hresponse : (a.dropRequest p.id).respond env p.call body =
      (loginUserResponse a.userToken (body.map (Payload.read env.decoder.loginResultData))).2.foldl
        (loginCompletion vc) (a.answered env p body) := by
    rw [hcall]
    simp only [respond, answered, tokenAfter, dropRequest_userToken, hcall]
  rw [hresponse]
  rcases loginUserResponse_cases a.userToken
      (body.map (Payload.read env.decoder.loginResultData)) with
    ⟨heq, -⟩ | ⟨_, result, -, -, ⟨_, -, heq⟩ | ⟨-, heq⟩⟩
  · rw [heq]
    exact .deliver hp (.refl _)
  · -- a success: the coordinator asks, if the login screen is there
    rw [heq]
    show Change env a _ (if (a.answered env p body).isLive vc then _ else _)
    split
    · exact .session hp hcall
    · exact .deliver hp (.refl _)
  · rw [heq]
    exact .deliver hp ((OpensLists.refl _).presentAlert _ _ _)

/-- The response to a list request. -/
theorem getTaskList_change {p : Pending} {body : Option (List UInt8)} {request : ListRequest}
    {caller : ListCaller} {id : Nat} (hp : a.requests.find? (fun q => q.id = id) = some p)
    (hcall : p.call = .getTaskList request caller) :
    Change env a (.deliver id body) ((a.answered env p body).respond env p.call body) := by
  have hresponse : (a.answered env p body).respond env p.call body =
      (getTaskListResponse (body.map (Payload.read env.decoder.taskList))).foldl
        (listCompletion env caller) (a.answered env p body) := by
    rw [hcall]
    rfl
  rw [hresponse]
  rcases getTaskListResponse_cases (body.map (Payload.read env.decoder.taskList)) with
    ⟨heq, -⟩ | ⟨_, _, -, -, ⟨-, -, list, heq⟩ | ⟨-, heq⟩⟩
  · rw [heq]
    exact .deliver hp (.refl _)
  · rw [heq]
    cases caller with
    | coordinator => exact .deliver hp ((OpensLists.refl _).jump (some list))
    | firstTasks vc => exact .load hp hcall rfl heq
    | nextTask vc => exact .load hp hcall rfl heq
  · rw [heq]
    cases caller with
    | coordinator => exact .deliver hp (.refl _)
    | firstTasks vc => exact .deliver hp ((OpensLists.refl _).presentAlert _ _ _)
    | nextTask vc => exact .deliver hp (.refl _)

/-- The response to any request. -/
theorem respond_change {p : Pending} {body : Option (List UInt8)} {id : Nat}
    (hp : a.requests.find? (fun q => q.id = id) = some p) :
    Change env a (.deliver id body) ((a.dropRequest p.id).respond env p.call body) := by
  cases hcall : p.call with
  | loginUser user vc =>
    rw [← hcall]
    exact loginUser_change hp hcall
  | getTaskList request caller =>
    rw [← hcall, ← @answered_eq env a p body (by simp [hcall])]
    exact getTaskList_change hp hcall
  | deleteTask taskID vc =>
    apply Change.deliver hp
    rw [answered_eq (by simp [hcall])]
    exact OpensLists.foldl (fun _ c hb => hb.deleteCompletion vc c) _ (.refl _)
  | updateTask task vc =>
    apply Change.deliver hp
    rw [answered_eq (by simp [hcall])]
    exact OpensLists.foldl (fun _ c hb => hb.saveCompletion vc c) _ (.refl _)
  | createTask task vc =>
    apply Change.deliver hp
    rw [answered_eq (by simp [hcall])]
    exact OpensLists.foldl (fun _ c hb => hb.saveCompletion vc c) _ (.refl _)

/-- Delete on a screen that shows a task, or none. -/
theorem deleteTask_change {v : ViewController} {data : Option InternalTaskData}
    (htop : a.topViewController = some v) (hdata : v.screen.tasks = data.toList) :
    Change env a .deleteEventPressed (a.deleteTask v.id (data.map (·.id))) := by
  cases data with
  | none => exact .unsaved
  | some data =>
    have hmem : data ∈ v.screen.tasks := by
      rw [hdata]
      exact List.mem_singleton.mpr rfl
    exact .delete htop hmem

theorem tap_change {v : ViewController} {e : Event} (htop : a.topViewController = some v)
    (h : a.tap v.id v.screen e = some b) : Change env a e b := by
  unfold tap at h
  split at h
  · next view user hscreen =>
    obtain rfl := Option.some.inj h
    exact .typed htop hscreen
  · next view user hscreen =>
    -- the login button
    obtain rfl := Option.some.inj h
    exact .login htop hscreen
  · next model row hscreen =>
    -- the info button of a row
    obtain ⟨data, hrow, rfl⟩ := Option.map_eq_some_iff.mp h
    exact .opens htop (hscreen ▸ .detail (List.mem_of_getElem? hrow))
  · next model hscreen =>
    -- the sort button
    obtain rfl := Option.some.inj h
    exact .opens htop (hscreen ▸ .login)
  · next model hscreen =>
    -- the button for a new task
    obtain rfl := Option.some.inj h
    exact .opens htop (hscreen ▸ .newTask)
  · next data hscreen =>
    obtain rfl := Option.some.inj h
    exact .back htop (.inl ⟨data, hscreen⟩)
  · next data hscreen =>
    -- the edit button
    obtain rfl := Option.some.inj h
    exact .opens htop (hscreen ▸ .edit)
  · next data hscreen =>
    obtain rfl := Option.some.inj h
    exact deleteTask_change htop (by rw [hscreen]; rfl)
  · next view hscreen =>
    obtain rfl := Option.some.inj h
    exact .back htop (.inr ⟨view, hscreen⟩)
  · next view hscreen =>
    obtain rfl := Option.some.inj h
    exact deleteTask_change htop (by rw [hscreen]; rfl)
  · next view action hscreen =>
    obtain rfl := Option.some.inj h
    exact .form htop hscreen
  · next view now hscreen =>
    split at h
    · next task htask =>
      obtain rfl := Option.some.inj h
      exact .save htop hscreen htask
    · obtain rfl := Option.some.inj h
      exact .idle
  · cases h

/-- **Every event changes the app in one of these ways.** -/
theorem step_change {e : Event} (h : a.step env e = some b) : Change env a e b := by
  unfold step at h
  split at h
  · next vc row =>
    split at h
    · next vc' madeFrom model hv =>
      split at h
      · split at h
        · next request hrequest =>
          obtain rfl := Option.some.inj h
          exact .display hv rfl hrequest
        · cases h
      · cases h
    · cases h
  · next id body =>
    split at h
    · next p hp =>
      have hid : p.id = id := by simpa using List.find?_some hp
      obtain rfl := Option.some.inj h
      rw [← hid]
      exact respond_change (hid ▸ hp)
    · cases h
  · split at h
    · next v hv => exact tap_change hv h
    · cases h

end App

end TimeManager
