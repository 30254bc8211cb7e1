import TimeManager.Coordinator.Changes

/-! # Where Tasks Come From

    The app makes up no task: what its screens show was in a list reply of the
    run, and a delete or an update names a task that was (`provenance`).  Only
    a create may be for a task that the server did not send. -/

namespace TimeManager

open Lts RequesterURL

/-- The tasks of the list reply that a step delivers. -/
def App.received (env : Environment) : App × App.Event → List TaskData
  | (a, .deliver id body) =>
    match a.requests.find? fun p => p.id = id with
    | some ⟨_, .getTaskList _ _, _⟩ => ((body.bind env.decoder.taskList).bind (·.tasks)).getD []
    | _ => []
  | _ => []

/-- The tasks that a run has received, those of the latest reply first. -/
def receivedTasks (env : Environment) (tr : List (App × App.Event)) : List TaskData :=
  tr.flatMap (App.received env)

/-- What is shown is one of these tasks. -/
def ShownFrom (env : Environment) (ts : List TaskData) (data : InternalTaskData) : Prop :=
  ∃ t ∈ ts, data = internalTaskData env.dates t

/-- A delete or an update is for one of these tasks, a create for a task that
    is new or that the server sent with a negative id; and no task is saved
    without a title. -/
def Call.IsFor (ts : List TaskData) : Call → Prop
  | .loginUser _ _ => True
  | .getTaskList _ _ => True
  | .deleteTask id _ => ∃ t ∈ ts, t.id = id
  | .updateTask task _ => 0 ≤ task.id ∧ task.title ≠ "" ∧ ∃ t ∈ ts, t.id = task.id
  | .createTask task _ =>
    task.id < 0 ∧ task.title ≠ "" ∧ (task.id = -1 ∨ ∃ t ∈ ts, t.id = task.id)

theorem Call.IsFor.mono {ts ts' : List TaskData} (hsub : ts ⊆ ts') {call : Call}
    (h : call.IsFor ts) : call.IsFor ts' := by
  have hmono : ∀ id, (∃ t ∈ ts, t.id = id) → ∃ t ∈ ts', t.id = id := by
    rintro id ⟨t, ht, hid⟩
    exact ⟨t, hsub ht, hid⟩
  cases call with
  | loginUser user vc => exact trivial
  | getTaskList request caller => exact trivial
  | deleteTask id vc => exact hmono _ h
  | updateTask task vc => exact ⟨h.1, h.2.1, hmono _ h.2.2⟩
  | createTask task vc => exact ⟨h.1, h.2.1, h.2.2.imp id (hmono _)⟩

namespace App

variable {env : Environment} {a b : App} {ts : List TaskData}

/-- The invariant: the screens and the requests are about these tasks. -/
structure Genuine (env : Environment) (ts : List TaskData) (a : App) : Prop where
  shown : ∀ v ∈ a.viewControllers, ∀ data ∈ v.screen.tasks, ShownFrom env ts data
  requests : ∀ p ∈ a.requests, p.call.IsFor ts

theorem Genuine.mono {ts' : List TaskData} (h : Genuine env ts a) (hsub : ts ⊆ ts') :
    Genuine env ts' a := by
  refine ⟨?_, fun p hp => (h.requests p hp).mono hsub⟩
  intro v hv data hdata
  obtain ⟨t, ht, heq⟩ := h.shown v hv data hdata
  exact ⟨t, hsub ht, heq⟩

/-! ## Section 1: Steps -/

theorem Genuine.send (h : Genuine env ts a) {call : Call} (hcall : call.IsFor ts) :
    Genuine env ts (a.send call) := by
  refine ⟨h.shown, ?_⟩
  intro p hp
  rcases List.mem_append.mp hp with hp | hp
  · exact h.requests p hp
  · rw [List.mem_singleton.mp hp]
    exact hcall

/-- More screens, and more requests that are about no task. -/
theorem Genuine.grow (h : Genuine env ts a) {more : List ViewController}
    (hstack : b.viewControllers = a.viewControllers ++ more)
    (hmore : ∀ v ∈ more, ∀ data ∈ v.screen.tasks, ShownFrom env ts data)
    (hrequests : ∀ p ∈ b.requests, p ∈ a.requests ∨
      ∃ vc, p.call = .getTaskList ⟨1, .title, true⟩ (.firstTasks vc) ∧
        p.request = p.call.operation.request a.userToken) : Genuine env ts b := by
  refine ⟨?_, ?_⟩
  · intro v hv
    rw [hstack] at hv
    rcases List.mem_append.mp hv with hv | hv
    · exact h.shown v hv
    · exact hmore v hv
  · intro p hp
    rcases hrequests p hp with hold | ⟨vc, hcall, _⟩
    · exact h.requests p hold
    · rw [hcall]
      exact trivial

/-- A screen that is opened shows a task of the one it is opened from. -/
theorem tasks_of_opens {screen : Screen} {target : AvailableScreens}
    (h : screen.Opens target) : target.screen.tasks ⊆ screen.tasks := by
  cases h with
  | detail hmem =>
    intro data hdata
    rw [List.mem_singleton.mp hdata]
    exact hmem
  | login => exact List.nil_subset _
  | newTask => exact List.nil_subset _
  | edit => exact List.Subset.refl _

theorem Genuine.opens (h : Genuine env ts a) {v : ViewController} {target : AvailableScreens}
    (htop : a.topViewController = some v) (hopens : v.screen.Opens target) :
    Genuine env ts (a.jumpToScreen target) := by
  apply h.grow (stack_jumpToScreen a target)
  · intro w hw data hdata
    rw [List.mem_singleton.mp hw] at hdata
    exact h.shown v (List.mem_of_getLast? htop) data (tasks_of_opens hopens hdata)
  · intro p hp
    exact requests_jumpToScreen hp

theorem Genuine.updateScreen (h : Genuine env ts a) (vc : Nat) {f : Screen → Screen}
    (hf : ∀ screen, ∀ data ∈ (f screen).tasks, data ∈ screen.tasks ∨ ShownFrom env ts data) :
    Genuine env ts (a.updateScreen vc f) := by
  refine ⟨?_, h.requests⟩
  intro v hv data hdata
  obtain ⟨w, hw, rfl⟩ := List.mem_map.mp hv
  unfold ViewController.update at hdata
  split at hdata
  · rcases hf _ data hdata with hold | hnew
    · exact h.shown w hw data hold
    · exact hnew
  · exact h.shown w hw data hdata

theorem Genuine.fillIn (h : Genuine env ts a) (vc : Nat) (user : LoginData) :
    Genuine env ts (a.updateScreen vc (Screen.fillIn user)) := by
  apply h.updateScreen
  intro screen data hdata
  left
  cases screen <;> exact hdata

theorem Genuine.answered (h : Genuine env ts a) (p : Pending) (body : Option (List UInt8)) :
    Genuine env ts (a.answered env p body) :=
  ⟨h.shown, fun q hq => h.requests q (List.mem_filter.mp hq).1⟩

/-- What Save sends: the id is that of the task that was opened. -/
theorem saveEventPressed_cases {view : TaskEditMainView} {now : Int} {task : TaskData}
    (h : view.saveEventPressed now = some task) :
    task.title ≠ "" ∧ (task.id = -1 ∨ ∃ data, view.data = some data ∧ data.id = task.id) := by
  unfold TaskEditMainView.saveEventPressed at h
  split at h
  · next htitle =>
    obtain rfl := Option.some.inj h
    refine ⟨htitle, ?_⟩
    cases hdata : view.data with
    | none => exact .inl rfl
    | some data => exact .inr ⟨data, rfl, rfl⟩
  · cases h

/-- The task that is shown and the one that was received have the same id. -/
theorem id_of_shownFrom {data : InternalTaskData} (h : ShownFrom env ts data) :
    ∃ t ∈ ts, t.id = data.id := by
  obtain ⟨t, ht, rfl⟩ := h
  exact ⟨t, ht, rfl⟩

theorem Genuine.saveTask (h : Genuine env ts a) {v : ViewController} {view : TaskEditMainView}
    {now : Int} {task : TaskData} (htop : a.topViewController = some v)
    (hscreen : v.screen = .taskEdit view) (hsave : view.saveEventPressed now = some task) :
    Genuine env ts (a.saveTask v.id task) := by
  obtain ⟨htitle, hid⟩ := saveEventPressed_cases hsave
  have hknown : task.id = -1 ∨ ∃ t ∈ ts, t.id = task.id := by
    rcases hid with hnew | ⟨data, hdata, hid⟩
    · exact .inl hnew
    · right
      have hmem : data ∈ v.screen.tasks := by
        rw [hscreen]
        exact Option.mem_toList.mpr hdata
      rw [← hid]
      exact id_of_shownFrom (h.shown v (List.mem_of_getLast? htop) data hmem)
  unfold App.saveTask
  split
  · next hneg => exact h.send ⟨hneg, htitle, hknown⟩
  · next hneg =>
    have hpos : 0 ≤ task.id := Int.not_lt.mp hneg
    have ht : ∃ t ∈ ts, t.id = task.id := hknown.resolve_left (by omega)
    exact h.send ⟨hpos, htitle, ht⟩

/-- The tasks of a successful reply are those that the step has received. -/
theorem tasks_of_response {id : Nat} {p : Pending} {body : Option (List UInt8)}
    {request : ListRequest} {caller : ListCaller} {list : TaskList}
    (hp : a.requests.find? (fun q => q.id = id) = some p)
    (hcall : p.call = .getTaskList request caller)
    (hlist : getTaskListResponse (body.map (Payload.read env.decoder.taskList)) =
      [.toDoIfSuccess list]) : list.tasks.getD [] ⊆ received env (a, .deliver id body) := by
  have hreceived : received env (a, .deliver id body) =
      ((body.bind env.decoder.taskList).bind (·.tasks)).getD [] := by
    obtain ⟨pid, call, sent⟩ := p
    obtain rfl : call = .getTaskList request caller := hcall
    simp only [received, hp]
  rw [hreceived]
  cases body with
  | none => cases hlist
  | some data =>
    unfold getTaskListResponse at hlist
    simp only [Option.map_some, Payload.read] at hlist
    simp only [Option.bind_some]
    cases hdec : env.decoder.taskList data with
    | none =>
      rw [hdec] at hlist
      cases hlist
    | some result =>
      rw [hdec] at hlist
      obtain ⟨tasks, mt, message⟩ := result
      cases tasks with
      | none => cases mt <;> simp at hlist
      | some tasks =>
        cases mt with
        | none => simp at hlist
        | some mt =>
          simp only [List.cons.injEq, Completion.toDoIfSuccess.injEq, and_true] at hlist
          rw [← hlist]
          exact List.Subset.refl _

/-- **Step lemma**: after an event the app is still about the tasks received. -/
theorem Genuine.step {e : Event} (h : Genuine env ts a) (hstep : a.step env e = some b) :
    Genuine env (received env (a, e) ++ ts) b := by
  have h := h.mono (List.subset_append_right (received env (a, e)) ts)
  cases step_change hstep with
  | typed _ _ => exact h.fillIn _ _
  | login _ _ => exact (h.fillIn _ _).send trivial
  | opens htop hopens => exact h.opens htop hopens
  | back _ _ =>
    unfold back popViewController
    split
    · exact ⟨h.shown, h.requests⟩
    · exact ⟨fun v hv => h.shown v ((List.dropLast_subset _) hv), h.requests⟩
  | unsaved =>
    unfold presentAlert
    split
    · exact ⟨h.shown, h.requests⟩
    · exact h
  | delete htop hdata =>
    exact h.send (id_of_shownFrom (h.shown _ (List.mem_of_getLast? htop) _ hdata))
  | form _ _ =>
    apply h.updateScreen
    intro screen data hdata
    left
    cases screen with
    | taskEdit view =>
      have hdata : data ∈ (view.act _).data.toList := hdata
      rw [TaskEditMainView.act_data] at hdata
      exact hdata
    | _ => exact hdata
  | save htop hscreen hsave => exact h.saveTask htop hscreen hsave
  | idle => exact h
  | @display vc row v model request _ _ _ =>
    cases request with
    | none => exact h
    | some r => exact h.send trivial
  | @deliver id body p b _ hopens =>
    obtain ⟨lists, hstack, hlists⟩ := hopens.stack
    apply (h.answered p body).grow hstack _ hopens.requests
    -- a list that is opened is empty
    intro v hv data hdata
    obtain ⟨list, _, hscreen⟩ := hlists v hv
    rw [hscreen] at hdata
    cases hdata
  | @load id body p request caller vc list hp hcall _ hlist =>
    apply (h.answered p body).updateScreen
    intro screen data hdata
    cases screen with
    | taskList model =>
      rcases List.mem_append.mp hdata with hold | hnew
      · exact .inl hold
      · -- a task of the reply
        right
        have hnew : data ∈ (list.tasks.getD []).map (internalTaskData env.dates) := by
          cases htasks : list.tasks with
          | none => simp [htasks] at hnew
          | some tasks => simpa [htasks] using hnew
        obtain ⟨t, ht, rfl⟩ := List.mem_map.mp hnew
        exact ⟨t, List.mem_append_left _ (tasks_of_response hp hcall hlist ht), rfl⟩
    | _ => exact .inl hdata
  | session _ _ => exact (h.answered _ _).send trivial

/-- **Run lemma**: the app is about the tasks that the run has received. -/
theorem genuine_of_trace {userToken : Option String} {tr : List (App × Event)}
    (h : (appSystem env userToken).Trace tr a) : Genuine env (receivedTasks env tr) a := by
  apply h.invariant
  · intro s hs
    have hs : s = App.start userToken := hs
    rw [hs]
    refine ⟨?_, by intro p hp; cases hp⟩
    intro v hv data hdata
    rw [List.mem_singleton.mp hv] at hdata
    cases hdata
  · intro tr s e s' _ hgenuine hstep
    exact hgenuine.step hstep

end App

/-- **Provenance.**  In every run of the app every task on a screen, in a list
    or opened from one, was in a list reply that the run has delivered; every
    delete and every update in flight is for such a task, every create for a
    task that is new or that came with a negative id; and whatever is saved
    has a title. -/
theorem provenance {env : Environment} {userToken : Option String}
    {tr : List (App × App.Event)} {a : App} (h : (appSystem env userToken).Trace tr a) :
    (∀ v ∈ a.viewControllers, ∀ data ∈ v.screen.tasks, ShownFrom env (receivedTasks env tr) data) ∧
    ∀ p ∈ a.requests, p.call.IsFor (receivedTasks env tr) := by
  have hgenuine := App.genuine_of_trace h
  exact ⟨hgenuine.shown, hgenuine.requests⟩

/-- Deleting the only task of the first list: its id was received. -/
theorem provenance_delete :
    ∃ tr b, (appSystem epochEnvironment none).Trace tr b ∧
      ∃ t ∈ receivedTasks epochEnvironment tr, t.id = 7 := by
  obtain ⟨tr, htr⟩ := App.reachable_firstList.trace
  have hopen : App.firstList.step epochEnvironment (.infoPressed 0) = some (App.firstList.jumpToScreen
      (.taskDetail (some (internalTaskData epochDates App.sampleTask)))) := rfl
  have hdelete : (App.firstList.jumpToScreen (.taskDetail
      (some (internalTaskData epochDates App.sampleTask)))).step epochEnvironment
        .deleteEventPressed = some _ := rfl
  have hrun := (htr.step hopen).step hdelete
  exact ⟨_, _, hrun, (provenance hrun).2 ⟨3, .deleteTask 7 2, _⟩ List.mem_cons_self⟩

end TimeManager
