import TimeManager.Coordinator.Stack

/-! # Editing a Task

    A task goes from the list to the detail screen, from there to the edit
    form, and back to the server.  On its way its due date becomes two texts,
    and Save fills it in again with the time of saving: what is sent is the
    edited task exactly when that is its due date (`saves_edit_iff`). -/

namespace TimeManager

/-! ## Section 1: What the user edited -/

def FormAction.title? : FormAction → Option String
  | .typeTitle text => some text
  | _ => none

def FormAction.priority? : FormAction → Option PriorityEnum
  | .highPriorityChoosen => some .high
  | .mediumPriorityChoosen => some .normal
  | .lowPriorityChoosen => some .low
  | _ => none

/-- The last typed title, or the old one. -/
def lastTitle (old : String) (actions : List FormAction) : String :=
  (actions.filterMap FormAction.title?).getLast?.getD old

/-- The last tapped priority, or the old one. -/
def lastPriority (old : PriorityEnum) (actions : List FormAction) : PriorityEnum :=
  (actions.filterMap FormAction.priority?).getLast?.getD old

/-- The task with what the user edited, and nothing else changed. -/
def editedTask (t : TaskData) (actions : List FormAction) : TaskData :=
  { t with title := lastTitle t.title actions, priority := lastPriority t.priority actions }

/-- The events from the info button of a row to Save. -/
def editing (row : Nat) (actions : List FormAction) (now : Int) : List App.Event :=
  [.infoPressed row, .editPressed] ++ actions.map .form ++ [.saveEventPressed now]

/-- Save sends one request, which updates the task to what the user edited. -/
def SavesEdit (env : Environment) (a : App) (row : Nat) (t : TaskData)
    (actions : List FormAction) (now : Int) : Prop :=
  ∃ b p vc, a.run env (editing row actions now) = some b ∧ b.requests = a.requests ++ [p] ∧
    p.call = .updateTask (editedTask t actions) vc ∧
    p.request = RequesterURL.updateTask a.userToken (editedTask t actions)

/-! ## Section 2: The form -/

namespace TaskEditMainView

/-- The title after some actions is the last one typed. -/
theorem foldl_act_titleText (view : TaskEditMainView) (actions : List FormAction) :
    (actions.foldl act view).titleText = lastTitle view.titleText actions := by
  induction actions generalizing view with
  | nil => rfl
  | cons action actions ih =>
    rw [List.foldl_cons, ih]
    unfold lastTitle
    cases action with
    | typeTitle text =>
      -- typed here, and maybe again later
      show ((actions.filterMap FormAction.title?).getLast?).getD text =
        ((text :: actions.filterMap FormAction.title?).getLast?).getD view.titleText
      rw [List.getLast?_cons]
      rfl
    | _ => rfl

/-- The priority after some actions is the last one tapped. -/
theorem foldl_act_priority (view : TaskEditMainView) (old : PriorityEnum)
    (h : view.priority = some old) (actions : List FormAction) :
    (actions.foldl act view).priority = some (lastPriority old actions) := by
  induction actions generalizing view old with
  | nil => exact h
  | cons action actions ih =>
    rw [List.foldl_cons]
    -- a tap on a priority here is the last one, unless another follows
    have hlast : ∀ new, FormAction.priority? action = some new →
        lastPriority new actions = lastPriority old (action :: actions) := by
      intro new hnew
      unfold lastPriority
      rw [List.filterMap_cons_some hnew, List.getLast?_cons]
      rfl
    cases action with
    | typeTitle text => exact ih _ old h
    | typeDescription text => exact ih _ old h
    | highPriorityChoosen =>
      rw [← hlast .high rfl]
      exact ih _ .high rfl
    | mediumPriorityChoosen =>
      rw [← hlast .normal rfl]
      exact ih _ .normal rfl
    | lowPriorityChoosen =>
      rw [← hlast .low rfl]
      exact ih _ .low rfl

/-- What Save makes of a form that was opened with a task of a list reply:
    the edited task, due at the time of saving. -/
theorem saveEventPressed_edited (dates : DateFormats) {t : TaskData}
    {actions : List FormAction} (htitle : lastTitle t.title actions ≠ "") (now : Int) :
    (actions.foldl act (setData (some (internalTaskData dates t)))).saveEventPressed now =
      some { editedTask t actions with dueBy := now } := by
  have htext := foldl_act_titleText (setData (some (internalTaskData dates t))) actions
  have hpriority := foldl_act_priority (setData (some (internalTaskData dates t))) t.priority rfl
    actions
  unfold saveEventPressed
  rw [htext, hpriority, foldl_act_data]
  exact if_pos htitle

end TaskEditMainView

/-! ## Section 3: From the list to Save -/

namespace App

variable {env : Environment} {a : App} {v : ViewController}

theorem top_push (a : App) (target : AvailableScreens) (screen : Screen) :
    (a.push target screen).topViewController = some ⟨a.nextScreen, target, screen⟩ := by
  show (a.viewControllers ++ [_]).getLast? = _
  rw [List.getLast?_concat]

theorem top_updateScreen (vc : Nat) (f : Screen → Screen) :
    (a.updateScreen vc f).topViewController = a.topViewController.map (·.update vc f) := by
  show (a.viewControllers.map _).getLast? = _
  rw [List.getLast?_map]
  rfl

/-- The info button of a row opens the detail screen of its task. -/
theorem step_infoPressed (env : Environment) {model : TaskListModel} {row : Nat} {data : InternalTaskData}
    (htop : a.topViewController = some v) (hscreen : v.screen = .taskList model)
    (hrow : model.data[row]? = some data) :
    a.step env (.infoPressed row) =
      some (a.push (.taskDetail (some data)) (.taskDetail (some data))) := by
  simp only [step, htop, hscreen, tap, hrow, Option.map_some]
  rfl

/-- The edit button opens the form of the task shown. -/
theorem step_editPressed (env : Environment) {data : Option InternalTaskData}
    (htop : a.topViewController = some v) (hscreen : v.screen = .taskDetail data) :
    a.step env .editPressed =
      some (a.push (.taskEdit data) (.taskEdit (TaskEditMainView.setData data))) := by
  simp only [step, htop, hscreen, tap]
  rfl

/-- From a row of the list to the form of its task. -/
theorem run_open (env : Environment) {model : TaskListModel} {row : Nat} {data : InternalTaskData}
    (htop : a.topViewController = some v) (hscreen : v.screen = .taskList model)
    (hrow : model.data[row]? = some data) :
    ∃ b w, a.run env [.infoPressed row, .editPressed] = some b ∧ b.topViewController = some w ∧
      w.screen = .taskEdit (TaskEditMainView.setData (some data)) ∧
      b.requests = a.requests ∧ b.userToken = a.userToken := by
  have hinfo := step_infoPressed env htop hscreen hrow
  have hedit := step_editPressed env
    (top_push a (.taskDetail (some data)) (.taskDetail (some data))) rfl
  have hrun : a.run env [.infoPressed row, .editPressed] =
      some ((a.push (.taskDetail (some data)) (.taskDetail (some data))).push
        (.taskEdit (some data)) (.taskEdit (TaskEditMainView.setData (some data)))) := by
    rw [run_cons, hinfo, Option.bind_some, run_cons, hedit]
    rfl
  exact ⟨_, _, hrun, top_push _ _ _, rfl, rfl, rfl⟩

/-- Form actions change the form on top and nothing else. -/
theorem run_form (env : Environment) {view : TaskEditMainView} (actions : List FormAction)
    (htop : a.topViewController = some v) (hscreen : v.screen = .taskEdit view) :
    ∃ b w, a.run env (actions.map .form) = some b ∧ b.topViewController = some w ∧
      w.id = v.id ∧ w.screen = .taskEdit (actions.foldl TaskEditMainView.act view) ∧
      b.requests = a.requests ∧ b.userToken = a.userToken := by
  induction actions generalizing a v view with
  | nil => exact ⟨a, v, rfl, htop, rfl, hscreen, rfl, rfl⟩
  | cons action actions ih =>
    have hstep : a.step env (.form action) =
        some (a.updateScreen v.id (Screen.act action)) := by
      simp only [step, htop, hscreen, tap]
    have htop' : (a.updateScreen v.id (Screen.act action)).topViewController =
        some { v with screen := .taskEdit (view.act action) } := by
      rw [top_updateScreen, htop, Option.map_some, ViewController.update, if_pos rfl, hscreen]
      rfl
    obtain ⟨b, w, hrun, hw, hid, hview, hrequests, htoken⟩ := ih htop' rfl
    refine ⟨b, w, ?_, hw, hid, hview, hrequests, htoken⟩
    rw [List.map_cons, run_cons, hstep]
    exact hrun

/-- Save on a form of an existing task sends one update. -/
theorem step_save (env : Environment) {view : TaskEditMainView} {now : Int} {task : TaskData}
    (htop : a.topViewController = some v) (hscreen : v.screen = .taskEdit view)
    (hsave : view.saveEventPressed now = some task) (hid : 0 ≤ task.id) :
    a.step env (.saveEventPressed now) = some (a.send (.updateTask task v.id)) := by
  have hsend : a.saveTask v.id task = a.send (.updateTask task v.id) := by
    unfold saveTask
    exact if_neg (Int.not_lt.mpr hid)
  simp only [step, htop, hscreen, tap, hsave, hsend]

/-- What the events from the list to Save send: the edited task, due at the
    time of saving. -/
theorem run_editing {model : TaskListModel} {row : Nat} {t : TaskData}
    {actions : List FormAction} (htop : a.topViewController = some v)
    (hscreen : v.screen = .taskList model)
    (hrow : model.data[row]? = some (internalTaskData env.dates t)) (hid : 0 ≤ t.id)
    (htitle : lastTitle t.title actions ≠ "") (now : Int) :
    ∃ b p vc, a.run env (editing row actions now) = some b ∧ b.requests = a.requests ++ [p] ∧
      p.call = .updateTask { editedTask t actions with dueBy := now } vc ∧
      p.request =
        RequesterURL.updateTask a.userToken { editedTask t actions with dueBy := now } := by
  -- list and detail screen, then the form, then Save
  obtain ⟨c, w, hopen, hw, hview, hrequests, htoken⟩ := run_open env htop hscreen hrow
  obtain ⟨d, w', hform, hw', _, hview', hrequests', htoken'⟩ :=
    run_form env actions hw hview
  have hsave := TaskEditMainView.saveEventPressed_edited env.dates htitle now
  have hstep := step_save env hw' hview' hsave hid
  have hrun : a.run env (editing row actions now) =
      some (d.send (.updateTask { editedTask t actions with dueBy := now } w'.id)) := by
    unfold editing
    rw [run_append, run_append, hopen, Option.bind_some, hform, Option.bind_some, run_cons, hstep]
    rfl
  refine ⟨_, ⟨d.nextRequest, .updateTask { editedTask t actions with dueBy := now } w'.id,
    RequesterURL.updateTask d.userToken { editedTask t actions with dueBy := now }⟩, w'.id, hrun,
    ?_, rfl, ?_⟩
  · show d.requests ++ [_] = _
    rw [hrequests', hrequests]
    rfl
  · show RequesterURL.updateTask d.userToken _ = _
    rw [htoken', htoken]

end App

/-! ## Section 4: When Save sends what the user edited -/

theorem editedTask_dueBy (t : TaskData) (actions : List FormAction) :
    (editedTask t actions).dueBy = t.dueBy := rfl

section

variable {env : Environment} {a : App} {v : ViewController} {model : TaskListModel} {row : Nat}
  {t : TaskData} {actions : List FormAction}

/-- There is only one run, and what it sends is due at the time of saving. -/
theorem dueBy_of_savesEdit (htop : a.topViewController = some v)
    (hscreen : v.screen = .taskList model)
    (hrow : model.data[row]? = some (internalTaskData env.dates t)) (hid : 0 ≤ t.id)
    (htitle : lastTitle t.title actions ≠ "") {now : Int}
    (h : SavesEdit env a row t actions now) : t.dueBy = now := by
  obtain ⟨b, p, vc, hrun, hsent, hcall, _⟩ :=
    App.run_editing htop hscreen hrow hid htitle now
  obtain ⟨b', p', vc', hrun', hsent', hcall', _⟩ := h
  -- the two runs are the same, and so is the one request they add
  obtain rfl : b = b' := Option.some.inj (hrun.symm.trans hrun')
  have hp : p = p' := List.head_eq_of_cons_eq (List.append_cancel_left (hsent.symm.trans hsent'))
  rw [hp, hcall'] at hcall
  have hdue := congrArg TaskData.dueBy (Call.updateTask.inj hcall).1
  rw [editedTask_dueBy] at hdue
  exact hdue

/-- **Editing.**  For every task of a list reply that is opened through list,
    detail and edit screen, and every sequence of form actions that ends with
    a title: what Save sends is the task with exactly the user's edits if and
    only if the task is due at the time of saving. -/
theorem saves_edit_iff (htop : a.topViewController = some v)
    (hscreen : v.screen = .taskList model)
    (hrow : model.data[row]? = some (internalTaskData env.dates t)) (hid : 0 ≤ t.id)
    (htitle : lastTitle t.title actions ≠ "") (now : Int) :
    SavesEdit env a row t actions now ↔ t.dueBy = now := by
  constructor
  · intro h
    exact dueBy_of_savesEdit htop hscreen hrow hid htitle h
  · intro hdue
    obtain ⟨b, p, vc, hrun, hsent, hcall, hrequest⟩ :=
      App.run_editing htop hscreen hrow hid htitle now
    have htask : { editedTask t actions with dueBy := now } = editedTask t actions := by
      rw [← hdue]
      rfl
    rw [htask] at hcall hrequest
    exact ⟨b, p, vc, hrun, hsent, hcall, hrequest⟩

end

/-- A task due at the epoch, renamed and saved at the epoch. -/
theorem saves_edit_epoch :
    SavesEdit epochEnvironment App.firstList 0 App.sampleTask [.typeTitle "mail"] 0 :=
  (saves_edit_iff (v := App.firstList.viewControllers[1]) rfl rfl rfl
    (by decide) (by decide) 0).mpr rfl

/-- A task due at the epoch, opened and saved untouched a second later: it is
    sent back with another due date. -/
theorem not_saves_edit :
    (appSystem epochEnvironment none).Reachable App.firstList ∧
      ¬ SavesEdit epochEnvironment App.firstList 0 App.sampleTask [] 1 := by
  refine ⟨App.reachable_firstList, ?_⟩
  intro h
  have hdue := dueBy_of_savesEdit (t := App.sampleTask) rfl rfl rfl (by decide) (by decide) h
  exact absurd hdue (by decide)

end TimeManager
