import TimeManager.Coordinator.ListScreens
import TimeManager.Coordinator.Sessions

/-! # What Is Typed at Login

    The mail address and the password stay in the form they are typed into,
    and go into the body of the login request; nothing else gets them.
    `App.erase` blanks the login forms and the login requests in flight, and
    blanking what is typed blanks these and changes nothing else
    (`step_erase`).  So runs that differ only in what is typed at login end in
    the same state but for the forms and the logins in flight
    (`login_leaves_no_trace`). -/

namespace TimeManager

open Lts RequesterURL

/-! ## Section 1: Blanking logins -/

/-- A login with nothing typed. -/
def blankLogin : LoginData := ⟨"", "", false⟩

def App.Event.erase : App.Event → App.Event
  | .typeLogin _ => .typeLogin blankLogin
  | .logInPressed _ => .logInPressed blankLogin
  | e => e

def Call.erase : Call → Call
  | .loginUser _ vc => .loginUser blankLogin vc
  | call => call

/-- A login request as if nothing had been typed; other requests stay. -/
def Pending.erase (p : Pending) : Pending :=
  match p.call with
  | .loginUser _ vc => ⟨p.id, .loginUser blankLogin vc, RequesterURL.loginUser blankLogin⟩
  | _ => p

/-- A login form with nothing typed; other screens stay. -/
def Screen.erase : Screen → Screen := Screen.fillIn blankLogin

def ViewController.erase (v : ViewController) : ViewController := { v with screen := v.screen.erase }

def App.eraseForms (a : App) : App :=
  { a with viewControllers := a.viewControllers.map ViewController.erase }

def App.erase (a : App) : App := { a.eraseForms with requests := a.requests.map Pending.erase }

theorem Screen.erase_fillIn (user : LoginData) (screen : Screen) :
    (screen.fillIn user).erase = screen.erase.fillIn blankLogin := by
  cases screen <;> rfl

theorem Screen.erase_updateModel (f : TaskListModel → TaskListModel) (screen : Screen) :
    (screen.updateModel f).erase = screen.erase.updateModel f := by
  cases screen <;> rfl

theorem Screen.erase_act (action : FormAction) (screen : Screen) :
    (screen.act action).erase = screen.erase.act action := by
  cases screen <;> rfl

@[simp] theorem Pending.erase_id (p : Pending) : p.erase.id = p.id := by
  obtain ⟨id, call, request⟩ := p
  cases call <;> rfl

theorem Pending.erase_call (p : Pending) : p.erase.call = p.call.erase := by
  obtain ⟨id, call, request⟩ := p
  cases call <;> rfl

theorem Pending.erase_of_not_login {p : Pending} (h : p.call.isLogin = false) : p.erase = p := by
  obtain ⟨id, call, request⟩ := p
  cases call with
  | loginUser user vc => cases h
  | _ => rfl

namespace App

variable {env : Environment} {a : App}

/-! ## Section 2: The parts of a step -/

theorem erase_send (a : App) (call : Call) :
    (a.send call).erase = a.erase.send call.erase := by
  unfold erase send
  rw [List.map_append, List.map_singleton]
  cases call <;> rfl

/-- A new screen has nothing typed into it. -/
theorem erase_push (a : App) (target : AvailableScreens) {screen : Screen}
    (h : screen.erase = screen) : (a.push target screen).erase = a.erase.push target screen := by
  unfold erase eraseForms push
  rw [List.map_append, List.map_singleton, ViewController.erase, h]

theorem erase_jumpToScreen (a : App) (target : AvailableScreens) :
    (a.jumpToScreen target).erase = a.erase.jumpToScreen target := by
  cases target with
  | taskList list =>
    show (a.makeTaskList list).erase = a.erase.makeTaskList list
    rw [makeTaskList_eq, makeTaskList_eq, erase_push _ _ rfl, erase_send]
    rfl
  | login => exact erase_push a .login rfl
  | taskDetail data => exact erase_push a (.taskDetail data) rfl
  | taskEdit data => exact erase_push a (.taskEdit data) rfl

@[simp] theorem isLive_erase (a : App) (vc : Nat) : a.erase.isLive vc = a.isLive vc := by
  show (a.viewControllers.map _).any _ = _
  rw [List.any_map]
  rfl

theorem erase_presentAlert (a : App) (vc : Nat) (title : String) (message : Option String) :
    (a.presentAlert vc title message).erase = a.erase.presentAlert vc title message := by
  unfold presentAlert
  rw [isLive_erase]
  split <;> rfl

theorem erase_refresh (a : App) (vc : Nat) : (a.refresh vc).erase = a.erase.refresh vc := by
  unfold refresh
  rw [isLive_erase]
  split
  · exact erase_jumpToScreen _ _
  · rfl

/-- A change of a screen that goes along with blanking. -/
theorem erase_updateScreen (a : App) (vc : Nat) {f g : Screen → Screen}
    (h : ∀ screen : Screen, (f screen).erase = g screen.erase) :
    (a.updateScreen vc f).erase = a.erase.updateScreen vc g := by
  have hupdate : ViewController.erase ∘ ViewController.update vc f =
      ViewController.update vc g ∘ ViewController.erase := by
    funext v
    show (v.update vc f).erase = v.erase.update vc g
    unfold ViewController.update
    by_cases hid : v.id = vc
    · rw [if_pos hid, if_pos (show v.erase.id = vc from hid), ViewController.erase, h]
      rfl
    · rw [if_neg hid, if_neg (show ¬ v.erase.id = vc from hid)]
  unfold erase eraseForms updateScreen
  simp only [List.map_map, hupdate]

theorem erase_back (a : App) : a.back.erase = a.erase.back := by
  have hlength : a.erase.viewControllers.length = a.viewControllers.length := List.length_map _
  have hback : ∀ b : App, b.back = if b.viewControllers.length ≤ 1 then
      { b with navigationScreens := b.navigationScreens.dropLast }
      else { b with
        navigationScreens := b.navigationScreens.dropLast
        viewControllers := b.viewControllers.dropLast } := fun _ => rfl
  rw [hback, hback, hlength]
  split
  · rfl
  · show App.erase _ = _
    unfold erase eraseForms
    simp only [List.map_dropLast]

theorem erase_deleteCompletion (vc : Nat) (a : App) (c : Completion Unit TaskList) :
    (a.deleteCompletion vc c).erase = a.erase.deleteCompletion vc c := by
  cases c with
  | toDoIfSuccess => exact erase_refresh a vc
  | toDoIfError list => exact erase_presentAlert a _ _ _

theorem erase_saveCompletion (vc : Nat) (a : App) (c : Completion TaskDetail TaskDetail) :
    (a.saveCompletion vc c).erase = a.erase.saveCompletion vc c := by
  cases c with
  | toDoIfSuccess detail => exact erase_refresh a vc
  | toDoIfError detail => exact erase_presentAlert a _ _ _

theorem erase_loginCompletion (vc : Nat) (a : App)
    (c : Completion LoginResultData LoginResultData) :
    (a.loginCompletion vc c).erase = a.erase.loginCompletion vc c := by
  cases c with
  | toDoIfSuccess result =>
    simp only [loginCompletion, isLive_erase]
    split
    · exact erase_send a _
    · rfl
  | toDoIfError result => exact erase_presentAlert a _ _ _

theorem erase_listCompletion (env : Environment) (caller : ListCaller) (a : App)
    (c : Completion TaskList TaskList) :
    (a.listCompletion env caller c).erase = a.erase.listCompletion env caller c := by
  cases caller with
  | coordinator =>
    cases c with
    | toDoIfSuccess list => exact erase_jumpToScreen a _
    | toDoIfError list => rfl
  | firstTasks vc =>
    cases c with
    | toDoIfSuccess list => exact erase_updateScreen a vc (Screen.erase_updateModel _)
    | toDoIfError list => exact erase_presentAlert a _ _ _
  | nextTask vc =>
    cases c with
    | toDoIfSuccess list => exact erase_updateScreen a vc (Screen.erase_updateModel _)
    | toDoIfError list => rfl

/-- Closures that commute with blanking do so one after another. -/
theorem erase_foldl {γ : Type} {complete : App → γ → App}
    (hc : ∀ a c, (complete a c).erase = complete a.erase c) (cs : List γ) (a : App) :
    (cs.foldl complete a).erase = cs.foldl complete a.erase := by
  induction cs generalizing a with
  | nil => rfl
  | cons c cs ih => rw [List.foldl_cons, List.foldl_cons, ih, hc]

/-- What a response does is the same for every login. -/
theorem erase_respond (env : Environment) (a : App) (call : Call) (body : Option (List UInt8)) :
    (a.respond env call body).erase = a.erase.respond env call.erase body := by
  cases call with
  | loginUser user vc => exact erase_foldl (erase_loginCompletion vc) _ _
  | getTaskList request caller => exact erase_foldl (erase_listCompletion env caller) _ _
  | deleteTask id vc => exact erase_foldl (erase_deleteCompletion vc) _ _
  | updateTask task vc => exact erase_foldl (erase_saveCompletion vc) _ _
  | createTask task vc => exact erase_foldl (erase_saveCompletion vc) _ _

theorem erase_dropRequest (a : App) (id : Nat) :
    (a.dropRequest id).erase = a.erase.dropRequest id := by
  have hrequests : (a.requests.filter fun q => q.id ≠ id).map Pending.erase =
      (a.requests.map Pending.erase).filter fun q => q.id ≠ id := by
    rw [List.filter_map]
    congr 2
    funext p
    simp
  unfold erase dropRequest
  rw [hrequests]
  rfl

theorem erase_deleteTask (a : App) (vc : Nat) (id : Option Int) :
    (a.deleteTask vc id).erase = a.erase.deleteTask vc id := by
  cases id with
  | none => exact erase_deleteCompletion vc a (.toDoIfError notSaved)
  | some id => exact erase_send a (.deleteTask id vc)

theorem erase_saveTask (a : App) (vc : Nat) (task : TaskData) :
    (a.saveTask vc task).erase = a.erase.saveTask vc task := by
  unfold saveTask
  split
  · exact erase_send a (.createTask task vc)
  · exact erase_send a (.updateTask task vc)

/-- The button sends what is typed, blanked. -/
theorem erase_logInPressed (a : App) (vc : Nat) (user : LoginData) :
    (a.logInPressed vc user).erase = a.erase.logInPressed vc blankLogin := by
  show ((a.updateScreen vc (Screen.fillIn user)).send _).erase = _
  rw [erase_send, erase_updateScreen a vc (Screen.erase_fillIn user)]
  rfl

theorem erase_tap (a : App) (vc : Nat) (screen : Screen) (e : Event) :
    a.erase.tap vc screen.erase e.erase = (a.tap vc screen e).map App.erase := by
  cases screen with
  | login view =>
    cases e with
    | typeLogin user =>
      exact congrArg some (erase_updateScreen a vc (Screen.erase_fillIn user)).symm
    | logInPressed user => exact congrArg some (erase_logInPressed a vc user).symm
    | _ => rfl
  | taskList model =>
    cases e with
    | infoPressed row =>
      show (model.data[row]?).map _ = ((model.data[row]?).map _).map _
      cases model.data[row]? with
      | none => rfl
      | some data => exact congrArg some (erase_jumpToScreen a _).symm
    | sortPressed => exact congrArg some (erase_jumpToScreen a .login).symm
    | addTaskButtonPressed => exact congrArg some (erase_jumpToScreen a (.taskEdit none)).symm
    | _ => rfl
  | taskDetail data =>
    cases e with
    | backPressed => exact congrArg some (erase_back a).symm
    | editPressed => exact congrArg some (erase_jumpToScreen a (.taskEdit data)).symm
    | deleteEventPressed => exact congrArg some (erase_deleteTask a vc _).symm
    | _ => rfl
  | taskEdit view =>
    cases e with
    | backPressed => exact congrArg some (erase_back a).symm
    | deleteEventPressed => exact congrArg some (erase_deleteTask a vc _).symm
    | form action => exact congrArg some (erase_updateScreen a vc (Screen.erase_act action)).symm
    | saveEventPressed now =>
      have herase : (Screen.taskEdit view).erase = .taskEdit view := rfl
      simp only [tap, Event.erase, herase]
      cases view.saveEventPressed now with
      | none => rfl
      | some task => exact congrArg some (erase_saveTask a vc task).symm
    | _ => rfl

/-- A screen that is blanked is found under its identity. -/
theorem find_erase (a : App) (vc : Nat) :
    a.erase.viewControllers.find? (fun v => v.id = vc) =
      (a.viewControllers.find? fun v => v.id = vc).map ViewController.erase := by
  show (a.viewControllers.map _).find? _ = _
  rw [List.find?_map]
  rfl

/-- Blanking changes no list. -/
theorem listModel_erase (a : App) (vc : Nat) : a.erase.listModel vc = a.listModel vc := by
  unfold listModel
  rw [find_erase]
  cases a.viewControllers.find? (fun v => v.id = vc) with
  | none => rfl
  | some v => exact model?_fillIn blankLogin v.screen

/-- **Step lemma**: blanking what is typed at login blanks the login forms and
    the login requests, and nothing else. -/
theorem step_erase (env : Environment) (a : App) (e : Event) :
    a.erase.step env e.erase = (a.step env e).map App.erase := by
  cases e with
  | willDisplay w row =>
    show a.erase.step env (.willDisplay w row) = _
    rw [step_willDisplay_eq, step_willDisplay_eq, listModel_erase]
    cases a.listModel w with
    | none => rfl
    | some model =>
      simp only [Option.bind_some]
      split
      · split
        · next request _ =>
          cases request with
          | none => rfl
          | some r => exact congrArg some (erase_send a (.getTaskList r (.nextTask w))).symm
        · rfl
      · rfl
  | deliver id body =>
    have hfind : a.erase.requests.find? (fun p => p.id = id) =
        (a.requests.find? fun p => p.id = id).map Pending.erase := by
      show (a.requests.map _).find? _ = _
      rw [List.find?_map]
      congr 2
      funext p
      simp
    simp only [step, Event.erase, hfind]
    cases a.requests.find? (fun p => p.id = id) with
    | none => rfl
    | some p =>
      simp only [Option.map_some, erase_respond, erase_dropRequest, Pending.erase_call]
  | _ =>
    have htop' : a.erase.topViewController = a.topViewController.map ViewController.erase :=
      List.getLast?_map
    cases htop : a.topViewController with
    | none => simp only [step, Event.erase, htop', htop, Option.map_none]
    | some v =>
      simp only [step, Event.erase, htop', htop, Option.map_some]
      exact .symm (erase_tap a v.id v.screen _).symm

/-- **Run lemma**: the same for whole runs. -/
theorem run_erase (env : Environment) (a : App) (es : List Event) :
    a.erase.run env (es.map Event.erase) = (a.run env es).map App.erase :=
  System.foldlM_map_of_step (step_erase env) a es

/-- Without a login in flight there are only forms to blank. -/
theorem erase_of_logins_eq_nil (h : a.logins = []) : a.erase = a.eraseForms := by
  have hrequests : a.requests.map Pending.erase = a.requests := by
    have hfilter := List.map_eq_nil_iff.mp h
    rw [List.map_eq_iff]
    intro i
    cases hi : a.requests[i]? with
    | none => rfl
    | some p =>
      have hlogin := List.filter_eq_nil_iff.mp hfilter p (List.mem_of_getElem? hi)
      rw [Option.map_some, Pending.erase_of_not_login (by simpa using hlogin)]
  unfold erase
  rw [hrequests]
  rfl

theorem logins_erase (a : App) : a.erase.logins = a.logins := by
  have hlogin : ∀ p : Pending, p.erase.call.isLogin = p.call.isLogin := by
    intro p
    rw [Pending.erase_call]
    cases p.call <;> rfl
  show ((a.requests.map _).filter _).map _ = (a.requests.filter _).map _
  rw [List.filter_map, List.map_map]
  congr 1
  · funext p
    simp
  · congr 1
    funext p
    exact hlogin p

end App

/-- **Secrecy.**  Two runs from the start whose events differ only in what is
    typed at login are possible together, and end in states that differ only in
    what the login forms on the stack hold and in the login requests in flight;
    once no login is in flight, they differ in the forms only. -/
theorem login_leaves_no_trace {env : Environment} {userToken : Option String}
    {es es' : List App.Event} (hsame : es.map App.Event.erase = es'.map App.Event.erase)
    {a : App} (hrun : (App.start userToken).run env es = some a) :
    ∃ a', (App.start userToken).run env es' = some a' ∧ a'.erase = a.erase ∧
      (a.logins = [] → a'.eraseForms = a.eraseForms) := by
  have hleft := App.run_erase env (App.start userToken) es
  have hright := App.run_erase env (App.start userToken) es'
  rw [hsame, hright, hrun] at hleft
  obtain ⟨a', ha', herase⟩ := Option.map_eq_some_iff.mp hleft
  refine ⟨a', ha', herase, ?_⟩
  intro hnone
  have hnone' : a'.logins = [] := by
    rw [← App.logins_erase, herase, App.logins_erase, hnone]
  rw [← App.erase_of_logins_eq_nil hnone', herase, App.erase_of_logins_eq_nil hnone]

/-- Another password, and the same first list. -/
theorem login_leaves_no_trace_password :
    ∃ a, (App.start none).run epochEnvironment
      (.logInPressed ⟨"a@b.c", "other", false⟩ :: App.toFirstList.tail) = some a ∧
      a.eraseForms = App.firstList.eraseForms := by
  have hsame : App.toFirstList.map App.Event.erase =
      (.logInPressed ⟨"a@b.c", "other", false⟩ :: App.toFirstList.tail).map App.Event.erase := rfl
  obtain ⟨a', hrun, _, heq⟩ := login_leaves_no_trace hsame App.run_toFirstList
  exact ⟨a', hrun, heq rfl⟩

end TimeManager
