import TimeManager.Managers.JSONDecoder
import TimeManager.Screens.Login
import TimeManager.Screens.TaskEdit
import TimeManager.Screens.TaskList

/-! # The App

    The coordinator with everything its screens share: its record of the
    screens, the stack of the navigation controller, the stored token, and
    the requests that wait for their responses.

    * A view controller has an identity.  A closure that holds one weakly
      does nothing once it is no longer on the stack (`App.isLive`).
    * A request waits together with the call it was sent by, which says what
      its closures do (`Call`).
    * `App.step` is one event: a tap on the top screen, a row about to be
      displayed, or a response. -/

namespace TimeManager

open Checked RequesterURL

/-! ## Section 1: Screens and calls -/

inductive AvailableScreens where
  | login
  | taskList (list : Option TaskList)
  | taskDetail (data : Option InternalTaskData)
  | taskEdit (data : Option InternalTaskData)
deriving DecidableEq, Repr

/-- What a view controller shows. -/
inductive Screen where
  | login (view : LoginMainView)
  | taskList (model : TaskListModel)
  | taskDetail (data : Option InternalTaskData)
  | taskEdit (view : TaskEditMainView)
deriving DecidableEq, Repr

/-- Change the model of a list screen. -/
def Screen.updateModel (f : TaskListModel → TaskListModel) : Screen → Screen
  | .taskList model => .taskList (f model)
  | screen => screen

/-- Fill in the form of a login screen. -/
def Screen.fillIn (data : LoginData) : Screen → Screen
  | .login _ => .login (LoginMainView.setData data)
  | screen => screen

/-- Act on the form of an edit screen. -/
def Screen.act (action : FormAction) : Screen → Screen
  | .taskEdit view => .taskEdit (view.act action)
  | screen => screen

/-- A view controller on the stack.  `madeFrom` is the argument of the
    `jumpToScreen` that made it. -/
structure ViewController where
  id : Nat
  madeFrom : AvailableScreens
  screen : Screen
deriving DecidableEq, Repr

/-- Change what the view controller shows, if it is the one with the identity `vc`. -/
def ViewController.update (vc : Nat) (f : Screen → Screen) (v : ViewController) : ViewController :=
  if v.id = vc then { v with screen := f v.screen } else v

/-- Who called `getTaskList`. -/
inductive ListCaller where
  /-- The coordinator, after a login. -/
  | coordinator
  /-- `getFirstTasks` of the list screen `vc`. -/
  | firstTasks (vc : Nat)
  /-- `getNextTask` of the list screen `vc`. -/
  | nextTask (vc : Nat)
deriving DecidableEq, Repr

/-- A call of `RequesterURL` with the screen whose closures it was given. -/
inductive Call where
  | loginUser (user : LoginData) (vc : Nat)
  | getTaskList (request : ListRequest) (caller : ListCaller)
  | deleteTask (id : Int) (vc : Nat)
  | updateTask (task : TaskData) (vc : Nat)
  | createTask (task : TaskData) (vc : Nat)
deriving DecidableEq, Repr

def Call.operation : Call → Operation
  | .loginUser user _ => .loginUser user
  | .getTaskList request _ => .getTaskList request
  | .deleteTask id _ => .deleteTask id
  | .updateTask task _ => .updateTask task
  | .createTask task _ => .createTask task

/-- A request that waits for its response. -/
structure Pending where
  id : Nat
  call : Call
  request : Request
deriving DecidableEq, Repr

/-- An alert and the screen that called `present` with it. -/
structure Alert where
  vc : Nat
  title : String
  message : Option String
deriving DecidableEq, Repr

/-- What the app uses of the device: `DateFormatter` and `JSONDecoder`. -/
structure Environment where
  dates : DateFormats
  decoder : JSONDecoder

/-- The state of the app.  The bottom screen comes first; `presented` logs
    the calls of `present` with an alert, the latest last.  (Whether UIKit
    shows an alert while another one is shown is not modelled.) -/
structure App where
  navigationScreens : List AvailableScreens
  viewControllers : List ViewController
  userToken : Option String
  requests : List Pending
  presented : List Alert
  nextScreen : Nat
  nextRequest : Nat
deriving DecidableEq

namespace App

/-! ## Section 2: The coordinator and the navigation controller -/

def topViewController (a : App) : Option ViewController := a.viewControllers.getLast?

/-- Whether a weak reference to the view controller is not `nil`. -/
def isLive (a : App) (vc : Nat) : Bool := a.viewControllers.any fun v => v.id = vc

def send (a : App) (call : Call) : App :=
  { a with
    requests := a.requests ++ [⟨a.nextRequest, call, call.operation.request a.userToken⟩]
    nextRequest := a.nextRequest + 1 }

def sendIfAny (a : App) : Option Call → App
  | none => a
  | some call => a.send call

def record (a : App) (screen : AvailableScreens) : App :=
  { a with navigationScreens := a.navigationScreens ++ [screen] }

def pushViewController (a : App) (contr : ViewController) : App :=
  { a with viewControllers := a.viewControllers ++ [contr], nextScreen := a.nextScreen + 1 }

/-- The navigation controller keeps its only screen. -/
def popViewController (a : App) : App :=
  if a.viewControllers.length ≤ 1 then a
  else { a with viewControllers := a.viewControllers.dropLast }

def makeLogin (a : App) : App :=
  (a.record .login).pushViewController
    ⟨a.nextScreen, .login, .login LoginMainView.fromStoryboard⟩

/-- Setting the event handler loads the view, so `viewDidLoad` asks for the
    first tasks before the screen is pushed. -/
def makeTaskList (a : App) (list : Option TaskList) : App :=
  match ((TaskListModel.ofList list).setSeekParameters 1 .title true).getFirstTasks with
  | .ok (model, request) =>
    ((a.record (.taskList list)).sendIfAny
      (request.map fun r => .getTaskList r (.firstTasks a.nextScreen))).pushViewController
      ⟨a.nextScreen, .taskList list, .taskList model⟩
  | .error _ => a -- `getFirstTasks` never traps

def makeTaskDetail (a : App) (data : Option InternalTaskData) : App :=
  (a.record (.taskDetail data)).pushViewController ⟨a.nextScreen, .taskDetail data, .taskDetail data⟩

def makeTaskEdit (a : App) (data : Option InternalTaskData) : App :=
  (a.record (.taskEdit data)).pushViewController
    ⟨a.nextScreen, .taskEdit data, .taskEdit (TaskEditMainView.setData data)⟩

def jumpToScreen (a : App) : AvailableScreens → App
  | .login => a.makeLogin
  | .taskList list => a.makeTaskList list
  | .taskDetail data => a.makeTaskDetail data
  | .taskEdit data => a.makeTaskEdit data

/-- The back event of a detail or edit screen. -/
def back (a : App) : App :=
  { a with navigationScreens := a.navigationScreens.dropLast }.popViewController

/-- `start()`, with the token stored by an earlier run of the app. -/
def start (userToken : Option String) : App :=
  (⟨[], [], userToken, [], [], 0, 0⟩ : App).jumpToScreen .login

/-! ## Section 3: What the closures do -/

/-- The closures hold the screen weakly: without it there is no call of
    `present`. -/
def presentAlert (a : App) (vc : Nat) (title : String) (message : Option String) : App :=
  if a.isLive vc then { a with presented := a.presented ++ [⟨vc, title, message⟩] } else a

/-- Change what the screen `vc` shows. -/
def updateScreen (a : App) (vc : Nat) (f : Screen → Screen) : App :=
  { a with viewControllers := a.viewControllers.map (ViewController.update vc f) }

/-- The closures of `LogInPressed`, and the coordinator's `.loginPressed`. -/
def loginCompletion (vc : Nat) (a : App) : Completion LoginResultData LoginResultData → App
  | .toDoIfSuccess _ =>
    if a.isLive vc then a.send (.getTaskList ⟨1, .title, true⟩ .coordinator) else a
  | .toDoIfError result => a.presentAlert vc "Error in the fields" result.message

/-- The closures of the three callers of `getTaskList`.  The coordinator and
    `getNextTask` have no error closure. -/
def listCompletion (env : Environment) (caller : ListCaller) (a : App)
    (c : Completion TaskList TaskList) : App :=
  match caller, c with
  | .coordinator, .toDoIfSuccess list => a.jumpToScreen (.taskList (some list))
  -- `toDoIfError` is `nil`
  | .coordinator, .toDoIfError _ => a
  | .firstTasks vc, .toDoIfSuccess list =>
    a.updateScreen vc (Screen.updateModel (·.successAll env.dates list))
  | .firstTasks vc, .toDoIfError list =>
    a.presentAlert vc "Error in the result" (some (list.message.getD ""))
  | .nextTask vc, .toDoIfSuccess list =>
    a.updateScreen vc (Screen.updateModel (·.successAll env.dates list))
  -- `ifError` is `nil`
  | .nextTask _, .toDoIfError _ => a

/-- The success closures of a delete and of a save: the coordinator shows a
    new list. -/
def refresh (a : App) (vc : Nat) : App :=
  if a.isLive vc then a.jumpToScreen (.taskList none) else a

/-- The closures of a delete, on the detail and on the edit screen. -/
def deleteCompletion (vc : Nat) (a : App) : Completion Unit TaskList → App
  | .toDoIfSuccess () => a.refresh vc
  | .toDoIfError list => a.presentAlert vc "Error in deleting" list.message

/-- The closures of a save (the title of the alert is the one of a delete). -/
def saveCompletion (vc : Nat) (a : App) : Completion TaskDetail TaskDetail → App
  | .toDoIfSuccess _ => a.refresh vc
  | .toDoIfError detail => a.presentAlert vc "Error in deleting" detail.message

/-- What the response to a call does. -/
def respond (env : Environment) (a : App) (call : Call) (body : Option (List UInt8)) : App :=
  match call with
  | .loginUser _ vc =>
    let result := loginUserResponse a.userToken
      (body.map (Payload.read env.decoder.loginResultData))
    result.2.foldl (loginCompletion vc) { a with userToken := result.1 }
  | .getTaskList _ caller =>
    (getTaskListResponse (body.map (Payload.read env.decoder.taskList))).foldl
      (listCompletion env caller) a
  | .deleteTask _ vc =>
    (deleteTaskResponse (body.map (Payload.read env.decoder.taskList))).foldl
      (deleteCompletion vc) a
  | .updateTask _ vc =>
    (updateTaskResponse (body.map (Payload.read env.decoder.taskDetail))).foldl
      (saveCompletion vc) a
  | .createTask _ vc =>
    (createTaskResponse (body.map (Payload.read env.decoder.taskDetail))).foldl
      (saveCompletion vc) a

/-! ## Section 4: Events -/

inductive Event where
  /-- The user fills in the login form, and leaves it at that. -/
  | typeLogin (user : LoginData)
  /-- The user fills in the login form and presses the button. -/
  | logInPressed (user : LoginData)
  /-- The info button of a row of the list. -/
  | infoPressed (row : Nat)
  | sortPressed
  | addTaskButtonPressed
  | backPressed
  | editPressed
  | deleteEventPressed
  | form (action : FormAction)
  | saveEventPressed (now : Int)
  /-- A row of the list screen `vc` is about to be displayed. -/
  | willDisplay (vc row : Nat)
  /-- The response to the request `id`: its body, if there is any. -/
  | deliver (id : Nat) (body : Option (List UInt8))

/-- `LogInPressed` of the login screen `vc`, whose form is filled in as `user`. -/
def logInPressed (a : App) (vc : Nat) (user : LoginData) : App :=
  (a.updateScreen vc (Screen.fillIn user)).send
    (.loginUser (LoginMainView.setData user).getData vc)

/-- `RequesterURL.deleteTask`, called by a screen: without an id the error
    closure is called at once. -/
def deleteTask (a : App) (vc : Nat) : Option Int → App
  | none => deleteCompletion vc a (.toDoIfError notSaved)
  | some id => a.send (.deleteTask id vc)

/-- The `.saveTask` event of the edit screen. -/
def saveTask (a : App) (vc : Nat) (task : TaskData) : App :=
  -- a task without an id of the server is a new one
  if task.id < 0 then a.send (.createTask task vc) else a.send (.updateTask task vc)

/-- A tap on the top screen, which shows `screen`. -/
def tap (a : App) (vc : Nat) (screen : Screen) (e : Event) : Option App :=
  match screen, e with
  | .login _, .typeLogin user => some (a.updateScreen vc (Screen.fillIn user))
  | .login _, .logInPressed user => some (a.logInPressed vc user)
  | .taskList model, .infoPressed row =>
    (model.data[row]?).map fun data => a.jumpToScreen (.taskDetail (some data))
  -- the sort button opens the login screen
  | .taskList _, .sortPressed => some (a.jumpToScreen .login)
  | .taskList _, .addTaskButtonPressed => some (a.jumpToScreen (.taskEdit none))
  | .taskDetail _, .backPressed => some a.back
  | .taskDetail data, .editPressed => some (a.jumpToScreen (.taskEdit data))
  | .taskDetail data, .deleteEventPressed => some (a.deleteTask vc (data.map (·.id)))
  | .taskEdit _, .backPressed => some a.back
  | .taskEdit view, .deleteEventPressed => some (a.deleteTask vc (view.data.map (·.id)))
  | .taskEdit _, .form action => some (a.updateScreen vc (Screen.act action))
  | .taskEdit view, .saveEventPressed now =>
    match view.saveEventPressed now with
    | some task => some (a.saveTask vc task)
    -- an empty title: nothing happens
    | none => some a
  | _, _ => none

/-- The request `id` no longer waits. -/
def dropRequest (a : App) (id : Nat) : App :=
  { a with requests := a.requests.filter fun q => q.id ≠ id }

@[simp] theorem dropRequest_userToken (a : App) (id : Nat) :
    (a.dropRequest id).userToken = a.userToken := rfl

/-- One event.  An event that is not possible, or one that aborts the app,
    has no result. -/
def step (env : Environment) (a : App) : Event → Option App
  | .willDisplay vc row =>
    match a.viewControllers.find? (fun v => v.id = vc) with
    | some ⟨_, _, .taskList model⟩ =>
      if row < model.data.length then
        match model.willDisplay row with
        | .ok request =>
          some (a.sendIfAny (request.map fun r => .getTaskList r (.nextTask vc)))
        -- the arithmetic of `getNextTask` overflows
        | .error _ => none
      else none
    | _ => none
  | .deliver id body =>
    match a.requests.find? (fun p => p.id = id) with
    | some p => some ((a.dropRequest id).respond env p.call body)
    | none => none
  | e =>
    match a.topViewController with
    | some v => a.tap v.id v.screen e
    | none => none

/-- Events one after another. -/
def run (env : Environment) (a : App) (es : List Event) : Option App :=
  es.foldlM (step env) a

theorem run_cons (env : Environment) (a : App) (e : Event) (es : List Event) :
    a.run env (e :: es) = (a.step env e).bind fun b => b.run env es := rfl

theorem run_append (env : Environment) (a : App) (es es' : List Event) :
    a.run env (es ++ es') = (a.run env es).bind fun b => b.run env es' := by
  show List.foldlM _ _ _ = _
  rw [List.foldlM_append]
  rfl

end App

/-- The bytes of a body with the given text. -/
def utf8 (text : String) : Option (List UInt8) := some text.toByteArray.data.toList

/-- A device on which the only due dates are at the epoch. -/
def epochEnvironment : Environment := ⟨epochDates, .standard⟩

end TimeManager
