import TimeManager.Managers.Data

/-! # Requests and Response Handlers

    `RequesterURL`: the requests the app sends and the handlers of their
    responses.

    A handler sees a response as an optional `Payload`: the number of bytes
    of the body and what `JSONDecoder` makes of them.  It calls the closures
    it was given, which is recorded as the list of its `Completion`s in the
    order of the calls.  `loginUser` also writes the stored token. -/

namespace TimeManager

/-! ## Section 1: Requests -/

inductive HTTPMethod where
  | get
  | post
  | put
  | delete
deriving DecidableEq, Repr

inductive ParameterValue where
  | string (s : String)
  | int (n : Int)
deriving DecidableEq, Repr

/-- How the parameters of a request travel. -/
inductive Parameters where
  | none
  | query (ps : List (String × String))
  | json (ps : List (String × ParameterValue))
  | httpBody (text : String)
deriving DecidableEq, Repr

structure Request where
  method : HTTPMethod
  url : String
  headers : List (String × String)
  parameters : Parameters
deriving DecidableEq, Repr

/-- The arguments of a call of `getTaskList`. -/
structure ListRequest where
  page : Int
  sorting : SortingTypesEnum
  direction : Bool
deriving DecidableEq, Repr

/-- One call of `RequesterURL` that sends a request, with its arguments. -/
inductive Operation where
  | loginUser (user : LoginData)
  | getTaskList (request : ListRequest)
  | deleteTask (id : Int)
  | updateTask (task : TaskData)
  | createTask (task : TaskData)
deriving DecidableEq, Repr

namespace RequesterURL

def mainURL : String := "https://testapi.doitserver.in.ua/api"

/-- The value of the `Authorization` header. -/
def bearer (userToken : Option String) : String := "Bearer " ++ userToken.getD ""

def headers (userToken : Option String) : List (String × String) :=
  [("Authorization", bearer userToken), ("Accept", "application/json")]

/-- The text of the body of a login request.  (`\x7b` and `\x7d` are the
    braces of the template.) -/
def loginBody (user : LoginData) : String :=
  "\x7b\n    \"email\": \"" ++ user.mail ++ "\",\n    \"password\": \"" ++ user.password ++ "\"\n\x7d"

def loginUser (user : LoginData) : Request where
  method := .post
  url := mainURL ++ (if user.doRegister then "/users" else "/auth")
  headers := [("Content-Type", "application/json; charset=UTF-8")]
  parameters := .httpBody (loginBody user)

/-- The `sort` parameter: the two branches differ in the blank. -/
def sortParameter (sorting : SortingTypesEnum) (direction : Bool) : String :=
  sorting.rawValue ++ (if direction then " asc" else "desc")

def getTaskList (userToken : Option String) (request : ListRequest) : Request where
  method := .get
  url := mainURL ++ "/tasks"
  headers := headers userToken
  parameters := .query [("page", toString request.page),
    ("sort", sortParameter request.sorting request.direction)]

def deleteTask (userToken : Option String) (id : Int) : Request where
  method := .delete
  url := mainURL ++ "/tasks/" ++ toString id
  headers := headers userToken
  parameters := .none

def taskParameters (task : TaskData) : Parameters :=
  .json [("title", .string task.title), ("dueBy", .int task.dueBy),
    ("priority", .string task.priority.rawValue)]

def updateTask (userToken : Option String) (task : TaskData) : Request where
  method := .put
  url := mainURL ++ "/tasks/" ++ toString task.id
  headers := headers userToken
  parameters := taskParameters task

def createTask (userToken : Option String) (task : TaskData) : Request where
  method := .post
  url := mainURL ++ "/tasks"
  headers := headers userToken
  parameters := taskParameters task

/-- What `deleteTask` reports for a task without an id, sending nothing. -/
def notSaved : TaskList where
  tasks := none
  «meta» := none
  message := some "The task was not saved - You can not delete it"

end RequesterURL

/-- The request an operation sends when `userToken` is stored. -/
def Operation.request (userToken : Option String) : Operation → Request
  | .loginUser user => RequesterURL.loginUser user
  | .getTaskList request => RequesterURL.getTaskList userToken request
  | .deleteTask id => RequesterURL.deleteTask userToken id
  | .updateTask task => RequesterURL.updateTask userToken task
  | .createTask task => RequesterURL.createTask userToken task

/-! ## Section 2: Response handlers -/

/-- The body of a response as a handler sees it: its number of bytes and
    what `JSONDecoder` makes of them, `none` where it throws. -/
structure Payload (α : Type) where
  count : Nat
  decoded : Option α
deriving DecidableEq, Repr

/-- The payload of a body under a decoder. -/
def Payload.read {α : Type} (decode : List UInt8 → Option α) (data : List UInt8) : Payload α :=
  ⟨data.length, decode data⟩

/-- A call of one of the two closures a handler was given. -/
inductive Completion (σ ε : Type) where
  | toDoIfSuccess (result : σ)
  | toDoIfError (result : ε)
deriving DecidableEq, Repr

namespace RequesterURL

/-- The handler of `loginUser`: the token stored afterwards, and the calls. -/
def loginUserResponse (userToken : Option String) (response : Option (Payload LoginResultData)) :
    Option String × List (Completion LoginResultData LoginResultData) :=
  match response with
  -- without data, and where decoding throws, the handler only prints
  | none => (userToken, [])
  | some data =>
    match data.decoded with
    | none => (userToken, [])
    | some result =>
      match result.token with
      | some token => (some token, [.toDoIfSuccess result])
      -- a reply without a token removes the stored one
      | none => (none, [.toDoIfError result])

def getTaskListResponse (response : Option (Payload TaskList)) :
    List (Completion TaskList TaskList) :=
  match response with
  | none => []
  | some data =>
    match data.decoded with
    | none => []
    | some result =>
      match result.meta, result.tasks with
      -- the message of the reply is not handed on
      | some «meta», some tasks => [.toDoIfSuccess ⟨some tasks, some «meta», none⟩]
      | _, _ => [.toDoIfError result]

/-- The handler of `deleteTask`: after the call for a body of two bytes it
    goes on to decode that body. -/
def deleteTaskResponse (response : Option (Payload TaskList)) :
    List (Completion Unit TaskList) :=
  match response with
  | none => []
  | some data =>
    -- there is no return after this call
    (if data.count = 2 then [.toDoIfSuccess ()] else []) ++
      match data.decoded with
      | none => []
      | some result =>
        match result.message with
        | some _ => [.toDoIfError result]
        | none => [.toDoIfSuccess ()]

/-- The end that the handlers of `updateTask` and `createTask` share. -/
def taskDetailResult (result : TaskDetail) : List (Completion TaskDetail TaskDetail) :=
  match result.message with
  | some _ => [.toDoIfError result]
  | none => [.toDoIfSuccess result]

/-- The handler of `updateTask`: it returns after a body of two bytes. -/
def updateTaskResponse (response : Option (Payload TaskDetail)) :
    List (Completion TaskDetail TaskDetail) :=
  match response with
  | none => []
  | some data =>
    -- whatever the two bytes are
    if data.count = 2 then [.toDoIfSuccess ⟨none, none⟩]
    else
      match data.decoded with
      | none => []
      | some result => taskDetailResult result

def createTaskResponse (response : Option (Payload TaskDetail)) :
    List (Completion TaskDetail TaskDetail) :=
  match response with
  | none => []
  | some data =>
    match data.decoded with
    | none => []
    | some result => taskDetailResult result

end RequesterURL

end TimeManager
