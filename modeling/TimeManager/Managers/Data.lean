/-! # Data Model

    The values the app keeps and exchanges with the server.  Optional
    properties are `Option`s; `Int` properties hold what the source keeps in
    a 64-bit `Int`. -/

namespace TimeManager

/-! ## Section 1: Enumerations -/

inductive PriorityEnum where
  | high
  | low
  | normal
deriving DecidableEq, Repr

def PriorityEnum.rawValue : PriorityEnum → String
  | .high => "High"
  | .low => "Low"
  | .normal => "Normal"

inductive SortingTypesEnum where
  | title
  | time
  | priority
deriving DecidableEq, Repr

def SortingTypesEnum.rawValue : SortingTypesEnum → String
  | .title => "title"
  | .time => "dueBy"
  | .priority => "priority"

/-! ## Section 2: What the server sends -/

structure TaskData where
  id : Int
  title : String
  dueBy : Int
  priority : PriorityEnum
deriving DecidableEq, Repr

structure TaskDetail where
  task : Option TaskData
  message : Option String
deriving DecidableEq, Repr

structure Meta where
  current : Int
  limit : Int
  count : Int
deriving DecidableEq, Repr

structure TaskList where
  tasks : Option (List TaskData)
  «meta» : Option Meta
  message : Option String
deriving DecidableEq, Repr

namespace LoginResultData

structure Field where
  password : Option (List String)
  email : Option (List String)
deriving DecidableEq, Repr

end LoginResultData

structure LoginResultData where
  token : Option String
  message : Option String
  fields : Option LoginResultData.Field
deriving DecidableEq, Repr

/-! ## Section 3: What the app keeps -/

structure LoginData where
  mail : String
  password : String
  doRegister : Bool
deriving DecidableEq, Repr

/-- A task as the screens show it.  The due date is kept as two texts. -/
structure InternalTaskData where
  id : Int
  title : String
  description : String
  date : String
  longDate : String
  priority : PriorityEnum
deriving DecidableEq, Repr

end TimeManager
