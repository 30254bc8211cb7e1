import TimeManager.Framework.Checked
import TimeManager.Managers.RequesterURL

/-! # The Task-List Screen

    * `TaskListModel`: the list shown, and the paging counters that decide
      whether and what `getNextTask` asks the server for.
    * `TaskListScreen`: the model with its requests in flight, and the two
      events of the screen that touch them: a row is about to be displayed,
      and a response arrives.

    `DateFormats` stands for `DateFormatter`, whose texts depend on the
    locale and the time zone of the device. -/

namespace TimeManager

open Checked

/-! ## Section 1: The model -/

/-- The texts `DateFormatter` makes of a due date, for `MM/d/yy` and for
    `EEEE, d MMM, yyyy`. -/
structure DateFormats where
  short : Int → String
  long : Int → String

/-- What `DateFormatter` makes of the epoch, in English and at UTC. -/
def epochDates : DateFormats where
  short _ := "01/1/70"
  long _ := "Thursday, 1 Jan, 1970"

/-- A task of a list reply as the screens keep it. -/
def internalTaskData (dates : DateFormats) (task : TaskData) : InternalTaskData where
  id := task.id
  title := task.title
  description := task.title
  date := dates.short task.dueBy
  longDate := dates.long task.dueBy
  priority := task.priority

/-- The product and the next page that a request on these counters takes are
    in range.  On page `0` nothing is computed. -/
def CountersFit (page limit totalCounts : Int) : Prop :=
  page = 0 ∨ InRange (page * limit) ∧ (page * limit < totalCounts → InRange (page + 1))

instance (page limit totalCounts : Int) : Decidable (CountersFit page limit totalCounts) := by
  unfold CountersFit; infer_instance

structure TaskListModel where
  data : List InternalTaskData := []
  sorting : SortingTypesEnum := .title
  direction : Bool := true
  page : Int := 0
  totalCounts : Int := 0
  limit : Int := 15
deriving DecidableEq, Repr

namespace TaskListModel

def makeTestData : List InternalTaskData :=
  [{ id := 1, title := "", description := "The first description", date := "02/19/19",
     longDate := "Thuesday 19 Feb, 2019", priority := .low },
   { id := 2, title := "", description := "Second description", date := "02/19/19",
     longDate := "Thuesday 19 Feb, 2019", priority := .normal }]

/-- `init()`: a model with two tasks to show before any are loaded. -/
def new : TaskListModel where
  data := makeTestData

/-- `init(list:)`: the tasks of a reply, with empty dates. -/
def ofList (list : Option TaskList) : TaskListModel where
  data := ((list.bind (·.tasks)).map fun tasks => tasks.map fun task =>
    { id := task.id, title := task.title, description := task.title, date := "", longDate := "",
      priority := task.priority }).getD []

def setSeekParameters (m : TaskListModel) (page : Int) (sorting : SortingTypesEnum)
    (direction : Bool) : TaskListModel :=
  { m with page := page, sorting := sorting, direction := direction }

/-- The model the coordinator makes from a list reply. -/
def seeded (list : Option TaskList) : TaskListModel :=
  (ofList list).setSeekParameters 1 .title true

/-- The guard of `getNextTask`.  The product is not formed on page `0`. -/
def hasNext (m : TaskListModel) : Except Trap Bool :=
  -- `||` does not look at the product then
  if m.page = 0 then .ok true
  else (mul m.page m.limit).map fun loaded => decide (loaded < m.totalCounts)

/-- The request for the next page, or none where the guard fails. -/
def getNextTask (m : TaskListModel) : Except Trap (Option ListRequest) :=
  m.hasNext.bind fun more =>
    if more then (add m.page 1).map fun page => some ⟨page, m.sorting, m.direction⟩
    else .ok none

/-- The arithmetic of `getNextTask` stays in range. -/
def Fits (m : TaskListModel) : Prop := CountersFit m.page m.limit m.totalCounts

instance (m : TaskListModel) : Decidable m.Fits :=
  inferInstanceAs (Decidable (CountersFit m.page m.limit m.totalCounts))

/-- The model `getFirstTasks` leaves: page `0` and no data. -/
def reset (m : TaskListModel) : TaskListModel :=
  { m.setSeekParameters 0 m.sorting m.direction with data := [] }

def getFirstTasks (m : TaskListModel) : Except Trap (TaskListModel × Option ListRequest) :=
  m.reset.getNextTask.map fun request => (m.reset, request)

/-- The closure `successAll` of `getNextTask`, less the call of `success`. -/
def successAll (dates : DateFormats) (m : TaskListModel) (task : TaskList) : TaskListModel :=
  { m with
    page := (task.meta.map (·.current)).getD 1
    totalCounts := (task.meta.map (·.count)).getD 15
    limit := (task.meta.map (·.limit)).getD 1
    data := m.data ++ (task.tasks.map (·.map (internalTaskData dates))).getD [] }

/-- What a completion of a list request does to the model: the error closures
    do not touch it. -/
def complete (dates : DateFormats) (m : TaskListModel) : Completion TaskList TaskList → TaskListModel
  | .toDoIfSuccess task => m.successAll dates task
  | .toDoIfError _ => m

/-- What a response to a list request does to the model. -/
def respond (dates : DateFormats) (m : TaskListModel) (response : Option (Payload TaskList)) :
    TaskListModel :=
  (RequesterURL.getTaskListResponse response).foldl (complete dates) m

/-! ### What a call of the model sends -/

@[simp] theorem reset_page (m : TaskListModel) : m.reset.page = 0 := rfl
@[simp] theorem reset_data (m : TaskListModel) : m.reset.data = [] := rfl

@[simp] theorem seeded_page (list : Option TaskList) : (seeded list).page = 1 := rfl
@[simp] theorem seeded_limit (list : Option TaskList) : (seeded list).limit = 15 := rfl
@[simp] theorem seeded_totalCounts (list : Option TaskList) : (seeded list).totalCounts = 0 := rfl

theorem hasNext_zero {m : TaskListModel} (h : m.page = 0) : m.hasNext = .ok true := by
  simp [hasNext, h]

theorem hasNext_of_inRange {m : TaskListModel} (h : m.page ≠ 0)
    (hrange : InRange (m.page * m.limit)) :
    m.hasNext = .ok (decide (m.page * m.limit < m.totalCounts)) := by
  rw [hasNext, if_neg h, mul, checked_of_inRange hrange]
  rfl

/-- On page `0` a request for page `1` is sent, whatever the counters are. -/
theorem getNextTask_zero {m : TaskListModel} (h : m.page = 0) :
    m.getNextTask = .ok (some ⟨1, m.sorting, m.direction⟩) := by
  rw [getNextTask, hasNext_zero h, h]
  rfl

/-- `getFirstTasks` never traps and always asks for page `1`. -/
theorem getFirstTasks_eq (m : TaskListModel) :
    m.getFirstTasks = .ok (m.reset, some ⟨1, m.sorting, m.direction⟩) := by
  rw [getFirstTasks, getNextTask_zero m.reset_page]
  rfl

/-- Everything `getNextTask` can do, with what it relies on. -/
theorem getNextTask_cases {m : TaskListModel} {r : Option ListRequest}
    (h : m.getNextTask = .ok r) :
    (m.page = 0 ∧ r = some ⟨1, m.sorting, m.direction⟩) ∨
    (m.page ≠ 0 ∧ m.page * m.limit < m.totalCounts ∧
      r = some ⟨m.page + 1, m.sorting, m.direction⟩) ∨
    (m.page ≠ 0 ∧ m.totalCounts ≤ m.page * m.limit ∧ r = none) := by
  by_cases hzero : m.page = 0
  · rw [getNextTask_zero hzero] at h
    exact .inl ⟨hzero, (Except.ok.inj h).symm⟩
  · right
    -- past page 0 the guard forms the product
    by_cases hrange : InRange (m.page * m.limit)
    · rw [getNextTask, hasNext_of_inRange hzero hrange] at h
      by_cases hmore : m.page * m.limit < m.totalCounts
      · left
        -- the request adds one to the page
        by_cases hadd : InRange (m.page + 1)
        · simp only [Except.bind, hmore, decide_true, if_true, add, checked_of_inRange hadd,
            Except.map, Except.ok.injEq] at h
          exact ⟨hzero, hmore, h.symm⟩
        · simp [Except.bind, hmore, add, checked, hadd, Except.map] at h
      · right
        simp only [Except.bind, hmore, decide_false, Bool.false_eq_true, if_false,
          Except.ok.injEq] at h
        exact ⟨hzero, Int.not_lt.mp hmore, h.symm⟩
    · simp [getNextTask, hasNext, hzero, mul, checked, hrange, Except.map, Except.bind] at h

/-- Where nothing overflows, `getNextTask` sends exactly while elements are
    left after the current page. -/
theorem getNextTask_of_inRange {m : TaskListModel} (hzero : m.page ≠ 0)
    (hmul : InRange (m.page * m.limit))
    (hadd : m.page * m.limit < m.totalCounts → InRange (m.page + 1)) :
    m.getNextTask = .ok (if m.page * m.limit < m.totalCounts
      then some ⟨m.page + 1, m.sorting, m.direction⟩ else none) := by
  rw [getNextTask, hasNext_of_inRange hzero hmul]
  by_cases hmore : m.page * m.limit < m.totalCounts
  · simp [Except.bind, hmore, add, checked_of_inRange (hadd hmore), Except.map]
  · simp [Except.bind, hmore]

/-- Where the arithmetic of `getNextTask` overflows, and only there, it traps. -/
theorem getNextTask_ok_iff {m : TaskListModel} :
    (∃ r, m.getNextTask = .ok r) ↔ m.Fits := by
  constructor
  · rintro ⟨r, h⟩
    by_cases hzero : m.page = 0
    · exact .inl hzero
    · right
      by_cases hmul : InRange (m.page * m.limit)
      · refine ⟨hmul, fun hmore => ?_⟩
        -- the request could be formed, so the next page is in range
        by_contra hadd
        rw [getNextTask, hasNext_of_inRange hzero hmul] at h
        simp [Except.bind, hmore, add, checked, hadd, Except.map] at h
      · simp [getNextTask, hasNext, hzero, mul, checked, hmul, Except.map, Except.bind] at h
  · rintro (hzero | ⟨hmul, hadd⟩)
    · exact ⟨_, getNextTask_zero hzero⟩
    · by_cases hzero : m.page = 0
      · exact ⟨_, getNextTask_zero hzero⟩
      · exact ⟨_, getNextTask_of_inRange hzero hmul hadd⟩

end TaskListModel

/-! ## Section 2: The screen -/

/-- The screen's model and the list requests it has sent and not yet had
    answered, the oldest first. -/
structure TaskListScreen where
  model : TaskListModel
  inFlight : List ListRequest

/-- The events of the screen. -/
inductive TaskListScreen.Event where
  /-- The table is about to display a row of the current data. -/
  | willDisplay (row : Nat)
  /-- The `i`-th request in flight is answered. -/
  | deliver (i : Nat) (response : Option (Payload TaskList))

/-- `tableView(_:willDisplay:forRowAt:)`: the row ten before the end asks for
    more. -/
def TaskListModel.willDisplay (m : TaskListModel) (row : Nat) : Except Trap (Option ListRequest) :=
  if (m.data.length : Int) - row = 10 then m.getNextTask else .ok none

namespace TaskListScreen

/-- `viewDidLoad` on a screen made with the given model. -/
def viewDidLoad (m : TaskListModel) : Except Trap TaskListScreen :=
  m.getFirstTasks.map fun (m, request) => ⟨m, request.toList⟩

/-- One event of the screen.  An event that is not possible, or one that
    aborts the app, has no result. -/
def step (dates : DateFormats) (s : TaskListScreen) : Event → Option TaskListScreen
  | .willDisplay row =>
    if row < s.model.data.length then
      match s.model.willDisplay row with
      | .ok request => some { s with inFlight := s.inFlight ++ request.toList }
      | .error _ => none
    else none
  | .deliver i response =>
    if i < s.inFlight.length then
      some { model := s.model.respond dates response, inFlight := s.inFlight.eraseIdx i }
    else none

theorem viewDidLoad_eq (m : TaskListModel) :
    viewDidLoad m = .ok ⟨m.reset, [⟨1, m.sorting, m.direction⟩]⟩ := by
  rw [viewDidLoad, m.getFirstTasks_eq]
  rfl

/-- What a display event does: nothing, or a request that `getNextTask` asks for. -/
theorem step_willDisplay {dates : DateFormats} {s s' : TaskListScreen} {row : Nat}
    (h : s.step dates (.willDisplay row) = some s') :
    row < s.model.data.length ∧ s'.model = s.model ∧
      ((s'.inFlight = s.inFlight) ∨
       (∃ r, s.model.getNextTask = .ok (some r) ∧ s'.inFlight = s.inFlight ++ [r])) := by
  simp only [step] at h
  split at h
  · next hrow =>
    split at h
    · next request hreq =>
      obtain rfl := Option.some.inj h
      refine ⟨hrow, rfl, ?_⟩
      cases request with
      | none => exact .inl (List.append_nil _)
      | some r =>
        right
        unfold TaskListModel.willDisplay at hreq
        split at hreq
        · exact ⟨r, hreq, rfl⟩
        · cases hreq
    · cases h
  · cases h

/-- What a delivery does. -/
theorem step_deliver {dates : DateFormats} {s s' : TaskListScreen} {i : Nat}
    {response : Option (Payload TaskList)} (h : s.step dates (.deliver i response) = some s') :
    i < s.inFlight.length ∧
      s' = ⟨s.model.respond dates response, s.inFlight.eraseIdx i⟩ := by
  simp only [step] at h
  split at h
  · next hi => exact ⟨hi, (Option.some.inj h).symm⟩
  · cases h

end TaskListScreen

end TimeManager
