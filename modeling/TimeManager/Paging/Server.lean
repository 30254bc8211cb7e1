import TimeManager.Framework.Pages
import TimeManager.Screens.TaskList

/-! # The Server's Side of Paging

    What the paging results assume of the server: it holds a list `L` of
    tasks and a page limit `l`, and answers the request for page `p` with
    the `p`-th page of `L` and with `{current: p, limit: l, count: |L|}`. -/

namespace TimeManager

open RequesterURL

/-- The meta data of page `p`. -/
def pageMeta (L : List TaskData) (l : Nat) (p : Int) : Meta where
  current := p
  limit := l
  count := L.length

/-- What identifies a task in the list: its id, title and priority. -/
def TaskData.key (t : TaskData) : Int × String × PriorityEnum := (t.id, t.title, t.priority)

def InternalTaskData.key (t : InternalTaskData) : Int × String × PriorityEnum :=
  (t.id, t.title, t.priority)

@[simp] theorem key_internalTaskData (dates : DateFormats) (t : TaskData) :
    (internalTaskData dates t).key = t.key := rfl

/-- The tasks shown for those of a reply have their keys. -/
theorem keys_internalTaskData (dates : DateFormats) (ts : List TaskData) :
    (ts.map (internalTaskData dates)).map InternalTaskData.key = ts.map TaskData.key := by
  rw [List.map_map]
  exact List.map_congr_left fun t _ => key_internalTaskData dates t

/-- The tasks of page `p`. -/
def pageTasks (L : List TaskData) (l : Nat) (p : Int) : List TaskData :=
  Pages.page l L p.toNat

/-- The response decodes, and its reply holds these tasks and meta data. -/
def RepliesWith (tasks : List TaskData) (mt : Meta) (response : Option (Payload TaskList)) : Prop :=
  ∃ data result, response = some data ∧ data.decoded = some result ∧
    result.tasks = some tasks ∧ result.meta = some mt

/-- The response is the server's answer to the request for page `p`. -/
def AnswersPage (L : List TaskData) (l : Nat) (p : Int)
    (response : Option (Payload TaskList)) : Prop :=
  ∃ data result, response = some data ∧ data.decoded = some result ∧
    result.tasks = some (pageTasks L l p) ∧ result.meta = some (pageMeta L l p)

/-- The response fails: there is no body, or it does not decode, or what it
    decodes to lacks the tasks or the meta data. -/
def FailsToLoad (response : Option (Payload TaskList)) : Prop :=
  ∀ data result, response = some data → data.decoded = some result →
    result.tasks = none ∨ result.meta = none

theorem answersPage_iff {L : List TaskData} {l : Nat} {p : Int}
    {response : Option (Payload TaskList)} : AnswersPage L l p response ↔
      ∃ result ∈ response.bind (·.decoded),
        result.tasks = some (pageTasks L l p) ∧ result.meta = some (pageMeta L l p) := by
  constructor
  · rintro ⟨data, result, hdata, hresult, h⟩
    exact ⟨result, Option.bind_eq_some_iff.mpr ⟨data, hdata, hresult⟩, h⟩
  · rintro ⟨result, hmem, h⟩
    obtain ⟨data, hdata, hresult⟩ := Option.bind_eq_some_iff.mp hmem
    exact ⟨data, result, hdata, hresult, h⟩

theorem failsToLoad_iff {response : Option (Payload TaskList)} : FailsToLoad response ↔
    ∀ result ∈ response.bind (·.decoded), result.tasks = none ∨ result.meta = none := by
  constructor
  · intro h result hmem
    obtain ⟨data, hdata, hresult⟩ := Option.bind_eq_some_iff.mp hmem
    exact h data result hdata hresult
  · intro h data result hdata hresult
    exact h result (Option.bind_eq_some_iff.mpr ⟨data, hdata, hresult⟩)

instance (L : List TaskData) (l : Nat) (p : Int) (response : Option (Payload TaskList)) :
    Decidable (AnswersPage L l p response) :=
  decidable_of_iff _ answersPage_iff.symm

instance (response : Option (Payload TaskList)) : Decidable (FailsToLoad response) :=
  decidable_of_iff _ failsToLoad_iff.symm

namespace TaskListModel

variable {L : List TaskData} {l : Nat} {p : Int} {response : Option (Payload TaskList)}

/-- A response that does not fail holds tasks and meta data. -/
theorem fails_or_replies (response : Option (Payload TaskList)) :
    FailsToLoad response ∨ ∃ tasks mt, RepliesWith tasks mt response := by
  by_cases hfail : FailsToLoad response
  · exact .inl hfail
  · right
    simp only [FailsToLoad, not_forall, not_or] at hfail
    obtain ⟨data, result, hdata, hresult, htasks, hmeta⟩ := hfail
    obtain ⟨tasks, htasks⟩ := Option.ne_none_iff_exists'.mp htasks
    obtain ⟨mt, hmeta⟩ := Option.ne_none_iff_exists'.mp hmeta
    exact ⟨tasks, mt, data, result, hdata, hresult, htasks, hmeta⟩

theorem not_fails_of_answersPage (h : AnswersPage L l p response) : ¬ FailsToLoad response := by
  obtain ⟨data, result, hdata, hresult, htasks, hmeta⟩ := h
  intro hfail
  rcases hfail data result hdata hresult with hnone | hnone
  · rw [htasks] at hnone
    cases hnone
  · rw [hmeta] at hnone
    cases hnone

/-- A failing response leaves the model as it is. -/
theorem respond_of_fails (dates : DateFormats) (m : TaskListModel)
    (h : FailsToLoad response) : m.respond dates response = m := by
  cases response with
  | none => rfl
  | some data =>
    cases hresult : data.decoded with
    | none => simp [respond, getTaskListResponse, hresult]
    | some result =>
      rcases h data result rfl hresult with hnone | hnone
      · cases hmeta : result.meta <;>
          simp [respond, getTaskListResponse, hresult, hnone, hmeta, complete]
      · simp [respond, getTaskListResponse, hresult, hnone, complete]

/-- A reply sets the counters to its meta data and appends its tasks. -/
theorem respond_of_repliesWith (dates : DateFormats) (m : TaskListModel) {tasks : List TaskData}
    {mt : Meta} (h : RepliesWith tasks mt response) :
    m.respond dates response =
      { m with
        page := mt.current
        totalCounts := mt.count
        limit := mt.limit
        data := m.data ++ tasks.map (internalTaskData dates) } := by
  obtain ⟨data, result, rfl, hresult, htasks, hmeta⟩ := h
  simp [respond, getTaskListResponse, hresult, htasks, hmeta, complete, successAll]

/-- The answer for page `p` sets the counters and appends the page. -/
theorem respond_of_answersPage (dates : DateFormats) (m : TaskListModel)
    (h : AnswersPage L l p response) :
    m.respond dates response =
      { m with
        page := p
        totalCounts := L.length
        limit := l
        data := m.data ++ (pageTasks L l p).map (internalTaskData dates) } :=
  m.respond_of_repliesWith dates h

end TaskListModel

/-! ## A concrete server

    For runs on fixed inputs: a server whose tasks are all due at the epoch. -/

/-- `n` tasks with the ids `1, 2, ..., n`. -/
def epochTasks (n : Nat) : List TaskData :=
  (List.range n).map fun i => { id := i + 1, title := "task", dueBy := 0, priority := .normal }

/-- The answer to a request, in a body of `count` bytes. -/
def serverAnswer (L : List TaskData) (l count : Nat) (r : ListRequest) :
    Option (Payload TaskList) :=
  some ⟨count, some ⟨some (pageTasks L l r.page), some (pageMeta L l r.page), none⟩⟩

theorem answersPage_serverAnswer (L : List TaskData) (l count : Nat) (r : ListRequest) :
    AnswersPage L l r.page (serverAnswer L l count r) :=
  ⟨_, _, rfl, rfl, rfl, rfl⟩

end TimeManager
