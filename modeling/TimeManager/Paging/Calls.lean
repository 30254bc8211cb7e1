import TimeManager.Framework.Lts
import TimeManager.Paging.Server

/-! # Calls on a Model

    The methods of `TaskListModel` called in any order, while responses to
    earlier requests are still on their way.  A list screen makes some of
    these calls: `getFirstTasks` once, when it is loaded, and then
    `getNextTask` where the row ten before the end is displayed. -/

namespace TimeManager

open Lts Checked

/-! ## Section 1: The system -/

/-- A call on the model, or a response to one of its requests. -/
inductive TaskListModel.Event where
  | setSeekParameters (page : Int) (sorting : SortingTypesEnum) (direction : Bool)
  | getFirstTasks
  | getNextTask
  /-- The `i`-th request in flight is answered. -/
  | deliver (i : Nat) (response : Option (Payload TaskList))

namespace TaskListScreen

/-- Only a request in flight can be answered. -/
def Possible (s : TaskListScreen) : TaskListModel.Event → Prop
  | .deliver i _ => i < s.inFlight.length
  | _ => True

/-- One call on the model, or one response; the trap where the arithmetic of
    a call overflows. -/
def perform (dates : DateFormats) (s : TaskListScreen) :
    TaskListModel.Event → Except Trap TaskListScreen
  | .setSeekParameters page sorting direction =>
    .ok { s with model := s.model.setSeekParameters page sorting direction }
  | .getFirstTasks =>
    s.model.getFirstTasks.map fun (model, request) => ⟨model, s.inFlight ++ request.toList⟩
  | .getNextTask =>
    s.model.getNextTask.map fun request => { s with inFlight := s.inFlight ++ request.toList }
  | .deliver i response =>
    .ok { model := s.model.respond dates response, inFlight := s.inFlight.eraseIdx i }

end TaskListScreen

/-- The runs of calls on the model `m₀`, with the events that are permitted. -/
def callSystem (dates : DateFormats) (permits : TaskListModel.Event → Prop) (m₀ : TaskListModel) :
    System TaskListScreen TaskListModel.Event where
  init := fun s => s = ⟨m₀, []⟩
  step := fun s e s' => permits e ∧ s.Possible e ∧ s.perform dates e = .ok s'

/-! ## Section 2: What a call does -/

namespace TaskListScreen

variable {dates : DateFormats} {s s' : TaskListScreen}

/-- `getFirstTasks` never traps. -/
theorem perform_getFirstTasks (dates : DateFormats) (s : TaskListScreen) :
    s.perform dates .getFirstTasks =
      .ok ⟨s.model.reset, s.inFlight ++ [⟨1, s.model.sorting, s.model.direction⟩]⟩ := by
  rw [perform, s.model.getFirstTasks_eq]
  rfl

theorem perform_getNextTask (h : s.perform dates .getNextTask = .ok s') :
    ∃ request, s.model.getNextTask = .ok request ∧
      s' = { s with inFlight := s.inFlight ++ request.toList } := by
  obtain ⟨request, hnext, rfl⟩ := map_eq_ok.mp h
  exact ⟨request, hnext, rfl⟩

end TaskListScreen

/-- The sorting and the direction are not touched by a response. -/
theorem TaskListModel.respond_order (dates : DateFormats) (m : TaskListModel)
    (response : Option (Payload TaskList)) :
    (m.respond dates response).sorting = m.sorting ∧
      (m.respond dates response).direction = m.direction := by
  rcases fails_or_replies response with hfail | ⟨tasks, mt, hreply⟩
  · rw [m.respond_of_fails dates hfail]
    exact ⟨rfl, rfl⟩
  · rw [m.respond_of_repliesWith dates hreply]
    exact ⟨rfl, rfl⟩

/-! ## Section 3: Runs without new parameters -/

/-- The events of a model whose parameters are not changed from outside, with
    the responses that are permitted. -/
def Loads (permits : Option (Payload TaskList) → Prop) : TaskListModel.Event → Prop
  | .setSeekParameters _ _ _ => False
  | .deliver _ response => permits response
  | _ => True

end TimeManager
