import TimeManager.Managers.Data

/-! # The Edit Form

    `TaskEditMainView`: what the user sees and changes of a task, and the
    task that Save makes of it. -/

namespace TimeManager

/-- The texts of the form, the chosen priority and the task it was opened
    with (none for a new task). -/
structure TaskEditMainView where
  titleText : String
  descriptionText : String
  priority : Option PriorityEnum
  data : Option InternalTaskData
deriving DecidableEq, Repr

/-- What the user does to the form. -/
inductive FormAction where
  | typeTitle (text : String)
  | typeDescription (text : String)
  | highPriorityChoosen
  | mediumPriorityChoosen
  | lowPriorityChoosen
deriving DecidableEq, Repr

namespace TaskEditMainView

/-- Both texts are set from the title. -/
def setData (data : Option InternalTaskData) : TaskEditMainView where
  titleText := (data.map (·.title)).getD ""
  descriptionText := (data.map (·.title)).getD ""
  priority := data.map (·.priority)
  data := data

def act (view : TaskEditMainView) : FormAction → TaskEditMainView
  | .typeTitle text => { view with titleText := text }
  | .typeDescription text => { view with descriptionText := text }
  | .highPriorityChoosen => { view with priority := some .high }
  | .mediumPriorityChoosen => { view with priority := some .normal }
  | .lowPriorityChoosen => { view with priority := some .low }

/-- The task of a Save at the time `now` (in whole seconds since 1970), or
    none where the title is empty. -/
def saveEventPressed (view : TaskEditMainView) (now : Int) : Option TaskData :=
  if view.titleText ≠ "" then
    some
      { id := (view.data.map (·.id)).getD (-1)
        title := view.titleText
        -- the due date of the opened task is not looked at
        dueBy := now
        priority := view.priority.getD .low }
  else none

/-! ### What a form action can change -/

@[simp] theorem act_data (view : TaskEditMainView) (action : FormAction) :
    (view.act action).data = view.data := by
  cases action <;> rfl

theorem foldl_act_data (view : TaskEditMainView) (actions : List FormAction) :
    (actions.foldl act view).data = view.data := by
  induction actions generalizing view with
  | nil => rfl
  | cons action actions ih =>
    rw [List.foldl_cons, ih, act_data]

end TaskEditMainView

end TimeManager
