import Mathlib
import TimeManager.Paging.Calls

/-! # The Parameters of List Requests

    What the query of a list request says about the model it was sent from.
    The `sort` parameter joins the sorting and the direction with a blank,
    but only in one of the two directions: it can be read back exactly where
    the direction is ascending (`parameters_carry_iff`). -/

namespace TimeManager

open Lts

/-! ## Section 1: Reading a query -/

/-- The word of a direction in the `sort` parameter. -/
def directionWord (direction : Bool) : String := if direction then "asc" else "desc"

/-- The page, and the two words that the single space of `sort` separates. -/
def readParameters : Parameters → Option (Int × String × String)
  | .query ps => do
    let page ← (← ps.lookup "page").toInt?
    match (← ps.lookup "sort").toList.splitOn ' ' with
    | [key, word] => some (page, String.ofList key, String.ofList word)
    | _ => none
  | _ => none

/-- A `sort` parameter falls into two words if the direction is ascending, and
    is one word otherwise. -/
theorem splitOn_sortParameter (sorting : SortingTypesEnum) (direction : Bool) :
    (RequesterURL.sortParameter sorting direction).toList.splitOn ' ' =
      if direction then [sorting.rawValue.toList, "asc".toList]
      else [sorting.rawValue.toList ++ "desc".toList] := by
  cases sorting <;> cases direction <;> decide

/-- The query of a list request can be read if its direction is ascending. -/
theorem readParameters_getTaskList (userToken : Option String) (request : ListRequest) :
    readParameters (RequesterURL.getTaskList userToken request).parameters =
      if request.direction then some (request.page, request.sorting.rawValue, "asc") else none := by
  have hsort := splitOn_sortParameter request.sorting request.direction
  unfold RequesterURL.getTaskList readParameters
  simp only [List.lookup, beq_self_eq_true]
  cases hdirection : request.direction with
  | true =>
    rw [hdirection] at hsort
    simp [hsort, Int.toInt?_repr]
  | false =>
    rw [hdirection] at hsort
    simp [hsort]

/-! ## Section 2: The requests of a run -/

namespace TaskListScreen

/-- The list request that a call sends, with the model it is sent from. -/
def sends (s : TaskListScreen) : TaskListModel.Event → Option (TaskListModel × ListRequest)
  | .getFirstTasks =>
    match s.model.getFirstTasks with
    -- the model has been reset by then
    | .ok (model, some request) => some (model, request)
    | _ => none
  | .getNextTask =>
    match s.model.getNextTask with
    | .ok (some request) => some (s.model, request)
    | _ => none
  | _ => none

/-- The parameters of a request that is sent say the page after the model's,
    and its sorting and direction. -/
def CarriesState (s : TaskListScreen) (e : TaskListModel.Event) : Prop :=
  ∀ userToken model request, s.sends e = some (model, request) →
    readParameters (RequesterURL.getTaskList userToken request).parameters =
      some (model.page + 1, model.sorting.rawValue, directionWord model.direction)

/-- The condition on a step that requests are only sent in ascending order. -/
def SendsAscending (s : TaskListScreen) (e : TaskListModel.Event) : Prop :=
  (s.sends e).isSome → s.model.direction = true

variable {dates : DateFormats} {s s' : TaskListScreen} {e : TaskListModel.Event}
  {model : TaskListModel} {request : ListRequest}

/-- A call puts nothing in flight but what it sends. -/
theorem perform_inFlight (h : s.perform dates e = .ok s') (hr : request ∈ s'.inFlight) :
    request ∈ s.inFlight ∨ s.sends e = some (s'.model, request) := by
  cases e with
  | setSeekParameters page sorting direction =>
    obtain rfl := Except.ok.inj h
    exact .inl hr
  | getFirstTasks =>
    rw [perform_getFirstTasks] at h
    obtain rfl := Except.ok.inj h
    rcases List.mem_append.mp hr with hr | hr
    · exact .inl hr
    · right
      simp only [sends, s.model.getFirstTasks_eq, List.mem_singleton.mp hr]
  | getNextTask =>
    obtain ⟨sent, hnext, rfl⟩ := perform_getNextTask h
    rcases List.mem_append.mp hr with hr | hr
    · exact .inl hr
    · right
      simp only [sends, hnext]
      rw [Option.mem_toList.mp hr]
  | deliver i response =>
    obtain rfl := Except.ok.inj h
    exact .inl (List.mem_of_mem_eraseIdx hr)

/-- A request is for the page after the model's, in the order of the model,
    which `getFirstTasks` keeps. -/
theorem sends_eq (hsends : s.sends e = some (model, request)) :
    request = ⟨model.page + 1, model.sorting, model.direction⟩ ∧
      model.sorting = s.model.sorting ∧ model.direction = s.model.direction := by
  cases e with
  | getFirstTasks =>
    simp only [sends, s.model.getFirstTasks_eq, Option.some.injEq, Prod.mk.injEq] at hsends
    obtain ⟨rfl, rfl⟩ := hsends
    exact ⟨rfl, rfl, rfl⟩
  | getNextTask =>
    unfold sends at hsends
    cases hnext : s.model.getNextTask with
    | error trap =>
      rw [hnext] at hsends
      cases hsends
    | ok sent =>
      rw [hnext] at hsends
      cases sent with
      | none => cases hsends
      | some r =>
        obtain ⟨rfl, rfl⟩ := Prod.mk.inj (Option.some.inj hsends)
        refine ⟨?_, rfl, rfl⟩
        rcases TaskListModel.getNextTask_cases hnext with ⟨hzero, hr⟩ | ⟨_, _, hr⟩ | ⟨_, _, hr⟩
        · rw [Option.some.inj hr, hzero]
          rfl
        · exact Option.some.inj hr
        · cases hr
  | _ => cases hsends

/-- **Step lemma**: the parameters of a request say the state exactly in
    ascending order. -/
theorem carriesState_iff : s.CarriesState e ↔ s.SendsAscending e := by
  unfold CarriesState SendsAscending
  cases hsends : s.sends e with
  | none => simp
  | some sent =>
    obtain ⟨model, request⟩ := sent
    obtain ⟨rfl, _, hdirection⟩ := sends_eq hsends
    rw [← hdirection]
    constructor
    · intro hcarries _
      have hread := hcarries none model _ rfl
      rw [readParameters_getTaskList] at hread
      by_contra hdesc
      simp [hdesc] at hread
    · intro hasc userToken model' request' heq
      obtain ⟨rfl, rfl⟩ := Prod.mk.inj (Option.some.inj heq)
      rw [readParameters_getTaskList, hasc rfl]
      rfl

end TaskListScreen

/-- The sorting and the direction that were set last in a run. -/
def lastOrder (m₀ : TaskListModel) :
    List (TaskListScreen × TaskListModel.Event) → SortingTypesEnum × Bool
  | [] => (m₀.sorting, m₀.direction)
  | (_, .setSeekParameters _ sorting direction) :: _ => (sorting, direction)
  | _ :: tr => lastOrder m₀ tr

section

variable {dates : DateFormats} {permits : TaskListModel.Event → Prop} {m₀ : TaskListModel}

/-- **Run lemma**: no other call and no response changes the order. -/
theorem order_of_trace {tr : List (TaskListScreen × TaskListModel.Event)} {s : TaskListScreen}
    (h : (callSystem dates permits m₀).Trace tr s) :
    (s.model.sorting, s.model.direction) = lastOrder m₀ tr := by
  induction h with
  | init hinit =>
    obtain rfl := hinit
    rfl
  | @step tr s call s' _ hstep ih =>
    obtain ⟨_, _, hperform⟩ := hstep
    cases call with
    | setSeekParameters page sorting direction =>
      obtain rfl := Except.ok.inj hperform
      rfl
    | getFirstTasks =>
      rw [TaskListScreen.perform_getFirstTasks] at hperform
      obtain rfl := Except.ok.inj hperform
      exact ih
    | getNextTask =>
      obtain ⟨request, _, rfl⟩ := TaskListScreen.perform_getNextTask hperform
      exact ih
    | deliver i response =>
      obtain rfl := Except.ok.inj hperform
      obtain ⟨hsorting, hdirection⟩ := TaskListModel.respond_order dates s.model response
      rw [hsorting, hdirection]
      exact ih

/-- **Run lemma**: the requests in flight were sent by the calls of the run. -/
theorem sent_of_trace {tr : List (TaskListScreen × TaskListModel.Event)} {s : TaskListScreen}
    (h : (callSystem dates permits m₀).Trace tr s) {request : ListRequest}
    (hr : request ∈ s.inFlight) : ∃ x ∈ tr, ∃ model, x.1.sends x.2 = some (model, request) := by
  induction h with
  | init hinit =>
    obtain rfl := hinit
    cases hr
  | @step tr s call s' _ hstep ih =>
    rcases TaskListScreen.perform_inFlight hstep.2.2 hr with hbefore | hsends
    · obtain ⟨x, hx, hsent⟩ := ih hbefore
      exact ⟨x, List.mem_cons_of_mem _ hx, hsent⟩
    · exact ⟨(s, call), List.mem_cons_self, s'.model, hsends⟩

/-- **List parameters.**  In every run of calls and responses on a model:

    * the sorting and the direction are the ones that were set last;
    * every request in flight was sent by a call of the run;
    * the parameters of every request that is sent say the page, the sorting
      and the direction of the model it is sent from, exactly if no request
      is sent in descending order. -/
theorem parameters_carry_iff {tr : List (TaskListScreen × TaskListModel.Event)}
    {s : TaskListScreen} (h : (callSystem dates permits m₀).Trace tr s) :
    (s.model.sorting, s.model.direction) = lastOrder m₀ tr ∧
      (∀ request ∈ s.inFlight, ∃ x ∈ tr, ∃ model, x.1.sends x.2 = some (model, request)) ∧
      (System.Guarded TaskListScreen.CarriesState tr ↔
        System.Guarded TaskListScreen.SendsAscending tr) := by
  refine ⟨order_of_trace h, fun _ hr => sent_of_trace h hr, ?_⟩
  unfold System.Guarded
  simp only [TaskListScreen.carriesState_iff]

end

/-! ## Section 3: Both directions -/

/-- A model that is set to an order, page `0`, and asked for its first tasks. -/
def orderedRun (sorting : SortingTypesEnum) (direction : Bool) :
    List (TaskListScreen × TaskListModel.Event) :=
  [(⟨TaskListModel.new.setSeekParameters 0 sorting direction, []⟩, .getFirstTasks),
    (⟨.new, []⟩, .setSeekParameters 0 sorting direction)]

theorem trace_orderedRun (sorting : SortingTypesEnum) (direction : Bool) :
    ∃ s, (callSystem epochDates (fun _ => True) .new).Trace (orderedRun sorting direction) s := by
  have hset : (callSystem epochDates (fun _ => True) .new).step ⟨.new, []⟩
      (.setSeekParameters 0 sorting direction)
      ⟨TaskListModel.new.setSeekParameters 0 sorting direction, []⟩ :=
    ⟨trivial, trivial, rfl⟩
  have hfirst : (callSystem epochDates (fun _ => True) .new).step
      ⟨TaskListModel.new.setSeekParameters 0 sorting direction, []⟩ .getFirstTasks _ :=
    ⟨trivial, trivial, TaskListScreen.perform_getFirstTasks _ _⟩
  exact ⟨_, .step (.step (.init rfl) hset) hfirst⟩

theorem parameters_carry_ascending :
    System.Guarded TaskListScreen.CarriesState (orderedRun .time true) := by
  obtain ⟨s, htr⟩ := trace_orderedRun .time true
  refine (parameters_carry_iff htr).2.2.mpr ?_
  intro x hx _
  simp only [orderedRun, List.mem_cons, List.not_mem_nil, or_false] at hx
  rcases hx with rfl | rfl
  · rfl
  · rfl

/-- In descending order the `sort` parameter is `titledesc`. -/
theorem not_parameters_carry :
    ¬ ∀ (tr : List (TaskListScreen × TaskListModel.Event)) (s : TaskListScreen),
      (callSystem epochDates (fun _ => True) .new).Trace tr s →
        System.Guarded TaskListScreen.CarriesState tr := by
  intro h
  obtain ⟨s, htr⟩ := trace_orderedRun .title false
  have hcarries := h _ s htr _ List.mem_cons_self none _ _ rfl
  exact absurd hcarries (by rw [readParameters_getTaskList]; decide)

end TimeManager
