import TimeManager.Coordinator.Stack

/-! # What a Response Does

    The closures a response calls.  The handler of a delete goes on after the
    call for a body of two bytes, so a body of two bytes that decodes
    completes a delete twice.  Every other response completes its operation at
    most once (`single_completion_iff`). -/

namespace TimeManager

open RequesterURL

/-! ## Section 1: The closures that are called -/

/-- How many closures the handler of an operation calls for a response. -/
def Operation.calls (decoder : JSONDecoder) (userToken : Option String)
    (response : Option (List UInt8)) : Operation → Nat
  | .loginUser _ =>
    (loginUserResponse userToken (response.map (Payload.read decoder.loginResultData))).2.length
  | .getTaskList _ => (getTaskListResponse (response.map (Payload.read decoder.taskList))).length
  | .deleteTask _ => (deleteTaskResponse (response.map (Payload.read decoder.taskList))).length
  | .updateTask _ => (updateTaskResponse (response.map (Payload.read decoder.taskDetail))).length
  | .createTask _ => (createTaskResponse (response.map (Payload.read decoder.taskDetail))).length

/-- A response that completes a delete twice: two bytes that decode. -/
def CompletesTwice (decoder : JSONDecoder) (response : Option (List UInt8)) (op : Operation) :
    Prop :=
  (∃ id, op = .deleteTask id) ∧
    ∃ data, response = some data ∧ data.length = 2 ∧ (decoder.taskList data).isSome

theorem loginUserResponse_length (userToken : Option String)
    (response : Option (Payload LoginResultData)) :
    (loginUserResponse userToken response).2.length ≤ 1 := by
  rcases App.loginUserResponse_cases userToken response with
    ⟨heq, -⟩ | ⟨_, _, -, -, ⟨_, -, heq⟩ | ⟨-, heq⟩⟩
  · rw [heq]
    exact Nat.zero_le _
  · rw [heq]
    exact Nat.le_refl _
  · rw [heq]
    exact Nat.le_refl _

theorem getTaskListResponse_length (response : Option (Payload TaskList)) :
    (getTaskListResponse response).length ≤ 1 := by
  unfold getTaskListResponse
  split
  · exact Nat.zero_le _
  · split
    · exact Nat.zero_le _
    · split <;> exact Nat.le_refl _

theorem taskDetailResult_length (result : TaskDetail) : (taskDetailResult result).length = 1 := by
  unfold taskDetailResult
  split <;> rfl

theorem updateTaskResponse_length (response : Option (Payload TaskDetail)) :
    (updateTaskResponse response).length ≤ 1 := by
  unfold updateTaskResponse
  split
  · exact Nat.zero_le _
  · split
    · exact Nat.le_refl _
    · split
      · exact Nat.zero_le _
      · exact Nat.le_of_eq (taskDetailResult_length _)

theorem createTaskResponse_length (response : Option (Payload TaskDetail)) :
    (createTaskResponse response).length ≤ 1 := by
  unfold createTaskResponse
  split
  · exact Nat.zero_le _
  · split
    · exact Nat.zero_le _
    · exact Nat.le_of_eq (taskDetailResult_length _)

/-- The calls of `deleteTask` add up: one for two bytes, one for a body that
    decodes. -/
theorem deleteTaskResponse_length (data : Payload TaskList) :
    (deleteTaskResponse (some data)).length =
      (if data.count = 2 then 1 else 0) + (if data.decoded.isSome then 1 else 0) := by
  show (_ ++ _ : List (Completion Unit TaskList)).length = _
  rw [List.length_append]
  congr 1
  · split <;> rfl
  · cases data.decoded with
    | none => rfl
    | some result =>
      dsimp only
      split <;> rfl

/-- Only a delete can be completed twice. -/
theorem calls_le_one_iff (decoder : JSONDecoder) (userToken : Option String)
    (response : Option (List UInt8)) (op : Operation) :
    op.calls decoder userToken response ≤ 1 ↔ ¬ CompletesTwice decoder response op := by
  have honce : op.calls decoder userToken response ≤ 1 → (∀ id, op ≠ .deleteTask id) →
      (op.calls decoder userToken response ≤ 1 ↔ ¬ CompletesTwice decoder response op) := by
    intro hle hop
    refine ⟨fun _ => ?_, fun _ => hle⟩
    rintro ⟨⟨id, hid⟩, _⟩
    exact hop id hid
  -- the handlers but one stop after their first call
  cases op with
  | loginUser user =>
    exact honce (loginUserResponse_length _ _) (by intro _ h; cases h)
  | getTaskList request =>
    exact honce (getTaskListResponse_length _) (by intro _ h; cases h)
  | updateTask task =>
    exact honce (updateTaskResponse_length _) (by intro _ h; cases h)
  | createTask task =>
    exact honce (createTaskResponse_length _) (by intro _ h; cases h)
  | deleteTask id =>
    cases response with
    | none =>
      constructor
      · rintro _ ⟨_, data, hdata, _⟩
        cases hdata
      · intro _
        exact Nat.zero_le _
    | some data =>
      show (deleteTaskResponse (some (Payload.read decoder.taskList data))).length ≤ 1 ↔ _
      rw [deleteTaskResponse_length]
      show (if data.length = 2 then 1 else 0) + (if (decoder.taskList data).isSome then 1 else 0) ≤ 1
        ↔ _
      by_cases hlen : data.length = 2
      · by_cases hdec : (decoder.taskList data).isSome
        · simp [hlen, hdec, CompletesTwice]
        · simp [hlen, hdec, CompletesTwice]
      · by_cases hdec : (decoder.taskList data).isSome
        · simp [hlen, hdec, CompletesTwice]
        · simp [hlen, hdec, CompletesTwice]

/-! ## Section 2: Writes

    The closures of a delete and of a save do the same with their outcome. -/

/-- A completion without its result, apart from an error's message. -/
def Completion.outcome {σ ε : Type} (message : ε → Option String) :
    Completion σ ε → Completion Unit (Option String)
  | .toDoIfSuccess _ => .toDoIfSuccess ()
  | .toDoIfError e => .toDoIfError (message e)

def Completion.isSuccess {σ ε : Type} : Completion σ ε → Bool
  | .toDoIfSuccess _ => true
  | .toDoIfError _ => false

/-- The screen that asked for a write, if the call is one. -/
def Call.writer : Call → Option Nat
  | .loginUser _ _ => none
  | .getTaskList _ _ => none
  | .deleteTask _ vc => some vc
  | .updateTask _ vc => some vc
  | .createTask _ vc => some vc

/-- The outcomes that the response to a write has. -/
def Call.outcomes (env : Environment) (response : Option (List UInt8)) :
    Call → List (Completion Unit (Option String))
  | .loginUser _ _ => []
  | .getTaskList _ _ => []
  | .deleteTask _ _ =>
    (deleteTaskResponse (response.map (Payload.read env.decoder.taskList))).map
      (Completion.outcome TaskList.message)
  | .updateTask _ _ =>
    (updateTaskResponse (response.map (Payload.read env.decoder.taskDetail))).map
      (Completion.outcome TaskDetail.message)
  | .createTask _ _ =>
    (createTaskResponse (response.map (Payload.read env.decoder.taskDetail))).map
      (Completion.outcome TaskDetail.message)

/-- Whether the response to a write reports success. -/
def Call.succeeds (env : Environment) (response : Option (List UInt8)) (call : Call) : Bool :=
  (call.outcomes env response).any Completion.isSuccess

/-- Only the response to a write can report success. -/
theorem Call.writer_of_succeeds {env : Environment} {response : Option (List UInt8)} {call : Call}
    (h : call.succeeds env response) : ∃ vc, call.writer = some vc := by
  cases call with
  | loginUser user vc => cases h
  | getTaskList request caller => cases h
  | deleteTask id vc => exact ⟨vc, rfl⟩
  | updateTask task vc => exact ⟨vc, rfl⟩
  | createTask task vc => exact ⟨vc, rfl⟩

namespace App

variable {env : Environment} {a b : App} {vc : Nat}

/-- What one outcome of a write does. -/
def written (vc : Nat) (a : App) : Completion Unit (Option String) → App
  | .toDoIfSuccess () => a.refresh vc
  | .toDoIfError message => a.presentAlert vc "Error in deleting" message

/-- The response to a write does what its outcomes do. -/
theorem respond_write {call : Call} (h : call.writer = some vc)
    (response : Option (List UInt8)) :
    a.respond env call response = (call.outcomes env response).foldl (written vc) a := by
  have hdelete : deleteCompletion vc = fun a c => written vc a (c.outcome TaskList.message) := by
    funext a c
    cases c <;> rfl
  have hsave : saveCompletion vc = fun a c => written vc a (c.outcome TaskDetail.message) := by
    funext a c
    cases c <;> rfl
  cases call with
  | loginUser user vc' => cases h
  | getTaskList request caller => cases h
  | deleteTask id vc' =>
    obtain rfl : vc' = vc := Option.some.inj h
    rw [respond, Call.outcomes, List.foldl_map, hdelete]
  | updateTask task vc' =>
    obtain rfl : vc' = vc := Option.some.inj h
    rw [respond, Call.outcomes, List.foldl_map, hsave]
  | createTask task vc' =>
    obtain rfl : vc' = vc := Option.some.inj h
    rw [respond, Call.outcomes, List.foldl_map, hsave]

/-- A new screen on top, and nothing else on the stack changed. -/
theorem jumpToScreen_viewControllers (a : App) (target : AvailableScreens) :
    ∃ screen, (a.jumpToScreen target).viewControllers =
      a.viewControllers ++ [⟨a.nextScreen, target, screen⟩] := by
  rcases a.jumpToScreen_cases target with ⟨screen, _, _, heq⟩ | ⟨list, _, heq⟩
  · exact ⟨screen, by rw [heq]; rfl⟩
  · exact ⟨.taskList (newTaskList list), by rw [heq]; rfl⟩

theorem jumpToScreen_presented (a : App) (target : AvailableScreens) :
    (a.jumpToScreen target).presented = a.presented := by
  rcases a.jumpToScreen_cases target with ⟨screen, _, _, heq⟩ | ⟨list, _, heq⟩
  · rw [heq]
    rfl
  · rw [heq]
    rfl

theorem isLive_iff : a.isLive vc = true ↔ vc ∈ (a.viewControllers.map (·.origin)).map Prod.fst := by
  rw [List.map_map, isLive, List.any_eq_true, List.mem_map]
  simp [ViewController.origin]

theorem Extends.isLive (h : Extends a b) (hlive : a.isLive vc) : b.isLive vc :=
  isLive_iff.mpr ((h.stack.map Prod.fst).subset (isLive_iff.mp hlive))

theorem Grows.written (vc : Nat) (c : Completion Unit (Option String)) (h : Grows a b) :
    Grows a (b.written vc c) := by
  cases c with
  | toDoIfSuccess => exact h.refresh vc
  | toDoIfError message => exact h.presentAlert vc _ _

/-- Nothing happens once the screen is gone. -/
theorem foldl_written_of_not_isLive (h : ¬ a.isLive vc)
    (cs : List (Completion Unit (Option String))) : cs.foldl (written vc) a = a := by
  induction cs with
  | nil => rfl
  | cons c cs ih =>
    have hc : a.written vc c = a := by
      cases c with
      | toDoIfSuccess => exact if_neg h
      | toDoIfError message => exact if_neg h
    rw [List.foldl_cons, hc, ih]

/-- Every success pushes one screen, and every error presents one alert. -/
theorem foldl_written_length (h : a.isLive vc) (cs : List (Completion Unit (Option String))) :
    (cs.foldl (written vc) a).viewControllers.length =
      a.viewControllers.length + cs.countP Completion.isSuccess ∧
    (cs.foldl (written vc) a).presented.length =
      a.presented.length + cs.countP fun c => !c.isSuccess := by
  induction cs generalizing a with
  | nil => exact ⟨rfl, rfl⟩
  | cons c cs ih =>
    have hlive : (a.written vc c).isLive vc := (Grows.written vc c .refl).extends.isLive h
    obtain ⟨hscreens, halerts⟩ := ih hlive
    rw [List.foldl_cons, hscreens, halerts, List.countP_cons, List.countP_cons]
    -- a success pushes a list, an error presents an alert
    cases c with
    | toDoIfSuccess =>
      obtain ⟨screen, hpush⟩ := jumpToScreen_viewControllers a (.taskList none)
      have hrefresh : a.refresh vc = a.jumpToScreen (.taskList none) := if_pos h
      show (a.refresh vc).viewControllers.length + _ = _ ∧ (a.refresh vc).presented.length + _ = _
      rw [hrefresh, hpush, jumpToScreen_presented, List.length_append]
      simp only [List.length_singleton, Completion.isSuccess]
      constructor
      · simp only [if_true]
        omega
      · simp
    | toDoIfError message =>
      have halert : a.presentAlert vc "Error in deleting" message =
          a.alert ⟨vc, "Error in deleting", message⟩ := if_pos h
      show (a.presentAlert vc _ message).viewControllers.length + _ = _ ∧
        (a.presentAlert vc _ message).presented.length + _ = _
      rw [halert]
      show a.viewControllers.length + _ = _ ∧ (a.presented ++ [_]).length + _ = _
      rw [List.length_append]
      simp only [List.length_singleton, Completion.isSuccess]
      constructor
      · simp
      · simp only [Bool.not_false, if_true]
        omega

/-- A response is handled by the call that waited for it. -/
theorem step_deliver {id : Nat} {p : Pending} {response : Option (List UInt8)}
    (hp : a.requests.find? (fun q => q.id = id) = some p)
    (h : a.step env (.deliver id response) = some b) :
    b = (a.dropRequest id).respond env p.call response := by
  simp only [step, hp] at h
  exact (Option.some.inj h).symm

/-- How the stack and the alerts change with the response to a write. -/
theorem respond_write_length (env : Environment) {call : Call} (h : call.writer = some vc) (hlive : a.isLive vc)
    (response : Option (List UInt8)) :
    (a.respond env call response).viewControllers.length =
      a.viewControllers.length + (call.outcomes env response).countP Completion.isSuccess ∧
    (a.respond env call response).presented.length =
      a.presented.length + (call.outcomes env response).countP fun c => !c.isSuccess := by
  rw [respond_write h]
  exact foldl_written_length hlive _

end App

/-! ## Section 3: No double completion -/

/-- A response to a delete that reports success twice. -/
def SucceedsTwice (decoder : JSONDecoder) (response : Option (List UInt8)) : Prop :=
  ∃ data result, response = some data ∧ data.length = 2 ∧
    decoder.taskList data = some result ∧ result.message = none

/-- A delete has one success for two bytes, and one for a body that decodes
    without a message. -/
theorem deleteTask_successes (env : Environment) (response : Option (List UInt8)) (id : Int)
    (vc : Nat) :
    ((Call.deleteTask id vc).outcomes env response).countP Completion.isSuccess ≤ 1 ↔
      ¬ SucceedsTwice env.decoder response := by
  cases response with
  | none =>
    constructor
    · rintro _ ⟨_, _, hdata, _⟩
      cases hdata
    · intro _
      exact Nat.zero_le _
  | some data =>
    simp only [Call.outcomes, Option.map_some, Payload.read, deleteTaskResponse, List.map_append,
      List.countP_append, SucceedsTwice, Option.some.injEq]
    -- a success for two bytes, and one for a body without a message
    by_cases hlen : data.length = 2
    · cases hdec : env.decoder.taskList data with
      | none => simp [hlen, hdec, Completion.outcome, Completion.isSuccess]
      | some result =>
        cases hmessage : result.message with
        | none => simp [hlen, hdec, hmessage, Completion.outcome, Completion.isSuccess]
        | some message => simp [hlen, hdec, hmessage, Completion.outcome, Completion.isSuccess]
    · cases hdec : env.decoder.taskList data with
      | none => simp [hlen]
      | some result =>
        cases hmessage : result.message with
        | none => simp [hlen, hmessage, Completion.outcome, Completion.isSuccess]
        | some message => simp [hlen, hmessage, Completion.outcome, Completion.isSuccess]

/-- With Foundation's decoder it is the body of two braces, and no other. -/
theorem completesTwice_standard_iff (response : Option (List UInt8)) (op : Operation) :
    CompletesTwice JSONDecoder.standard response op ↔
      (∃ id, op = .deleteTask id) ∧ response = some [0x7b, 0x7d] := by
  constructor
  · rintro ⟨hop, data, rfl, hlen, hdec⟩
    exact ⟨hop, congrArg some (JSONDecoder.taskList_of_length_two hlen hdec)⟩
  · rintro ⟨hop, rfl⟩
    exact ⟨hop, _, rfl, rfl, by decide +kernel⟩

/-- **Single completion.**  For every response, the handler of an operation
    calls at most one closure, and at most once, unless the operation is a
    delete and the response a body of two bytes that decodes.  The response to
    a delete makes the coordinator push at most one screen, unless the screen
    that asked is still there and the body of two bytes decodes without a
    message. -/
theorem single_completion_iff (env : Environment) :
    (∀ op userToken response, op.calls env.decoder userToken response ≤ 1 ↔
      ¬ CompletesTwice env.decoder response op) ∧
    ∀ (a b : App) (id : Nat) (p : Pending) (taskID : Int) (vc : Nat)
      (response : Option (List UInt8)),
      a.requests.find? (fun q => q.id = id) = some p → p.call = .deleteTask taskID vc →
      a.step env (.deliver id response) = some b →
      (b.viewControllers.length ≤ a.viewControllers.length + 1 ↔
        ¬ (a.isLive vc ∧ SucceedsTwice env.decoder response)) := by
  refine ⟨fun op userToken response => calls_le_one_iff env.decoder userToken response op, ?_⟩
  intro a b id p taskID vc response hp hcall hstep
  have hwriter : p.call.writer = some vc := by rw [hcall]; rfl
  have hb := App.step_deliver hp hstep
  by_cases hlive : (a.dropRequest id).isLive vc
  · -- the screen is there: each success pushes one
    have hlen := (App.respond_write_length env hwriter hlive response).1
    rw [← hb, hcall] at hlen
    rw [hlen]
    have htwice := deleteTask_successes env response taskID vc
    show a.viewControllers.length + _ ≤ _ ↔ _
    rw [Nat.add_le_add_iff_left, htwice]
    have hlive' : a.isLive vc := hlive
    simp [hlive']
  · -- the screen is gone: nothing is pushed
    rw [App.respond_write hwriter, App.foldl_written_of_not_isLive hlive] at hb
    subst hb
    constructor
    · intro _ htwice
      exact hlive htwice.1
    · intro _
      exact Nat.le_succ _

namespace App

/-- The detail screen of the first list's task, with a delete on its way. -/
def deleting : App :=
  (firstList.jumpToScreen (.taskDetail (some (internalTaskData epochDates sampleTask)))).send
    (.deleteTask 7 2)

end App

/-- The body of two braces pushes two list screens. -/
theorem single_completion_braces :
    ∃ b, App.deleting.step epochEnvironment (.deliver 3 (utf8 "\x7b\x7d")) = some b ∧
      ¬ b.viewControllers.length ≤ App.deleting.viewControllers.length + 1 := by
  have htwice : SucceedsTwice JSONDecoder.standard (utf8 "\x7b\x7d") := by
    refine ⟨[0x7b, 0x7d], ⟨none, none, none⟩, by decide +kernel, rfl, by decide +kernel, rfl⟩
  refine ⟨_, rfl, ?_⟩
  rw [(single_completion_iff epochEnvironment).2 App.deleting _ 3
    ⟨3, .deleteTask 7 2, RequesterURL.deleteTask (some "t") 7⟩ 7 2 _ rfl rfl rfl]
  intro hno
  exact hno ⟨rfl, htwice⟩

/-- The body of two braces completes a delete twice. -/
theorem not_single_completion :
    ¬ (Operation.deleteTask 7).calls JSONDecoder.standard none (utf8 "\x7b\x7d") ≤ 1 := by
  decide +kernel

end TimeManager
