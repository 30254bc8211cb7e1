import TimeManager.Coordinator.Responses

/-! # What the User Sees of a Response

    Whether a response presents an alert or pushes a screen.  The handlers
    only print where there is no body or where it does not decode, and the
    coordinator has no error closure (`visible_iff`). -/

namespace TimeManager

open Lts RequesterURL

/-! ## Section 1: What the user sees -/

/-- An alert is presented or a screen is pushed. -/
def Visible (a b : App) : Prop :=
  a.viewControllers.length < b.viewControllers.length ∨ a.presented.length < b.presented.length

/-- The screen that started a call, if it was not the coordinator. -/
def Call.starter : Call → Option Nat
  | .loginUser _ vc => some vc
  | .getTaskList _ .coordinator => none
  | .getTaskList _ (.firstTasks vc) => some vc
  | .getTaskList _ (.nextTask vc) => some vc
  | .deleteTask _ vc => some vc
  | .updateTask _ vc => some vc
  | .createTask _ vc => some vc

/-- The responses that are shown: to a login, one that decodes without a
    token; to the coordinator's list request, one with tasks and meta data,
    and to a list screen's first one, one without; to a write, every one that
    decodes, and for a delete and an update every one of two bytes.  Nothing
    else is. -/
def Shown (env : Environment) (response : Option (List UInt8)) : Call → Prop
  | .loginUser _ _ => ∃ data result, response = some data ∧
      env.decoder.loginResultData data = some result ∧ result.token = none
  | .getTaskList _ .coordinator => ∃ data result, response = some data ∧
      env.decoder.taskList data = some result ∧ result.tasks.isSome ∧ result.meta.isSome
  | .getTaskList _ (.firstTasks _) => ∃ data result, response = some data ∧
      env.decoder.taskList data = some result ∧ ¬ (result.tasks.isSome ∧ result.meta.isSome)
  | .getTaskList _ (.nextTask _) => False
  | .deleteTask _ _ => ∃ data, response = some data ∧
      (data.length = 2 ∨ (env.decoder.taskList data).isSome)
  | .updateTask _ _ => ∃ data, response = some data ∧
      (data.length = 2 ∨ (env.decoder.taskDetail data).isSome)
  | .createTask _ _ => ∃ data, response = some data ∧ (env.decoder.taskDetail data).isSome

namespace App

variable {env : Environment} {a b : App} {vc : Nat}

theorem not_visible_refl (a : App) : ¬ Visible a a := by
  intro h
  rcases h with h | h
  · exact Nat.lt_irrefl _ h
  · exact Nat.lt_irrefl _ h

theorem visible_jumpToScreen (a : App) (target : AvailableScreens) :
    Visible a (a.jumpToScreen target) := by
  obtain ⟨screen, hpush⟩ := jumpToScreen_viewControllers a target
  left
  rw [hpush, List.length_append]
  exact Nat.lt_succ_self _

theorem visible_presentAlert (hlive : a.isLive vc) (title : String) (message : Option String) :
    Visible a (a.presentAlert vc title message) := by
  have halert : a.presentAlert vc title message = a.alert ⟨vc, title, message⟩ := if_pos hlive
  right
  rw [halert]
  show a.presented.length < (a.presented ++ [_]).length
  rw [List.length_append]
  exact Nat.lt_succ_self _

/-- A write shows something exactly when its response has an outcome. -/
theorem visible_write {call : Call} (h : call.writer = some vc) (hlive : a.isLive vc)
    (response : Option (List UInt8)) :
    Visible a (a.respond env call response) ↔ call.outcomes env response ≠ [] := by
  obtain ⟨hscreens, halerts⟩ := respond_write_length env h hlive response
  -- each outcome pushes a screen or presents an alert
  have hcount := List.length_eq_countP_add_countP (l := call.outcomes env response)
    Completion.isSuccess
  unfold Visible
  rw [hscreens, halerts, ne_eq, ← List.length_eq_zero_iff, hcount]
  simp only [decide_not, Bool.decide_eq_true] at hcount ⊢
  omega

/-! ## Section 2: Which responses have an outcome -/

/-- The outcomes of a write are the responses that are shown. -/
theorem outcomes_ne_nil_iff {call : Call} (h : call.writer = some vc)
    (response : Option (List UInt8)) :
    call.outcomes env response ≠ [] ↔ Shown env response call := by
  -- a detail that decodes always calls a closure
  have hdetail : ∀ result, taskDetailResult result ≠ [] := by
    intro result hnil
    have hlen := taskDetailResult_length result
    rw [hnil] at hlen
    cases hlen
  cases call with
  | loginUser user vc' => cases h
  | getTaskList request caller => cases h
  | deleteTask id vc' =>
    cases response with
    | none => simp [Call.outcomes, deleteTaskResponse, Shown]
    | some data =>
      by_cases hlen : data.length = 2
      · simp [Call.outcomes, deleteTaskResponse, Shown, Payload.read, hlen]
      · cases hdec : env.decoder.taskList data with
        | none => simp [Call.outcomes, deleteTaskResponse, Shown, Payload.read, hlen, hdec]
        | some result =>
          cases hmessage : result.message <;>
            simp [Call.outcomes, deleteTaskResponse, Shown, Payload.read, hlen, hdec, hmessage]
  | updateTask task vc' =>
    cases response with
    | none => simp [Call.outcomes, updateTaskResponse, Shown]
    | some data =>
      by_cases hlen : data.length = 2
      · simp [Call.outcomes, updateTaskResponse, Shown, Payload.read, hlen]
      · cases hdec : env.decoder.taskDetail data with
        | none => simp [Call.outcomes, updateTaskResponse, Shown, Payload.read, hlen, hdec]
        | some result =>
          simp [Call.outcomes, updateTaskResponse, Shown, Payload.read, hlen, hdec, hdetail]
  | createTask task vc' =>
    cases response with
    | none => simp [Call.outcomes, createTaskResponse, Shown]
    | some data =>
      cases hdec : env.decoder.taskDetail data with
      | none => simp [Call.outcomes, createTaskResponse, Shown, Payload.read, hdec]
      | some result => simp [Call.outcomes, createTaskResponse, Shown, Payload.read, hdec, hdetail]

/-! ## Section 3: Logins and lists -/

/-- A successful login makes the coordinator ask for the list. -/
theorem respond_login {user : LoginData} {data : List UInt8} {result : LoginResultData}
    {token : String} (hlive : a.isLive vc)
    (hdec : env.decoder.loginResultData data = some result) (htoken : result.token = some token) :
    a.respond env (.loginUser user vc) (some data) =
      App.send { a with userToken := some token }
        (.getTaskList ⟨1, .title, true⟩ .coordinator) := by
  have heq : loginUserResponse a.userToken
      ((some data).map (Payload.read env.decoder.loginResultData)) =
      (some token, [.toDoIfSuccess result]) := by
    simp [loginUserResponse, Payload.read, hdec, htoken]
  simp only [respond, heq, List.foldl_cons, List.foldl_nil, loginCompletion]
  exact if_pos hlive

/-- A login shows its error, and nothing else. -/
theorem visible_login {user : LoginData} (hlive : a.isLive vc) (response : Option (List UInt8)) :
    Visible a (a.respond env (.loginUser user vc) response) ↔
      Shown env response (.loginUser user vc) := by
  rcases loginUserResponse_cases a.userToken
      (response.map (Payload.read env.decoder.loginResultData)) with
    ⟨heq, hnone⟩ | ⟨data, result, hdata, hdec, hcases⟩
  · -- no body, or one that does not decode
    simp only [respond, heq]
    constructor
    · intro hv
      exact absurd hv (not_visible_refl a)
    · rintro ⟨data, result, rfl, hdec, _⟩
      have hno : env.decoder.loginResultData data = none := hnone _ rfl
      rw [hdec] at hno
      cases hno
  · obtain ⟨bytes, rfl, rfl⟩ := Option.map_eq_some_iff.mp hdata
    have hdec' : env.decoder.loginResultData bytes = some result := hdec
    rcases hcases with ⟨token, htoken, _⟩ | ⟨htoken, heq⟩
    · -- a success: only the coordinator's request is sent
      rw [respond_login hlive hdec' htoken]
      constructor
      · intro hv
        exact absurd hv (not_visible_refl a)
      · rintro ⟨data, result', hdata, hresult, hnone⟩
        obtain rfl := Option.some.inj hdata
        rw [hdec'] at hresult
        obtain rfl := Option.some.inj hresult
        rw [htoken] at hnone
        cases hnone
    · -- no token: an alert
      simp only [respond, heq]
      constructor
      · intro _
        exact ⟨bytes, result, rfl, hdec', htoken⟩
      · intro _
        exact visible_presentAlert (a := { a with userToken := none }) hlive _ _

/-- A list response is shown by the coordinator if it is a success, by a list
    screen's first request if it is an error, and otherwise not. -/
theorem visible_list {request : ListRequest} {caller : ListCaller}
    (hlive : ∀ vc, Call.starter (.getTaskList request caller) = some vc → a.isLive vc)
    (response : Option (List UInt8)) :
    Visible a (a.respond env (.getTaskList request caller) response) ↔
      Shown env response (.getTaskList request caller) := by
  have hupdate : ∀ vc f, ¬ Visible a (a.updateScreen vc f) := by
    intro vc f hv
    rcases hv with hv | hv
    · have hlen : (a.updateScreen vc f).viewControllers.length = a.viewControllers.length :=
        List.length_map _
      rw [hlen] at hv
      exact Nat.lt_irrefl _ hv
    · exact Nat.lt_irrefl _ hv
  simp only [respond]
  rcases getTaskListResponse_cases (response.map (Payload.read env.decoder.taskList)) with
    ⟨heq, hnone⟩ | ⟨data, result, hdata, hdec, hcases⟩
  · -- no body, or one that does not decode
    rw [heq]
    have hdec : ∀ data, response = some data → env.decoder.taskList data = none := by
      rintro data rfl
      exact hnone _ rfl
    have hshown : ¬ Shown env response (.getTaskList request caller) := by
      intro hs
      cases caller with
      | nextTask vc => exact hs
      | _ =>
        obtain ⟨data, result, hdata, hresult, _⟩ := hs
        rw [hdec data hdata] at hresult
        cases hresult
    exact ⟨fun hv => absurd hv (not_visible_refl a), fun hs => absurd hs hshown⟩
  · obtain ⟨bytes, rfl, rfl⟩ := Option.map_eq_some_iff.mp hdata
    have hdec' : env.decoder.taskList bytes = some result := hdec
    rcases hcases with ⟨htasks, hmeta, list, heq⟩ | ⟨hno, heq⟩
    · -- a list: the coordinator pushes a screen, the others fill theirs
      rw [heq]
      cases caller with
      | coordinator =>
        exact ⟨fun _ => ⟨bytes, result, rfl, hdec', htasks, hmeta⟩,
          fun _ => visible_jumpToScreen a (.taskList (some list))⟩
      | firstTasks vc =>
        refine ⟨fun hv => absurd hv (hupdate vc _), ?_⟩
        rintro ⟨data, result', hdata, hresult, hno⟩
        obtain rfl := Option.some.inj hdata
        rw [hdec'] at hresult
        obtain rfl := Option.some.inj hresult
        exact absurd ⟨htasks, hmeta⟩ hno
      | nextTask vc =>
        exact ⟨fun hv => absurd hv (hupdate vc _), fun hs => hs.elim⟩
    · -- an error: only the first request of a screen has a closure for it
      rw [heq]
      cases caller with
      | coordinator =>
        refine ⟨fun hv => absurd hv (not_visible_refl a), ?_⟩
        rintro ⟨data, result', hdata, hresult, hyes⟩
        obtain rfl := Option.some.inj hdata
        rw [hdec'] at hresult
        obtain rfl := Option.some.inj hresult
        exact absurd hyes hno
      | firstTasks vc =>
        exact ⟨fun _ => ⟨bytes, result, rfl, hdec', hno⟩,
          fun _ => visible_presentAlert (hlive vc rfl) _ _⟩
      | nextTask vc =>
        exact ⟨fun hv => absurd hv (not_visible_refl a), fun hs => hs.elim⟩

/-- What is shown of a response. -/
theorem visible_respond {call : Call} (hlive : ∀ vc, call.starter = some vc → a.isLive vc)
    (response : Option (List UInt8)) :
    Visible a (a.respond env call response) ↔ Shown env response call := by
  cases call with
  | loginUser user vc => exact visible_login (hlive vc rfl) response
  | getTaskList request caller => exact visible_list hlive response
  | deleteTask id vc => rw [visible_write rfl (hlive vc rfl), outcomes_ne_nil_iff rfl]
  | updateTask task vc => rw [visible_write rfl (hlive vc rfl), outcomes_ne_nil_iff rfl]
  | createTask task vc => rw [visible_write rfl (hlive vc rfl), outcomes_ne_nil_iff rfl]

end App

/-- **What the user sees.**  If the screen that started a request is still on
    the stack, its response is made visible exactly if it is one of those in
    `Shown`.  A successful login shows nothing itself: it makes the
    coordinator ask for the list. -/
theorem visible_iff {env : Environment} {a b : App} {id : Nat} {p : Pending}
    {response : Option (List UInt8)} (hp : a.requests.find? (fun q => q.id = id) = some p)
    (hlive : ∀ vc, p.call.starter = some vc → a.isLive vc)
    (hstep : a.step env (.deliver id response) = some b) :
    (Visible a b ↔ Shown env response p.call) ∧
    (∀ user vc data result token, p.call = .loginUser user vc → response = some data →
      env.decoder.loginResultData data = some result → result.token = some token →
      ∃ q ∈ b.requests, q.call = .getTaskList ⟨1, .title, true⟩ .coordinator ∧
        a.nextRequest ≤ q.id) := by
  have hb := App.step_deliver hp hstep
  constructor
  · rw [hb]
    exact App.visible_respond (a := a.dropRequest id) hlive response
  · rintro user vc data result token hcall rfl hdec htoken
    have hlive' : (a.dropRequest id).isLive vc := hlive vc (by rw [hcall]; rfl)
    rw [hcall, App.respond_login hlive' hdec htoken] at hb
    rw [hb]
    exact ⟨_, List.mem_append_right _ (List.mem_singleton.mpr rfl), rfl, Nat.le_refl _⟩

namespace App

/-- The login screen with a login on its way. -/
def loggingIn : App := (start none).logInPressed 0 ⟨"a@b.c", "pw", false⟩

theorem reachable_loggingIn (env : Environment) : (appSystem env none).Reachable loggingIn := by
  have hstep : (start none).step env (.logInPressed ⟨"a@b.c", "pw", false⟩) = some loggingIn := rfl
  exact .step (.init rfl) hstep

end App

/-- The body of two braces decodes without a token, so the login screen
    presents an alert. -/
theorem visible_iff_braces :
    ∃ b, App.loggingIn.step epochEnvironment (.deliver 0 (utf8 "\x7b\x7d")) = some b ∧
      Visible App.loggingIn b := by
  have hdec : JSONDecoder.standard.loginResultData [0x7b, 0x7d] = some ⟨none, none, none⟩ := by
    decide +kernel
  have hbraces : utf8 "\x7b\x7d" = some [0x7b, 0x7d] := by
    decide +kernel
  have hlive : ∀ vc, (Call.loginUser ⟨"a@b.c", "pw", false⟩ 0).starter = some vc →
      App.loggingIn.isLive vc := by
    intro vc h
    obtain rfl : 0 = vc := Option.some.inj h
    rfl
  refine ⟨_, rfl, ?_⟩
  rw [(@visible_iff epochEnvironment App.loggingIn _ 0
    ⟨0, .loginUser ⟨"a@b.c", "pw", false⟩ 0, loginUser ⟨"a@b.c", "pw", false⟩⟩ _
    rfl hlive rfl).1]
  exact ⟨_, _, hbraces, hdec, rfl⟩

/-- A login without a response shows nothing. -/
theorem not_visible :
    (appSystem epochEnvironment none).Reachable App.loggingIn ∧
      ∃ b, App.loggingIn.step epochEnvironment (.deliver 0 none) = some b ∧ b.isLive 0 ∧
        ¬ Visible App.loggingIn b := by
  refine ⟨App.reachable_loggingIn _, _, rfl, rfl, ?_⟩
  exact App.not_visible_refl _

end TimeManager
