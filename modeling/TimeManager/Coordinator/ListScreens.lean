import TimeManager.Coordinator.Stack

/-! # The List Screens of the App

    Each list screen on the stack, taken together with the list requests it
    has in flight, is a screen on its own (`TaskListScreen`).  `App.listEvent`
    is what an event of the app is for the screen, and what a run of the app
    is for the screen is a run of the screen (`listScreen_trace`): what is
    shown of the runs of one screen holds of every list screen of the app. -/

namespace TimeManager

open Lts RequesterURL

/-- The screen has just been loaded. -/
def TaskListScreen.Loaded (s : TaskListScreen) : Prop :=
  ∃ model, TaskListScreen.viewDidLoad model = .ok s

/-- The runs of a list screen on its own. -/
def listSystem (dates : DateFormats) : System TaskListScreen TaskListScreen.Event where
  init := TaskListScreen.Loaded
  step := fun s e s' => s.step dates e = some s'

/-! ## Section 1: A list screen in the app -/

/-- The model of a list screen. -/
def Screen.model? : Screen → Option TaskListModel
  | .taskList model => some model
  | _ => none

/-- The list request of the screen `vc`, if the call is one. -/
def Call.listRequest (vc : Nat) : Call → Option ListRequest
  | .getTaskList request caller => if caller.screen = some vc then some request else none
  | _ => none

theorem Call.listRequest_eq_some {vc : Nat} {call : Call} {request : ListRequest} :
    call.listRequest vc = some request ↔
      ∃ caller, call = .getTaskList request caller ∧ caller.screen = some vc := by
  cases call with
  | getTaskList sent caller =>
    unfold Call.listRequest
    by_cases hscreen : caller.screen = some vc
    · simp [hscreen]
    · simp [hscreen]
  | _ => simp [Call.listRequest]

namespace App

variable {env : Environment} {a b : App} {vc : Nat}

/-- The list requests of the screen `vc` that wait for their responses. -/
def inFlight (a : App) (vc : Nat) : List ListRequest :=
  a.requests.filterMap fun p => p.call.listRequest vc

def listModel (a : App) (vc : Nat) : Option TaskListModel :=
  (a.viewControllers.find? fun v => v.id = vc).bind fun v => v.screen.model?

/-- The list screen `vc`, with its requests in flight. -/
def listScreen (a : App) (vc : Nat) : Option TaskListScreen :=
  (a.listModel vc).map fun model => ⟨model, a.inFlight vc⟩

/-- Where the request `id` stands among the list requests of the screen `vc`. -/
def place (a : App) (vc id : Nat) : Nat :=
  ((a.requests.takeWhile fun p => p.id ≠ id).filterMap fun p => p.call.listRequest vc).length

/-- What an event of the app is for the list screen `vc`, if it concerns it. -/
def listEvent (env : Environment) (vc : Nat) (a : App) : Event → Option TaskListScreen.Event
  | .willDisplay w row => if w = vc then some (.willDisplay row) else none
  | .deliver id body =>
    (a.requests.find? fun p => p.id = id).bind fun p =>
      (p.call.listRequest vc).map fun _ =>
        .deliver (a.place vc id) (body.map (Payload.read env.decoder.taskList))
  | _ => none

/-- A screen that has list requests in flight is a list screen of the app. -/
def StartersKnown (a : App) : Prop :=
  ∀ p ∈ a.requests, ∀ vc request, p.call.listRequest vc = some request →
    ∃ model, a.listModel vc = some model

theorem listScreen_of_listModel {model : TaskListModel} (h : a.listModel vc = some model) :
    a.listScreen vc = some ⟨model, a.inFlight vc⟩ := by
  unfold listScreen
  rw [h]
  rfl

theorem listModel_of_listScreen {s : TaskListScreen} (h : a.listScreen vc = some s) :
    a.listModel vc = some s.model ∧ s.inFlight = a.inFlight vc := by
  obtain ⟨model, hmodel, rfl⟩ := Option.map_eq_some_iff.mp h
  exact ⟨hmodel, rfl⟩

theorem listModel_eq_none (h : a.listScreen vc = none) : a.listModel vc = none :=
  Option.map_eq_none_iff.mp h

/-! ## Section 2: What changes a list screen -/

theorem inFlight_send (a : App) (call : Call) (vc : Nat) :
    (a.send call).inFlight vc = a.inFlight vc ++ (call.listRequest vc).toList := by
  show (a.requests ++ [_]).filterMap _ = _
  rw [List.filterMap_append]
  cases hcall : call.listRequest vc <;> simp [inFlight, hcall]

/-- A call that is no list request of the screen leaves it as it is. -/
theorem listScreen_send {call : Call} (h : call.listRequest vc = none) :
    (a.send call).listScreen vc = a.listScreen vc := by
  unfold listScreen
  rw [inFlight_send, h]
  simp only [Option.toList_none, List.append_nil]
  rfl

theorem lt_of_listModel (h : WellFormed a) {model : TaskListModel}
    (hmodel : a.listModel vc = some model) : vc < a.nextScreen := by
  obtain ⟨v, hv, _⟩ := Option.bind_eq_some_iff.mp hmodel
  have hid : v.id = vc := by simpa using List.find?_some hv
  rw [← hid]
  exact h.screenFresh v (List.mem_of_find?_eq_some hv)

/-- A push leaves the list screens as they are. -/
theorem listModel_push_of_some {model : TaskListModel} (h : a.listModel vc = some model)
    (target : AvailableScreens) (screen : Screen) :
    (a.push target screen).listModel vc = some model := by
  obtain ⟨v, hv, hmodel⟩ := Option.bind_eq_some_iff.mp h
  show ((a.viewControllers ++ [_]).find? _).bind _ = _
  rw [List.find?_append, hv]
  exact hmodel

/-- A list screen that a push makes is the one that is pushed. -/
theorem listModel_push_of_none (h : a.listModel vc = none) {target : AvailableScreens}
    {screen : Screen} {model : TaskListModel}
    (hpush : (a.push target screen).listModel vc = some model) :
    vc = a.nextScreen ∧ screen = .taskList model := by
  obtain ⟨v, hv, hmodel⟩ := Option.bind_eq_some_iff.mp hpush
  have hv : (a.viewControllers ++ [ViewController.mk a.nextScreen target screen]).find?
      (fun v => v.id = vc) = some v := hv
  rw [List.find?_append] at hv
  cases hold : a.viewControllers.find? (fun v => v.id = vc) with
  | some v' =>
    -- a screen that was there is still found
    rw [hold] at hv
    obtain rfl : v' = v := Option.some.inj hv
    unfold listModel at h
    rw [hold, Option.bind_some, hmodel] at h
    cases h
  | none =>
    rw [hold] at hv
    have hv : [ViewController.mk a.nextScreen target screen].find? (fun v => v.id = vc) = some v := hv
    have hmem := List.mem_singleton.mp (List.mem_of_find?_eq_some hv)
    have hid : v.id = vc := by simpa using List.find?_some hv
    rw [hmem] at hid hmodel
    refine ⟨hid.symm, ?_⟩
    cases screen with
    | taskList shown => rw [Option.some.inj hmodel]
    | _ => cases hmodel

/-- Changing a screen changes the model of that screen only. -/
theorem listModel_updateScreen (a : App) (w : Nat) (f : Screen → Screen) (vc : Nat) :
    (a.updateScreen w f).listModel vc =
      (a.viewControllers.find? fun v => v.id = vc).bind fun v =>
        if vc = w then (f v.screen).model? else v.screen.model? := by
  have hfind : (a.updateScreen w f).viewControllers.find? (fun v => v.id = vc) =
      (a.viewControllers.find? fun v => v.id = vc).map (ViewController.update w f) := by
    show (a.viewControllers.map _).find? _ = _
    rw [List.find?_map]
    congr 2
    funext v
    simp [Function.comp]
  unfold listModel
  rw [hfind]
  cases hv : a.viewControllers.find? (fun v => v.id = vc) with
  | none => rfl
  | some v =>
    have hid : v.id = vc := by simpa using List.find?_some hv
    show (v.update w f).screen.model? = if vc = w then (f v.screen).model? else v.screen.model?
    unfold ViewController.update
    rw [hid]
    by_cases hvc : vc = w
    · rw [if_pos hvc, if_pos hvc]
    · rw [if_neg hvc, if_neg hvc]

theorem model?_act (action : FormAction) (screen : Screen) :
    (screen.act action).model? = screen.model? := by
  cases screen <;> rfl

theorem model?_fillIn (user : LoginData) (screen : Screen) :
    (screen.fillIn user).model? = screen.model? := by
  cases screen <;> rfl

/-- What is done to a form changes no list. -/
theorem listModel_updateForm (a : App) (w : Nat) {f : Screen → Screen}
    (hf : ∀ screen : Screen, (f screen).model? = screen.model?) (vc : Nat) :
    (a.updateScreen w f).listModel vc = a.listModel vc := by
  rw [listModel_updateScreen]
  simp only [hf, ite_self]
  rfl

theorem listScreen_updateForm (a : App) (w : Nat) {f : Screen → Screen}
    (hf : ∀ screen : Screen, (f screen).model? = screen.model?) (vc : Nat) :
    (a.updateScreen w f).listScreen vc = a.listScreen vc := by
  unfold listScreen
  rw [listModel_updateForm a w hf]
  rfl

/-- A success closure changes the model of its screen. -/
theorem listModel_updateModel (a : App) (w : Nat) (f : TaskListModel → TaskListModel) (vc : Nat) :
    (a.updateScreen w (Screen.updateModel f)).listModel vc =
      if vc = w then (a.listModel vc).map f else a.listModel vc := by
  have hupdate : ∀ screen : Screen, (screen.updateModel f).model? = screen.model?.map f := by
    intro screen
    cases screen <;> rfl
  rw [listModel_updateScreen]
  unfold listModel
  by_cases hvc : vc = w
  · simp only [if_pos hvc, hupdate, Option.map_bind]
    rfl
  · simp only [if_neg hvc]

/-- A back event removes a screen that is no list. -/
theorem listModel_back (hwf : WellFormed a) {v : ViewController}
    (htop : a.topViewController = some v)
    (hscreen : (∃ data, v.screen = .taskDetail data) ∨ ∃ view, v.screen = .taskEdit view) :
    a.back.listModel vc = a.listModel vc := by
  rw [back_eq hwf htop (hwf.top_not_isRoot htop hscreen)]
  show (a.viewControllers.dropLast.find? _).bind _ = (a.viewControllers.find? _).bind _
  rw [viewControllers_of_top htop, List.dropLast_concat, List.find?_append]
  cases hfind : a.viewControllers.dropLast.find? (fun v => v.id = vc) with
  | some w => rfl
  | none =>
    -- the screen on top is a detail or an edit screen
    have hno : v.screen.model? = none := by
      rcases hscreen with ⟨data, h⟩ | ⟨view, h⟩ <;> rw [h] <;> rfl
    rw [Option.none_or]
    by_cases hvc : v.id = vc
    · simp [hvc, hno]
    · simp [hvc]

/-- The requests before the one that is answered. -/
theorem requests_of_find {id : Nat} {p : Pending}
    (hp : a.requests.find? (fun q => q.id = id) = some p) :
    ∃ below above, a.requests = below ++ p :: above ∧ p.id = id ∧ (∀ q ∈ below, q.id ≠ id) ∧
      ∀ vc, a.place vc id = (below.filterMap fun q => q.call.listRequest vc).length := by
  obtain ⟨hid, below, above, hrequests, hbelow⟩ := List.find?_eq_some_iff_append.mp hp
  have hid : p.id = id := by simpa using hid
  have hne : ∀ q ∈ below, q.id ≠ id := fun q hq => by simpa using hbelow q hq
  refine ⟨below, above, hrequests, hid, hne, fun vc => ?_⟩
  unfold place
  rw [hrequests, List.takeWhile_append_of_pos (by simpa using hne),
    List.takeWhile_cons_of_neg (by simp [hid]), List.append_nil]

/-- The request that is answered is in its place among those of its screen. -/
theorem inFlight_place {id : Nat} {p : Pending} {request : ListRequest}
    (hp : a.requests.find? (fun q => q.id = id) = some p)
    (hcall : p.call.listRequest vc = some request) :
    (a.inFlight vc)[a.place vc id]? = some request := by
  obtain ⟨below, above, hrequests, _, _, hplace⟩ := requests_of_find hp
  rw [hplace]
  unfold inFlight
  rw [hrequests, List.filterMap_append,
    @List.filterMap_cons_some _ _ (fun q : Pending => q.call.listRequest vc) p above _ hcall,
    List.getElem?_append_right (Nat.le_refl _), Nat.sub_self]
  rfl

/-- A request that is answered leaves its place among those of its screen. -/
theorem inFlight_answered (env : Environment) (hwf : WellFormed a) {id : Nat} {p : Pending}
    (hp : a.requests.find? (fun q => q.id = id) = some p) (body : Option (List UInt8)) (vc : Nat) :
    (p.call.listRequest vc = none ∧ (a.answered env p body).inFlight vc = a.inFlight vc) ∨
    ∃ request, p.call.listRequest vc = some request ∧
      (a.answered env p body).inFlight vc = (a.inFlight vc).eraseIdx (a.place vc id) := by
  obtain ⟨below, above, hrequests, hid, hbelow, hplace⟩ := requests_of_find hp
  -- identities increase, so no request after `p` has its identity
  have hsorted := hwf.requestIds
  rw [hrequests, List.map_append, List.map_cons, List.pairwise_append, List.pairwise_cons] at hsorted
  have habove : ∀ q ∈ above, q.id ≠ id := by
    intro q hq
    have hlt := hsorted.2.1.1 q.id (List.mem_map_of_mem hq)
    omega
  have hrest : (a.answered env p body).inFlight vc =
      (below ++ above).filterMap fun q => q.call.listRequest vc := by
    show (a.requests.filter _).filterMap _ = _
    rw [hrequests, List.filter_append, List.filter_cons_of_neg (by simp),
      List.filter_eq_self.mpr (by simpa [hid] using hbelow),
      List.filter_eq_self.mpr (by simpa [hid] using habove)]
  rw [hrest, hplace]
  unfold inFlight
  rw [hrequests, List.filterMap_append, List.filterMap_append]
  cases hcall : p.call.listRequest vc with
  | none =>
    left
    rw [@List.filterMap_cons_none _ _ (fun q : Pending => q.call.listRequest vc) p above hcall]
    exact ⟨rfl, rfl⟩
  | some request =>
    right
    rw [@List.filterMap_cons_some _ _ (fun q : Pending => q.call.listRequest vc) p above _ hcall]
    refine ⟨request, rfl, ?_⟩
    rw [List.eraseIdx_append_of_length_le (Nat.le_refl _), Nat.sub_self]
    rfl

/-- A list that is not filled by a response stays as it is. -/
theorem respond_of_not_fills {p : Pending} {body : Option (List UInt8)} {request : ListRequest}
    (hcall : p.call.listRequest vc = some request) (hfills : ¬ Fills env body p.call)
    (model : TaskListModel) :
    model.respond env.dates (body.map (Payload.read env.decoder.taskList)) = model := by
  unfold TaskListModel.respond
  rcases getTaskListResponse_cases (body.map (Payload.read env.decoder.taskList)) with
    ⟨heq, _⟩ | ⟨data, result, _, _, ⟨_, _, list, heq⟩ | ⟨_, heq⟩⟩
  · rw [heq]
    rfl
  · obtain ⟨caller, hp, hscreen⟩ := Call.listRequest_eq_some.mp hcall
    have hyes : Fills env body p.call := by
      rw [hp]
      exact ⟨by rw [hscreen]; rfl, list, heq⟩
    exact absurd hyes hfills
  · rw [heq]
    rfl

/-! ## Section 3: Requests of known screens -/

theorem StartersKnown.send (h : StartersKnown a) {call : Call}
    (hcall : ∀ vc request, call.listRequest vc = some request →
      ∃ model, a.listModel vc = some model) :
    StartersKnown (a.send call) := by
  intro p hp vc request hrequest
  rcases List.mem_append.mp hp with hp | hp
  · exact h p hp vc request hrequest
  · rw [List.mem_singleton.mp hp] at hrequest
    exact hcall vc request hrequest

/-- A request that no list screen sends. -/
theorem StartersKnown.send_other (h : StartersKnown a) {call : Call}
    (hcall : ∀ vc, call.listRequest vc = none) : StartersKnown (a.send call) :=
  h.send fun vc request hrequest =>
    (Option.some_ne_none request (hrequest.symm.trans (hcall vc))).elim

/-- What keeps the list screens and sends nothing. -/
theorem StartersKnown.of_listModel (h : StartersKnown a) (hrequests : b.requests = a.requests)
    (hmodel : ∀ vc model, a.listModel vc = some model → ∃ model', b.listModel vc = some model') :
    StartersKnown b := by
  intro p hp vc request hrequest
  rw [hrequests] at hp
  obtain ⟨model, hvc⟩ := h p hp vc request hrequest
  exact hmodel vc model hvc

theorem StartersKnown.push (h : StartersKnown a) (target : AvailableScreens) (screen : Screen) :
    StartersKnown (a.push target screen) :=
  h.of_listModel rfl fun _ model hmodel => ⟨model, listModel_push_of_some hmodel _ _⟩

theorem StartersKnown.updateForm (h : StartersKnown a) (w : Nat) {f : Screen → Screen}
    (hf : ∀ screen : Screen, (f screen).model? = screen.model?) :
    StartersKnown (a.updateScreen w f) :=
  h.of_listModel rfl fun vc model hmodel => ⟨model, (listModel_updateForm a w hf vc).trans hmodel⟩

/-- A list screen that is pushed is found under its identity. -/
theorem listModel_push_self (hwf : WellFormed a) (target : AvailableScreens)
    (model : TaskListModel) :
    (a.push target (.taskList model)).listModel a.nextScreen = some model := by
  have hfresh : a.viewControllers.find? (fun v => v.id = a.nextScreen) = none := by
    rw [List.find?_eq_none]
    intro v hv hid
    have hlt := hwf.screenFresh v hv
    simp only [decide_eq_true_eq] at hid
    omega
  show ((a.viewControllers ++ [_]).find? _).bind _ = _
  rw [List.find?_append, hfresh]
  simp [Screen.model?]

theorem StartersKnown.jumpToScreen (h : StartersKnown a) (hwf : WellFormed a)
    (target : AvailableScreens) : StartersKnown (a.jumpToScreen target) := by
  rcases a.jumpToScreen_cases target with ⟨screen, _, _, heq⟩ | ⟨list, _, heq⟩
  · rw [heq]
    exact h.push _ _
  · rw [heq]
    intro p hp vc request hrequest
    rcases List.mem_append.mp hp with hp | hp
    · exact h.push _ _ p hp vc request hrequest
    · -- the first request of the screen that is pushed
      rw [List.mem_singleton.mp hp] at hrequest
      obtain ⟨caller, hcall, hscreen⟩ := Call.listRequest_eq_some.mp hrequest
      obtain ⟨_, rfl⟩ := Call.getTaskList.inj hcall
      obtain rfl : a.nextScreen = vc := Option.some.inj hscreen
      exact ⟨_, listModel_push_self (hwf.send _) _ _⟩

theorem Grows.startersKnown (hgrows : Grows a b) (hwf : WellFormed a) (h : StartersKnown a) :
    StartersKnown b := by
  induction hgrows with
  | refl => exact h
  | jump target hgrows ih => exact ih.jumpToScreen (hgrows.wellFormed hwf) target
  | alert shown _ ih => exact ih

theorem StartersKnown.answered (h : StartersKnown a) (env : Environment) (p : Pending)
    (body : Option (List UInt8)) : StartersKnown (a.answered env p body) := by
  intro q hq
  exact h q (List.mem_filter.mp hq).1

/-- **Step lemma**: an event keeps the invariant. -/
theorem StartersKnown.step {e : Event} (h : StartersKnown a) (hwf : WellFormed a)
    (hstep : a.step env e = some b) : StartersKnown b := by
  cases step_effect hstep with
  | grows _ hgrows => exact hgrows.startersKnown hwf h
  | typed _ => exact h.updateForm _ (model?_fillIn _)
  | login _ => exact (h.updateForm _ (model?_fillIn _)).send_other fun _ => rfl
  | @more w row request v model hv hscreen _ _ =>
    apply h.send
    intro vc request' hrequest
    obtain ⟨caller, hcall, hcaller⟩ := Call.listRequest_eq_some.mp hrequest
    obtain ⟨_, rfl⟩ := Call.getTaskList.inj hcall
    -- the caller is the screen whose row is displayed
    obtain rfl : w = vc := Option.some.inj hcaller
    refine ⟨model, ?_⟩
    unfold listModel
    rw [hv, Option.bind_some, hscreen]
    rfl
  | delete _ => exact h.send_other fun _ => rfl
  | save _ _ _ =>
    unfold saveTask
    split
    · exact h.send_other fun _ => rfl
    · exact h.send_other fun _ => rfl
  | form _ _ => exact h.updateForm _ (model?_act _)
  | back htop hscreen =>
    have hrequests : a.back.requests = a.requests := by
      rw [back_eq hwf htop (hwf.top_not_isRoot htop hscreen)]
    exact h.of_listModel hrequests fun vc model hmodel =>
      ⟨model, (listModel_back hwf htop hscreen).trans hmodel⟩
  | deliver _ _ hgrows => exact hgrows.startersKnown (hwf.answered env _ _) (h.answered env _ _)
  | @load id body p _ _ w list _ _ _ _ =>
    refine StartersKnown.of_listModel (h.answered env p body) rfl ?_
    intro vc model hmodel
    rw [listModel_updateModel, hmodel]
    split
    · exact ⟨_, rfl⟩
    · exact ⟨_, rfl⟩
  | session _ _ _ _ =>
    apply (h.answered env _ _).send_other
    intro vc
    simp [Call.listRequest, ListCaller.screen]

/-- What a screen has in flight that is no list screen. -/
theorem StartersKnown.inFlight_eq_nil (h : StartersKnown a) (hvc : a.listModel vc = none) :
    a.inFlight vc = [] := by
  apply List.filterMap_eq_nil_iff.mpr
  intro p hp
  cases hrequest : p.call.listRequest vc with
  | none => rfl
  | some request =>
    obtain ⟨model, hmodel⟩ := h p hp vc request hrequest
    rw [hvc] at hmodel
    cases hmodel

/-- The starters of all requests are known in every run. -/
theorem startersKnown_of_reachable {userToken : Option String}
    (h : (appSystem env userToken).Reachable a) : StartersKnown a := by
  apply h.invariant
  · intro s hs
    have hs : s = App.start userToken := hs
    rw [hs]
    intro p hp
    cases hp
  · intro s e s' hreach hknown hstep
    exact hknown.step (wellFormed_of_reachable hreach) hstep

/-! ## Section 4: Screens that appear -/

/-- A list screen that appears when a screen is opened has just been loaded. -/
theorem listScreen_jumpToScreen_of_none (hknown : StartersKnown a) (target : AvailableScreens)
    (hnone : a.listModel vc = none) {s : TaskListScreen}
    (hs : (a.jumpToScreen target).listScreen vc = some s) : s.Loaded := by
  rcases a.jumpToScreen_cases target with ⟨screen, _, hother, heq⟩ | ⟨list, _, heq⟩
  · rw [heq] at hs
    obtain ⟨_, hscreen⟩ := listModel_push_of_none hnone (listModel_of_listScreen hs).1
    exact absurd hscreen (hother _)
  · rw [heq] at hs
    obtain ⟨hmodel, hflight⟩ := listModel_of_listScreen hs
    have hnone' : (a.send (.getTaskList ⟨1, .title, true⟩ (.firstTasks a.nextScreen))).listModel vc =
        none := hnone
    obtain ⟨hvc, hscreen⟩ := listModel_push_of_none hnone' hmodel
    have hvc : vc = a.nextScreen := hvc
    have hmodel : newTaskList list = s.model := by simpa using hscreen
    -- nothing but its first request is in flight
    have hflight : s.inFlight = a.inFlight vc ++ (Call.listRequest vc
        (.getTaskList ⟨1, .title, true⟩ (.firstTasks a.nextScreen))).toList :=
      hflight.trans (inFlight_send a _ vc)
    rw [hknown.inFlight_eq_nil hnone] at hflight
    obtain ⟨model, inFlight⟩ := s
    obtain rfl : newTaskList list = model := hmodel
    obtain rfl : inFlight = _ := hflight
    refine ⟨(TaskListModel.ofList list).setSeekParameters 1 .title true, ?_⟩
    rw [TaskListScreen.viewDidLoad_eq]
    simp [Call.listRequest, ListCaller.screen, hvc, newTaskList, TaskListModel.setSeekParameters]

theorem listScreen_push_of_some {s : TaskListScreen} (hs : a.listScreen vc = some s)
    (target : AvailableScreens) (screen : Screen) :
    (a.push target screen).listScreen vc = some s := by
  have hmodel := (listModel_of_listScreen hs).1
  rw [listScreen_of_listModel (listModel_push_of_some hmodel target screen), ← hs,
    listScreen_of_listModel hmodel]
  rfl

/-- Opening a screen leaves the list screens as they are. -/
theorem listScreen_jumpToScreen_of_some (hwf : WellFormed a) (target : AvailableScreens)
    {s : TaskListScreen} (hs : a.listScreen vc = some s) :
    (a.jumpToScreen target).listScreen vc = some s := by
  rcases a.jumpToScreen_cases target with ⟨screen, _, _, heq⟩ | ⟨list, _, heq⟩
  · rw [heq]
    exact listScreen_push_of_some hs _ _
  · -- the new request is not one of an older screen
    have hne : ¬ a.nextScreen = vc :=
      Nat.ne_of_gt (lt_of_listModel hwf (listModel_of_listScreen hs).1)
    rw [heq]
    apply listScreen_push_of_some
    rw [listScreen_send (by simp [Call.listRequest, ListCaller.screen, hne])]
    exact hs

theorem Grows.listScreen_of_some (hgrows : Grows a b) (hwf : WellFormed a) {s : TaskListScreen}
    (hs : a.listScreen vc = some s) : b.listScreen vc = some s := by
  induction hgrows with
  | refl => exact hs
  | jump target hgrows ih => exact listScreen_jumpToScreen_of_some (hgrows.wellFormed hwf) target ih
  | alert shown _ ih => exact ih

theorem Grows.listScreen_of_none (hgrows : Grows a b) (hwf : WellFormed a)
    (hknown : StartersKnown a) (hnone : a.listModel vc = none) {s : TaskListScreen}
    (hs : b.listScreen vc = some s) : s.Loaded := by
  induction hgrows generalizing s with
  | refl =>
    rw [(listModel_of_listScreen hs).1] at hnone
    cases hnone
  | @jump b target hgrows ih =>
    cases hbefore : b.listScreen vc with
    | some s' =>
      rw [listScreen_jumpToScreen_of_some (hgrows.wellFormed hwf) target hbefore] at hs
      exact ih (hbefore.trans hs)
    | none =>
      exact listScreen_jumpToScreen_of_none (hgrows.startersKnown hwf hknown) target
        (listModel_eq_none hbefore) hs
  | alert shown _ ih => exact ih hs

/-- A list screen that appears has just been loaded. -/
theorem step_listScreen_of_none {e : Event} (hwf : WellFormed a) (hknown : StartersKnown a)
    (hstep : a.step env e = some b) (hnone : a.listScreen vc = none) {s : TaskListScreen}
    (hs : b.listScreen vc = some s) : s.Loaded := by
  have hnone := listModel_eq_none hnone
  have hmodel := (listModel_of_listScreen hs).1
  -- only where the app grows can a list screen appear
  have hsame : b.listModel vc = a.listModel vc → s.Loaded := by
    intro hsame
    rw [hsame, hnone] at hmodel
    cases hmodel
  cases step_effect hstep with
  | grows _ hgrows => exact hgrows.listScreen_of_none hwf hknown hnone hs
  | typed _ => exact hsame (listModel_updateForm _ _ (model?_fillIn _) _)
  | login _ => exact hsame (listModel_updateForm _ _ (model?_fillIn _) _)
  | more _ _ _ _ => exact hsame rfl
  | delete _ => exact hsame rfl
  | save _ _ _ =>
    apply hsame
    unfold saveTask
    split <;> rfl
  | form _ _ => exact hsame (listModel_updateForm _ _ (model?_act _) _)
  | back htop hscreen => exact hsame (listModel_back hwf htop hscreen)
  | deliver _ _ hgrows =>
    exact hgrows.listScreen_of_none (hwf.answered env _ _) (hknown.answered env _ _) hnone hs
  | @load _ body p _ _ w list _ _ _ _ =>
    have hload := listModel_updateModel (a.answered env p body) w
      (·.successAll env.dates list) vc
    have hanswered : (a.answered env p body).listModel vc = none := hnone
    rw [hmodel, hanswered] at hload
    simp at hload
  | session _ _ _ _ => exact hsame rfl

/-! ## Section 5: Screens that are there -/

/-- The display of a row, in terms of the list screen. -/
theorem step_willDisplay_eq (env : Environment) (a : App) (w row : Nat) :
    a.step env (.willDisplay w row) = (a.listModel w).bind fun model =>
      if row < model.data.length then
        match model.willDisplay row with
        | .ok request => some (a.sendIfAny (request.map fun r => .getTaskList r (.nextTask w)))
        | .error _ => none
      else none := by
  unfold listModel
  simp only [step]
  cases a.viewControllers.find? fun v => v.id = w with
  | none => rfl
  | some v =>
    obtain ⟨id, madeFrom, screen⟩ := v
    cases screen <;> rfl

/-- The display of a row is a step of the screen that shows it. -/
theorem listScreen_willDisplay {w row : Nat} (hstep : a.step env (.willDisplay w row) = some b)
    {s : TaskListScreen} (hs : a.listScreen vc = some s) :
    ∃ s', b.listScreen vc = some s' ∧
      System.Follows (listSystem env.dates) s (a.listEvent env vc (.willDisplay w row)) s' := by
  obtain ⟨hmodel, hflight⟩ := listModel_of_listScreen hs
  rw [step_willDisplay_eq] at hstep
  obtain ⟨model, hw, hstep⟩ := Option.bind_eq_some_iff.mp hstep
  split at hstep
  · next hrow =>
    split at hstep
    · next request hrequest =>
      obtain rfl := Option.some.inj hstep
      have hmodel' : (a.sendIfAny (request.map fun r => .getTaskList r (.nextTask w))).listModel vc =
          some s.model := by
        cases request <;> exact hmodel
      have hinFlight : (a.sendIfAny (request.map fun r => .getTaskList r (.nextTask w))).inFlight vc =
          s.inFlight ++ if w = vc then request.toList else [] := by
        rw [hflight]
        cases request with
        | none => simp [sendIfAny]
        | some r =>
          rw [Option.map_some, sendIfAny, inFlight_send]
          by_cases hvc : w = vc <;> simp [Call.listRequest, ListCaller.screen, hvc]
      refine ⟨_, listScreen_of_listModel hmodel', ?_⟩
      rw [hinFlight]
      by_cases hvc : w = vc
      · -- a row of this screen
        subst hvc
        obtain rfl : s.model = model := Option.some.inj (hmodel.symm.trans hw)
        simp only [listEvent, if_true]
        show s.step env.dates (.willDisplay row) = some _
        simp only [TaskListScreen.step, if_pos hrow, hrequest]
      · simp only [listEvent, if_neg hvc, List.append_nil]
        rfl
    · cases hstep
  · cases hstep

theorem listEvent_deliver {id : Nat} {p : Pending}
    (hp : a.requests.find? (fun q => q.id = id) = some p) (body : Option (List UInt8)) :
    a.listEvent env vc (.deliver id body) = (p.call.listRequest vc).map fun _ =>
      .deliver (a.place vc id) (body.map (Payload.read env.decoder.taskList)) := by
  simp only [listEvent, hp, Option.bind_some]

/-- The list screen `vc` after a response that fills no list. -/
theorem listScreen_answered (hwf : WellFormed a) {id : Nat} {p : Pending}
    (hp : a.requests.find? (fun q => q.id = id) = some p) {body : Option (List UInt8)}
    (hfills : ¬ Fills env body p.call) {s : TaskListScreen} (hs : a.listScreen vc = some s) :
    ∃ s', (a.answered env p body).listScreen vc = some s' ∧
      System.Follows (listSystem env.dates) s (a.listEvent env vc (.deliver id body)) s' := by
  obtain ⟨hmodel, hflight⟩ := listModel_of_listScreen hs
  have hmodel' : (a.answered env p body).listModel vc = some s.model := hmodel
  refine ⟨_, listScreen_of_listModel hmodel', ?_⟩
  rw [listEvent_deliver hp]
  rcases inFlight_answered env hwf hp body vc with ⟨hcall, hsame⟩ | ⟨request, hcall, herase⟩
  · -- a request of another screen
    rw [hcall, hsame, ← hflight]
    rfl
  · obtain ⟨hi, _⟩ := List.getElem?_eq_some_iff.mp (inFlight_place hp hcall)
    rw [hcall, herase, ← hflight]
    show (if a.place vc id < s.inFlight.length then _ else _) = some _
    rw [if_pos (hflight ▸ hi), respond_of_not_fills hcall hfills]

/-- The list screen `vc` after a response that fills the list of the screen `w`. -/
theorem listScreen_load (hwf : WellFormed a) {id w : Nat} {p : Pending}
    (hp : a.requests.find? (fun q => q.id = id) = some p) {body : Option (List UInt8)}
    {request : ListRequest} {caller : ListCaller} {list : TaskList}
    (hcall : p.call = .getTaskList request caller) (hcaller : caller.screen = some w)
    (hlist : getTaskListResponse (body.map (Payload.read env.decoder.taskList)) =
      [.toDoIfSuccess list])
    {s : TaskListScreen} (hs : a.listScreen vc = some s) :
    ∃ s', ((a.answered env p body).updateScreen w
        (Screen.updateModel (·.successAll env.dates list))).listScreen vc = some s' ∧
      System.Follows (listSystem env.dates) s (a.listEvent env vc (.deliver id body)) s' := by
  obtain ⟨hmodel, hflight⟩ := listModel_of_listScreen hs
  have hmodel' := listModel_updateModel (a.answered env p body) w
    (·.successAll env.dates list) vc
  have hanswered : (a.answered env p body).listModel vc = some s.model := hmodel
  rw [hanswered] at hmodel'
  have hrequest : ∀ u, p.call.listRequest u = if w = u then some request else none := by
    intro u
    rw [hcall]
    simp [Call.listRequest, hcaller]
  rw [listEvent_deliver hp, hrequest]
  have hcases := inFlight_answered env hwf hp body vc
  rw [hrequest] at hcases
  by_cases hvc : w = vc
  · -- the screen that asked
    subst hvc
    rw [if_pos rfl] at hmodel'
    rcases hcases with ⟨hnone, _⟩ | ⟨_, _, herase⟩
    · simp at hnone
    · obtain ⟨hi, _⟩ := List.getElem?_eq_some_iff.mp
        (inFlight_place hp ((hrequest w).trans (if_pos rfl)))
      refine ⟨_, listScreen_of_listModel hmodel', ?_⟩
      rw [if_pos rfl]
      show (if a.place w id < s.inFlight.length then _ else _) =
        some (TaskListScreen.mk _ ((a.answered env p body).inFlight w))
      rw [if_pos (hflight ▸ hi), TaskListModel.respond, hlist, herase, hflight]
      rfl
  · rw [if_neg (Ne.symm hvc)] at hmodel'
    refine ⟨_, listScreen_of_listModel hmodel', ?_⟩
    rw [if_neg hvc]
    rcases hcases with ⟨_, hsame⟩ | ⟨_, hsome, _⟩
    · show TaskListScreen.mk _ ((a.answered env p body).inFlight vc) = s
      rw [hsame, ← hflight]
    · rw [if_neg hvc] at hsome
      cases hsome

/-- An event that leaves the screens and the list requests as they are. -/
theorem listScreen_of_same {e : Event} (hevent : a.listEvent env vc e = none)
    (hsame : b.listScreen vc = a.listScreen vc) {s : TaskListScreen}
    (hs : a.listScreen vc = some s) :
    ∃ s', b.listScreen vc = some s' ∧
      System.Follows (listSystem env.dates) s (a.listEvent env vc e) s' := by
  rw [hevent]
  exact ⟨s, hsame.trans hs, rfl⟩

/-- **Step lemma**: an event of the app is for each list screen that is there
    the event `listEvent` says, or nothing. -/
theorem step_listScreen {e : Event} (hwf : WellFormed a) (hstep : a.step env e = some b)
    {s : TaskListScreen} (hs : a.listScreen vc = some s) :
    ∃ s', b.listScreen vc = some s' ∧
      System.Follows (listSystem env.dates) s (a.listEvent env vc e) s' := by
  cases step_effect hstep with
  | @grows e b hminor hgrows =>
    cases e with
    | willDisplay w row => exact listScreen_willDisplay hstep hs
    | deliver id body => cases hminor
    | _ => exact ⟨s, hgrows.listScreen_of_some hwf hs, rfl⟩
  | typed _ => exact listScreen_of_same rfl (listScreen_updateForm _ _ (model?_fillIn _) _) hs
  | login _ =>
    exact listScreen_of_same rfl
      ((listScreen_send rfl).trans (listScreen_updateForm _ _ (model?_fillIn _) _)) hs
  | more _ _ _ _ => exact listScreen_willDisplay hstep hs
  | delete _ => exact listScreen_of_same rfl (listScreen_send rfl) hs
  | save _ _ _ =>
    apply listScreen_of_same rfl _ hs
    unfold saveTask
    split
    · exact listScreen_send rfl
    · exact listScreen_send rfl
  | form _ _ => exact listScreen_of_same rfl (listScreen_updateForm _ _ (model?_act _) _) hs
  | back htop hscreen =>
    apply listScreen_of_same rfl _ hs
    unfold listScreen
    rw [listModel_back hwf htop hscreen, back_eq hwf htop (hwf.top_not_isRoot htop hscreen)]
    rfl
  | deliver hp hfills hgrows =>
    obtain ⟨s', hs', hfollows⟩ := listScreen_answered hwf hp hfills hs
    exact ⟨s', hgrows.listScreen_of_some (hwf.answered env _ _) hs', hfollows⟩
  | load hp hcall hcaller hlist => exact listScreen_load hwf hp hcall hcaller hlist hs
  | @session id body p user w result token hp hcall _ _ =>
    have hfills : ¬ Fills env body p.call := by
      rw [hcall]
      exact not_false
    obtain ⟨s', hs', hfollows⟩ := listScreen_answered hwf hp hfills hs
    exact ⟨s', (listScreen_send rfl).trans hs', hfollows⟩

/-- What a run of the app is for the list screen `vc`. -/
def listSteps (env : Environment) (vc : Nat) (tr : List (App × Event)) :
    List (TaskListScreen × TaskListScreen.Event) :=
  System.seenBy (fun a => a.listScreen vc) (fun a => a.listEvent env vc) tr

end App

/-- **List screens.**  What a run of the app is for a list screen is a run of
    the screen on its own. -/
theorem listScreen_trace {env : Environment} {userToken : Option String}
    {tr : List (App × App.Event)} {a : App} (h : (appSystem env userToken).Trace tr a) {vc : Nat}
    {s : TaskListScreen} (hs : a.listScreen vc = some s) :
    (listSystem env.dates).Trace (App.listSteps env vc tr) s := by
  apply h.project _ _ _ hs
  · intro a s ha hs
    have ha : a = App.start userToken := ha
    rw [ha] at hs
    -- there is only the login screen
    cases vc with
    | zero => cases hs
    | succ vc => cases hs
  · intro a e b s hreach hstep hnone hs
    exact App.step_listScreen_of_none (App.wellFormed_of_reachable hreach)
      (App.startersKnown_of_reachable hreach) hstep hnone hs
  · intro a e b s hreach hstep hs
    exact App.step_listScreen (App.wellFormed_of_reachable hreach) hstep hs

end TimeManager
