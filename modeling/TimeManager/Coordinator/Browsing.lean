import TimeManager.Coordinator.ListContents
import TimeManager.Coordinator.Recovery
import TimeManager.Managers.JSONEncoder

/-! # Everything Can Be Shown

    The app and a server together, down to the bytes that are sent: the
    server logs the user in and answers the request for page `p` of its list
    `L` with a body that decodes to the page.

    From any state of the app, whatever else it waits for, there is a way to a
    list screen that shows all of `L` in order (`all_can_be_shown`): to a
    login screen, through a login, and down the list, which asks for the next
    page whenever its tenth row from the end is displayed.  Pages have to have
    ten tasks for that. -/

namespace TimeManager

open Lts RequesterURL Checked

/-! ## Section 1: The server -/

/-- The server logs `user` in with `token`, and answers the requests for the
    pages of `L` with bodies that the app decodes to them. -/
structure Serves (env : Environment) (server : Call → Option (List UInt8)) (user : LoginData)
    (token : String) (L : List TaskData) (l : Nat) : Prop where
  login : ∀ vc, ∃ data result, server (.loginUser user vc) = some data ∧
    env.decoder.loginResultData data = some result ∧ result.token = some token
  list : ∀ (request : ListRequest) caller, 1 ≤ request.page → request.page ≤ (Pages.pageCount l L.length : Nat) →
    AnswersPage L l request.page
      ((server (.getTaskList request caller)).map (Payload.read env.decoder.taskList))

/-- The condition on a step that a response is the server's. -/
def AnsweredBy (server : Call → Option (List UInt8)) (a : App) : App.Event → Prop
  | .deliver id body => ∀ p ∈ a.requests, p.id = id → body = server p.call
  | _ => True

/-- The app with a server: the runs in which every response is the server's. -/
def servedSystem (env : Environment) (userToken : Option String)
    (server : Call → Option (List UInt8)) : System App App.Event :=
  (appSystem env userToken).restrict (AnsweredBy server)

/-! ### A server that sends JSON -/

/-- The reply that holds page `p`. -/
def pageReply (L : List TaskData) (l : Nat) (p : Int) : TaskList :=
  ⟨some (pageTasks L l p), some (pageMeta L l p), none⟩

/-- What a server sends that encodes its replies: it gives every user the same
    token. -/
def serverBody (e : JSONEncoder) (token : String) (L : List TaskData) (l : Nat) :
    Call → Option (List UInt8)
  | .loginUser _ _ => some (e.loginResultData ⟨some token, none, none⟩)
  | .getTaskList request _ => some (e.taskList (pageReply L l request.page))
  -- tasks are not changed here
  | _ => none

/-- The integers that the server sends fit in an `Int`. -/
structure ServerFits (L : List TaskData) (l : Nat) : Prop where
  tasks : FitInt (L.flatMap TaskData.ints)
  count : InRange L.length
  limit : InRange l

/-- A page of a list that fits fits. -/
theorem ServerFits.fitInt_pageReply {L : List TaskData} {l : Nat} (h : ServerFits L l) {p : Int}
    (hp : InRange p) : FitInt (pageReply L l p).ints := by
  rw [TaskList.fitInt_iff]
  constructor
  · intro tasks htasks task htask
    obtain rfl := Option.some.inj htasks
    have hmem : task ∈ L := List.mem_of_mem_drop (List.mem_of_mem_take htask)
    exact fitInt_flatMap.mp h.tasks task hmem
  · intro mt hmt
    obtain rfl := Option.some.inj hmt
    intro i hi
    simp only [Meta.ints, pageMeta, List.mem_cons, List.not_mem_nil, or_false] at hi
    rcases hi with rfl | rfl | rfl
    · exact hp
    · exact h.limit
    · exact h.count

/-- The numbers of the pages fit. -/
theorem inRange_of_le_pageCount {n l : Nat} (hn : InRange n) (hl : 0 < l) {p : Int} (hone : 1 ≤ p)
    (hle : p ≤ Pages.pageCount l n) : InRange p := by
  have hcount := Pages.pageCount_le hl n
  have hmax : (n : Int) < 2 ^ 63 := hn.2
  constructor <;> omega

/-- A server that encodes its replies serves the app. -/
theorem serves_serverBody {env : Environment} (henv : env.decoder = .standard) (e : JSONEncoder)
    (user : LoginData) (token : String) {L : List TaskData} {l : Nat} (hl : 0 < l)
    (hfits : ServerFits L l) : Serves env (serverBody e token L l) user token L l := by
  constructor
  · intro vc
    refine ⟨_, ⟨some token, none, none⟩, rfl, ?_, rfl⟩
    rw [henv]
    exact e.decode_loginResultData _
  · intro request caller hone hle
    have hpage : InRange request.page := inRange_of_le_pageCount hfits.count hl hone hle
    have hdec : JSONDecoder.standard.taskList (e.taskList (pageReply L l request.page)) =
        some (pageReply L l request.page) := by
      rw [JSONEncoder.decode_taskList, if_pos (hfits.fitInt_pageReply hpage)]
    rw [henv]
    exact ⟨_, _, rfl, hdec, rfl, rfl⟩

/-! ## Section 2: Down a list -/

/-- The list shows the first `k` pages, and waits for nothing. -/
structure ShowsPages (dates : DateFormats) (L : List TaskData) (l k : Nat) (s : TaskListScreen) :
    Prop where
  data : s.model.data = (L.take (k * l)).map (internalTaskData dates)
  page : s.model.page = k
  limit : s.model.limit = l
  totalCounts : s.model.totalCounts = L.length
  inFlight : s.inFlight = []

section

variable {dates : DateFormats} {L : List TaskData} {l k : Nat} {s : TaskListScreen}

/-- A page that follows another one exists. -/
theorem next_le_pageCount (hl : 10 ≤ l) (hk : 1 ≤ k) (hmore : k * l < L.length) :
    k + 1 ≤ Pages.pageCount l L.length :=
  (Pages.lt_pageCount_iff (by omega) hk).mpr (by rwa [Nat.mul_comm])

/-- The tenth row from the end asks for the next page. -/
theorem ShowsPages.willDisplay (h : ShowsPages dates L l k s) (hcount : InRange L.length)
    (hk : 1 ≤ k) (hl : 10 ≤ l) (hmore : k * l < L.length) :
    k * l - 10 < s.model.data.length ∧ s.model.willDisplay (k * l - 10) =
      .ok (some ⟨(k + 1 : Nat), s.model.sorting, s.model.direction⟩) := by
  have hkl : k + 9 ≤ k * l := by
    calc k + 9 ≤ k * 10 := by omega
      _ ≤ k * l := Nat.mul_le_mul_left k hl
  have hlength : s.model.data.length = k * l := by
    rw [h.data, List.length_map, List.length_take]
    omega
  have hmax : (L.length : Int) < 2 ^ 63 := hcount.2
  have hle := next_le_pageCount hl hk hmore
  have hnext : InRange (k + 1 : Nat) :=
    @inRange_of_le_pageCount _ l hcount (by omega) (k + 1 : Nat) (by omega) (by omega)
  have hprod : s.model.page * s.model.limit = ((k * l : Nat) : Int) := by
    rw [h.page, h.limit]
    rfl
  refine ⟨by omega, ?_⟩
  rw [TaskListModel.willDisplay, if_pos (by omega),
    TaskListModel.getNextTask_of_inRange (by rw [h.page]; omega)
      (by rw [hprod]; unfold InRange; omega)
      (by intro _; rw [h.page]; exact hnext),
    hprod, h.totalCounts, if_pos (by exact_mod_cast hmore), h.page]
  rfl

/-- The answer to the request for the next page. -/
theorem ShowsPages.respond {response : Option (Payload TaskList)}
    (hdata : s.model.data = (L.take (k * l)).map (internalTaskData dates))
    (hanswer : AnswersPage L l (k + 1 : Nat) response) :
    ShowsPages dates L l (k + 1) ⟨s.model.respond dates response, []⟩ := by
  rw [TaskListModel.respond_of_answersPage dates _ hanswer]
  refine ⟨?_, rfl, rfl, rfl, rfl⟩
  show s.model.data ++ (pageTasks L l (k + 1 : Nat)).map _ = _
  rw [hdata, ← List.map_append, ← Pages.take_append_page]
  rfl

end

namespace App

variable {env : Environment} {userToken : Option String} {a b : App} {vc : Nat}
  {L : List TaskData} {l : Nat}

/-- The server's response to a request is a step. -/
theorem within_deliver {server : Call → Option (List UInt8)} (h : WellFormed a) {p : Pending}
    (hp : p ∈ a.requests) (hstep : a.step env (.deliver p.id (server p.call)) = some b) :
    (servedSystem env userToken server).Within 1 a b := by
  have hallowed : AnsweredBy server a (.deliver p.id (server p.call)) := by
    intro q hq hid
    rw [h.request_inj hq hp hid]
  exact .one ⟨hallowed, hstep⟩

/-- A page that arrives for a list screen that waits for nothing else. -/
theorem deliver_page (h : WellFormed a) {p : Pending} (hp : p ∈ a.requests)
    {request : ListRequest} {caller : ListCaller} (hcall : p.call = .getTaskList request caller)
    (hcaller : caller.screen = some vc) {s : TaskListScreen} (hs : a.listScreen vc = some s)
    (hflight : s.inFlight = [request]) {body : Option (List UInt8)} {q : Int}
    (hanswer : AnswersPage L l q (body.map (Payload.read env.decoder.taskList))) :
    ∃ b, a.step env (.deliver p.id body) = some b ∧
      b.listScreen vc = some ⟨s.model.respond env.dates
        (body.map (Payload.read env.decoder.taskList)), []⟩ ∧
      b.topViewController.map (·.id) = a.topViewController.map (·.id) ∧
      b.userToken = a.userToken := by
  have hstep := @step_deliver_of_mem env a h p hp body
  obtain ⟨s', hs', hfollows⟩ := step_listScreen h hstep hs
  have hrequest : p.call.listRequest vc = some request :=
    Call.listRequest_eq_some.mpr ⟨caller, hcall, hcaller⟩
  rw [listEvent_deliver (find_of_mem h hp), hrequest] at hfollows
  -- the only request in flight is answered
  obtain ⟨hplace, rfl⟩ := TaskListScreen.step_deliver hfollows
  rw [hflight, List.length_singleton, Nat.lt_one_iff] at hplace
  rw [hplace, hflight] at hs'
  obtain ⟨data, result, hdata, hresult, htasks, hmeta⟩ := hanswer
  have hlist : getTaskListResponse (body.map (Payload.read env.decoder.taskList)) =
      [.toDoIfSuccess ⟨result.tasks, result.meta, none⟩] := by
    simp [getTaskListResponse, hdata, hresult, htasks, hmeta]
  have hb : (a.dropRequest p.id).respond env p.call body = (a.dropRequest p.id).updateScreen vc
      (Screen.updateModel (·.successAll env.dates ⟨result.tasks, result.meta, none⟩)) := by
    rw [hcall, respond, hlist]
    cases caller with
    | coordinator => cases hcaller
    | _ =>
      obtain rfl := Option.some.inj hcaller
      rfl
  refine ⟨_, hstep, hs', ?_, ?_⟩
  · rw [hb, topViewController, topViewController, ← List.getLast?_map, ← List.getLast?_map,
      updateScreen_map (update_id vc _)]
    rfl
  · rw [hb]
    rfl

/-! ## Section 3: From the login to the end of the list -/

/-- The list screen `vc` is on top and shows the first `k` pages. -/
structure ShowsOnTop (env : Environment) (userToken : Option String) (token : String)
    (L : List TaskData) (l vc k : Nat) (a : App) : Prop where
  reachable : (appSystem env userToken).Reachable a
  top : a.topViewController.map (·.id) = some vc
  token : a.userToken = some token
  shows : ∃ s, a.listScreen vc = some s ∧ ShowsPages env.dates L l k s

variable {server : Call → Option (List UInt8)} {user : LoginData} {token : String} {k : Nat}

/-- A login and its response make the coordinator ask for the list. -/
theorem login_within (hserves : Serves env server user token L l)
    (h : (appSystem env userToken).Reachable a)
    (htop : a.TopShows fun screen => ∃ view, screen = .login view) :
    ∃ b, (servedSystem env userToken server).Within 2 a b ∧ b.userToken = some token ∧
      ∃ p ∈ b.requests, p.call = .getTaskList ⟨1, .title, true⟩ .coordinator := by
  obtain ⟨v, htop, view, hscreen⟩ := htop
  have hsent := @step_logInPressed env a v view htop hscreen user
  have hwf := wellFormed_of_reachable (h.step hsent)
  obtain ⟨data, result, hbody, hdec, hresult⟩ := hserves.login v.id
  have hlogin := step_login (List.mem_of_getLast? htop) hwf hdec hresult
  rw [← hbody] at hlogin
  have hpressed : (servedSystem env userToken server).step a
      (.logInPressed user) (a.logInPressed v.id user) := ⟨trivial, hsent⟩
  have hanswered := @within_deliver env userToken _ _ server hwf
    ⟨a.nextRequest, .loginUser user v.id, RequesterURL.loginUser user⟩
    (List.mem_append_right _ List.mem_cons_self) hlogin
  exact ⟨_, .step hpressed hanswered, rfl, _, List.mem_append_right _ List.mem_cons_self, rfl⟩

/-- A list screen that is opened waits for its first page. -/
theorem listScreen_jumpToScreen_new (hwf : WellFormed a) (hknown : StartersKnown a)
    (list : Option TaskList) :
    (a.jumpToScreen (.taskList list)).listScreen a.nextScreen =
      some ⟨newTaskList list, [⟨1, .title, true⟩]⟩ := by
  have hfresh : a.listModel a.nextScreen = none := by
    cases hmodel : a.listModel a.nextScreen with
    | none => rfl
    | some model => exact absurd (lt_of_listModel hwf hmodel) (Nat.lt_irrefl _)
  show (a.makeTaskList list).listScreen a.nextScreen = _
  rw [makeTaskList_eq]
  have hmodel : ((a.send (.getTaskList ⟨1, .title, true⟩ (.firstTasks a.nextScreen))).push
      (.taskList list) (.taskList (newTaskList list))).listModel a.nextScreen =
        some (newTaskList list) := listModel_push_self (hwf.send _) _ _
  rw [listScreen_of_listModel hmodel]
  show some (TaskListScreen.mk _ ((a.send _).inFlight a.nextScreen)) = _
  rw [inFlight_send, hknown.inFlight_eq_nil hfresh]
  simp [Call.listRequest, ListCaller.screen]

/-- The list for the coordinator opens a list screen, and its first page fills it. -/
theorem list_within (hserves : Serves env server user token L l)
    (h : (appSystem env userToken).Reachable a) (htoken : a.userToken = some token) {p : Pending}
    (hp : p ∈ a.requests) (hcall : p.call = .getTaskList ⟨1, .title, true⟩ .coordinator) :
    ∃ vc b, (servedSystem env userToken server).Within 2 a b ∧
      ShowsOnTop env userToken token L l vc 1 b := by
  have hwf := wellFormed_of_reachable h
  have hone : (1 : Int) ≤ (Pages.pageCount l L.length : Nat) := by
    exact_mod_cast Pages.one_le_pageCount l L.length
  -- the first page is served, whoever asks for it
  have hanswer : ∀ caller, AnswersPage L l (0 + 1 : Nat)
      ((server (.getTaskList ⟨1, .title, true⟩ caller)).map
        (Payload.read env.decoder.taskList)) :=
    fun caller => hserves.list ⟨1, .title, true⟩ caller (by decide) hone
  obtain ⟨payload, result, hpayload, hlist, htasks, hmeta⟩ := hanswer .coordinator
  obtain ⟨data, hbody, rfl⟩ := Option.map_eq_some_iff.mp hpayload
  obtain ⟨opened, hopened⟩ := step_list hwf hp hcall hlist
    (Option.isSome_iff_exists.mpr ⟨_, htasks⟩) (Option.isSome_iff_exists.mpr ⟨_, hmeta⟩)
  have hserver : server p.call = some data := by
    rw [hcall]
    exact hbody
  rw [← hserver] at hopened
  -- the list screen is there, and waits for its first page
  have hreach := h.step hopened
  have hknown : StartersKnown (a.dropRequest p.id) :=
    fun q hq => startersKnown_of_reachable h q (List.mem_filter.mp hq).1
  have hs := listScreen_jumpToScreen_new (hwf.dropRequest p.id) hknown (some opened)
  obtain ⟨htop, hkept, hrequest⟩ := jumpToScreen_taskList (a.dropRequest p.id) (some opened)
  obtain ⟨b, hdeliver, hb, htop', htoken'⟩ := @deliver_page env _ _ L l
    (wellFormed_of_reachable hreach) _ hrequest _ _ rfl rfl _ hs rfl _ _ (hanswer _)
  refine ⟨_, b, (within_deliver hwf hp hopened).trans
    (within_deliver (wellFormed_of_reachable hreach) hrequest hdeliver), hreach.step hdeliver, ?_,
    htoken'.trans (hkept.trans htoken), _, hb, ShowsPages.respond ?_ (hanswer _)⟩
  · rw [htop', htop]
    rfl
  · rw [Nat.zero_mul]
    rfl

/-- **Stage**: two events lead to the next page. -/
theorem ShowsOnTop.next {vc : Nat} (hserves : Serves env server user token L l) (hl : 10 ≤ l)
    (hcount : InRange L.length) (hk : 1 ≤ k) (hmore : k * l < L.length)
    (h : ShowsOnTop env userToken token L l vc k a) :
    ∃ b, (servedSystem env userToken server).Within 2 a b ∧
      ShowsOnTop env userToken token L l vc (k + 1) b := by
  obtain ⟨hreach, htop, htoken, s, hs, hshows⟩ := h
  obtain ⟨hrow, hask⟩ := hshows.willDisplay hcount hk hl hmore
  have hmodel := (listModel_of_listScreen hs).1
  generalize hr : (⟨(k + 1 : Nat), s.model.sorting, s.model.direction⟩ : ListRequest) = r at hask
  -- the row is displayed
  have hsent : a.step env (.willDisplay vc (k * l - 10)) =
      some (a.send (.getTaskList r (.nextTask vc))) := by
    rw [step_willDisplay_eq, hmodel, Option.bind_some, if_pos hrow, hask]
    rfl
  have hdisplay : (servedSystem env userToken server).step a
      (.willDisplay vc (k * l - 10)) (a.send (.getTaskList r (.nextTask vc))) := ⟨trivial, hsent⟩
  have hreach' := System.Reachable.step hreach hsent
  have hwf := wellFormed_of_reachable hreach'
  have hs' : (a.send (.getTaskList r (.nextTask vc))).listScreen vc = some ⟨s.model, [r]⟩ := by
    have hmodel' : (a.send (.getTaskList r (.nextTask vc))).listModel vc = some s.model := hmodel
    rw [listScreen_of_listModel hmodel', inFlight_send, ← (listModel_of_listScreen hs).2,
      hshows.inFlight]
    simp [Call.listRequest, ListCaller.screen]
  -- and the request is answered
  have hp : (⟨a.nextRequest, .getTaskList r (.nextTask vc),
      (Call.getTaskList r (.nextTask vc)).operation.request a.userToken⟩ : Pending) ∈
        (a.send (.getTaskList r (.nextTask vc))).requests :=
    List.mem_append_right _ List.mem_cons_self
  have hanswer : AnswersPage L l (k + 1 : Nat)
      ((server (.getTaskList r (.nextTask vc))).map (Payload.read env.decoder.taskList)) := by
    have hpage : r.page = (k + 1 : Nat) := by rw [← hr]
    rw [← hpage]
    apply hserves.list
    · omega
    · rw [hpage]
      exact_mod_cast next_le_pageCount hl hk hmore
  obtain ⟨b, hdeliver, hb, htop', htoken'⟩ :=
    @deliver_page env _ vc L l hwf _ hp r (.nextTask vc) rfl rfl _ hs' rfl _ _ hanswer
  refine ⟨b, .step hdisplay (within_deliver hwf hp hdeliver), ?_⟩
  refine ⟨hreach'.step hdeliver, htop'.trans htop, htoken'.trans htoken, _, hb, ?_⟩
  exact ShowsPages.respond hshows.data hanswer

/-- **Run**: from the first page to the last one. -/
theorem ShowsOnTop.all {vc : Nat} (hserves : Serves env server user token L l) (hl : 10 ≤ l)
    (hcount : InRange L.length) (h : ShowsOnTop env userToken token L l vc 1 a) :
    ∃ b, (servedSystem env userToken server).Within
        ((Pages.pageCount l L.length - 1) * 2) a b ∧
      ShowsOnTop env userToken token L l vc (Pages.pageCount l L.length) b := by
  have hone := Pages.one_le_pageCount l L.length
  have hstage : ∀ i c, i < Pages.pageCount l L.length - 1 →
      ShowsOnTop env userToken token L l vc (i + 1) c →
      ∃ d, (servedSystem env userToken server).Within 2 c d ∧
        ShowsOnTop env userToken token L l vc (i + 1 + 1) d := by
    intro i c hi hc
    have hmore : l * (i + 1) < L.length :=
      (Pages.lt_pageCount_iff (by omega) (Nat.le_add_left 1 i)).mp (by omega)
    exact hc.next hserves hl hcount (Nat.le_add_left 1 i) (by rwa [Nat.mul_comm])
  obtain ⟨b, hwithin, hb⟩ := System.Within.stages
    (P := fun i => ShowsOnTop env userToken token L l vc (i + 1)) hstage h
  rw [Nat.sub_add_cancel hone] at hb
  exact ⟨b, hwithin, hb⟩

/-- What is on top is the whole list. -/
theorem ShowsOnTop.complete {vc : Nat} (hl : 0 < l)
    (h : ShowsOnTop env userToken token L l vc (Pages.pageCount l L.length) a) :
    ∃ v model, a.topViewController = some v ∧ v.screen = .taskList model ∧
      model.data = L.map (internalTaskData env.dates) := by
  obtain ⟨hreach, htop, -, s, hs, hshows⟩ := h
  obtain ⟨v, hv, hid⟩ := Option.map_eq_some_iff.mp htop
  have hscreen := top_of_listModel (wellFormed_of_reachable hreach) hv hid
    (listModel_of_listScreen hs).1
  refine ⟨v, s.model, hv, hscreen, ?_⟩
  have hall : L.length ≤ Pages.pageCount l L.length * l := by
    rw [Nat.mul_comm]
    exact Pages.le_mul_pageCount hl _
  rw [hshows.data, List.take_of_length_le hall]

end App

/-- **Everything can be shown.**  Let a server log the user in and hold `L` in
    pages of at least ten tasks.  From every reachable state of the app,
    whatever it waits for, at most `5 + 2 * n` events, `n` the number of pages,
    lead to a list screen on top that shows all of `L` in order, with the
    session of a new login.  All responses on the way are the server's.  (An
    OK on an alert that is shown is not counted.) -/
theorem all_can_be_shown {env : Environment} {userToken : Option String} {a : App}
    (h : (appSystem env userToken).Reachable a) {server : Call → Option (List UInt8)}
    {user : LoginData} {token : String} {L : List TaskData} {l : Nat}
    (hserves : Serves env server user token L l) (hl : 10 ≤ l) (hcount : InRange L.length) :
    ∃ b v model, (servedSystem env userToken server).Within
        (5 + 2 * Pages.pageCount l L.length) a b ∧
      b.topViewController = some v ∧ v.screen = .taskList model ∧
      model.data = L.map (internalTaskData env.dates) ∧
      model.data.map InternalTaskData.key = L.map TaskData.key ∧ b.userToken = some token := by
  -- to a login screen
  obtain ⟨a₁, ⟨taps, hlength, htaps, hrun, -⟩, hlogin⟩ := @App.taps_to_login env userToken a h
  have hwithin₁ : (servedSystem env userToken server).Within 3 a a₁ := by
    refine (System.Within.of_foldlM (f := App.step env) ?_ hrun).mono hlength
    intro ev hev c d hstep
    rcases htaps ev hev with rfl | rfl <;> exact ⟨trivial, hstep⟩
  have h₁ := h.of_within hwithin₁
  -- through the login, and down the list
  obtain ⟨a₂, hwithin₂, htoken, p, hp, hcall⟩ := App.login_within hserves h₁ hlogin
  have h₂ := h₁.of_within hwithin₂
  obtain ⟨vc, a₃, hwithin₃, hfirst⟩ := App.list_within hserves h₂ htoken hp hcall
  obtain ⟨b, hwithin₄, hb⟩ := hfirst.all hserves hl hcount
  obtain ⟨v, model, htop, hscreen, hdata⟩ := hb.complete (by omega)
  have hkeys : model.data.map InternalTaskData.key = L.map TaskData.key := by
    rw [hdata, keys_internalTaskData]
  refine ⟨b, v, model, ?_, htop, hscreen, hdata, hkeys, hb.token⟩
  have hone := Pages.one_le_pageCount l L.length
  exact (((hwithin₁.trans hwithin₂).trans hwithin₃).trans hwithin₄).mono (by omega)

/-- Eleven tasks in pages of ten, from the start of the app, with a server that
    encodes its replies. -/
theorem all_can_be_shown_eleven :
    ∃ b v model, (servedSystem epochEnvironment none
        (serverBody .declared "one" (epochTasks 11) 10)).Within 9 (App.start none) b ∧
      b.topViewController = some v ∧ v.screen = .taskList model ∧
      model.data = (epochTasks 11).map (internalTaskData epochDates) ∧
      model.data.map InternalTaskData.key = (epochTasks 11).map TaskData.key ∧
      b.userToken = some "one" := by
  have hfits : ServerFits (epochTasks 11) 10 := ⟨by decide, by decide, by decide⟩
  have hserves := @serves_serverBody epochEnvironment rfl .declared App.firstUser "one" _ _
    (by decide) hfits
  exact @all_can_be_shown epochEnvironment none _ (.init rfl) _ _ _ _ _ hserves (by decide)
    (by decide)

end TimeManager
