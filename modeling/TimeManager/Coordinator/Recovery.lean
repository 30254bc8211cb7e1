import TimeManager.Coordinator.Aborts
import TimeManager.Coordinator.Navigation
import TimeManager.Coordinator.Replies

/-! # The Way Back

    The app is never stuck: from any state it can be in, at most three taps
    bring a login screen to the top, whatever requests are in flight, and a
    login whose replies succeed then opens a list with its token
    (`always_a_way_back`). -/

namespace TimeManager

open Lts RequesterURL

namespace App

variable {env : Environment} {userToken : Option String} {a b : App}

/-! ## Section 1: Going back -/

/-- At most `n` taps on back and sort buttons lead to this state, and no
    request is sent or answered. -/
def TapsTo (env : Environment) (n : Nat) (a b : App) : Prop :=
  ∃ es, es.length ≤ n ∧ (∀ e ∈ es, e = .backPressed ∨ e = .sortPressed) ∧
    a.run env es = some b ∧ b.requests = a.requests ∧ b.nextRequest = a.nextRequest

theorem TapsTo.refl (env : Environment) (a : App) : TapsTo env 0 a a :=
  ⟨[], Nat.le_refl _, by simp, rfl, rfl, rfl⟩

theorem TapsTo.cons {n : Nat} {e : Event} {c : App} (he : e = .backPressed ∨ e = .sortPressed)
    (hstep : a.step env e = some b) (hrequests : b.requests = a.requests)
    (hnext : b.nextRequest = a.nextRequest) (h : TapsTo env n b c) : TapsTo env (n + 1) a c := by
  obtain ⟨es, hlength, htaps, hrun, hrequests', hnext'⟩ := h
  refine ⟨e :: es, Nat.succ_le_succ hlength, List.forall_mem_cons.mpr ⟨he, htaps⟩, ?_,
    hrequests'.trans hrequests, hnext'.trans hnext⟩
  rw [run_cons, hstep]
  exact hrun

theorem TapsTo.mono {n k : Nat} (h : TapsTo env n a b) (hle : n ≤ k) : TapsTo env k a b := by
  obtain ⟨es, hlength, hrest⟩ := h
  exact ⟨es, Nat.le_trans hlength hle, hrest⟩

/-- The sort button opens a login screen. -/
theorem login_of_list {v : ViewController} {model : TaskListModel}
    (htop : a.topViewController = some v) (hscreen : v.screen = .taskList model) :
    ∃ b, TapsTo env 1 a b ∧ b.TopShows fun screen => ∃ view, screen = .login view := by
  have hstep : a.step env .sortPressed = some (a.jumpToScreen .login) := by
    simp only [step, htop, tap, hscreen]
  have hlogin : (a.jumpToScreen .login).TopShows fun screen => ∃ view, screen = .login view :=
    ⟨_, List.getLast?_concat, _, rfl⟩
  exact ⟨_, .cons (.inr rfl) hstep rfl rfl (.refl env _), hlogin⟩

/-- A back button leads to the screen that the top one was opened from. -/
theorem back_of_top (h : (appSystem env userToken).Reachable a) {w : ViewController}
    (htop : a.topViewController = some w)
    (hscreen : (∃ data, w.screen = .taskDetail data) ∨ ∃ view, w.screen = .taskEdit view) :
    ∃ b v, a.step env .backPressed = some b ∧ b.requests = a.requests ∧
      b.nextRequest = a.nextRequest ∧ b.topViewController = some v ∧
      v.screen.OpenedFrom w.screen := by
  have hpossible : a.Possible .backPressed := ⟨w, htop, hscreen⟩
  obtain ⟨b, hstep⟩ := @step_of_possible env a _ hpossible (by simp)
  obtain ⟨_, v, w', -, -, htop', hv, hopened⟩ := uncovers_of_back h hstep
  obtain rfl : w = w' := Option.some.inj (htop.symm.trans htop')
  obtain ⟨_, -, -, rfl⟩ := step_back (wellFormed_of_reachable h) hstep
  exact ⟨_, v, hstep, rfl, rfl, hv, hopened⟩

/-- From a detail screen two taps lead to a login screen. -/
theorem login_of_detail (h : (appSystem env userToken).Reachable a) {w : ViewController}
    {data : Option InternalTaskData} (htop : a.topViewController = some w)
    (hscreen : w.screen = .taskDetail data) :
    ∃ b, TapsTo env 2 a b ∧ b.TopShows fun screen => ∃ view, screen = .login view := by
  obtain ⟨b, v, hstep, hrequests, hnext, hv, hopened⟩ := back_of_top h htop (.inl ⟨data, hscreen⟩)
  rw [hscreen] at hopened
  obtain ⟨task, model, -, hlist, -⟩ := hopened
  obtain ⟨c, htaps, hlogin⟩ := @login_of_list env b v model hv hlist
  exact ⟨c, .cons (.inl rfl) hstep hrequests hnext htaps, hlogin⟩

/-- **Three taps**: from any state of the app at most three taps bring a login
    screen to the top. -/
theorem taps_to_login (h : (appSystem env userToken).Reachable a) :
    ∃ b, TapsTo env 3 a b ∧ b.TopShows fun screen => ∃ view, screen = .login view := by
  obtain ⟨v₀, rest, hstack, -⟩ := (wellFormed_of_reachable h).bottom
  obtain ⟨w, htop⟩ : ∃ w, a.topViewController = some w := by
    unfold topViewController
    rw [hstack]
    exact ⟨_, List.getLast?_cons⟩
  cases hscreen : w.screen with
  | login view => exact ⟨a, (TapsTo.refl env a).mono (by omega), w, htop, view, hscreen⟩
  | taskList model =>
    obtain ⟨b, htaps, hlogin⟩ := @login_of_list env a w model htop hscreen
    exact ⟨b, htaps.mono (by omega), hlogin⟩
  | taskDetail data =>
    obtain ⟨b, htaps, hlogin⟩ := login_of_detail h htop hscreen
    exact ⟨b, htaps.mono (by omega), hlogin⟩
  | taskEdit view =>
    obtain ⟨b, v, hstep, hrequests, hnext, hv, hopened⟩ := back_of_top h htop (.inr ⟨view, hscreen⟩)
    rw [hscreen] at hopened
    have hb : (appSystem env userToken).Reachable b := .step h hstep
    rcases hopened with ⟨-, model, hlist⟩ | ⟨task, -, hdetail⟩
    · -- a new task: the list is below
      obtain ⟨c, htaps, hlogin⟩ := @login_of_list env b v model hv hlist
      exact ⟨c, (TapsTo.cons (.inl rfl) hstep hrequests hnext htaps).mono (by omega), hlogin⟩
    · obtain ⟨c, htaps, hlogin⟩ := login_of_detail hb hv hdetail
      exact ⟨c, .cons (.inl rfl) hstep hrequests hnext htaps, hlogin⟩

/-! ## Section 2: Logging in -/

theorem step_deliver_of_mem (h : WellFormed a) {p : Pending} (hp : p ∈ a.requests)
    (body : Option (List UInt8)) :
    a.step env (.deliver p.id body) = some ((a.dropRequest p.id).respond env p.call body) := by
  simp only [step, find_of_mem h hp]

/-- A list screen that is opened is on top, and asks for its first tasks. -/
theorem jumpToScreen_taskList (a : App) (list : Option TaskList) :
    (a.jumpToScreen (.taskList list)).topViewController =
        some ⟨a.nextScreen, .taskList list, .taskList (newTaskList list)⟩ ∧
      (a.jumpToScreen (.taskList list)).userToken = a.userToken ∧
      (⟨a.nextRequest, .getTaskList ⟨1, .title, true⟩ (.firstTasks a.nextScreen),
        RequesterURL.getTaskList a.userToken ⟨1, .title, true⟩⟩ : Pending) ∈
          (a.jumpToScreen (.taskList list)).requests := by
  refine ⟨?_, userToken_jumpToScreen a _, ?_⟩
  · unfold topViewController
    rw [stack_jumpToScreen]
    exact List.getLast?_concat
  · show _ ∈ (a.makeTaskList list).requests
    rw [makeTaskList_eq]
    exact List.mem_append_right _ List.mem_cons_self

theorem step_logInPressed {v : ViewController} {view : LoginMainView}
    (htop : a.topViewController = some v) (hscreen : v.screen = .login view) (user : LoginData) :
    a.step env (.logInPressed user) = some (a.logInPressed v.id user) := by
  simp only [step, htop, tap, hscreen]

/-- A login whose response has a token makes the coordinator ask for the list. -/
theorem step_login {v : ViewController} (hv : v ∈ a.viewControllers) {user : LoginData}
    (hwf : WellFormed (a.logInPressed v.id user)) {data : List UInt8}
    {result : LoginResultData} {token : String}
    (hdec : env.decoder.loginResultData data = some result) (htoken : result.token = some token) :
    (a.logInPressed v.id user).step env (.deliver a.nextRequest (some data)) =
      some (App.send { (a.logInPressed v.id user).dropRequest a.nextRequest with
        userToken := some token } (.getTaskList ⟨1, .title, true⟩ .coordinator)) := by
  have hlive : ((a.logInPressed v.id user).dropRequest a.nextRequest).isLive v.id := by
    show (a.updateScreen v.id (Screen.fillIn user)).isLive v.id = true
    rw [isLive_updateScreen]
    exact List.any_eq_true.mpr ⟨v, hv, decide_eq_true rfl⟩
  have hanswered := @step_deliver_of_mem env _ hwf
    ⟨a.nextRequest, .loginUser user v.id, RequesterURL.loginUser user⟩
    (List.mem_append_right _ List.mem_cons_self) (some data)
  rw [respond_login hlive hdec htoken] at hanswered
  exact hanswered

/-- A login, from the button to the request for the list. -/
theorem run_login (h : (appSystem env userToken).Reachable a)
    (htop : a.TopShows fun screen => ∃ view, screen = .login view) (user : LoginData)
    {data : List UInt8}
    {result : LoginResultData} {token : String}
    (hdec : env.decoder.loginResultData data = some result) (htoken : result.token = some token) :
    ∃ b, a.run env [.logInPressed user, .deliver a.nextRequest (some data)] = some b ∧
      b.userToken = some token ∧ b.nextRequest = a.nextRequest + 2 ∧
      (⟨a.nextRequest + 1, .getTaskList ⟨1, .title, true⟩ .coordinator,
        RequesterURL.getTaskList (some token) ⟨1, .title, true⟩⟩ : Pending) ∈ b.requests := by
  obtain ⟨v, htop, view, hscreen⟩ := htop
  have hsent := @step_logInPressed env a v view htop hscreen user
  have hwf := wellFormed_of_reachable (System.Reachable.step h hsent)
  have hanswered := step_login (List.mem_of_getLast? htop) hwf hdec htoken
  have hrun : a.run env [.logInPressed user, .deliver a.nextRequest (some data)] =
      some (App.send { (a.logInPressed v.id user).dropRequest a.nextRequest with
        userToken := some token } (.getTaskList ⟨1, .title, true⟩ .coordinator)) := by
    rw [run_cons, hsent, Option.bind_some, run_cons, hanswered]
    rfl
  exact ⟨_, hrun, rfl, rfl, List.mem_append_right _ List.mem_cons_self⟩

/-- A list for the coordinator opens a list screen. -/
theorem step_list (h : WellFormed a) {p : Pending} (hp : p ∈ a.requests) {request : ListRequest}
    (hcall : p.call = .getTaskList request .coordinator) {data : List UInt8} {list : TaskList}
    (hlist : env.decoder.taskList data = some list) (htasks : list.tasks.isSome)
    (hmeta : list.meta.isSome) :
    ∃ opened, a.step env (.deliver p.id (some data)) =
      some ((a.dropRequest p.id).jumpToScreen (.taskList (some opened))) := by
  rw [step_deliver_of_mem h hp, hcall]
  rcases respond_coordinator env (a.dropRequest p.id) request (some data) with
    ⟨-, opened, heq⟩ | ⟨hno, -⟩
  · exact ⟨opened, congrArg some heq⟩
  · exact absurd ⟨data, list, rfl, hlist, htasks, hmeta⟩ hno

end App

/-- **The way back.**  From every reachable state, whatever is in flight, at
    most three taps and a login whose replies succeed bring a new list screen
    to the top, which has asked for its first page with the new token.  The
    taps are those on back and sort buttons; an OK on an alert that is shown
    is not counted. -/
theorem always_a_way_back {env : Environment} {userToken : Option String} {a : App}
    (h : (appSystem env userToken).Reachable a) (user : LoginData) {data listData : List UInt8}
    {result : LoginResultData} {token : String} {list : TaskList}
    (hdec : env.decoder.loginResultData data = some result) (htoken : result.token = some token)
    (hlist : env.decoder.taskList listData = some list) (htasks : list.tasks.isSome)
    (hmeta : list.meta.isSome) :
    ∃ taps b v model, taps.length ≤ 3 ∧ (∀ e ∈ taps, e = .backPressed ∨ e = .sortPressed) ∧
      a.run env (taps ++ [.logInPressed user, .deliver a.nextRequest (some data),
        .deliver (a.nextRequest + 1) (some listData)]) = some b ∧
      b.topViewController = some v ∧ v.screen = .taskList model ∧ b.userToken = some token ∧
      (⟨a.nextRequest + 2, .getTaskList ⟨1, .title, true⟩ (.firstTasks v.id),
        RequesterURL.getTaskList (some token) ⟨1, .title, true⟩⟩ : Pending) ∈ b.requests := by
  obtain ⟨c, ⟨taps, hlength, htaps, hrun, -, hnext⟩, hlogin⟩ := @App.taps_to_login env userToken a h
  have hc := App.reachable_of_run h hrun
  obtain ⟨d, hrun', htoken', hnext', hp⟩ := App.run_login hc hlogin user hdec htoken
  have hd := App.reachable_of_run hc hrun'
  obtain ⟨opened, hstep⟩ :=
    App.step_list (App.wellFormed_of_reachable hd) hp rfl hlist htasks hmeta
  obtain ⟨htop, hkept, hrequest⟩ :=
    App.jumpToScreen_taskList (d.dropRequest (c.nextRequest + 1)) (some opened)
  have hfirst : (d.dropRequest (c.nextRequest + 1)).nextRequest = a.nextRequest + 2 := by
    rw [← hnext]
    exact hnext'
  have hstored : (d.dropRequest (c.nextRequest + 1)).userToken = some token := htoken'
  rw [hfirst, hstored] at hrequest
  refine ⟨taps, _, _, _, hlength, htaps, ?_, htop, rfl, hkept.trans hstored, hrequest⟩
  have hsplit : [App.Event.logInPressed user, .deliver a.nextRequest (some data),
      .deliver (a.nextRequest + 1) (some listData)] =
      [.logInPressed user, .deliver a.nextRequest (some data)] ++
        [.deliver (a.nextRequest + 1) (some listData)] := rfl
  rw [App.run_append, hrun, Option.bind_some, hsplit, App.run_append, ← hnext, hrun',
    Option.bind_some, App.run_cons, hstep]
  rfl

/-- The way back from a new task on the first list. -/
theorem always_a_way_back_newTask :
    ∃ taps b, taps.length ≤ 3 ∧ (App.firstList.jumpToScreen (.taskEdit none)).run epochEnvironment
      (taps ++ [.logInPressed App.secondUser, .deliver 3 (App.tokenBody "two"),
        .deliver 4 (utf8 "\x7b\"tasks\":[],\"meta\":\x7b\"current\":1,\"limit\":15,\"count\":0\x7d\x7d")]) =
      some b ∧ b.userToken = some "two" := by
  have hstep : App.firstList.step epochEnvironment .addTaskButtonPressed =
      some (App.firstList.jumpToScreen (.taskEdit none)) := rfl
  have hreach := System.Reachable.step App.reachable_firstList hstep
  have hlist : JSONDecoder.standard.taskList
      "\x7b\"tasks\":[],\"meta\":\x7b\"current\":1,\"limit\":15,\"count\":0\x7d\x7d".toByteArray.data.toList =
        some ⟨some [], some ⟨1, 15, 0⟩, none⟩ := by
    decide +kernel
  obtain ⟨taps, b, v, model, hlength, -, hrun, -, -, htoken, -⟩ :=
    @always_a_way_back epochEnvironment _ _ hreach App.secondUser _ _ _ _ _
      (App.decode_tokenBody).2 rfl hlist rfl rfl
  exact ⟨taps, b, hlength, hrun, htoken⟩

end TimeManager
