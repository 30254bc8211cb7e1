import TimeManager.Coordinator.Changes
import TimeManager.Coordinator.Sessions

/-! # The Way Past the Login Screen

    Until a login succeeds and the list that the coordinator then asks for is
    loaded, the app shows its login screen and nothing else, and asks the
    server for logins and for that list only (`Locked`).

    The condition is exact: the first list reply to the coordinator opens the
    app, and it answers a request that a successful login of the same run has
    sent (`login_gate`). -/

namespace TimeManager

open Lts RequesterURL

namespace App

variable {env : Environment} {a b : App}

/-! ## Section 1: Locked and open -/

/-- Only the login screen is there, and nothing but logins and the lists after
    them is asked for. -/
structure Locked (a : App) : Prop where
  stack : ∃ view, a.viewControllers = [⟨0, .login, .login view⟩]
  requests : ∀ p ∈ a.requests, p.call.isLogin ∨ ∃ request, p.call = .getTaskList request .coordinator

/-- A list screen is on the stack. -/
def HasList (a : App) : Prop := ∃ list, AvailableScreens.taskList list ∈ a.navigationScreens

/-- The step loads the list that the coordinator asked for. -/
def Admits (env : Environment) : App × Event → Prop
  | (a, .deliver id body) => ∃ p request, a.requests.find? (fun q => q.id = id) = some p ∧
      p.call = .getTaskList request .coordinator ∧ Shown env body p.call
  | _ => False

/-- A successful login of the run has sent the request, with its token. -/
def Granted (env : Environment) (tr : List (App × Event)) (p : Pending) : Prop :=
  ∃ y ∈ tr, ∃ id token, loginReply env y = some (id, some token) ∧
    p.request.headers.lookup "Authorization" = some (bearer (some token))

/-! ## Section 2: What a response does to a locked app -/

/-- The coordinator opens a list screen for a list, and for nothing else. -/
theorem respond_coordinator (env : Environment) (a : App) (request : ListRequest)
    (body : Option (List UInt8)) :
    (Shown env body (.getTaskList request .coordinator) ∧
      ∃ list, a.respond env (.getTaskList request .coordinator) body =
        a.jumpToScreen (.taskList (some list))) ∨
    (¬ Shown env body (.getTaskList request .coordinator) ∧
      a.respond env (.getTaskList request .coordinator) body = a) := by
  have hvisible : Visible a (a.respond env (.getTaskList request .coordinator) body) ↔
      Shown env body (.getTaskList request .coordinator) :=
    visible_list (by intro vc hstarter; cases hstarter) body
  have hrespond : a.respond env (.getTaskList request .coordinator) body =
      (getTaskListResponse (body.map (Payload.read env.decoder.taskList))).foldl
        (listCompletion env .coordinator) a := rfl
  rcases getTaskListResponse_cases (body.map (Payload.read env.decoder.taskList)) with
    ⟨heq, -⟩ | ⟨_, _, -, -, ⟨-, -, list, heq⟩ | ⟨-, heq⟩⟩
  · rw [heq] at hrespond
    rw [hrespond] at hvisible ⊢
    exact .inr ⟨fun h => not_visible_refl a (hvisible.mpr h), rfl⟩
  · rw [heq] at hrespond
    rw [hrespond] at hvisible ⊢
    exact .inl ⟨hvisible.mp (visible_jumpToScreen a (.taskList (some list))), list, rfl⟩
  · rw [heq] at hrespond
    rw [hrespond] at hvisible ⊢
    exact .inr ⟨fun h => not_visible_refl a (hvisible.mpr h), rfl⟩

/-- A login opens no screen. -/
theorem respond_loginUser (env : Environment) (a : App) (user : LoginData) (vc : Nat)
    (body : Option (List UInt8)) :
    (a.respond env (.loginUser user vc) body).viewControllers = a.viewControllers ∧
    ∀ p ∈ (a.respond env (.loginUser user vc) body).requests,
      p ∈ a.requests ∨ ∃ request, p.call = .getTaskList request .coordinator := by
  simp only [respond]
  rcases loginUserResponse_cases a.userToken
      (body.map (Payload.read env.decoder.loginResultData)) with
    ⟨heq, -⟩ | ⟨_, result, -, -, ⟨token, -, heq⟩ | ⟨-, heq⟩⟩
  · rw [heq]
    exact ⟨rfl, fun p hp => .inl hp⟩
  · rw [heq]
    simp only [List.foldl_cons, List.foldl_nil, loginCompletion]
    split
    · refine ⟨rfl, ?_⟩
      intro p hp
      rcases List.mem_append.mp hp with hp | hp
      · exact .inl hp
      · rw [List.mem_singleton.mp hp]
        exact .inr ⟨_, rfl⟩
    · exact ⟨rfl, fun p hp => .inl hp⟩
  · rw [heq]
    simp only [List.foldl_cons, List.foldl_nil, loginCompletion, presentAlert]
    split
    · exact ⟨rfl, fun p hp => .inl hp⟩
    · exact ⟨rfl, fun p hp => .inl hp⟩

/-! ## Section 3: Steps -/

theorem Locked.not_hasList (h : Locked a) (hwf : WellFormed a) : ¬ HasList a := by
  rintro ⟨list, hmem⟩
  obtain ⟨view, hstack⟩ := h.stack
  rw [hwf.record, hstack] at hmem
  cases List.mem_singleton.mp hmem

/-- Filling in the form leaves it locked. -/
theorem Locked.fillIn (h : Locked a) (vc : Nat) (user : LoginData) :
    Locked (a.updateScreen vc (Screen.fillIn user)) := by
  refine ⟨?_, h.requests⟩
  obtain ⟨view, hstack⟩ := h.stack
  show ∃ view, a.viewControllers.map _ = _
  rw [hstack, List.map_singleton, ViewController.update]
  split
  · exact ⟨_, rfl⟩
  · exact ⟨_, rfl⟩

/-- A list screen stays. -/
theorem HasList.step {e : Event} (h : HasList a) (hwf : WellFormed a)
    (hstep : a.step env e = some b) : HasList b := by
  obtain ⟨list, hmem⟩ := h
  have hprefix : a.navigationScreens.filter AvailableScreens.isRoot <+:
      b.navigationScreens.filter AvailableScreens.isRoot :=
    (step_keeps hwf hstep fun _ hkind => hkind).1
  have hkept := hprefix.subset (List.mem_filter.mpr ⟨hmem, rfl⟩)
  exact ⟨list, (List.mem_filter.mp hkept).1⟩

theorem hasList_jumpToScreen (a : App) (list : Option TaskList) :
    HasList (a.jumpToScreen (.taskList list)) := by
  refine ⟨list, ?_⟩
  show _ ∈ (a.makeTaskList list).navigationScreens
  rw [makeTaskList_eq]
  exact List.mem_append_right _ List.mem_cons_self

/-- The response to a request of a locked app. -/
theorem Locked.deliver (h : Locked a) {id : Nat} {body : Option (List UInt8)}
    (hstep : a.step env (.deliver id body) = some b) :
    (Admits env (a, .deliver id body) ∧ HasList b) ∨
      (¬ Admits env (a, .deliver id body) ∧ Locked b) := by
  cases hfind : a.requests.find? (fun q => q.id = id) with
  | none =>
    simp only [App.step, hfind] at hstep
    cases hstep
  | some p =>
    have hb := step_deliver hfind hstep
    have hdrop : Locked (a.dropRequest id) :=
      ⟨h.stack, fun q hq => h.requests q (List.mem_filter.mp hq).1⟩
    rcases h.requests p (List.mem_of_find?_eq_some hfind) with hlogin | ⟨request, hcall⟩
    · -- a login
      obtain ⟨pid, call, sent⟩ := p
      cases call with
      | loginUser user vc =>
        right
        obtain ⟨hstack, hrequests⟩ := respond_loginUser env (a.dropRequest id) user vc body
        refine ⟨?_, ?_⟩
        · rintro ⟨q, request, hq, hcall, -⟩
          obtain rfl := Option.some.inj (hfind.symm.trans hq)
          cases hcall
        · rw [hb]
          refine ⟨hstack ▸ hdrop.stack, ?_⟩
          intro q hq
          rcases hrequests q hq with hold | hnew
          · exact hdrop.requests q hold
          · exact .inr hnew
      | _ => cases hlogin
    · -- the list for the coordinator
      rw [hcall] at hb
      rcases respond_coordinator env (a.dropRequest id) request body with
        ⟨hshown, list, heq⟩ | ⟨hno, heq⟩
      · left
        rw [hb, heq]
        exact ⟨⟨p, request, hfind, hcall, hcall ▸ hshown⟩, hasList_jumpToScreen _ _⟩
      · right
        rw [hb, heq]
        refine ⟨?_, hdrop⟩
        rintro ⟨q, request', hq, hcall', hshown⟩
        obtain rfl := Option.some.inj (hfind.symm.trans hq)
        rw [hcall] at hshown
        exact hno hshown

/-- **Step lemma**: a locked app stays locked, or a list is loaded. -/
theorem Locked.step {e : Event} (h : Locked a) (hstep : a.step env e = some b) :
    (Admits env (a, e) ∧ HasList b) ∨ (¬ Admits env (a, e) ∧ Locked b) := by
  -- the login screen is the only one
  obtain ⟨view, hstack⟩ := h.stack
  have hscreen : ∀ v ∈ a.viewControllers, v.screen = .login view := by
    intro v hv
    rw [hstack] at hv
    rw [List.mem_singleton.mp hv]
  have htopScreen : ∀ v, a.topViewController = some v → v.screen = .login view :=
    fun v hv => hscreen v (List.mem_of_getLast? hv)
  cases step_change hstep with
  | typed _ _ => exact .inr ⟨id, h.fillIn _ _⟩
  | login _ _ =>
    right
    refine ⟨id, (h.fillIn _ _).stack, ?_⟩
    intro p hp
    rcases List.mem_append.mp hp with hp | hp
    · exact h.requests p hp
    · rw [List.mem_singleton.mp hp]
      exact .inl rfl
  | opens htop hopens =>
    rw [htopScreen _ htop] at hopens
    cases hopens
  | back htop hkind =>
    rw [htopScreen _ htop] at hkind
    rcases hkind with ⟨_, hkind⟩ | ⟨_, hkind⟩
    · cases hkind
    · cases hkind
  | unsaved =>
    right
    refine ⟨id, ?_⟩
    unfold presentAlert
    split
    · exact ⟨h.stack, h.requests⟩
    · exact h
  | delete htop hdata =>
    rw [htopScreen _ htop] at hdata
    cases hdata
  | form htop hview =>
    rw [htopScreen _ htop] at hview
    cases hview
  | save htop hview _ =>
    rw [htopScreen _ htop] at hview
    cases hview
  | idle => exact .inr ⟨id, h⟩
  | display hv hmodel _ =>
    rw [hscreen _ (List.mem_of_find?_eq_some hv)] at hmodel
    cases hmodel
  | deliver _ _ => exact h.deliver hstep
  | load _ _ _ _ => exact h.deliver hstep
  | session _ _ => exact h.deliver hstep

/-! ## Section 4: Runs -/

theorem locked_start (userToken : Option String) : Locked (App.start userToken) :=
  ⟨⟨_, rfl⟩, by intro p hp; cases hp⟩

/-- **Run lemma**: as long as no list is loaded for the coordinator, the app
    stays locked; afterwards it has a list screen. -/
theorem locked_or_hasList_of_trace {userToken : Option String} {tr : List (App × Event)}
    (h : (appSystem env userToken).Trace tr a) :
    ((∃ x ∈ tr, Admits env x) ∧ HasList a) ∨ ((∀ x ∈ tr, ¬ Admits env x) ∧ Locked a) := by
  induction h with
  | init hs =>
    right
    have hs : _ = App.start userToken := hs
    rw [hs]
    exact ⟨by simp, locked_start userToken⟩
  | @step tr s e s' htr hstep ih =>
    rcases ih with ⟨⟨x, hx, hadmits⟩, hlist⟩ | ⟨hnone, hlocked⟩
    · left
      have hwf := wellFormed_of_reachable htr.reachable
      exact ⟨⟨x, List.mem_cons_of_mem _ hx, hadmits⟩, hlist.step hwf hstep⟩
    · rcases hlocked.step hstep with ⟨hadmits, hlist⟩ | ⟨hno, hlocked⟩
      · exact .inl ⟨⟨(s, e), List.mem_cons_self, hadmits⟩, hlist⟩
      · exact .inr ⟨List.forall_mem_cons.mpr ⟨hno, hnone⟩, hlocked⟩

/-- Each list request of the coordinator was granted by a login. -/
theorem granted_of_trace {userToken : Option String} {tr : List (App × Event)}
    (h : (appSystem env userToken).Trace tr a) {p : Pending} (hp : p ∈ a.requests)
    {request : ListRequest} (hcall : p.call = .getTaskList request .coordinator) :
    Granted env tr p := by
  induction h with
  | init hs =>
    have hs : _ = App.start userToken := hs
    rw [hs] at hp
    cases hp
  | @step tr s e s' htr hstep ih =>
    by_cases hold : p ∈ s.requests
    · obtain ⟨y, hy, hgrant⟩ := ih hold
      exact ⟨y, List.mem_cons_of_mem _ hy, hgrant⟩
    · -- the request of this step
      have hwf := wellFormed_of_reachable htr.reachable
      obtain ⟨id, body, token, rfl, hreply, hrequest⟩ :=
        coordinator_request hwf hstep hp hold hcall
      refine ⟨_, List.mem_cons_self, id, token, hreply, ?_⟩
      rw [hrequest]
      rfl

end App

/-- **The gate.**  In every run of the app there is a list screen exactly if a
    list was loaded for the coordinator, which takes a login that succeeded
    earlier in the run, and whose token the request for the list carries.
    Until then only the login screen is there, and only logins and these lists
    are asked for. -/
theorem login_gate {env : Environment} {userToken : Option String}
    {tr : List (App × App.Event)} {a : App} (h : (appSystem env userToken).Trace tr a) :
    (App.HasList a ↔ ∃ x ∈ tr, App.Admits env x) ∧ (¬ App.HasList a → App.Locked a) ∧
    ∀ after s id body before, tr = after ++ (s, .deliver id body) :: before →
      App.Admits env (s, .deliver id body) →
        ∃ p, s.requests.find? (fun q => q.id = id) = some p ∧ App.Granted env before p := by
  have hcases := App.locked_or_hasList_of_trace h
  refine ⟨?_, ?_, ?_⟩
  · rcases hcases with ⟨hsome, hlist⟩ | ⟨hnone, hlocked⟩
    · exact iff_of_true hlist hsome
    · have hno := hlocked.not_hasList (App.wellFormed_of_reachable h.reachable)
      exact iff_of_false hno (by rintro ⟨x, hx, hadmits⟩; exact hnone x hx hadmits)
  · intro hno
    rcases hcases with ⟨-, hlist⟩ | ⟨-, hlocked⟩
    · exact absurd hlist hno
    · exact hlocked
  · rintro after s id body before rfl ⟨p, request, hfind, hcall, -⟩
    exact ⟨p, hfind, App.granted_of_trace h.before (List.mem_of_find?_eq_some hfind) hcall⟩

/-- The first list was opened by its login. -/
theorem login_gate_first :
    ∃ tr, (appSystem epochEnvironment none).Trace tr App.firstList ∧
      ∃ x ∈ tr, App.Admits epochEnvironment x := by
  obtain ⟨tr, htr⟩ := App.reachable_firstList.trace
  have hlist : App.HasList App.firstList :=
    ⟨some ⟨some [], some ⟨1, 15, 0⟩, none⟩, by decide⟩
  exact ⟨tr, htr, (login_gate htr).1.mp hlist⟩

end TimeManager
