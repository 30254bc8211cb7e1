import TimeManager.Coordinator.Sessions

/-! # Failed Logins

    A login attempt is over when its response is delivered.  A response that
    decodes leaves the token in it, or removes the stored one if it gives
    none.  Where there is no data, or where decoding throws, the handler
    returns before it comes to the token, and an earlier user's token stays
    (`failed_login_iff`). -/

namespace TimeManager

open Lts RequesterURL

namespace App

/-! ## Section 1: Login attempts -/

/-- The token a response to a login gives, if it gives one. -/
def responseToken (env : Environment) (body : Option (List UInt8)) : Option String :=
  (body.bind env.decoder.loginResultData).bind (·.token)

/-- The token given by the response, for a step that completes a login
    attempt. -/
def completedLogin (env : Environment) : App × Event → Option (Option String)
  | (a, .deliver id body) => if id ∈ a.logins then some (responseToken env body) else none
  | _ => none

/-- The completed login attempts of a run, the latest first. -/
def completedLogins (env : Environment) (tr : List (App × Event)) : List (Option String) :=
  tr.filterMap (completedLogin env)

/-- The stored token is the one of the latest attempt's response, and none if
    that gave none. -/
def EndsSession (env : Environment) (tr : List (App × Event)) (a : App) : Prop :=
  ∀ token, (completedLogins env tr).head? = some token → a.userToken = token

/-- The condition on a step that the response to a login decodes, or that no
    token is stored that it would leave. -/
def DecodesOrNoToken (env : Environment) (a : App) : Event → Prop
  | .deliver id body => id ∈ a.logins →
      (∃ result, body.bind env.decoder.loginResultData = some result) ∨ a.userToken = none
  | _ => True

variable {env : Environment} {a b : App}

/-! ## Section 2: Steps -/

/-- **Step lemma**: the completion of an attempt leaves the token its response
    gives exactly if the response decodes or no token was stored. -/
theorem step_completed {e : Event} (h : WellFormed a) (hstep : a.step env e = some b)
    {token : Option String} (hcompleted : completedLogin env (a, e) = some token) :
    b.userToken = token ↔ DecodesOrNoToken env a e := by
  have htoken := step_userToken h hstep
  cases e with
  | deliver id body =>
    simp only [completedLogin] at hcompleted
    split at hcompleted
    · next hin =>
      obtain rfl := Option.some.inj hcompleted
      simp only [loginReply, if_pos hin] at htoken
      simp only [DecodesOrNoToken, hin, true_implies, responseToken]
      cases hdec : body.bind env.decoder.loginResultData with
      | none =>
        -- the handler leaves the token that was stored before
        rw [hdec] at htoken
        simp [htoken]
      | some result =>
        rw [hdec] at htoken
        simp [htoken]
    · cases hcompleted
  | _ => cases hcompleted

/-- A step that completes no attempt keeps the token. -/
theorem step_not_completed {e : Event} (h : WellFormed a) (hstep : a.step env e = some b)
    (hnone : completedLogin env (a, e) = none) :
    b.userToken = a.userToken ∧ DecodesOrNoToken env a e := by
  have htoken := step_userToken h hstep
  cases e with
  | deliver id body =>
    simp only [completedLogin] at hnone
    split at hnone
    · cases hnone
    · next hout =>
      simp only [loginReply, if_neg hout] at htoken
      exact ⟨htoken, fun hin => absurd hin hout⟩
  | _ => exact ⟨htoken, trivial⟩

end App

/-! ## Section 3: When a failed login ends the previous session -/

/-- **Failed logins.**  In a run from any stored token, the stored token is
    after each login attempt the one of its response, and none if it gave
    none, exactly if every response to a login decodes or arrives when no
    token is stored. -/
theorem failed_login_iff {env : Environment} {userToken : Option String}
    {tr : List (App × App.Event)} {a : App} (h : (appSystem env userToken).Trace tr a) :
    System.AlwaysRun (App.EndsSession env) tr a ↔
      System.Guarded (App.DecodesOrNoToken env) tr := by
  refine h.alwaysRun_iff_guarded ?_ ?_
  · intro s _ token hnone
    cases hnone
  · intro tr s e s' htr hends hstep
    have hwell := App.wellFormed_of_reachable htr.reachable
    cases hcompleted : App.completedLogin env (s, e) with
    | none =>
      have hlogins : App.completedLogins env ((s, e) :: tr) = App.completedLogins env tr :=
        List.filterMap_cons_none hcompleted
      obtain ⟨htoken, hok⟩ := App.step_not_completed hwell hstep hcompleted
      refine iff_of_true ?_ hok
      rw [App.EndsSession, hlogins, htoken]
      exact hends
    | some token =>
      have hlogins : App.completedLogins env ((s, e) :: tr) =
          token :: App.completedLogins env tr :=
        List.filterMap_cons_some hcompleted
      rw [← App.step_completed hwell hstep hcompleted, App.EndsSession, hlogins]
      simp

/-! ## Section 4: A token of an earlier run -/

namespace App

/-- The app with a token of an earlier user, after a login was pressed. -/
def loginOverToken : App := (start (some "old")).logInPressed 0 firstUser

theorem trace_loginOverToken (env : Environment) :
    (appSystem env (some "old")).Trace [(start (some "old"), .logInPressed firstUser)]
      loginOverToken := by
  have hpress : (start (some "old")).step env (.logInPressed firstUser) =
      some loginOverToken := rfl
  exact .step (.init rfl) hpress

/-- The response refuses the login: the earlier token is removed. -/
theorem failed_login_refused :
    ∃ tr a, (appSystem epochEnvironment (some "old")).Trace tr a ∧ a.userToken = none ∧
      System.AlwaysRun (EndsSession epochEnvironment) tr a := by
  have hdeliver : ∃ a, loginOverToken.step epochEnvironment (.deliver 0 (utf8 "\x7b\x7d")) =
      some a ∧ a.userToken = none := by
    decide +kernel
  have hdecodes : ∃ result, (utf8 "\x7b\x7d").bind JSONDecoder.standard.loginResultData =
      some result :=
    ⟨⟨none, none, none⟩, by decide +kernel⟩
  obtain ⟨a, hstep, htoken⟩ := hdeliver
  have htr := System.Trace.step (trace_loginOverToken epochEnvironment) hstep
  refine ⟨_, a, htr, htoken, (failed_login_iff htr).mpr ?_⟩
  intro x hx
  simp only [List.mem_cons, List.not_mem_nil, or_false] at hx
  rcases hx with rfl | rfl
  · intro _
    exact .inl hdecodes
  · exact trivial

/-- There is no response data: the earlier user's token stays stored. -/
theorem not_failed_login :
    ¬ ∀ (tr : List (App × Event)) (a : App),
      (appSystem epochEnvironment (some "old")).Trace tr a →
        System.AlwaysRun (EndsSession epochEnvironment) tr a := by
  intro h
  have hdeliver : loginOverToken.step epochEnvironment (.deliver 0 none) =
      some (loginOverToken.dropRequest 0) := rfl
  have htr := System.Trace.step (trace_loginOverToken epochEnvironment) hdeliver
  have hends := (h _ _ htr).1 none (by decide)
  exact absurd hends (by decide)

end App

end TimeManager
