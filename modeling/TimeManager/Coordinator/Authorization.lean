import TimeManager.Coordinator.Changes
import TimeManager.Coordinator.Sessions

/-! # The Token of a Request

    A request carries the token that is stored when it is sent, and keeps it
    while it waits.  So requests with different tokens can be in flight at
    once, but each carries the token of the last login response that was
    delivered before it was sent (`requests_carry`). -/

namespace TimeManager

open Lts RequesterURL

namespace App

variable {env : Environment} {a b : App}

/-- The token that is stored after a run. -/
def storedToken (env : Environment) (userToken : Option String) (tr : List (App × Event)) :
    Option String :=
  ((loginReplies env tr).head?.map Prod.snd).getD userToken

/-- The request carries this token, unless it is a login. -/
def Pending.Carries (p : Pending) (token : Option String) : Prop :=
  p.request = p.call.operation.request token ∧
    p.request.headers.lookup "Authorization" =
      if p.call.isLogin then none else some (bearer token)

theorem carries_of_request {p : Pending} {token : Option String}
    (h : p.request = p.call.operation.request token) : Pending.Carries p token := by
  refine ⟨h, ?_⟩
  rw [h]
  cases p.call with
  | loginUser user vc => rfl
  | _ => rfl

/-! ## Section 1: Steps -/

/-- A request that is sent carries the token that is stored after the step. -/
theorem step_request {e : Event} (hstep : a.step env e = some b) {p : Pending}
    (hp : p ∈ b.requests) : p ∈ a.requests ∨ p.request = p.call.operation.request b.userToken := by
  have hsend : ∀ (c : App) call, (∀ q ∈ c.requests, q ∈ a.requests) → p ∈ (c.send call).requests →
      p ∈ a.requests ∨ p.request = p.call.operation.request c.userToken := by
    intro c call hsub hp
    rcases List.mem_append.mp hp with hp | hp
    · exact .inl (hsub p hp)
    · rw [List.mem_singleton.mp hp]
      exact .inr rfl
  cases step_change hstep with
  | typed _ _ => exact .inl hp
  | @login user v _ _ _ => exact hsend (a.updateScreen v.id (Screen.fillIn user)) _ (fun _ hq => hq) hp
  | @opens e v target _ _ =>
    rw [userToken_jumpToScreen]
    rcases requests_jumpToScreen hp with hold | ⟨_, _, hrequest⟩
    · exact .inl hold
    · exact .inr hrequest
  | back _ _ =>
    unfold back popViewController at hp
    split at hp
    · exact .inl hp
    · exact .inl hp
  | unsaved =>
    unfold presentAlert at hp
    split at hp
    · exact .inl hp
    · exact .inl hp
  | delete _ _ => exact hsend a _ (fun _ hq => hq) hp
  | form _ _ => exact .inl hp
  | save _ _ _ =>
    unfold saveTask at hp ⊢
    split at hp
    · next hneg =>
      rw [if_pos hneg]
      exact hsend a _ (fun _ hq => hq) hp
    · next hneg =>
      rw [if_neg hneg]
      exact hsend a _ (fun _ hq => hq) hp
  | idle => exact .inl hp
  | @display vc row v model request _ _ _ =>
    cases request with
    | none => exact .inl hp
    | some r => exact hsend a _ (fun _ hq => hq) hp
  | deliver _ hopens =>
    rw [hopens.token]
    rcases hopens.requests p hp with hold | ⟨_, _, hrequest⟩
    · exact .inl (List.mem_filter.mp hold).1
    · exact .inr hrequest
  | load _ _ _ _ => exact .inl (List.mem_filter.mp hp).1
  | @session id body q _ _ _ _ =>
    exact hsend (a.answered env q body) _ (fun _ hq => (List.mem_filter.mp hq).1) hp

/-! ## Section 2: Runs -/

/-- The run `tr` has sent the request at the end of its part `sent`, when the
    token was the one that is stored after that part. -/
def SentAfter (env : Environment) (userToken : Option String) (tr : List (App × Event))
    (p : Pending) : Prop :=
  ∃ x before b, (x :: before) <:+ tr ∧ (appSystem env userToken).Trace (x :: before) b ∧
    x.1.nextRequest ≤ p.id ∧ p ∈ b.requests ∧
    Pending.Carries p (storedToken env userToken (x :: before))

theorem SentAfter.cons {userToken : Option String} {tr : List (App × Event)} {p : Pending}
    (h : SentAfter env userToken tr p) (x : App × Event) :
    SentAfter env userToken (x :: tr) p := by
  obtain ⟨y, before, b, hsuffix, hrest⟩ := h
  exact ⟨y, before, b, hsuffix.trans (List.suffix_cons x tr), hrest⟩

theorem sentAfter_of_trace {userToken : Option String} {tr : List (App × Event)}
    (h : (appSystem env userToken).Trace tr a) {p : Pending} (hp : p ∈ a.requests) :
    SentAfter env userToken tr p := by
  induction h with
  | init hs =>
    have hs : _ = App.start userToken := hs
    rw [hs] at hp
    cases hp
  | @step tr s e s' htr hstep ih =>
    by_cases hold : p ∈ s.requests
    · exact (ih hold).cons (s, e)
    · -- the request of this step
      have hrun := System.Trace.step htr hstep
      have hnew := (step_requests hstep hp).resolve_left hold
      have hrequest := (step_request hstep hp).resolve_left hold
      refine ⟨(s, e), tr, s', List.suffix_refl _, hrun, hnew, hp, ?_⟩
      rw [userToken_of_trace hrun] at hrequest
      exact carries_of_request hrequest

end App

/-- **Authorization.**  In every run of the app each request in flight was
    sent in some step of the run, and carries the token of the last login
    response that was delivered until then, or else the one stored at the
    start, whatever logins were completed since; a login carries none. -/
theorem requests_carry {env : Environment} {userToken : Option String}
    {tr : List (App × App.Event)} {a : App} (h : (appSystem env userToken).Trace tr a) :
    ∀ p ∈ a.requests, App.SentAfter env userToken tr p :=
  fun _ hp => App.sentAfter_of_trace h hp

/-- Two logins are answered one after the other: the two list requests of the
    coordinator are in flight with different tokens. -/
theorem requests_carry_two :
    ∃ tr a p q, (appSystem epochEnvironment none).Trace tr a ∧ p ∈ a.requests ∧ q ∈ a.requests ∧
      p.request.headers ≠ q.request.headers ∧
      App.SentAfter epochEnvironment none tr p ∧ App.SentAfter epochEnvironment none tr q := by
  have hone : App.twoLogins.step epochEnvironment (.deliver 0 (App.tokenBody "one")) =
      some (App.twoLogins.answeredWith 0 "one") := by
    decide +kernel
  have htwo : (App.twoLogins.answeredWith 0 "one").step epochEnvironment
      (.deliver 1 (App.tokenBody "two")) =
      some ((App.twoLogins.answeredWith 0 "one").answeredWith 1 "two") := by
    decide +kernel
  have htr := System.Trace.step
    (System.Trace.step (App.trace_twoLogins epochEnvironment) hone) htwo
  have hp : (⟨2, .getTaskList ⟨1, .title, true⟩ .coordinator,
      getTaskList (some "one") ⟨1, .title, true⟩⟩ : Pending) ∈
      ((App.twoLogins.answeredWith 0 "one").answeredWith 1 "two").requests := by
    decide +kernel
  have hq : (⟨3, .getTaskList ⟨1, .title, true⟩ .coordinator,
      getTaskList (some "two") ⟨1, .title, true⟩⟩ : Pending) ∈
      ((App.twoLogins.answeredWith 0 "one").answeredWith 1 "two").requests := by
    decide +kernel
  exact ⟨_, _, _, _, htr, hp, hq, by decide, requests_carry htr _ hp, requests_carry htr _ hq⟩

end TimeManager
