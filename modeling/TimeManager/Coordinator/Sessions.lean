import TimeManager.Coordinator.Visibility
import TimeManager.Framework.Tickets

/-! # Logins and the Stored Token

    Several logins can be on their way at once, and every response to one
    overwrites the stored token.  So the token is the one of the response
    that was delivered last, which is the latest login's if the responses
    come in the order of the logins (`last_login_wins`). -/

namespace TimeManager

open Lts RequesterURL

/-! ## Section 1: What a run says about logins -/

def Call.isLogin : Call → Bool
  | .loginUser _ _ => true
  | _ => false

namespace App

/-- The login requests in flight, the oldest first. -/
def logins (a : App) : List Nat := (a.requests.filter fun p => p.call.isLogin).map (·.id)

/-- The login request a step sends. -/
def submission : App × Event → Option Nat
  | (a, .logInPressed _) => some a.nextRequest
  | _ => none

/-- The login request a step delivers a decodable response to, and the token
    in it. -/
def loginReply (env : Environment) : App × Event → Option (Nat × Option String)
  | (a, .deliver id body) =>
    if id ∈ a.logins then
      (body.bind env.decoder.loginResultData).map fun result => (id, result.token)
    else none
  | _ => none

/-- The logins of a run, the latest first. -/
def submittedLogins (tr : List (App × Event)) : List Nat := tr.filterMap submission

/-- The login responses of a run, the latest first. -/
def loginReplies (env : Environment) (tr : List (App × Event)) : List (Nat × Option String) :=
  tr.filterMap (loginReply env)

/-- Once no login is in flight, the stored token is the one in the response to
    the latest login. -/
def LastLoginWins (env : Environment) (tr : List (App × Event)) (a : App) : Prop :=
  a.logins = [] → ∀ id, (submittedLogins tr).head? = some id →
    (∃ token, (id, token) ∈ loginReplies env tr) ∧
      ∀ token, (id, token) ∈ loginReplies env tr → a.userToken = token

/-- The condition on a step that logins are answered with responses that
    decode. -/
def AnswersDecode (env : Environment) (a : App) : Event → Prop
  | .deliver id body => id ∈ a.logins →
      ∃ result, body.bind env.decoder.loginResultData = some result
  | _ => True

/-- The condition on a step that logins are answered in their order, and with
    responses that decode. -/
def AnswersInOrder (env : Environment) (a : App) : Event → Prop
  | .deliver id body => id ∈ a.logins →
      (∃ result, body.bind env.decoder.loginResultData = some result) ∧ ∀ i ∈ a.logins, id ≤ i
  | _ => True

variable {env : Environment} {a b : App}

/-! ## Section 2: Steps -/

theorem logins_send (a : App) (call : Call) :
    (a.send call).logins = a.logins ++ if call.isLogin then [a.nextRequest] else [] := by
  show ((a.requests ++ [_]).filter _).map _ = (a.requests.filter _).map Pending.id ++ _
  rw [List.filter_append, List.map_append]
  congr 1
  by_cases hcall : call.isLogin
  · simp [hcall]
  · simp [hcall]

theorem logins_jumpToScreen (a : App) (target : AvailableScreens) :
    (a.jumpToScreen target).logins = a.logins := by
  rcases a.jumpToScreen_cases target with ⟨screen, _, _, heq⟩ | ⟨list, _, heq⟩
  · rw [heq]
    rfl
  · rw [heq]
    exact (logins_send _ _).trans (List.append_nil _)

theorem Grows.logins (h : Grows a b) : b.logins = a.logins := by
  induction h with
  | refl => rfl
  | jump target _ ih => rw [logins_jumpToScreen, ih]
  | alert shown _ ih => exact ih

theorem Grows.userToken (h : Grows a b) : b.userToken = a.userToken := by
  induction h with
  | refl => rfl
  | jump target _ ih => rw [userToken_jumpToScreen, ih]
  | alert shown _ ih => exact ih

/-- The response to a request takes it out of the logins, if it is one. -/
theorem logins_answered (p : Pending) (body : Option (List UInt8)) :
    (a.answered env p body).logins = a.logins.filter fun i => i ≠ p.id := by
  show ((a.requests.filter _).filter _).map Pending.id = ((a.requests.filter _).map Pending.id).filter _
  rw [List.filter_map, List.filter_filter, List.filter_filter]
  congr 1
  apply List.filter_congr
  intro q _
  exact Bool.and_comm _ _

/-- With request identities handed out in order, a request is in flight as a
    login exactly if it is one. -/
theorem mem_logins_iff {id : Nat} {p : Pending} (h : WellFormed a)
    (hp : a.requests.find? (fun q => q.id = id) = some p) :
    id ∈ a.logins ↔ p.call.isLogin := by
  have hpid : p.id = id := by simpa using List.find?_some hp
  have hmem := List.mem_of_find?_eq_some hp
  unfold logins
  constructor
  · intro hid
    obtain ⟨q, hq, hqid⟩ := List.mem_map.mp hid
    obtain ⟨hq, hlogin⟩ := List.mem_filter.mp hq
    rw [← h.request_inj hq hmem (hqid.trans hpid.symm)]
    exact hlogin
  · intro hlogin
    rw [← hpid]
    exact List.mem_map_of_mem (List.mem_filter.mpr ⟨hmem, hlogin⟩)

theorem loginReply_of_isMinor {e : Event} (h : e.isMinor) : loginReply env (a, e) = none := by
  cases e with
  | deliver id body => cases h
  | _ => rfl

theorem submission_of_isMinor {e : Event} (h : e.isMinor) : submission (a, e) = none := by
  cases e with
  | logInPressed user => cases h
  | _ => rfl

/-- The token after a response is the one in it, if it answers a login. -/
theorem tokenAfter_eq {id : Nat} {p : Pending} {body : Option (List UInt8)} (h : WellFormed a)
    (hp : a.requests.find? (fun q => q.id = id) = some p) :
    tokenAfter env a.userToken body p.call =
      ((loginReply env (a, .deliver id body)).map Prod.snd).getD a.userToken := by
  have hmem := mem_logins_iff h hp
  obtain ⟨pid, call, request⟩ := p
  cases call with
  | loginUser user vc =>
    have hin : id ∈ a.logins := hmem.mpr rfl
    simp only [loginReply, if_pos hin, tokenAfter]
    cases body with
    | none => rfl
    | some data =>
      cases hdec : env.decoder.loginResultData data with
      | none => simp [loginUserResponse, Payload.read, hdec]
      | some result =>
        cases htoken : result.token <;>
          simp [loginUserResponse, Payload.read, hdec, htoken]
  | _ =>
    have hout : id ∉ a.logins := fun hin => Bool.noConfusion (hmem.mp hin)
    simp only [loginReply, if_neg hout, tokenAfter]
    rfl

/-- **Step lemma for the token**: only the response to a login changes it. -/
theorem step_userToken {e : Event} (h : WellFormed a) (hstep : a.step env e = some b) :
    b.userToken = ((loginReply env (a, e)).map Prod.snd).getD a.userToken := by
  cases step_effect hstep with
  | grows hminor hgrows =>
    rw [loginReply_of_isMinor hminor, hgrows.userToken]
    rfl
  | typed _ => rfl
  | login _ => rfl
  | more _ _ _ _ => rfl
  | delete _ => rfl
  | save _ _ _ =>
    unfold saveTask
    split <;> rfl
  | form _ _ => rfl
  | back _ _ =>
    unfold back popViewController
    split <;> rfl
  | deliver hp _ hgrows =>
    rw [hgrows.userToken]
    exact tokenAfter_eq h hp
  | load hp _ _ _ => exact tokenAfter_eq h hp
  | session hp _ _ _ => exact tokenAfter_eq h hp

/-- What a step does to the logins in flight, beside what the run says about it. -/
inductive LoginEffect (env : Environment) (a b : App) : Event → Prop where
  | submit {user} : b.logins = a.logins ++ [a.nextRequest] →
      b.nextRequest = a.nextRequest + 1 → LoginEffect env a b (.logInPressed user)
  | deliver {id body} : b.logins = a.logins.filter (fun i => i ≠ id) →
      a.nextRequest ≤ b.nextRequest → LoginEffect env a b (.deliver id body)
  | other {e} : submission (a, e) = none → loginReply env (a, e) = none →
      b.logins = a.logins → a.nextRequest ≤ b.nextRequest → LoginEffect env a b e

theorem step_logins {e : Event} (hstep : a.step env e = some b) : LoginEffect env a b e := by
  cases step_effect hstep with
  | grows hminor hgrows =>
    exact .other (submission_of_isMinor hminor) (loginReply_of_isMinor hminor) hgrows.logins
      hgrows.extends.nextRequest
  | typed _ => exact .other rfl rfl rfl (Nat.le_refl _)
  | login _ => exact .submit (logins_send _ _) rfl
  | more _ _ _ _ => exact .other rfl rfl ((logins_send _ _).trans (List.append_nil _)) (Nat.le_succ _)
  | delete _ => exact .other rfl rfl ((logins_send _ _).trans (List.append_nil _)) (Nat.le_succ _)
  | save _ _ _ =>
    have hlogins : ∀ vc task, (a.saveTask vc task).logins = a.logins := by
      intro vc task
      unfold saveTask
      split <;> exact (logins_send _ _).trans (List.append_nil _)
    exact .other rfl rfl (hlogins _ _) (step_extends hstep (by intro h; cases h)).nextRequest
  | form _ _ => exact .other rfl rfl rfl (Nat.le_refl _)
  | back _ _ =>
    unfold back popViewController
    split <;> exact .other rfl rfl rfl (Nat.le_refl _)
  | deliver hp _ hgrows =>
    have hid := by simpa using List.find?_some hp
    apply LoginEffect.deliver
    · rw [hgrows.logins, logins_answered, hid]
    · exact hgrows.extends.nextRequest
  | @load id body p request caller vc list hp _ _ _ =>
    have hid := by simpa using List.find?_some hp
    apply LoginEffect.deliver
    · rw [← hid]
      exact @logins_answered env a p body
    · exact Nat.le_refl _
  | session hp _ _ _ =>
    have hid := by simpa using List.find?_some hp
    apply LoginEffect.deliver
    · rw [logins_send, logins_answered, hid]
      exact List.append_nil _
    · exact Nat.le_succ _

/-! ## Section 3: Logins that are answered in order -/

/-- The logins of a run are tickets that are answered in order. -/
def LoginOrder (env : Environment) (tr : List (App × Event)) (a : App) : Prop :=
  Tickets.InOrder (submittedLogins tr) ((loginReplies env tr).map Prod.fst) a.logins a.nextRequest

/-- **Step lemma**: answering in order keeps the logins in order. -/
theorem LoginOrder.step {tr : List (App × Event)} {e : Event} (h : LoginOrder env tr a)
    (hok : AnswersInOrder env a e) (hstep : a.step env e = some b) :
    LoginOrder env ((a, e) :: tr) b := by
  unfold LoginOrder
  cases step_logins hstep with
  -- a ticket for each login, answered by its response
  | submit hlogins hnext =>
    rw [hlogins, hnext]
    exact Tickets.InOrder.draw h
  | @deliver id body hlogins hnext =>
    rw [hlogins]
    by_cases hin : id ∈ a.logins
    · -- a login: the lowest one in flight, with a response that decodes
      obtain ⟨⟨result, hresult⟩, hmin⟩ := hok hin
      have hreply : loginReply env (a, .deliver id body) = some (id, result.token) := by
        simp only [loginReply, if_pos hin, hresult, Option.map_some]
      have hreplies : loginReplies env ((a, .deliver id body) :: tr) =
          (id, result.token) :: loginReplies env tr := List.filterMap_cons_some hreply
      rw [hreplies]
      exact Tickets.InOrder.skip (Tickets.InOrder.answer h hin hmin) hnext
    · -- the response to another request
      have hreply : loginReply env (a, .deliver id body) = none := by
        simp only [loginReply, if_neg hin]
      have hreplies : loginReplies env ((a, .deliver id body) :: tr) = loginReplies env tr :=
        List.filterMap_cons_none hreply
      have hfilter : a.logins.filter (fun i => i ≠ id) = a.logins := by
        apply List.filter_eq_self.mpr
        intro i hi
        simpa using fun heq : i = id => hin (heq ▸ hi)
      rw [hreplies, hfilter]
      exact Tickets.InOrder.skip h hnext
  | other hsub hrep hlogins hnext =>
    have hS : submittedLogins ((a, e) :: tr) = submittedLogins tr := List.filterMap_cons_none hsub
    have hR : loginReplies env ((a, e) :: tr) = loginReplies env tr :=
      List.filterMap_cons_none hrep
    rw [hS, hR, hlogins]
    exact Tickets.InOrder.skip h hnext

/-- **Run lemma**: in a run that answers in order the logins are in order. -/
theorem loginOrder_of_trace {userToken : Option String} {tr : List (App × Event)}
    (h : (appSystem env userToken).Trace tr a)
    (hok : System.Guarded (AnswersInOrder env) tr) : LoginOrder env tr a := by
  revert hok
  apply h.invariant
  · intro s hs _
    have hs : s = App.start userToken := hs
    rw [hs]
    exact Tickets.inOrder_nil _
  · intro tr s e s' _ horder hstep hok
    obtain ⟨hlast, htail⟩ := System.guarded_cons.mp hok
    exact (horder htail).step hlast hstep

/-- **Run lemma**: the token is the one of the last response to a login. -/
theorem userToken_of_trace {userToken : Option String} {tr : List (App × Event)}
    (h : (appSystem env userToken).Trace tr a) :
    a.userToken = ((loginReplies env tr).head?.map Prod.snd).getD userToken := by
  apply h.invariant
  · intro s hs
    have hs : s = App.start userToken := hs
    rw [hs]
    rfl
  · intro tr s e s' hreach ih hstep
    rw [step_userToken (wellFormed_of_reachable hreach) hstep, ih]
    cases hreply : loginReply env (s, e) with
    | none =>
      have hR : loginReplies env ((s, e) :: tr) = loginReplies env tr :=
        List.filterMap_cons_none hreply
      rw [hR]
      rfl
    | some reply =>
      have hR : loginReplies env ((s, e) :: tr) = reply :: loginReplies env tr :=
        List.filterMap_cons_some hreply
      rw [hR]
      rfl

/-- Logins that are answered in order leave the token of the latest one. -/
theorem lastLoginWins_of_trace {userToken : Option String} {tr : List (App × Event)}
    (h : (appSystem env userToken).Trace tr a)
    (hok : System.Guarded (AnswersInOrder env) tr) : LastLoginWins env tr a := by
  intro hnone id hid
  have htoken := userToken_of_trace h
  -- no login being open, the last response is the one to the latest login
  have horder := loginOrder_of_trace h hok
  unfold LoginOrder at horder
  rw [hnone] at horder
  have hlast := horder.head?_eq
  have hsorted := horder.answered_sorted
  rw [hid, List.head?_map] at hlast
  cases hreplies : loginReplies env tr with
  | nil =>
    rw [hreplies] at hlast
    cases hlast
  | cons reply rest =>
    rw [hreplies] at hlast htoken hsorted
    obtain rfl : reply.1 = id := Option.some.inj hlast
    constructor
    · exact ⟨reply.2, List.mem_cons_self⟩
    · intro token hmem
      rcases List.mem_cons.mp hmem with heq | hmem
      · rw [htoken, ← heq]
        rfl
      · -- no earlier response is to the same login
        rw [List.map_cons, List.pairwise_cons] at hsorted
        have hlt := hsorted.1 reply.1 (List.mem_map.mpr ⟨_, hmem, rfl⟩)
        exact absurd hlt (Nat.lt_irrefl _)

/-! ## Section 4: The coordinator's list request -/

/-- A new list request of the coordinator was caused by a login, whose token
    it carries. -/
theorem coordinator_request {e : Event} (h : WellFormed a) (hstep : a.step env e = some b)
    {p : Pending} (hp : p ∈ b.requests) (hnew : p ∉ a.requests) {request : ListRequest}
    (hcall : p.call = .getTaskList request .coordinator) :
    ∃ id body token, e = .deliver id body ∧ loginReply env (a, e) = some (id, some token) ∧
      p.request = RequesterURL.getTaskList (some token) request := by
  -- no other step sends one
  have hsend : ∀ call, p ∈ (a.send call).requests → call = .getTaskList request .coordinator := by
    intro call hp
    rcases List.mem_append.mp hp with hp | hp
    · exact absurd hp hnew
    · rw [List.mem_singleton.mp hp] at hcall
      exact hcall
  -- nor do the screens that are opened
  have hgrow : ∀ c, Grows c b → (∀ q ∈ c.requests, q ∈ a.requests) → False := by
    intro c hgrows hsub
    rcases hgrows.requests hp with hold | ⟨_, _, _, hfirst⟩
    · exact hnew (hsub p hold)
    · rw [hcall] at hfirst
      cases hfirst
  cases step_effect hstep with
  | grows _ hgrows => exact (hgrow a hgrows fun _ hq => hq).elim
  | typed _ => exact absurd hp hnew
  | login _ => cases hsend _ hp
  | more _ _ _ _ => cases hsend _ hp
  | delete _ => cases hsend _ hp
  | save _ _ _ =>
    unfold saveTask at hp
    split at hp
    · cases hsend _ hp
    · cases hsend _ hp
  | form _ _ => exact absurd hp hnew
  | back _ _ =>
    unfold back popViewController at hp
    split at hp
    · exact absurd hp hnew
    · exact absurd hp hnew
  | load _ _ _ _ => exact absurd (List.mem_filter.mp hp).1 hnew
  | deliver _ _ hgrows =>
    exact (hgrow _ hgrows fun _ hq => (List.mem_filter.mp hq).1).elim
  | @session id body q user vc result token hq hlogin hdec htoken =>
    have hin : id ∈ a.logins := (mem_logins_iff h hq).mpr (by rw [hlogin]; rfl)
    have hreply : loginReply env (a, .deliver id body) = some (id, some token) := by
      simp only [loginReply, if_pos hin, hdec, Option.map_some, htoken]
    refine ⟨id, body, token, rfl, hreply, ?_⟩
    rcases List.mem_append.mp hp with hp | hp
    · exact absurd (List.mem_filter.mp hp).1 hnew
    · -- it is sent after the token of the response is stored
      have hafter : (a.answered env q body).userToken = some token := by
        show tokenAfter env a.userToken body q.call = _
        rw [tokenAfter_eq h hq, hreply]
        rfl
      rw [List.mem_singleton.mp hp] at hcall ⊢
      show RequesterURL.getTaskList (a.answered env q body).userToken ⟨1, .title, true⟩ = _
      rw [hafter, (Call.getTaskList.inj hcall).1]

end App

/-- **Sessions.**  In every run, in any order of logins and responses:

    * the stored token is the token of the response to a login that was
      delivered last, or the one stored at the start;
    * if the logins are answered in order, with responses that decode, then
      once none is in flight it is the token in the response to the latest
      login;
    * every list request that the coordinator sends carries the token of the
      login whose response made it send it. -/
theorem last_login_wins {env : Environment} {userToken : Option String}
    {tr : List (App × App.Event)} {a : App} (h : (appSystem env userToken).Trace tr a) :
    a.userToken = ((App.loginReplies env tr).head?.map Prod.snd).getD userToken ∧
    (System.Guarded (App.AnswersInOrder env) tr → App.LastLoginWins env tr a) ∧
    ∀ e b, a.step env e = some b → ∀ p ∈ b.requests, p ∉ a.requests →
      ∀ request, p.call = .getTaskList request .coordinator →
        ∃ id body token, e = .deliver id body ∧
          App.loginReply env (a, e) = some (id, some token) ∧
          p.request = RequesterURL.getTaskList (some token) request := by
  refine ⟨App.userToken_of_trace h, App.lastLoginWins_of_trace h, ?_⟩
  intro e b hstep p hp hnew request hcall
  exact App.coordinator_request (App.wellFormed_of_reachable h.reachable) hstep hp hnew hcall

/-! ## Section 5: Two logins -/

namespace App

def firstUser : LoginData := ⟨"a@b.c", "one", false⟩

def secondUser : LoginData := ⟨"d@e.f", "two", false⟩

/-- The login screen after both have pressed the button. -/
def twoLogins : App :=
  ((start none).logInPressed 0 firstUser).logInPressed 0 secondUser

/-- The steps to `twoLogins`, the latest first. -/
def twoLoginSteps : List (App × Event) :=
  [((start none).logInPressed 0 firstUser, .logInPressed secondUser),
    (start none, .logInPressed firstUser)]

theorem trace_twoLogins (env : Environment) :
    (appSystem env none).Trace twoLoginSteps twoLogins := by
  have hfirst : (start none).step env (.logInPressed firstUser) =
      some ((start none).logInPressed 0 firstUser) := rfl
  have hsecond : ((start none).logInPressed 0 firstUser).step env (.logInPressed secondUser) =
      some twoLogins := rfl
  exact .step (.step (.init rfl) hfirst) hsecond

/-- A body with a token. -/
def tokenBody (token : String) : Option (List UInt8) :=
  utf8 ("\x7b\"token\":\"" ++ token ++ "\"\x7d")

/-- After the response to the login `id`, with a token. -/
def answeredWith (a : App) (id : Nat) (token : String) : App :=
  App.send { a.dropRequest id with userToken := some token }
    (.getTaskList ⟨1, .title, true⟩ .coordinator)

theorem decode_tokenBody :
    (tokenBody "one").bind JSONDecoder.standard.loginResultData = some ⟨some "one", none, none⟩ ∧
    (tokenBody "two").bind JSONDecoder.standard.loginResultData = some ⟨some "two", none, none⟩ := by
  decide +kernel

/-- Two logins that are answered in their order: the second one's token is
    stored. -/
theorem last_login_wins_in_order :
    ∃ tr a, (appSystem epochEnvironment none).Trace tr a ∧ a.userToken = some "two" ∧
      a.logins = [] ∧ (submittedLogins tr).head? = some 1 ∧
      LastLoginWins epochEnvironment tr a := by
  have hone : twoLogins.step epochEnvironment (.deliver 0 (tokenBody "one")) =
      some (twoLogins.answeredWith 0 "one") := by
    decide +kernel
  have htwo : (twoLogins.answeredWith 0 "one").step epochEnvironment
      (.deliver 1 (tokenBody "two")) =
      some ((twoLogins.answeredWith 0 "one").answeredWith 1 "two") := by
    decide +kernel
  have htr := System.Trace.step (System.Trace.step (trace_twoLogins epochEnvironment) hone) htwo
  refine ⟨_, _, htr, rfl, rfl, rfl, (last_login_wins htr).2.1 ?_⟩
  intro x hx
  simp only [twoLoginSteps, List.mem_cons, List.not_mem_nil, or_false] at hx
  rcases hx with rfl | rfl | rfl | rfl
  · intro _
    exact ⟨⟨_, decode_tokenBody.2⟩, by decide⟩
  · intro _
    exact ⟨⟨_, decode_tokenBody.1⟩, by decide⟩
  · exact trivial
  · exact trivial

/-- The second login's response arrives first, and the first one's last: the
    first one's token is stored, although both decode. -/
theorem not_last_login_wins :
    ¬ ∀ (tr : List (App × Event)) (a : App), (appSystem epochEnvironment none).Trace tr a →
      System.Guarded (AnswersDecode epochEnvironment) tr →
        LastLoginWins epochEnvironment tr a := by
  intro h
  have htwo : twoLogins.step epochEnvironment (.deliver 1 (tokenBody "two")) =
      some (twoLogins.answeredWith 1 "two") := by
    decide +kernel
  have hone : (twoLogins.answeredWith 1 "two").step epochEnvironment
      (.deliver 0 (tokenBody "one")) =
      some ((twoLogins.answeredWith 1 "two").answeredWith 0 "one") := by
    decide +kernel
  have htr := System.Trace.step (System.Trace.step (trace_twoLogins epochEnvironment) htwo) hone
  have hdecode : System.Guarded (AnswersDecode epochEnvironment)
      ((twoLogins.answeredWith 1 "two", .deliver 0 (tokenBody "one")) ::
        (twoLogins, .deliver 1 (tokenBody "two")) :: twoLoginSteps) := by
    intro x hx
    simp only [twoLoginSteps, List.mem_cons, List.not_mem_nil, or_false] at hx
    rcases hx with rfl | rfl | rfl | rfl
    · exact fun _ => ⟨_, decode_tokenBody.1⟩
    · exact fun _ => ⟨_, decode_tokenBody.2⟩
    · exact trivial
    · exact trivial
  have hlast := h _ _ htr hdecode rfl 1 rfl
  obtain ⟨⟨token, hreply⟩, hall⟩ := hlast
  have hreplies : loginReplies epochEnvironment
      ((twoLogins.answeredWith 1 "two", .deliver 0 (tokenBody "one")) ::
        (twoLogins, .deliver 1 (tokenBody "two")) :: twoLoginSteps) =
      [(0, some "one"), (1, some "two")] := by
    decide +kernel
  have htoken := hall (some "two") (by rw [hreplies]; decide)
  exact absurd htoken (by decide)

end App

end TimeManager
