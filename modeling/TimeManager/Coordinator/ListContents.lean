import TimeManager.Coordinator.ListScreens
import TimeManager.Paging.NoGaps

/-! # What the Lists of the App Show

    Two things that hold of every list screen of the app, in any run:

    * A row stays where it is.  Nothing removes or moves a row, so the info
      button opens the task that the user sees, whatever has arrived since
      (`rows_stay`).
    * No task is skipped, if the requests of the screen are answered from one
      list of the server, whatever happens elsewhere in the app
      (`list_no_gaps`). -/

namespace TimeManager

open Lts RequesterURL

/-! ## Section 1: Rows -/

/-- An event of a list screen keeps its rows, and the order it asks for. -/
theorem TaskListScreen.step_rows {dates : DateFormats} {s s' : TaskListScreen}
    {e : TaskListScreen.Event} (h : s.step dates e = some s') :
    s.model.data <+: s'.model.data ∧ s'.model.sorting = s.model.sorting ∧
      s'.model.direction = s.model.direction := by
  cases e with
  | willDisplay row =>
    obtain ⟨_, hmodel, _⟩ := step_willDisplay h
    rw [hmodel]
    exact ⟨List.prefix_refl _, rfl, rfl⟩
  | deliver i response =>
    obtain ⟨_, rfl⟩ := step_deliver h
    show s.model.data <+: (s.model.respond dates response).data ∧ _
    rcases TaskListModel.fails_or_replies response with hfail | ⟨tasks, mt, hreply⟩
    · rw [s.model.respond_of_fails dates hfail]
      exact ⟨List.prefix_refl _, rfl, rfl⟩
    · rw [s.model.respond_of_repliesWith dates hreply]
      exact ⟨List.prefix_append _ _, rfl, rfl⟩

namespace App

variable {env : Environment} {userToken : Option String} {a b : App} {vc : Nat}

/-- **Step lemma**: no event takes a row from a list screen. -/
theorem step_rows {e : Event} (hwf : WellFormed a) (hstep : a.step env e = some b)
    {s : TaskListScreen} (hs : a.listScreen vc = some s) :
    ∃ s', b.listScreen vc = some s' ∧ s.model.data <+: s'.model.data ∧
      s'.model.sorting = s.model.sorting ∧ s'.model.direction = s.model.direction := by
  obtain ⟨s', hs', hfollows⟩ := step_listScreen hwf hstep hs
  refine ⟨s', hs', ?_⟩
  cases hevent : a.listEvent env vc e with
  | none =>
    rw [hevent] at hfollows
    obtain rfl : s' = s := hfollows
    exact ⟨List.prefix_refl _, rfl, rfl⟩
  | some e' =>
    rw [hevent] at hfollows
    exact TaskListScreen.step_rows hfollows

/-- **Run lemma**: no run takes a row from a list screen. -/
theorem run_rows {es : List Event} (h : (appSystem env userToken).Reachable a)
    (hrun : a.run env es = some b) {s : TaskListScreen} (hs : a.listScreen vc = some s) :
    ∃ s', b.listScreen vc = some s' ∧ s.model.data <+: s'.model.data ∧
      s'.model.sorting = s.model.sorting ∧ s'.model.direction = s.model.direction := by
  induction es generalizing a s with
  | nil =>
    obtain rfl : a = b := Option.some.inj hrun
    exact ⟨s, hs, List.prefix_refl _, rfl, rfl⟩
  | cons e es ih =>
    rw [run_cons] at hrun
    obtain ⟨c, hstep, hrest⟩ := Option.bind_eq_some_iff.mp hrun
    obtain ⟨s₁, hs₁, hpre, hsort, hdir⟩ := step_rows (wellFormed_of_reachable h) hstep hs
    obtain ⟨s₂, hs₂, hpre', hsort', hdir'⟩ := ih (h.step hstep) hrest hs₁
    exact ⟨s₂, hs₂, hpre.trans hpre', hsort'.trans hsort, hdir'.trans hdir⟩

/-- The screen on top, if it is the list screen `vc`. -/
theorem top_of_listModel (hwf : WellFormed a) {v : ViewController} {model : TaskListModel}
    (htop : a.topViewController = some v) (hid : v.id = vc)
    (hmodel : a.listModel vc = some model) : v.screen = .taskList model := by
  obtain ⟨w, hw, hshown⟩ := Option.bind_eq_some_iff.mp hmodel
  have hwid : w.id = vc := by simpa using List.find?_some hw
  have hinj := List.inj_on_of_nodup_map (hwf.screenIds.imp Nat.ne_of_lt)
    (List.mem_of_find?_eq_some hw) (List.mem_of_getLast? htop) (hwid.trans hid.symm)
  obtain rfl := hinj
  obtain ⟨id, madeFrom, screen⟩ := w
  cases screen with
  | taskList shown =>
    obtain rfl : shown = model := Option.some.inj hshown
    rfl
  | _ => cases hshown

end App

/-- **Rows stay.**  A list screen that is there in some reachable state of the
    app is there after any further events, with its rows in their places and
    perhaps more after them, and with its sorting and direction; so once it is
    on top, the info button of a row opens the task that the row showed. -/
theorem rows_stay {env : Environment} {userToken : Option String} {a b : App}
    {es : List App.Event} (h : (appSystem env userToken).Reachable a)
    (hrun : a.run env es = some b) {vc : Nat} {s : TaskListScreen}
    (hs : a.listScreen vc = some s) :
    (∃ s', b.listScreen vc = some s' ∧ s.model.data <+: s'.model.data ∧
      s'.model.sorting = s.model.sorting ∧ s'.model.direction = s.model.direction) ∧
    ∀ row data, s.model.data[row]? = some data →
      b.topViewController.map (·.id) = some vc →
      b.step env (.infoPressed row) = some (b.jumpToScreen (.taskDetail (some data))) := by
  obtain ⟨s', hs', hpre, horder⟩ := App.run_rows h hrun hs
  refine ⟨⟨s', hs', hpre, horder⟩, ?_⟩
  intro row data hrow htop
  obtain ⟨v, hv, hid⟩ := Option.map_eq_some_iff.mp htop
  have hwf := App.wellFormed_of_reachable (App.reachable_of_run h hrun)
  have hscreen := App.top_of_listModel hwf hv hid (App.listModel_of_listScreen hs').1
  -- the row is still where it was
  have hrow' : s'.model.data[row]? = some data := by
    obtain ⟨hlt, heq⟩ := List.getElem?_eq_some_iff.mp hrow
    rw [← heq, List.getElem?_eq_some_iff]
    exact ⟨Nat.lt_of_lt_of_le hlt hpre.length_le, (hpre.getElem hlt).symm⟩
  simp only [App.step, hv, hscreen, App.tap, hrow', Option.map_some]

/-- From the first list to the form for a new task and back: the only row
    still opens its task. -/
theorem rows_stay_back :
    ∃ b, App.firstList.run epochEnvironment [.addTaskButtonPressed, .backPressed] = some b ∧
      b.step epochEnvironment (.infoPressed 0) = some (b.jumpToScreen
        (.taskDetail (some (internalTaskData epochDates App.sampleTask)))) := by
  have hrun : App.firstList.run epochEnvironment [.addTaskButtonPressed, .backPressed] =
      some (App.firstList.jumpToScreen (.taskEdit none)).back := rfl
  have hscreen : App.firstList.listScreen 1 = some _ := rfl
  exact ⟨_, hrun, (rows_stay App.reachable_firstList hrun hscreen).2 0 _ rfl rfl⟩

/-! ## Section 2: Tasks that are not skipped -/

/-- The condition on a step that a request of the screen `vc` is answered with
    its page of `L`, or fails. -/
def ServesScreen (env : Environment) (vc : Nat) (L : List TaskData) (l : Nat) (a : App) :
    App.Event → Prop
  | .deliver id body => ∀ p ∈ a.requests, p.id = id → ∀ r ∈ p.call.listRequest vc,
      AnswersPage L l r.page (body.map (Payload.read env.decoder.taskList)) ∨
        FailsToLoad (body.map (Payload.read env.decoder.taskList))
  | _ => True

instance (env : Environment) (vc : Nat) (L : List TaskData) (l : Nat) (a : App) :
    (e : App.Event) → Decidable (ServesScreen env vc L l a e)
  | .deliver id body => inferInstanceAs (Decidable (∀ p ∈ a.requests, p.id = id →
      ∀ r ∈ p.call.listRequest vc,
        AnswersPage L l r.page (body.map (Payload.read env.decoder.taskList)) ∨
          FailsToLoad (body.map (Payload.read env.decoder.taskList))))
  | .typeLogin _ => .isTrue trivial
  | .logInPressed _ => .isTrue trivial
  | .infoPressed _ => .isTrue trivial
  | .sortPressed => .isTrue trivial
  | .addTaskButtonPressed => .isTrue trivial
  | .backPressed => .isTrue trivial
  | .editPressed => .isTrue trivial
  | .deleteEventPressed => .isTrue trivial
  | .form _ => .isTrue trivial
  | .saveEventPressed _ => .isTrue trivial
  | .willDisplay _ _ => .isTrue trivial

section

variable {env : Environment} {userToken : Option String} {L : List TaskData} {l vc : Nat}

/-- For the screen, the app passes on what the server allows. -/
theorem serverAllows_of_servesScreen {a : App} {e : App.Event} {s : TaskListScreen}
    {e' : TaskListScreen.Event} (hs : a.listScreen vc = some s)
    (hevent : a.listEvent env vc e = some e') (h : ServesScreen env vc L l a e) :
    ServerAllows L l s e' := by
  cases e with
  | willDisplay w row =>
    have hevent : (if w = vc then some (.willDisplay row) else none) = some e' := hevent
    split at hevent
    · obtain rfl := Option.some.inj hevent
      trivial
    · cases hevent
  | deliver id body =>
    obtain ⟨p, hp, hcall⟩ := Option.bind_eq_some_iff.mp hevent
    obtain ⟨r, hr, rfl⟩ := Option.map_eq_some_iff.mp hcall
    have hid : p.id = id := by simpa using List.find?_some hp
    intro r' hr'
    -- the request in its place is the one that is answered
    rw [(App.listModel_of_listScreen hs).2, App.inFlight_place hp hr] at hr'
    obtain rfl := Option.some.inj hr'
    exact h p (List.mem_of_find?_eq_some hp) hid r hr
  | _ => cases hevent

/-- A run of a list screen that the server serves starts with some model. -/
theorem trace_of_served {dates : DateFormats}
    {tr : List (TaskListScreen × TaskListScreen.Event)} {s : TaskListScreen}
    (h : (listSystem dates).Trace tr s) (hok : System.Guarded (ServerAllows L l) tr) :
    ∃ m₀, (screenSystem dates L l m₀).Trace tr s := by
  induction h.restrict hok with
  | init hloaded =>
    obtain ⟨m₀, hm₀⟩ := hloaded
    exact ⟨m₀, .init hm₀⟩
  | step htr hstep ih =>
    obtain ⟨hlast, htail⟩ := System.guarded_cons.mp hok
    cases h with
    | step h _ =>
      obtain ⟨m₀, hm₀⟩ := ih h htail
      exact ⟨m₀, .step hm₀ hstep⟩

/-! ### The pages that arrive -/

/-- The page that an event of the app delivers to the list screen `vc`, if it
    delivers one: the page asked for by the request that is answered. -/
def App.deliveredPage (env : Environment) (vc : Nat) (a : App) : App.Event → Option Nat
  | .deliver id body =>
    if FailsToLoad (body.map (Payload.read env.decoder.taskList)) then none
    else (a.requests.find? fun p => p.id = id).bind fun p =>
      (p.call.listRequest vc).map (·.page.toNat)
  | _ => none

/-- The pages that a run of the app delivers to the list screen `vc`, the
    latest last. -/
def App.deliveredPages (env : Environment) (vc : Nat) (tr : List (App × App.Event)) : List Nat :=
  tr.reverse.filterMap fun x => App.deliveredPage env vc x.1 x.2

/-- What an event delivers to a list screen, the screen is delivered. -/
theorem deliveredPage_of_listScreen {a : App} {e : App.Event} {s : TaskListScreen}
    (hs : a.listScreen vc = some s) :
    (a.listEvent env vc e).bind (deliveredPage s) = App.deliveredPage env vc a e := by
  cases e with
  | willDisplay w row =>
    show (if w = vc then some (.willDisplay row) else none).bind (deliveredPage s) = none
    split <;> rfl
  | deliver id body =>
    show ((a.requests.find? _).bind _).bind _ = ite _ _ _
    cases hp : a.requests.find? (fun p => p.id = id) with
    | none => simp
    | some p =>
      cases hr : p.call.listRequest vc with
      | none => simp [hr]
      | some r =>
        -- the request in its place is the one that is answered
        have hplace := App.inFlight_place hp hr
        rw [← (App.listModel_of_listScreen hs).2] at hplace
        simp [hr, deliveredPage, hplace]
  | _ => rfl

/-- Nothing is delivered to a screen before it is there. -/
theorem deliveredPage_of_none {a : App} (hknown : App.StartersKnown a)
    (hnone : a.listScreen vc = none) (e : App.Event) : App.deliveredPage env vc a e = none := by
  cases e with
  | deliver id body =>
    show ite _ _ _ = _
    split
    · rfl
    · cases hp : a.requests.find? (fun p => p.id = id) with
      | none => rfl
      | some p =>
        have hempty := hknown.inFlight_eq_nil (App.listModel_eq_none hnone)
        have hr := List.filterMap_eq_nil_iff.mp hempty p (List.mem_of_find?_eq_some hp)
        simp [hr]
  | _ => rfl

/-- The pages delivered to the screen in the app are those of its own run. -/
theorem deliveredPages_listSteps {tr : List (App × App.Event)} {a : App}
    (h : (appSystem env userToken).Trace tr a) :
    deliveredPages (App.listSteps env vc tr) = App.deliveredPages env vc tr := by
  induction h with
  | init _ => rfl
  | @step tr a e b htr _ ih =>
    have hcons : App.deliveredPages env vc ((a, e) :: tr) =
        App.deliveredPages env vc tr ++ (App.deliveredPage env vc a e).toList := by
      unfold App.deliveredPages
      rw [List.reverse_cons, List.filterMap_append]
      cases hpage : App.deliveredPage env vc a e with
      | none => simp [hpage]
      | some p => simp [hpage]
    rw [hcons, ← ih]
    unfold App.listSteps
    rw [System.seenBy_cons]
    cases hs : a.listScreen vc with
    | none =>
      rw [deliveredPage_of_none (App.startersKnown_of_reachable htr.reachable) hs e]
      exact (List.append_nil _).symm
    | some s =>
      rw [← deliveredPage_of_listScreen hs, Option.bind_some]
      cases hevent : a.listEvent env vc e with
      | none => exact (List.append_nil _).symm
      | some e' => exact deliveredPages_cons s e' _

/-- **No gaps.**  In every run of the app in which the requests of a list
    screen are answered from one list `L` of the server, in pages of `l`, or
    fail, the screen shows the pages delivered to it, which are the first pages
    of `L` without a gap, and asks for no page past the last one; and once it
    finds no next page it shows every task of `L`.  What else happens in the
    run, and in which order, does not matter. -/
theorem list_no_gaps (hl : 0 < l) {tr : List (App × App.Event)} {a : App}
    (h : (appSystem env userToken).Trace tr a)
    (hserver : System.Guarded (ServesScreen env vc L l) tr) {s : TaskListScreen}
    (hs : a.listScreen vc = some s) :
    ShowsWithoutGaps env.dates L l (App.deliveredPages env vc tr) s ∧
    (s.model.getNextTask = .ok none →
      ∀ task ∈ L, internalTaskData env.dates task ∈ s.model.data) := by
  have hallows : System.Guarded (ServerAllows L l) (App.listSteps env vc tr) :=
    hserver.seenBy fun _ _ _ _ => serverAllows_of_servesScreen
  obtain ⟨m₀, htrace⟩ := trace_of_served (listScreen_trace h hs) hallows
  rw [← deliveredPages_listSteps h]
  exact ⟨showsWithoutGaps_of_trace hl htrace,
    fun hnone _ htask => all_shown_of_trace htrace hnone htask⟩

end

/-- The list after the login, served from a list of one task. -/
theorem list_no_gaps_first :
    ∃ tr s, (appSystem epochEnvironment none).Trace tr App.firstList ∧
      App.deliveredPages epochEnvironment 1 tr = [1] ∧ App.firstList.listScreen 1 = some s ∧
      s.model.data = [1].flatMap (shownPage epochDates [App.sampleTask] 15) ∧
      internalTaskData epochDates App.sampleTask ∈ s.model.data := by
  have htr := System.Trace.of_foldlM (fun _ _ _ hstep => hstep)
    (.init rfl : (appSystem epochEnvironment none).Trace [] _) App.run_toFirstList
  have hserver : System.Guarded (ServesScreen epochEnvironment 1 [App.sampleTask] 15)
      (System.stepsOf (App.step epochEnvironment) [] (App.start none) App.toFirstList) := by
    decide +kernel
  have hpages : App.deliveredPages epochEnvironment 1
      (System.stepsOf (App.step epochEnvironment) [] (App.start none) App.toFirstList) = [1] := by
    decide +kernel
  have hall := list_no_gaps (by decide) htr hserver rfl
  rw [hpages] at hall
  exact ⟨_, _, htr, hpages, rfl, hall.1.1, hall.2 rfl _ (by decide)⟩

end TimeManager
