import TimeManager.Coordinator.ListScreens
import TimeManager.Managers.JSONEncoder
import TimeManager.Paging.Overflow

/-! # When the App Aborts

    The only arithmetic on numbers from outside is that of `getNextTask`, on
    the counters of the last reply that a list screen got.  So the app aborts
    exactly if the row ten before the end of a list is displayed after a reply
    whose counters do not fit (`aborts_iff`); any other event that can occur
    is handled. -/

namespace TimeManager

open Lts Checked

/-! ## Section 1: The last reply of a list screen -/

/-- The meta data of the reply that an event delivers to a list screen. -/
def TaskListScreen.Event.reply : TaskListScreen.Event → Option Meta
  | .deliver _ (some ⟨_, some ⟨some _, some mt, _⟩⟩) => some mt
  | _ => none

/-- The meta data of the last reply in a run of a list screen. -/
def lastReply (tr : List (TaskListScreen × TaskListScreen.Event)) : Option Meta :=
  tr.findSome? fun x => x.2.reply

/-- The counters are those of a reply; before any reply the page is `0`. -/
def TaskListModel.CountersFrom (m : TaskListModel) : Option Meta → Prop
  | none => m.page = 0
  | some mt => m.page = mt.current ∧ m.limit = mt.limit ∧ m.totalCounts = mt.count

theorem TaskListModel.CountersFrom.fits_iff {m : TaskListModel} {reply : Option Meta}
    (h : m.CountersFrom reply) : m.Fits ↔ ∀ mt, reply = some mt → mt.Fits := by
  cases reply with
  | none =>
    -- nothing is computed on page `0`
    refine ⟨?_, fun _ => .inl h⟩
    intro _ mt hmt
    cases hmt
  | some mt =>
    obtain ⟨hpage, hlimit, htotal⟩ := h
    unfold Fits Meta.Fits
    rw [hpage, hlimit, htotal]
    simp

/-- **Step lemma**: the counters are those of the last reply. -/
theorem TaskListScreen.step_counters {dates : DateFormats} {s s' : TaskListScreen}
    {e : TaskListScreen.Event} {reply : Option Meta} (h : s.model.CountersFrom reply)
    (hstep : s.step dates e = some s') : s'.model.CountersFrom (e.reply.or reply) := by
  cases e with
  | willDisplay row =>
    obtain ⟨_, hmodel, _⟩ := step_willDisplay hstep
    rw [hmodel]
    exact h
  | deliver i response =>
    obtain ⟨_, rfl⟩ := step_deliver hstep
    show (s.model.respond dates response).CountersFrom _
    rcases TaskListModel.fails_or_replies response with hfail | ⟨tasks, mt, hreply⟩
    · have hnone : (Event.deliver i response).reply = none := by
        unfold Event.reply
        split
        · next heq =>
          obtain rfl := (TaskListScreen.Event.deliver.inj heq).2
          rcases hfail _ _ rfl rfl with hno | hno <;> cases hno
        · rfl
      rw [s.model.respond_of_fails dates hfail, hnone]
      exact h
    · rw [s.model.respond_of_repliesWith dates hreply]
      obtain ⟨⟨count, decoded⟩, ⟨tasks', mt', message⟩, rfl, hresult, htasks, hmeta⟩ := hreply
      obtain rfl : decoded = _ := hresult
      obtain rfl : tasks' = _ := htasks
      obtain rfl : mt' = _ := hmeta
      exact ⟨rfl, rfl, rfl⟩

/-- **Run lemma**: the counters of a list screen are those of its last reply. -/
theorem counters_of_trace {dates : DateFormats}
    {tr : List (TaskListScreen × TaskListScreen.Event)} {s : TaskListScreen}
    (h : (listSystem dates).Trace tr s) : s.model.CountersFrom (lastReply tr) := by
  induction h with
  | init hloaded =>
    obtain ⟨model, hmodel⟩ := hloaded
    rw [TaskListScreen.viewDidLoad_eq] at hmodel
    obtain rfl := Except.ok.inj hmodel
    rfl
  | @step tr s e s' _ hstep ih =>
    have hlast : lastReply ((s, e) :: tr) = e.reply.or (lastReply tr) := by
      unfold lastReply
      rw [List.findSome?_cons]
      cases e.reply <;> rfl
    rw [hlast]
    exact TaskListScreen.step_counters ih hstep

/-! ## Section 2: Events that can occur -/

namespace App

variable {env : Environment} {a : App}

/-- The screen on top shows something of the kind. -/
def TopShows (a : App) (kind : Screen → Prop) : Prop :=
  ∃ v, a.topViewController = some v ∧ kind v.screen

/-- The event can occur: the button or the row is there, or the request waits. -/
def Possible (a : App) : Event → Prop
  | .typeLogin _ => a.TopShows fun screen => ∃ view, screen = .login view
  | .logInPressed _ => a.TopShows fun screen => ∃ view, screen = .login view
  | .infoPressed row => a.TopShows fun screen =>
      ∃ model, screen = .taskList model ∧ row < model.data.length
  | .sortPressed => a.TopShows fun screen => ∃ model, screen = .taskList model
  | .addTaskButtonPressed => a.TopShows fun screen => ∃ model, screen = .taskList model
  | .backPressed => a.TopShows fun screen =>
      (∃ data, screen = .taskDetail data) ∨ ∃ view, screen = .taskEdit view
  | .editPressed => a.TopShows fun screen => ∃ data, screen = .taskDetail data
  | .deleteEventPressed => a.TopShows fun screen =>
      (∃ data, screen = .taskDetail data) ∨ ∃ view, screen = .taskEdit view
  | .form _ => a.TopShows fun screen => ∃ view, screen = .taskEdit view
  | .saveEventPressed _ => a.TopShows fun screen => ∃ view, screen = .taskEdit view
  | .willDisplay vc row => ∃ model, a.listModel vc = some model ∧ row < model.data.length
  | .deliver id _ => ∃ p ∈ a.requests, p.id = id

/-- A tap or a response that can occur is handled. -/
theorem step_of_possible {e : Event} (h : a.Possible e)
    (hdisplay : ∀ vc row, e ≠ .willDisplay vc row) : ∃ b, a.step env e = some b := by
  cases e with
  | willDisplay vc row => exact absurd rfl (hdisplay vc row)
  | deliver id body =>
    obtain ⟨p, hp, hid⟩ := h
    cases hfind : a.requests.find? (fun q => q.id = id) with
    | none => exact absurd hid (by simpa using List.find?_eq_none.mp hfind p hp)
    | some q =>
      simp only [step, hfind]
      exact ⟨_, rfl⟩
  | infoPressed row =>
    obtain ⟨v, hv, model, hscreen, hrow⟩ := h
    simp only [step, hv, hscreen, tap, List.getElem?_eq_getElem hrow, Option.map_some]
    exact ⟨_, rfl⟩
  | saveEventPressed now =>
    obtain ⟨v, hv, view, hscreen⟩ := h
    simp only [step, hv, hscreen, tap]
    -- with an empty title nothing is saved
    cases view.saveEventPressed now with
    | none => exact ⟨_, rfl⟩
    | some task => exact ⟨_, rfl⟩
  | typeLogin user =>
    obtain ⟨v, hv, view, hscreen⟩ := h
    simp only [step, hv, hscreen, tap]
    exact ⟨_, rfl⟩
  | logInPressed user =>
    obtain ⟨v, hv, view, hscreen⟩ := h
    simp only [step, hv, hscreen, tap]
    exact ⟨_, rfl⟩
  | sortPressed =>
    obtain ⟨v, hv, model, hscreen⟩ := h
    simp only [step, hv, hscreen, tap]
    exact ⟨_, rfl⟩
  | addTaskButtonPressed =>
    obtain ⟨v, hv, model, hscreen⟩ := h
    simp only [step, hv, hscreen, tap]
    exact ⟨_, rfl⟩
  | editPressed =>
    obtain ⟨v, hv, data, hscreen⟩ := h
    simp only [step, hv, hscreen, tap]
    exact ⟨_, rfl⟩
  | form action =>
    obtain ⟨v, hv, view, hscreen⟩ := h
    simp only [step, hv, hscreen, tap]
    exact ⟨_, rfl⟩
  | backPressed =>
    obtain ⟨v, hv, ⟨data, hscreen⟩ | ⟨view, hscreen⟩⟩ := h
    · simp only [step, hv, hscreen, tap]
      exact ⟨_, rfl⟩
    · simp only [step, hv, hscreen, tap]
      exact ⟨_, rfl⟩
  | deleteEventPressed =>
    obtain ⟨v, hv, ⟨data, hscreen⟩ | ⟨view, hscreen⟩⟩ := h
    · simp only [step, hv, hscreen, tap]
      exact ⟨_, rfl⟩
    · simp only [step, hv, hscreen, tap]
      exact ⟨_, rfl⟩

/-- The display of a row of a list aborts where `getNextTask` is called on
    counters that do not fit. -/
theorem step_willDisplay_eq_none {model : TaskListModel} {vc row : Nat}
    (hmodel : a.listModel vc = some model) (hrow : row < model.data.length) :
    a.step env (.willDisplay vc row) = none ↔
      model.data.length = row + 10 ∧ ¬ model.Fits := by
  have hten : (model.data.length : Int) - row = 10 ↔ model.data.length = row + 10 := by omega
  rw [step_willDisplay_eq, hmodel, Option.bind_some, if_pos hrow, ← TaskListModel.getNextTask_ok_iff]
  unfold TaskListModel.willDisplay
  by_cases hlength : (model.data.length : Int) - row = 10
  · rw [if_pos hlength]
    cases model.getNextTask with
    | ok request => simp
    | error trap => simp [hten.mp hlength]
  · rw [if_neg hlength]
    simp [mt hten.mpr hlength]

end App

/-- **Aborts.**  In every run of the app, an event that can occur aborts the
    app if and only if it displays the row ten before the end of a list, and
    the last reply that this list got holds counters for which the arithmetic
    of `getNextTask` overflows. -/
theorem aborts_iff {env : Environment} {userToken : Option String}
    {tr : List (App × App.Event)} {a : App} (h : (appSystem env userToken).Trace tr a)
    {e : App.Event} (hpossible : a.Possible e) :
    a.step env e = none ↔ ∃ vc row s mt, e = .willDisplay vc row ∧ a.listScreen vc = some s ∧
      s.model.data.length = row + 10 ∧ lastReply (App.listSteps env vc tr) = some mt ∧
      ¬ mt.Fits := by
  by_cases hdisplay : ∃ vc row, e = .willDisplay vc row
  · obtain ⟨vc, row, rfl⟩ := hdisplay
    obtain ⟨model, hmodel, hrow⟩ := hpossible
    have hs := App.listScreen_of_listModel hmodel
    have hfits := (counters_of_trace (listScreen_trace h hs)).fits_iff
    rw [App.step_willDisplay_eq_none hmodel hrow]
    constructor
    · rintro ⟨hten, hno⟩
      rw [hfits] at hno
      simp only [not_forall] at hno
      obtain ⟨mt, hmt, hno⟩ := hno
      exact ⟨vc, row, _, mt, rfl, hs, hten, hmt, hno⟩
    · rintro ⟨vc', row', s, mt, he, hs', hten, hmt, hno⟩
      obtain ⟨rfl, rfl⟩ := App.Event.willDisplay.inj he
      obtain rfl := Option.some.inj (hs.symm.trans hs')
      exact ⟨hten, fun hfit => hno (hfits.mp hfit mt hmt)⟩
  · have hother : ∀ vc row, e ≠ .willDisplay vc row := fun vc row he => hdisplay ⟨vc, row, he⟩
    obtain ⟨b, hb⟩ := @App.step_of_possible env a e hpossible hother
    rw [hb]
    constructor
    · intro hnone
      cases hnone
    · rintro ⟨vc, row, _, _, he, _⟩
      exact absurd he (hother vc row)

/-! ### A reply that overflows -/

namespace App

/-- The app after the login, while its list screen waits for the first page. -/
def waitingList : App :=
  { firstList with
    viewControllers :=
      [⟨0, .login, .login (LoginMainView.setData ⟨"a@b.c", "pw", false⟩)⟩,
        ⟨1, .taskList (some ⟨some [], some ⟨1, 15, 0⟩, none⟩), .taskList
          (TaskListModel.seeded (some ⟨some [], some ⟨1, 15, 0⟩, none⟩)).reset⟩]
    requests :=
      [⟨2, .getTaskList ⟨1, .title, true⟩ (.firstTasks 1),
        (Operation.getTaskList ⟨1, .title, true⟩).request (some "t")⟩] }

theorem run_toWaitingList :
    (start none).run epochEnvironment (toFirstList.take 3) = some waitingList := by
  decide +kernel

/-- Ten tasks, on page `2 ^ 62` of pages of four. -/
def overflowingList : TaskList := ⟨some (epochTasks 10), some ⟨2 ^ 62, 4, 2 ^ 63 - 1⟩, none⟩

def overflowingReply : Event := .deliver 2 (some (JSONEncoder.declared.taskList overflowingList))

/-- The list screen gets the tasks and the counters. -/
theorem listEvent_overflowingReply :
    waitingList.listEvent epochEnvironment 1 overflowingReply =
      some (.deliver 0 (some ⟨(JSONEncoder.declared.taskList overflowingList).length,
        some overflowingList⟩)) := by
  have hread : JSONDecoder.standard.taskList (JSONEncoder.declared.taskList overflowingList) =
      some overflowingList := by
    rw [JSONEncoder.decode_taskList, if_pos (by decide)]
  rw [← hread]
  rfl

/-- After the reply the list has ten rows. -/
theorem listScreen_overflowingReply {a : App}
    (hstep : waitingList.step epochEnvironment overflowingReply = some a) :
    ∃ s, a.listScreen 1 = some s ∧ s.model.data.length = 10 := by
  have hwf := wellFormed_of_reachable (reachable_of_run (.init rfl) run_toWaitingList)
  have hbefore : waitingList.listScreen 1 = some ⟨_, _⟩ := rfl
  obtain ⟨s, hs, hfollows⟩ := step_listScreen hwf hstep hbefore
  rw [listEvent_overflowingReply] at hfollows
  obtain ⟨_, rfl⟩ := TaskListScreen.step_deliver hfollows
  exact ⟨_, hs, rfl⟩

end App

/-- After ten rows with counters that overflow, the display of the first row
    aborts the app, and that of the second does not. -/
theorem aborts_iff_overflow :
    ∃ a, App.waitingList.step epochEnvironment App.overflowingReply = some a ∧
      (appSystem epochEnvironment none).Reachable a ∧
      a.step epochEnvironment (.willDisplay 1 0) = none ∧
      a.step epochEnvironment (.willDisplay 1 1) ≠ none := by
  obtain ⟨tr, htr⟩ := (App.reachable_of_run (.init rfl) App.run_toWaitingList).trace
  have hstep : App.waitingList.step epochEnvironment App.overflowingReply = some _ := rfl
  have htr' := htr.step hstep
  obtain ⟨s, hs, hlength⟩ := App.listScreen_overflowingReply hstep
  have hlast : lastReply (App.listSteps epochEnvironment 1
      ((App.waitingList, App.overflowingReply) :: tr)) = some ⟨2 ^ 62, 4, 2 ^ 63 - 1⟩ := by
    have hbefore : App.waitingList.listScreen 1 = some ⟨_, _⟩ := rfl
    unfold App.listSteps
    rw [System.seenBy_cons, hbefore, Option.bind_some, App.listEvent_overflowingReply]
    rfl
  have hpossible : ∀ row < 10, App.Possible _ (.willDisplay 1 row) := fun row hrow =>
    ⟨s.model, (App.listModel_of_listScreen hs).1, by omega⟩
  refine ⟨_, hstep, htr'.reachable, (aborts_iff htr' (hpossible 0 (by decide))).mpr
    ⟨1, 0, s, _, rfl, hs, hlength, hlast, by decide⟩, ?_⟩
  intro hnone
  obtain ⟨vc, row, s', _, he, hs', hten, _⟩ := (aborts_iff htr' (hpossible 1 (by decide))).mp hnone
  obtain ⟨rfl, rfl⟩ := App.Event.willDisplay.inj he
  obtain rfl := Option.some.inj (hs.symm.trans hs')
  omega

end TimeManager
