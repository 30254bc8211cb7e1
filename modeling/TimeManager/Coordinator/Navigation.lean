import Mathlib.Data.List.Chain
import TimeManager.Coordinator.Changes

/-! # Which Screen Lies on Which

    Taps open screens from the one on top, and a response may put a list on
    top of anything at any time.  Still the stack is always a path through the
    screens: a detail screen lies on the list that shows its task, an edit
    screen on the detail screen of its task or, for a new task, on a list
    (`stack_is_path`).  So going back always leads to where the user came
    from. -/

namespace TimeManager

open Lts

/-- A screen with this content may lie on one with the other: `below` is
    where it is opened from. -/
def Screen.OpenedFrom (below : Screen) : Screen → Prop
  -- a response may open a list anywhere
  | .taskList _ => True
  | .login _ => ∃ model, below = .taskList model
  | .taskDetail data => ∃ task model, data = some task ∧ below = .taskList model ∧ task ∈ model.data
  | .taskEdit view => (view.data = none ∧ ∃ model, below = .taskList model) ∨
      ∃ task, view.data = some task ∧ below = .taskDetail (some task)

/-- The view controller is a list, or what the one below can open. -/
def ViewController.Above (v w : ViewController) : Prop :=
  (∃ list, w.madeFrom = .taskList list) ∨ v.screen.Opens w.madeFrom

/-- A detail screen is opened for a task. -/
theorem Screen.Opens.ne_taskDetail_none {screen : Screen} {target : AvailableScreens}
    (h : screen.Opens target) : target ≠ .taskDetail none := by
  cases h <;> exact fun h => by cases h

namespace App

variable {env : Environment} {a b : App}

/-- The invariant: each screen lies on one that opens it, and detail screens
    are made for a task. -/
structure IsPath (a : App) : Prop where
  chain : a.viewControllers.IsChain ViewController.Above
  details : ∀ v ∈ a.viewControllers, v.madeFrom ≠ .taskDetail none

/-! ## Section 1: Steps -/

theorem isPath_of_same (h : IsPath a) (hstack : b.viewControllers = a.viewControllers) :
    IsPath b :=
  ⟨hstack ▸ h.chain, hstack ▸ h.details⟩

/-- Lists may be put on top of any screen. -/
theorem IsPath.lists (h : IsPath a) {lists : List ViewController}
    (hstack : b.viewControllers = a.viewControllers ++ lists)
    (hlists : ∀ v ∈ lists, ∃ list, v.madeFrom = .taskList list) : IsPath b := by
  refine ⟨?_, ?_⟩
  · rw [hstack, List.isChain_append]
    refine ⟨h.chain, ?_, ?_⟩
    · apply List.Pairwise.isChain
      apply List.pairwise_of_forall_mem_list
      intro v _ w hw
      exact .inl (hlists w hw)
    · intro v _ w hw
      exact .inl (hlists w (List.mem_of_mem_head? hw))
  · intro v hv
    rw [hstack] at hv
    rcases List.mem_append.mp hv with hv | hv
    · exact h.details v hv
    · obtain ⟨list, hlist⟩ := hlists v hv
      rw [hlist]
      exact fun h => AvailableScreens.noConfusion h

/-- The screen on top may open what it opens. -/
theorem IsPath.opens (h : IsPath a) {v : ViewController} {target : AvailableScreens}
    (htop : a.topViewController = some v) (hopens : v.screen.Opens target) :
    IsPath (a.jumpToScreen target) := by
  refine ⟨?_, ?_⟩
  · rw [stack_jumpToScreen, List.isChain_append]
    refine ⟨h.chain, List.isChain_singleton _, ?_⟩
    intro v' hv' w hw
    obtain rfl := Option.some.inj (htop.symm.trans hv')
    obtain rfl := Option.some.inj hw
    exact .inr hopens
  · intro w hw
    rw [stack_jumpToScreen] at hw
    rcases List.mem_append.mp hw with hw | hw
    · exact h.details w hw
    · rw [List.mem_singleton.mp hw]
      exact hopens.ne_taskDetail_none

/-- What the screens show may change as long as they open what they opened. -/
theorem IsPath.updateScreen (h : IsPath a) (vc : Nat) {f : Screen → Screen}
    (hf : ∀ screen target, screen.Opens target → (f screen).Opens target) :
    IsPath (a.updateScreen vc f) := by
  refine ⟨?_, ?_⟩
  · show (a.viewControllers.map _).IsChain _
    rw [List.isChain_map]
    apply h.chain.imp
    rintro v w (⟨list, hlist⟩ | hopens)
    · exact .inl ⟨list, (update_madeFrom vc f w).trans hlist⟩
    · right
      rw [update_madeFrom]
      unfold ViewController.update
      split
      · exact hf _ _ hopens
      · exact hopens
  · intro v hv
    obtain ⟨w, hw, rfl⟩ := List.mem_map.mp hv
    rw [update_madeFrom]
    exact h.details w hw

theorem IsPath.back (h : IsPath a) : IsPath a.back := by
  unfold App.back popViewController
  split
  · exact isPath_of_same h rfl
  · have hpre : a.viewControllers.dropLast <+: a.viewControllers := List.dropLast_prefix _
    have hchain := List.IsChain.prefix h.chain hpre
    exact ⟨hchain, fun v hv => h.details v (hpre.subset hv)⟩

/-- More rows open the tasks of the old ones. -/
theorem opens_updateModel {f : TaskListModel → TaskListModel}
    (hf : ∀ model, model.data ⊆ (f model).data) (screen : Screen) (target : AvailableScreens)
    (h : screen.Opens target) : (screen.updateModel f).Opens target := by
  cases h with
  | detail hmem => exact .detail (hf _ hmem)
  | login => exact .login
  | newTask => exact .newTask
  | edit => exact .edit

/-- Nothing is opened from a form. -/
theorem opens_fillIn (user : LoginData) (screen : Screen) (target : AvailableScreens)
    (h : screen.Opens target) : (screen.fillIn user).Opens target := by
  cases h with
  | detail hmem => exact .detail hmem
  | login => exact .login
  | newTask => exact .newTask
  | edit => exact .edit

theorem opens_act (action : FormAction) (screen : Screen) (target : AvailableScreens)
    (h : screen.Opens target) : (screen.act action).Opens target := by
  cases h with
  | detail hmem => exact .detail hmem
  | login => exact .login
  | newTask => exact .newTask
  | edit => exact .edit

/-- **Step lemma**: every event leaves a path. -/
theorem IsPath.step {e : Event} (h : IsPath a) (hstep : a.step env e = some b) : IsPath b := by
  cases step_change hstep with
  | typed _ _ => exact h.updateScreen _ (opens_fillIn _)
  | login _ _ => exact isPath_of_same (h.updateScreen _ (opens_fillIn _)) rfl
  | opens htop hopens => exact h.opens htop hopens
  | back _ _ => exact h.back
  | unsaved =>
    apply isPath_of_same h
    unfold presentAlert
    split <;> rfl
  | delete _ _ => exact isPath_of_same h rfl
  | form _ _ => exact h.updateScreen _ (opens_act _)
  | save _ _ _ =>
    apply isPath_of_same h
    unfold saveTask
    split <;> rfl
  | idle => exact h
  | @display vc row v model request _ _ _ =>
    apply isPath_of_same h
    cases request <;> rfl
  | deliver _ hopens =>
    obtain ⟨lists, hstack, hlists⟩ := hopens.stack
    exact h.lists hstack fun v hv => (hlists v hv).imp fun _ h => h.1
  | @load id body p _ _ vc list _ _ _ _ =>
    have hanswered : IsPath (a.answered env p body) := isPath_of_same h rfl
    apply hanswered.updateScreen vc
    exact opens_updateModel fun model => List.subset_append_left _ _
  | session _ _ => exact isPath_of_same h rfl

theorem isPath_of_reachable {userToken : Option String}
    (h : (appSystem env userToken).Reachable a) : IsPath a := by
  apply h.invariant
  · intro s hs
    have hs : s = App.start userToken := hs
    rw [hs]
    refine ⟨List.isChain_singleton _, ?_⟩
    intro v hv
    rw [List.mem_singleton.mp hv]
    exact fun h => AvailableScreens.noConfusion h
  · intro s e s' _ hpath hstep
    exact hpath.step hstep

/-! ## Section 2: What the screens show -/

/-- A screen shows what it was made from, so it lies where it was opened. -/
theorem openedFrom_of_above {v w : ViewController} (habove : v.Above w) (hv : v.Matches)
    (hw : w.Matches) (hdetail : v.madeFrom ≠ .taskDetail none) :
    v.screen.OpenedFrom w.screen := by
  obtain ⟨wid, wfrom, wscreen⟩ := w
  rcases habove with ⟨list, hlist⟩ | hopens
  · obtain rfl : wfrom = _ := hlist
    cases wscreen with
    | taskList model => exact trivial
    | _ => exact hw.elim
  · obtain ⟨vid, vfrom, vscreen⟩ := v
    have hopens : vscreen.Opens wfrom := hopens
    cases hopens with
    | @detail model task hmem =>
      cases wscreen with
      | taskDetail data =>
        obtain rfl : data = some task := hw
        exact ⟨task, model, rfl, rfl, hmem⟩
      | _ => exact hw.elim
    | login =>
      cases wscreen with
      | login view => exact ⟨_, rfl⟩
      | _ => exact hw.elim
    | newTask =>
      cases wscreen with
      | taskEdit view =>
        have hview : view.data = none := hw
        exact .inl ⟨hview, _, rfl⟩
      | _ => exact hw.elim
    | @edit data =>
      cases wscreen with
      | taskEdit view =>
        have hview : view.data = data := hw
        -- the detail screen below shows a task
        cases data with
        | some task => exact .inr ⟨task, hview, rfl⟩
        | none =>
          cases vfrom with
          | taskDetail made =>
            obtain rfl : none = made := hv
            exact absurd rfl hdetail
          | _ => exact hv.elim
      | _ => exact hw.elim

theorem openedFrom_of_stack {userToken : Option String}
    (h : (appSystem env userToken).Reachable a) {below above : List ViewController}
    {v w : ViewController} (hstack : a.viewControllers = below ++ v :: w :: above) :
    v.screen.OpenedFrom w.screen := by
  have hwf := wellFormed_of_reachable h
  have hpath := isPath_of_reachable h
  have hv : v ∈ a.viewControllers := by simp [hstack]
  have hw : w ∈ a.viewControllers := by simp [hstack]
  have hchain := hpath.chain
  rw [hstack, List.isChain_append_cons_cons] at hchain
  exact openedFrom_of_above hchain.2.1 (hwf.kinds v hv) (hwf.kinds w hw) (hpath.details v hv)

/-- A back event uncovers the screen that the top one was opened from. -/
theorem uncovers_of_back {userToken : Option String}
    (h : (appSystem env userToken).Reachable a) (hstep : a.step env .backPressed = some b) :
    ∃ below v w, a.viewControllers = below ++ [v, w] ∧ b.viewControllers = below ++ [v] ∧
      a.topViewController = some w ∧ b.topViewController = some v ∧
      v.screen.OpenedFrom w.screen := by
  have hwf := wellFormed_of_reachable h
  obtain ⟨w, htop, _, rfl⟩ := step_back hwf hstep
  have hstack := viewControllers_of_top htop
  -- the bottom screen has no back button, so there is a screen below
  obtain ⟨v, rest, hbottom, _⟩ := (hwf.step hstep).bottom
  have hne : a.viewControllers.dropLast ≠ [] := by
    intro hnil
    have hbottom : a.viewControllers.dropLast = v :: rest := hbottom
    rw [hnil] at hbottom
    cases hbottom
  have hlast := List.dropLast_concat_getLast hne
  rw [← hlast, List.append_assoc] at hstack
  refine ⟨_, a.viewControllers.dropLast.getLast hne, w, hstack, hlast.symm, htop, ?_, ?_⟩
  · exact List.getLast?_eq_some_getLast hne
  · exact openedFrom_of_stack h hstack

end App

/-- **Navigation.**  In every run of the app each screen of the stack lies on
    one that it was opened from: a detail screen on a list that shows its task,
    an edit screen on the detail screen of its task or, for a new task, on a
    list, and a later login screen on a list.  A back event takes the top
    screen away and uncovers the one directly below it, which is the one that
    it was opened from. -/
theorem stack_is_path {env : Environment} {userToken : Option String} {a : App}
    (h : (appSystem env userToken).Reachable a) :
    (∀ below v w above, a.viewControllers = below ++ v :: w :: above →
      v.screen.OpenedFrom w.screen) ∧
    ∀ b, a.step env .backPressed = some b → ∃ below v w,
      a.viewControllers = below ++ [v, w] ∧ b.viewControllers = below ++ [v] ∧
      a.topViewController = some w ∧ b.topViewController = some v ∧
      v.screen.OpenedFrom w.screen :=
  ⟨fun _ _ _ _ hstack => App.openedFrom_of_stack h hstack,
    fun _ hstep => App.uncovers_of_back h hstep⟩

/-- The only task of the first list, opened: its detail screen lies on the
    list. -/
theorem stack_is_path_detail :
    ∃ b model, App.firstList.step epochEnvironment (.infoPressed 0) = some b ∧
      (Screen.taskList model).OpenedFrom
        (.taskDetail (some (internalTaskData epochDates App.sampleTask))) := by
  have hstep : App.firstList.step epochEnvironment (.infoPressed 0) = some (App.firstList.jumpToScreen
      (.taskDetail (some (internalTaskData epochDates App.sampleTask)))) := rfl
  have hreach := System.Reachable.step App.reachable_firstList hstep
  exact ⟨_, _, hstep, (stack_is_path hreach).1
    [⟨0, .login, .login (LoginMainView.setData ⟨"a@b.c", "pw", false⟩)⟩] _ _ [] rfl⟩

end TimeManager
