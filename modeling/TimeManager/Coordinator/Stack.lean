import Mathlib.Data.List.Nodup
import TimeManager.Coordinator.Effects
import TimeManager.Framework.Lts

/-! # The Record and the Stack

    The coordinator keeps a record of the screens beside the stack of the
    navigation controller.  In every reachable state the record is what the
    stack was made from, and the bottom screen is the login screen, so that a
    back event always finds a screen below (`WellFormed`).

    The record and the stack only ever grow at the top, except for a back
    event, which removes the screen that raised it (`record_mirrors_stack`). -/

namespace TimeManager

open Lts

/-- The runs of the app from `start()`. -/
def appSystem (env : Environment) (userToken : Option String) : System App App.Event where
  init := fun a => a = App.start userToken
  step := fun a e b => a.step env e = some b

/-! ## Section 1: What a screen was made as -/

/-- What does not change about a view controller. -/
def ViewController.origin (v : ViewController) : Nat × AvailableScreens := (v.id, v.madeFrom)

/-- Login and list screens have no back button. -/
def AvailableScreens.isRoot : AvailableScreens → Bool
  | .login => true
  | .taskList _ => true
  | .taskDetail _ => false
  | .taskEdit _ => false

theorem ViewController.Matches.not_isRoot {v : ViewController} (h : v.Matches)
    (hscreen : (∃ data, v.screen = .taskDetail data) ∨ ∃ view, v.screen = .taskEdit view) :
    v.madeFrom.isRoot = false := by
  obtain ⟨id, madeFrom, screen⟩ := v
  rcases hscreen with ⟨data, rfl⟩ | ⟨view, rfl⟩
  · cases madeFrom <;> first | rfl | cases h
  · cases madeFrom <;> first | rfl | cases h

namespace App

variable {env : Environment} {a b : App}

/-- The invariant of the app: the record mirrors the stack, the bottom screen
    is the login screen, and identities are handed out in order. -/
structure WellFormed (a : App) : Prop where
  record : a.navigationScreens = a.viewControllers.map (·.madeFrom)
  kinds : ∀ v ∈ a.viewControllers, v.Matches
  bottom : ∃ v rest, a.viewControllers = v :: rest ∧ v.madeFrom = .login
  screenIds : (a.viewControllers.map (·.id)).Pairwise (· < ·)
  screenFresh : ∀ v ∈ a.viewControllers, v.id < a.nextScreen
  requestIds : (a.requests.map (·.id)).Pairwise (· < ·)
  requestFresh : ∀ p ∈ a.requests, p.id < a.nextRequest

/-- The identity determines the request. -/
theorem WellFormed.request_inj (h : WellFormed a) {p q : Pending} (hp : p ∈ a.requests)
    (hq : q ∈ a.requests) (hid : p.id = q.id) : p = q :=
  List.inj_on_of_nodup_map (h.requestIds.imp Nat.ne_of_lt) hp hq hid

/-- `b` has the screens of `a`, and maybe more on top of them. -/
structure Extends (a b : App) : Prop where
  record : a.navigationScreens <+: b.navigationScreens
  stack : a.viewControllers.map (·.origin) <+: b.viewControllers.map (·.origin)
  nextScreen : a.nextScreen ≤ b.nextScreen
  nextRequest : a.nextRequest ≤ b.nextRequest

theorem Extends.refl (a : App) : Extends a a :=
  ⟨List.prefix_refl _, List.prefix_refl _, Nat.le_refl _, Nat.le_refl _⟩

theorem Extends.trans {c : App} (h : Extends a b) (h' : Extends b c) : Extends a c :=
  ⟨h.record.trans h'.record, h.stack.trans h'.stack, Nat.le_trans h.nextScreen h'.nextScreen,
    Nat.le_trans h.nextRequest h'.nextRequest⟩

/-! ## Section 2: The parts of an effect -/

theorem pairwise_lt_append_singleton {ids : List Nat} {n : Nat} (h : ids.Pairwise (· < ·))
    (hn : ∀ i ∈ ids, i < n) : (ids ++ [n]).Pairwise (· < ·) := by
  rw [List.pairwise_append]
  refine ⟨h, List.pairwise_singleton _ _, ?_⟩
  intro i hi j hj
  rw [List.mem_singleton.mp hj]
  exact hn i hi

theorem WellFormed.send (h : WellFormed a) (call : Call) : WellFormed (a.send call) := by
  refine ⟨h.record, h.kinds, h.bottom, h.screenIds, h.screenFresh, ?_, ?_⟩
  · show ((a.requests ++ [_]).map Pending.id).Pairwise (· < ·)
    rw [List.map_append]
    apply pairwise_lt_append_singleton h.requestIds
    intro i hi
    obtain ⟨p, hp, rfl⟩ := List.mem_map.mp hi
    exact h.requestFresh p hp
  · intro p hp
    show p.id < a.nextRequest + 1
    rcases List.mem_append.mp hp with hp | hp
    · exact Nat.lt_succ_of_lt (h.requestFresh p hp)
    · rw [List.mem_singleton.mp hp]
      exact Nat.lt_succ_self _

theorem extends_send (a : App) (call : Call) : Extends a (a.send call) :=
  ⟨List.prefix_refl _, List.prefix_refl _, Nat.le_refl _, Nat.le_succ _⟩

theorem WellFormed.push (h : WellFormed a) {target : AvailableScreens} {screen : Screen}
    (hm : (ViewController.mk a.nextScreen target screen).Matches) :
    WellFormed (a.push target screen) := by
  refine ⟨?_, ?_, ?_, ?_, ?_, h.requestIds, h.requestFresh⟩
  · show a.navigationScreens ++ [target] = (a.viewControllers ++ [_]).map ViewController.madeFrom
    rw [h.record, List.map_append]
    rfl
  · intro v hv
    rcases List.mem_append.mp hv with hv | hv
    · exact h.kinds v hv
    · rw [List.mem_singleton.mp hv]
      exact hm
  · obtain ⟨v, rest, hv, hlogin⟩ := h.bottom
    refine ⟨v, rest ++ [⟨a.nextScreen, target, screen⟩], ?_, hlogin⟩
    show a.viewControllers ++ [_] = _
    rw [hv, List.cons_append]
  · show ((a.viewControllers ++ [_]).map ViewController.id).Pairwise (· < ·)
    rw [List.map_append]
    apply pairwise_lt_append_singleton h.screenIds
    intro i hi
    obtain ⟨v, hv, rfl⟩ := List.mem_map.mp hi
    exact h.screenFresh v hv
  · intro v hv
    show v.id < a.nextScreen + 1
    rcases List.mem_append.mp hv with hv | hv
    · exact Nat.lt_succ_of_lt (h.screenFresh v hv)
    · rw [List.mem_singleton.mp hv]
      exact Nat.lt_succ_self _

theorem extends_push (a : App) (target : AvailableScreens) (screen : Screen) :
    Extends a (a.push target screen) := by
  refine ⟨List.prefix_append _ _, ?_, Nat.le_succ _, Nat.le_refl _⟩
  show _ <+: (a.viewControllers ++ [_]).map ViewController.origin
  rw [List.map_append]
  exact List.prefix_append _ _

/-- A change of what a screen shows keeps its kind. -/
def KeepsKind (f : Screen → Screen) : Prop :=
  ∀ (v : ViewController), v.Matches → ViewController.Matches { v with screen := f v.screen }

theorem keepsKind_updateModel (f : TaskListModel → TaskListModel) :
    KeepsKind (Screen.updateModel f) := by
  intro ⟨id, madeFrom, screen⟩ h
  cases screen <;> cases madeFrom <;> exact h

theorem keepsKind_fillIn (data : LoginData) : KeepsKind (Screen.fillIn data) := by
  intro ⟨id, madeFrom, screen⟩ h
  cases screen <;> cases madeFrom <;> exact h

theorem keepsKind_act (action : FormAction) : KeepsKind (Screen.act action) := by
  intro ⟨id, madeFrom, screen⟩ h
  cases screen with
  | taskEdit view =>
    cases madeFrom with
    | taskEdit data =>
      show (view.act action).data = data
      rw [TaskEditMainView.act_data]
      exact h
    | _ => exact h
  | _ => cases madeFrom <;> exact h

@[simp] theorem update_origin (vc : Nat) (f : Screen → Screen) (v : ViewController) :
    (v.update vc f).origin = v.origin := by
  unfold ViewController.update
  split <;> rfl

@[simp] theorem update_id (vc : Nat) (f : Screen → Screen) (v : ViewController) :
    (v.update vc f).id = v.id :=
  congrArg Prod.fst (update_origin vc f v)

@[simp] theorem update_madeFrom (vc : Nat) (f : Screen → Screen) (v : ViewController) :
    (v.update vc f).madeFrom = v.madeFrom :=
  congrArg Prod.snd (update_origin vc f v)

/-- What is the same about each screen is the same about all of them. -/
theorem updateScreen_map {γ : Type} {vc : Nat} {f : Screen → Screen} {g : ViewController → γ}
    (hg : ∀ v, g (v.update vc f) = g v) :
    (a.updateScreen vc f).viewControllers.map g = a.viewControllers.map g := by
  show (a.viewControllers.map _).map g = _
  rw [List.map_map]
  exact List.map_congr_left fun v _ => hg v

theorem WellFormed.updateScreen (h : WellFormed a) (vc : Nat) {f : Screen → Screen}
    (hf : KeepsKind f) : WellFormed (a.updateScreen vc f) := by
  refine ⟨?_, ?_, ?_, ?_, ?_, h.requestIds, h.requestFresh⟩
  · rw [updateScreen_map (update_madeFrom vc f)]
    exact h.record
  · intro v hv
    obtain ⟨v', hv', rfl⟩ := List.mem_map.mp hv
    have hm := h.kinds v' hv'
    unfold ViewController.update
    split
    · exact hf v' hm
    · exact hm
  · obtain ⟨v, rest, hv, hlogin⟩ := h.bottom
    refine ⟨v.update vc f, rest.map (ViewController.update vc f), ?_, ?_⟩
    · show a.viewControllers.map _ = _
      rw [hv, List.map_cons]
    · rw [update_madeFrom, hlogin]
  · rw [updateScreen_map (update_id vc f)]
    exact h.screenIds
  · intro v hv
    obtain ⟨v', hv', rfl⟩ := List.mem_map.mp hv
    rw [update_id]
    exact h.screenFresh v' hv'

theorem extends_updateScreen (a : App) (vc : Nat) (f : Screen → Screen) :
    Extends a (a.updateScreen vc f) := by
  have hsame := @updateScreen_map a _ vc f _ (update_origin vc f)
  exact ⟨List.prefix_refl _, hsame ▸ List.prefix_refl _, Nat.le_refl _, Nat.le_refl _⟩

theorem WellFormed.jumpToScreen (h : WellFormed a) (target : AvailableScreens) :
    WellFormed (a.jumpToScreen target) := by
  rcases a.jumpToScreen_cases target with ⟨screen, hm, _, heq⟩ | ⟨list, rfl, heq⟩
  · rw [heq]
    exact h.push hm
  · rw [heq]
    exact (h.send _).push trivial

theorem extends_jumpToScreen (a : App) (target : AvailableScreens) :
    Extends a (a.jumpToScreen target) := by
  rcases a.jumpToScreen_cases target with ⟨screen, _, _, heq⟩ | ⟨list, _, heq⟩
  · rw [heq]
    exact extends_push _ _ _
  · rw [heq]
    exact (extends_send _ _).trans (extends_push _ _ _)

/-- Growing keeps the invariant. -/
theorem Grows.wellFormed (h : Grows a b) (ha : WellFormed a) : WellFormed b := by
  induction h with
  | refl => exact ha
  | jump target _ ih => exact ih.jumpToScreen target
  | alert shown _ ih =>
    exact ⟨ih.record, ih.kinds, ih.bottom, ih.screenIds, ih.screenFresh, ih.requestIds,
      ih.requestFresh⟩

/-- Growing removes nothing. -/
theorem Grows.extends (h : Grows a b) : Extends a b := by
  induction h with
  | refl => exact .refl a
  | jump target _ ih => exact ih.trans (extends_jumpToScreen _ target)
  | alert shown _ ih => exact ⟨ih.record, ih.stack, ih.nextScreen, ih.nextRequest⟩

theorem WellFormed.dropRequest (h : WellFormed a) (id : Nat) : WellFormed (a.dropRequest id) := by
  refine ⟨h.record, h.kinds, h.bottom, h.screenIds, h.screenFresh, ?_, ?_⟩
  · exact h.requestIds.sublist (List.filter_sublist.map _)
  · intro q hq
    exact h.requestFresh q (List.mem_filter.mp hq).1

theorem WellFormed.answered (h : WellFormed a) (env : Environment) (p : Pending)
    (body : Option (List UInt8)) : WellFormed (a.answered env p body) := by
  have hdrop := h.dropRequest p.id
  exact ⟨hdrop.record, hdrop.kinds, hdrop.bottom, hdrop.screenIds, hdrop.screenFresh,
    hdrop.requestIds, hdrop.requestFresh⟩

theorem extends_answered (env : Environment) (a : App) (p : Pending)
    (body : Option (List UInt8)) : Extends a (a.answered env p body) :=
  ⟨List.prefix_refl _, List.prefix_refl _, Nat.le_refl _, Nat.le_refl _⟩

/-! ## Section 3: The back event -/

/-- The top screen and those below it. -/
theorem viewControllers_of_top {v : ViewController} (h : a.topViewController = some v) :
    a.viewControllers = a.viewControllers.dropLast ++ [v] := by
  obtain ⟨below, hbelow⟩ := List.getLast?_eq_some_iff.mp h
  rw [hbelow, List.dropLast_concat]

/-- A detail or edit screen is not the only screen, so going back removes it. -/
theorem back_eq {v : ViewController} (h : WellFormed a) (htop : a.topViewController = some v)
    (hroot : v.madeFrom.isRoot = false) :
    a.back = { a with
      navigationScreens := a.navigationScreens.dropLast
      viewControllers := a.viewControllers.dropLast } := by
  obtain ⟨v₀, rest, hv₀, hlogin⟩ := h.bottom
  have hlen : ¬ a.viewControllers.length ≤ 1 := by
    intro hle
    -- the only screen would be the login screen
    rw [hv₀, List.length_cons] at hle
    have hrest : rest = [] := List.length_eq_zero_iff.mp (by omega)
    rw [topViewController, hv₀, hrest] at htop
    have hv : v₀ = v := Option.some.inj htop
    rw [← hv, hlogin] at hroot
    cases hroot
  show (if a.viewControllers.length ≤ 1 then _ else _) = _
  rw [if_neg hlen]

theorem navigationScreens_of_top {v : ViewController} (h : WellFormed a)
    (htop : a.topViewController = some v) :
    a.navigationScreens = a.navigationScreens.dropLast ++ [v.madeFrom] := by
  have hvs := viewControllers_of_top htop
  rw [h.record, hvs]
  simp

theorem WellFormed.back {v : ViewController} (h : WellFormed a)
    (htop : a.topViewController = some v) (hroot : v.madeFrom.isRoot = false) :
    WellFormed a.back := by
  have hsub : a.viewControllers.dropLast.Sublist a.viewControllers := List.dropLast_sublist _
  rw [back_eq h htop hroot]
  refine ⟨?_, ?_, ?_, ?_, ?_, h.requestIds, h.requestFresh⟩
  · show a.navigationScreens.dropLast = a.viewControllers.dropLast.map _
    rw [h.record, List.map_dropLast]
  · intro w hw
    exact h.kinds w (hsub.subset hw)
  · obtain ⟨v₀, rest, hv₀, hlogin⟩ := h.bottom
    -- something is below the top screen, as the bottom one is the login screen
    cases rest with
    | nil =>
      rw [topViewController, hv₀] at htop
      have hv : v₀ = v := Option.some.inj htop
      rw [← hv, hlogin] at hroot
      cases hroot
    | cons w rest =>
      refine ⟨v₀, (w :: rest).dropLast, ?_, hlogin⟩
      show a.viewControllers.dropLast = _
      rw [hv₀]
      rfl
  · exact h.screenIds.sublist (hsub.map _)
  · intro w hw
    exact h.screenFresh w (hsub.subset hw)

/-! ## Section 4: Runs -/

theorem wellFormed_start (userToken : Option String) : WellFormed (App.start userToken) := by
  refine ⟨rfl, ?_, ⟨_, [], rfl, rfl⟩, List.pairwise_singleton _ _, ?_, .nil, ?_⟩
  · intro v hv
    rw [List.mem_singleton.mp hv]
    trivial
  · intro v hv
    rw [List.mem_singleton.mp hv]
    exact Nat.zero_lt_one
  · intro p hp
    cases hp

/-- The top screen of a back event has no root kind. -/
theorem WellFormed.top_not_isRoot {v : ViewController} (h : WellFormed a)
    (htop : a.topViewController = some v)
    (hscreen : (∃ data, v.screen = .taskDetail data) ∨ ∃ view, v.screen = .taskEdit view) :
    v.madeFrom.isRoot = false :=
  (h.kinds v (List.mem_of_getLast? htop)).not_isRoot hscreen

/-- **Step lemma**: an event keeps the invariant. -/
theorem WellFormed.step {e : Event} (h : WellFormed a) (hstep : a.step env e = some b) :
    WellFormed b := by
  cases step_effect hstep with
  | grows _ hgrows => exact hgrows.wellFormed h
  | typed _ => exact h.updateScreen _ (keepsKind_fillIn _)
  | login _ => exact (h.updateScreen _ (keepsKind_fillIn _)).send _
  | more _ _ _ _ => exact h.send _
  | delete _ => exact h.send _
  | save _ _ _ =>
    unfold saveTask
    split <;> exact h.send _
  | form _ _ => exact h.updateScreen _ (keepsKind_act _)
  | back htop hscreen => exact h.back htop (h.top_not_isRoot htop hscreen)
  | deliver _ _ hgrows => exact hgrows.wellFormed (h.answered env _ _)
  | load _ _ _ _ => exact (h.answered env _ _).updateScreen _ (keepsKind_updateModel _)
  | session _ _ _ _ => exact (h.answered env _ _).send _

/-- Every event but a back event removes nothing. -/
theorem step_extends {e : Event} (hstep : a.step env e = some b) (hback : e ≠ .backPressed) :
    Extends a b := by
  cases step_effect hstep with
  | grows _ hgrows => exact hgrows.extends
  | typed _ => exact extends_updateScreen _ _ _
  | login _ => exact (extends_updateScreen a _ _).trans (extends_send _ _)
  | more _ _ _ _ => exact extends_send _ _
  | delete _ => exact extends_send _ _
  | save _ _ _ =>
    unfold saveTask
    split <;> exact extends_send _ _
  | form _ _ => exact extends_updateScreen _ _ _
  | back _ _ => exact absurd rfl hback
  | deliver _ _ hgrows => exact (extends_answered env a _ _).trans hgrows.extends
  | load _ _ _ _ => exact (extends_answered env a _ _).trans (extends_updateScreen _ _ _)
  | session _ _ _ _ => exact (extends_answered env a _ _).trans (extends_send _ _)

/-- A back event removes the screen that raised it, and nothing else changes. -/
theorem step_back (h : WellFormed a) (hstep : a.step env .backPressed = some b) :
    ∃ v, a.topViewController = some v ∧ v.madeFrom.isRoot = false ∧
      b = { a with
        navigationScreens := a.navigationScreens.dropLast
        viewControllers := a.viewControllers.dropLast } := by
  cases step_effect hstep with
  | grows hminor _ => cases hminor
  | back htop hscreen =>
    have hroot := h.top_not_isRoot htop hscreen
    exact ⟨_, htop, hroot, back_eq h htop hroot⟩

/-- Identities are never handed out again. -/
theorem step_next {e : Event} (h : WellFormed a) (hstep : a.step env e = some b) :
    a.nextScreen ≤ b.nextScreen ∧ a.nextRequest ≤ b.nextRequest := by
  by_cases hback : e = .backPressed
  · subst hback
    obtain ⟨v, _, _, rfl⟩ := step_back h hstep
    exact ⟨Nat.le_refl _, Nat.le_refl _⟩
  · have hext := step_extends hstep hback
    exact ⟨hext.nextScreen, hext.nextRequest⟩

/-- A request that waits after an event waited before it, or is new. -/
theorem step_requests {e : Event} (hstep : a.step env e = some b) {p : Pending}
    (hp : p ∈ b.requests) : p ∈ a.requests ∨ a.nextRequest ≤ p.id := by
  -- the request of a tap is the last one
  have hsend : ∀ call, p ∈ (a.send call).requests → p ∈ a.requests ∨ a.nextRequest ≤ p.id := by
    intro call hp
    rcases List.mem_append.mp hp with hp | hp
    · exact .inl hp
    · rw [List.mem_singleton.mp hp]
      exact .inr (Nat.le_refl _)
  cases step_effect hstep with
  | grows _ hgrows => exact (hgrows.requests hp).imp id And.left
  | typed _ => exact .inl hp
  | login _ => exact hsend _ hp
  | more _ _ _ _ => exact hsend _ hp
  | delete _ => exact hsend _ hp
  | save _ _ _ =>
    unfold saveTask at hp
    split at hp
    · exact hsend _ hp
    · exact hsend _ hp
  | form _ _ => exact .inl hp
  | back _ _ =>
    unfold back popViewController at hp
    split at hp
    · exact .inl hp
    · exact .inl hp
  | deliver _ _ hgrows =>
    rcases hgrows.requests hp with hold | ⟨hnew, _⟩
    · exact .inl (List.mem_filter.mp hold).1
    · exact .inr hnew
  | load _ _ _ _ => exact .inl (List.mem_filter.mp hp).1
  | session _ _ _ _ =>
    rcases List.mem_append.mp hp with hp | hp
    · exact .inl (List.mem_filter.mp hp).1
    · rw [List.mem_singleton.mp hp]
      exact .inr (Nat.le_refl _)

theorem wellFormed_of_reachable {userToken : Option String}
    (h : (appSystem env userToken).Reachable a) : WellFormed a := by
  apply h.invariant
  · intro s hs
    have hs : s = App.start userToken := hs
    rw [hs]
    exact wellFormed_start userToken
  · intro s e s' _ hwf hstep
    exact hwf.step hstep

/-- Where a run of events leads is reachable. -/
theorem reachable_of_run {userToken : Option String} {es : List Event}
    (ha : (appSystem env userToken).Reachable a) (h : a.run env es = some b) :
    (appSystem env userToken).Reachable b :=
  ha.of_foldlM (fun _ _ _ hstep => hstep) h

/-! ### A run to the first list -/

def sampleTask : TaskData := ⟨7, "call", 0, .low⟩

/-- A login, the coordinator's list, and the first page of the list screen. -/
def toFirstList : List Event :=
  [.logInPressed ⟨"a@b.c", "pw", false⟩,
    .deliver 0 (utf8 "\x7b\"token\":\"t\"\x7d"),
    .deliver 1 (utf8
      "\x7b\"tasks\":[],\"meta\":\x7b\"current\":1,\"limit\":15,\"count\":0\x7d\x7d"),
    .deliver 2 (utf8 ("\x7b\"tasks\":[\x7b\"id\":7,\"title\":\"call\",\"dueBy\":0,\"priority\":\"Low\"\x7d]," ++
      "\"meta\":\x7b\"current\":1,\"limit\":15,\"count\":1\x7d\x7d"))]

/-- Where `toFirstList` leads. -/
def firstList : App where
  navigationScreens := [.login, .taskList (some ⟨some [], some ⟨1, 15, 0⟩, none⟩)]
  viewControllers :=
    [⟨0, .login, .login (LoginMainView.setData ⟨"a@b.c", "pw", false⟩)⟩,
      ⟨1, .taskList (some ⟨some [], some ⟨1, 15, 0⟩, none⟩), .taskList
        { data := [internalTaskData epochDates sampleTask], page := 1, totalCounts := 1, limit := 15 }⟩]
  userToken := some "t"
  requests := []
  presented := []
  nextScreen := 2
  nextRequest := 3

theorem run_toFirstList :
    (App.start none).run epochEnvironment toFirstList = some firstList := by
  decide +kernel

theorem reachable_firstList : (appSystem epochEnvironment none).Reachable firstList :=
  reachable_of_run (.init rfl) run_toFirstList

/-- The screens without a back button stay on the record and on the stack, and
    so do those of any one kind of them. -/
theorem step_keeps {e : Event} (h : WellFormed a) (hstep : a.step env e = some b)
    {kind : AvailableScreens → Bool} (hkind : ∀ s, kind s → s.isRoot) :
    a.navigationScreens.filter kind <+: b.navigationScreens.filter kind ∧
    (a.viewControllers.map (·.origin)).filter (fun o => kind o.2) <+:
      (b.viewControllers.map (·.origin)).filter fun o => kind o.2 := by
  -- only a back event removes a screen, and none without a back button
  by_cases hback : e = .backPressed
  · subst hback
    obtain ⟨v, htop, hroot, rfl⟩ := step_back h hstep
    -- the screen that is removed is not of the kind
    have hno : kind v.madeFrom = false := by
      cases hk : kind v.madeFrom with
      | false => rfl
      | true =>
        rw [hkind _ hk] at hroot
        cases hroot
    constructor
    · rw [navigationScreens_of_top h htop, List.filter_append]
      simp [hno]
    · rw [viewControllers_of_top htop, List.map_append, List.filter_append]
      simp [ViewController.origin, hno]
  · have hext := step_extends hstep hback
    exact ⟨hext.record.filter _, hext.stack.filter _⟩

end App

/-- **The record mirrors the stack.**  In every reachable state the record
    and the stack have the same screens, position by position, and the login
    screen is at the bottom.  A back event removes from both the detail or
    edit screen that raised it, every other event only adds to them, and no
    login or list screen is ever removed. -/
theorem record_mirrors_stack {env : Environment} {userToken : Option String} {a : App}
    (h : (appSystem env userToken).Reachable a) :
    a.navigationScreens = a.viewControllers.map (·.madeFrom) ∧
    (∀ v ∈ a.viewControllers, v.Matches) ∧
    (∃ view, (a.viewControllers.head?.map fun v => (v.madeFrom, v.screen)) =
      some (.login, .login view)) ∧
    ∀ e b, a.step env e = some b →
      (e = .backPressed → ∃ v, a.topViewController = some v ∧ v.madeFrom.isRoot = false ∧
        a.viewControllers = b.viewControllers ++ [v] ∧
        a.navigationScreens = b.navigationScreens ++ [v.madeFrom]) ∧
      (e ≠ .backPressed → a.navigationScreens <+: b.navigationScreens ∧
        a.viewControllers.map (·.origin) <+: b.viewControllers.map (·.origin)) ∧
      a.navigationScreens.filter AvailableScreens.isRoot <+:
        b.navigationScreens.filter AvailableScreens.isRoot ∧
      (a.viewControllers.map (·.origin)).filter (fun o => o.2.isRoot) <+:
        (b.viewControllers.map (·.origin)).filter fun o => o.2.isRoot := by
  have hwf := App.wellFormed_of_reachable h
  refine ⟨hwf.record, hwf.kinds, ?_, ?_⟩
  · -- the bottom screen was made as a login screen, and shows one
    obtain ⟨v, rest, hv, hlogin⟩ := hwf.bottom
    have hm := hwf.kinds v (by rw [hv]; exact List.mem_cons_self)
    rw [hv]
    obtain ⟨id, madeFrom, screen⟩ := v
    obtain rfl : madeFrom = .login := hlogin
    cases screen with
    | login view => exact ⟨view, rfl⟩
    | _ => cases hm
  · intro e b hstep
    refine ⟨?_, ?_, App.step_keeps hwf hstep fun _ h => h⟩
    · intro he
      subst he
      obtain ⟨v, htop, hroot, rfl⟩ := App.step_back hwf hstep
      exact ⟨v, htop, hroot, App.viewControllers_of_top htop,
        App.navigationScreens_of_top hwf htop⟩
    · intro hback
      have hext := App.step_extends hstep hback
      exact ⟨hext.record, hext.stack⟩

/-- Going back from an edit screen for a new task leaves the login and the
    list screen. -/
theorem record_mirrors_stack_back :
    ∃ v, v.madeFrom = .taskEdit none ∧
      ((App.firstList.jumpToScreen (.taskEdit none)).viewControllers =
        App.firstList.viewControllers ++ [v]) ∧
      ((App.firstList.jumpToScreen (.taskEdit none)).navigationScreens =
        App.firstList.navigationScreens ++ [v.madeFrom]) := by
  have hadd : App.firstList.step epochEnvironment .addTaskButtonPressed =
      some (App.firstList.jumpToScreen (.taskEdit none)) := rfl
  have hedit : (appSystem epochEnvironment none).Reachable
      (App.firstList.jumpToScreen (.taskEdit none)) := .step App.reachable_firstList hadd
  have hback : (App.firstList.jumpToScreen (.taskEdit none)).step epochEnvironment .backPressed =
      some (App.firstList.jumpToScreen (.taskEdit none)).back := rfl
  obtain ⟨v, htop, _, hstack, hrecord⟩ :=
    ((record_mirrors_stack hedit).2.2.2 _ _ hback).1 rfl
  have hv : _ = v := Option.some.inj htop
  exact ⟨v, hv ▸ rfl, hstack, hrecord⟩

end TimeManager
