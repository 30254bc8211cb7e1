import TimeManager.Coordinator.Changes
import TimeManager.Coordinator.Editing

/-! # What an Edit Form Shows

    A form may lie on the stack for a long time, below screens that are opened
    by late responses, and other forms may be filled in meanwhile.  It shows
    what it was opened with and what was done to it while it was on top, and
    nothing else (`forms_of_trace`). -/

namespace TimeManager

open Lts

/-- The screen shows what it was opened with and these actions, if it is a form. -/
def ViewController.ShowsForm (v : ViewController) (actions : List FormAction) : Prop :=
  ∀ data, v.madeFrom = .taskEdit data →
    v.screen = .taskEdit (actions.foldl TaskEditMainView.act (TaskEditMainView.setData data))

namespace App

/-! ## Section 1: What was done to a form -/

/-- The form action of a step, if the screen `vc` is on top. -/
def actionOn (vc : Nat) : App × Event → Option FormAction
  | (a, .form action) => (a.topViewController.filter fun v => v.id = vc).map fun _ => action
  | _ => none

/-- The actions on the form of the screen `vc` in a run, in their order. -/
def formActions (vc : Nat) (tr : List (App × Event)) : List FormAction :=
  tr.reverse.filterMap (actionOn vc)

variable {env : Environment} {a b : App} {tr : List (App × Event)}

theorem formActions_cons (vc : Nat) (x : App × Event) (tr : List (App × Event)) :
    formActions vc (x :: tr) = formActions vc tr ++ (actionOn vc x).toList := by
  unfold formActions
  rw [List.reverse_cons, List.filterMap_append]
  cases hx : actionOn vc x <;> simp [hx]

theorem actionOn_eq_none {e : Event} (h : ∀ action, e ≠ .form action) (vc : Nat) :
    actionOn vc (a, e) = none := by
  cases e with
  | form action => exact absurd rfl (h action)
  | _ => rfl

theorem actionOn_form {v : ViewController} (htop : a.topViewController = some v)
    (action : FormAction) (vc : Nat) :
    actionOn vc (a, .form action) = if v.id = vc then some action else none := by
  show (a.topViewController.filter fun v => v.id = vc).map (fun _ => action) = _
  rw [htop]
  by_cases hid : v.id = vc <;> simp [Option.filter, hid]

/-! ## Section 2: Steps -/

/-- A form action is one on the top screen. -/
theorem step_form {action : FormAction} (hstep : a.step env (.form action) = some b) :
    ∃ v view, a.topViewController = some v ∧ v.screen = .taskEdit view ∧
      b = a.updateScreen v.id (Screen.act action) := by
  simp only [step] at hstep
  split at hstep
  · next v htop =>
    cases hscreen : v.screen with
    | taskEdit view =>
      rw [hscreen] at hstep
      exact ⟨v, view, htop, hscreen, (Option.some.inj hstep).symm⟩
    | _ =>
      rw [hscreen] at hstep
      cases hstep
  · cases hstep

/-- A change of other screens changes no form. -/
theorem mem_of_updateScreen (hwf : WellFormed a) {vc : Nat} {f : Screen → Screen}
    (hf : ∀ view, f (.taskEdit view) = .taskEdit view) {v : ViewController}
    (hv : v ∈ (a.updateScreen vc f).viewControllers) {data : Option InternalTaskData}
    (hmade : v.madeFrom = .taskEdit data) : v ∈ a.viewControllers := by
  obtain ⟨w, hw, rfl⟩ := List.mem_map.mp hv
  rw [update_madeFrom] at hmade
  have hkind := hwf.kinds w hw
  have hsame : w.update vc f = w := by
    obtain ⟨id, madeFrom, screen⟩ := w
    obtain rfl : madeFrom = .taskEdit data := hmade
    unfold ViewController.update
    cases screen with
    | taskEdit view => simp [hf]
    | _ => cases hkind
  rw [hsame]
  exact hw

/-- Any other event leaves the forms alone, and a form that it opens shows
    what it was opened with. -/
theorem step_stack {e : Event} (hwf : WellFormed a) (hstep : a.step env e = some b)
    (hform : ∀ action, e ≠ .form action) {v : ViewController} (hv : v ∈ b.viewControllers)
    {data : Option InternalTaskData} (hmade : v.madeFrom = .taskEdit data) :
    v ∈ a.viewControllers ∨
      v.id = a.nextScreen ∧ v.screen = .taskEdit (TaskEditMainView.setData data) := by
  cases step_change hstep with
  | typed _ _ => exact .inl (mem_of_updateScreen hwf (fun _ => rfl) hv hmade)
  | @login user w _ _ _ =>
    have hv : v ∈ (a.updateScreen w.id (Screen.fillIn user)).viewControllers := hv
    exact .inl (mem_of_updateScreen hwf (fun _ => rfl) hv hmade)
  | @opens e w target _ _ =>
    rw [stack_jumpToScreen] at hv
    rcases List.mem_append.mp hv with hv | hv
    · exact .inl hv
    · obtain rfl := List.mem_singleton.mp hv
      obtain rfl : target = .taskEdit data := hmade
      exact .inr ⟨rfl, rfl⟩
  | back _ _ =>
    unfold back popViewController at hv
    split at hv
    · exact .inl hv
    · exact .inl (List.dropLast_subset _ hv)
  | unsaved =>
    unfold presentAlert at hv
    split at hv
    · exact .inl hv
    · exact .inl hv
  | delete _ _ => exact .inl hv
  | @form action _ _ _ _ => exact absurd rfl (hform action)
  | save _ _ _ =>
    unfold saveTask at hv
    split at hv
    · exact .inl hv
    · exact .inl hv
  | idle => exact .inl hv
  | @display _ _ _ _ request _ _ _ =>
    cases request with
    | none => exact .inl hv
    | some r => exact .inl hv
  | deliver _ hopens =>
    obtain ⟨lists, hstack, hlists⟩ := hopens.stack
    rw [hstack] at hv
    rcases List.mem_append.mp hv with hv | hv
    · exact .inl hv
    · -- only list screens are opened
      obtain ⟨list, hlist, -⟩ := hlists v hv
      rw [hlist] at hmade
      cases hmade
  | @load _ body p _ _ vc list _ _ _ _ =>
    have hv : v ∈ (a.updateScreen vc
        (Screen.updateModel (·.successAll env.dates list))).viewControllers := hv
    exact .inl (mem_of_updateScreen hwf (fun _ => rfl) hv hmade)
  | session _ _ => exact .inl hv

/-- The invariant of the forms: they show what was done to them, and nothing
    was done to a screen that is not there yet. -/
structure FormsShow (tr : List (App × Event)) (a : App) : Prop where
  forms : ∀ v ∈ a.viewControllers, v.ShowsForm (formActions v.id tr)
  fresh : ∀ vc, a.nextScreen ≤ vc → formActions vc tr = []

/-- **Step lemma** for form actions. -/
theorem FormsShow.form (h : FormsShow tr a) (hwf : WellFormed a) {action : FormAction}
    (hstep : a.step env (.form action) = some b) : FormsShow ((a, .form action) :: tr) b := by
  obtain ⟨v, view, htop, -, rfl⟩ := step_form hstep
  constructor
  · intro w hw data hmade
    obtain ⟨u, hu, rfl⟩ := List.mem_map.mp hw
    rw [update_madeFrom] at hmade
    have hshows := h.forms u hu data hmade
    rw [update_id, formActions_cons, actionOn_form htop, ViewController.update]
    by_cases hid : u.id = v.id
    · -- the form on top
      rw [if_pos hid, if_pos hid.symm, Option.toList_some, List.foldl_concat]
      show Screen.act action u.screen = _
      rw [hshows]
      rfl
    · rw [if_neg hid, if_neg (Ne.symm hid), Option.toList_none, List.append_nil]
      exact hshows
  · intro vc hvc
    have hlt := hwf.screenFresh v (List.mem_of_getLast? htop)
    have hne : v.id ≠ vc := Nat.ne_of_lt (Nat.lt_of_lt_of_le hlt hvc)
    rw [formActions_cons, h.fresh vc hvc, actionOn_form htop, if_neg hne]
    rfl

/-- **Step lemma**. -/
theorem FormsShow.step {e : Event} (h : FormsShow tr a) (hwf : WellFormed a)
    (hstep : a.step env e = some b) : FormsShow ((a, e) :: tr) b := by
  by_cases hform : ∃ action, e = .form action
  · obtain ⟨action, rfl⟩ := hform
    exact h.form hwf hstep
  · have hother : ∀ action, e ≠ .form action := fun action heq => hform ⟨action, heq⟩
    have hsame : ∀ vc, formActions vc ((a, e) :: tr) = formActions vc tr := by
      intro vc
      rw [formActions_cons, actionOn_eq_none hother]
      exact List.append_nil _
    constructor
    · intro v hv data hmade
      rw [hsame]
      rcases step_stack hwf hstep hother hv hmade with hold | ⟨hid, hscreen⟩
      · exact h.forms v hold data hmade
      · rw [h.fresh v.id (Nat.le_of_eq hid.symm)]
        exact hscreen
    · intro vc hvc
      rw [hsame]
      exact h.fresh vc (Nat.le_trans (step_next hwf hstep).1 hvc)

/-- **Run lemma**: in every run the forms show what was done to them. -/
theorem forms_of_trace {userToken : Option String} (h : (appSystem env userToken).Trace tr a) :
    FormsShow tr a := by
  apply h.invariant
  · intro s hs
    have hs : s = App.start userToken := hs
    rw [hs]
    constructor
    · intro v hv data hmade
      obtain rfl := List.mem_singleton.mp hv
      cases hmade
    · intro vc _
      rfl
  · intro tr s e s' hreach hforms hstep
    exact hforms.step (wellFormed_of_reachable hreach) hstep

end App

end TimeManager
