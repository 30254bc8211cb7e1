import TimeManager.Writes.World

/-! # Creating a Task

    An edit screen that was opened for a new task keeps nothing about its
    Saves: each of them sends a create.  So the server can create a task for
    each Save, and at most one task exactly in the runs in which every Save
    comes after the server has refused all earlier ones
    (`created_once_iff`). -/

namespace TimeManager

open Lts Ledger

/-- Whether the call is a create of the screen `vc`. -/
def Call.creates (vc : Nat) : Call → Bool
  | .createTask _ starter => starter = vc
  | _ => false

/-! ## Section 1: Saves that send a create -/

namespace App

variable {env : Environment} {a b : App}

/-- The edit screen whose Save sends a create. -/
def creator (a : App) : Event → Option Nat
  | .saveEventPressed now =>
    match a.topViewController with
    | some ⟨vc, _, .taskEdit view⟩ =>
      (view.saveEventPressed now).bind fun task => if task.id < 0 then some vc else none
    | _ => none
  | _ => none

/-- On a screen for a new task every Save with a title sends a create. -/
theorem creator_of_new (h : WellFormed a) {v : ViewController} {view : TaskEditMainView}
    (htop : a.topViewController = some v) (hnew : v.madeFrom = .taskEdit none)
    (hscreen : v.screen = .taskEdit view) (now : Int) :
    a.creator (.saveEventPressed now) = if view.titleText ≠ "" then some v.id else none := by
  have hm := h.kinds v (List.mem_of_getLast? htop)
  obtain ⟨vc, madeFrom, screen⟩ := v
  obtain rfl : madeFrom = .taskEdit none := hnew
  obtain rfl : screen = .taskEdit view := hscreen
  have hdata : view.data = none := hm
  simp only [creator, htop, TaskEditMainView.saveEventPressed, hdata]
  by_cases htitle : view.titleText ≠ ""
  · rw [if_pos htitle, if_pos htitle]
    rfl
  · rw [if_neg htitle, if_neg htitle]
    rfl

/-- Everything a Save does. -/
theorem step_saveEventPressed {now : Int} (h : a.step env (.saveEventPressed now) = some b) :
    ∃ vc madeFrom view, a.topViewController = some ⟨vc, madeFrom, .taskEdit view⟩ ∧
      b = (view.saveEventPressed now).elim a (a.saveTask vc) := by
  simp only [step] at h
  cases htop : a.topViewController with
  | none =>
    rw [htop] at h
    cases h
  | some v =>
    rw [htop] at h
    obtain ⟨vc, madeFrom, screen⟩ := v
    cases screen with
    | taskEdit view =>
      refine ⟨vc, madeFrom, view, rfl, ?_⟩
      simp only [tap] at h
      cases htask : view.saveEventPressed now with
      | none =>
        rw [htask] at h
        exact (Option.some.inj h).symm
      | some task =>
        rw [htask] at h
        exact (Option.some.inj h).symm
    | _ => cases h

end App

namespace World

variable {env : Environment} {a b : App} {w w' : World} {vc : Nat}

/-- A call that is sent is among the sent writes if it is one. -/
theorem sentWrites_send (h : a.WellFormed) (call : Call) :
    sentWrites a (a.send call) =
      if call.writer.isSome then [⟨a.nextRequest, call, .waiting⟩] else [] := by
  have hold : (a.requests.filter fun p => a.nextRequest ≤ p.id ∧ p.call.writer.isSome) = [] := by
    rw [List.filter_eq_nil_iff]
    intro p hp hnew
    have hlt := h.requestFresh p hp
    have hle := (of_decide_eq_true hnew).1
    omega
  show ((a.requests ++ [_]).filter _).map _ = _
  rw [List.filter_append, hold, List.nil_append]
  by_cases hwriter : call.writer.isSome
  · simp [hwriter]
  · simp [hwriter]

/-- No other event sends a create. -/
theorem not_creates {e : App.Event} (h : a.WellFormed) (hstep : a.step env e = some b)
    (he : ∀ now, e ≠ .saveEventPressed now) {wr : Entry Call Nat}
    (hwr : wr ∈ sentWrites a b) : wr.item.creates vc = false := by
  obtain ⟨p, hp, hnew, rfl⟩ := mem_sentWrites hwr
  show p.call.creates vc = false
  have hold : p ∉ a.requests := by
    intro hmem
    have hlt := h.requestFresh p hmem
    omega
  have hsend : ∀ {c call}, (∀ q ∈ c.requests, q ∈ a.requests) →
      p ∈ (App.send c call).requests → p.call = call := by
    intro c call hsub hp
    rcases List.mem_append.mp hp with hp | hp
    · exact absurd (hsub p hp) hold
    · rw [List.mem_singleton.mp hp]
  have hgrow : ∀ {c}, (∀ q ∈ c.requests, q ∈ a.requests) → App.Grows c b →
      p.call.creates vc = false := by
    intro c hsub hgrows
    rcases hgrows.requests hp with hmem | ⟨_, request, starter, hcall⟩
    · exact absurd (hsub p hmem) hold
    · rw [hcall]
      rfl
  cases App.step_effect hstep with
  | grows _ hgrows => exact hgrow (fun _ hq => hq) hgrows
  | typed _ => exact absurd hp hold
  | login _ =>
    rw [hsend (fun _ hq => hq) hp]
    rfl
  | more _ _ _ _ =>
    rw [hsend (fun _ hq => hq) hp]
    rfl
  | delete _ =>
    rw [hsend (fun _ hq => hq) hp]
    rfl
  | save _ _ _ => exact absurd rfl (he _)
  | form _ _ => exact absurd hp hold
  | back _ _ =>
    unfold App.back App.popViewController at hp
    split at hp
    · exact absurd hp hold
    · exact absurd hp hold
  | deliver _ _ hgrows => exact hgrow (fun _ hq => (List.mem_filter.mp hq).1) hgrows
  | load _ _ _ _ => exact absurd (List.mem_filter.mp hp).1 hold
  | session _ _ _ _ =>
    rw [hsend (fun _ hq => (List.mem_filter.mp hq).1) hp]
    rfl

/-- **Step lemma**: an event adds one create of the screen `vc` exactly if it
    is a Save of it that sends one. -/
theorem possible_sentWrites {e : App.Event} (h : a.WellFormed) (hstep : a.step env e = some b) :
    possible (Call.creates vc) (sentWrites a b) = if a.creator e = some vc then 1 else 0 := by
  -- only a Save can send a create
  by_cases hsave : ∃ now, e = .saveEventPressed now
  · obtain ⟨now, rfl⟩ := hsave
    obtain ⟨starter, madeFrom, view, htop, rfl⟩ := App.step_saveEventPressed hstep
    simp only [App.creator, htop]
    cases htask : view.saveEventPressed now with
    -- without a title nothing is sent
    | none =>
      show possible _ (sentWrites a a) = 0
      rw [possible_eq_zero_iff]
      intro wr hwr
      obtain ⟨p, hp, hnew, _⟩ := mem_sentWrites hwr
      have hlt := h.requestFresh p hp
      omega
    | some task =>
      show possible _ (sentWrites a (a.saveTask starter task)) =
        if (if task.id < 0 then some starter else none) = some vc then 1 else 0
      by_cases hid : task.id < 0
      · -- a create, of the screen that is on top
        have hsend : a.saveTask starter task = a.send (.createTask task starter) := if_pos hid
        rw [hsend, sentWrites_send h, if_pos hid]
        by_cases hvc : starter = vc
        · simp [possible, Call.writer, Call.creates, Verdict.isRefused, hvc]
        · simp [possible, Call.writer, Call.creates, hvc]
      · -- an update
        have hsend : a.saveTask starter task = a.send (.updateTask task starter) := if_neg hid
        rw [hsend, sentWrites_send h, if_neg hid]
        simp [possible, Call.writer, Call.creates]
  · have hcreator : a.creator e = none := by
      cases e with
      | saveEventPressed now => exact absurd ⟨now, rfl⟩ hsave
      | _ => rfl
    have hother : ∀ now, e ≠ .saveEventPressed now := fun now he => hsave ⟨now, he⟩
    rw [hcreator, if_neg (by simp), possible_eq_zero_iff]
    intro wr hwr hcreates
    rw [not_creates h hstep hother hwr] at hcreates
    cases hcreates

/-! ## Section 2: How many tasks are created -/

/-- The tasks that the server has created from the screen `vc`. -/
def created (vc : Nat) (w : World) : Nat := accepted (Call.creates vc) w.writes

/-- Whether a step is a Save of the screen `vc` that sends a create. -/
def isSave (vc : Nat) : World × Act → Bool
  | (w, .app e) => w.app.creator e = some vc
  | (_, .server _ _) => false

/-- The Saves of a run that sent a create from the screen `vc`. -/
def saves (vc : Nat) (tr : List (World × Act)) : Nat := tr.countP (isSave vc)

/-- The condition that Save is pressed on the screen `vc` only when the server
    has refused everything it was to create before. -/
def SavesAfterRefusal (vc : Nat) (w : World) : Act → Prop
  | .app e => w.app.creator e = some vc →
      ∀ wr ∈ w.writes, wr.item.creates vc → wr.verdict = .refused
  | .server _ _ => True

/-- However the server decides, it creates at most one task from `vc`. -/
def CreatedOnce (env : Environment) (userToken : Option String) (vc : Nat) (w : World) : Prop :=
  ∀ w', (worldSystem env userToken).Leads Act.isServer w w' → w'.created vc ≤ 1

theorem possible_app {e : App.Event} (h : Consistent w) (hstep : w.step env (.app e) = some w') :
    possible (Call.creates vc) w'.writes =
      possible (Call.creates vc) w.writes + if w.app.creator e = some vc then 1 else 0 := by
  obtain ⟨_, b, hb, rfl⟩ := World.step_app hstep
  show possible _ (w.writes ++ sentWrites w.app b) = _
  rw [possible_append, possible_sentWrites h.app hb]

theorem possible_server {id : Nat} {accepts : Bool}
    (hstep : w.step env (.server id accepts) = some w') :
    possible (Call.creates vc) w'.writes ≤ possible (Call.creates vc) w.writes := by
  obtain ⟨verdict, rfl, _⟩ := World.step_server hstep
  exact possible_settle_le _ _ _ _

/-- **Run lemma**: each create was sent by a Save. -/
theorem possible_le_saves {userToken : Option String} {tr : List (World × Act)}
    (h : (worldSystem env userToken).Trace tr w) :
    possible (Call.creates vc) w.writes ≤ saves vc tr := by
  apply h.invariant
  · intro s hs
    have hs : s = start userToken := hs
    rw [hs]
    exact Nat.le_refl _
  · intro tr s act s' hreach ih hstep
    unfold saves
    rw [List.countP_cons]
    cases act with
    | app e =>
      rw [possible_app (consistent_of_reachable hreach) hstep]
      show _ ≤ _ + if decide (s.app.creator e = some vc) = true then 1 else 0
      simp only [decide_eq_true_eq]
      exact Nat.add_le_add_right ih _
    | server id accepts => exact Nat.le_trans (possible_server hstep) ih

/-- The invariant of the runs in which one task is created at most. -/
structure OnePossible (vc : Nat) (w : World) : Prop where
  consistent : Consistent w
  bound : possible (Call.creates vc) w.writes ≤ 1

/-- **Step lemma**: a Save that meets the condition is the only one. -/
theorem OnePossible.step {act : Act} (h : OnePossible vc w) (hok : SavesAfterRefusal vc w act)
    (hstep : w.step env act = some w') : OnePossible vc w' := by
  refine ⟨h.consistent.step hstep, ?_⟩
  cases act with
  | app e =>
    rw [possible_app h.consistent hstep]
    by_cases hcreator : w.app.creator e = some vc
    · -- everything before was refused
      have hzero := possible_eq_zero_iff.mpr (hok hcreator)
      rw [if_pos hcreator]
      omega
    · rw [if_neg hcreator]
      exact h.bound
  | server id accepts => exact Nat.le_trans (possible_server hstep) h.bound

/-- A Save that does not meet it makes a second task possible. -/
theorem OnePossible.step_bad {act : Act} (h : OnePossible vc w)
    (hbad : ¬ SavesAfterRefusal vc w act) (hstep : w.step env act = some w') :
    ¬ possible (Call.creates vc) w'.writes ≤ 1 := by
  intro hle
  cases act with
  | server id accepts => exact hbad trivial
  | app e =>
    have hcreator : w.app.creator e = some vc := by
      by_contra hno
      exact hbad fun hyes => absurd hyes hno
    rw [possible_app h.consistent hstep, if_pos hcreator] at hle
    -- then nothing before it was possible, so all of it was refused
    have hzero : possible (Call.creates vc) w.writes = 0 := by omega
    exact hbad fun _ => possible_eq_zero_iff.mp hzero

/-- Decisions of the server create no more than is possible. -/
theorem createdOnce_of_possible {userToken : Option String}
    (h : possible (Call.creates vc) w.writes ≤ 1) : CreatedOnce env userToken vc w := by
  intro w' hleads
  have hserver : ∀ s act s', Act.isServer act → possible (Call.creates vc) s.writes ≤ 1 →
      (worldSystem env userToken).step s act s' →
      possible (Call.creates vc) s'.writes ≤ 1 := by
    intro s act s' hact hs hstep
    cases act with
    | app e => cases hact
    | server id accepts => exact Nat.le_trans (possible_server hstep) hs
  exact Nat.le_trans (accepted_le_possible _ _) (hleads.invariant hserver h)

/-- What is possible comes true once the server accepts everything. -/
theorem possible_of_createdOnce {userToken : Option String}
    (h : CreatedOnce env userToken vc w) : possible (Call.creates vc) w.writes ≤ 1 := by
  have hall := h _ (leads_settleAll env w (w.writes.map (·.id)))
  unfold created at hall
  rw [accepted_settleAll] at hall
  exact hall

end World

/-- **Creating a task.**  In every run of the app and its server, for every
    screen: the server creates at most one task from it, however it decides
    about the creates that are on their way, if and only if each Save comes
    after the server has refused all creates of the screen before.  It never
    creates more tasks from it than there were Saves. -/
theorem created_once_iff {env : Environment} {userToken : Option String}
    {tr : List (World × Act)} {w : World} (h : (worldSystem env userToken).Trace tr w)
    (vc : Nat) :
    (System.Always (World.CreatedOnce env userToken vc) tr w ↔
      System.Guarded (World.SavesAfterRefusal vc) tr) ∧
    w.created vc ≤ World.saves vc tr := by
  refine ⟨?_, Nat.le_trans (accepted_le_possible _ _) (World.possible_le_saves h)⟩
  have hinit : ∀ w, (worldSystem env userToken).init w → World.OnePossible vc w := by
    intro w hw
    have hw : w = World.start userToken := hw
    rw [hw]
    exact ⟨World.consistent_start userToken, Nat.zero_le _⟩
  apply h.always_iff_guarded hinit
  · intro w act w' hone hok hstep
    exact hone.step hok hstep
  · intro w hone
    exact World.createdOnce_of_possible hone.bound
  · intro w act w' hone hbad hstep honce
    exact hone.step_bad hbad hstep (World.possible_of_createdOnce honce)

/-! ## Section 3: Two Saves -/

namespace World

variable {w : World} {vc : Nat}

/-- From the first list to a form for a new task, with a title. -/
def toNewTask : List Act := [.app .addTaskButtonPressed, .app (.form (.typeTitle "mail"))]

/-- Save, refused by the server with a message, and Save again. -/
def retried : List Act :=
  toNewTask ++
    [.app (.saveEventPressed 1), .server 3 false,
      .app (.deliver 3 (utf8 "\x7b\"message\":\"busy\"\x7d")), .app (.saveEventPressed 2)]

/-- Save twice before the server decides. -/
def doubled : List Act :=
  toNewTask ++
    [.app (.saveEventPressed 1), .app (.saveEventPressed 2), .server 3 true, .server 4 true]

instance (vc : Nat) (w : World) (act : Act) : Decidable (SavesAfterRefusal vc w act) :=
  match act with
  | .app e => inferInstanceAs (Decidable (w.app.creator e = some vc →
      ∀ wr ∈ w.writes, wr.item.creates vc → wr.verdict = .refused))
  | .server _ _ => inferInstanceAs (Decidable True)

theorem savesAfterRefusal_of_nil {act : Act} (h : w.writes = []) : SavesAfterRefusal vc w act := by
  cases act with
  | app e =>
    intro _ wr hwr
    rw [h] at hwr
    cases hwr
  | server id accepts => trivial

/-- A Save that is refused can be made again. -/
theorem created_once_retried :
    ∃ tr w, (worldSystem epochEnvironment none).Trace tr w ∧ (w.writes.length = 2) ∧
      System.Always (CreatedOnce epochEnvironment none 2) tr w := by
  have hrun : (firstList.run epochEnvironment retried).any fun w => w.writes.length = 2 := by
    decide +kernel
  obtain ⟨w, hrun, hlen⟩ := (Option.any_eq_true _ _).mp hrun
  have htr := trace_of_firstList hrun
  have hok : System.Guarded (SavesAfterRefusal 2)
      (System.stepsOf (step epochEnvironment) [] firstList retried) := by
    decide +kernel
  exact ⟨_, w, htr, of_decide_eq_true hlen, (created_once_iff htr 2).1.mpr
    (guarded_of_firstList (fun _ _ => savesAfterRefusal_of_nil) hok)⟩

/-- Two Saves on the form for a new task create two tasks. -/
theorem not_created_once :
    ¬ ∀ (w : World) (v : ViewController), (worldSystem epochEnvironment none).Reachable w →
      v ∈ w.app.viewControllers → v.madeFrom = .taskEdit none → w.created v.id ≤ 1 := by
  intro h
  have hrun : (firstList.run epochEnvironment doubled).any fun w =>
      w.app.viewControllers.any fun v => v.madeFrom = .taskEdit none ∧ w.created v.id = 2 := by
    decide +kernel
  obtain ⟨w, hrun, hw⟩ := (Option.any_eq_true _ _).mp hrun
  obtain ⟨v, hv, hcreated⟩ := List.any_eq_true.mp hw
  obtain ⟨hnew, htwo⟩ := of_decide_eq_true hcreated
  have hle := h w v (trace_of_firstList hrun).reachable hv hnew
  omega

end World

end TimeManager
