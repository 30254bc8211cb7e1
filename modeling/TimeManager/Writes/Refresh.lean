import TimeManager.Writes.World

/-! # The List after a Write

    The success of a write makes the coordinator show a new list, if the
    screen that asked for the write is still there.  Otherwise the topmost
    list is the one that was on the stack before, and shows the tasks from
    before the write (`refreshed_iff`). -/

namespace TimeManager

open Lts Ledger

def AvailableScreens.isTaskList : AvailableScreens → Bool
  | .taskList _ => true
  | _ => false

/-! ## Section 1: The topmost list -/

namespace App

variable {env : Environment} {a b : App} {vc : Nat}

/-- The identities of the list screens, the bottom one first. -/
def taskLists (a : App) : List Nat :=
  ((a.viewControllers.map (·.origin)).filter fun o => o.2.isTaskList).map Prod.fst

def topTaskList (a : App) : Option Nat := a.taskLists.getLast?

/-- List screens are in the order in which they were made. -/
theorem WellFormed.taskLists_sorted (h : WellFormed a) : a.taskLists.Pairwise (· < ·) := by
  have hids : ((a.viewControllers.map (·.origin)).map Prod.fst).Pairwise (· < ·) := by
    rw [List.map_map]
    exact h.screenIds
  exact hids.sublist (List.filter_sublist.map _)

/-- More list screens leave the topmost one or put a later one on top. -/
theorem topTaskList_mono (hpre : a.taskLists <+: b.taskLists) (hb : WellFormed b) {i : Nat}
    (h : a.topTaskList = some i) : ∃ j, b.topTaskList = some j ∧ i ≤ j := by
  obtain ⟨more, hmore⟩ := hpre
  have hsorted := hb.taskLists_sorted
  unfold topTaskList
  rw [← hmore] at hsorted ⊢
  rw [List.getLast?_append]
  cases hlast : more.getLast? with
  | none => exact ⟨i, h, Nat.le_refl i⟩
  | some j =>
    have hlt := (List.pairwise_append.mp hsorted).2.2 i (List.mem_of_getLast? h) j
      (List.mem_of_getLast? hlast)
    exact ⟨j, rfl, Nat.le_of_lt hlt⟩

/-- **Step lemma**: no event puts an earlier list on top. -/
theorem step_topTaskList {e : Event} (h : WellFormed a) (hstep : a.step env e = some b) {i : Nat}
    (htop : a.topTaskList = some i) : ∃ j, b.topTaskList = some j ∧ i ≤ j := by
  have hroot : ∀ s : AvailableScreens, s.isTaskList → s.isRoot := by
    intro s hs
    cases s with
    | taskList list => rfl
    | _ => cases hs
  exact topTaskList_mono ((step_keeps h hstep hroot).2.map _) (h.step hstep) htop

theorem Grows.topTaskList (hgrows : Grows a b) (h : WellFormed a) {i : Nat}
    (htop : a.topTaskList = some i) : ∃ j, b.topTaskList = some j ∧ i ≤ j :=
  topTaskList_mono ((hgrows.extends.stack.filter _).map _) (hgrows.wellFormed h) htop

/-- The coordinator puts a new list on top. -/
theorem topTaskList_jumpToScreen (a : App) (list : Option TaskList) :
    (a.jumpToScreen (.taskList list)).topTaskList = some a.nextScreen := by
  obtain ⟨screen, hpush⟩ := jumpToScreen_viewControllers a (.taskList list)
  unfold topTaskList taskLists
  rw [hpush, List.map_append, List.filter_append, List.map_append, List.getLast?_append]
  rfl

/-- A success puts a new list on top, and no later outcome an older one. -/
theorem foldl_written_topTaskList (h : WellFormed a) (hlive : a.isLive vc)
    {cs : List (Completion Unit (Option String))} (hs : cs.any Completion.isSuccess) :
    ∃ i, (cs.foldl (written vc) a).topTaskList = some i ∧ a.nextScreen ≤ i := by
  induction cs generalizing a with
  | nil => cases hs
  | cons c cs ih =>
    have hgrows : Grows a (a.written vc c) := .written vc c .refl
    rw [List.foldl_cons]
    cases c with
    | toDoIfSuccess =>
      have hrefresh : a.written vc (.toDoIfSuccess ()) = a.jumpToScreen (.taskList none) :=
        if_pos hlive
      have htop : (a.written vc (.toDoIfSuccess ())).topTaskList = some a.nextScreen := by
        rw [hrefresh, topTaskList_jumpToScreen]
      have hrest := Grows.foldl (fun _ c hb => Grows.written vc c hb) cs
        (.refl : Grows (a.written vc (.toDoIfSuccess ())) _)
      exact hrest.topTaskList (hgrows.wellFormed h) htop
    | toDoIfError message =>
      obtain ⟨i, hi, hle⟩ := ih (hgrows.wellFormed h) (hgrows.extends.isLive hlive) hs
      exact ⟨i, hi, Nat.le_trans hgrows.extends.nextScreen hle⟩

end App

/-! ## Section 2: Lists that show a write -/

namespace World

variable {env : Environment} {w w' : World}

/-- The topmost list was made after the server had accepted the write. -/
def shows (w : World) (wr : Entry Call Nat) : Bool :=
  match wr.verdict, w.app.topTaskList with
  | .accepted mark, some i => mark ≤ i
  | _, _ => false

/-- The topmost list was made after every write whose success was reported. -/
def Refreshed (w : World) : Prop := ∀ wr ∈ w.writes, wr.id ∈ w.acknowledged → w.shows wr

/-- Whether the screen that asked for the write is still there. -/
def starterIsLive (w : World) (wr : Entry Call Nat) : Bool := wr.item.writer.any w.app.isLive

/-- The condition that a success is reported only while the screen that asked
    is still there, or where the topmost list shows the write already. -/
def ReportedInView (env : Environment) (w : World) : Act → Prop
  | .app e => ∀ wr ∈ w.successes env e, w.starterIsLive wr ∨ w.shows wr
  | .server _ _ => True

theorem shows_iff {wr : Entry Call Nat} :
    w.shows wr ↔ ∃ mark i, wr.verdict = .accepted mark ∧ w.app.topTaskList = some i ∧ mark ≤ i := by
  unfold shows
  split
  · next mark i hverdict htop => simp [hverdict, htop]
  · next hno =>
    constructor
    · intro h
      cases h
    · rintro ⟨mark, i, hverdict, htop, _⟩
      exact absurd htop (hno mark i hverdict)

theorem isAccepted_iff {verdict : Verdict Nat} :
    verdict.isAccepted ↔ ∃ mark, verdict = .accepted mark := by
  cases verdict <;> simp [Verdict.isAccepted]

/-- A response answers all writes with its identity alike. -/
theorem mem_successes_of_id {e : App.Event} {b : App} {wr wr' : Entry Call Nat}
    (h : Consistent w) (hstep : w.app.step env e = some b) (hwr' : wr' ∈ w.successes env e)
    (hwr : wr ∈ w.writes) (hid : wr'.id = wr.id) : wr ∈ w.successes env e := by
  obtain ⟨body, rfl, hmem, hsuccess⟩ := mem_successes hwr'
  obtain ⟨call, _, hcall⟩ := h.answers hstep
  have hitem : wr.item = wr'.item :=
    (hcall wr hwr hid.symm).trans (hcall wr' hmem rfl).symm
  apply List.mem_filter.mpr
  rw [hitem]
  exact ⟨hwr, decide_eq_true ⟨hid.symm, hsuccess⟩⟩

/-- Success is reported only of requests that were sent. -/
theorem lt_of_reported {e : App.Event} {id : Nat} (h : Consistent w)
    (hid : id ∈ w.acknowledged ++ (w.successes env e).map (·.id)) : id < w.app.nextRequest := by
  have hmem : ∃ wr ∈ w.writes, wr.id = id := by
    rcases List.mem_append.mp hid with hold | hnew
    · exact h.reported id hold
    · obtain ⟨wr, hwr, hwrid⟩ := List.mem_map.mp hnew
      obtain ⟨_, _, hmem, _⟩ := mem_successes hwr
      exact ⟨wr, hmem, hwrid⟩
  obtain ⟨wr, hwr, rfl⟩ := hmem
  exact h.fresh wr hwr

/-- A write that is shown stays shown. -/
theorem shows_step {act : Act} {wr : Entry Call Nat} (h : Consistent w)
    (hstep : w.step env act = some w') (hshows : w.shows wr) : w'.shows wr := by
  obtain ⟨mark, i, hverdict, htop, hle⟩ := shows_iff.mp hshows
  cases act with
  | app e =>
    obtain ⟨_, b, hb, rfl⟩ := World.step_app hstep
    obtain ⟨j, hj, hij⟩ := App.step_topTaskList h.app hb htop
    exact shows_iff.mpr ⟨mark, j, hverdict, hj, Nat.le_trans hle hij⟩
  | server id accepts =>
    obtain ⟨verdict, rfl, _⟩ := World.step_server hstep
    exact shows_iff.mpr ⟨mark, i, hverdict, htop, hle⟩

/-- The reported success of a write is shown afterwards if the screen that
    asked for it is there. -/
theorem shows_of_isLive {e : App.Event} {wr : Entry Call Nat} (h : Consistent w)
    (hstep : w.step env (.app e) = some w') (hwr : wr ∈ w.successes env e)
    (hlive : w.starterIsLive wr) : w'.shows wr := by
  obtain ⟨haccepted, b, hb, rfl⟩ := World.step_app hstep
  obtain ⟨body, rfl, hmem, hsuccess⟩ := mem_successes hwr
  obtain ⟨mark, hmark⟩ := isAccepted_iff.mp (haccepted wr hwr)
  obtain ⟨vc, hwriter, hvc⟩ := (Option.any_eq_true _ _).mp hlive
  obtain ⟨call, heq, hcall⟩ := h.answers hb
  rw [← hcall wr hmem rfl, App.respond_write hwriter] at heq
  have hdrop : (w.app.dropRequest wr.id).WellFormed := h.app.dropRequest wr.id
  obtain ⟨i, hi, hle⟩ := App.foldl_written_topTaskList hdrop hvc hsuccess
  rw [← heq] at hi
  exact shows_iff.mpr ⟨mark, i, hmark, hi, Nat.le_trans (h.marks wr hmem mark hmark) hle⟩

/-- A success that is reported to a screen that is gone changes no screen. -/
theorem shows_of_not_isLive {e : App.Event} {wr : Entry Call Nat} (h : Consistent w)
    (hstep : w.step env (.app e) = some w') (hwr : wr ∈ w.successes env e)
    (hgone : ¬ w.starterIsLive wr) : w'.shows wr → w.shows wr := by
  intro hshows
  obtain ⟨_, b, hb, rfl⟩ := World.step_app hstep
  obtain ⟨body, rfl, hmem, hsuccess⟩ := mem_successes hwr
  obtain ⟨call, heq, hcall⟩ := h.answers hb
  obtain ⟨vc, hwriter⟩ := Call.writer_of_succeeds hsuccess
  have hvc : ¬ (w.app.dropRequest wr.id).isLive vc := by
    intro hlive
    exact hgone ((Option.any_eq_true _ _).mpr ⟨vc, hwriter, hlive⟩)
  rw [← hcall wr hmem rfl, App.respond_write hwriter,
    App.foldl_written_of_not_isLive hvc] at heq
  subst heq
  exact hshows

/-! ## Section 3: Runs -/

/-- The invariant of the runs in which the topmost list shows every write. -/
structure InView (w : World) : Prop where
  consistent : Consistent w
  refreshed : Refreshed w

/-- **Step lemma**: a success that is reported in view is shown afterwards. -/
theorem InView.step {act : Act} (h : InView w) (hok : ReportedInView env w act)
    (hstep : w.step env act = some w') : InView w' := by
  refine ⟨h.consistent.step hstep, ?_⟩
  cases act with
  | app e =>
    -- the writes whose success is reported now
    have hnew : ∀ wr ∈ w.successes env e, w'.shows wr := by
      intro wr hwr
      rcases hok wr hwr with hlive | hshows
      · exact shows_of_isLive h.consistent hstep hwr hlive
      · exact shows_step h.consistent hstep hshows
    obtain ⟨_, b, hb, hw'⟩ := World.step_app hstep
    intro wr hwr hack
    rw [hw'] at hwr hack
    rcases List.mem_append.mp hwr with hold | hsent
    · -- reported before, or by this response
      rcases List.mem_append.mp hack with hack | hack
      · exact shows_step h.consistent hstep (h.refreshed wr hold hack)
      · obtain ⟨wr', hwr', hid⟩ := List.mem_map.mp hack
        exact hnew wr (mem_successes_of_id h.consistent hb hwr' hold hid)
    · -- a write that is sent now has no response yet
      obtain ⟨p, _, hfresh, rfl⟩ := mem_sentWrites hsent
      have hlt : p.id < w.app.nextRequest := lt_of_reported h.consistent hack
      omega
  | server id accepts =>
    obtain ⟨verdict, hw', _⟩ := World.step_server hstep
    intro wr hwr hack
    rw [hw'] at hwr hack
    obtain ⟨wr', hwr', rfl⟩ := mem_settle hwr
    rw [Entry.settle_id] at hack
    have hshows := h.refreshed wr' hwr' hack
    -- a write whose success was reported is decided already
    obtain ⟨mark, _, hverdict, _, _⟩ := shows_iff.mp hshows
    rw [Entry.settle_accepted hverdict]
    exact shows_step h.consistent hstep hshows

/-- A success that is reported out of view is not shown. -/
theorem InView.step_bad {act : Act} (h : InView w) (hbad : ¬ ReportedInView env w act)
    (hstep : w.step env act = some w') : ¬ Refreshed w' := by
  intro hrefreshed
  cases act with
  | server id accepts => exact hbad trivial
  | app e =>
    apply hbad
    intro wr hwr
    by_cases hlive : w.starterIsLive wr
    · exact .inl hlive
    · right
      apply shows_of_not_isLive h.consistent hstep hwr hlive
      obtain ⟨_, b, _, rfl⟩ := World.step_app hstep
      obtain ⟨_, _, hmem, _⟩ := mem_successes hwr
      exact hrefreshed wr (List.mem_append_left _ hmem)
        (List.mem_append_right _ (List.mem_map_of_mem hwr))

end World

/-- **No lost refresh.**  In every run of the app and its server: in every
    state the topmost list was made after each write whose success was
    reported, if and only if every success was reported while the screen that
    asked for the write was still on the stack, or while the topmost list was
    one made after the write already. -/
theorem refreshed_iff {env : Environment} {userToken : Option String}
    {tr : List (World × Act)} {w : World} (h : (worldSystem env userToken).Trace tr w) :
    System.Always World.Refreshed tr w ↔ System.Guarded (World.ReportedInView env) tr := by
  have hinit : ∀ w, (worldSystem env userToken).init w → World.InView w := by
    intro w hw
    have hw : w = World.start userToken := hw
    rw [hw]
    refine ⟨World.consistent_start userToken, ?_⟩
    intro wr hwr
    cases hwr
  apply h.always_iff_guarded hinit
  · intro w act w' hview hok hstep
    exact hview.step hok hstep
  · intro w hview
    exact hview.refreshed
  · intro w act w' hview hbad hstep
    exact hview.step_bad hbad hstep

/-! ## Section 4: A delete -/

namespace World

variable {env : Environment} {w : World}

/-- From the first list to the detail screen of its task, a delete of it, and
    the server that accepts it. -/
def toDeleted : List Act :=
  [.app (.infoPressed 0), .app .deleteEventPressed, .server 3 true]

/-- The success is reported to the detail screen. -/
def reportedInTime : List Act := toDeleted ++ [.app (.deliver 3 (utf8 "\x7b\x7d"))]

/-- The success is reported after the detail screen was left. -/
def reportedLate : List Act :=
  toDeleted ++ [.app .backPressed, .app (.deliver 3 (utf8 "\x7b\x7d"))]

instance (env : Environment) (w : World) (act : Act) : Decidable (ReportedInView env w act) :=
  match act with
  | .app e => inferInstanceAs (Decidable
      (∀ wr ∈ w.successes env e, w.starterIsLive wr ∨ w.shows wr))
  | .server _ _ => inferInstanceAs (Decidable True)

instance (w : World) : Decidable (Refreshed w) :=
  inferInstanceAs (Decidable (∀ wr ∈ w.writes, wr.id ∈ w.acknowledged → w.shows wr))

theorem successes_of_nil {e : App.Event} (h : w.writes = []) : w.successes env e = [] := by
  cases e with
  | deliver id body =>
    show w.writes.filter _ = []
    rw [h]
    rfl
  | _ => rfl

theorem reportedInView_of_nil {act : Act} (h : w.writes = []) : ReportedInView env w act := by
  cases act with
  | app e =>
    intro wr hwr
    rw [successes_of_nil h] at hwr
    cases hwr
  | server id accepts => trivial

/-- The detail screen is still there: the new list is on top. -/
theorem refreshed_in_time :
    ∃ tr w, (worldSystem epochEnvironment none).Trace tr w ∧ w.acknowledged = [3] ∧
      System.Always Refreshed tr w := by
  have hrun : (firstList.run epochEnvironment reportedInTime).any fun w => w.acknowledged = [3] := by
    decide +kernel
  obtain ⟨w, hrun, hack⟩ := (Option.any_eq_true _ _).mp hrun
  have htr := trace_of_firstList hrun
  have hok : System.Guarded (ReportedInView epochEnvironment)
      (System.stepsOf (step epochEnvironment) [] firstList reportedInTime) := by
    decide +kernel
  exact ⟨_, w, htr, of_decide_eq_true hack, (refreshed_iff htr).mpr
    (guarded_of_firstList (fun _ _ => reportedInView_of_nil) hok)⟩

/-- The detail screen was left: the list from before the delete is on top. -/
theorem not_refreshed :
    ¬ ∀ w : World, (worldSystem epochEnvironment none).Reachable w → Refreshed w := by
  intro h
  have hrun : (firstList.run epochEnvironment reportedLate).any fun w => ¬ Refreshed w := by
    decide +kernel
  obtain ⟨w, hrun, hno⟩ := (Option.any_eq_true _ _).mp hrun
  exact of_decide_eq_true hno (h w (trace_of_firstList hrun).reachable)

end World

end TimeManager
