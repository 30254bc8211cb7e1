import Mathlib.Data.List.InsertIdx
import TimeManager.Framework.Chain
import TimeManager.Paging.Interleaved

/-! # No Task Is Skipped

    Rows are displayed and requests are answered in any order, so a list can
    hold a page twice, or pages out of turn.  But a page is only asked for
    once the page before it has arrived, so the pages that have arrived are a
    chain fetched link by link (`screen_simulates`): whatever the order, a list
    shows the pages delivered so far, these are the first pages of the server
    without a gap, and a list that asks for nothing more shows them all
    (`screen_no_gaps`). -/

namespace TimeManager

open Lts Chain

/-- The pages of the tasks, as the screens keep them. -/
def shownPage (dates : DateFormats) (L : List TaskData) (l : Nat) (p : Nat) :
    List InternalTaskData :=
  Pages.page l (L.map (internalTaskData dates)) p

/-- The page that a step delivers, if it delivers one: the page asked for by
    the request that is answered. -/
def deliveredPage (s : TaskListScreen) : TaskListScreen.Event → Option Nat
  | .willDisplay _ => none
  | .deliver i response =>
    if FailsToLoad response then none else s.inFlight[i]?.map (·.page.toNat)

/-- The pages that are delivered in a run, the latest last. -/
def deliveredPages (tr : List (TaskListScreen × TaskListScreen.Event)) : List Nat :=
  tr.reverse.filterMap fun x => deliveredPage x.1 x.2

theorem deliveredPages_cons (s : TaskListScreen) (e : TaskListScreen.Event)
    (tr : List (TaskListScreen × TaskListScreen.Event)) :
    deliveredPages ((s, e) :: tr) = deliveredPages tr ++ (deliveredPage s e).toList := by
  unfold deliveredPages
  rw [List.reverse_cons, List.filterMap_append]
  cases hpage : deliveredPage s e with
  | none => simp [hpage]
  | some p => simp [hpage]

/-- What a screen shows and asks for after a run, in terms of the pages that
    have arrived and those asked for. -/
structure Fetches (dates : DateFormats) (L : List TaskData) (l : Nat)
    (tr : List (TaskListScreen × TaskListScreen.Event)) (s : TaskListScreen) (c : Client Nat) :
    Prop where
  arrived : c.arrived = deliveredPages tr
  data : s.model.data = c.arrived.flatMap (shownPage dates L l)
  page : s.model.page = (c.arrived.getLast?.getD 0 : Nat)
  counters : c.arrived ≠ [] → s.model.limit = l ∧ s.model.totalCounts = L.length
  inFlight : s.inFlight.map (·.page) = c.asked.map Nat.cast
  /-- A later page is only asked for while tasks are left before it. -/
  exist : ∀ q ∈ c.asked ++ c.arrived, q = 1 ∨ (q - 1) * l < L.length

section

variable {dates : DateFormats} {L : List TaskData} {l : Nat} {m₀ : TaskListModel}
  {tr : List (TaskListScreen × TaskListScreen.Event)}

/-! ## Section 1: The simulation -/

theorem fetches_viewDidLoad {s : TaskListScreen} (h : TaskListScreen.viewDidLoad m₀ = .ok s) :
    Fetches dates L l [] s ⟨[], [1]⟩ := by
  rw [TaskListScreen.viewDidLoad_eq] at h
  obtain rfl := Except.ok.inj h
  exact ⟨rfl, rfl, rfl, fun h => absurd rfl h, rfl, by simp⟩

/-- The request that a row sends, if any, asks for the link after the last one
    that arrived. -/
theorem Fetches.willDisplay {s s' : TaskListScreen} {c : Client Nat} {row : Nat}
    (h : Fetches dates L l tr s c) (hstep : s.step dates (.willDisplay row) = some s') :
    ∃ c', Fetches dates L l ((s, .willDisplay row) :: tr) s' c' ∧
      (c' = c ∨ ∃ e, (system 1 (· + 1)).step c e c') := by
  obtain ⟨_, hmodel, hcases⟩ := TaskListScreen.step_willDisplay hstep
  -- a display delivers nothing
  have harrived : c.arrived = deliveredPages ((s, .willDisplay row) :: tr) := by
    rw [deliveredPages_cons, h.arrived]
    exact (List.append_nil _).symm
  rcases hcases with hsame | ⟨r, hnext, hsent⟩
  · refine ⟨c, ?_, .inl rfl⟩
    exact ⟨harrived, hmodel ▸ h.data, hmodel ▸ h.page, hmodel ▸ h.counters, hsame ▸ h.inFlight,
      h.exist⟩
  · -- one page is asked for: the first one, or the one after the last
    have hasks : ∀ q : Nat, r.page = q → (q = 1 ∨ ∃ p ∈ c.arrived, q = p + 1) →
        (q = 1 ∨ (q - 1) * l < L.length) →
        ∃ c', Fetches dates L l ((s, .willDisplay row) :: tr) s' c' ∧
          (c' = c ∨ ∃ e, (system 1 (· + 1)).step c e c') := by
      intro q hq hdue hexist
      refine ⟨{ c with asked := c.asked ++ [q] }, ?_, .inr ⟨.ask q, hdue, rfl⟩⟩
      refine ⟨harrived, hmodel ▸ h.data, hmodel ▸ h.page, hmodel ▸ h.counters, ?_, ?_⟩
      · rw [hsent, List.map_append, List.map_append, h.inFlight, List.map_singleton,
          List.map_singleton, hq]
      · intro q' hq'
        simp only [List.append_assoc, List.mem_append, List.mem_singleton] at hq'
        rcases hq' with hq' | rfl | hq'
        · exact h.exist q' (List.mem_append_left _ hq')
        · exact hexist
        · exact h.exist q' (List.mem_append_right _ hq')
    rcases TaskListModel.getNextTask_cases hnext with ⟨_, heq⟩ | ⟨hpage, hmore, heq⟩ | ⟨_, _, heq⟩
    · obtain rfl := Option.some.inj heq
      exact hasks 1 rfl (.inl rfl) (.inl rfl)
    · obtain rfl := Option.some.inj heq
      have hlast := h.page
      cases hc : c.arrived.getLast? with
      | none =>
        rw [hc] at hlast
        exact absurd hlast hpage
      | some p =>
        rw [hc] at hlast
        have hmem : p ∈ c.arrived := List.mem_of_getLast? hc
        obtain ⟨hlimit, htotal⟩ := h.counters (List.ne_nil_of_mem hmem)
        rw [hlast, hlimit, htotal] at hmore
        refine hasks (p + 1) ?_ (.inr ⟨p, hmem, rfl⟩) (.inr ?_)
        · show s.model.page + 1 = _
          rw [hlast]
          rfl
        · rw [Nat.add_sub_cancel]
          exact_mod_cast hmore
    · cases heq

/-- The request that is answered is the link that was asked for. -/
theorem Fetches.asked {s : TaskListScreen} {c : Client Nat} {i : Nat} {r : ListRequest}
    (h : Fetches dates L l tr s c) (hr : s.inFlight[i]? = some r) :
    ∃ q : Nat, r.page = q ∧ c.asked[i]? = some q := by
  have hmap : (s.inFlight.map (·.page))[i]? = some r.page := by
    rw [List.getElem?_map, hr]
    rfl
  rw [h.inFlight, List.getElem?_map] at hmap
  obtain ⟨q, hq, hpage⟩ := Option.map_eq_some_iff.mp hmap
  exact ⟨q, hpage.symm, hq⟩

theorem Fetches.eraseIdx {s : TaskListScreen} {c : Client Nat} (h : Fetches dates L l tr s c)
    (i : Nat) :
    (s.inFlight.eraseIdx i).map (·.page) = (c.asked.eraseIdx i).map Nat.cast := by
  rw [← List.eraseIdx_map, ← List.eraseIdx_map, h.inFlight]

/-- An answer is a link that arrives, a failure one that is lost. -/
theorem Fetches.deliver {s s' : TaskListScreen} {c : Client Nat} {i : Nat}
    {response : Option (Payload TaskList)} (h : Fetches dates L l tr s c)
    (hserver : ServerAllows L l s (.deliver i response))
    (hstep : s.step dates (.deliver i response) = some s') :
    ∃ c', Fetches dates L l ((s, .deliver i response) :: tr) s' c' ∧
      (c' = c ∨ ∃ e, (system 1 (· + 1)).step c e c') := by
  obtain ⟨hi, rfl⟩ := TaskListScreen.step_deliver hstep
  have hr : s.inFlight[i]? = some s.inFlight[i] := List.getElem?_eq_getElem hi
  obtain ⟨q, hpage, hq⟩ := h.asked hr
  rcases hserver _ hr with hanswer | hfail
  · have hdelivered : deliveredPage s (.deliver i response) = some q := by
      rw [deliveredPage, if_neg (TaskListModel.not_fails_of_answersPage hanswer), hr,
        Option.map_some, hpage, Int.toNat_natCast]
    rw [hpage] at hanswer
    rw [TaskListModel.respond_of_answersPage dates _ hanswer]
    refine ⟨⟨c.arrived ++ [q], c.asked.eraseIdx i⟩, ?_, .inr ⟨.arrive i, q, hq, rfl⟩⟩
    refine ⟨?_, ?_, ?_, fun _ => ⟨rfl, rfl⟩, h.eraseIdx i, ?_⟩
    · rw [deliveredPages_cons, hdelivered, h.arrived]
      rfl
    · show s.model.data ++ (pageTasks L l q).map _ = _
      rw [h.data, List.flatMap_append, List.flatMap_singleton, pageTasks, Int.toNat_natCast,
        shownPage, Pages.page, Pages.page, List.map_take, List.map_drop]
    · rw [List.getLast?_concat]
      rfl
    · intro q' hq'
      apply h.exist q'
      simp only [List.mem_append, List.mem_singleton] at hq' ⊢
      rcases hq' with hq' | hq' | rfl
      · exact .inl (List.mem_of_mem_eraseIdx hq')
      · exact .inr hq'
      · exact .inl (List.mem_of_getElem? hq)
  · have hdelivered : deliveredPage s (.deliver i response) = none := if_pos hfail
    rw [TaskListModel.respond_of_fails dates _ hfail]
    refine ⟨{ c with asked := c.asked.eraseIdx i }, ?_, .inr ⟨.lose i, rfl⟩⟩
    refine ⟨?_, h.data, h.page, h.counters, h.eraseIdx i, ?_⟩
    · rw [deliveredPages_cons, hdelivered, h.arrived]
      exact (List.append_nil _).symm
    · intro q' hq'
      apply h.exist q'
      rcases List.mem_append.mp hq' with hq' | hq'
      · exact List.mem_append_left _ (List.mem_of_mem_eraseIdx hq')
      · exact List.mem_append_right _ hq'

/-- **Simulation**: the pages of a screen are a chain fetched link by link. -/
theorem screen_simulates {s : TaskListScreen} (h : (screenSystem dates L l m₀).Trace tr s) :
    ∃ c, (system 1 (· + 1)).Reachable c ∧ Fetches dates L l tr s c := by
  apply h.simulates
  · intro s hs
    exact ⟨⟨[], [1]⟩, ⟨rfl, by simp⟩, fetches_viewDidLoad hs⟩
  · rintro tr s e s' c hfetches - ⟨hserver, hstep⟩
    cases e with
    | willDisplay row => exact hfetches.willDisplay hstep
    | deliver i response => exact hfetches.deliver hserver hstep

/-! ## Section 2: What a list shows -/

/-- The list shows `pages`, in their order.  They are the first pages of the
    server without a gap (some perhaps more than once, or out of turn), and no
    page past the last one is asked for. -/
def ShowsWithoutGaps (dates : DateFormats) (L : List TaskData) (l : Nat) (pages : List Nat)
    (s : TaskListScreen) : Prop :=
  s.model.data = pages.flatMap (shownPage dates L l) ∧
    ∃ top ≤ Pages.pageCount l L.length,
      (∀ p, p ∈ pages ↔ 1 ≤ p ∧ p ≤ top) ∧
      (∀ task, task ∈ s.model.data ↔ task ∈ (L.map (internalTaskData dates)).take (top * l)) ∧
      ∀ r ∈ s.inFlight, 1 ≤ r.page ∧ r.page ≤ top + 1 ∧ r.page ≤ Pages.pageCount l L.length

/-- A page that is asked for or shown exists. -/
theorem Fetches.le_pageCount (hl : 0 < l) {s : TaskListScreen} {c : Client Nat}
    (h : Fetches dates L l tr s c) {q : Nat} (hq : q ∈ c.asked ++ c.arrived) (hpos : 1 ≤ q) :
    q ≤ Pages.pageCount l L.length := by
  rcases h.exist q hq with rfl | hlt
  · exact Pages.one_le_pageCount l _
  · rcases Nat.eq_or_lt_of_le hpos with rfl | hone
    · exact Pages.one_le_pageCount l _
    · have hprev : 1 ≤ q - 1 := by omega
      have hless := (Pages.lt_pageCount_iff hl hprev).mpr (by rw [Nat.mul_comm]; exact hlt)
      omega

/-- What a list shows has no gaps. -/
theorem showsWithoutGaps_of_trace (hl : 0 < l) {s : TaskListScreen}
    (h : (screenSystem dates L l m₀).Trace tr s) :
    ShowsWithoutGaps dates L l (deliveredPages tr) s := by
  obtain ⟨c, hc, hfetches⟩ := screen_simulates h
  obtain ⟨top, harrived, hasked⟩ := Chain.exists_top (whole_of_reachable hc)
  rw [← hfetches.arrived]
  refine ⟨hfetches.data, top, ?_, harrived, ?_, ?_⟩
  · rcases Nat.eq_zero_or_pos top with rfl | hpos
    · exact Nat.zero_le _
    · have hmem : top ∈ c.arrived := (harrived top).mpr ⟨hpos, Nat.le_refl top⟩
      exact hfetches.le_pageCount hl (List.mem_append_right _ hmem) hpos
  · intro task
    rw [hfetches.data, List.mem_flatMap, ← Pages.mem_page_iff]
    simp only [harrived, shownPage]
  · intro r hr
    have hmem : r.page ∈ c.asked.map Nat.cast := by
      rw [← hfetches.inFlight]
      exact List.mem_map_of_mem hr
    obtain ⟨q, hq, hpage⟩ := List.mem_map.mp hmem
    obtain ⟨hpos, hle⟩ := hasked q hq
    have hexists := hfetches.le_pageCount hl (List.mem_append_left _ hq) hpos
    rw [← hpage]
    omega

/-- A list that finds no next page shows every task. -/
theorem all_shown_of_trace {s : TaskListScreen}
    (h : (screenSystem dates L l m₀).Trace tr s) (hnone : s.model.getNextTask = .ok none)
    {task : TaskData} (htask : task ∈ L) : internalTaskData dates task ∈ s.model.data := by
  obtain ⟨c, hc, hfetches⟩ := screen_simulates h
  obtain ⟨top, harrived, _⟩ := Chain.exists_top (whole_of_reachable hc)
  -- the last page that arrived holds the end of the list
  rcases TaskListModel.getNextTask_cases hnone with ⟨_, heq⟩ | ⟨_, _, heq⟩ | ⟨hpage, hend, _⟩
  · cases heq
  · cases heq
  · have hlast := hfetches.page
    cases hp : c.arrived.getLast? with
    | none =>
      rw [hp] at hlast
      exact absurd hlast hpage
    | some p =>
      rw [hp] at hlast
      have hmem : p ∈ c.arrived := List.mem_of_getLast? hp
      obtain ⟨hlimit, htotal⟩ := hfetches.counters (List.ne_nil_of_mem hmem)
      rw [hlast, hlimit, htotal] at hend
      have hend : L.length ≤ p * l := by exact_mod_cast hend
      have hall : (L.map (internalTaskData dates)).length ≤ top * l := by
        rw [List.length_map]
        exact Nat.le_trans hend (Nat.mul_le_mul_right l ((harrived p).mp hmem).2)
      have hin : internalTaskData dates task ∈ (L.map (internalTaskData dates)).take (top * l) := by
        rw [List.take_of_length_le hall]
        exact List.mem_map_of_mem htask
      obtain ⟨q, hq, hqmem⟩ := (Pages.mem_page_iff l _ top).mpr hin
      rw [hfetches.data]
      exact List.mem_flatMap.mpr ⟨q, (harrived q).mpr hq, hqmem⟩

/-- **No gaps.**  In every run of a list screen against a server that holds
    `L` in pages of `l`, whatever the order in which rows are displayed and
    requests are answered, the list shows the pages delivered in the run, one
    after another; these are the first pages of `L` without a gap, only pages
    that exist are asked for, and where the screen finds no next page every
    task of `L` is shown. -/
theorem screen_no_gaps (hl : 0 < l) {s : TaskListScreen}
    (h : (screenSystem dates L l m₀).Trace tr s) :
    ShowsWithoutGaps dates L l (deliveredPages tr) s ∧
    (s.model.getNextTask = .ok none → ∀ task ∈ L, internalTaskData dates task ∈ s.model.data) :=
  ⟨showsWithoutGaps_of_trace hl h, fun hnone _ htask => all_shown_of_trace h hnone htask⟩

end

/-- Eleven tasks in pages of ten.  The second page is asked for three times, and
    delivered, lost and delivered again. -/
theorem screen_no_gaps_eleven :
    ∃ tr s, (screenSystem epochDates (epochTasks 11) 10 {}).Trace tr s ∧
      deliveredPages tr = [1, 2, 2] ∧ s.model.data.length = 12 ∧
      s.model.data = [1, 2, 2].flatMap (shownPage epochDates (epochTasks 11) 10) ∧
      ∀ task ∈ epochTasks 11, internalTaskData epochDates task ∈ s.model.data := by
  have h₀ : (screenSystem epochDates (epochTasks 11) 10 {}).Trace [] _ :=
    .init (TaskListScreen.viewDidLoad_eq {})
  have h₁ := h₀.step (screenSystem_answer 0 900 rfl rfl)
  have h₂ := h₁.step (screenSystem_display 0 rfl)
  have h₃ := h₂.step (screenSystem_display 0 rfl)
  have h₄ := h₃.step (screenSystem_display 0 rfl)
  have h₅ := h₄.step (screenSystem_answer 0 200 rfl rfl)
  have h₆ := h₅.step (screenSystem_lose 0 rfl)
  have h₇ := h₆.step (screenSystem_answer 0 200 rfl rfl)
  have hall := screen_no_gaps (by decide) h₇
  exact ⟨_, _, h₇, by decide, rfl, hall.1.1, hall.2 rfl⟩

end TimeManager
