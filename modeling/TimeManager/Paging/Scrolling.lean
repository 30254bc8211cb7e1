import TimeManager.Framework.Prefetch
import TimeManager.Paging.Interleaved
import TimeManager.Paging.Loading

/-! # Scrolling

    The rows of a task list displayed one after another, each request answered
    before the next row is displayed.  The screen takes rows as a window takes
    elements (`Prefetch.Window`) whose tenth element from the end loads the
    next page, so it shows the whole list exactly if the first page is all of
    it or the pages have ten tasks (`scroll_loads_iff`). -/

namespace TimeManager

open Lts Checked Prefetch

/-! ## Section 1: Displaying rows -/

/-- The session of a list screen, and the number of rows displayed so far. -/
structure Scroll where
  session : PagingSession
  row : Nat

namespace Scroll

/-- Display the next row, if there is one, and deliver the response to the
    request that it makes the screen send. -/
def next (dates : DateFormats) (answer : ListRequest → Option (Payload TaskList)) (s : Scroll) :
    Except Trap Scroll :=
  if s.row < s.session.model.data.length then
    (s.session.model.willDisplay s.row).map fun r =>
      ⟨s.session.fetch dates answer r, s.row + 1⟩
  else .ok s

/-- The first page of a screen made with the model `m`, and then `k` rows. -/
def rows (dates : DateFormats) (answer : ListRequest → Option (Payload TaskList))
    (m : TaskListModel) : Nat → Except Trap Scroll
  | 0 => (PagingSession.getFirstTasks dates answer m).map fun session => ⟨session, 0⟩
  | k + 1 => (rows dates answer m k).bind (next dates answer)

/-- No row is left to display. -/
def Finished (s : Scroll) : Prop := s.session.model.data.length ≤ s.row

/-- The rows displayed and the rows there are. -/
def window (s : Scroll) : Window := ⟨s.row, s.session.model.data.length⟩

variable {dates : DateFormats} {answer : ListRequest → Option (Payload TaskList)}
  {s s' : Scroll}

theorem next_of_finished (h : s.Finished) : s.next dates answer = .ok s :=
  if_neg (Nat.not_lt.mpr h)

/-- The row ten before the end calls `getNextTask`. -/
theorem next_of_eq (h : s.row < s.session.model.data.length)
    (hten : s.session.model.data.length = s.row + 10) :
    s.next dates answer =
      (s.session.getNextTask dates answer).map fun session => ⟨session, s.row + 1⟩ := by
  have hdiff : (s.session.model.data.length : Int) - s.row = 10 := by omega
  rw [next, if_pos h, TaskListModel.willDisplay, if_pos hdiff, PagingSession.getNextTask]
  cases s.session.model.getNextTask with
  | error trap => rfl
  | ok request => rfl

/-- No other row does. -/
theorem next_of_ne (h : s.row < s.session.model.data.length)
    (hten : s.session.model.data.length ≠ s.row + 10) :
    s.next dates answer = .ok ⟨s.session, s.row + 1⟩ := by
  have hdiff : (s.session.model.data.length : Int) - s.row ≠ 10 := by omega
  rw [next, if_pos h, TaskListModel.willDisplay, if_neg hdiff]
  rfl

end Scroll

/-! ## Section 2: Rows as a window -/

section

variable {dates : DateFormats} {answer : ListRequest → Option (Payload TaskList)}
  {L : List TaskData} {l : Nat} {m : TaskListModel}

/-- The session has fetched the pages up to `p`, none of them past the last
    one, and the rows are the window's elements. -/
structure Scrolled (dates : DateFormats) (L : List TaskData) (l : Nat) (m : TaskListModel)
    (w : Window) (p : Nat) (s : Scroll) : Prop where
  fetched : Fetched dates L l m p s.session
  page_le : p ≤ Pages.pageCount l L.length
  window : s.window = w

theorem Fetched.length_data {p : Nat} {s : PagingSession} (h : Fetched dates L l m p s) :
    s.model.data.length = min L.length (p * l) := by
  rw [h.data, List.length_map, Pages.length_take_pages, Nat.mul_comm]

/-- **Step lemma**: a row that does not trap is an element of the window taken. -/
theorem Scrolled.next {w : Window} {p : Nat} {s s' : Scroll} (h : Scrolled dates L l m w p s)
    (hl : 0 < l) (hserver : ∀ r, AnswersPage L l r.page (answer r))
    (hs' : s.next dates answer = .ok s') :
    ∃ q, Scrolled dates L l m (w.take 10 l L.length) q s' := by
  obtain ⟨hfetched, hp, rfl⟩ := h
  have hlength := hfetched.length_data
  by_cases hrow : s.row < s.session.model.data.length
  · have htaken : s.window.taken < s.window.loaded := hrow
    by_cases hten : s.session.model.data.length = s.row + 10
    · rw [Scroll.next_of_eq hrow hten] at hs'
      rw [Window.take_of_eq htaken hten]
      obtain ⟨session, hcall, rfl⟩ := map_eq_ok.mp hs'
      rcases hfetched.next_of_ok hserver hcall with ⟨hall, rfl⟩ | ⟨hmore, hnext⟩
      · -- the last page is there already
        refine ⟨p, hfetched, hp, ?_⟩
        simp only [Scroll.window, Window.mk.injEq, true_and]
        omega
      · refine ⟨p + 1, hnext, ?_, ?_⟩
        · exact (Pages.lt_pageCount_iff hl hfetched.pos).mpr (by rwa [Nat.mul_comm])
        · have hlength' := hnext.length_data
          rw [Nat.succ_mul] at hlength'
          simp only [Scroll.window, Window.mk.injEq, true_and]
          omega
    · rw [Scroll.next_of_ne hrow hten] at hs'
      obtain rfl := Except.ok.inj hs'
      rw [Window.take_of_ne htaken hten]
      exact ⟨p, hfetched, hp, rfl⟩
  · have hfinished : s.Finished := Nat.not_lt.mp hrow
    rw [Scroll.next_of_finished hfinished] at hs'
    obtain rfl := Except.ok.inj hs'
    have hexhausted : s.window.Exhausted := hfinished
    rw [Window.take_of_exhausted hexhausted]
    exact ⟨p, hfetched, hp, rfl⟩

/-- A row does not trap if it is not the tenth from the end, or if all pages
    can be counted. -/
theorem Scrolled.next_ok {w : Window} {p : Nat} {s : Scroll} (h : Scrolled dates L l m w p s)
    (hl : 0 < l)
    (hok : w.loaded ≠ w.taken + 10 ∨ InRange (l * Pages.pageCount l L.length)) :
    ∃ s', s.next dates answer = .ok s' := by
  obtain ⟨hfetched, hp, rfl⟩ := h
  by_cases hrow : s.row < s.session.model.data.length
  · by_cases hten : s.session.model.data.length = s.row + 10
    · have hrange := hok.resolve_left (fun hne => hne hten)
      have hcall := hfetched.getNextTask hl hp hrange
      rw [Scroll.next_of_eq hrow hten, PagingSession.getNextTask, hcall]
      exact ⟨_, rfl⟩
    · exact ⟨_, Scroll.next_of_ne hrow hten⟩
  · exact ⟨s, Scroll.next_of_finished (Nat.not_lt.mp hrow)⟩

/-- The first page, and no row displayed. -/
theorem scrolled_first (dates : DateFormats) (m : TaskListModel)
    (hserver : ∀ r, AnswersPage L l r.page (answer r)) :
    ∃ s, Scroll.rows dates answer m 0 = .ok s ∧
      Scrolled dates L l m (Window.run 10 l L.length 0) 1 s := by
  obtain ⟨session, hsession, hfetched⟩ := getFirstTasks_fetched dates m hserver
  refine ⟨⟨session, 0⟩, ?_, hfetched, Pages.one_le_pageCount l L.length, ?_⟩
  · rw [Scroll.rows, hsession]
    rfl
  · have hlength := hfetched.length_data
    rw [Nat.one_mul] at hlength
    show Window.mk 0 session.model.data.length = ⟨0, min L.length l⟩
    rw [hlength]

/-- **Run lemma**: rows that do not trap are elements of the window taken. -/
theorem scrolled_of_rows (hl : 0 < l) (hserver : ∀ r, AnswersPage L l r.page (answer r)) {k : Nat}
    {s : Scroll} (hs : Scroll.rows dates answer m k = .ok s) :
    ∃ p, Scrolled dates L l m (Window.run 10 l L.length k) p s := by
  induction k generalizing s with
  | zero =>
    obtain ⟨s', hs', hfirst⟩ := scrolled_first dates m hserver
    obtain rfl := Except.ok.inj (hs'.symm.trans hs)
    exact ⟨1, hfirst⟩
  | succ k ih =>
    obtain ⟨t, hk, hnext⟩ := bind_eq_ok.mp hs
    obtain ⟨p, ht⟩ := ih hk
    exact ht.next hl hserver hnext

/-- Rows do not trap if none of them is the tenth from the end, or if all
    pages can be counted. -/
theorem rows_ok (dates : DateFormats) (m : TaskListModel) (hl : 0 < l)
    (hserver : ∀ r, AnswersPage L l r.page (answer r))
    (hok : (∀ k, (Window.run 10 l L.length k).loaded ≠ (Window.run 10 l L.length k).taken + 10) ∨
      InRange (l * Pages.pageCount l L.length)) (k : Nat) :
    ∃ s, Scroll.rows dates answer m k = .ok s := by
  induction k with
  | zero =>
    obtain ⟨s, hs, _⟩ := scrolled_first dates m hserver
    exact ⟨s, hs⟩
  | succ k ih =>
    obtain ⟨s, hs⟩ := ih
    obtain ⟨p, hscrolled⟩ := scrolled_of_rows hl hserver hs
    rw [Scroll.rows, hs]
    exact hscrolled.next_ok hl (hok.imp_left fun hne => hne k)

/-! ## Section 3: When all of the list is shown -/

/-- All data are there exactly if there are as many as tasks. -/
theorem Fetched.data_eq_iff {p : Nat} {s : PagingSession} (h : Fetched dates L l m p s) :
    s.model.data = L.map (internalTaskData dates) ↔ s.model.data.length = L.length := by
  constructor
  · intro hall
    rw [hall, List.length_map]
  · intro hlength
    rw [h.data, List.length_map, List.length_take] at hlength
    rw [h.data, List.take_of_length_le (by omega)]

/-- With pages of fewer than ten tasks no row asks for the second one. -/
theorem never_ten_before_end (h : l < 10) (n k : Nat) :
    (Window.run 10 l n k).loaded ≠ (Window.run 10 l n k).taken + 10 := by
  rw [Window.loaded_run_of_lt h]
  omega

/-- So do the keys of all tasks. -/
theorem Fetched.keys_eq_iff {p : Nat} {s : PagingSession} (h : Fetched dates L l m p s) :
    s.model.data.map InternalTaskData.key = L.map TaskData.key ↔
      s.model.data.length = L.length := by
  constructor
  · intro hkeys
    have hlength := congrArg List.length hkeys
    rwa [List.length_map, List.length_map] at hlength
  · intro hlength
    rw [h.data_eq_iff.mpr hlength, keys_internalTaskData]

/-- What says of the rows that they are as many as the tasks holds whenever
    no row is left exactly if the first page holds all of them or the pages
    have at least ten. -/
theorem finished_iff {Complete : PagingSession → Prop} (hl : 0 < l)
    (hserver : ∀ r, AnswersPage L l r.page (answer r))
    (hcomplete : ∀ p s, Fetched dates L l m p s →
      (Complete s ↔ s.model.data.length = L.length)) :
    (∀ k s, Scroll.rows dates answer m k = .ok s → s.Finished → Complete s.session) ↔
      L.length ≤ l ∨ 10 ≤ l := by
  -- what the window says about the rows
  have hrows : ∀ k s, Scroll.rows dates answer m k = .ok s →
      (s.Finished ↔ (Window.run 10 l L.length k).Exhausted) ∧
      (Complete s.session ↔ (Window.run 10 l L.length k).loaded = L.length) := by
    intro k s hs
    obtain ⟨p, hfetched, _, hwindow⟩ := scrolled_of_rows hl hserver hs
    rw [← hwindow]
    exact ⟨Iff.rfl, hcomplete p _ hfetched⟩
  constructor
  · intro hall
    by_contra hshort
    have hten : ∀ k, _ := never_ten_before_end (l := l) (by omega) L.length
    obtain ⟨s, hs⟩ := rows_ok dates m hl hserver (.inl hten) L.length
    obtain ⟨hfinished, hdata⟩ := hrows _ s hs
    have hloaded := hdata.mp (hall _ s hs (hfinished.mpr (Window.exhausted_run 10 l L.length)))
    rw [Window.loaded_run_of_lt (by omega)] at hloaded
    omega
  · intro hbig k s hs hend
    obtain ⟨hfinished, hdata⟩ := hrows k s hs
    exact hdata.mpr ((Window.loads_all_iff (by decide) hl).mpr hbig k (hfinished.mp hend))

/-- **Scrolling.**  Let the first page be delivered, the rows be displayed in
    their order, and each reply be delivered before the next row is.

    * Whenever no row is left, the data are the server's whole list, exactly
      if the first page holds all of it or the pages have at least ten tasks.
    * If the pages can be counted, there comes a time when no row is left. -/
theorem scroll_loads_iff (hl : 0 < l) (hserver : ∀ r, AnswersPage L l r.page (answer r)) :
    ((∀ k s, Scroll.rows dates answer m k = .ok s → s.Finished →
        s.session.model.data = L.map (internalTaskData dates)) ↔ L.length ≤ l ∨ 10 ≤ l) ∧
    (InRange (l * Pages.pageCount l L.length) →
      ∃ k s, Scroll.rows dates answer m k = .ok s ∧ s.Finished) := by
  refine ⟨finished_iff hl hserver fun _ _ hfetched => hfetched.data_eq_iff, ?_⟩
  intro hrange
  obtain ⟨s, hs⟩ := rows_ok dates m hl hserver (.inr hrange) L.length
  obtain ⟨p, _, _, hwindow⟩ := scrolled_of_rows hl hserver hs
  have hend := Window.exhausted_run 10 l L.length
  rw [← hwindow] at hend
  exact ⟨_, s, hs, hend⟩

/-- By id, title and priority, whenever no row is left the tasks shown are
    those of the server, in its order, under the same condition. -/
theorem scroll_shows_keys_iff (hl : 0 < l) (hserver : ∀ r, AnswersPage L l r.page (answer r)) :
    (∀ k s, Scroll.rows dates answer m k = .ok s → s.Finished →
        s.session.model.data.map InternalTaskData.key = L.map TaskData.key) ↔
      L.length ≤ l ∨ 10 ≤ l :=
  finished_iff hl hserver fun _ _ hfetched => hfetched.keys_eq_iff

/-! ## Section 4: Scrolling as a run of the screen -/

/-- A row is displayed, and its request answered, by steps of the screen. -/
theorem Scroll.next_reachable {s s' : Scroll} (hserver : ∀ r, AnswersPage L l r.page (answer r))
    (h : (screenSystem dates L l m).Reachable ⟨s.session.model, []⟩)
    (hs' : s.next dates answer = .ok s') :
    (screenSystem dates L l m).Reachable ⟨s'.session.model, []⟩ := by
  unfold Scroll.next at hs'
  split at hs'
  · next hrow =>
    obtain ⟨request, hdisplay, rfl⟩ := map_eq_ok.mp hs'
    have hstep : (⟨s.session.model, []⟩ : TaskListScreen).step dates (.willDisplay s.row) =
        some ⟨s.session.model, request.toList⟩ := by
      simp only [TaskListScreen.step, if_pos hrow, hdisplay, List.nil_append]
    have hdisplayed := h.step (screenSystem_display s.row hstep)
    cases request with
    | none => exact hdisplayed
    | some r =>
      -- the request in flight is answered
      have hdeliver : (screenSystem dates L l m).step ⟨s.session.model, [r]⟩
          (.deliver 0 (answer r)) ⟨s.session.model.respond dates (answer r), []⟩ := by
        refine ⟨?_, rfl⟩
        intro r' hr'
        obtain rfl := Option.some.inj hr'
        exact .inl (hserver r)
      exact hdisplayed.step hdeliver
  · obtain rfl := Except.ok.inj hs'
    exact h

/-- What is shown while scrolling is a state of the screen in some run. -/
theorem scroll_reachable (hserver : ∀ r, AnswersPage L l r.page (answer r)) {k : Nat} {s : Scroll}
    (hs : Scroll.rows dates answer m k = .ok s) :
    (screenSystem dates L l m).Reachable ⟨s.session.model, []⟩ := by
  induction k generalizing s with
  | zero =>
    rw [Scroll.rows, PagingSession.getFirstTasks_eq] at hs
    obtain rfl := Except.ok.inj hs
    have hdeliver : (screenSystem dates L l m).step ⟨m.reset, [⟨1, m.sorting, m.direction⟩]⟩
        (.deliver 0 (answer ⟨1, m.sorting, m.direction⟩))
        ⟨m.reset.respond dates (answer ⟨1, m.sorting, m.direction⟩), []⟩ := by
      refine ⟨?_, rfl⟩
      intro r' hr'
      obtain rfl := Option.some.inj hr'
      exact .inl (hserver _)
    exact .step (.init (TaskListScreen.viewDidLoad_eq m)) hdeliver
  | succ k ih =>
    obtain ⟨t, hk, hnext⟩ := bind_eq_ok.mp hs
    exact Scroll.next_reachable hserver (ih hk) hnext

end

/-- Eleven tasks in pages of ten. -/
theorem scroll_loads_eleven :
    ∃ k s, Scroll.rows epochDates (serverAnswer (epochTasks 11) 10 900) .new k = .ok s ∧
      s.Finished ∧ s.session.model.data = (epochTasks 11).map (internalTaskData epochDates) := by
  have hscroll := @scroll_loads_iff epochDates _ (epochTasks 11) 10 .new (by decide)
    (answersPage_serverAnswer (epochTasks 11) 10 900)
  obtain ⟨k, s, hs, hfinished⟩ := hscroll.2 (by decide)
  exact ⟨k, s, hs, hfinished, hscroll.1.mpr (.inr (by decide)) k s hs hfinished⟩

/-- Six tasks in pages of five: the sixth is never asked for. -/
theorem not_scroll_loads :
    ¬ ∀ (L : List TaskData) (l : Nat), 0 < l →
      ∀ k s, Scroll.rows epochDates (serverAnswer L l 500) .new k = .ok s → s.Finished →
        s.session.model.data = L.map (internalTaskData epochDates) := by
  intro h
  have hserver := answersPage_serverAnswer (epochTasks 6) 5 500
  obtain ⟨s, hs⟩ := rows_ok epochDates .new (by decide) hserver (.inr (by decide)) 5
  obtain ⟨p, hfetched, _, hwindow⟩ := scrolled_of_rows (by decide) hserver hs
  have hfinished : s.window.Exhausted := by
    rw [hwindow]
    unfold Window.Exhausted
    decide
  have hlength := congrArg List.length (h (epochTasks 6) 5 (by decide) 5 s hs hfinished)
  have hloaded : s.session.model.data.length = 5 := congrArg Window.loaded hwindow
  rw [hloaded] at hlength
  exact absurd hlength (by decide)

end TimeManager
