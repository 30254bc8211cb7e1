import TimeManager.Paging.Sequential

/-! # Loading with Any Responses

    One call of `getFirstTasks` or `getNextTask` together with the response
    to the request it sends, whatever that is.  A failing response leaves the
    list as `getNextTask` found it, but `getFirstTasks` has emptied the list
    by then (`failed_load_iff`). -/

namespace TimeManager

open Checked

namespace PagingSession

variable {dates : DateFormats} {answer : ListRequest → Option (Payload TaskList)}

/-! ## Section 1: Calls and their responses -/

/-- `getFirstTasks` on the model `m`, and the response to its request. -/
def getFirstTasks (dates : DateFormats) (answer : ListRequest → Option (Payload TaskList))
    (m : TaskListModel) : Except Trap PagingSession :=
  m.getFirstTasks.map fun (m, r) => fetch dates answer ⟨m, []⟩ r

/-- `getNextTask`, and the response to its request, if it sends one. -/
def getNextTask (dates : DateFormats) (answer : ListRequest → Option (Payload TaskList))
    (s : PagingSession) : Except Trap PagingSession :=
  s.model.getNextTask.map (fetch dates answer s)

/-- `k` calls of `getNextTask`.  The responses may depend on the number of
    requests that were sent before. -/
def getNextTasks (dates : DateFormats) (answer : Nat → ListRequest → Option (Payload TaskList))
    (s : PagingSession) : Nat → Except Trap PagingSession
  | 0 => .ok s
  | k + 1 => (getNextTasks dates answer s k).bind fun s =>
      getNextTask dates (answer s.requests.length) s

/-- The next call sends nothing. -/
def Drained (s : PagingSession) : Prop := s.model.getNextTask = .ok none

theorem getFirstTasks_eq (dates : DateFormats)
    (answer : ListRequest → Option (Payload TaskList)) (m : TaskListModel) :
    getFirstTasks dates answer m =
      .ok ⟨m.reset.respond dates (answer ⟨1, m.sorting, m.direction⟩),
        [⟨1, m.sorting, m.direction⟩]⟩ := by
  rw [getFirstTasks, m.getFirstTasks_eq]
  rfl

/-- A call sends nothing and keeps the session, or its request is answered. -/
theorem getNextTask_cases {s s' : PagingSession} (h : getNextTask dates answer s = .ok s') :
    (s.Drained ∧ s' = s) ∨
    ∃ r, s.model.getNextTask = .ok (some r) ∧
      s' = ⟨s.model.respond dates (answer r), s.requests ++ [r]⟩ := by
  obtain ⟨request, hnext, rfl⟩ := map_eq_ok.mp h
  cases request with
  | none => exact .inl ⟨hnext, rfl⟩
  | some r => exact .inr ⟨r, hnext, rfl⟩

theorem Drained.getNextTask {s : PagingSession} (h : s.Drained) :
    getNextTask dates answer s = .ok s := by
  unfold PagingSession.getNextTask
  rw [show s.model.getNextTask = .ok none from h]
  rfl

/-- A drained session stays as it is. -/
theorem Drained.getNextTasks {answer : Nat → ListRequest → Option (Payload TaskList)}
    {s : PagingSession} (h : s.Drained) (k : Nat) : getNextTasks dates answer s k = .ok s := by
  induction k with
  | zero => rfl
  | succ k ih =>
    rw [PagingSession.getNextTasks, ih]
    exact h.getNextTask

/-- The run of sequential paging, made of these calls. -/
theorem sequential_eq (dates : DateFormats) (answer : ListRequest → Option (Payload TaskList))
    (m : TaskListModel) (k : Nat) :
    sequential dates answer m k =
      (getFirstTasks dates answer m).bind fun s => getNextTasks dates (fun _ => answer) s k := by
  have hfirst := getFirstTasks_eq dates answer m
  induction k with
  | zero =>
    rw [hfirst]
    exact hfirst
  | succ k ih =>
    rw [sequential, ih, hfirst]
    rfl

end PagingSession

/-! ## Section 2: Calls against a server -/

section

variable {dates : DateFormats} {answer : ListRequest → Option (Payload TaskList)}
  {L : List TaskData} {l : Nat} {m : TaskListModel}

/-- The first page, with its state. -/
theorem getFirstTasks_fetched (dates : DateFormats) (m : TaskListModel)
    (hserver : ∀ r, AnswersPage L l r.page (answer r)) :
    ∃ s, PagingSession.getFirstTasks dates answer m = .ok s ∧ Fetched dates L l m 1 s :=
  fetched_first hserver

/-- **Step lemma**: a call that does not trap fetches the next page, or sends
    nothing because no tasks are left. -/
theorem Fetched.next_of_ok {p : Nat} {s s' : PagingSession} (h : Fetched dates L l m p s)
    (hserver : ∀ r, AnswersPage L l r.page (answer r))
    (hs' : PagingSession.getNextTask dates answer s = .ok s') :
    (L.length ≤ p * l ∧ s' = s) ∨ (p * l < L.length ∧ Fetched dates L l m (p + 1) s') := by
  have hzero : s.model.page ≠ 0 := by
    rw [h.page]
    have := h.pos
    omega
  have hprod : s.model.page * s.model.limit = ((p * l : Nat) : Int) := by
    rw [h.page, h.limit]
    rfl
  rcases PagingSession.getNextTask_cases hs' with ⟨hdrained, rfl⟩ | ⟨r, hnext, rfl⟩
  · left
    rcases TaskListModel.getNextTask_cases hdrained with ⟨_, hr⟩ | ⟨_, _, hr⟩ | ⟨_, hle, _⟩
    · cases hr
    · cases hr
    · rw [hprod, h.totalCounts] at hle
      exact ⟨by exact_mod_cast hle, rfl⟩
  · right
    rcases TaskListModel.getNextTask_cases hnext with ⟨hpage, _⟩ | ⟨_, hmore, hr⟩ | ⟨_, _, hr⟩
    · exact absurd hpage hzero
    · obtain rfl := Option.some.inj hr
      rw [hprod, h.totalCounts] at hmore
      refine ⟨by exact_mod_cast hmore, ?_⟩
      rw [h.page, h.sorting, h.direction]
      exact h.fetch hserver
    · cases hr

/-- **Run lemma**: calls that do not trap have fetched some pages. -/
theorem Fetched.getNextTasks_of_ok {p k : Nat} {s s' : PagingSession}
    (h : Fetched dates L l m p s) (hserver : ∀ r, AnswersPage L l r.page (answer r))
    (hs' : PagingSession.getNextTasks dates (fun _ => answer) s k = .ok s') :
    ∃ q, Fetched dates L l m q s' := by
  induction k generalizing s' with
  | zero =>
    obtain rfl := Except.ok.inj hs'
    exact ⟨p, h⟩
  | succ k ih =>
    obtain ⟨t, hk, hcall⟩ := bind_eq_ok.mp hs'
    obtain ⟨q, hq⟩ := ih hk
    rcases hq.next_of_ok hserver hcall with ⟨_, rfl⟩ | ⟨_, hnext⟩
    · exact ⟨q, hq⟩
    · exact ⟨q + 1, hnext⟩

theorem sequential_fetched_of_ok {k : Nat} {s : PagingSession}
    (hserver : ∀ r, AnswersPage L l r.page (answer r))
    (hs : PagingSession.sequential dates answer m k = .ok s) : ∃ p, Fetched dates L l m p s := by
  obtain ⟨first, hok, hfetched⟩ := getFirstTasks_fetched dates m hserver
  rw [PagingSession.sequential_eq, hok] at hs
  exact hfetched.getNextTasks_of_ok hserver hs

end

/-! ## Section 3: Failed loads -/

/-- The two models show the same list, loaded equally far. -/
structure SameList (m m' : TaskListModel) : Prop where
  data : m.data = m'.data
  page : m.page = m'.page
  totalCounts : m.totalCounts = m'.totalCounts
  limit : m.limit = m'.limit

/-- With this response both calls leave the list as it was before. -/
structure KeepsList (dates : DateFormats) (m : TaskListModel)
    (response : Option (Payload TaskList)) : Prop where
  first : ∀ s, PagingSession.getFirstTasks dates (fun _ => response) m = .ok s →
    SameList s.model m
  next : ∀ s, PagingSession.getNextTask dates (fun _ => response) ⟨m, []⟩ = .ok s →
    SameList s.model m

section

variable {dates : DateFormats} {response : Option (Payload TaskList)}

/-- `getNextTask` changes nothing before its response arrives. -/
theorem getNextTask_of_fails (m : TaskListModel) (hfail : FailsToLoad response)
    {s : PagingSession}
    (h : PagingSession.getNextTask dates (fun _ => response) ⟨m, []⟩ = .ok s) : s.model = m := by
  rcases PagingSession.getNextTask_cases h with ⟨_, rfl⟩ | ⟨r, _, rfl⟩
  · rfl
  · exact TaskListModel.respond_of_fails dates m hfail

/-- `getFirstTasks` empties the list before its response arrives. -/
theorem getFirstTasks_of_fails (dates : DateFormats) (m : TaskListModel)
    (hfail : FailsToLoad response) :
    ∃ s, PagingSession.getFirstTasks dates (fun _ => response) m = .ok s ∧
      s.model = { m with page := 0, data := [] } := by
  refine ⟨_, PagingSession.getFirstTasks_eq dates _ m, ?_⟩
  exact TaskListModel.respond_of_fails dates m.reset hfail

/-- **Failed loads.**  Let the response to a call fail.  After `getNextTask`
    the model is as it was before the call; after `getFirstTasks` it has page
    `0` and no data, and is as it was before in everything else.  So both
    leave the list as it was exactly if it was empty, on page `0`. -/
theorem failed_load_iff (dates : DateFormats) (m : TaskListModel) (hfail : FailsToLoad response) :
    (∀ s, PagingSession.getNextTask dates (fun _ => response) ⟨m, []⟩ = .ok s → s.model = m) ∧
    (∃ s, PagingSession.getFirstTasks dates (fun _ => response) m = .ok s ∧
      s.model = { m with page := 0, data := [] }) ∧
    (KeepsList dates m response ↔ m.data = [] ∧ m.page = 0) := by
  have hfirst := getFirstTasks_of_fails dates m hfail
  have hnext : ∀ s, PagingSession.getNextTask dates (fun _ => response) ⟨m, []⟩ = .ok s →
      s.model = m := fun s h => getNextTask_of_fails m hfail h
  refine ⟨hnext, hfirst, ?_⟩
  obtain ⟨s, hs, hmodel⟩ := hfirst
  constructor
  · intro hkeeps
    have hsame := hkeeps.first s hs
    rw [hmodel] at hsame
    exact ⟨hsame.data.symm, hsame.page.symm⟩
  · rintro ⟨hdata, hpage⟩
    constructor
    · intro s' hs'
      obtain rfl : s = s' := Except.ok.inj (hs.symm.trans hs')
      rw [hmodel]
      exact ⟨hdata.symm, hpage.symm, rfl, rfl⟩
    · intro s' hs'
      rw [hnext s' hs']
      exact ⟨rfl, rfl, rfl, rfl⟩

end

/-- The first half of forty tasks, by falling priority. -/
def halfLoaded : TaskListModel where
  data := (epochTasks 20).map (internalTaskData epochDates)
  sorting := .priority
  direction := false
  page := 2
  totalCounts := 40
  limit := 10

/-- A reply that decodes, but holds no tasks. -/
def withoutTasks : Option (Payload TaskList) := some ⟨48, some ⟨none, some ⟨3, 10, 40⟩, none⟩⟩

/-- A reply without tasks leaves half a list as it was after the request for
    the next page, and takes it away after the request for the first.  Nothing
    else is lost, so a list that is empty on page `0` is kept by both. -/
theorem failed_load_halfLoaded :
    (∃ s, PagingSession.getNextTask epochDates (fun _ => withoutTasks) ⟨halfLoaded, []⟩ = .ok s ∧
      s.requests.length = 1 ∧ s.model = halfLoaded) ∧
    (∃ s, PagingSession.getFirstTasks epochDates (fun _ => withoutTasks) halfLoaded = .ok s ∧
      s.model = { halfLoaded with page := 0, data := [] }) ∧
    ¬ KeepsList epochDates halfLoaded withoutTasks ∧
    KeepsList epochDates { halfLoaded with page := 0, data := [] } withoutTasks := by
  have hfail : FailsToLoad withoutTasks := by decide
  obtain ⟨hnext, hfirst, hkeeps⟩ := failed_load_iff epochDates halfLoaded hfail
  have hsent : PagingSession.getNextTask epochDates (fun _ => withoutTasks) ⟨halfLoaded, []⟩ =
      .ok ⟨halfLoaded.respond epochDates withoutTasks, [⟨3, .priority, false⟩]⟩ := rfl
  refine ⟨⟨_, hsent, rfl, hnext _ hsent⟩, hfirst, ?_, ?_⟩
  · intro h
    exact absurd (hkeeps.mp h).2 (by decide)
  · exact (failed_load_iff epochDates { halfLoaded with page := 0, data := [] } hfail).2.2.mpr
      ⟨rfl, rfl⟩

/-- The list the coordinator has made from the response to a login is gone
    after a first request without data. -/
theorem not_failed_load :
    ¬ ∀ (m : TaskListModel) (response : Option (Payload TaskList)), FailsToLoad response →
      KeepsList epochDates m response := by
  intro h
  have hkeeps := h (.seeded (some ⟨some (epochTasks 1), some (pageMeta (epochTasks 1) 15 1), none⟩))
    none (by intro data result hnone; cases hnone)
  have hsame := hkeeps.first _ (PagingSession.getFirstTasks_eq epochDates _ _)
  exact absurd hsame.data (by decide)

end TimeManager
