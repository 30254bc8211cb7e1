import TimeManager.Paging.Server

/-! # Sequential Paging

    `getFirstTasks` followed by calls of `getNextTask`, each answered before
    the next one is made.  The run sends the requests for pages `1, 2, ...`
    up to the last page and no more, and the model's data are the tasks of
    those pages (`sequential_paging`). -/

namespace TimeManager

open Checked

/-! ## Section 1: The run -/

/-- A model and the requests sent so far, the oldest first. -/
structure PagingSession where
  model : TaskListModel
  requests : List ListRequest

namespace PagingSession

/-- Send the request, if there is one, and deliver its response. -/
def fetch (dates : DateFormats) (answer : ListRequest → Option (Payload TaskList))
    (s : PagingSession) : Option ListRequest → PagingSession
  | none => s
  | some r => ⟨s.model.respond dates (answer r), s.requests ++ [r]⟩

/-- `getFirstTasks` and then `k` calls of `getNextTask` on the model `m`. -/
def sequential (dates : DateFormats) (answer : ListRequest → Option (Payload TaskList))
    (m : TaskListModel) : Nat → Except Trap PagingSession
  | 0 => m.getFirstTasks.map fun (m, r) => fetch dates answer ⟨m, []⟩ r
  | k + 1 => (sequential dates answer m k).bind fun s =>
      s.model.getNextTask.map (fetch dates answer s)

end PagingSession

/-! ## Section 2: The invariant -/

section

variable {dates : DateFormats} {answer : ListRequest → Option (Payload TaskList)}
  {L : List TaskData} {l : Nat} {m : TaskListModel}

/-- The state after the pages up to `p` have been fetched. -/
structure Fetched (dates : DateFormats) (L : List TaskData) (l : Nat) (m : TaskListModel)
    (p : Nat) (s : PagingSession) : Prop where
  pos : 1 ≤ p
  page : s.model.page = p
  limit : s.model.limit = l
  totalCounts : s.model.totalCounts = L.length
  sorting : s.model.sorting = m.sorting
  direction : s.model.direction = m.direction
  data : s.model.data = (L.take (p * l)).map (internalTaskData dates)
  requests : s.requests = (List.range p).map fun i => ⟨i + 1, m.sorting, m.direction⟩

/-- Fetching the next page. -/
theorem Fetched.fetch {p : Nat} {s : PagingSession} (h : Fetched dates L l m p s)
    (hserver : ∀ r, AnswersPage L l r.page (answer r)) :
    Fetched dates L l m (p + 1)
      (s.fetch dates answer (some ⟨p + 1, m.sorting, m.direction⟩)) := by
  have hresp := s.model.respond_of_answersPage dates (hserver ⟨p + 1, m.sorting, m.direction⟩)
  simp only [PagingSession.fetch, hresp]
  refine ⟨by omega, rfl, rfl, rfl, h.sorting, h.direction, ?_, ?_⟩
  · show s.model.data ++ (pageTasks L l (p + 1)).map (internalTaskData dates) = _
    rw [h.data, ← List.map_append, ← Pages.take_append_page]
    rfl
  · rw [h.requests, List.range_succ, List.map_append]
    rfl

/-- The first page, whatever the model was before. -/
theorem fetched_first (hserver : ∀ r, AnswersPage L l r.page (answer r)) :
    ∃ s, PagingSession.sequential dates answer m 0 = .ok s ∧ Fetched dates L l m 1 s := by
  have hresp := m.reset.respond_of_answersPage dates (hserver ⟨1, m.sorting, m.direction⟩)
  refine ⟨_, by rw [PagingSession.sequential, m.getFirstTasks_eq]; rfl, ?_⟩
  simp only [PagingSession.fetch, hresp]
  refine ⟨by omega, rfl, rfl, rfl, rfl, rfl, ?_, rfl⟩
  -- the first page follows no page at all
  have htake := Pages.take_append_page l L 0
  simp only [Nat.zero_mul, List.take_zero, List.nil_append, Nat.zero_add] at htake
  simp only [← htake]
  rfl

/-- The next call asks for the next page exactly while tasks are left. -/
theorem Fetched.getNextTask {p : Nat} {s : PagingSession} (h : Fetched dates L l m p s)
    (hl : 0 < l) (hp : p ≤ Pages.pageCount l L.length)
    (hrange : InRange (l * Pages.pageCount l L.length)) :
    s.model.getNextTask = .ok (if l * p < L.length
      then some ⟨p + 1, m.sorting, m.direction⟩ else none) := by
  have hmulle : l * p ≤ l * Pages.pageCount l L.length := Nat.mul_le_mul_left l hp
  have hzero : s.model.page ≠ 0 := by
    rw [h.page]
    have := h.pos
    omega
  have hprod : s.model.page * s.model.limit = ((l * p : Nat) : Int) := by
    rw [h.page, h.limit, Nat.mul_comm l p]
    rfl
  have hmul : InRange (s.model.page * s.model.limit) := by
    rw [hprod]
    unfold InRange at hrange ⊢
    constructor
    · omega
    · exact Int.lt_of_le_of_lt (by exact_mod_cast hmulle) hrange.2
  have hadd : s.model.page * s.model.limit < s.model.totalCounts →
      InRange (s.model.page + 1) := by
    intro hmore
    rw [hprod, h.totalCounts] at hmore
    -- the page asked for exists, so its number is in range as well
    have hlt : p < Pages.pageCount l L.length :=
      (Pages.lt_pageCount_iff hl h.pos).mpr (by exact_mod_cast hmore)
    have hle : p + 1 ≤ l * Pages.pageCount l L.length :=
      Nat.le_trans hlt (Nat.le_mul_of_pos_left _ hl)
    rw [h.page]
    unfold InRange at hrange ⊢
    constructor
    · omega
    · exact Int.lt_of_le_of_lt (by exact_mod_cast hle) hrange.2
  rw [TaskListModel.getNextTask_of_inRange hzero hmul hadd, hprod, h.totalCounts, h.page,
    h.sorting, h.direction]
  simp only [Int.ofNat_lt]

/-- **Run lemma**: after `k` further calls as many pages have been fetched as
    calls were made, up to the last page. -/
theorem sequential_fetched (hl : 0 < l) (hserver : ∀ r, AnswersPage L l r.page (answer r))
    (hrange : InRange (l * Pages.pageCount l L.length)) (k : Nat) :
    ∃ s, PagingSession.sequential dates answer m k = .ok s ∧
      Fetched dates L l m (min (k + 1) (Pages.pageCount l L.length)) s := by
  have hone := Pages.one_le_pageCount l L.length
  induction k with
  | zero =>
    rw [Nat.zero_add, Nat.min_eq_left hone]
    exact fetched_first hserver
  | succ k ih =>
    obtain ⟨s, hs, hfetched⟩ := ih
    have hnext := hfetched.getNextTask hl (Nat.min_le_right _ _) hrange
    simp only [PagingSession.sequential, hs, Except.bind, hnext, Except.map]
    refine ⟨_, rfl, ?_⟩
    by_cases hlast : k + 1 < Pages.pageCount l L.length
    · -- a page is left
      have hmin : min (k + 1) (Pages.pageCount l L.length) = k + 1 := by omega
      have hmin' : min (k + 1 + 1) (Pages.pageCount l L.length) = k + 1 + 1 := by omega
      rw [hmin] at hfetched
      rw [hmin, hmin', if_pos ((Pages.lt_pageCount_iff hl (by omega)).mp hlast)]
      exact hfetched.fetch hserver
    · -- the last page has been fetched, and nothing is sent
      have hmin : min (k + 1) (Pages.pageCount l L.length) = Pages.pageCount l L.length := by omega
      have hmin' : min (k + 1 + 1) (Pages.pageCount l L.length) =
          Pages.pageCount l L.length := by omega
      rw [hmin] at hfetched
      have hdone : ¬ l * Pages.pageCount l L.length < L.length :=
        Nat.not_lt.mpr (Pages.le_mul_pageCount hl _)
      rw [hmin, hmin', if_neg hdone]
      exact hfetched

/-! ## Section 3: Sequential paging is complete and stops at the end -/

/-- The number of data in a state with `p` pages, and whether that is all. -/
theorem Fetched.length_lt_iff {p : Nat} {s : PagingSession} (h : Fetched dates L l m p s) :
    s.model.data.length < L.length ↔ l * p < L.length := by
  rw [h.data, List.length_map, Pages.length_take_pages]
  omega

theorem Fetched.length_requests {p : Nat} {s : PagingSession} (h : Fetched dates L l m p s) :
    s.requests.length = p := by
  rw [h.requests, List.length_map, List.length_range]

/-- **Sequential paging.**  From any model, after `getFirstTasks` and `k`
    calls of `getNextTask`, each answered before the next call, with `r`
    the number of requests sent:

    * the data are the first `min |L| (l * r)` tasks of `L`;
    * the next call sends a request exactly while the data are fewer than
      `|L|`, and it is the one for page `r + 1`;
    * `r` grows by one with each call up to `max 1 ⌈|L| / l⌉`, where the
      data are all of `L`. -/
theorem sequential_paging (hl : 0 < l) (hserver : ∀ r, AnswersPage L l r.page (answer r))
    (hrange : InRange (l * Pages.pageCount l L.length)) (k : Nat) :
    ∃ s, PagingSession.sequential dates answer m k = .ok s ∧
      s.model.data =
        (L.take (min L.length (l * s.requests.length))).map (internalTaskData dates) ∧
      s.model.getNextTask = .ok (if s.model.data.length < L.length
        then some ⟨s.requests.length + 1, m.sorting, m.direction⟩ else none) ∧
      s.requests =
        (List.range s.requests.length).map (fun i => ⟨i + 1, m.sorting, m.direction⟩) ∧
      s.requests.length = min (k + 1) (Pages.pageCount l L.length) ∧
      (Pages.pageCount l L.length ≤ k + 1 →
        s.requests.length = Pages.pageCount l L.length ∧
        s.model.data = L.map (internalTaskData dates)) := by
  obtain ⟨s, hs, hfetched⟩ : ∃ s, PagingSession.sequential dates answer m k = .ok s ∧
      Fetched dates L l m (min (k + 1) (Pages.pageCount l L.length)) s :=
    sequential_fetched hl hserver hrange k
  have hlen := hfetched.length_requests
  have hdata : s.model.data =
      (L.take (min L.length (l * s.requests.length))).map (internalTaskData dates) := by
    rw [hfetched.data, hlen, Nat.mul_comm l]
    congr 1
    rw [List.take_eq_take_iff]
    omega
  refine ⟨s, hs, hdata, ?_, ?_, hlen, ?_⟩
  · have hnext := hfetched.getNextTask hl (Nat.min_le_right _ _) hrange
    rw [hnext, hlen]
    simp only [hfetched.length_lt_iff]
  · rw [hlen]
    exact hfetched.requests
  · intro hk
    have hall : s.requests.length = Pages.pageCount l L.length := by
      rw [hlen]
      omega
    have hend := Pages.le_mul_pageCount hl L.length
    refine ⟨hall, ?_⟩
    rw [hdata, hall, Nat.min_eq_left hend, List.take_length]

/-- By id, title and priority, the tasks shown after `k` further calls are
    those of the pages that have been fetched, in the server's order. -/
theorem sequential_shows_keys (hl : 0 < l) (hserver : ∀ r, AnswersPage L l r.page (answer r))
    (hrange : InRange (l * Pages.pageCount l L.length)) (k : Nat) :
    ∃ s, PagingSession.sequential dates answer m k = .ok s ∧
      s.model.data.map InternalTaskData.key =
        (L.map TaskData.key).take (min (k + 1) (Pages.pageCount l L.length) * l) := by
  obtain ⟨s, hs, hfetched⟩ := sequential_fetched hl hserver hrange k
  refine ⟨s, hs, ?_⟩
  rw [hfetched.data, keys_internalTaskData, List.map_take]

end

/-- Three tasks in pages of two: the second request is the last one. -/
theorem sequential_paging_three :
    ∃ s, PagingSession.sequential epochDates (serverAnswer (epochTasks 3) 2 200) {} 1 = .ok s ∧
      s.requests.length = 2 ∧
      s.model.data = (epochTasks 3).map (internalTaskData epochDates) := by
  obtain ⟨s, hs, _, _, _, _, hall⟩ :=
    @sequential_paging epochDates (serverAnswer (epochTasks 3) 2 200) (epochTasks 3) 2 {}
      (by decide) (answersPage_serverAnswer (epochTasks 3) 2 200) (by decide) 1
  exact ⟨s, hs, hall (by decide)⟩

end TimeManager
