import TimeManager.Paging.Loading

/-! # Models Made from a Reply

    The coordinator makes a list's model from the reply to its own request
    for the first page.  Such a model is on page `1` but keeps neither the
    counters nor the due dates of that reply: its next call sends nothing,
    whatever the server holds, and it ends with what a fetched model ends
    with only for an empty list and the limit `15` (`pages_alike_iff`). -/

namespace TimeManager

open Checked

/-- The model made from the first page's reply and the model `m` after
    `getFirstTasks`, both drained by calls of `getNextTask`, end with the
    same list. -/
def PagesAlike (dates : DateFormats) (answer : ListRequest → Option (Payload TaskList))
    (m : TaskListModel) : Prop :=
  ∃ list i j s t,
    RequesterURL.getTaskListResponse (answer ⟨1, .title, true⟩) = [.toDoIfSuccess list] ∧
    PagingSession.getNextTasks dates (fun _ => answer) ⟨.seeded (some list), []⟩ i = .ok s ∧
    s.Drained ∧
    PagingSession.sequential dates answer m j = .ok t ∧ t.Drained ∧
    SameList s.model t.model

section

variable {dates : DateFormats} {answer : ListRequest → Option (Payload TaskList)}
  {L : List TaskData} {l : Nat} {m : TaskListModel}

/-- A model made from a reply sends no request, since it counts no tasks. -/
theorem seeded_drained (list : Option TaskList) :
    (⟨.seeded list, []⟩ : PagingSession).Drained := by
  have hrange : InRange (1 * 15) := by decide
  have hnext := (TaskListModel.seeded list).getNextTask_of_inRange (by simp) (by simpa using hrange)
    (by simp)
  show (TaskListModel.seeded list).getNextTask = _
  simpa using hnext

/-- The list that the coordinator gets from the server's answer. -/
theorem getTaskListResponse_of_answersPage {p : Int} {response : Option (Payload TaskList)}
    (h : AnswersPage L l p response) :
    RequesterURL.getTaskListResponse response =
      [.toDoIfSuccess ⟨some (pageTasks L l p), some (pageMeta L l p), none⟩] := by
  obtain ⟨data, result, rfl, hresult, htasks, hmeta⟩ := h
  simp [RequesterURL.getTaskListResponse, hresult, htasks, hmeta]

/-- With no tasks and the limit `15` the counters are the ones a model has
    when it is made. -/
theorem pagesAlike_nil (hserver : ∀ r, AnswersPage [] 15 r.page (answer r)) :
    PagesAlike dates answer m := by
  obtain ⟨t, ht, hfetched⟩ : ∃ t, PagingSession.sequential dates answer m 0 = .ok t ∧
      Fetched dates [] 15 m 1 t := fetched_first hserver
  have hdrained : t.Drained :=
    hfetched.getNextTask (by decide) (by decide) (by decide)
  refine ⟨_, 0, 0, _, t, getTaskListResponse_of_answersPage (hserver ⟨1, .title, true⟩), rfl,
    seeded_drained _, ht, hdrained, ?_⟩
  constructor
  · rw [hfetched.data]
    rfl
  · rw [hfetched.page]
    rfl
  · rw [hfetched.totalCounts]
    rfl
  · rw [hfetched.limit]
    rfl

/-- **Seeded and fetched models.**  For a server that holds `L` in pages of
    `l`, the model the coordinator makes from the first page's reply ends, once
    it is drained, with the same data, page, total and limit as a model that
    has fetched the first page, exactly if `L` is empty and `l` is `15`. -/
theorem pages_alike_iff (hserver : ∀ r, AnswersPage L l r.page (answer r)) :
    PagesAlike dates answer m ↔ L = [] ∧ l = 15 := by
  constructor
  · rintro ⟨list, i, j, s, t, _, hs, _, ht, _, hsame⟩
    -- the seeded model has stayed as it was made
    rw [(seeded_drained (some list)).getNextTasks] at hs
    obtain rfl := Except.ok.inj hs
    obtain ⟨p, hfetched⟩ := sequential_fetched_of_ok hserver ht
    have htotal : (0 : Int) = L.length := hsame.totalCounts.trans hfetched.totalCounts
    have hlimit : (15 : Int) = l := hsame.limit.trans hfetched.limit
    exact ⟨List.length_eq_zero_iff.mp (by omega), by omega⟩
  · rintro ⟨rfl, rfl⟩
    exact pagesAlike_nil hserver

end

theorem pages_alike_empty : PagesAlike epochDates (serverAnswer [] 15 80) .new :=
  (pages_alike_iff (answersPage_serverAnswer [] 15 80)).mpr ⟨rfl, rfl⟩

/-- One task is enough: the model made from its reply has no due date for it,
    and counts no tasks. -/
theorem not_pages_alike :
    ¬ ∀ (L : List TaskData) (l : Nat), 0 < l → PagesAlike epochDates (serverAnswer L l 200) .new := by
  intro h
  obtain ⟨list, i, j, s, t, _, hs, _, ht, _, hsame⟩ := h (epochTasks 1) 15 (by decide)
  rw [(seeded_drained (some list)).getNextTasks] at hs
  obtain rfl := Except.ok.inj hs
  obtain ⟨p, hfetched⟩ := sequential_fetched_of_ok (answersPage_serverAnswer (epochTasks 1) 15 200) ht
  have htotal : (0 : Int) = (epochTasks 1).length :=
    hsame.totalCounts.trans hfetched.totalCounts
  exact absurd htotal (by decide)

end TimeManager
