import TimeManager.Paging.Loading
import TimeManager.Paging.Overflow

/-! # When Paging Stops

    `getFirstTasks`, and `getNextTask` after each reply, against a sequence of
    replies that say what they like.  What the loop sends next depends on the
    meta data of the last reply alone, so it stops at the first reply whose
    meta data say that no tasks are left (`paging_stops_iff`), and no bound on
    the number of tasks makes it stop. -/

namespace TimeManager

open Checked

/-! ## Section 1: The loop -/

/-- After a reply with these meta data `getNextTask` sends nothing. -/
def Meta.Ends (mt : Meta) : Prop := mt.current ≠ 0 ∧ mt.count ≤ mt.current * mt.limit

instance (mt : Meta) : Decidable mt.Ends := by unfold Meta.Ends; infer_instance

namespace PagingSession

/-- `getFirstTasks` and `k` calls of `getNextTask`; the requests are answered
    with the replies in their order. -/
def loop (dates : DateFormats) (replies : Nat → Option (Payload TaskList)) (m : TaskListModel)
    (k : Nat) : Except Trap PagingSession :=
  (getFirstTasks dates (fun _ => replies 0) m).bind fun s =>
    getNextTasks dates (fun n _ => replies n) s k

/-- The loop sends at most `B` requests, and then nothing more. -/
def StopsWithin (dates : DateFormats) (replies : Nat → Option (Payload TaskList))
    (m : TaskListModel) (B : Nat) : Prop :=
  ∃ k s, loop dates replies m k = .ok s ∧ s.requests.length ≤ B ∧ s.Drained

end PagingSession

/-- The page that is asked for after `i` replies. -/
def askedPage (metas : Nat → Meta) : Nat → Int
  | 0 => 1
  | i + 1 => (metas i).current + 1

/-- The `j`-th reply arrives: after none before it the loop has stopped. -/
def Delivered (metas : Nat → Meta) (j : Nat) : Prop := ∀ i < j, ¬ (metas i).Ends

/-- The replies that arrive hold tasks and these meta data, on which the
    arithmetic stays in range. -/
def RepliesFit (metas : Nat → Meta) (replies : Nat → Option (Payload TaskList)) : Prop :=
  ∀ j, Delivered metas j → (∃ tasks, RepliesWith tasks (metas j) (replies j)) ∧ (metas j).Fits

theorem delivered_zero (metas : Nat → Meta) : Delivered metas 0 := by
  intro i hi
  cases hi

theorem Delivered.succ {metas : Nat → Meta} {j : Nat} (h : Delivered metas j)
    (hmore : ¬ (metas j).Ends) : Delivered metas (j + 1) := by
  intro i hi
  rcases Nat.lt_succ_iff_lt_or_eq.mp hi with hlt | rfl
  · exact h i hlt
  · exact hmore

theorem Delivered.of_succ {metas : Nat → Meta} {j : Nat} (h : Delivered metas (j + 1)) :
    Delivered metas j :=
  fun i hi => h i (Nat.lt_succ_of_lt hi)

/-! ## Section 2: The invariant -/

section

variable {dates : DateFormats} {replies : Nat → Option (Payload TaskList)}
  {metas : Nat → Meta} {m : TaskListModel}

/-- The state after the replies up to the `n`-th. -/
structure Replied (metas : Nat → Meta) (m : TaskListModel) (n : Nat) (s : PagingSession) :
    Prop where
  page : s.model.page = (metas n).current
  limit : s.model.limit = (metas n).limit
  totalCounts : s.model.totalCounts = (metas n).count
  sorting : s.model.sorting = m.sorting
  direction : s.model.direction = m.direction
  requests : s.requests =
    (List.range (n + 1)).map fun i => ⟨askedPage metas i, m.sorting, m.direction⟩

theorem Replied.length {n : Nat} {s : PagingSession} (h : Replied metas m n s) :
    s.requests.length = n + 1 := by
  rw [h.requests, List.length_map, List.length_range]

theorem replied_first {tasks : List TaskData} (dates : DateFormats) (m : TaskListModel)
    (hreply : RepliesWith tasks (metas 0) (replies 0)) :
    ∃ s, PagingSession.getFirstTasks dates (fun _ => replies 0) m = .ok s ∧
      Replied metas m 0 s := by
  refine ⟨_, PagingSession.getFirstTasks_eq dates _ m, ?_⟩
  rw [m.reset.respond_of_repliesWith dates hreply]
  exact ⟨rfl, rfl, rfl, rfl, rfl, rfl⟩

/-- After a reply that says no tasks are left nothing is sent. -/
theorem Replied.drained {n : Nat} {s : PagingSession} (h : Replied metas m n s)
    (hfits : (metas n).Fits) (hends : (metas n).Ends) : s.Drained := by
  obtain ⟨hzero, hle⟩ := hends
  rcases hfits with hpage | ⟨hmul, hadd⟩
  · exact absurd hpage hzero
  · rw [← h.page] at hzero
    rw [← h.page, ← h.limit] at hmul hle hadd
    rw [← h.totalCounts] at hle hadd
    have hnext := TaskListModel.getNextTask_of_inRange hzero hmul hadd
    rw [if_neg (Int.not_lt.mpr hle)] at hnext
    exact hnext

/-- After any other reply the page after its own is asked for. -/
theorem Replied.getNextTask {n : Nat} {s : PagingSession} (h : Replied metas m n s)
    (hfits : (metas n).Fits) (hmore : ¬ (metas n).Ends) :
    s.model.getNextTask = .ok (some ⟨askedPage metas (n + 1), m.sorting, m.direction⟩) := by
  show _ = Except.ok (some (ListRequest.mk ((metas n).current + 1) m.sorting m.direction))
  rw [← h.page, ← h.sorting, ← h.direction]
  by_cases hzero : (metas n).current = 0
  · -- page `0` is asked from as if it were the start
    rw [← h.page] at hzero
    rw [TaskListModel.getNextTask_zero hzero, hzero]
    rfl
  · obtain ⟨hmul, hadd⟩ := hfits.resolve_left hzero
    have hlt : (metas n).current * (metas n).limit < (metas n).count := by
      by_contra hle
      exact hmore ⟨hzero, Int.not_lt.mp hle⟩
    rw [← h.page] at hzero
    rw [← h.page, ← h.limit] at hmul hlt hadd
    rw [← h.totalCounts] at hlt hadd
    have hnext := TaskListModel.getNextTask_of_inRange hzero hmul hadd
    rw [if_pos hlt] at hnext
    exact hnext

/-- **Step lemma**: a reply after which more is asked for is followed by the
    next one. -/
theorem Replied.next {n : Nat} {s : PagingSession} {tasks : List TaskData}
    (h : Replied metas m n s) (hfits : (metas n).Fits) (hmore : ¬ (metas n).Ends)
    (hreply : RepliesWith tasks (metas (n + 1)) (replies (n + 1))) :
    ∃ s', PagingSession.getNextTask dates (fun _ => replies s.requests.length) s = .ok s' ∧
      Replied metas m (n + 1) s' := by
  unfold PagingSession.getNextTask
  rw [h.getNextTask hfits hmore, h.length]
  refine ⟨_, rfl, ?_⟩
  simp only [PagingSession.fetch, s.model.respond_of_repliesWith dates hreply]
  refine ⟨rfl, rfl, rfl, h.sorting, h.direction, ?_⟩
  rw [h.requests, List.range_succ (n := n + 1), List.map_append]
  rfl

/-- **Run lemma**: after `k` calls as many replies have arrived, or the one
    after which nothing is sent. -/
theorem loop_replied (dates : DateFormats) (m : TaskListModel) (hfit : RepliesFit metas replies)
    (k : Nat) :
    ∃ s n, PagingSession.loop dates replies m k = .ok s ∧ Replied metas m n s ∧
      Delivered metas n ∧ n ≤ k ∧ (n = k ∨ (metas n).Ends) := by
  obtain ⟨⟨tasks, hreply⟩, _⟩ := hfit 0 (delivered_zero metas)
  obtain ⟨first, hfirst, hreplied⟩ := replied_first dates m hreply
  unfold PagingSession.loop
  rw [hfirst]
  induction k with
  | zero => exact ⟨first, 0, rfl, hreplied, delivered_zero metas, Nat.le_refl 0, .inl rfl⟩
  | succ k ih =>
    obtain ⟨s, n, hs, hn, hdelivered, hle, hcases⟩ := ih
    have hs : PagingSession.getNextTasks dates (fun n _ => replies n) first k = .ok s := hs
    show ∃ s n, (PagingSession.getNextTasks dates (fun n _ => replies n) first k).bind _ = .ok s ∧ _
    rw [hs]
    have hn_fits := (hfit n hdelivered).2
    by_cases hends : (metas n).Ends
    · -- nothing more is sent
      have hdrained := hn.drained hn_fits hends
      exact ⟨s, n, hdrained.getNextTask, hn, hdelivered, Nat.le_succ_of_le hle, .inr hends⟩
    · obtain rfl : n = k := hcases.resolve_right hends
      have hsucc := hdelivered.succ hends
      obtain ⟨⟨tasks, hreply⟩, _⟩ := hfit (n + 1) hsucc
      obtain ⟨s', hs', hnext⟩ := hn.next hn_fits hends hreply
      exact ⟨s', n + 1, hs', hnext, hsucc, Nat.le_refl _, .inl rfl⟩

/-! ## Section 3: When the loop stops -/

/-- The loop stops within `B` requests exactly if one of the first `B` replies
    says that no tasks are left. -/
theorem stopsWithin_iff (dates : DateFormats) (m : TaskListModel)
    (hfit : RepliesFit metas replies) (B : Nat) :
    PagingSession.StopsWithin dates replies m B ↔ ∃ j < B, (metas j).Ends := by
  constructor
  · rintro ⟨k, s, hs, hlen, hdrained⟩
    obtain ⟨s', n, hs', hn, hdelivered, _, _⟩ := loop_replied dates m hfit k
    obtain rfl : s = s' := Except.ok.inj (hs.symm.trans hs')
    rw [hn.length] at hlen
    refine ⟨n, hlen, ?_⟩
    by_contra hmore
    have hnext := hn.getNextTask (hfit n hdelivered).2 hmore
    rw [show s.model.getNextTask = .ok none from hdrained] at hnext
    cases hnext
  · rintro ⟨j, hj, hends⟩
    obtain ⟨s, n, hs, hn, hdelivered, hle, hcases⟩ := loop_replied dates m hfit j
    have hn_ends : (metas n).Ends := by
      rcases hcases with rfl | hends'
      · exact hends
      · exact hends'
    refine ⟨j, s, hs, ?_, hn.drained (hfit n hdelivered).2 hn_ends⟩
    rw [hn.length]
    omega

/-- Every reply that arrives is for the page that was asked for, with a limit
    of at least `1`. -/
def EchoesPages (metas : Nat → Meta) : Prop :=
  ∀ j, Delivered metas j → (metas j).current = askedPage metas j ∧ 1 ≤ (metas j).limit

/-- The pages are asked for in their order then. -/
theorem EchoesPages.askedPage_eq (h : EchoesPages metas) {j : Nat} (hj : Delivered metas j) :
    askedPage metas j = j + 1 := by
  induction j with
  | zero => rfl
  | succ j ih =>
    show (metas j).current + 1 = _
    rw [(h j hj.of_succ).1, ih hj.of_succ]
    rfl

/-- Of `N` tasks none are left after `N` pages. -/
theorem EchoesPages.ends {N : Nat} (h : EchoesPages metas)
    (hcount : ∀ j, Delivered metas j → (metas j).count ≤ N) : ∃ j < max 1 N, (metas j).Ends := by
  by_contra hmore
  have hmore : ∀ j < max 1 N, ¬ (metas j).Ends := fun j hj hends => hmore ⟨j, hj, hends⟩
  obtain ⟨last, hlast⟩ : ∃ last, max 1 N = last + 1 := ⟨max 1 N - 1, by omega⟩
  rw [hlast] at hmore
  have hdelivered : Delivered metas last := fun i hi => hmore i (Nat.lt_succ_of_lt hi)
  obtain ⟨hpage, hlimit⟩ := h last hdelivered
  rw [h.askedPage_eq hdelivered] at hpage
  have hN : (N : Int) ≤ last + 1 := by
    have := Nat.le_max_right 1 N
    omega
  -- the pages so far hold at least one task each
  have hprod : (last + 1 : Int) * 1 ≤ (last + 1) * (metas last).limit :=
    Int.mul_le_mul_of_nonneg_left hlimit (by omega)
  have hends : (metas last).Ends := by
    constructor
    · rw [hpage]
      omega
    · have := hcount last hdelivered
      rw [hpage]
      omega
  exact hmore last (Nat.lt_succ_self last) hends

/-- **Stopping.**  Let the replies that arrive decode, with tasks and with meta
    data on which the arithmetic stays in range.

    * The loop never traps, and asks for the page after the one that each
      reply names.
    * It stops within `B` requests exactly if one of the first `B` replies is
      for another page than `0` and counts at most as many tasks as its page
      and limit make.
    * So if the replies count at most `N` tasks, and are for the page that was
      asked for with a limit of at least `1`, it stops within `max 1 N`
      requests. -/
theorem paging_stops_iff (dates : DateFormats) (m : TaskListModel)
    (hfit : RepliesFit metas replies) :
    (∀ k, ∃ s n, PagingSession.loop dates replies m k = .ok s ∧ n ≤ k ∧
      s.requests =
        (List.range (n + 1)).map fun i => ⟨askedPage metas i, m.sorting, m.direction⟩) ∧
    (∀ B, PagingSession.StopsWithin dates replies m B ↔ ∃ j < B, (metas j).Ends) ∧
    ∀ N : Nat, (∀ j, Delivered metas j → (metas j).count ≤ N) → EchoesPages metas →
      PagingSession.StopsWithin dates replies m (max 1 N) := by
  refine ⟨?_, stopsWithin_iff dates m hfit, ?_⟩
  · intro k
    obtain ⟨s, n, hs, hn, _, hle, _⟩ := loop_replied dates m hfit k
    exact ⟨s, n, hs, hle, hn.requests⟩
  · intro N hcount hpages
    exact (stopsWithin_iff dates m hfit _).mpr (hpages.ends hcount)

end

/-! ## Section 4: Three tasks, one to a page -/

theorem repliesWith_metaReply (count : Nat) (mt : Meta) : RepliesWith [] mt (metaReply count mt) :=
  ⟨_, _, rfl, rfl, rfl, rfl⟩

/-- The meta data of a server with three tasks. -/
def threePages (j : Nat) : Meta := ⟨j + 1, 1, 3⟩

/-- No reply arrives after the third one. -/
theorem delivered_threePages {j : Nat} (h : Delivered threePages j) : j < 3 := by
  by_contra hlt
  exact h 2 (by omega) (by decide)

theorem paging_stops_three :
    PagingSession.StopsWithin epochDates (fun j => metaReply 80 (threePages j)) .new 3 := by
  have hfit : RepliesFit threePages fun j => metaReply 80 (threePages j) := by
    intro j hj
    refine ⟨⟨[], repliesWith_metaReply 80 _⟩, ?_⟩
    have hlt := delivered_threePages hj
    obtain rfl | rfl | rfl : j = 0 ∨ j = 1 ∨ j = 2 := by omega
    · decide
    · decide
    · decide
  have hpages : EchoesPages threePages := by
    intro j _
    cases j with
    | zero => decide
    | succ j => exact ⟨rfl, Int.le_refl 1⟩
  exact (paging_stops_iff epochDates .new hfit).2.2 3 (fun _ _ => Int.le_refl 3) hpages

/-- The server counts one task, and gives every page the limit `0`: page `2`
    is asked for without end. -/
theorem not_paging_stops :
    ¬ ∀ N : Nat, ∃ B : Nat, ∀ (metas : Nat → Meta) (replies : Nat → Option (Payload TaskList)),
      RepliesFit metas replies → (∀ j, Delivered metas j → (metas j).count ≤ N) →
        PagingSession.StopsWithin epochDates replies .new B := by
  intro h
  obtain ⟨B, hstops⟩ := h 1
  have hfit : RepliesFit (fun _ => ⟨1, 0, 1⟩) fun _ => metaReply 80 ⟨1, 0, 1⟩ := by
    intro j _
    refine ⟨⟨[], repliesWith_metaReply 80 _⟩, ?_⟩
    show Meta.Fits ⟨1, 0, 1⟩
    decide
  have hwithin := hstops _ _ hfit (fun _ _ => Int.le_refl 1)
  obtain ⟨j, _, hends⟩ := (stopsWithin_iff epochDates .new hfit B).mp hwithin
  exact absurd hends (by decide)

end TimeManager
