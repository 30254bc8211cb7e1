import TimeManager.Framework.Lts
import TimeManager.Paging.Server

/-! # Paging under Interleaving

    Runs of a task-list screen in which rows are displayed and requests are
    answered in any order.  Nothing marks a request as in flight, so the row
    that asks for more can ask twice for the same page, and each answer sets
    the page counter to its own page and appends its tasks.

    The data are a prefix of the server's list throughout a run exactly when
    every page that is delivered is the one after the model's page
    (`screen_prefix_iff`). -/

namespace TimeManager

open Lts

/-! ## Section 1: The system -/

/-- What the server allows: a response is the answer for the page that was
    asked for, or a failure. -/
def ServerAllows (L : List TaskData) (l : Nat) (s : TaskListScreen) :
    TaskListScreen.Event → Prop
  | .willDisplay _ => True
  | .deliver i response =>
    ∀ r, s.inFlight[i]? = some r → AnswersPage L l r.page response ∨ FailsToLoad response

/-- The runs of a task-list screen made with the model `m₀`, against a server
    that holds `L` in pages of `l`. -/
def screenSystem (dates : DateFormats) (L : List TaskData) (l : Nat) (m₀ : TaskListModel) :
    System TaskListScreen TaskListScreen.Event where
  init := fun s => TaskListScreen.viewDidLoad m₀ = .ok s
  step := fun s e s' => ServerAllows L l s e ∧ s.step dates e = some s'

/-- The data shown are a prefix of the server's list. -/
def ShowsPrefix (L : List TaskData) (s : TaskListScreen) : Prop :=
  s.model.data.map InternalTaskData.key <+: L.map TaskData.key

/-- A page is delivered only right after the page before it: the condition
    on a step under which paging goes well. -/
def DeliversNextPage (s : TaskListScreen) : TaskListScreen.Event → Prop
  | .willDisplay _ => True
  | .deliver i response =>
    ∀ r, s.inFlight[i]? = some r → ¬ FailsToLoad response → r.page = s.model.page + 1

/-! ## Section 2: The invariant -/

section

variable {dates : DateFormats} {L : List TaskData} {l : Nat} {m₀ : TaskListModel}

/-- The pages up to `p` have been delivered, in order. -/
structure InOrder (L : List TaskData) (l : Nat) (p : Nat) (s : TaskListScreen) : Prop where
  page : s.model.page = p
  data : s.model.data.map InternalTaskData.key = (L.map TaskData.key).take (p * l)
  /-- Before the first answer only the request for page `1` is in flight. -/
  first : p = 0 → s.inFlight.length ≤ 1 ∧ ∀ r ∈ s.inFlight, r.page = 1
  counters : 0 < p → s.model.limit = l ∧ s.model.totalCounts = L.length
  /-- A later request is for a page that exists and is at most the next one. -/
  later : 0 < p → ∀ r ∈ s.inFlight, ∃ q : Nat, r.page = q + 1 ∧ 1 ≤ q ∧ q ≤ p ∧ q * l < L.length

theorem inOrder_viewDidLoad {s : TaskListScreen}
    (h : TaskListScreen.viewDidLoad m₀ = .ok s) : InOrder L l 0 s := by
  rw [TaskListScreen.viewDidLoad_eq] at h
  obtain rfl := Except.ok.inj h
  refine ⟨rfl, by simp, fun _ => ⟨by simp, by simp⟩, fun h => absurd h (by decide),
    fun h => absurd h (by decide)⟩

/-- Displaying a row keeps the pages and may ask for the next one. -/
theorem InOrder.willDisplay {p row : Nat} {s s' : TaskListScreen} (h : InOrder L l p s)
    (hstep : s.step dates (.willDisplay row) = some s') : InOrder L l p s' := by
  obtain ⟨hrow, hmodel, hcases⟩ := TaskListScreen.step_willDisplay hstep
  -- there are no rows before the first answer
  have hpos : 0 < p := by
    rcases Nat.eq_zero_or_pos p with rfl | hpos
    · have hlen := congrArg List.length h.data
      simp only [List.length_map, Nat.zero_mul, List.take_zero, List.length_nil] at hlen
      omega
    · exact hpos
  refine ⟨hmodel ▸ h.page, hmodel ▸ h.data, fun h0 => absurd h0 (by omega),
    fun _ => hmodel ▸ h.counters hpos, ?_⟩
  intro _ r hr
  rcases hcases with hsame | ⟨r', hnext, hsent⟩
  · rw [hsame] at hr
    exact h.later hpos r hr
  · rw [hsent] at hr
    rcases List.mem_append.mp hr with hr | hr
    · exact h.later hpos r hr
    · -- the request just sent is for the next page
      obtain rfl := List.mem_singleton.mp hr
      obtain ⟨hlimit, htotal⟩ := h.counters hpos
      rcases TaskListModel.getNextTask_cases hnext with ⟨hzero, _⟩ | ⟨_, hmore, heq⟩ | ⟨_, _, heq⟩
      · rw [h.page] at hzero
        omega
      · obtain rfl := Option.some.inj heq
        rw [h.page, hlimit, htotal] at hmore
        exact ⟨p, by simp [h.page], by omega, Nat.le_refl p, by exact_mod_cast hmore⟩
      · cases heq

/-- A failure keeps the pages. -/
theorem InOrder.fail {p i : Nat} {s s' : TaskListScreen} {response : Option (Payload TaskList)}
    (h : InOrder L l p s) (hstep : s.step dates (.deliver i response) = some s')
    (hfail : FailsToLoad response) : InOrder L l p s' := by
  obtain ⟨_, rfl⟩ := TaskListScreen.step_deliver hstep
  rw [TaskListModel.respond_of_fails dates _ hfail]
  refine ⟨h.page, h.data, ?_, h.counters, ?_⟩
  · intro h0
    obtain ⟨hlen, hpages⟩ := h.first h0
    exact ⟨Nat.le_trans (List.length_eraseIdx_le _ _) hlen,
      fun r hr => hpages r (List.mem_of_mem_eraseIdx hr)⟩
  · intro hpos r hr
    exact h.later hpos r (List.mem_of_mem_eraseIdx hr)

/-- Delivering the next page. -/
theorem InOrder.answer {p i : Nat} {s s' : TaskListScreen} {r : ListRequest}
    {response : Option (Payload TaskList)} (h : InOrder L l p s)
    (hstep : s.step dates (.deliver i response) = some s')
    (hanswer : AnswersPage L l r.page response) (hnext : r.page = s.model.page + 1) :
    InOrder L l (p + 1) s' := by
  obtain ⟨hi, rfl⟩ := TaskListScreen.step_deliver hstep
  have hpage : r.page = ((p + 1 : Nat) : Int) := by
    rw [hnext, h.page]
    rfl
  rw [hpage] at hanswer
  rw [TaskListModel.respond_of_answersPage dates _ hanswer]
  refine ⟨rfl, ?_, fun h0 => absurd h0 (by omega), fun _ => ⟨rfl, rfl⟩, ?_⟩
  · show (s.model.data ++ (pageTasks L l ((p + 1 : Nat) : Int)).map _).map _ = _
    rw [List.map_append, h.data, ← Pages.take_append_page, List.map_map, pageTasks,
      Int.toNat_natCast, Pages.page, Pages.page, List.map_take, List.map_drop]
    rfl
  · intro _ r' hr'
    rcases Nat.eq_zero_or_pos p with hzero | hpos
    · -- the first answer leaves nothing in flight
      have hlen := (h.first hzero).1
      have hempty : (s.inFlight.eraseIdx i).length = 0 := by
        rw [List.length_eraseIdx_of_lt hi]
        omega
      rw [List.length_eq_zero_iff.mp hempty] at hr'
      cases hr'
    · obtain ⟨q, hq, hone, hle, hlt⟩ := h.later hpos r' (List.mem_of_mem_eraseIdx hr')
      exact ⟨q, hq, hone, by omega, hlt⟩

/-- A page delivered out of turn spoils the list, if its tasks are distinct. -/
theorem InOrder.out_of_turn {p i : Nat} {s s' : TaskListScreen} {r : ListRequest}
    {response : Option (Payload TaskList)} (hl : 0 < l) (hnd : (L.map TaskData.key).Nodup)
    (h : InOrder L l p s)
    (hstep : s.step dates (.deliver i response) = some s') (hr : s.inFlight[i]? = some r)
    (hanswer : AnswersPage L l r.page response) (hnext : r.page ≠ s.model.page + 1) :
    ¬ ShowsPrefix L s' := by
  have hmem : r ∈ s.inFlight := List.mem_of_getElem? hr
  rcases Nat.eq_zero_or_pos p with hzero | hpos
  · have hpage := (h.first hzero).2 r hmem
    rw [h.page, hzero] at hnext
    exact absurd hpage hnext
  · obtain ⟨q, hq, hone, hle, hlt⟩ := h.later hpos r hmem
    have hqp : q + 1 ≤ p := by
      rw [hq, h.page] at hnext
      omega
    obtain ⟨_, rfl⟩ := TaskListScreen.step_deliver hstep
    have hpage : r.page = ((q + 1 : Nat) : Int) := hq
    rw [hpage] at hanswer
    rw [ShowsPrefix, TaskListModel.respond_of_answersPage dates _ hanswer]
    have hbad := Pages.not_prefix_append_page hl hnd (p := q + 1) (q := p) (by omega) hqp
      (by simpa using hlt)
    intro hpre
    apply hbad
    have hdata : (s.model.data ++ (pageTasks L l ((q + 1 : Nat) : Int)).map
        (internalTaskData dates)).map InternalTaskData.key =
        (L.map TaskData.key).take (p * l) ++ Pages.page l (L.map TaskData.key) (q + 1) := by
      rw [List.map_append, h.data, List.map_map, pageTasks, Int.toNat_natCast, Pages.page,
        Pages.page, List.map_take, List.map_drop]
      rfl
    rw [← hdata]
    exact hpre

/-! ## Section 3: When the data are a prefix of the server's list -/

/-- Some pages have been delivered, in order. -/
def Ordered (L : List TaskData) (l : Nat) (s : TaskListScreen) : Prop := ∃ p, InOrder L l p s

theorem Ordered.init {s : TaskListScreen} (h : (screenSystem dates L l m₀).init s) :
    Ordered L l s :=
  ⟨0, inOrder_viewDidLoad h⟩

theorem Ordered.showsPrefix {s : TaskListScreen} (h : Ordered L l s) : ShowsPrefix L s := by
  obtain ⟨p, hp⟩ := h
  rw [ShowsPrefix, hp.data]
  exact List.take_prefix _ _

/-- **Step lemma**: steps that deliver the next page keep the order. -/
theorem Ordered.step {s s' : TaskListScreen} {e : TaskListScreen.Event} (h : Ordered L l s)
    (hok : DeliversNextPage s e) (hstep : (screenSystem dates L l m₀).step s e s') :
    Ordered L l s' := by
  obtain ⟨p, hp⟩ := h
  obtain ⟨hserver, hstep⟩ := hstep
  cases e with
  | willDisplay row => exact ⟨p, hp.willDisplay hstep⟩
  | deliver i response =>
    obtain ⟨hi, _⟩ := TaskListScreen.step_deliver hstep
    have hr : s.inFlight[i]? = some s.inFlight[i] := List.getElem?_eq_getElem hi
    rcases hserver _ hr with hanswer | hfail
    · -- the next page, in its turn
      have hnext := hok _ hr (TaskListModel.not_fails_of_answersPage hanswer)
      exact ⟨p + 1, hp.answer hstep hanswer hnext⟩
    · exact ⟨p, hp.fail hstep hfail⟩

theorem Ordered.bad_step {s s' : TaskListScreen} {e : TaskListScreen.Event} (hl : 0 < l)
    (hnd : (L.map TaskData.key).Nodup) (h : Ordered L l s) (hok : ¬ DeliversNextPage s e)
    (hstep : (screenSystem dates L l m₀).step s e s') : ¬ ShowsPrefix L s' := by
  obtain ⟨p, hp⟩ := h
  obtain ⟨hserver, hstep⟩ := hstep
  cases e with
  | willDisplay row => exact absurd trivial hok
  | deliver i response =>
    simp only [DeliversNextPage, not_forall] at hok
    -- a page that is answered, but not in its turn
    obtain ⟨r, hr, hload, hnext⟩ := hok
    have hanswer := (hserver r hr).resolve_right hload
    exact hp.out_of_turn hl hnd hstep hr hanswer hnext

/-- **Paging under interleaving.**  In every run of a task-list screen each
    of whose steps delivers no page but the one after the model's page, the
    data are at every moment a prefix of the server's list.  Where the
    server's tasks are distinct, these are the only runs in which they are. -/
theorem screen_prefix_iff (hl : 0 < l)
    {tr : List (TaskListScreen × TaskListScreen.Event)} {s : TaskListScreen}
    (h : (screenSystem dates L l m₀).Trace tr s) :
    (System.Guarded DeliversNextPage tr → System.Always (ShowsPrefix L) tr s) ∧
    ((L.map TaskData.key).Nodup →
      (System.Always (ShowsPrefix L) tr s ↔ System.Guarded DeliversNextPage tr)) := by
  constructor
  · intro hok
    obtain ⟨hlast, hall⟩ := h.always_of_guarded (J := Ordered L l)
      (fun _ hi => Ordered.init hi) (fun _ _ _ hJ hg hs => hJ.step hg hs) hok
    exact ⟨hlast.showsPrefix, fun x hx => (hall x hx).showsPrefix⟩
  · intro hnd
    exact h.always_iff_guarded (fun _ hi => Ordered.init hi)
      (fun _ _ _ hJ hg hs => hJ.step hg hs) (fun _ hJ => hJ.showsPrefix)
      (fun _ _ _ hJ hg hs => hJ.bad_step hl hnd hg hs)

end

/-! ## Section 4: Eleven tasks in pages of ten -/

theorem screenSystem_display {dates : DateFormats} {L : List TaskData} {l : Nat}
    {m₀ : TaskListModel} {s s' : TaskListScreen} (row : Nat)
    (h : s.step dates (.willDisplay row) = some s') :
    (screenSystem dates L l m₀).step s (.willDisplay row) s' :=
  ⟨trivial, h⟩

theorem screenSystem_answer {dates : DateFormats} {L : List TaskData} {l : Nat}
    {m₀ : TaskListModel} {s s' : TaskListScreen} {r : ListRequest} (i count : Nat)
    (hr : s.inFlight[i]? = some r)
    (h : s.step dates (.deliver i (serverAnswer L l count r)) = some s') :
    (screenSystem dates L l m₀).step s (.deliver i (serverAnswer L l count r)) s' := by
  refine ⟨?_, h⟩
  intro r' hr'
  obtain rfl := Option.some.inj (hr.symm.trans hr')
  exact .inl (answersPage_serverAnswer L l count r)

theorem screenSystem_lose {dates : DateFormats} {L : List TaskData} {l : Nat}
    {m₀ : TaskListModel} {s s' : TaskListScreen} (i : Nat)
    (h : s.step dates (.deliver i none) = some s') :
    (screenSystem dates L l m₀).step s (.deliver i none) s' := by
  refine ⟨?_, h⟩
  intro r _
  right
  intro data result hdata
  cases hdata

/-- The first row asks for page `2` once: all eleven tasks are shown. -/
theorem screen_prefix_eleven :
    ∃ tr s, (screenSystem epochDates (epochTasks 11) 10 {}).Trace tr s ∧
      s.model.data.length = 11 ∧ System.Always (ShowsPrefix (epochTasks 11)) tr s := by
  have h₀ : (screenSystem epochDates (epochTasks 11) 10 {}).Trace [] _ :=
    .init (TaskListScreen.viewDidLoad_eq {})
  have h₁ := h₀.step (screenSystem_answer 0 900 rfl rfl)
  have h₂ := h₁.step (screenSystem_display 0 rfl)
  have h₃ := h₂.step (screenSystem_answer 0 200 rfl rfl)
  refine ⟨_, _, h₃, rfl, (screen_prefix_iff (by decide) h₃).1 ?_⟩
  intro x hx
  simp only [List.mem_cons, List.not_mem_nil, or_false] at hx
  rcases hx with rfl | rfl | rfl
  · intro r hr _
    obtain rfl := Option.some.inj hr
    rfl
  · exact trivial
  · intro r hr _
    obtain rfl := Option.some.inj hr
    rfl

/-- The first row is displayed twice before page `2` arrives, so page `2` is
    asked for twice and the eleventh task is appended twice. -/
theorem not_screen_prefix :
    ¬ ∀ (dates : DateFormats) (L : List TaskData) (l : Nat) (m₀ : TaskListModel)
      (tr : List (TaskListScreen × TaskListScreen.Event)) (s : TaskListScreen), 0 < l →
      (screenSystem dates L l m₀).Trace tr s → System.Always (ShowsPrefix L) tr s := by
  intro h
  have hrun : ∃ tr s, (screenSystem epochDates (epochTasks 11) 10 {}).Trace tr s ∧
      s.model.data.length = 12 := by
    have h₀ : (screenSystem epochDates (epochTasks 11) 10 {}).Trace [] _ :=
      .init (TaskListScreen.viewDidLoad_eq {})
    have h₁ := h₀.step (screenSystem_answer 0 900 rfl rfl)
    have h₂ := h₁.step (screenSystem_display 0 rfl)
    have h₃ := h₂.step (screenSystem_display 0 rfl)
    have h₄ := h₃.step (screenSystem_answer 0 200 rfl rfl)
    have h₅ := h₄.step (screenSystem_answer 0 200 rfl rfl)
    exact ⟨_, _, h₅, rfl⟩
  obtain ⟨tr, s, htr, hlen⟩ := hrun
  have hle := (h _ _ _ _ tr s (by decide) htr).1.length_le
  simp only [List.length_map, hlen] at hle
  exact absurd hle (by decide)

end TimeManager
