import TimeManager.Paging.Calls

/-! # Overflow in the Paging Arithmetic

    `getNextTask` multiplies and increments counters that it takes from the
    replies as they are, with arithmetic that traps.  A run of calls can trap
    exactly if some reply holds meta data with which it does
    (`never_traps_iff`), and then the call right after that reply does. -/

namespace TimeManager

open Lts Checked

/-! ## Section 1: Replies -/

/-- The paging arithmetic stays in range after a reply with these meta data. -/
def Meta.Fits (mt : Meta) : Prop := CountersFit mt.current mt.limit mt.count

instance (mt : Meta) : Decidable mt.Fits :=
  inferInstanceAs (Decidable (CountersFit mt.current mt.limit mt.count))

/-- The integers of the meta data fit in the properties of `Meta`. -/
def Meta.Decodable (mt : Meta) : Prop :=
  InRange mt.current ∧ InRange mt.limit ∧ InRange mt.count

/-- The response decodes, and its meta data, if it has any, are allowed. -/
def DecodesTo (allowed : Meta → Prop) (response : Option (Payload TaskList)) : Prop :=
  ∃ data result, response = some data ∧ data.decoded = some result ∧
    ∀ mt, result.meta = some mt → allowed mt

/-- A reply with no tasks, in a body of `count` bytes. -/
def metaReply (count : Nat) (mt : Meta) : Option (Payload TaskList) :=
  some ⟨count, some ⟨some [], some mt, none⟩⟩

theorem decodesTo_metaReply {allowed : Meta → Prop} (count : Nat) {mt : Meta} (h : allowed mt) :
    DecodesTo allowed (metaReply count mt) := by
  refine ⟨_, _, rfl, rfl, ?_⟩
  intro mt' hmt
  rw [← Option.some.inj hmt]
  exact h

/-! ## Section 2: What traps -/

section

variable {dates : DateFormats} {allowed : Meta → Prop} {m₀ : TaskListModel}

/-- Only `getNextTask` traps, and only on counters that do not fit. -/
theorem perform_traps_iff {s : TaskListScreen} {call : TaskListModel.Event} :
    s.perform dates call = .error .arithmeticOverflow ↔ call = .getNextTask ∧ ¬ s.model.Fits := by
  cases call with
  | getNextTask =>
    rw [← TaskListModel.getNextTask_ok_iff, TaskListScreen.perform]
    cases s.model.getNextTask with
    | ok request => simp [Except.map]
    | error trap =>
      cases trap
      simp [Except.map]
  | getFirstTasks => simp [TaskListScreen.perform_getFirstTasks]
  | setSeekParameters page sorting direction => simp [TaskListScreen.perform]
  | deliver i response => simp [TaskListScreen.perform]

/-- **Step lemma**: the counters keep fitting where the replies do. -/
theorem fits_step {s s' : TaskListScreen} {call : TaskListModel.Event}
    (hallowed : ∀ mt, allowed mt → mt.Fits) (h : s.model.Fits)
    (hstep : (callSystem dates (Loads (DecodesTo allowed)) m₀).step s call s') :
    s'.model.Fits := by
  obtain ⟨hloads, _, hperform⟩ := hstep
  cases call with
  | setSeekParameters page sorting direction => exact hloads.elim
  | getFirstTasks =>
    rw [TaskListScreen.perform_getFirstTasks] at hperform
    obtain rfl := Except.ok.inj hperform
    -- on page `0` nothing is computed
    exact .inl rfl
  | getNextTask =>
    obtain ⟨request, _, rfl⟩ := TaskListScreen.perform_getNextTask hperform
    exact h
  | deliver i response =>
    obtain rfl := Except.ok.inj hperform
    obtain ⟨data, result, hdata, hresult, hmeta⟩ := hloads
    show (s.model.respond dates response).Fits
    rcases TaskListModel.fails_or_replies response with hfail | ⟨tasks, mt, hreply⟩
    · rw [s.model.respond_of_fails dates hfail]
      exact h
    · rw [s.model.respond_of_repliesWith dates hreply]
      obtain ⟨data', result', hdata', hresult', _, hmt⟩ := hreply
      obtain rfl : data = data' := Option.some.inj (hdata.symm.trans hdata')
      obtain rfl : result = result' := Option.some.inj (hresult.symm.trans hresult')
      exact hallowed mt (hmeta mt hmt)

theorem fits_of_reachable {s : TaskListScreen} (hallowed : ∀ mt, allowed mt → mt.Fits)
    (h₀ : m₀.Fits) (h : (callSystem dates (Loads (DecodesTo allowed)) m₀).Reachable s) :
    s.model.Fits := by
  induction h with
  | init hinit =>
    obtain rfl := hinit
    exact h₀
  | step _ hstep ih => exact fits_step hallowed ih hstep

/-- After the first reply the counters are the ones in it. -/
theorem reachable_metaReply (dates : DateFormats) (m₀ : TaskListModel) (count : Nat) {mt : Meta}
    (h : allowed mt) :
    (callSystem dates (Loads (DecodesTo allowed)) m₀).Reachable
      ⟨m₀.reset.respond dates (metaReply count mt), []⟩ := by
  have hfirst : (callSystem dates (Loads (DecodesTo allowed)) m₀).step ⟨m₀, []⟩ .getFirstTasks
      ⟨m₀.reset, [⟨1, m₀.sorting, m₀.direction⟩]⟩ :=
    ⟨trivial, trivial, TaskListScreen.perform_getFirstTasks dates ⟨m₀, []⟩⟩
  have hreply : (callSystem dates (Loads (DecodesTo allowed)) m₀).step
      ⟨m₀.reset, [⟨1, m₀.sorting, m₀.direction⟩]⟩ (.deliver 0 (metaReply count mt))
      ⟨m₀.reset.respond dates (metaReply count mt), []⟩ :=
    ⟨decodesTo_metaReply count h, Nat.one_pos, rfl⟩
  exact .step (.step (.init rfl) hfirst) hreply

/-! ## Section 3: When no run traps -/

/-- **Overflow.**  No run of calls, with replies whose meta data are allowed,
    traps, exactly if the counters of the model it starts with fit and all
    allowed meta data do. -/
theorem never_traps_iff :
    (∀ s, (callSystem dates (Loads (DecodesTo allowed)) m₀).Reachable s →
      ∀ call, Loads (DecodesTo allowed) call →
        s.perform dates call ≠ .error .arithmeticOverflow) ↔
      m₀.Fits ∧ ∀ mt, allowed mt → mt.Fits := by
  constructor
  · intro hsafe
    -- a call of `getNextTask` is possible in every state
    have hfit : ∀ s, (callSystem dates (Loads (DecodesTo allowed)) m₀).Reachable s →
        s.model.Fits := by
      intro s hs
      have hcall := hsafe s hs .getNextTask trivial
      rw [ne_eq, perform_traps_iff] at hcall
      simpa using hcall
    exact ⟨hfit _ (.init rfl), fun mt hmt => hfit _ (reachable_metaReply dates m₀ 80 hmt)⟩
  · rintro ⟨h₀, hallowed⟩ s hs call _ htrap
    exact (perform_traps_iff.mp htrap).2 (fits_of_reachable hallowed h₀ hs)

/-- The second page of a server with pages of `2 ^ 62` tasks: the product in
    the guard does not fit. -/
theorem not_never_traps :
    ¬ ∀ s, (callSystem epochDates (Loads (DecodesTo Meta.Decodable)) .new).Reachable s →
      ∀ call, Loads (DecodesTo Meta.Decodable) call →
        s.perform epochDates call ≠ .error .arithmeticOverflow := by
  intro hsafe
  have hmeta : Meta.Decodable ⟨2, 2 ^ 62, 2 ^ 63 - 1⟩ := by
    unfold Meta.Decodable
    decide
  have hreach := reachable_metaReply epochDates .new 80 hmeta
  exact hsafe _ hreach .getNextTask trivial (perform_traps_iff.mpr ⟨rfl, by decide⟩)

end

end TimeManager
