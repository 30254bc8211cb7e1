import Mathlib.Tactic.Common

/-! # Tickets

    Tickets are numbered as they are drawn, and answered later.  `InOrder`
    relates the tickets drawn and those answered (each with the latest
    first), those still open, and the next number, where every answer was
    given to the lowest open ticket.  Once no ticket is open, the last answer
    was the one to the last ticket (`InOrder.head?_eq`).

    `AnyOrder` is for tickets that are answered in any order, and only once:
    the open tickets are those drawn and not answered, in the order in which
    they were drawn. -/

namespace Tickets

/-! ## Section 1: Answers in order -/

/-- Tickets drawn, answered and open, with `next` the next number. -/
structure InOrder (drawn answered opened : List Nat) (next : Nat) : Prop where
  fresh : ∀ i ∈ drawn, i < next
  drawn_sorted : drawn.Pairwise (· > ·)
  answered_sorted : answered.Pairwise (· > ·)
  answered_drawn : ∀ i ∈ answered, i ∈ drawn
  opened_drawn : ∀ i ∈ opened, i ∈ drawn
  answered_lt : ∀ i ∈ answered, ∀ j ∈ opened, i < j
  accounted : ∀ i ∈ drawn, i ∈ answered ∨ i ∈ opened

variable {drawn answered opened : List Nat} {next : Nat}

theorem inOrder_nil (next : Nat) : InOrder [] [] [] next := by
  refine ⟨?_, .nil, .nil, ?_, ?_, ?_, ?_⟩
  all_goals
    intro i hi
    cases hi

/-- Numbers may be skipped. -/
theorem InOrder.skip (h : InOrder drawn answered opened next) {later : Nat}
    (hle : next ≤ later) : InOrder drawn answered opened later :=
  ⟨fun i hi => Nat.lt_of_lt_of_le (h.fresh i hi) hle, h.drawn_sorted, h.answered_sorted,
    h.answered_drawn, h.opened_drawn, h.answered_lt, h.accounted⟩

/-- Draw a ticket. -/
theorem InOrder.draw (h : InOrder drawn answered opened next) :
    InOrder (next :: drawn) answered (opened ++ [next]) (next + 1) := by
  refine ⟨?_, ?_, h.answered_sorted, ?_, ?_, ?_, ?_⟩
  · intro i hi
    rcases List.mem_cons.mp hi with rfl | hi
    · exact Nat.lt_succ_self i
    · exact Nat.lt_succ_of_lt (h.fresh i hi)
  · exact List.pairwise_cons.mpr ⟨h.fresh, h.drawn_sorted⟩
  · intro i hi
    exact List.mem_cons_of_mem _ (h.answered_drawn i hi)
  · intro i hi
    rcases List.mem_append.mp hi with hi | hi
    · exact List.mem_cons_of_mem _ (h.opened_drawn i hi)
    · rw [List.mem_singleton.mp hi]
      exact List.mem_cons_self
  · intro i hi j hj
    rcases List.mem_append.mp hj with hj | hj
    · exact h.answered_lt i hi j hj
    · rw [List.mem_singleton.mp hj]
      exact h.fresh i (h.answered_drawn i hi)
  · intro i hi
    rcases List.mem_cons.mp hi with rfl | hi
    · exact .inr (List.mem_append_right _ (List.mem_singleton.mpr rfl))
    · rcases h.accounted i hi with hans | hopen
      · exact .inl hans
      · exact .inr (List.mem_append_left _ hopen)

/-- Answer the lowest open ticket. -/
theorem InOrder.answer (h : InOrder drawn answered opened next) {i : Nat} (hi : i ∈ opened)
    (hmin : ∀ j ∈ opened, i ≤ j) :
    InOrder drawn (i :: answered) (opened.filter fun j => j ≠ i) next := by
  have hopened : ∀ j ∈ opened.filter (fun j => j ≠ i), j ∈ opened ∧ j ≠ i := by
    intro j hj
    simpa using hj
  refine ⟨h.fresh, h.drawn_sorted, ?_, ?_, ?_, ?_, ?_⟩
  · exact List.pairwise_cons.mpr ⟨fun j hj => h.answered_lt j hj i hi, h.answered_sorted⟩
  · intro j hj
    rcases List.mem_cons.mp hj with rfl | hj
    · exact h.opened_drawn j hi
    · exact h.answered_drawn j hj
  · intro j hj
    exact h.opened_drawn j (hopened j hj).1
  · -- the others that are open have higher numbers
    intro j hj k hk
    obtain ⟨hkopen, hki⟩ := hopened k hk
    rcases List.mem_cons.mp hj with rfl | hj
    · have := hmin k hkopen
      omega
    · exact h.answered_lt j hj k hkopen
  · intro j hj
    by_cases hji : j = i
    · exact .inl (by rw [hji]; exact List.mem_cons_self)
    · rcases h.accounted j hj with hans | hopen
      · exact .inl (List.mem_cons_of_mem _ hans)
      · exact .inr (by simpa using ⟨hopen, hji⟩)

/-- Once no ticket is open, the last ticket was answered last. -/
theorem InOrder.head?_eq (h : InOrder drawn answered [] next) : answered.head? = drawn.head? := by
  -- every ticket is answered or open, and none is open
  have hall : ∀ i ∈ drawn, i ∈ answered := by
    intro i hi
    exact (h.accounted i hi).resolve_right List.not_mem_nil
  cases hd : drawn with
  | nil =>
    cases ha : answered with
    | nil => rfl
    | cons j _ =>
      have hj := h.answered_drawn j (by rw [ha]; exact List.mem_cons_self)
      rw [hd] at hj
      cases hj
  | cons i rest =>
    have hi := hall i (by rw [hd]; exact List.mem_cons_self)
    cases ha : answered with
    | nil =>
      rw [ha] at hi
      cases hi
    | cons j rest' =>
      -- both are the greatest of the same tickets
      have hsorted := h.answered_sorted
      rw [ha, List.pairwise_cons] at hsorted
      have hsorted' := h.drawn_sorted
      rw [hd, List.pairwise_cons] at hsorted'
      have hj := h.answered_drawn j (by rw [ha]; exact List.mem_cons_self)
      rw [ha] at hi
      rw [hd] at hj
      rcases List.mem_cons.mp hi with rfl | hi
      · rfl
      · rcases List.mem_cons.mp hj with rfl | hj
        · rfl
        · have h₁ := hsorted.1 i hi
          have h₂ := hsorted'.1 j hj
          omega

/-! ## Section 2: Answers in any order -/

/-- Tickets drawn for something (the latest last), the numbers answered, the
    tickets still open, and the next number. -/
structure AnyOrder {α : Type*} (drawn : List (Nat × α)) (answered : List Nat)
    (opened : List (Nat × α)) (next : Nat) : Prop where
  answered_lt : ∀ i ∈ answered, i < next
  opened_eq : opened = drawn.filter fun t => t.1 ∉ answered

section AnyOrder

variable {α : Type*} {drawn opened : List (Nat × α)}

theorem anyOrder_nil (next : Nat) : AnyOrder ([] : List (Nat × α)) [] [] next :=
  ⟨by simp, rfl⟩

/-- Numbers may be skipped. -/
theorem AnyOrder.skip (h : AnyOrder drawn answered opened next) {later : Nat}
    (hle : next ≤ later) : AnyOrder drawn answered opened later :=
  ⟨fun i hi => Nat.lt_of_lt_of_le (h.answered_lt i hi) hle, h.opened_eq⟩

/-- Draw a ticket. -/
theorem AnyOrder.draw (h : AnyOrder drawn answered opened next) (x : α) :
    AnyOrder (drawn ++ [(next, x)]) answered (opened ++ [(next, x)]) (next + 1) := by
  have hnext : next ∉ answered := fun hi => Nat.lt_irrefl next (h.answered_lt next hi)
  constructor
  · intro i hi
    exact Nat.lt_succ_of_lt (h.answered_lt i hi)
  · rw [List.filter_append, ← h.opened_eq]
    simp [hnext]

/-- Answer a ticket. -/
theorem AnyOrder.answer (h : AnyOrder drawn answered opened next) {i : Nat} (hi : i < next) :
    AnyOrder drawn (i :: answered) (opened.filter fun t => t.1 ≠ i) next := by
  constructor
  · intro j hj
    rcases List.mem_cons.mp hj with rfl | hj
    · exact hi
    · exact h.answered_lt j hj
  · rw [h.opened_eq, List.filter_filter]
    apply List.filter_congr
    intro t _
    simp [not_or]

end AnyOrder

end Tickets
