import Mathlib.Tactic.Common
import TimeManager.Framework.Lts

/-! # Chains Fetched Link by Link

    A client fetches the links of a chain.  It may ask for the first link at
    any time, and for another one once the link before it has arrived.  What
    is asked for arrives in any order, arrives again if it is asked for
    again, and may be lost.

    Whatever the order, what has arrived hangs together (`Client.Whole`): no
    link arrives before the one it hangs on.  The links of the chain
    `1, 2, 3, ...` that have arrived are those up to some number
    (`exists_top`). -/

namespace Chain

open Lts

universe u

variable {α : Type u} {first : α} {next : α → α}

/-! ## Section 1: The client -/

/-- What has arrived, the latest last, and what has been asked for. -/
structure Client (α : Type u) where
  arrived : List α
  asked : List α

inductive Event (α : Type u) where
  | ask (x : α)
  /-- The `i`-th link that was asked for arrives. -/
  | arrive (i : Nat)
  | lose (i : Nat)

/-- The runs of a client that has asked for nothing but the first link. -/
def system (first : α) (next : α → α) : System (Client α) (Event α) where
  init := fun c => c.arrived = [] ∧ ∀ x ∈ c.asked, x = first
  step := fun c e c' =>
    match e with
    | .ask x => (x = first ∨ ∃ y ∈ c.arrived, x = next y) ∧
        c' = { c with asked := c.asked ++ [x] }
    | .arrive i => ∃ x, c.asked[i]? = some x ∧ c' = ⟨c.arrived ++ [x], c.asked.eraseIdx i⟩
    | .lose i => c' = { c with asked := c.asked.eraseIdx i }

/-! ## Section 2: What hangs together -/

/-- The links in `xs` with all the links before them. -/
inductive Linked (first : α) (next : α → α) (xs : List α) : α → Prop where
  | first : first ∈ xs → Linked first next xs first
  | next {x} : Linked first next xs x → next x ∈ xs → Linked first next xs (next x)

/-- The link is the first one, or the link before it is there. -/
def Due (first : α) (next : α → α) (xs : List α) (x : α) : Prop :=
  x = first ∨ ∃ y, Linked first next xs y ∧ x = next y

theorem Linked.mono {xs ys : List α} (hsub : xs ⊆ ys) {x : α} (h : Linked first next xs x) :
    Linked first next ys x := by
  induction h with
  | first hmem => exact .first (hsub hmem)
  | next _ hmem ih => exact .next ih (hsub hmem)

theorem Due.mono {xs ys : List α} (hsub : xs ⊆ ys) {x : α} (h : Due first next xs x) :
    Due first next ys x := by
  rcases h with hfirst | ⟨y, hy, hx⟩
  · exact .inl hfirst
  · exact .inr ⟨y, hy.mono hsub, hx⟩

/-- A link that is due hangs together with the others once it is there. -/
theorem Due.linked {xs : List α} {x : α} (h : Due first next xs x) (hmem : x ∈ xs) :
    Linked first next xs x := by
  rcases h with rfl | ⟨y, hy, rfl⟩
  · exact .first hmem
  · exact .next hy hmem

/-- The invariant of a client. -/
structure Client.Whole (first : α) (next : α → α) (c : Client α) : Prop where
  arrived : ∀ x ∈ c.arrived, Linked first next c.arrived x
  asked : ∀ x ∈ c.asked, Due first next c.arrived x

/-- **Step lemma**: asking, arriving and losing keep what has arrived whole. -/
theorem Client.Whole.step {c c' : Client α} {e : Event α} (h : c.Whole first next)
    (hstep : (system first next).step c e c') : c'.Whole first next := by
  cases e with
  | ask x =>
    obtain ⟨hx, rfl⟩ := hstep
    refine ⟨h.arrived, ?_⟩
    intro y hy
    rcases List.mem_append.mp hy with hy | hy
    · exact h.asked y hy
    · rw [List.mem_singleton.mp hy]
      rcases hx with hfirst | ⟨z, hz, heq⟩
      · exact .inl hfirst
      · exact .inr ⟨z, h.arrived z hz, heq⟩
  | arrive i =>
    obtain ⟨x, hx, rfl⟩ := hstep
    have hsub : c.arrived ⊆ c.arrived ++ [x] := List.subset_append_left _ _
    refine ⟨?_, fun y hy => (h.asked y (List.mem_of_mem_eraseIdx hy)).mono hsub⟩
    intro y hy
    rcases List.mem_append.mp hy with hold | hnew
    · exact (h.arrived y hold).mono hsub
    · rw [List.mem_singleton.mp hnew]
      have hdue := (h.asked x (List.mem_of_getElem? hx)).mono hsub
      exact hdue.linked (List.mem_append_right _ (List.mem_singleton.mpr rfl))
  | lose i =>
    obtain rfl := hstep
    exact ⟨h.arrived, fun y hy => h.asked y (List.mem_of_mem_eraseIdx hy)⟩

theorem whole_of_reachable {c : Client α} (h : (system first next).Reachable c) :
    c.Whole first next := by
  apply h.invariant
  · rintro s ⟨harrived, hasked⟩
    refine ⟨?_, fun x hx => .inl (hasked x hx)⟩
    rw [harrived]
    intro x hx
    cases hx
  · intro s e s' _ hwhole hstep
    exact hwhole.step hstep

/-! ## Section 3: The chain of the positive numbers -/

theorem linked_iff {xs : List Nat} {p : Nat} :
    Linked 1 (· + 1) xs p ↔ 1 ≤ p ∧ ∀ q, 1 ≤ q → q ≤ p → q ∈ xs := by
  constructor
  · intro h
    induction h with
    | first hmem =>
      refine ⟨Nat.le_refl 1, ?_⟩
      intro q hpos hle
      obtain rfl : q = 1 := Nat.le_antisymm hle hpos
      exact hmem
    | @next x _ hmem ih =>
      refine ⟨Nat.le_add_left 1 x, ?_⟩
      intro q hpos hle
      rcases Nat.le_or_eq_of_le_succ hle with hle | rfl
      · exact ih.2 q hpos hle
      · exact hmem
  · rintro ⟨hpos, hall⟩
    induction p with
    | zero => cases hpos
    | succ n ih =>
      have hmem : n + 1 ∈ xs := hall (n + 1) hpos (Nat.le_refl _)
      rcases Nat.eq_zero_or_pos n with rfl | hn
      · exact .first hmem
      · exact .next (ih hn fun q hq hle => hall q hq (Nat.le_succ_of_le hle)) hmem

/-- The numbers that have arrived are those up to some number, and no number
    beyond the next one is asked for. -/
theorem exists_top {c : Client Nat} (h : c.Whole 1 (· + 1)) :
    ∃ top, (∀ p, p ∈ c.arrived ↔ 1 ≤ p ∧ p ≤ top) ∧ ∀ q ∈ c.asked, 1 ≤ q ∧ q ≤ top + 1 := by
  have htop : ∃ top, ∀ p, p ∈ c.arrived ↔ 1 ≤ p ∧ p ≤ top := by
    cases hmax : c.arrived.max? with
    | none =>
      refine ⟨0, fun p => ?_⟩
      rw [List.max?_eq_none_iff.mp hmax]
      constructor
      · intro hp
        cases hp
      · intro hp
        omega
    | some top =>
      obtain ⟨hmem, hle⟩ := List.max?_eq_some_iff.mp hmax
      refine ⟨top, fun p => ⟨fun hp => ?_, fun hp => ?_⟩⟩
      · exact ⟨(linked_iff.mp (h.arrived p hp)).1, hle p hp⟩
      · -- everything below the largest one is there
        exact (linked_iff.mp (h.arrived top hmem)).2 p hp.1 hp.2
  obtain ⟨top, htop⟩ := htop
  refine ⟨top, htop, ?_⟩
  intro q hq
  rcases h.asked q hq with rfl | ⟨y, hy, heq⟩
  · omega
  · have heq : q = y + 1 := heq
    have hy' := linked_iff.mp hy
    have hle := ((htop y).mp (hy'.2 y hy'.1 (Nat.le_refl y))).2
    omega

end Chain
