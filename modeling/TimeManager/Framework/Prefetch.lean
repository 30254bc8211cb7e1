import Mathlib.Tactic.Common

/-! # Prefetching

    `n` elements are loaded in portions of `l`, and taken one after another.
    The next portion is loaded when the `w`-th element from the end of what is
    loaded is taken, and at no other time.

    A portion shorter than `w` has no such element: taking elements then ends
    with the first portion.  In all other cases every element is loaded
    before none is left to take (`loads_all_iff`). -/

namespace Prefetch

/-- How many elements have been taken, and how many have been loaded. -/
structure Window where
  taken : Nat
  loaded : Nat
deriving DecidableEq, Repr

namespace Window

/-- No loaded element is left to take. -/
def Exhausted (s : Window) : Prop := s.loaded ≤ s.taken

/-- Take the next element, if there is one. -/
def take (w l n : Nat) (s : Window) : Window :=
  if s.taken < s.loaded then
    ⟨s.taken + 1, if s.loaded = s.taken + w then min n (s.loaded + l) else s.loaded⟩
  else s

/-- The first portion, and then `k` elements taken. -/
def run (w l n : Nat) : Nat → Window
  | 0 => ⟨0, min n l⟩
  | k + 1 => (run w l n k).take w l n

variable {w l n : Nat} {s : Window}

theorem take_of_exhausted (h : s.Exhausted) : s.take w l n = s :=
  if_neg (Nat.not_lt.mpr h)

/-- At the `w`-th element from the end the next portion is loaded. -/
theorem take_of_eq (h : s.taken < s.loaded) (hw : s.loaded = s.taken + w) :
    s.take w l n = ⟨s.taken + 1, min n (s.loaded + l)⟩ := by
  rw [take, if_pos h, if_pos hw]

theorem take_of_ne (h : s.taken < s.loaded) (hw : s.loaded ≠ s.taken + w) :
    s.take w l n = ⟨s.taken + 1, s.loaded⟩ := by
  rw [take, if_pos h, if_neg hw]

/-! ## Section 1: The run ends -/

theorem loaded_take_le (h : s.loaded ≤ n) : (s.take w l n).loaded ≤ n := by
  by_cases htaken : s.taken < s.loaded
  · by_cases hw : s.loaded = s.taken + w
    · rw [take_of_eq htaken hw]
      exact Nat.min_le_left _ _
    · rw [take_of_ne htaken hw]
      exact h
  · rw [take_of_exhausted (Nat.not_lt.mp htaken)]
    exact h

theorem loaded_run_le (w l n k : Nat) : (run w l n k).loaded ≤ n := by
  induction k with
  | zero => exact Nat.min_le_left _ _
  | succ k ih => exact loaded_take_le ih

/-- Each step takes an element, unless none is left. -/
theorem run_progress (w l n k : Nat) : k ≤ (run w l n k).taken ∨ (run w l n k).Exhausted := by
  induction k with
  | zero => exact .inl (Nat.zero_le _)
  | succ k ih =>
    by_cases htaken : (run w l n k).taken < (run w l n k).loaded
    · left
      have hk : k ≤ (run w l n k).taken := by
        rcases ih with hk | hexhausted
        · exact hk
        · exact absurd htaken (Nat.not_lt.mpr hexhausted)
      show k + 1 ≤ (take w l n (run w l n k)).taken
      rw [take, if_pos htaken]
      exact Nat.succ_le_succ hk
    · right
      have hexhausted : (run w l n k).Exhausted := Nat.not_lt.mp htaken
      show (take w l n (run w l n k)).Exhausted
      rw [take_of_exhausted hexhausted]
      exact hexhausted

/-- After as many steps as there are elements none is left to take. -/
theorem exhausted_run (w l n : Nat) : (run w l n n).Exhausted := by
  rcases run_progress w l n n with htaken | hexhausted
  · exact Nat.le_trans (loaded_run_le w l n n) htaken
  · exact hexhausted

/-! ## Section 2: What is loaded at the end -/

/-- While elements are missing, the one that makes the next portion load is
    still to be taken. -/
def Ahead (w n : Nat) (s : Window) : Prop :=
  s.loaded < n → s.taken + w ≤ s.loaded

theorem Ahead.take (hl : 0 < l) (h : s.Ahead w n) : (s.take w l n).Ahead w n := by
  unfold Ahead at h ⊢
  by_cases htaken : s.taken < s.loaded
  · by_cases hw : s.loaded = s.taken + w
    · rw [take_of_eq htaken hw]
      simp only
      omega
    · rw [take_of_ne htaken hw]
      simp only
      omega
  · rw [take_of_exhausted (Nat.not_lt.mp htaken)]
    exact h

theorem ahead_run (hl : 0 < l) (h : n ≤ l ∨ w ≤ l) (k : Nat) : (run w l n k).Ahead w n := by
  induction k with
  | zero =>
    show min n l < n → 0 + w ≤ min n l
    omega
  | succ k ih => exact ih.take hl

/-- With portions shorter than `w` the first one is all that is loaded. -/
theorem loaded_run_of_lt (h : l < w) (k : Nat) : (run w l n k).loaded = min n l := by
  induction k with
  | zero => rfl
  | succ k ih =>
    show (take w l n (run w l n k)).loaded = _
    by_cases htaken : (run w l n k).taken < (run w l n k).loaded
    · have hw : (run w l n k).loaded ≠ (run w l n k).taken + w := by omega
      rw [take_of_ne htaken hw]
      exact ih
    · rw [take_of_exhausted (Nat.not_lt.mp htaken)]
      exact ih

/-- **Prefetching**: whenever no element is left to take, all of them have been
    loaded, exactly if the first portion holds them all or a portion has `w`
    elements. -/
theorem loads_all_iff (hw : 0 < w) (hl : 0 < l) :
    (∀ k, (run w l n k).Exhausted → (run w l n k).loaded = n) ↔ n ≤ l ∨ w ≤ l := by
  constructor
  · intro hall
    by_contra hshort
    have hlt : l < w := by omega
    have hloaded := hall n (exhausted_run w l n)
    rw [loaded_run_of_lt hlt] at hloaded
    omega
  · intro hbig k hexhausted
    have hle := loaded_run_le w l n k
    have hahead := ahead_run hl hbig k
    unfold Ahead at hahead
    unfold Exhausted at hexhausted
    by_contra hne
    have := hahead (by omega)
    omega

end Window

end Prefetch
