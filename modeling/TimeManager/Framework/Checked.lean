import Mathlib.Algebra.Group.Int.Defs
import Mathlib.Tactic.Common

/-! # Checked Integer Arithmetic

    Arithmetic on 64-bit signed integers that traps where the exact result
    does not fit: integers with a range test, and operations in
    `Except Trap`. -/

namespace Checked

/-- Why a run was aborted. -/
inductive Trap where
  | arithmeticOverflow
deriving DecidableEq, Repr

/-- The integers a 64-bit signed word can hold. -/
def InRange (n : Int) : Prop := -2 ^ 63 ≤ n ∧ n < 2 ^ 63

instance (n : Int) : Decidable (InRange n) := by
  unfold InRange; infer_instance

/-- An exact result, or the trap where it does not fit. -/
def checked (n : Int) : Except Trap Int :=
  if InRange n then .ok n else .error .arithmeticOverflow

def add (a b : Int) : Except Trap Int := checked (a + b)

def mul (a b : Int) : Except Trap Int := checked (a * b)

theorem checked_eq_ok_iff {n m : Int} : checked n = .ok m ↔ InRange n ∧ m = n := by
  unfold checked
  split
  · next h => simp [h, eq_comm]
  · next h => simp [h]

theorem checked_of_inRange {n : Int} (h : InRange n) : checked n = .ok n :=
  checked_eq_ok_iff.mpr ⟨h, rfl⟩

/-! ## Computations that do not trap -/

section

variable {ε α β : Type} {x : Except ε α} {b : β}

theorem bind_eq_ok {f : α → Except ε β} : x.bind f = .ok b ↔ ∃ a, x = .ok a ∧ f a = .ok b := by
  cases x with
  | error e => simp [Except.bind]
  | ok a => simp [Except.bind]

theorem map_eq_ok {f : α → β} : x.map f = .ok b ↔ ∃ a, x = .ok a ∧ f a = b := by
  cases x with
  | error e => simp [Except.map]
  | ok a => simp [Except.map]

end

end Checked
