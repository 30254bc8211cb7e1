import Mathlib.Data.List.Count
import Mathlib.Tactic.Common

/-! # Ledgers of Undecided Items

    A party hands items to another one, which decides each of them some time
    later: it accepts the item or refuses it, once and for all.

    * `accepted` counts the accepted items of a kind.
    * `possible` counts those that are not refused, which is how many there
      can be at most when everything is decided.

    A decision never raises what is possible (`possible_settle_le`), and what
    is possible can come true (`accepted_settleAll`). -/

namespace Ledger

universe u v

/-- The fate of an item.  An accepted one carries a mark of the time at which
    it was accepted. -/
inductive Verdict (τ : Type v) where
  | waiting
  | refused
  | accepted (mark : τ)
deriving DecidableEq, Repr

/-- An item that was handed over under a number. -/
structure Entry (α : Type u) (τ : Type v) where
  id : Nat
  item : α
  verdict : Verdict τ
deriving DecidableEq, Repr

variable {α : Type u} {τ : Type v}

def Verdict.isAccepted : Verdict τ → Bool
  | .accepted _ => true
  | _ => false

def Verdict.isRefused : Verdict τ → Bool
  | .refused => true
  | _ => false

/-- An entry after a decision on the item `id`. -/
def Entry.settle (id : Nat) (verdict : Verdict τ) (e : Entry α τ) : Entry α τ :=
  match e.verdict with
  | .waiting => if e.id = id then { e with verdict := verdict } else e
  | _ => e

/-- A decision on the item `id`, if there is one that waits. -/
def settle (id : Nat) (verdict : Verdict τ) (entries : List (Entry α τ)) : List (Entry α τ) :=
  entries.map (Entry.settle id verdict)

/-- The accepted items of a kind. -/
def accepted (kind : α → Bool) (entries : List (Entry α τ)) : Nat :=
  entries.countP fun e => kind e.item && e.verdict.isAccepted

/-- The items of a kind that are not refused. -/
def possible (kind : α → Bool) (entries : List (Entry α τ)) : Nat :=
  entries.countP fun e => kind e.item && !e.verdict.isRefused

/-! ## Section 1: One decision -/

@[simp] theorem Entry.settle_id (id : Nat) (verdict : Verdict τ) (e : Entry α τ) :
    (e.settle id verdict).id = e.id := by
  unfold Entry.settle
  split
  · split <;> rfl
  · rfl

@[simp] theorem Entry.settle_item (id : Nat) (verdict : Verdict τ) (e : Entry α τ) :
    (e.settle id verdict).item = e.item := by
  unfold Entry.settle
  split
  · split <;> rfl
  · rfl

/-- A decision changes the verdict on an item only while it waits. -/
theorem Entry.settle_verdict (id : Nat) (verdict : Verdict τ) (e : Entry α τ) :
    (e.settle id verdict).verdict = e.verdict ∨
      (e.verdict = .waiting ∧ e.id = id ∧ (e.settle id verdict).verdict = verdict) := by
  cases hv : e.verdict with
  | waiting =>
    by_cases hid : e.id = id
    · right
      refine ⟨rfl, hid, ?_⟩
      simp [Entry.settle, hv, hid]
    · left
      simp [Entry.settle, hv, hid]
  | refused => simp [Entry.settle, hv]
  | accepted mark => simp [Entry.settle, hv]

/-- What is accepted stays accepted. -/
theorem Entry.settle_accepted {e : Entry α τ} {mark : τ} (h : e.verdict = .accepted mark)
    (id : Nat) (verdict : Verdict τ) : e.settle id verdict = e := by
  simp [Entry.settle, h]

theorem mem_settle {id : Nat} {verdict : Verdict τ} {entries : List (Entry α τ)}
    {e : Entry α τ} (h : e ∈ settle id verdict entries) :
    ∃ e' ∈ entries, e = e'.settle id verdict := by
  obtain ⟨e', he', rfl⟩ := List.mem_map.mp h
  exact ⟨e', he', rfl⟩

/-! ## Section 2: Counts -/

theorem accepted_le_possible (kind : α → Bool) (entries : List (Entry α τ)) :
    accepted kind entries ≤ possible kind entries := by
  apply List.countP_mono_left
  intro e _ h
  cases hv : e.verdict with
  | waiting => simp [hv, Verdict.isAccepted] at h
  | refused => simp [hv, Verdict.isAccepted] at h
  | accepted mark => simpa [hv, Verdict.isAccepted, Verdict.isRefused] using h

/-- A decision never raises what is possible. -/
theorem possible_settle_le (kind : α → Bool) (id : Nat) (verdict : Verdict τ)
    (entries : List (Entry α τ)) :
    possible kind (settle id verdict entries) ≤ possible kind entries := by
  unfold possible settle
  rw [List.countP_map]
  apply List.countP_mono_left
  intro e _ h
  rcases e.settle_verdict id verdict with hv | ⟨hv, _, _⟩
  · simpa [Function.comp, hv] using h
  · -- it waited, so it was possible
    have hkind : kind e.item = true := by
      have hand := (Bool.and_eq_true _ _).mp h
      simpa using hand.1
    simp [hkind, hv, Verdict.isRefused]

/-- Items that are added. -/
theorem possible_append (kind : α → Bool) (entries entries' : List (Entry α τ)) :
    possible kind (entries ++ entries') = possible kind entries + possible kind entries' :=
  List.countP_append

/-- Nothing is possible once all items of the kind are refused. -/
theorem possible_eq_zero_iff {kind : α → Bool} {entries : List (Entry α τ)} :
    possible kind entries = 0 ↔ ∀ e ∈ entries, kind e.item → e.verdict = .refused := by
  unfold possible
  rw [List.countP_eq_zero]
  constructor
  · intro h e he hkind
    have hno := h e he
    cases hv : e.verdict with
    | refused => rfl
    | waiting => simp [hkind, hv, Verdict.isRefused] at hno
    | accepted mark => simp [hkind, hv, Verdict.isRefused] at hno
  · intro h e he hyes
    obtain ⟨hkind, hno⟩ := (Bool.and_eq_true _ _).mp hyes
    simp [h e he hkind, Verdict.isRefused] at hno

/-! ## Section 3: Everything is accepted -/

/-- All the items with these numbers that wait are accepted. -/
def settleAll (mark : τ) (ids : List Nat) (entries : List (Entry α τ)) : List (Entry α τ) :=
  ids.foldl (fun entries id => settle id (.accepted mark) entries) entries

/-- Accepting an item leaves possible what was. -/
theorem possible_settle_accepted (kind : α → Bool) (id : Nat) (mark : τ)
    (entries : List (Entry α τ)) :
    possible kind (settle id (.accepted mark) entries) = possible kind entries := by
  unfold possible settle
  rw [List.countP_map]
  apply List.countP_congr
  intro e _
  rcases e.settle_verdict id (.accepted mark) with hv | ⟨hv, _, hv'⟩
  · simp [hv]
  · simp [hv, hv', Verdict.isRefused]

theorem possible_settleAll (kind : α → Bool) (mark : τ) (ids : List Nat)
    (entries : List (Entry α τ)) :
    possible kind (settleAll mark ids entries) = possible kind entries := by
  induction ids generalizing entries with
  | nil => rfl
  | cons id ids ih =>
    show possible kind (settleAll mark ids (settle id (.accepted mark) entries)) = _
    rw [ih, possible_settle_accepted]

/-- An item that waits afterwards was not among the accepted ones. -/
theorem waiting_of_settleAll {mark : τ} {ids : List Nat} {entries : List (Entry α τ)}
    {e : Entry α τ} (h : e ∈ settleAll mark ids entries) (hv : e.verdict = .waiting) :
    e ∈ entries ∧ e.id ∉ ids := by
  induction ids generalizing entries with
  | nil => exact ⟨h, List.not_mem_nil⟩
  | cons id ids ih =>
    obtain ⟨hmem, hids⟩ := @ih (settle id (.accepted mark) entries) h
    obtain ⟨e', he', rfl⟩ := mem_settle hmem
    rcases e'.settle_verdict id (.accepted mark) with hsame | ⟨_, _, hnew⟩
    · -- it was not touched
      have hwait : e'.verdict = .waiting := hsame.symm.trans hv
      have hne : e'.id ≠ id := by
        intro hid
        simp [Entry.settle, hwait, hid] at hv
      have heq : e'.settle id (.accepted mark) = e' := by
        simp [Entry.settle, hwait, hne]
      rw [heq] at hids ⊢
      exact ⟨he', List.not_mem_cons_of_ne_of_not_mem hne hids⟩
    · rw [hnew] at hv
      cases hv

/-- **What is possible can come true**: the other party accepts all items
    that wait. -/
theorem accepted_settleAll (kind : α → Bool) (mark : τ) (entries : List (Entry α τ)) :
    accepted kind (settleAll mark (entries.map (·.id)) entries) = possible kind entries := by
  rw [← possible_settleAll kind mark (entries.map (·.id)) entries]
  apply List.countP_congr
  intro e he
  -- an item that still waits would not have been named
  have hdecided : e.verdict ≠ .waiting := by
    intro hv
    obtain ⟨hmem, hids⟩ := waiting_of_settleAll he hv
    exact hids (List.mem_map_of_mem hmem)
  cases hv : e.verdict with
  | waiting => exact absurd hv hdecided
  | refused => simp [Verdict.isAccepted, Verdict.isRefused]
  | accepted mark => simp [Verdict.isAccepted, Verdict.isRefused]

end Ledger
