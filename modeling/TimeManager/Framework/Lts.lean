import Mathlib.Tactic.Common

/-! # Labelled Transition Systems

    Systems given by their initial states and a labelled step relation,
    with the notions the rest of the development is stated in:

    * `Reachable`: the states some run ends in.
    * `Trace`: a run together with the state before each of its steps.
    * `Leads`: the runs that use only some of the labels.
    * `Within`: the runs of at most so many steps.
    * `Guarded`: the runs all of whose steps meet a condition.

    The proof rules are the usual induction on runs (`Reachable.invariant`,
    `Trace.invariant`), simulation (`Trace.simulates`), projection to a
    component (`Trace.project`) and rules for conditions that are *exact* for
    a safety property (`always_iff_guarded`, `alwaysRun_iff_guarded`). -/

namespace Lts

universe u v

/-- A labelled transition system. -/
structure System (State : Type u) (Label : Type v) where
  init : State → Prop
  step : State → Label → State → Prop

namespace System

variable {State : Type u} {Label : Type v} {sys : System State Label}

/-! ## Section 1: Runs -/

/-- The states in which some run of the system ends. -/
inductive Reachable (sys : System State Label) : State → Prop where
  | init {s} : sys.init s → Reachable sys s
  | step {s l s'} : Reachable sys s → sys.step s l s' → Reachable sys s'

/-- A run that ends in a given state.  The list holds each step as the
    state before it and its label, the latest step first. -/
inductive Trace (sys : System State Label) : List (State × Label) → State → Prop where
  | init {s} : sys.init s → Trace sys [] s
  | step {tr s l s'} : Trace sys tr s → sys.step s l s' → Trace sys ((s, l) :: tr) s'

theorem Trace.reachable {tr : List (State × Label)} {s : State}
    (h : sys.Trace tr s) : sys.Reachable s := by
  induction h with
  | init hi => exact .init hi
  | step _ hstep ih => exact .step ih hstep

/-- The part of a run before one of its steps leads to the state before that step. -/
theorem Trace.before {before after : List (State × Label)} {s s' : State} {l : Label}
    (h : sys.Trace (after ++ (s, l) :: before) s') : sys.Trace before s := by
  induction after generalizing s' with
  | nil =>
    cases h with
    | step htr _ => exact htr
  | cons x after ih =>
    cases h with
    | step htr _ => exact ih htr

theorem Reachable.trace {s : State} (h : sys.Reachable s) :
    ∃ tr, sys.Trace tr s := by
  induction h with
  | init hi => exact ⟨[], .init hi⟩
  | step _ hstep ih =>
    obtain ⟨tr, htr⟩ := ih
    exact ⟨_, .step htr hstep⟩

/-- **Invariant rule**: what holds initially and is preserved by every
    step from a reachable state holds in every reachable state. -/
theorem Reachable.invariant {Inv : State → Prop}
    (hinit : ∀ s, sys.init s → Inv s)
    (hstep : ∀ s l s', sys.Reachable s → Inv s → sys.step s l s' → Inv s')
    {s : State} (h : sys.Reachable s) : Inv s := by
  induction h with
  | init hi => exact hinit _ hi
  | step hr hs ih => exact hstep _ _ _ hr ih hs

/-- **Invariant rule for traces**: the invariant may speak about the
    steps taken so far. -/
theorem Trace.invariant {Inv : List (State × Label) → State → Prop}
    (hinit : ∀ s, sys.init s → Inv [] s)
    (hstep : ∀ tr s l s', sys.Reachable s → Inv tr s → sys.step s l s' →
      Inv ((s, l) :: tr) s')
    {tr : List (State × Label)} {s : State} (h : sys.Trace tr s) : Inv tr s := by
  induction h with
  | init hi => exact hinit _ hi
  | step ht hs ih => exact hstep _ _ _ _ ht.reachable ih hs

/-! ### Systems with a step function -/

section StepFunction

variable {f : State → Label → Option State}

/-- The steps of a run of a step function, the latest first, as far as they
    are possible; `tr` are the steps before it. -/
def stepsOf (f : State → Label → Option State) :
    List (State × Label) → State → List Label → List (State × Label)
  | tr, _, [] => tr
  | tr, s, l :: ls =>
    match f s l with
    | some s' => stepsOf f ((s, l) :: tr) s' ls
    | none => tr

/-- The steps of a run, and those before it. -/
theorem mem_stepsOf {tr : List (State × Label)} {s : State} {ls : List Label}
    {x : State × Label} : x ∈ stepsOf f tr s ls ↔ x ∈ stepsOf f [] s ls ∨ x ∈ tr := by
  induction ls generalizing tr s with
  | nil => simp [stepsOf]
  | cons l ls ih =>
    simp only [stepsOf]
    cases hstep : f s l with
    | none => simp
    | some s' =>
      have htail := @ih ((s, l) :: tr) s'
      have hhead := @ih [(s, l)] s'
      simp only [List.mem_cons, List.not_mem_nil, or_false] at htail hhead
      rw [htail, hhead, or_assoc]

/-- A run of a step function is a run of the system. -/
theorem Trace.of_foldlM (hf : ∀ s l s', f s l = some s' → sys.step s l s')
    {tr : List (State × Label)} {s s' : State} {ls : List Label} (h : sys.Trace tr s)
    (hrun : ls.foldlM f s = some s') : sys.Trace (stepsOf f tr s ls) s' := by
  induction ls generalizing tr s with
  | nil =>
    rw [← Option.some.inj hrun]
    exact h
  | cons l ls ih =>
    rw [List.foldlM_cons] at hrun
    obtain ⟨s₁, hstep, hrest⟩ := Option.bind_eq_some_iff.mp hrun
    show sys.Trace (match f s l with | some s' => _ | none => _) s'
    rw [hstep]
    exact ih (.step h (hf _ _ _ hstep)) hrest

theorem Reachable.of_foldlM (hf : ∀ s l s', f s l = some s' → sys.step s l s')
    {s s' : State} {ls : List Label} (h : sys.Reachable s) (hrun : ls.foldlM f s = some s') :
    sys.Reachable s' := by
  obtain ⟨tr, htr⟩ := h.trace
  exact (htr.of_foldlM hf hrun).reachable

/-- **Homomorphism rule**: a change of states and labels that the step
    function commutes with commutes with whole runs. -/
theorem foldlM_map_of_step {g : State → State} {g' : Label → Label}
    (hf : ∀ s l, f (g s) (g' l) = (f s l).map g) (s : State) (ls : List Label) :
    (ls.map g').foldlM f (g s) = (ls.foldlM f s).map g := by
  induction ls generalizing s with
  | nil => rfl
  | cons l ls ih =>
    rw [List.map_cons, List.foldlM_cons, List.foldlM_cons, hf]
    cases f s l with
    | none => rfl
    | some s' => exact ih s'

end StepFunction

/-! ### Runs by some of the labels -/

/-- The states that a run by allowed labels leads to. -/
inductive Leads (sys : System State Label) (allowed : Label → Prop) (s : State) : State → Prop where
  | refl : Leads sys allowed s s
  | step {s' l s''} : Leads sys allowed s s' → allowed l → sys.step s' l s'' →
      Leads sys allowed s s''

/-- **Invariant rule for allowed labels**. -/
theorem Leads.invariant {allowed : Label → Prop} {Inv : State → Prop}
    (hstep : ∀ s l s', allowed l → Inv s → sys.step s l s' → Inv s')
    {s s' : State} (h : sys.Leads allowed s s') (hs : Inv s) : Inv s' := by
  induction h with
  | refl => exact hs
  | step _ hl hs' ih => exact hstep _ _ _ hl ih hs'

/-! ### Short runs -/

/-- At most `n` steps lead from the first state to the second. -/
inductive Within (sys : System State Label) : Nat → State → State → Prop where
  | refl {n s} : Within sys n s s
  | step {n s l s' t} : sys.step s l s' → Within sys n s' t → Within sys (n + 1) s t

theorem Within.one {s t : State} {l : Label} (h : sys.step s l t) : sys.Within 1 s t :=
  .step h .refl

theorem Within.mono {n k : Nat} {s t : State} (h : sys.Within n s t) (hle : n ≤ k) :
    sys.Within k s t := by
  induction h generalizing k with
  | refl => exact .refl
  | step hstep _ ih =>
    obtain ⟨k', rfl⟩ : ∃ k', k = k' + 1 := ⟨k - 1, by omega⟩
    exact .step hstep (ih (by omega))

theorem Within.trans {n k : Nat} {s t u : State} (h : sys.Within n s t) (h' : sys.Within k t u) :
    sys.Within (n + k) s u := by
  induction h with
  | refl => exact h'.mono (Nat.le_add_left _ _)
  | step hstep _ ih => exact (Within.step hstep (ih h')).mono (by omega)

/-- A run of a step function is as short as its list of labels. -/
theorem Within.of_foldlM {f : State → Label → Option State} {ls : List Label}
    (hf : ∀ l ∈ ls, ∀ s s', f s l = some s' → sys.step s l s') {s s' : State}
    (hrun : ls.foldlM f s = some s') : sys.Within ls.length s s' := by
  induction ls generalizing s with
  | nil =>
    rw [← Option.some.inj hrun]
    exact .refl
  | cons l ls ih =>
    rw [List.foldlM_cons] at hrun
    obtain ⟨s₁, hstep, hrest⟩ := Option.bind_eq_some_iff.mp hrun
    exact .step (hf l List.mem_cons_self _ _ hstep)
      (ih (fun l' hl' => hf l' (List.mem_cons_of_mem l hl')) hrest)

/-- **Progress rule**: where each of the `n` stages leads to the next one in at
    most `k` steps, all of them take at most `n * k` steps. -/
theorem Within.stages {P : Nat → State → Prop} {k n : Nat}
    (hstage : ∀ i s, i < n → P i s → ∃ t, sys.Within k s t ∧ P (i + 1) t)
    {s : State} (hs : P 0 s) : ∃ t, sys.Within (n * k) s t ∧ P n t := by
  induction n with
  | zero => exact ⟨s, .refl, hs⟩
  | succ n ih =>
    obtain ⟨t, hwithin, ht⟩ := ih fun i s hi => hstage i s (Nat.lt_succ_of_lt hi)
    obtain ⟨u, hlast, hu⟩ := hstage n t (Nat.lt_succ_self n) ht
    exact ⟨u, by rw [Nat.succ_mul]; exact hwithin.trans hlast, hu⟩

/-! ### Simulation -/

/-- **Simulation rule**: let every step keep the relation to some state of an
    abstract system, which takes a step of its own or stands still.  The
    relation may speak about the steps taken so far.  Then every run is
    related to a reachable state. -/
theorem Trace.simulates {State' : Type u} {Label' : Type v} {abs : System State' Label'}
    {R : List (State × Label) → State → State' → Prop}
    (hinit : ∀ s, sys.init s → ∃ t, abs.init t ∧ R [] s t)
    (hstep : ∀ tr s l s' t, R tr s t → abs.Reachable t → sys.step s l s' →
      ∃ t', R ((s, l) :: tr) s' t' ∧ (t' = t ∨ ∃ l', abs.step t l' t'))
    {tr : List (State × Label)} {s : State} (h : sys.Trace tr s) :
    ∃ t, abs.Reachable t ∧ R tr s t := by
  induction h with
  | init hs =>
    obtain ⟨t, ht, hR⟩ := hinit _ hs
    exact ⟨t, .init ht, hR⟩
  | step _ hs ih =>
    obtain ⟨t, ht, hR⟩ := ih
    obtain ⟨t', hR', rfl | ⟨l', hstep'⟩⟩ := hstep _ _ _ _ _ hR ht hs
    · exact ⟨t', ht, hR'⟩
    · exact ⟨t', .step ht hstep', hR'⟩

/-! ## Section 2: Runs whose steps meet a condition -/

/-- `P` holds in the last state of the run and in every state before it. -/
def Always (P : State → Prop) (tr : List (State × Label)) (s : State) : Prop :=
  P s ∧ ∀ x ∈ tr, P x.1

/-- Every step of the run meets `ok`, a condition on the state before the
    step and on its label. -/
def Guarded (ok : State → Label → Prop) (tr : List (State × Label)) : Prop :=
  ∀ x ∈ tr, ok x.1 x.2

instance (ok : State → Label → Prop) [∀ s l, Decidable (ok s l)] (tr : List (State × Label)) :
    Decidable (Guarded ok tr) :=
  inferInstanceAs (Decidable (∀ x ∈ tr, ok x.1 x.2))

theorem always_cons {P : State → Prop} {x : State × Label} {tr : List (State × Label)}
    {s : State} : Always P (x :: tr) s ↔ P s ∧ Always P tr x.1 := by
  unfold Always
  rw [List.forall_mem_cons]

theorem guarded_cons {ok : State → Label → Prop} {x : State × Label}
    {tr : List (State × Label)} : Guarded ok (x :: tr) ↔ ok x.1 x.2 ∧ Guarded ok tr :=
  List.forall_mem_cons

/-- The system that takes only the steps that meet `ok`. -/
def restrict (sys : System State Label) (ok : State → Label → Prop) : System State Label where
  init := sys.init
  step := fun s l s' => ok s l ∧ sys.step s l s'

theorem Trace.restrict {ok : State → Label → Prop} {tr : List (State × Label)} {s : State}
    (h : sys.Trace tr s) (hok : Guarded ok tr) : (sys.restrict ok).Trace tr s := by
  induction h with
  | init hi => exact .init hi
  | step _ hs ih =>
    obtain ⟨hlast, htail⟩ := guarded_cons.mp hok
    exact .step (ih htail) ⟨hlast, hs⟩

/-- What a restricted run leads to is reachable without the restriction. -/
theorem Reachable.of_within {ok : State → Label → Prop} {n : Nat} {s t : State}
    (h : sys.Reachable s) (hwithin : (sys.restrict ok).Within n s t) : sys.Reachable t := by
  induction hwithin with
  | refl => exact h
  | step hstep _ ih => exact ih (h.step hstep.2)

/-! ### Components

    A component of a system is seen in some of its states, and takes part in
    some of its steps. -/

section Components

variable {State' : Type u} {Label' : Type v} {part : System State' Label'}
  {view : State → Option State'} {label : State → Label → Option Label'}

/-- What a run is for a component: the steps that it takes part in. -/
def seenBy (view : State → Option State') (label : State → Label → Option Label')
    (tr : List (State × Label)) : List (State' × Label') :=
  tr.filterMap fun x => (view x.1).bind fun t => (label x.1 x.2).map fun l => (t, l)

/-- What a step does to a component that is seen before it. -/
def Follows (part : System State' Label') (t : State') : Option Label' → State' → Prop
  | none, t' => t' = t
  | some l, t' => part.step t l t'

theorem seenBy_cons (x : State × Label) (tr : List (State × Label)) :
    seenBy view label (x :: tr) =
      (((view x.1).bind fun t => (label x.1 x.2).map fun l => (t, l)).toList) ++
        seenBy view label tr := by
  unfold seenBy
  cases hx : (view x.1).bind fun t => (label x.1 x.2).map fun l => (t, l) with
  | none => simp [hx]
  | some y => simp [hx]

/-- **Projection rule**: let a component appear in an initial state of its own
    system, and from then on follow its labels.  Then what a run is for the
    component is a run of the component. -/
theorem Trace.project
    (hinit : ∀ s t, sys.init s → view s = some t → part.init t)
    (hnew : ∀ s l s' t', sys.Reachable s → sys.step s l s' → view s = none →
      view s' = some t' → part.init t')
    (hstep : ∀ s l s' t, sys.Reachable s → sys.step s l s' → view s = some t →
      ∃ t', view s' = some t' ∧ Follows part t (label s l) t')
    {tr : List (State × Label)} {s : State} {t : State'} (h : sys.Trace tr s)
    (hview : view s = some t) : part.Trace (seenBy view label tr) t := by
  -- a component that is not seen has not been seen before
  have hall : (view s = none → seenBy view label tr = []) ∧
      ∀ t, view s = some t → part.Trace (seenBy view label tr) t := by
    clear hview t
    induction h with
    | init hs => exact ⟨fun _ => rfl, fun t ht => .init (hinit _ _ hs ht)⟩
    | @step tr s l s' htr hs ih =>
      rw [seenBy_cons]
      cases hbefore : view s with
      | none =>
        rw [Option.bind_none, Option.toList_none, List.nil_append, ih.1 hbefore]
        exact ⟨fun _ => rfl, fun t ht => .init (hnew _ _ _ _ htr.reachable hs hbefore ht)⟩
      | some t₀ =>
        obtain ⟨t', ht', hfollows⟩ := hstep _ _ _ _ htr.reachable hs hbefore
        refine ⟨fun hnone => (Option.some_ne_none t' (ht'.symm.trans hnone)).elim, ?_⟩
        intro t ht
        obtain rfl : t' = t := Option.some.inj (ht'.symm.trans ht)
        rw [Option.bind_some]
        cases hlabel : label s l with
        | none =>
          rw [hlabel] at hfollows
          obtain rfl : t' = t₀ := hfollows
          exact ih.2 _ hbefore
        | some l' =>
          rw [hlabel] at hfollows
          exact .step (ih.2 _ hbefore) hfollows
  exact hall.2 t hview

/-- A condition on the steps of the system that gives one on those of the
    component. -/
theorem Guarded.seenBy {ok : State → Label → Prop} {ok' : State' → Label' → Prop}
    (hok : ∀ s l t l', view s = some t → label s l = some l' → ok s l → ok' t l')
    {tr : List (State × Label)} (h : Guarded ok tr) : Guarded ok' (seenBy view label tr) := by
  intro y hy
  obtain ⟨x, hx, hxy⟩ := List.mem_filterMap.mp hy
  obtain ⟨t, ht, hl⟩ := Option.bind_eq_some_iff.mp hxy
  obtain ⟨l', hl', rfl⟩ := Option.map_eq_some_iff.mp hl
  exact hok _ _ _ _ ht hl' (h x hx)

end Components

/-- `P` holds of the run and of every shorter run that it goes on from. -/
def AlwaysRun (P : List (State × Label) → State → Prop) :
    List (State × Label) → State → Prop
  | [], s => P [] s
  | x :: tr, s => P (x :: tr) s ∧ AlwaysRun P tr x.1

theorem AlwaysRun.last {P : List (State × Label) → State → Prop} {tr : List (State × Label)}
    {s : State} (h : AlwaysRun P tr s) : P tr s := by
  cases tr with
  | nil => exact h
  | cons x tr => exact h.1

/-- **Exact conditions for properties of runs**: let `P` hold of the empty
    runs, and let the steps that keep `P` be those that meet `ok`.  Then the
    runs of which `P` always holds are exactly those all of whose steps meet
    `ok`. -/
theorem Trace.alwaysRun_iff_guarded {P : List (State × Label) → State → Prop}
    {ok : State → Label → Prop} (hinit : ∀ s, sys.init s → P [] s)
    (hstep : ∀ tr s l s', sys.Trace tr s → P tr s → sys.step s l s' →
      (P ((s, l) :: tr) s' ↔ ok s l))
    {tr : List (State × Label)} {s : State} (h : sys.Trace tr s) :
    AlwaysRun P tr s ↔ Guarded ok tr := by
  induction h with
  | init hi => exact iff_of_true (hinit _ hi) (by simp [Guarded])
  | step htr hs ih =>
    rw [guarded_cons]
    constructor
    · rintro ⟨hlast, htail⟩
      exact ⟨(hstep _ _ _ _ htr htail.last hs).mp hlast, ih.mp htail⟩
    · rintro ⟨hok, hguarded⟩
      have htail := ih.mpr hguarded
      exact ⟨(hstep _ _ _ _ htr htail.last hs).mpr hok, htail⟩

/-- **Invariant rule for guarded runs**: what holds initially and is kept by
    the steps that meet `ok` holds in every state of a guarded run. -/
theorem Trace.always_of_guarded {J : State → Prop} {ok : State → Label → Prop}
    (hinit : ∀ s, sys.init s → J s)
    (hgood : ∀ s l s', J s → ok s l → sys.step s l s' → J s')
    {tr : List (State × Label)} {s : State} (h : sys.Trace tr s)
    (hok : Guarded ok tr) : Always J tr s := by
  induction h with
  | init hi => exact ⟨hinit _ hi, by simp⟩
  | step _ hs ih =>
    obtain ⟨hlast, htail⟩ := guarded_cons.mp hok
    have hall := ih htail
    exact always_cons.mpr ⟨hgood _ _ _ hall.1 hlast hs, hall⟩

/-- **Exact conditions**: let `J` be kept by the steps that meet `ok`, let
    `J` give `P`, and let every step that does not meet `ok` lead from `J`
    out of `P`.  Then the runs in which `P` always holds are exactly those
    all of whose steps meet `ok`. -/
theorem Trace.always_iff_guarded {J P : State → Prop} {ok : State → Label → Prop}
    (hinit : ∀ s, sys.init s → J s)
    (hgood : ∀ s l s', J s → ok s l → sys.step s l s' → J s')
    (hsafe : ∀ s, J s → P s)
    (hbad : ∀ s l s', J s → ¬ ok s l → sys.step s l s' → ¬ P s')
    {tr : List (State × Label)} {s : State} (h : sys.Trace tr s) :
    Always P tr s ↔ Guarded ok tr := by
  constructor
  · intro hP
    induction h with
    | init _ => simp [Guarded]
    | step htr hs ih =>
      obtain ⟨hlast, htail⟩ := always_cons.mp hP
      have hguarded := ih htail
      -- the run before this step is guarded, so it keeps `J`
      have hJ := (htr.always_of_guarded hinit hgood hguarded).1
      refine guarded_cons.mpr ⟨?_, hguarded⟩
      by_contra hno
      exact hbad _ _ _ hJ hno hs hlast
  · intro hok
    obtain ⟨hlast, hall⟩ := h.always_of_guarded hinit hgood hok
    exact ⟨hsafe _ hlast, fun x hx => hsafe _ (hall x hx)⟩

end System

end Lts
