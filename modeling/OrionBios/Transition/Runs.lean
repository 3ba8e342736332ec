import Mathlib.Data.List.Basic
import Mathlib.Logic.Basic
import Mathlib.Logic.Relation

/-!
# Runs of a labelled partial step function

A system is a step function that is `none` where a label is not enabled. Whatever
the environment chooses (an outcome, an arriving byte, who runs next) is part of
the label, so a list of labels fixes a run. A guard restricts the labels a run may
take at a state; invariants of guarded runs are proved once here.
-/

namespace OrionBios.Transition

universe u v

variable {State : Type u} {Label : Type v}

/-- The state after a list of labels, if every one of them was enabled. -/
def exec (step : State → Label → Option State) : State → List Label → Option State
  | state, [] => some state
  | state, label :: rest => (step state label).bind fun next => exec step next rest

variable {step : State → Label → Option State}

@[simp] theorem exec_nil (state : State) : exec step state [] = some state := rfl

@[simp] theorem exec_cons (state : State) (label : Label) (rest : List Label) :
    exec step state (label :: rest) = (step state label).bind fun next => exec step next rest :=
  rfl

theorem exec_cons_eq_some {state last : State} {label : Label} {rest : List Label} :
    exec step state (label :: rest) = some last ↔
      ∃ next, step state label = some next ∧ exec step next rest = some last := by
  simp [Option.bind_eq_some_iff]

theorem exec_append (state : State) (first second : List Label) :
    exec step state (first ++ second) =
      (exec step state first).bind fun middle => exec step middle second := by
  induction first generalizing state with
  | nil => simp
  | cons label rest inductionHypothesis =>
      cases taken : step state label with
      | none => simp [taken]
      | some next => simp [taken, inductionHypothesis next]

/-- Every label of the run meets the guard at the state in which it is taken. -/
def Guarded (step : State → Label → Option State) (guard : State → Label → Prop) :
    State → List Label → Prop
  | _, [] => True
  | state, label :: rest =>
      guard state label ∧ ∀ next, step state label = some next → Guarded step guard next rest

/-- Every step of the run satisfies the property of its two ends and its label. -/
def EachStep (step : State → Label → Option State) (property : State → Label → State → Prop) :
    State → List Label → Prop
  | _, [] => True
  | state, label :: rest =>
      ∀ next, step state label = some next →
        property state label next ∧ EachStep step property next rest

variable {guard : State → Label → Prop}

@[simp] theorem guarded_nil (state : State) : Guarded step guard state [] := trivial

@[simp] theorem guarded_cons {state : State} {label : Label} {rest : List Label} :
    Guarded step guard state (label :: rest) ↔
      guard state label ∧
        ∀ next, step state label = some next → Guarded step guard next rest := Iff.rfl

theorem guarded_cons_of_step {state next : State} {label : Label} {rest : List Label}
    (allowed : guard state label) (taken : step state label = some next)
    (guarded : Guarded step guard next rest) : Guarded step guard state (label :: rest) := by
  refine ⟨allowed, fun other same => ?_⟩
  cases taken.symm.trans same
  exact guarded

theorem guarded_append {state : State} {first second : List Label}
    (guarded : Guarded step guard state (first ++ second)) :
    Guarded step guard state first ∧
      ∀ middle, exec step state first = some middle → Guarded step guard middle second := by
  induction first generalizing state with
  | nil =>
      refine ⟨trivial, fun middle run => ?_⟩
      cases run
      exact guarded
  | cons label rest inductionHypothesis =>
      refine ⟨⟨guarded.1, fun next taken => (inductionHypothesis (guarded.2 next taken)).1⟩, ?_⟩
      intro middle run
      obtain ⟨next, taken, remaining⟩ := exec_cons_eq_some.mp run
      exact (inductionHypothesis (guarded.2 next taken)).2 middle remaining

theorem eachStep_append {property : State → Label → State → Prop} {state middle : State}
    {first second : List Label} (each : EachStep step property state (first ++ second))
    (run : exec step state first = some middle) : EachStep step property middle second := by
  induction first generalizing state with
  | nil =>
      cases run
      exact each
  | cons label rest inductionHypothesis =>
      obtain ⟨next, taken, remaining⟩ := exec_cons_eq_some.mp run
      exact inductionHypothesis (each next taken).2 remaining

theorem guarded_of_forall (always : ∀ state label, guard state label) (state : State)
    (labels : List Label) : Guarded step guard state labels := by
  induction labels generalizing state with
  | nil => trivial
  | cons label rest inductionHypothesis =>
      exact ⟨always state label, fun next _ => inductionHypothesis next⟩

/-- Runs a list of labels and tests the guard at each of them. -/
def checkGuarded (step : State → Label → Option State) (guard : State → Label → Prop)
    [∀ state label, Decidable (guard state label)] : State → List Label → Bool
  | _, [] => true
  | state, label :: rest =>
      decide (guard state label) &&
        match step state label with
        | none => true
        | some next => checkGuarded step guard next rest

theorem guarded_of_check [∀ state label, Decidable (guard state label)] {state : State}
    {labels : List Label} (checked : checkGuarded step guard state labels = true) :
    Guarded step guard state labels := by
  induction labels generalizing state with
  | nil => trivial
  | cons label rest inductionHypothesis =>
      rw [checkGuarded, Bool.and_eq_true, decide_eq_true_eq] at checked
      refine ⟨checked.1, fun next taken => inductionHypothesis ?_⟩
      have remaining := checked.2
      rw [taken] at remaining
      exact remaining

/-- The guarded-run rule: what one guarded step preserves holds at the end of the run. -/
theorem invariant_of_guarded (invariant : State → Prop)
    (preserved : ∀ state label next, invariant state → guard state label →
      step state label = some next → invariant next)
    {state last : State} {labels : List Label} (initially : invariant state)
    (guarded : Guarded step guard state labels) (run : exec step state labels = some last) :
    invariant last := by
  induction labels generalizing state with
  | nil =>
      cases run
      exact initially
  | cons label rest inductionHypothesis =>
      obtain ⟨next, taken, remaining⟩ := exec_cons_eq_some.mp run
      exact inductionHypothesis (preserved state label next initially guarded.1 taken)
        (guarded.2 next taken) remaining

/-- A guarded run goes through when the invariant says that every guarded step is enabled. -/
theorem exec_of_guarded (invariant : State → Prop)
    (enabled : ∀ state label, invariant state → guard state label →
      ∃ next, step state label = some next ∧ invariant next)
    {state : State} {labels : List Label} (initially : invariant state)
    (guarded : Guarded step guard state labels) :
    ∃ last, exec step state labels = some last ∧ invariant last := by
  induction labels generalizing state with
  | nil => exact ⟨state, rfl, initially⟩
  | cons label rest inductionHypothesis =>
      obtain ⟨next, taken, holds⟩ := enabled state label initially guarded.1
      obtain ⟨last, run, holds⟩ := inductionHypothesis holds (guarded.2 next taken)
      exact ⟨last, exec_cons_eq_some.mpr ⟨next, taken, run⟩, holds⟩

/-- A property of single steps holds along a guarded run when the invariant carries it. -/
theorem eachStep_of_guarded (invariant : State → Prop)
    {property : State → Label → State → Prop}
    (preserved : ∀ state label next, invariant state → guard state label →
      step state label = some next → invariant next)
    (established : ∀ state label next, invariant state → guard state label →
      step state label = some next → property state label next)
    {state : State} {labels : List Label} (initially : invariant state)
    (guarded : Guarded step guard state labels) : EachStep step property state labels := by
  induction labels generalizing state with
  | nil => trivial
  | cons label rest inductionHypothesis =>
      intro next taken
      exact ⟨established state label next initially guarded.1 taken,
        inductionHypothesis (preserved state label next initially guarded.1 taken)
          (guarded.2 next taken)⟩

/-- The exact rule: where a step has the property exactly if its label meets the guard, and guarded
steps keep the invariant, the runs whose every step has the property are the guarded ones. -/
theorem eachStep_iff_guarded (invariant : State → Prop)
    {property : State → Label → State → Prop}
    (idle : ∀ state label, step state label = none → guard state label)
    (exact : ∀ state label next, invariant state → step state label = some next →
      (property state label next ↔ guard state label))
    (preserved : ∀ state label next, invariant state → guard state label →
      step state label = some next → invariant next)
    {state : State} {labels : List Label} (initially : invariant state) :
    EachStep step property state labels ↔ Guarded step guard state labels := by
  induction labels generalizing state with
  | nil => exact Iff.rfl
  | cons label rest inductionHypothesis =>
      constructor
      · intro each
        have guarded : guard state label := by
          cases taken : step state label with
          | none => exact idle state label taken
          | some next => exact (exact state label next initially taken).mp (each next taken).1
        refine ⟨guarded, fun next taken => ?_⟩
        exact (inductionHypothesis (preserved state label next initially guarded taken)).mp
          (each next taken).2
      · rintro ⟨guarded, remaining⟩ next taken
        refine ⟨(exact state label next initially taken).mpr guarded, ?_⟩
        exact (inductionHypothesis (preserved state label next initially guarded taken)).mpr
          (remaining next taken)

/-- The projection rule: where the labels of a part act alike on two states and the others leave
the part alone, a run of all labels goes on that part like the run of its own labels. -/
theorem exec_filter (own : Label → Bool) (invariant : State → Prop) (alike : State → State → Prop)
    (preserved : ∀ state label next, invariant state → guard state label →
      step state label = some next → invariant next)
    (foreign : ∀ state label next other, own label = false → guard state label →
      alike state other → step state label = some next → alike next other)
    (follows : ∀ state label next other, own label = true → invariant state → guard state label →
      alike state other → step state label = some next →
      ∃ next', step other label = some next' ∧ alike next next')
    {state other last : State} {labels : List Label} (initially : invariant state)
    (guarded : Guarded step guard state labels) (start : alike state other)
    (run : exec step state labels = some last) :
    ∃ last', exec step other (labels.filter own) = some last' ∧ alike last last' := by
  induction labels generalizing state other with
  | nil =>
      cases run
      exact ⟨other, rfl, start⟩
  | cons label rest inductionHypothesis =>
      obtain ⟨next, taken, remaining⟩ := exec_cons_eq_some.mp run
      have holds := preserved state label next initially guarded.1 taken
      cases mine : own label with
      | false =>
        rw [List.filter_cons_of_neg (Bool.eq_false_iff.mp mine)]
        exact inductionHypothesis holds (guarded.2 next taken)
          (foreign state label next other mine guarded.1 start taken) remaining
      | true =>
        obtain ⟨next', taken', start'⟩ :=
          follows state label next other mine initially guarded.1 start taken
        obtain ⟨last', run', alike'⟩ :=
          inductionHypothesis holds (guarded.2 next taken) start' remaining
        rw [List.filter_cons_of_pos mine]
        exact ⟨last', exec_cons_eq_some.mpr ⟨next', taken', run'⟩, alike'⟩

/-- The unguarded rule, for systems whose every step preserves the invariant. -/
theorem invariant_of_run (invariant : State → Prop)
    (preserved : ∀ state label next, invariant state → step state label = some next →
      invariant next)
    {state last : State} {labels : List Label} (initially : invariant state)
    (run : exec step state labels = some last) : invariant last := by
  have always : Guarded step (fun _ _ => True) state labels :=
    guarded_of_forall (fun _ _ => trivial) state labels
  exact invariant_of_guarded invariant (fun state label next holds _ => preserved state label next holds)
    initially always run

/-! ## Steps taken until there is none

A program that only goes on from step to step, such as a loop with its jumps, returns with the
state that it has no further step from. -/

/-- The last state, if it is reached within the given rounds. -/
def iterate (step : State → Option State) : Nat → State → Option State
  | 0, _ => none
  | rounds + 1, s =>
    match step s with
    | none => some s
    | some next => iterate step rounds next

/-- States that a program comes through. -/
abbrev Reaches (step : State → Option State) : State → State → Prop :=
  Relation.ReflTransGen fun s t => step s = some t

variable {step : State → Option State}

/-- What every step keeps holds wherever the program comes through. -/
theorem invariant_of_reaches (invariant : State → Prop)
    (preserved : ∀ s t, invariant s → step s = some t → invariant t) {s t : State}
    (initially : invariant s) (reaches : Reaches step s t) : invariant t := by
  induction reaches with
  | refl => exact initially
  | tail _ taken inductionHypothesis => exact preserved _ _ inductionHypothesis taken

/-- The rule for a program whose steps keep an invariant and lower a measure: it returns, and the
invariant holds at the end. -/
theorem iterate_returns (step : State → Option State) (invariant : State → Prop)
    (measure : State → Nat)
    (progress : ∀ s t, invariant s → step s = some t → invariant t ∧ measure t < measure s)
    {s : State} (initially : invariant s) {rounds : Nat} (enough : measure s < rounds) :
    ∃ last, iterate step rounds s = some last ∧ step last = none ∧ invariant last := by
  induction rounds generalizing s with
  | zero => exact absurd enough (Nat.not_lt_zero _)
  | succ rounds inductionHypothesis =>
      cases taken : step s with
      | none =>
          refine ⟨s, ?_, taken, initially⟩
          rw [iterate, taken]
      | some next =>
          obtain ⟨kept, less⟩ := progress s next initially taken
          obtain ⟨last, returns, ended, holds⟩ :=
            inductionHypothesis kept (Nat.lt_of_lt_of_le less (Nat.le_of_lt_succ enough))
          refine ⟨last, ?_, ended, holds⟩
          rw [iterate, taken]
          exact returns

end OrionBios.Transition
