import OrionBios.Machine.Program
import OrionBios.Transition.Runs

/-!
# Programs among other parties

A program shares its machine with parties that take steps of their own. The schedule says whose
turn comes next. An access of the program waits until it goes through in one of the program's own
turns, and a turn of a party that has no step to take is lost.
-/

namespace OrionBios.Machine

open Transition

/-- A machine and the turns to come, where `none` is a turn of the program. -/
structure Scheduled (State Turn : Type) where
  state : State
  turns : List (Option Turn)

variable {State Turn Value Result : Type} {step : State → Turn → Option State}

def awaitLoop (step : State → Turn → Option State) (access : State → Option (Value × State)) :
    List (Option Turn) → State → Option Value × Scheduled State Turn
  | [], s => (none, ⟨s, []⟩)
  | none :: rest, s =>
    match access s with
    | some (value, t) => (some value, ⟨t, rest⟩)
    | none => awaitLoop step access rest s
  | some turn :: rest, s => awaitLoop step access rest ((step s turn).getD s)

/-- An access of the program, with the turns of the others in front of it. -/
def await (step : State → Turn → Option State) (access : State → Option (Value × State)) :
    Program (Scheduled State Turn) Value := fun s => awaitLoop step access s.turns s.state

/-! ## What a program establishes under every schedule -/

/-- If the program returns, whatever the schedule, then with a result and a state that `after`
holds of. -/
def Establishes (before : State → Prop) (program : Program (Scheduled State Turn) Value)
    (after : Value → State → Prop) : Prop :=
  ∀ s value t, before s.state → program s = (some value, t) → after value t.state

variable {before : State → Prop} {after : Value → State → Prop}
  {program : Program (Scheduled State Turn) Value}

/-- The steps of the other parties keep a property. -/
def Stable (step : State → Turn → Option State) (property : State → Prop) : Prop :=
  ∀ s turn t, property s → step s turn = some t → property t

theorem establishes_pure {value : Value} (holds : ∀ s, before s → after value s) :
    Establishes before (pure value : Program (Scheduled State Turn) Value) after := by
  intro s value' t initially returns
  cases returns
  exact holds s.state initially

theorem Establishes.bind {middle : Value → State → Prop} {final : Result → State → Prop}
    {next : Value → Program (Scheduled State Turn) Result}
    (first : Establishes before program middle)
    (second : ∀ value, Establishes (middle value) (next value) final) :
    Establishes before (program >>= next) final := by
  intro s result u initially returns
  obtain ⟨value, t, ran, rest⟩ := Program.bind_returns.mp returns
  exact second value t result u (first s value t initially ran) rest

theorem Establishes.weaken {after' : Value → State → Prop} {before' : State → Prop}
    (established : Establishes before program after) (stronger : ∀ s, before' s → before s)
    (weaker : ∀ value s, after value s → after' value s) : Establishes before' program after' :=
  fun s value t initially returns =>
    weaker value t.state (established s value t (stronger s.state initially) returns)

theorem establishes_true (before : State → Prop) (program : Program (Scheduled State Turn) Value) :
    Establishes before program fun _ _ => True := fun _ _ _ _ _ => trivial

theorem establishes_ite {condition : Prop} [Decidable condition]
    {other : Program (Scheduled State Turn) Value}
    (holds : condition → Establishes before program after)
    (fails : ¬ condition → Establishes before other after) :
    Establishes before (if condition then program else other) after := by
  split
  · next truth => exact holds truth
  · next falsity => exact fails falsity

/-- The access rule: the others keep what holds before it, and it leads on from there. -/
theorem establishes_await {access : State → Option (Value × State)} (stable : Stable step before)
    (goes : ∀ s value t, before s → access s = some (value, t) → after value t) :
    Establishes before (await step access) after := by
  have loop : ∀ turns s value t, before s → awaitLoop step access turns s = (some value, t) →
      after value t.state := by
    intro turns
    induction turns with
    | nil =>
        intro s value t _ returns
        cases returns
    | cons turn rest inductionHypothesis =>
        intro s value t initially returns
        cases turn with
        | none =>
            rw [awaitLoop] at returns
            split at returns
            · next value' t' through =>
                cases returns
                exact goes s value t' initially through
            · exact inductionHypothesis s value t initially returns
        | some turn =>
            rw [awaitLoop] at returns
            cases taken : step s turn with
            | none =>
                rw [taken] at returns
                exact inductionHypothesis s value t initially returns
            | some next =>
                rw [taken] at returns
                exact inductionHypothesis next value t (stable s turn next initially taken) returns
  exact fun s value t initially returns => loop s.turns s.state value t initially returns

/-! ## What a program attains under some schedule -/

/-- Some turns bring the program from a state to its result. -/
def Attains (program : Program (Scheduled State Turn) Value) (s : State) (value : Value)
    (t : State) : Prop :=
  ∃ turns, ∀ rest, program ⟨s, turns ++ rest⟩ = (some value, ⟨t, rest⟩)

theorem attains_pure (value : Value) (s : State) :
    Attains (pure value : Program (Scheduled State Turn) Value) s value s :=
  ⟨[], fun _ => rfl⟩

theorem Attains.bind {next : Value → Program (Scheduled State Turn) Result} {s t u : State}
    {value : Value} {result : Result} (first : Attains program s value t)
    (second : Attains (next value) t result u) : Attains (program >>= next) s result u := by
  obtain ⟨turns, ran⟩ := first
  obtain ⟨turns', ran'⟩ := second
  refine ⟨turns ++ turns', fun rest => ?_⟩
  rw [List.append_assoc, Program.bind_of_returns (ran (turns' ++ rest))]
  exact ran' rest

theorem attains_await {access : State → Option (Value × State)} {s middle t : State}
    {value : Value} {others : List Turn} (run : exec step s others = some middle)
    (through : access middle = some (value, t)) : Attains (await step access) s value t := by
  refine ⟨others.map some ++ [none], fun rest => ?_⟩
  show awaitLoop step access (others.map some ++ [none] ++ rest) s = _
  induction others generalizing s with
  | nil =>
      cases run
      simp only [List.map_nil, List.nil_append, List.cons_append, awaitLoop, through]
  | cons turn others inductionHypothesis =>
      obtain ⟨next, taken, remaining⟩ := exec_cons_eq_some.mp run
      show awaitLoop step access (others.map some ++ [none] ++ rest) ((step s turn).getD s) = _
      rw [taken]
      exact inductionHypothesis remaining

/-! ## Two runs in step

Two machines take the same turns. When every access goes through in both or in neither, and the
turns of the others keep the machines alike, a program does the same on both. -/

variable {State State' Turn Value Value' Result Result' : Type}
  {step : State → Turn → Option State} {step' : State' → Turn → Option State'}

/-- Both runs return with the same turns to come, or both are still waiting. -/
inductive Paired (values : Value → Value' → Prop) (after : State → State' → Prop) :
    Option Value × Scheduled State Turn → Option Value' × Scheduled State' Turn → Prop where
  | returns {value : Value} {value' : Value'} {s : State} {s' : State'}
      {turns : List (Option Turn)} (same : values value value') (alike : after s s') :
      Paired values after (some value, ⟨s, turns⟩) (some value', ⟨s', turns⟩)
  | waits {t : Scheduled State Turn} {t' : Scheduled State' Turn} :
      Paired values after (none, t) (none, t')

/-- From states that `before` relates, and under every schedule, the programs return values and
states that `values` and `after` relate. -/
def Lockstep (before : State → State' → Prop) (program : Program (Scheduled State Turn) Value)
    (program' : Program (Scheduled State' Turn) Value') (values : Value → Value' → Prop)
    (after : State → State' → Prop) : Prop :=
  ∀ s s' turns, before s s' → Paired values after (program ⟨s, turns⟩) (program' ⟨s', turns⟩)

theorem rel_of_steps {related : State → State' → Prop} {next : Option State} {next' : Option State'}
    (forth : ∀ t, next = some t → ∃ t', next' = some t' ∧ related t t')
    (back : ∀ t', next' = some t' → ∃ t, next = some t) : Option.Rel related next next' := by
  cases next with
  | none =>
      cases next' with
      | none => exact .none
      | some t' =>
          obtain ⟨t, same⟩ := back t' rfl
          cases same
  | some t =>
      obtain ⟨t', rfl, alike⟩ := forth t rfl
      exact .some alike

variable {before : State → State' → Prop} {values : Value → Value' → Prop}
  {after : State → State' → Prop} {program : Program (Scheduled State Turn) Value}
  {program' : Program (Scheduled State' Turn) Value'}

theorem lockstep_pure {value : Value} {value' : Value'} (same : values value value') :
    Lockstep before (pure value : Program (Scheduled State Turn) Value)
      (pure value' : Program (Scheduled State' Turn) Value') values before :=
  fun _ _ _ alike => .returns same alike

theorem Lockstep.bind {results : Result → Result' → Prop} {final : State → State' → Prop}
    {next : Value → Program (Scheduled State Turn) Result}
    {next' : Value' → Program (Scheduled State' Turn) Result'}
    (first : Lockstep before program program' values after)
    (second : ∀ value value', values value value' →
      Lockstep after (next value) (next' value') results final) :
    Lockstep before (program >>= next) (program' >>= next') results final := by
  intro s s' turns alike
  have paired := first s s' turns alike
  rw [Program.bind_apply, Program.bind_apply]
  generalize program ⟨s, turns⟩ = outcome at paired
  generalize program' ⟨s', turns⟩ = outcome' at paired
  cases paired with
  | returns same related => exact second _ _ same _ _ _ related
  | waits => exact .waits

theorem Lockstep.weaken {before' : State → State' → Prop} {after' : State → State' → Prop}
    {values' : Value → Value' → Prop} (lockstep : Lockstep before program program' values after)
    (stronger : ∀ s s', before' s s' → before s s')
    (weaker : ∀ s s', after s s' → after' s s')
    (loose : ∀ value value', values value value' → values' value value') :
    Lockstep before' program program' values' after' := by
  intro s s' turns alike
  have paired := lockstep s s' turns (stronger s s' alike)
  generalize program ⟨s, turns⟩ = outcome at paired ⊢
  generalize program' ⟨s', turns⟩ = outcome' at paired ⊢
  cases paired with
  | returns same related => exact .returns (loose _ _ same) (weaker _ _ related)
  | waits => exact .waits

theorem lockstep_ite {condition : Prop} [Decidable condition]
    {other : Program (Scheduled State Turn) Value} {other' : Program (Scheduled State' Turn) Value'}
    (holds : condition → Lockstep before program program' values after)
    (fails : ¬ condition → Lockstep before other other' values after) :
    Lockstep before (if condition then program else other)
      (if condition then program' else other') values after := by
  split
  · next truth => exact holds truth
  · next falsity => exact fails falsity

/-- The access rule: the turns of the others keep the states related until it goes through, in
both runs at once. -/
theorem lockstep_await {access : State → Option (Value × State)}
    {access' : State' → Option (Value' × State')}
    (turned : ∀ s s' turn, before s s' → Option.Rel before (step s turn) (step' s' turn))
    (through : ∀ s s', before s s' →
      Option.Rel (fun outcome outcome' => values outcome.1 outcome'.1 ∧ after outcome.2 outcome'.2)
        (access s) (access' s')) :
    Lockstep before (await step access) (await step' access') values after := by
  have loop : ∀ turns s s', before s s' →
      Paired values after (awaitLoop step access turns s) (awaitLoop step' access' turns s') := by
    intro turns
    induction turns with
    | nil => exact fun s s' _ => .waits
    | cons turn rest inductionHypothesis =>
        intro s s' alike
        cases turn with
        | none =>
            have both := through s s' alike
            rw [awaitLoop, awaitLoop]
            generalize access s = outcome at both
            generalize access' s' = outcome' at both
            cases both with
            | some related => exact .returns related.1 related.2
            | none => exact inductionHypothesis s s' alike
        | some turn =>
            have both := turned s s' turn alike
            rw [awaitLoop, awaitLoop]
            generalize step s turn = next at both
            generalize step' s' turn = next' at both
            cases both with
            | some related => exact inductionHypothesis _ _ related
            | none => exact inductionHypothesis s s' alike
  exact fun s s' turns alike => loop turns s s' alike

theorem Lockstep.returns {s t : State} {s' : State'} {turns rest : List (Option Turn)}
    {value : Value} (lockstep : Lockstep before program program' values after)
    (alike : before s s') (ran : program ⟨s, turns⟩ = (some value, ⟨t, rest⟩)) :
    ∃ value' t', program' ⟨s', turns⟩ = (some value', ⟨t', rest⟩) ∧ values value value' ∧
      after t t' := by
  have paired := lockstep s s' turns alike
  rw [ran] at paired
  generalize program' ⟨s', turns⟩ = outcome' at paired ⊢
  cases paired with
  | returns same related => exact ⟨_, _, rfl, same, related⟩

theorem Lockstep.returned {s : State} {s' t' : State'} {turns rest : List (Option Turn)}
    {value' : Value'} (lockstep : Lockstep before program program' values after)
    (alike : before s s') (ran : program' ⟨s', turns⟩ = (some value', ⟨t', rest⟩)) :
    ∃ value t, program ⟨s, turns⟩ = (some value, ⟨t, rest⟩) ∧ values value value' ∧
      after t t' := by
  have paired := lockstep s s' turns alike
  rw [ran] at paired
  generalize program ⟨s, turns⟩ = outcome at paired ⊢
  cases paired with
  | returns same related => exact ⟨_, _, rfl, same, related⟩

end OrionBios.Machine
