import Mathlib.Logic.Basic

/-!
# Programs that wait on their surroundings

A program runs on a state and returns a value, or is still waiting when its surroundings have
nothing more to say. The state is there in both cases.
-/

namespace OrionBios.Machine

def Program (State Value : Type) := State → Option Value × State

namespace Program

variable {State Value Result : Type}

instance : Monad (Program State) where
  pure value s := (some value, s)
  bind program next s :=
    match program s with
    | (some value, t) => next value t
    | (none, t) => (none, t)

theorem bind_apply (program : Program State Value) (next : Value → Program State Result)
    (s : State) :
    (program >>= next) s =
      match program s with
      | (some value, t) => next value t
      | (none, t) => (none, t) := rfl

theorem bind_of_returns {program : Program State Value} {next : Value → Program State Result}
    {s t : State} {value : Value} (returns : program s = (some value, t)) :
    (program >>= next) s = next value t := by
  rw [bind_apply, returns]

theorem bind_of_waits {program : Program State Value} {next : Value → Program State Result}
    {s t : State} (waits : program s = (none, t)) : (program >>= next) s = (none, t) := by
  rw [bind_apply, waits]

theorem bind_returns {program : Program State Value} {next : Value → Program State Result}
    {s u : State} {result : Result} :
    (program >>= next) s = (some result, u) ↔
      ∃ value t, program s = (some value, t) ∧ next value t = (some result, u) := by
  rw [bind_apply]
  constructor
  · intro returns
    split at returns
    · next value t first => exact ⟨value, t, first, returns⟩
    · exact absurd (congrArg Prod.fst returns) nofun
  · rintro ⟨value, t, first, second⟩
    rw [first]
    exact second

/-! ## What a program keeps -/

/-- Every run leads from a state to a related one, also a run that ends up waiting. -/
def Relates (relation : State → State → Prop) (program : Program State Value) : Prop :=
  ∀ s, relation s (program s).2

variable {relation : State → State → Prop}

theorem relates_pure (refl : ∀ s, relation s s) (value : Value) :
    Relates relation (pure value : Program State Value) := fun s => refl s

theorem Relates.bind (trans : ∀ {s t u}, relation s t → relation t u → relation s u)
    {program : Program State Value} {next : Value → Program State Result}
    (first : Relates relation program) (second : ∀ value, Relates relation (next value)) :
    Relates relation (program >>= next) := by
  intro s
  have start := first s
  rw [bind_apply]
  split
  · next value t same =>
    rw [same] at start
    exact trans start (second value t)
  · next t same =>
    rw [same] at start
    exact start

theorem Relates.ite {condition : Prop} [Decidable condition] {program other : Program State Value}
    (holds : Relates relation program) (fails : Relates relation other) :
    Relates relation (if condition then program else other) := by
  split
  · exact holds
  · exact fails

/-! ## A part of a larger state -/

variable {Whole : Type}

def within (part : Whole → State) (put : State → Whole → Whole) (program : Program State Value) :
    Program Whole Value := fun w =>
  ((program (part w)).1, put (program (part w)).2 w)

variable {part : Whole → State} {put : State → Whole → Whole}

end Program

/-! ## Attempts

A program that calls itself is run with so much fuel. An attempt at it returns, traps in the
middle, overruns memory that is not its own, or has no fuel left. -/

universe u v

inductive Attempted (State : Type u) (Value : Type v) where
  | returns (value : Value) (state : State)
  | traps
  /-- Stores behind an array; what comes then is not followed. -/
  | overruns
  | spent

def Attempt (State : Type u) (Value : Type v) := State → Attempted State Value

namespace Attempt

variable {State : Type u} {Value Result : Type v}

instance : Monad (Attempt State) where
  pure value s := .returns value s
  bind attempt next s :=
    match attempt s with
    | .returns value t => next value t
    | .traps => .traps
    | .overruns => .overruns
    | .spent => .spent

def trap : Attempt State Value := fun _ => .traps

def overrun : Attempt State Value := fun _ => .overruns

def spent : Attempt State Value := fun _ => .spent

def look (view : State → Value) : Attempt State Value := fun s => .returns (view s) s

def change (update : State → State) : Attempt State PUnit := fun s => .returns ⟨⟩ (update s)

theorem bind_apply (attempt : Attempt State Value) (next : Value → Attempt State Result)
    (s : State) :
    (attempt >>= next) s =
      match attempt s with
      | .returns value t => next value t
      | .traps => .traps
      | .overruns => .overruns
      | .spent => .spent := rfl

theorem bind_of_returns {attempt : Attempt State Value} {next : Value → Attempt State Result}
    {s t : State} {value : Value} (returns : attempt s = .returns value t) :
    (attempt >>= next) s = next value t := by
  rw [bind_apply, returns]

@[simp]
theorem bind_look (view : State → Value) (next : Value → Attempt State Result) (s : State) :
    (look view >>= next) s = next (view s) s := rfl

@[simp]
theorem bind_change (update : State → State) (next : PUnit → Attempt State Result) (s : State) :
    (change update >>= next) s = next ⟨⟩ (update s) := rfl

@[simp]
theorem pure_apply (value : Value) (s : State) :
    (pure value : Attempt State Value) s = .returns value s := rfl

/-! ## What an attempt comes to -/

/-- The attempt has fuel enough, what it returns is so, and it overruns nothing but where it may. -/
def Meets (attempt : Attempt State Value) (s : State) (post : Value → State → Prop)
    (mayOverrun : Prop) : Prop :=
  match attempt s with
  | .returns value t => post value t
  | .traps => True
  | .overruns => mayOverrun
  | .spent => False

variable {attempt : Attempt State Value} {next : Value → Attempt State Result} {s : State}
  {post : Value → State → Prop} {post' : Result → State → Prop} {mayOverrun : Prop}

theorem meets_pure {value : Value} (holds : post value s) :
    Meets (pure value : Attempt State Value) s post mayOverrun := holds

theorem meets_trap : Meets (trap : Attempt State Value) s post mayOverrun := trivial

theorem meets_overrun (may : mayOverrun) :
    Meets (overrun : Attempt State Value) s post mayOverrun := may

theorem meets_look {view : State → Value} (rest : (next (view s)).Meets s post' mayOverrun) :
    (look view >>= next).Meets s post' mayOverrun := rest

theorem meets_change {update : State → State} {next : PUnit → Attempt State Result}
    (rest : (next ⟨⟩).Meets (update s) post' mayOverrun) :
    (change update >>= next).Meets s post' mayOverrun := rest

theorem Meets.bind (first : attempt.Meets s post mayOverrun)
    (second : ∀ value t, post value t → (next value).Meets t post' mayOverrun) :
    (attempt >>= next).Meets s post' mayOverrun := by
  unfold Meets at first ⊢
  rw [bind_apply]
  cases outcome : attempt s with
  | returns value t =>
      rw [outcome] at first
      exact second value t first
  | traps => trivial
  | overruns =>
      rw [outcome] at first
      exact first
  | spent =>
      rw [outcome] at first
      exact first

theorem Meets.weaken {loose : Value → State → Prop} {mayToo : Prop}
    (meets : attempt.Meets s post mayOverrun)
    (weaker : ∀ value t, post value t → loose value t) (allowed : mayOverrun → mayToo) :
    attempt.Meets s loose mayToo := by
  unfold Meets at meets ⊢
  cases outcome : attempt s with
  | returns value t =>
      rw [outcome] at meets
      exact weaker value t meets
  | traps => trivial
  | overruns =>
      rw [outcome] at meets
      exact allowed meets
  | spent =>
      rw [outcome] at meets
      exact meets

theorem meets_of_returns {value : Value} {t : State} (returns : attempt s = .returns value t)
    (holds : post value t) : attempt.Meets s post mayOverrun := by
  unfold Meets
  rw [returns]
  exact holds

theorem meets_ite {condition : Prop} [Decidable condition] {other : Attempt State Value}
    (yes : condition → attempt.Meets s post mayOverrun)
    (no : ¬ condition → other.Meets s post mayOverrun) :
    (if condition then attempt else other).Meets s post mayOverrun := by
  by_cases holds : condition
  · rw [if_pos holds]
    exact yes holds
  · rw [if_neg holds]
    exact no holds

end Attempt

end OrionBios.Machine
