import Mathlib.Data.List.Basic

/-!
# Conditions that have held for a while

Samples are taken one after the other, each at its own time. A condition has held since
some moment when the latest samples, from one taken at that moment on, all satisfy it.
-/

namespace OrionBios.Transition

universe u

variable {Sample : Type u} {time : Sample → Nat} {good : Sample → Prop}

/-- The samples end in an unbroken block of good ones that begins at the time `since`. -/
def HeldSince (time : Sample → Nat) (good : Sample → Prop) (since : Nat) (samples : List Sample) :
    Prop :=
  ∃ before first rest, samples = before ++ first :: rest ∧ time first = since ∧
    ∀ sample ∈ first :: rest, good sample

/-- At the time `now` the block is at least `hold` long. -/
def HeldFor (time : Sample → Nat) (good : Sample → Prop) (hold now : Nat) (samples : List Sample) :
    Prop :=
  ∃ since, since + hold ≤ now ∧ HeldSince time good since samples

theorem heldSince_start (samples : List Sample) {sample : Sample} (holds : good sample) :
    HeldSince time good (time sample) (samples ++ [sample]) := by
  refine ⟨samples, sample, [], rfl, rfl, fun other among => ?_⟩
  rw [List.mem_singleton.mp among]
  exact holds

theorem HeldSince.extend {since : Nat} {samples : List Sample} {sample : Sample}
    (held : HeldSince time good since samples) (holds : good sample) :
    HeldSince time good since (samples ++ [sample]) := by
  obtain ⟨before, first, rest, rfl, start, block⟩ := held
  refine ⟨before, first, rest ++ [sample], by simp, start, fun other among => ?_⟩
  rw [← List.cons_append] at among
  rcases List.mem_append.mp among with earlier | last
  · exact block other earlier
  · rw [List.mem_singleton.mp last]
    exact holds

theorem not_heldFor_of_bad {hold : Nat} {before : List Sample} {bad last : Sample}
    (wrong : ¬ good bad) (some : 0 < hold) :
    ¬ HeldFor time good hold (time last) (before ++ [bad, last]) := by
  rintro ⟨since, long, before', first, rest, split, rfl, block⟩
  rcases List.eq_nil_or_concat rest with rfl | ⟨rest', last', rfl⟩
  · have ends := congrArg List.getLast? split
    simp at ends
    rw [ends] at long
    omega
  · have split : (before ++ [bad]) ++ [last] = (before' ++ first :: rest') ++ [last'] := by
      simpa using split
    have init := (List.append_inj' split rfl).1
    have member : bad ∈ first :: rest' := by
      have ends := congrArg List.getLast? init
      rw [List.getLast?_concat, List.getLast?_append_cons] at ends
      exact List.mem_of_getLast? ends.symm
    apply wrong
    apply block
    rw [List.concat_eq_append, ← List.cons_append]
    exact List.mem_append_left _ member

end OrionBios.Transition
