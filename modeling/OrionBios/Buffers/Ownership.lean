import Mathlib.Logic.Function.Basic

/-!
# Ownership of blocks

Owners that hold at most one block each, of a heap whose blocks come and go. No block is held
twice, and a block that is held is there; allocation, release and handing over keep this.
-/

namespace OrionBios.Buffers

universe u v

variable {Owner : Type u} {Block : Type v}

/-- Every block that is held is there, and none is held twice. -/
structure Owned (live : Block → Prop) (held : Owner → Option Block) : Prop where
  live {owner : Owner} {block : Block} : held owner = some block → live block
  unique {first second : Owner} {block : Block} :
    held first = some block → held second = some block → first = second

variable {live live' : Block → Prop} {held : Owner → Option Block} {owner other : Owner}
  {block : Block}

/-- Only what is held has to stay. -/
theorem Owned.stay (owned : Owned live held)
    (stays : ∀ owner block, held owner = some block → live' block) : Owned live' held where
  live := stays _ _
  unique := owned.unique

variable [DecidableEq Owner]

theorem dropped_holds (holds : Function.update held owner none other = some block) :
    other ≠ owner ∧ held other = some block := by
  by_cases same : other = owner
  · rw [same, Function.update_self] at holds
    exact (Option.some_ne_none _ holds.symm).elim
  · rw [Function.update_of_ne same] at holds
    exact ⟨same, holds⟩

theorem Owned.drop (owned : Owned live held) (owner : Owner) :
    Owned live (Function.update held owner none) where
  live holds := owned.live (dropped_holds holds).2
  unique one two := owned.unique (dropped_holds one).2 (dropped_holds two).2

theorem Owned.dropped_ne (owned : Owned live held) (holds : held owner = some block)
    {block' : Block} (rest : Function.update held owner none other = some block') :
    block' ≠ block := by
  rintro rfl
  obtain ⟨different, holds'⟩ := dropped_holds rest
  exact different (owned.unique holds' holds)

theorem Owned.gain (owned : Owned live held) (owner : Owner)
    (free : ∀ other, held other ≠ some block) (there : live block) :
    Owned live (Function.update held owner (some block)) := by
  constructor
  · intro other block' holds
    by_cases same : other = owner
    · rw [same, Function.update_self] at holds
      exact Option.some.inj holds ▸ there
    · rw [Function.update_of_ne same] at holds
      exact owned.live holds
  · intro first second block' one two
    by_cases isFirst : first = owner
    · by_cases isSecond : second = owner
      · exact isFirst.trans isSecond.symm
      · rw [isFirst, Function.update_self] at one
        rw [Function.update_of_ne isSecond, ← one] at two
        exact absurd two (free second)
    · rw [Function.update_of_ne isFirst] at one
      by_cases isSecond : second = owner
      · rw [isSecond, Function.update_self] at two
        rw [← two] at one
        exact absurd one (free first)
      · rw [Function.update_of_ne isSecond] at two
        exact owned.unique one two

theorem Owned.pass (owned : Owned live held) (holds : held owner = some block) (other : Owner) :
    Owned live (Function.update (Function.update held owner none) other (some block)) :=
  (owned.drop owner).gain other (fun _ rest => owned.dropped_ne holds rest rfl) (owned.live holds)

end OrionBios.Buffers
