import OrionBios.TinyBasic.Meaning

/-!
# Expressions written out

Every expression has a line that spells it, with parentheses where they are needed.
-/

namespace OrionBios.TinyBasic

namespace Level

def rank : Level → Nat
  | factor => 0
  | term => 1
  | sum => 2
  | expression => 3

/-- The text of an expression where there is room for one of the level `place`. -/
def wrap (own place : Level) (text : Text) : Text :=
  if own.rank ≤ place.rank then text else byte '(' :: (text ++ [byte ')'])

end Level

def Expr.write : Expr → Level → Text
  | .number n, _ => numeral n
  | .var letter, _ => [letter.val]
  | .stringCall f letter, _ => f.text ++ [byte '(', letter.val, byte '$', byte ')']
  | .call f arg, _ => f.text ++ byte '(' :: (arg.write .expression ++ [byte ')'])
  | .neg arg, place => Level.wrap .sum place (byte '-' :: arg.write .term)
  | .factors op left right, place =>
    Level.wrap .term place (left.write .term ++ op.char :: right.write .factor)
  | .terms op left right, place =>
    Level.wrap .sum place (left.write .sum ++ op.char :: right.write .term)
  | .compare op left right, place =>
    Level.wrap .expression place (left.write .sum ++ (op.text ++ right.write .sum))

/-- What may follow an expression in such a place. -/
structure Stops (place : Level) (after : Text) : Prop where
  factor : EndsFactor after
  still : 1 ≤ place.rank → skipBlanks after = after
  term : 2 ≤ place.rank → EndsTerm after
  sum : 3 ≤ place.rank → EndsSum after
  expression : 3 ≤ place.rank → EndsExpression after

variable {arg left right : Expr} {before after text : Text} {place own : Level}

/-! ## Starts -/

def isStart (c : Byte) : Bool := isDigit c || isUpper c || c == byte '(' || c == byte '-'

theorem start_still {c : Byte} (start : isStart c = true) : ¬ (c = SPACE ∨ c = TAB) := by
  revert c
  decide

/-- The character is none of the signs. -/
def unlike (signs : List Char) (c : Byte) : Bool :=
  signs.all fun d => c != byte d && c != byte d + 0x80

theorem unlike_signs {signs : List Char} {c : Byte} (apart : unlike signs c = true) :
    ∀ d ∈ signs, c ≠ byte d ∧ c ≠ byte d + 0x80 := by
  intro d among
  have differ := List.all_eq_true.mp apart d among
  rw [Bool.and_eq_true, bne_iff_ne, bne_iff_ne] at differ
  exact differ

theorem start_sign {c : Byte} (start : isStart c = true) : unlike ['=', '>'] c = true := by
  revert c
  decide

theorem start_unsigned {c : Byte} (start : isStart c = true) : c ≠ byte '+' := by
  revert c
  decide

theorem upper_start {c : Byte} (upper : isUpper c = true) : isStart c = true ∧ c ≠ byte '-' := by
  revert c
  decide

theorem digit_start {c : Byte} (digit : isDigit c = true) : isStart c = true ∧ c ≠ byte '-' := by
  revert c
  decide

/-- The text starts as an expression does, without a minus in front of a term. -/
def Opens (place : Level) (text : Text) : Prop :=
  ∃ c rest, text = c :: rest ∧ isStart c = true ∧ (place.rank ≤ 1 → c ≠ byte '-')

theorem opens_wrap (opens : own.rank ≤ place.rank → Opens place text) :
    Opens place (Level.wrap own place text) := by
  unfold Level.wrap
  split
  · next fits => exact opens fits
  · exact ⟨byte '(', _, rfl, by decide, fun _ => by decide⟩

theorem opens_append (opens : Opens place text) (more : Text) : Opens place (text ++ more) := by
  obtain ⟨c, rest, rfl, start⟩ := opens
  exact ⟨c, rest ++ more, rfl, start⟩

theorem opens_write (arg : Expr) (place : Level) : Opens place (arg.write place) := by
  induction arg generalizing place with
  | number n =>
      by_cases zero : n = 0
      · subst zero
        exact ⟨byte '0', [], rfl, by decide, fun _ => by decide⟩
      · obtain ⟨c, rest, starts, digit, _⟩ := numeral_head zero
        exact ⟨c, rest, starts, (digit_start digit).1, fun _ => (digit_start digit).2⟩
  | var letter =>
      obtain ⟨start, positive⟩ := upper_start letter.property
      exact ⟨letter.val, [], rfl, start, fun _ => positive⟩
  | stringCall f letter =>
      cases f with
      | len => exact ⟨byte 'L', _, rfl, by decide, fun _ => by decide⟩
      | asc => exact ⟨byte 'A', _, rfl, by decide, fun _ => by decide⟩
  | call f arg =>
      cases f with
      | abs => exact ⟨byte 'A', _, rfl, by decide, fun _ => by decide⟩
      | peek => exact ⟨byte 'P', _, rfl, by decide, fun _ => by decide⟩
  | neg arg =>
      refine opens_wrap fun fits => ⟨byte '-', _, rfl, by decide, fun low => ?_⟩
      exact absurd (Nat.le_trans fits low) (by decide)
  | factors op left right opens _ =>
      refine opens_wrap fun _ => opens_append ?_ _
      obtain ⟨c, rest, starts, start, positive⟩ := opens .term
      exact ⟨c, rest, starts, start, fun _ => positive (Nat.le_refl _)⟩
  | terms op left right opens _ =>
      refine opens_wrap fun fits => opens_append ?_ _
      obtain ⟨c, rest, starts, start, _⟩ := opens .sum
      exact ⟨c, rest, starts, start, fun low => absurd (Nat.le_trans fits low) (by decide)⟩
  | compare op left right opens _ =>
      refine opens_wrap fun fits => opens_append ?_ _
      obtain ⟨c, rest, starts, start, _⟩ := opens .sum
      exact ⟨c, rest, starts, start, fun low => absurd (Nat.le_trans fits low) (by decide)⟩

theorem Opens.still (opens : Opens place text) : skipBlanks text = text := by
  obtain ⟨c, rest, rfl, start, _⟩ := opens
  exact skipBlanks_other (start_still start) rest

theorem Opens.endsSign (opens : Opens place text) : EndsSign text := by
  obtain ⟨c, rest, rfl, start, _⟩ := opens
  exact unlike_signs (start_sign start)

theorem Opens.endsSum (opens : Opens place text) (low : place.rank ≤ 1) : EndsSum text := by
  obtain ⟨c, rest, rfl, start, positive⟩ := opens
  exact ⟨start_unsigned start, positive low⟩

/-! ## Places -/

theorem Spells.widen (spells : Spells own arg before after) (fits : own.rank ≤ place.rank)
    (stops : Stops place after) (unsigned : own.rank ≤ 1 → EndsSum before) :
    Spells place arg before after := by
  have term : Spells .factor arg before after → 1 ≤ place.rank → Spells .term arg before after := by
    intro spells wide
    have spelled := Spells.factor spells
    rw [stops.still wide] at spelled
    exact spelled
  have sum : Spells .term arg before after → 2 ≤ place.rank → EndsSum before →
      Spells .sum arg before after := fun spells wide unsigned =>
    .term spells (stops.term wide) unsigned
  have expression : Spells .sum arg before after → 3 ≤ place.rank →
      Spells .expression arg before after := by
    intro spells wide
    have spelled := Spells.sum spells (stops.sum wide) (stops.expression wide)
    rw [stops.still (Nat.le_trans (by decide) wide)] at spelled
    exact spelled
  cases own with
  | factor =>
      cases place with
      | factor => exact spells
      | term => exact term spells (by decide)
      | sum => exact sum (term spells (by decide)) (by decide) (unsigned (by decide))
      | expression =>
          exact expression (sum (term spells (by decide)) (by decide) (unsigned (by decide)))
            (by decide)
  | term =>
      cases place with
      | factor => exact absurd fits (by decide)
      | term => exact spells
      | sum => exact sum spells (by decide) (unsigned (by decide))
      | expression => exact expression (sum spells (by decide) (unsigned (by decide))) (by decide)
  | sum =>
      cases place with
      | factor | term => exact absurd fits (by decide)
      | sum => exact spells
      | expression => exact expression spells (by decide)
  | expression =>
      cases place with
      | factor | term | sum => exact absurd fits (by decide)
      | expression => exact spells

theorem stops_of_head {c : Byte} (digit : isDigit c = false) (upper : isUpper c = false)
    (other : ¬ (c = SPACE ∨ c = TAB)) (term : 2 ≤ place.rank → c ≠ byte '*' ∧ c ≠ byte '/')
    (sum : 3 ≤ place.rank → c ≠ byte '+' ∧ c ≠ byte '-')
    (sign : 3 ≤ place.rank → ∀ d ∈ ['>', '<', '=', '!'], c ≠ byte d ∧ c ≠ byte d + 0x80)
    (after : Text) : Stops place (c :: after) where
  factor := ⟨digit, upper⟩
  still _ := skipBlanks_other other after
  term := term
  sum := sum
  expression wide := by
    unfold EndsExpression
    rw [skipBlanks_other other]
    exact sign wide

theorem stops_close (place : Level) (after : Text) : Stops place (byte ')' :: after) :=
  stops_of_head (by decide) (by decide) (by decide) (fun _ => by decide) (fun _ => by decide)
    (fun _ => unlike_signs (by decide)) after

theorem stops_factors (op : Factorial) (after : Text) : Stops .term (op.char :: after) := by
  cases op <;>
    exact stops_of_head (by decide) (by decide) (by decide) (fun wide => absurd wide (by decide))
      (fun wide => absurd wide (by decide)) (fun wide => absurd wide (by decide)) after

theorem stops_terms (op : Additive) (after : Text) : Stops .sum (op.char :: after) := by
  cases op <;>
    exact stops_of_head (by decide) (by decide) (by decide) (fun _ => by decide)
      (fun wide => absurd wide (by decide)) (fun wide => absurd wide (by decide)) after

theorem stops_compare (op : Comparison) (after : Text) : Stops .sum (op.text ++ after) := by
  cases op <;>
    exact stops_of_head (by decide) (by decide) (by decide) (fun _ => by decide)
      (fun wide => absurd wide (by decide)) (fun wide => absurd wide (by decide)) _

theorem Stops.narrow (stops : Stops place after) (own : Level) (narrower : own.rank ≤ place.rank) :
    Stops own after where
  factor := stops.factor
  still wide := stops.still (Nat.le_trans wide narrower)
  term wide := stops.term (Nat.le_trans wide narrower)
  sum wide := stops.sum (Nat.le_trans wide narrower)
  expression wide := stops.expression (Nat.le_trans wide narrower)

theorem spells_wrap (stops : Stops place after)
    (core : ∀ wide after', own.rank ≤ wide.rank → Stops wide after' →
      Spells wide arg (text ++ after') after') :
    Spells place arg (Level.wrap own place text ++ after) after := by
  unfold Level.wrap
  split
  · next fits => exact core place after fits stops
  · have inside := core .expression (byte ')' :: after) (by cases own <;> decide)
      (stops_close _ after)
    have closed := Spells.parenthesis inside
    rw [List.cons_append, List.append_assoc, List.singleton_append]
    exact closed.widen (Nat.zero_le _) stops fun _ =>
      ⟨(by decide : byte '(' ≠ byte '+'), (by decide : byte '(' ≠ byte '-')⟩

theorem spells_write (arg : Expr) (stops : Stops place after) :
    Spells place arg (arg.write place ++ after) after := by
  induction arg generalizing place after with
  | number n =>
      have unsigned : EndsSum (numeral n ++ after) :=
        (opens_append (opens_write (.number n) .factor) after).endsSum (by decide)
      exact (Spells.number n stops.factor).widen (Nat.zero_le _) stops fun _ => unsigned
  | var letter =>
      have unsigned : EndsSum (letter.val :: after) :=
        (opens_append (opens_write (.var letter) .factor) after).endsSum (by decide)
      exact (Spells.var letter stops.factor).widen (Nat.zero_le _) stops fun _ => unsigned
  | stringCall f letter =>
      have unsigned : EndsSum ((Expr.stringCall f letter).write .factor ++ after) :=
        (opens_append (opens_write _ .factor) after).endsSum (by decide)
      have called : Spells .factor (.stringCall f letter)
          (f.text ++ byte '(' :: letter.val :: byte '$' :: byte ')' :: after) after :=
        .stringCall f letter
      rw [Expr.write, List.append_assoc] at unsigned ⊢
      exact called.widen (Nat.zero_le _) stops fun _ => unsigned
  | call f arg inductionHypothesis =>
      have unsigned : EndsSum ((Expr.call f arg).write .factor ++ after) :=
        (opens_append (opens_write _ .factor) after).endsSum (by decide)
      have called := Spells.call f (inductionHypothesis (stops_close .expression after))
      rw [Expr.write, List.append_assoc, List.cons_append, List.append_assoc,
        List.singleton_append] at unsigned ⊢
      exact called.widen (Nat.zero_le _) stops fun _ => unsigned
  | neg arg inductionHypothesis =>
      refine spells_wrap stops fun wide after' fits stops' => ?_
      have inner := inductionHypothesis (stops'.narrow .term (Nat.le_trans (by decide) fits))
      have spelled := Spells.negative inner (stops'.term fits)
      exact spelled.widen fits stops' fun low => absurd low (by decide)
  | factors op left right first second =>
      refine spells_wrap stops fun wide after' fits stops' => ?_
      have spelled := Spells.factors op
        (first (stops_factors op (right.write .factor ++ after')))
        (second (stops'.narrow .factor (Nat.zero_le _)))
      rw [List.append_assoc, List.cons_append]
      refine spelled.widen fits stops' fun _ => ?_
      exact (opens_append (opens_write left .term) _).endsSum (by decide)
  | terms op left right first second =>
      refine spells_wrap stops fun wide after' fits stops' => ?_
      have spelled := Spells.terms op
        (first (stops_terms op (right.write .term ++ after')))
        (second (stops'.narrow .term (Nat.le_trans (by decide) fits))) (stops'.term fits)
      rw [List.append_assoc, List.cons_append]
      exact spelled.widen fits stops' fun low => absurd low (by decide)
  | compare op left right first second =>
      refine spells_wrap stops fun wide after' fits stops' => ?_
      have opens := opens_append (opens_write right .sum) after'
      have other := second (stops'.narrow .sum (Nat.le_trans (by decide) fits))
      rw [← opens.still] at other
      have spelled := Spells.compare op
        (first (stops_compare op (right.write .sum ++ after'))) opens.endsSign other
        (stops'.sum fits)
      rw [List.append_assoc, List.append_assoc]
      exact spelled.widen fits stops' fun low => absurd low (by decide)

/-! ## The evaluator -/

/-- What is written for an expression evaluates to what the expression is worth, and the rest of the
line is left. Where the expression is worth nothing the evaluator traps or leaves the error. -/
theorem expression_write (arg : Expr) (s : Basic) (strings : Strings s)
    (right : s.expressionError = false) (after : Text) (stops : Stops .expression after)
    (fuel : Nat) (enough : 6 * (arg.write .expression ++ after).length + 4 ≤ fuel) :
    (∀ v, arg.eval s = some v →
      (evaluators fuel).expression (s.on (arg.write .expression ++ after)) =
        .returns v (s.on after)) ∧
    (arg.eval s = none →
      (evaluators fuel).expression (s.on (arg.write .expression ++ after)) = .traps ∨
      ∃ v t, (evaluators fuel).expression (s.on (arg.write .expression ++ after)) = .returns v t ∧
        t.expressionError = true) :=
  expression_spelled strings right (spells_write arg stops) fuel enough

/-- `(1+2)*A=6` -/
def comparison : Expr :=
  .compare .eq
    (.factors .times (.terms .plus (.number 1) (.number 2)) (.var ⟨byte 'A', by decide⟩))
    (.number 6)

theorem expression_write_comparison :
    (evaluators 64).expression
        ((fresh []).on (comparison.write .expression ++ [NL])) =
      .returns 0 ((fresh []).on [NL]) :=
  (expression_write comparison (fresh []) (strings_fresh []) rfl [NL]
    (stops_of_head (by decide) (by decide) (by decide) (fun _ => by decide) (fun _ => by decide)
      (fun _ => unlike_signs (by decide)) []) 64 (by decide)).1 0 (by decide)

end OrionBios.TinyBasic
