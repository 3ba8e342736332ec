import OrionBios.TinyBasic.Evaluation

/-!
# What the evaluator comes to

The evaluator comes to what an expression is worth, for every line that spells the expression.
-/

namespace OrionBios.TinyBasic

open Machine (Attempt)
open Machine.Attempt

variable {s t : Basic} {before middle after : Text}

/-! ## Lines that spell an expression -/

theorem passed_append {front : Text} (free : ∀ c ∈ front, c ≠ NL) (after : Text) :
    Passed (front ++ after) after :=
  ⟨front, rfl, fun among => free NL among rfl⟩

theorem numeral_free (n : Nat) : ∀ c ∈ numeral n, c ≠ NL := by
  intro c among
  unfold numeral at among
  split at among
  · rw [List.mem_singleton.mp among]
    decide
  · obtain ⟨d, inside, rfl⟩ := List.mem_map.mp among
    have small := Nat.digits_lt_base (by decide) (List.mem_reverse.mp inside)
    exact (digit_inside (digit_cases ⟨d, small⟩).1).2

theorem Spells.passed {level : Level} {arg : Expr} (spells : Spells level arg before after) :
    Passed before after := by
  induction spells with
  | number n _ => exact passed_append (numeral_free n) _
  | var letter _ => exact passed_cons (upper_inside letter.property).2 (Passed.refl _)
  | stringCall f letter =>
      refine (passed_append (by cases f <;> decide) _).trans (passed_cons (by decide) ?_)
      exact passed_cons (upper_inside letter.property).2
        (passed_cons (by decide) (passed_cons (by decide) (Passed.refl _)))
  | call f _ inside =>
      refine (passed_append (by cases f <;> decide) _).trans (passed_cons (by decide) ?_)
      exact inside.trans (passed_cons (by decide) (Passed.refl _))
  | neg _ passed => exact passed_cons (by decide) passed
  | parenthesis _ inside =>
      exact passed_cons (by decide) (inside.trans (passed_cons (by decide) (Passed.refl _)))
  | blank blank _ passed => exact passed_cons (by rcases blank with rfl | rfl <;> decide) passed
  | factor _ passed => exact passed.trans (passed_skipBlanks _)
  | factors op _ _ left right =>
      exact left.trans (passed_cons (by cases op <;> decide) right)
  | term _ _ _ passed => exact passed
  | positive _ _ passed => exact passed_cons (by decide) passed
  | negative _ _ passed => exact passed_cons (by decide) passed
  | terms op _ _ _ left right =>
      exact left.trans (passed_cons (by cases op <;> decide) right)
  | sum _ _ _ passed => exact passed.trans (passed_skipBlanks _)
  | compare op _ _ _ _ left right =>
      refine left.trans ((passed_append (by cases op <;> decide) _).trans ?_)
      exact (passed_skipBlanks _).trans right

/-! ## Values -/

/-- The attempt returns the value, or fails where there is none. -/
def Gives (s : Basic) (value : Option Word) (attempt : Attempt Basic Word) (before after : Text) :
    Prop :=
  match value with
  | some v => attempt (s.on before) = .returns v (s.on after)
  | none => Fails attempt (s.on before)

/-- The attempt comes to its loop with the value, or fails where there is none. -/
def Leads (s : Basic) (value : Option Word) (attempt : Attempt Basic Word)
    (loop : Evaluators → Word → Attempt Basic Word) (before after : Text) : Prop :=
  match value with
  | some v => ∃ fuel, 6 * after.length + 1 ≤ fuel ∧
      attempt (s.on before) = loop (evaluators fuel) v (s.on after)
  | none => Fails attempt (s.on before)

/-- The functions come to what the expression is worth. -/
def Comes (s : Basic) (level : Level) (arg : Expr) (before after : Text) : Prop :=
  match level with
  | .factor => ∀ fuel, 6 * before.length + 1 ≤ fuel →
      Gives s (arg.eval s) (evaluators fuel).expr4 before after
  | .term => ∀ fuel, 6 * before.length + 2 ≤ fuel →
      Leads s (arg.eval s) (evaluators fuel).expr3 Evaluators.factors before after
  | .sum => ∀ fuel, 6 * before.length + 3 ≤ fuel →
      Leads s (arg.eval s) (evaluators fuel).expr2 Evaluators.terms before after
  | .expression => ∀ fuel, 6 * before.length + 4 ≤ fuel →
      Gives s (arg.eval s) (evaluators fuel).expression before after

variable {value : Option Word} {attempt attempt' : Attempt Basic Word}
  {next : Word → Attempt Basic Word}

theorem gives_of_eq (strings : Strings s)
    (same : attempt (s.on before) = attempt' (s.on middle)) (passed : Passed before middle)
    (gives : Gives s value attempt' middle after) : Gives s value attempt before after := by
  cases value with
  | some v => exact same.trans gives
  | none => exact fails_of_eq same (behind_on strings passed) gives

theorem Gives.bind (strings : Strings s) (first : Gives s value attempt before middle)
    (passed : Passed before middle) {rest : Word → Option Word}
    (second : ∀ v, Gives s (rest v) (next v) middle after)
    (stays : ∀ v t, Behind (s.on before) t → Stays (next v) t) :
    Gives s (value.bind rest) (attempt >>= next) before after := by
  cases value with
  | none => exact Fails.bind first stays
  | some v => exact gives_of_eq strings (bind_of_returns first) passed (second v)

theorem leads_of_eq (strings : Strings s) {loop : Evaluators → Word → Attempt Basic Word}
    (same : attempt (s.on before) = attempt' (s.on middle)) (passed : Passed before middle)
    (leads : Leads s value attempt' loop middle after) :
    Leads s value attempt loop before after := by
  cases value with
  | some v =>
      obtain ⟨fuel, enough, same'⟩ := leads
      exact ⟨fuel, enough, same.trans same'⟩
  | none => exact fails_of_eq same (behind_on strings passed) leads

theorem Leads.bind (strings : Strings s) {loop : Evaluators → Word → Attempt Basic Word}
    (passed : Passed before middle) (first : Leads s value attempt loop before middle)
    {rest : Word → Option Word}
    (second : ∀ a fuel, 6 * middle.length + 1 ≤ fuel →
      Leads s (rest a) (loop (evaluators fuel) a) loop middle after) :
    Leads s (value.bind rest) attempt loop before after := by
  cases value with
  | none => exact first
  | some a =>
      obtain ⟨fuel, enough, same⟩ := first
      exact leads_of_eq strings same passed (second a fuel enough)

/-- The loop of `expr3` ends behind a product. -/
theorem Leads.gives_term (leads : Leads s value attempt Evaluators.factors before after)
    (ends : EndsTerm after) : Gives s value attempt before after := by
  cases value with
  | none => exact leads
  | some v =>
      obtain ⟨fuel, enough, same⟩ := leads
      cases fuel with
      | zero => exact absurd enough (Nat.not_succ_le_zero _)
      | succ fuel =>
          refine same.trans ?_
          show factors (evaluators fuel) v (s.on after) = _
          show (if charAt after 0 = byte '*' then _
            else if charAt after 0 = byte '/' then _ else _ : Attempt Basic Word) (s.on after) = _
          rw [if_neg ends.1, if_neg ends.2]
          rfl

/-- The loop of `expr2` ends behind a sum. -/
theorem Leads.gives_sum (leads : Leads s value attempt Evaluators.terms before after)
    (ends : EndsSum after) : Gives s value attempt before after := by
  cases value with
  | none => exact leads
  | some v =>
      obtain ⟨fuel, enough, same⟩ := leads
      cases fuel with
      | zero => exact absurd enough (Nat.not_succ_le_zero _)
      | succ fuel =>
          refine same.trans ?_
          show terms (evaluators fuel) v (s.on after) = _
          show (if charAt after 0 = byte '-' then _
            else if charAt after 0 = byte '+' then _ else _ : Attempt Basic Word) (s.on after) = _
          rw [if_neg ends.2, if_neg ends.1]
          rfl

/-! ## Factors -/

section Comes

variable {arg left right : Expr}

theorem sound_of {fuel : Nat} : Sound fuel (evaluators fuel) := sound_evaluators fuel

theorem comes_number (n : Nat) (ends : EndsFactor after) :
    Comes s .factor (.number n) (numeral n ++ after) after := by
  intro fuel enough
  cases fuel with
  | zero => omega
  | succ fuel => exact expr4_number ends.1

theorem comes_var (letter : Letter) (ends : EndsFactor after) :
    Comes s .factor (.var letter) (letter.val :: after) after := by
  intro fuel enough
  cases fuel with
  | zero => omega
  | succ fuel => exact expr4_var letter ends.2

theorem comes_stringCall (right : s.expressionError = false) (f : StringCall) (letter : Letter) :
    Comes s .factor (.stringCall f letter)
      (f.text ++ byte '(' :: letter.val :: byte '$' :: byte ')' :: after) after := by
  intro fuel enough
  rw [List.length_append, List.length_cons] at enough
  cases fuel with
  | zero => omega
  | succ fuel =>
      cases fuel with
      | zero => omega
      | succ fuel => exact expr4_stringCall fuel right f letter after

theorem gives_answer (f : Call) (v : Word) :
    Gives s (f.apply s v) (expect (byte ')') (f.answer v)) (byte ')' :: after) after := by
  cases f with
  | abs => rfl
  | peek =>
      show Gives s (if v.getLsbD 0 then none else some ((s.memory v).setWidth 32)) _ _ _
      cases odd : v.getLsbD 0 with
      | true =>
          have trapped : expect (byte ')') (peek v) (s.on (byte ')' :: after)) = .traps := by
            show peek v (s.on after) = _
            rw [peek, if_pos odd]
            rfl
          show Meets _ _ _ _
          unfold Meets
          rw [Call.answer, trapped]
          trivial
      | false =>
          show peek v (s.on after) = _
          rw [peek, if_neg (Bool.eq_false_iff.mp odd)]
          rfl

theorem comes_call (strings : Strings s) (f : Call) {inside : Text}
    (passed : Passed inside (byte ')' :: after))
    (comes : Comes s .expression arg inside (byte ')' :: after)) :
    Comes s .factor (.call f arg) (f.text ++ byte '(' :: inside) after := by
  intro fuel enough
  rw [List.length_append, List.length_cons] at enough
  cases fuel with
  | zero => omega
  | succ fuel =>
      have first := comes fuel (by omega)
      refine gives_of_eq strings (expr4_call f inside) ?_ (Gives.bind strings first passed
        (gives_answer f) fun v t behind => stays_expect behind.strings (by decide) (by decide)
          fun u close _ => ?_)
      · exact (passed_append (by cases f <;> decide) _).trans
          (passed_cons (by decide) (Passed.refl _))
      · cases f with
        | abs => exact stays_pure close.strings
        | peek => exact stays_peek v close.strings

theorem comes_neg (strings : Strings s) (comes : Comes s .factor arg before after)
    (passed : Passed before after) : Comes s .factor (.neg arg) (byte '-' :: before) after := by
  intro fuel enough
  rw [List.length_cons] at enough
  cases fuel with
  | zero => omega
  | succ fuel =>
      exact gives_of_eq strings (expr4_minus before) (passed_cons (by decide) (Passed.refl _))
        (Gives.bind strings (comes fuel (by omega)) passed (fun v => rfl) fun v t behind =>
          stays_pure behind.strings)

theorem comes_parenthesis (strings : Strings s) {inside : Text}
    (passed : Passed inside (byte ')' :: after))
    (comes : Comes s .expression arg inside (byte ')' :: after)) :
    Comes s .factor arg (byte '(' :: inside) after := by
  intro fuel enough
  rw [List.length_cons] at enough
  cases fuel with
  | zero => omega
  | succ fuel =>
      have closed : ∀ v, Gives s (some v) (expect (byte ')') (pure v)) (byte ')' :: after) after :=
        fun v => rfl
      have gives := Gives.bind strings (comes fuel (by omega)) passed closed fun v t behind =>
        stays_expect behind.strings (by decide) (by decide) fun u close _ =>
          stays_pure close.strings
      rw [Option.bind_fun_some] at gives
      exact gives_of_eq strings (expr4_parenthesis inside)
        (passed_cons (by decide) (Passed.refl _)) gives

theorem comes_blank (strings : Strings s) {c : Byte} (blank : c = SPACE ∨ c = TAB)
    (comes : Comes s .factor arg before after) : Comes s .factor arg (c :: before) after := by
  intro fuel enough
  rw [List.length_cons] at enough
  cases fuel with
  | zero => omega
  | succ fuel =>
      have gives := comes (fuel + 1) (by omega)
      refine gives_of_eq strings (expr4_blank blank before) (passed_cons ?_ (Passed.refl _)) gives
      rcases blank with rfl | rfl <;> decide

/-! ## Products -/

theorem comes_factor (passed : Passed before after)
    (comes : Comes s .factor arg before after) :
    Comes s .term arg before (skipBlanks after) := by
  intro fuel enough
  have less := (passed.trans (passed_skipBlanks after)).length
  cases fuel with
  | zero => omega
  | succ fuel =>
      have first := comes fuel (by omega)
      show Leads s (arg.eval s) (expr3 (evaluators fuel)) _ _ _
      cases value : arg.eval s with
      | some v =>
          rw [value] at first
          exact ⟨fuel, by omega, bind_of_returns first⟩
      | none =>
          rw [value] at first
          refine Fails.bind first fun v t behind => ?_
          refine stays_ignoreBlanks behind.strings fun u blanks => ?_
          have shorter : u.txtpos.length ≤ before.length := (behind.trans blanks).length
          exact sound_of.factors v u blanks.strings (by omega)

end Comes

section Operators

variable {arg left right : Expr}

/-! ## Products and sums -/

theorem factors_times {e : Evaluators} (a : Word) :
    factors e a (s.on (byte '*' :: middle)) =
      (e.expr4 >>= fun b => e.factors (a * b)) (s.on middle) := rfl

theorem factors_over {e : Evaluators} (a : Word) :
    factors e a (s.on (byte '/' :: middle)) =
      (e.expr4 >>= fun b =>
        if b ≠ 0 then e.factors (a / b)
        else do
          setError
          e.factors a) (s.on middle) := rfl

theorem fails_setError (strings : Strings s) {attempt : Attempt Basic Word}
    (stays : Stays attempt { s with expressionError := true }) :
    Fails (setError >>= fun _ => attempt) s :=
  stays.weaken (fun _ _ later => ⟨(behind_error strings).trans later, later.error rfl⟩)
    fun right => Bool.noConfusion right

theorem leads_factors (strings : Strings s) (op : Factorial) {fuel : Nat} (a : Word)
    (passed : Passed middle after) (enough : 6 * (middle.length + 1) + 1 ≤ fuel)
    (comes : Comes s .factor right middle after) :
    Leads s ((right.eval s).bind fun b => op.apply a b) ((evaluators fuel).factors a)
      Evaluators.factors (op.char :: middle) after := by
  have less := passed.length
  cases fuel with
  | zero => omega
  | succ fuel =>
      have gives := comes fuel (by omega)
      have moved : Passed (op.char :: middle) middle :=
        passed_cons (by cases op <;> decide) (Passed.refl _)
      have stays : ∀ v t, Behind (s.on middle) t → Stays ((evaluators fuel).factors v) t := by
        intro v t behind
        have shorter : t.txtpos.length ≤ middle.length := behind.length
        exact sound_of.factors v t behind.strings (by omega)
      cases op with
      | times =>
          show Leads s _ (factors (evaluators fuel) a) _ _ _
          cases value : right.eval s with
          | some b =>
              rw [value] at gives
              exact ⟨fuel, by omega, (factors_times a).trans (bind_of_returns gives)⟩
          | none =>
              rw [value] at gives
              exact fails_of_eq (factors_times a) (behind_on strings moved)
                (Fails.bind gives fun v t behind => stays (a * v) t behind)
      | divide =>
          show Leads s _ (factors (evaluators fuel) a) _ _ _
          cases value : right.eval s with
          | some b =>
              rw [value] at gives
              have divided := (factors_over a).trans (bind_of_returns gives)
              show Leads s (if b = 0 then none else some (a / b)) _ _ _ _
              by_cases zero : b = 0
              · rw [if_pos zero]
                rw [if_neg (not_not.mpr zero)] at divided
                have wrong := behind_error (strings.on after)
                refine fails_of_eq divided (behind_on strings (moved.trans passed)) ?_
                exact fails_setError (strings.on after) (sound_of.factors a _ wrong.strings
                  (by have shorter : _ ≤ after.length := wrong.length; omega))
              · rw [if_neg zero]
                rw [if_pos zero] at divided
                exact ⟨fuel, by omega, divided⟩
          | none =>
              rw [value] at gives
              refine fails_of_eq (factors_over a) (behind_on strings moved)
                (Fails.bind gives fun v t behind => ?_)
              refine meets_ite (fun _ => stays (a / v) t behind) fun _ => ?_
              have wrong := behind_error behind.strings
              exact meets_change (stays_from wrong (stays a _ (behind.trans wrong)))

theorem comes_factors (strings : Strings s) (op : Factorial) (passed : Passed middle after)
    (first : Passed before (op.char :: middle))
    (comes : Comes s .term left before (op.char :: middle))
    (comes' : Comes s .factor right middle after) :
    Comes s .term (.factors op left right) before after := by
  intro fuel enough
  refine Leads.bind strings first (comes fuel enough) fun a fuel' enough' => ?_
  rw [List.length_cons] at enough'
  exact leads_factors strings op a passed enough' comes'

theorem gives_term (fuel : Nat) (comes : Comes s .term arg before after) (ends : EndsTerm after)
    (enough : 6 * before.length + 2 ≤ fuel) :
    Gives s (arg.eval s) (evaluators fuel).expr3 before after :=
  (comes fuel enough).gives_term ends

theorem stays_term {fuel : Nat} (enough : 6 * before.length + 1 ≤ fuel)
    (behind : Behind (s.on before) t) (v : Word) : Stays ((evaluators fuel).terms v) t := by
  have shorter : t.txtpos.length ≤ before.length := behind.length
  exact sound_of.terms v t behind.strings (by omega)

theorem terms_operator {e : Evaluators} (op : Additive) (a : Word) :
    terms e a (s.on (op.char :: middle)) =
      (e.expr3 >>= fun b => e.terms (op.apply a b)) (s.on middle) := by
  cases op <;> rfl

theorem leads_terms (strings : Strings s) (op : Additive) (fuel : Nat) (a : Word)
    (passed : Passed middle after) (enough : 6 * (middle.length + 1) + 1 ≤ fuel)
    (comes : Comes s .term right middle after) (ends : EndsTerm after) :
    Leads s ((right.eval s).bind fun b => some (op.apply a b)) ((evaluators fuel).terms a)
      Evaluators.terms (op.char :: middle) after := by
  have less := passed.length
  cases fuel with
  | zero => omega
  | succ fuel =>
      have gives := gives_term fuel comes ends (by omega)
      have moved : Passed (op.char :: middle) middle :=
        passed_cons (by cases op <;> decide) (Passed.refl _)
      show Leads s _ (terms (evaluators fuel) a) _ _ _
      cases value : right.eval s with
      | some b =>
          rw [value] at gives
          exact ⟨fuel, by omega, (terms_operator op a).trans (bind_of_returns gives)⟩
      | none =>
          rw [value] at gives
          exact fails_of_eq (terms_operator op a) (behind_on strings moved)
            (Fails.bind gives fun v t behind => stays_term (by omega) behind _)

theorem comes_terms (strings : Strings s) (op : Additive) (passed : Passed middle after)
    (first : Passed before (op.char :: middle))
    (comes : Comes s .sum left before (op.char :: middle))
    (comes' : Comes s .term right middle after) (ends : EndsTerm after) :
    Comes s .sum (.terms op left right) before after := by
  intro fuel enough
  refine Leads.bind strings first (comes fuel enough) fun a fuel' enough' => ?_
  rw [List.length_cons] at enough'
  exact leads_terms strings op fuel' a passed enough' comes' ends

theorem comes_term (strings : Strings s) (passed : Passed before after)
    (comes : Comes s .term arg before after)
    (ends : EndsTerm after) (unsigned : EndsSum before) : Comes s .sum arg before after := by
  intro fuel enough
  have less := passed.length
  cases fuel with
  | zero => omega
  | succ fuel =>
      have gives := gives_term fuel comes ends (by omega)
      have started : expr2 (evaluators fuel) (s.on before) =
          ((evaluators fuel).expr3 >>= fun a => (evaluators fuel).terms a) (s.on before) := by
        show (if charAt before 0 = byte '-' ∨ charAt before 0 = byte '+' then _ else _ :
          Attempt Basic Word) (s.on before) = _
        rw [if_neg (not_or.mpr ⟨unsigned.2, unsigned.1⟩)]
      show Leads s _ (expr2 (evaluators fuel)) _ _ _
      cases value : arg.eval s with
      | some v =>
          rw [value] at gives
          exact ⟨fuel, by omega, started.trans (bind_of_returns gives)⟩
      | none =>
          rw [value] at gives
          refine fails_of_eq started (Behind.refl (strings.on before)) ?_
          exact Fails.bind gives fun v t behind => stays_term (by omega) behind v

theorem comes_signed (strings : Strings s) (op : Additive) (passed : Passed before after)
    (comes : Comes s .term arg before after) (ends : EndsTerm after) {fuel : Nat}
    (enough : 6 * (op.char :: before).length + 3 ≤ fuel) :
    Leads s ((arg.eval s).bind fun b => some (op.apply 0 b)) (evaluators fuel).expr2
      Evaluators.terms (op.char :: before) after := by
  rw [List.length_cons] at enough
  cases fuel with
  | zero => omega
  | succ fuel =>
      have leads := leads_terms strings op fuel 0 passed (by omega) comes ends
      have started : expr2 (evaluators fuel) (s.on (op.char :: before)) =
          (evaluators fuel).terms 0 (s.on (op.char :: before)) := by
        cases op <;> rfl
      exact leads_of_eq strings started (Passed.refl _) leads

theorem comes_positive (strings : Strings s) (passed : Passed before after)
    (comes : Comes s .term arg before after) (ends : EndsTerm after) :
    Comes s .sum arg (byte '+' :: before) after := by
  intro fuel enough
  have leads := comes_signed strings .plus passed comes ends enough
  have same : (arg.eval s).bind (fun b => some (Additive.plus.apply 0 b)) = arg.eval s := by
    cases arg.eval s with
    | none => rfl
    | some b => exact congrArg some (BitVec.zero_add b)
  rw [same] at leads
  exact leads

theorem comes_negative (strings : Strings s) (passed : Passed before after)
    (comes : Comes s .term arg before after) (ends : EndsTerm after) :
    Comes s .sum (.neg arg) (byte '-' :: before) after := by
  intro fuel enough
  have leads := comes_signed strings .minus passed comes ends enough
  have same : (arg.eval s).bind (fun b => some (Additive.minus.apply 0 b)) =
      (Expr.neg arg).eval s := by
    show (arg.eval s).bind _ = (arg.eval s).bind _
    cases arg.eval s with
    | none => rfl
    | some b => exact congrArg some (BitVec.zero_sub b)
  rw [same] at leads
  exact leads

/-! ## Comparisons -/

theorem gives_sum (fuel : Nat) (comes : Comes s .sum arg before after) (ends : EndsSum after)
    (enough : 6 * before.length + 3 ≤ fuel) :
    Gives s (arg.eval s) (evaluators fuel).expr2 before after :=
  (comes fuel enough).gives_sum ends

theorem stays_behindSum {fuel : Nat} (enough : 6 * before.length + 3 ≤ fuel)
    (behind : Behind (s.on before) t) (a : Word) : Stays (relation (evaluators fuel) a) t := by
  have shorter : t.txtpos.length ≤ before.length := behind.length
  exact stays_relation sound_of behind.strings (by omega) a

/-- The comparison sign is scanned behind the first sum. -/
theorem relation_scanned {e : Evaluators} {index : Nat} (right : s.expressionError = false)
    (a : Word) (found : scantable relopTab middle 0 0 = (index, after)) :
    relation e a (s.on middle) =
      (if index = RELOP_UNKNOWN then pure a
      else do
        let b ← e.expr2
        pure (if relates index a b then 1 else 0) : Attempt Basic Word) (s.on after) := by
  have scanned : scan relopTab (s.on middle) = .returns index (s.on after) := by
    show Machine.Attempted.returns (scantable relopTab middle 0 0).1
      (s.on (scantable relopTab middle 0 0).2) = _
    rw [found]
  show (if s.expressionError = true then _ else _ : Attempt Basic Word) (s.on middle) = _
  rw [if_neg (Bool.eq_false_iff.mp right), bind_of_returns scanned]

theorem comes_sum (strings : Strings s) (right : s.expressionError = false)
    (passed : Passed before after) (comes : Comes s .sum arg before after) (ends : EndsSum after)
    (last : EndsExpression after) : Comes s .expression arg before (skipBlanks after) := by
  intro fuel enough
  cases fuel with
  | zero => omega
  | succ fuel =>
      have alone : ∀ a, Gives s (some a) (relation (evaluators fuel) a) after (skipBlanks after) :=
        fun a => relation_scanned right a (scan_noSign last)
      have gives := Gives.bind strings (gives_sum fuel comes ends (by omega)) passed alone
        fun a t behind => stays_behindSum (by omega) behind a
      rw [Option.bind_fun_some] at gives
      exact gives

theorem comes_compare (strings : Strings s) (right' : s.expressionError = false)
    (op : Comparison) (passed : Passed before (op.text ++ middle))
    (comes : Comes s .sum left before (op.text ++ middle)) (sign : EndsSign middle)
    (passed' : Passed (skipBlanks middle) after)
    (comes' : Comes s .sum right (skipBlanks middle) after) (ends : EndsSum after) :
    Comes s .expression (.compare op left right) before after := by
  intro fuel enough
  obtain ⟨index, found, known, same⟩ := scan_sign op middle sign
  have free : ∀ c ∈ op.text, c ≠ NL := by cases op <;> decide
  have head : charAt (op.text ++ middle) 0 = charAt op.text 0 := by cases op <;> rfl
  have first : EndsSum (op.text ++ middle) := by
    unfold EndsSum
    rw [head]
    cases op <;> decide
  have less := passed.length
  rw [List.length_append] at less
  have less' := (passed_skipBlanks middle).length
  cases fuel with
  | zero => omega
  | succ fuel =>
      refine Gives.bind strings (gives_sum fuel comes first (by omega)) passed
        (fun a => ?_) fun a t behind => stays_behindSum (by omega) behind a
      have scanned := relation_scanned (e := evaluators fuel) right' a found
      rw [if_neg known] at scanned
      refine gives_of_eq strings scanned
        ((passed_append free middle).trans (passed_skipBlanks middle)) ?_
      refine Gives.bind strings (gives_sum fuel comes' ends (by omega)) passed'
        (fun b => ?_) fun b t behind => stays_pure behind.strings
      rw [same a b]
      rfl

end Operators

/-! ## All expressions -/

theorem spells_comes (strings : Strings s) (right : s.expressionError = false) {level : Level}
    {arg : Expr} (spells : Spells level arg before after) : Comes s level arg before after := by
  induction spells with
  | number n ends => exact comes_number n ends
  | var letter ends => exact comes_var letter ends
  | stringCall f letter => exact comes_stringCall right f letter
  | call f inside comes => exact comes_call strings f inside.passed comes
  | neg arg comes => exact comes_neg strings comes arg.passed
  | parenthesis inside comes => exact comes_parenthesis strings inside.passed comes
  | blank blank _ comes => exact comes_blank strings blank comes
  | factor arg comes => exact comes_factor arg.passed comes
  | factors op first second left right =>
      exact comes_factors strings op second.passed first.passed left right
  | term arg ends unsigned comes => exact comes_term strings arg.passed comes ends unsigned
  | positive arg ends comes => exact comes_positive strings arg.passed comes ends
  | negative arg ends comes => exact comes_negative strings arg.passed comes ends
  | terms op first second ends left right =>
      exact comes_terms strings op second.passed first.passed left right ends
  | sum arg ends last comes => exact comes_sum strings right arg.passed comes ends last
  | compare op first sign second ends left comes =>
      exact comes_compare strings right op first.passed left sign second.passed comes ends

/-- What `expression` does with a line that spells an expression: it returns what the expression is
worth, or it traps or leaves the error. -/
theorem expression_spelled {arg : Expr} (strings : Strings s) (right : s.expressionError = false)
    (spells : Spells .expression arg before after) (fuel : Nat)
    (enough : 6 * before.length + 4 ≤ fuel) :
    (∀ v, arg.eval s = some v →
      (evaluators fuel).expression (s.on before) = .returns v (s.on after)) ∧
    (arg.eval s = none → (evaluators fuel).expression (s.on before) = .traps ∨
      ∃ v t, (evaluators fuel).expression (s.on before) = .returns v t ∧
        t.expressionError = true) := by
  have gives : Gives s (arg.eval s) (evaluators fuel).expression before after :=
    spells_comes strings right spells fuel enough
  constructor
  · intro v value
    rw [value] at gives
    exact gives
  · intro value
    rw [value] at gives
    unfold Gives Fails Meets at gives
    cases outcome : (evaluators fuel).expression (s.on before) with
    | returns v t =>
        rw [outcome] at gives
        exact .inr ⟨v, t, rfl, gives.2⟩
    | traps => exact .inl rfl
    | overruns =>
        rw [outcome] at gives
        exact gives.elim
    | spent =>
        rw [outcome] at gives
        exact gives.elim

end OrionBios.TinyBasic
