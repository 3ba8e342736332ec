import Mathlib.Data.Nat.Digits.Lemmas
import OrionBios.TinyBasic.Expressions
import OrionBios.TinyBasic.Text
import OrionBios.TinyBasic.Safety

/-!
# The evaluator and the expressions

The evaluator comes to what an expression is worth, for every line that spells the expression.
-/

namespace OrionBios.TinyBasic

open Machine (Attempt)
open Machine.Attempt

/-! ## Single characters -/

theorem upper_other {c : Byte} (upper : isUpper c = true) : ¬ (c = SPACE ∨ c = TAB) := by
  revert c
  decide

theorem digit_other {c : Byte} (digit : isDigit c = true) : ¬ (c = SPACE ∨ c = TAB) := by
  revert c
  decide

theorem upper_cases {c : Byte} (upper : isUpper c = true) :
    c ≠ byte '-' ∧ c ≠ byte '0' ∧ isDigit c = false ∧ c ≠ byte '"' ∧ c ≠ byte '\'' := by
  revert c
  decide

/-! ## Keywords -/

theorem scan_sign (op : Comparison) (text : Text) (ends : EndsSign text) :
    ∃ index, scantable relopTab (op.text ++ text) 0 0 = (index, skipBlanks text) ∧
      index ≠ RELOP_UNKNOWN ∧ ∀ a b, relates index a b = op.holds a b := by
  obtain ⟨equals, equals'⟩ := ends '=' (by decide)
  obtain ⟨greater, greater'⟩ := ends '>' (by decide)
  cases op with
  | ge =>
      refine ⟨RELOP_GE, ?_, by decide, fun a b => rfl⟩
      exact tableOf_found [] ['>', '='] [['<', '>'], ['>'], ['='], ['<', '='], ['<'], ['!', '=']]
        (by decide) (by decide) rfl rfl rfl 0
  | ne =>
      refine ⟨RELOP_NE, ?_, by decide, fun a b => rfl⟩
      exact tableOf_found [['>', '=']] ['<', '>'] [['>'], ['='], ['<', '='], ['<'], ['!', '=']]
        (by decide) (by decide) rfl rfl rfl 0
  | gt =>
      refine ⟨RELOP_GT, ?_, by decide, fun a b => rfl⟩
      refine tableOf_found [['>', '='], ['<', '>']] ['>'] [['='], ['<', '='], ['<'], ['!', '=']]
        (by decide) (by decide) rfl ?_ rfl 0
      exact Bool.and_eq_true_iff.mpr ⟨differs_second equals equals', rfl⟩
  | eq =>
      refine ⟨RELOP_EQ, ?_, by decide, fun a b => rfl⟩
      exact tableOf_found [['>', '='], ['<', '>'], ['>']] ['='] [['<', '='], ['<'], ['!', '=']]
        (by decide) (by decide) rfl rfl rfl 0
  | le =>
      refine ⟨RELOP_LE, ?_, by decide, fun a b => rfl⟩
      exact tableOf_found [['>', '='], ['<', '>'], ['>'], ['=']] ['<', '='] [['<'], ['!', '=']]
        (by decide) (by decide) rfl rfl rfl 0
  | lt =>
      refine ⟨RELOP_LT, ?_, by decide, fun a b => rfl⟩
      refine tableOf_found [['>', '='], ['<', '>'], ['>'], ['='], ['<', '=']] ['<'] [['!', '=']]
        (by decide) (by decide) rfl ?_ rfl 0
      have front : ([['>', '='], ['>'], ['=']].all fun v => differs v (byte '<' :: text)) = true :=
        rfl
      have unequal : differs ['<', '>'] (byte '<' :: text) = true := differs_second greater greater'
      have longer : differs ['<', '='] (byte '<' :: text) = true := differs_second equals equals'
      simp only [List.all_cons, List.all_nil, Bool.and_true, Bool.and_eq_true] at front ⊢
      exact ⟨front.1, unequal, front.2.1, front.2.2, longer⟩
  | neBang =>
      refine ⟨RELOP_NE_BANG, ?_, by decide, fun a b => rfl⟩
      exact tableOf_found [['>', '='], ['<', '>'], ['>'], ['='], ['<', '='], ['<']] ['!', '='] []
        (by decide) (by decide) rfl rfl rfl 0

theorem charAt_skipBlanks (text : Text) :
    charAt text 0 = SPACE ∨ charAt text 0 = TAB ∨ charAt text 0 = charAt (skipBlanks text) 0 := by
  cases text with
  | nil => exact .inr (.inr rfl)
  | cons c rest =>
      by_cases blank : c = SPACE ∨ c = TAB
      · rcases blank with blank | blank
        · exact .inl blank
        · exact .inr (.inl blank)
      · rw [skipBlanks_other blank]
        exact .inr (.inr rfl)

theorem scan_noSign {text : Text} (ends : EndsExpression text) :
    scantable relopTab text 0 0 = (RELOP_UNKNOWN, skipBlanks text) := by
  have no : ∀ c ∈ ['>', '<', '=', '!'], ∀ word : List Char,
      differs (c :: word) (skipBlanks text) = true := fun c among word =>
    differs_first word (ends c among).1 (ends c among).2
  have first : differs ['>', '='] text = true := by
    rcases charAt_skipBlanks text with blank | blank | same
    · exact differs_first _ (by rw [blank]; decide) (by rw [blank]; decide)
    · exact differs_first _ (by rw [blank]; decide) (by rw [blank]; decide)
    · obtain ⟨greater, greater'⟩ := ends '>' (by decide)
      exact differs_first _ (same ▸ greater) (same ▸ greater')
  refine tableOf_blanks (by decide) first ?_ 0
  simp only [List.all_cons, List.all_nil, Bool.and_true, Bool.and_eq_true]
  exact ⟨no _ (by decide) _, no _ (by decide) _, no _ (by decide) _, no _ (by decide) _,
    no _ (by decide) _, no _ (by decide) _⟩

theorem scan_call (f : Call) (text : Text) :
    scantable funcTab (f.text ++ byte '(' :: text) 0 0 =
      (f.index, byte '(' :: text) := by
  cases f with
  | abs =>
      exact tableOf_found [['P', 'E', 'E', 'K']] ['A', 'B', 'S']
        [['A', 'R', 'E', 'A', 'D'], ['D', 'R', 'E', 'A', 'D'], ['R', 'N', 'D'], ['L', 'E', 'N'],
          ['A', 'S', 'C']] (by decide) (by decide) rfl rfl rfl 0
  | peek =>
      exact tableOf_found [] ['P', 'E', 'E', 'K']
        [['A', 'B', 'S'], ['A', 'R', 'E', 'A', 'D'], ['D', 'R', 'E', 'A', 'D'], ['R', 'N', 'D'],
          ['L', 'E', 'N'], ['A', 'S', 'C']] (by decide) (by decide) rfl rfl rfl 0

theorem scan_stringCall (f : StringCall) (text : Text) :
    scantable funcTab (f.text ++ byte '(' :: text) 0 0 = (f.index, byte '(' :: text) := by
  cases f with
  | len =>
      exact tableOf_found [['P', 'E', 'E', 'K'], ['A', 'B', 'S'], ['A', 'R', 'E', 'A', 'D'],
        ['D', 'R', 'E', 'A', 'D'], ['R', 'N', 'D']] ['L', 'E', 'N'] [['A', 'S', 'C']] (by decide)
        (by decide) rfl rfl rfl 0
  | asc =>
      exact tableOf_found [['P', 'E', 'E', 'K'], ['A', 'B', 'S'], ['A', 'R', 'E', 'A', 'D'],
        ['D', 'R', 'E', 'A', 'D'], ['R', 'N', 'D'], ['L', 'E', 'N']] ['A', 'S', 'C'] [] (by decide)
        (by decide) rfl rfl rfl 0

theorem scan_stringVariable (letter : Letter) (text : Text) :
    scantable strfuncTab (letter.val :: byte '$' :: text) 0 0 =
      (STRFUNC_UNKNOWN, letter.val :: byte '$' :: text) := by
  refine tableOf_none (by decide) (skipBlanks_other (upper_other letter.property) _) ?_ 0
  have no : ∀ (a b c : Char) (word : List Char), byte '$' ≠ byte b →
      differs (a :: b :: c :: word) (letter.val :: byte '$' :: text) = true :=
    fun a b c word other => differs_later a b word letter.val other
  simp only [List.all_cons, List.all_nil, Bool.and_true, Bool.and_eq_true]
  exact ⟨no _ _ _ _ (by decide), no _ _ _ _ (by decide), no _ _ _ _ (by decide),
    no _ _ _ _ (by decide), no _ _ _ _ (by decide)⟩

/-! ## Numbers -/

theorem digit_cases (d : Fin 10) : isDigit (digit d) = true ∧ (digit d ≠ byte '0' ∨ d = 0) ∧
    (digit d).setWidth 32 = BitVec.ofNat 32 d + 0x30 := by
  revert d
  decide

theorem decimal_digits (digits : List Nat) (small : ∀ d ∈ digits, d < 10) (a : Nat) (text : Text) :
    decimal (BitVec.ofNat 32 a) (digits.map digit ++ text) =
      decimal (BitVec.ofNat 32 (digits.foldl (fun a d => a * 10 + d) a)) text := by
  induction digits generalizing a with
  | nil => rfl
  | cons d rest inductionHypothesis =>
      obtain ⟨digit, _, value⟩ := digit_cases ⟨d, small d List.mem_cons_self⟩
      dsimp only at digit value
      have next : BitVec.ofNat 32 a * 10 + (BitVec.ofNat 32 d + 0x30) - 0x30 =
          BitVec.ofNat 32 (a * 10 + d) := by
        rw [BitVec.ofNat_add, BitVec.ofNat_mul]
        grind
      rw [List.map_cons, List.cons_append, decimal, if_pos digit, value, next, List.foldl_cons]
      exact inductionHypothesis (fun e among => small e (List.mem_cons_of_mem d among)) _

theorem decimal_ends {text : Text} (ends : isDigit (charAt text 0) = false) (a : Word) :
    decimal a text = (a, text) := by
  cases text with
  | nil => rfl
  | cons c rest =>
      rw [decimal]
      exact if_neg (Bool.eq_false_iff.mp ends)

theorem foldl_digits (n : Nat) :
    (Nat.digits 10 n).reverse.foldl (fun a d => a * 10 + d) 0 = n := by
  rw [List.foldl_reverse]
  have value := Nat.ofDigits_digits 10 n
  rw [Nat.ofDigits_eq_foldr] at value
  refine Eq.trans ?_ value
  congr 1
  funext d a
  rw [Nat.mul_comm, Nat.add_comm]
  rfl

theorem decimal_numeral {n : Nat} (some : n ≠ 0) {text : Text}
    (ends : isDigit (charAt text 0) = false) :
    decimal 0 (numeral n ++ text) = (BitVec.ofNat 32 n, text) := by
  have digits := decimal_digits (Nat.digits 10 n).reverse
    (fun d among => Nat.digits_lt_base (by decide) (List.mem_reverse.mp among)) 0 text
  rw [foldl_digits, decimal_ends ends] at digits
  rw [numeral, if_neg some]
  exact digits

theorem numeral_head {n : Nat} (some : n ≠ 0) :
    ∃ c rest, numeral n = c :: rest ∧ isDigit c = true ∧ c ≠ byte '0' ∧ c ≠ byte '-' := by
  have nonempty : Nat.digits 10 n ≠ [] := Nat.digits_ne_nil_iff_ne_zero.mpr some
  let last := (Nat.digits 10 n).getLast nonempty
  have small : last < 10 := Nat.digits_lt_base (by decide) (List.getLast_mem nonempty)
  have nonzero : last ≠ 0 := Nat.getLast_digit_ne_zero 10 some
  have split : (Nat.digits 10 n).reverse = last :: (Nat.digits 10 n).dropLast.reverse := by
    rw [← List.reverse_concat]
    exact congrArg List.reverse (List.dropLast_concat_getLast nonempty).symm
  obtain ⟨isDigit, other, _⟩ := digit_cases ⟨last, small⟩
  refine ⟨digit last, (Nat.digits 10 n).dropLast.reverse.map digit, ?_, isDigit, ?_, ?_⟩
  · rw [numeral, if_neg some, split]
    rfl
  · rcases other with other | zero
    · exact other
    · exact absurd (congrArg Fin.val zero) nonzero
  · intro minus
    rw [minus] at isDigit
    exact absurd isDigit (by decide)

/-! ## Steps of the evaluator -/

/-- The state with another text in front of it. -/
def Basic.on (s : Basic) (text : Text) : Basic := { s with txtpos := text }

variable {s t : Basic} {e : Evaluators}

theorem Strings.on (strings : Strings s) (text : Text) : Strings (s.on text) :=
  ⟨strings.temps, strings.stored⟩

theorem behind_on (strings : Strings s) {before after : Text} (passed : Passed before after) :
    Behind (s.on before) (s.on after) :=
  behind_text (strings.on before) passed

def Fails {Value : Type} (attempt : Attempt Basic Value) (s : Basic) : Prop :=
  attempt.Meets s (fun _ t => Behind s t ∧ t.expressionError = true) False

theorem Fails.bind {Value Result : Type} {attempt : Attempt Basic Value}
    {next : Value → Attempt Basic Result} (fails : Fails attempt s)
    (rest : ∀ value t, Behind s t → Stays (next value) t) : Fails (attempt >>= next) s := by
  refine Meets.bind fails fun value t wrong => ?_
  exact (rest value t wrong.1).weaken (fun _ u later =>
    ⟨wrong.1.trans later, later.error wrong.2⟩) (Bool.eq_false_iff.mp · wrong.2)

theorem fails_of_eq {Value : Type} {attempt attempt' : Attempt Basic Value}
    (same : attempt s = attempt' t) (behind : Behind s t) (fails : Fails attempt' t) :
    Fails attempt s := by
  unfold Fails Meets at fails ⊢
  rw [same]
  cases outcome : attempt' t with
  | returns value u =>
      rw [outcome] at fails
      exact ⟨behind.trans fails.1, fails.2⟩
  | traps => trivial
  | overruns =>
      rw [outcome] at fails
      exact fails
  | spent =>
      rw [outcome] at fails
      exact fails

theorem expr4_blank {c : Byte} (blank : c = SPACE ∨ c = TAB) (text : Text) :
    expr4 e (s.on (c :: text)) = expr4 e (s.on text) := by
  have skipped : ignoreBlanks (s.on (c :: text)) = ignoreBlanks (s.on text) := by
    show Machine.Attempted.returns _ (s.on (skipBlanks (c :: text))) = _
    rw [skipBlanks_blank blank]
    rfl
  rw [expr4, bind_apply, skipped, ← bind_apply]

theorem expr4_minus (text : Text) :
    expr4 e (s.on (byte '-' :: text)) = (e.expr4 >>= fun a => pure (-a)) (s.on text) := rfl

theorem expr4_zero (text : Text) :
    expr4 e (s.on (byte '0' :: text)) = .returns 0 (s.on text) := rfl

theorem expr4_parenthesis (inside : Text) :
    expr4 e (s.on (byte '(' :: inside)) =
      (e.expression >>= fun a => expect (byte ')') (pure a)) (s.on inside) := rfl

/-- What `expr4` looks at first is no blank. -/
theorem expr4_other {c : Byte} (other : ¬ (c = SPACE ∨ c = TAB)) (text : Text) :
    expr4 e (s.on (c :: text)) =
      (if c = byte '-' then do
        skip 1
        let a ← e.expr4
        pure (-a)
      else if c = byte '0' then do
        skip 1
        pure 0
      else if isDigit c then number
      else if isUpper c then do
        let next ← peekChar 1
        if isUpper next then function e
        else do
          skip 1
          look fun s => (s.vars c).signExtend 32
      else parenthesis e : Attempt Basic Word) (s.on (c :: text)) := by
  have still : ignoreBlanks (s.on (c :: text)) = .returns ⟨⟩ (s.on (c :: text)) := by
    show Machine.Attempted.returns _ (s.on (skipBlanks (c :: text))) = _
    rw [skipBlanks_other other]
  rw [expr4, bind_of_returns still]
  rfl

theorem expr4_number {n : Nat} {text : Text} (ends : isDigit (charAt text 0) = false) :
    expr4 e (s.on (numeral n ++ text)) = .returns (BitVec.ofNat 32 n) (s.on text) := by
  by_cases zero : n = 0
  · subst zero
    exact expr4_zero text
  · obtain ⟨c, rest, starts, digit, nonzero, positive⟩ := numeral_head zero
    have whole := decimal_numeral zero ends
    rw [starts, List.cons_append] at whole
    rw [starts, List.cons_append, expr4_other (digit_other digit), if_neg positive, if_neg nonzero,
      if_pos digit]
    show Machine.Attempted.returns (decimal 0 (c :: (rest ++ text))).1
      (s.on (decimal 0 (c :: (rest ++ text))).2) = _
    rw [whole]

theorem expr4_upper (letter : Letter) (text : Text) :
    expr4 e (s.on (letter.val :: text)) =
      (if isUpper (charAt text 0) then function e
      else do
        skip 1
        look fun s => (s.vars letter.val).signExtend 32 : Attempt Basic Word)
          (s.on (letter.val :: text)) := by
  obtain ⟨positive, nonzero, digit, _⟩ := upper_cases letter.property
  rw [expr4_other (upper_other letter.property), if_neg positive, if_neg nonzero,
    if_neg (Bool.eq_false_iff.mp digit), if_pos letter.property]
  rfl

theorem expr4_var (letter : Letter) {text : Text} (ends : isUpper (charAt text 0) = false) :
    expr4 e (s.on (letter.val :: text)) =
      .returns ((s.vars letter.val).signExtend 32) (s.on text) := by
  rw [expr4_upper, if_neg (Bool.eq_false_iff.mp ends)]
  rfl

theorem function_found {index : Nat} {text inside : Text}
    (found : scantable funcTab text 0 0 = (index, byte '(' :: inside))
    (known : index ≠ FUNC_UNKNOWN) :
    function e (s.on text) =
      (if index = FUNC_LEN ∨ index = FUNC_ASC then stringFunction e index
      else do
        let a ← e.expression
        expect (byte ')') do
          if index = FUNC_PEEK then peek a
          else if index = FUNC_ABS then pure a
          else if index = FUNC_RND then random a
          else parenthesis e : Attempt Basic Word) (s.on inside) := by
  have scanned : scan funcTab (s.on text) = .returns index (s.on (byte '(' :: inside)) := by
    show Machine.Attempted.returns (scantable funcTab text 0 0).1
      (s.on (scantable funcTab text 0 0).2) = _
    rw [found]
  rw [function, bind_of_returns scanned, if_neg known]
  rfl

/-- What a call does with the value of its argument. -/
def Call.answer : Call → Word → Attempt Basic Word
  | .abs, a => pure a
  | .peek, a => TinyBasic.peek a

theorem expr4_call (f : Call) (inside : Text) :
    expr4 e (s.on (f.text ++ byte '(' :: inside)) =
      (e.expression >>= fun a => expect (byte ')') (f.answer a)) (s.on inside) := by
  have found := scan_call f inside
  cases f with
  | abs =>
      have called : expr4 e (s.on (Call.abs.text ++ byte '(' :: inside)) =
          function e (s.on (Call.abs.text ++ byte '(' :: inside)) :=
        (expr4_upper ⟨byte 'A', by decide⟩ _).trans (by rfl)
      rw [called, function_found found (by decide)]
      rfl
  | peek =>
      have called : expr4 e (s.on (Call.peek.text ++ byte '(' :: inside)) =
          function e (s.on (Call.peek.text ++ byte '(' :: inside)) :=
        (expr4_upper ⟨byte 'P', by decide⟩ _).trans (by rfl)
      rw [called, function_found found (by decide)]
      rfl

/-! ## String variables -/

theorem strExpr_stored (letter : Letter) (text : Text) :
    strExpr e (s.on (letter.val :: byte '$' :: text)) =
      .returns (.stored letter.val) (s.on text) := by
  have still : ignoreBlanks (s.on (letter.val :: byte '$' :: text)) =
      .returns ⟨⟩ (s.on (letter.val :: byte '$' :: text)) := by
    show Machine.Attempted.returns _ (s.on (skipBlanks (letter.val :: byte '$' :: text))) = _
    rw [skipBlanks_other (upper_other letter.property)]
  have scanned : scan strfuncTab (s.on (letter.val :: byte '$' :: text)) =
      .returns STRFUNC_UNKNOWN (s.on (letter.val :: byte '$' :: text)) := by
    show Machine.Attempted.returns (scantable strfuncTab (letter.val :: byte '$' :: text) 0 0).1
      (s.on (scantable strfuncTab (letter.val :: byte '$' :: text) 0 0).2) = _
    rw [scan_stringVariable]
  have quotes : ¬ (letter.val = byte '"' ∨ letter.val = byte '\'') :=
    not_or.mpr (upper_cases letter.property).2.2.2
  have named : strVariable (s.on (letter.val :: byte '$' :: text)) =
      .returns (.stored letter.val) (s.on text) := by
    show (if isUpper letter.val = true ∧ byte '$' = byte '$' then _ else strError :
      Attempt Basic StrRef) (s.on (letter.val :: byte '$' :: text)) = _
    rw [if_pos ⟨letter.property, rfl⟩]
    rfl
  rw [strExpr, bind_of_returns still]
  show (if letter.val = byte '"' ∨ letter.val = byte '\'' then _ else _ :
    Attempt Basic StrRef) (s.on (letter.val :: byte '$' :: text)) = _
  rw [if_neg quotes, bind_of_returns scanned]
  exact named

/-- `LEN` and `ASC` of a string variable. -/
theorem stringFunction_stored (fuel : Nat) (right : s.expressionError = false) (f : StringCall)
    (letter : Letter) (text : Text) :
    stringFunction (evaluators (fuel + 1)) f.index
        (s.on (letter.val :: byte '$' :: byte ')' :: text)) =
      .returns (f.apply (s.stringVars letter.val)) (s.on text) := by
  have src : (evaluators (fuel + 1)).strExpr (s.on (letter.val :: byte '$' :: byte ')' :: text)) =
      .returns (.stored letter.val) (s.on (byte ')' :: text)) :=
    strExpr_stored letter (byte ')' :: text)
  rw [stringFunction, bind_of_returns src]
  show (if s.expressionError = true then expr4Error else _ : Attempt Basic Word)
    (s.on (byte ')' :: text)) = _
  rw [if_neg (Bool.eq_false_iff.mp right)]
  cases f <;> rfl

theorem expr4_stringCall (fuel : Nat) (right : s.expressionError = false) (f : StringCall)
    (letter : Letter) (text : Text) :
    expr4 (evaluators (fuel + 1))
        (s.on (f.text ++ byte '(' :: letter.val :: byte '$' :: byte ')' :: text)) =
      .returns (f.apply (s.stringVars letter.val)) (s.on text) := by
  have found := scan_stringCall f (letter.val :: byte '$' :: byte ')' :: text)
  have measured := stringFunction_stored fuel right f letter text
  cases f with
  | len =>
      refine (expr4_upper ⟨byte 'L', by decide⟩ _).trans ?_
      refine Eq.trans ?_ ((function_found found (by decide)).trans measured)
      rfl
  | asc =>
      refine (expr4_upper ⟨byte 'A', by decide⟩ _).trans ?_
      refine Eq.trans ?_ ((function_found found (by decide)).trans measured)
      rfl

end OrionBios.TinyBasic
