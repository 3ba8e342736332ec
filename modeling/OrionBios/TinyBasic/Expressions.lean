import Mathlib.Data.Nat.Digits.Defs
import OrionBios.TinyBasic.Evaluator

/-!
# Expressions

The expressions that a programmer has in mind, what they are worth, and how a line spells them.
-/

namespace OrionBios.TinyBasic

/-! ## What expressions are worth -/

abbrev Letter := { c : Byte // isUpper c = true }

inductive Factorial where
  | times
  | divide
  deriving DecidableEq, Repr

inductive Additive where
  | plus
  | minus
  deriving DecidableEq, Repr

inductive Comparison where
  | ge
  | ne
  | gt
  | eq
  | le
  | lt
  | neBang
  deriving DecidableEq, Repr

inductive Call where
  | abs
  | peek
  deriving DecidableEq, Repr

inductive StringCall where
  | len
  | asc
  deriving DecidableEq, Repr

inductive Expr where
  | number (n : Nat)
  | var (letter : Letter)
  | stringCall (f : StringCall) (letter : Letter)
  | call (f : Call) (arg : Expr)
  | neg (arg : Expr)
  | factors (op : Factorial) (left right : Expr)
  | terms (op : Additive) (left right : Expr)
  | compare (op : Comparison) (left right : Expr)

/-- A quotient by 0 is worth nothing. -/
def Factorial.apply : Factorial → Word → Word → Option Word
  | .times, a, b => some (a * b)
  | .divide, a, b => if b = 0 then none else some (a / b)

def Additive.apply : Additive → Word → Word → Word
  | .plus, a, b => a + b
  | .minus, a, b => a - b

def Comparison.holds : Comparison → Word → Word → Bool
  | .ge, a, b => a ≥ b
  | .ne, a, b => a ≠ b
  | .gt, a, b => a > b
  | .eq, a, b => a = b
  | .le, a, b => a ≤ b
  | .lt, a, b => a < b
  | .neBang, a, b => a ≠ b

/-- Words have no sign, so that `ABS` does nothing. There is no word at an odd address. -/
def Call.apply (s : Basic) : Call → Word → Option Word
  | .abs, a => some a
  | .peek, a => if a.getLsbD 0 then none else some ((s.memory a).setWidth 32)

def StringCall.apply : StringCall → Buffer → Word
  | .len, buffer => BitVec.ofNat 32 (strlen buffer)
  | .asc, buffer => (buffer 0).setWidth 32

def Expr.eval (s : Basic) : Expr → Option Word
  | .number n => some (BitVec.ofNat 32 n)
  | .var letter => some ((s.vars letter).signExtend 32)
  | .stringCall f letter => some (f.apply (s.stringVars letter))
  | .call f arg => (arg.eval s).bind (f.apply s)
  | .neg arg => (arg.eval s).bind fun a => some (-a)
  | .factors op left right =>
    (left.eval s).bind fun a => (right.eval s).bind fun b => op.apply a b
  | .terms op left right =>
    (left.eval s).bind fun a => (right.eval s).bind fun b => some (op.apply a b)
  | .compare op left right =>
    (left.eval s).bind fun a => (right.eval s).bind fun b => some (if op.holds a b then 1 else 0)

/-! ## How a line spells them -/

def digit (d : Nat) : Byte := byte '0' + BitVec.ofNat 8 d

/-- A number without zeros in front. -/
def numeral (n : Nat) : Text :=
  if n = 0 then [byte '0'] else (Nat.digits 10 n).reverse.map digit

def Factorial.char : Factorial → Byte
  | .times => byte '*'
  | .divide => byte '/'

def Additive.char : Additive → Byte
  | .plus => byte '+'
  | .minus => byte '-'

def Comparison.text : Comparison → Text
  | .ge => [byte '>', byte '=']
  | .ne => [byte '<', byte '>']
  | .gt => [byte '>']
  | .eq => [byte '=']
  | .le => [byte '<', byte '=']
  | .lt => [byte '<']
  | .neBang => [byte '!', byte '=']

def Call.index : Call → Nat
  | .abs => FUNC_ABS
  | .peek => FUNC_PEEK

def Call.text : Call → Text
  | .abs => [byte 'A', byte 'B', byte 'S']
  | .peek => [byte 'P', byte 'E', byte 'E', byte 'K']

def StringCall.index : StringCall → Nat
  | .len => FUNC_LEN
  | .asc => FUNC_ASC

def StringCall.text : StringCall → Text
  | .len => [byte 'L', byte 'E', byte 'N']
  | .asc => [byte 'A', byte 'S', byte 'C']

/-- What may follow a number and a variable. -/
def EndsFactor (text : Text) : Prop :=
  isDigit (charAt text 0) = false ∧ isUpper (charAt text 0) = false

/-- What may follow a product. -/
def EndsTerm (text : Text) : Prop := charAt text 0 ≠ byte '*' ∧ charAt text 0 ≠ byte '/'

def EndsSum (text : Text) : Prop := charAt text 0 ≠ byte '+' ∧ charAt text 0 ≠ byte '-'

/-- What may follow a comparison sign, so that it is no other one. -/
def EndsSign (text : Text) : Prop :=
  ∀ c ∈ ['=', '>'], charAt text 0 ≠ byte c ∧ charAt text 0 ≠ byte c + 0x80

/-- What may follow an expression without a comparison. -/
def EndsExpression (text : Text) : Prop :=
  ∀ c ∈ ['>', '<', '=', '!'],
    charAt (skipBlanks text) 0 ≠ byte c ∧ charAt (skipBlanks text) 0 ≠ byte c + 0x80

inductive Level where
  | factor
  | term
  | sum
  | expression
  deriving DecidableEq, Repr

/-- The text `before` spells an expression, and `after` is left of it. Blanks are in front of
factors, and behind the first one of a product. -/
inductive Spells : Level → Expr → Text → Text → Prop where
  | number (n : Nat) {after : Text} : EndsFactor after →
      Spells .factor (.number n) (numeral n ++ after) after
  | var (letter : Letter) {after : Text} : EndsFactor after →
      Spells .factor (.var letter) (letter.val :: after) after
  | stringCall (f : StringCall) (letter : Letter) {after : Text} :
      Spells .factor (.stringCall f letter)
        (f.text ++ byte '(' :: letter.val :: byte '$' :: byte ')' :: after) after
  | call (f : Call) {arg : Expr} {inside after : Text} :
      Spells .expression arg inside (byte ')' :: after) →
      Spells .factor (.call f arg) (f.text ++ byte '(' :: inside) after
  | neg {arg : Expr} {before after : Text} : Spells .factor arg before after →
      Spells .factor (.neg arg) (byte '-' :: before) after
  | parenthesis {arg : Expr} {inside after : Text} :
      Spells .expression arg inside (byte ')' :: after) →
      Spells .factor arg (byte '(' :: inside) after
  | blank {c : Byte} {arg : Expr} {before after : Text} : c = SPACE ∨ c = TAB →
      Spells .factor arg before after → Spells .factor arg (c :: before) after
  | factor {arg : Expr} {before after : Text} : Spells .factor arg before after →
      Spells .term arg before (skipBlanks after)
  | factors (op : Factorial) {left right : Expr} {before middle after : Text} :
      Spells .term left before (op.char :: middle) → Spells .factor right middle after →
      Spells .term (.factors op left right) before after
  | term {arg : Expr} {before after : Text} : Spells .term arg before after → EndsTerm after →
      EndsSum before → Spells .sum arg before after
  | positive {arg : Expr} {before after : Text} : Spells .term arg before after → EndsTerm after →
      Spells .sum arg (byte '+' :: before) after
  | negative {arg : Expr} {before after : Text} : Spells .term arg before after → EndsTerm after →
      Spells .sum (.neg arg) (byte '-' :: before) after
  | terms (op : Additive) {left right : Expr} {before middle after : Text} :
      Spells .sum left before (op.char :: middle) → Spells .term right middle after →
      EndsTerm after → Spells .sum (.terms op left right) before after
  | sum {arg : Expr} {before after : Text} : Spells .sum arg before after → EndsSum after →
      EndsExpression after → Spells .expression arg before (skipBlanks after)
  | compare (op : Comparison) {left right : Expr} {before middle after : Text} :
      Spells .sum left before (op.text ++ middle) → EndsSign middle →
      Spells .sum right (skipBlanks middle) after → EndsSum after →
      Spells .expression (.compare op left right) before after

end OrionBios.TinyBasic
