import Mathlib.Logic.Function.Basic
import OrionBios.Machine.Program
import OrionBios.TinyBasic.Text

/-!
# The evaluator of expressions

`expression` and what it calls. The functions call each other, so that each of them is given the
ones that it calls, and the fuel counts the calls that are open.
-/

namespace OrionBios.TinyBasic

open Machine (Attempt)
open Machine.Attempt (look change trap overrun spent)

/-- An `unsigned long`. -/
abbrev Word := BitVec 32

def STRVAR_LEN : Nat := 40

/-- The bytes of a string, which ends at the first 0. -/
abbrev Buffer := Nat → Byte

/-- Where a `char *` of the evaluator points. -/
inductive StrRef where
  | temp (i : Fin 4)
  | stored (letter : Byte)
  | empty
  deriving DecidableEq, Repr

structure Basic where
  txtpos : Text
  expressionError : Bool
  randSeed : Word
  /-- The variables, by their letters. -/
  vars : Byte → BitVec 16
  stringVars : Byte → Buffer
  strTemp : Fin 4 → Buffer
  strTempIdx : Fin 4
  memory : Word → Byte

namespace Basic

variable (s : Basic)

def buffer : StrRef → Buffer
  | .temp i => s.strTemp i
  | .stored letter => s.stringVars letter
  | .empty => fun _ => 0

def setTemp (i : Fin 4) (buffer : Buffer) : Basic :=
  { s with strTemp := Function.update s.strTemp i buffer }

theorem setTemp_same (i : Fin 4) (buffer : Buffer) : (s.setTemp i buffer).strTemp i = buffer := by
  simp [setTemp]

theorem setTemp_other {i k : Fin 4} (buffer : Buffer) (other : k ≠ i) :
    (s.setTemp i buffer).strTemp k = s.strTemp k := by
  simp [setTemp, other]

end Basic

def strlen (buffer : Buffer) : Nat :=
  ((List.range STRVAR_LEN).find? fun i => buffer i = 0).getD STRVAR_LEN

/-- `memcpy(buf, src + start, count); buf[count] = '\0'`. -/
def copied (buf src : Buffer) (start count : Nat) : Buffer := fun i =>
  if i < count then src (start + i) else if i = count then 0 else buf i

def filled (buf : Buffer) (chars : List Byte) : Buffer := fun i =>
  if i < chars.length then chars.getD i 0 else if i = chars.length then 0 else buf i

/-! ## The text -/

def peekChar (i : Nat) : Attempt Basic Byte := look fun s => charAt s.txtpos i

def skip (count : Nat) : Attempt Basic PUnit :=
  change fun s => { s with txtpos := s.txtpos.drop count }

def ignoreBlanks : Attempt Basic PUnit := change fun s => { s with txtpos := skipBlanks s.txtpos }

/-- `scantable`, with the `table_index` that it leaves. -/
def scan (table : List Byte) : Attempt Basic Nat := do
  let found ← look fun s => scantable table s.txtpos 0 0
  change fun s => { s with txtpos := found.2 }
  pure found.1

def setError : Attempt Basic PUnit := change fun s => { s with expressionError := true }

def failed : Attempt Basic Bool := look Basic.expressionError

def isDigit (c : Byte) : Bool := byte '0' ≤ c && c ≤ byte '9'

def isUpper (c : Byte) : Bool := byte 'A' ≤ c && c ≤ byte 'Z'

/-! ## What the functions call -/

structure Evaluators where
  expr4 : Attempt Basic Word
  expr3 : Attempt Basic Word
  /-- The loop of `expr3`, with `a`. -/
  factors : Word → Attempt Basic Word
  expr2 : Attempt Basic Word
  /-- The loop of `expr2`, with `a`. -/
  terms : Word → Attempt Basic Word
  expression : Attempt Basic Word
  strExpr : Attempt Basic StrRef

variable (e : Evaluators)

/-! ## Strings -/

/-- `expression_error = 1; return "";` -/
def strError : Attempt Basic StrRef := do
  setError
  pure .empty

def strTempAlloc : Attempt Basic (Fin 4) := do
  let i ← look Basic.strTempIdx
  change fun s => { s with strTempIdx := s.strTempIdx + 1 }
  pure i

/-- A string goes into a buffer of its own. -/
def newTemp (contents : Basic → Buffer → Buffer) : Attempt Basic StrRef := do
  let i ← strTempAlloc
  change fun s => s.setTemp i (contents s (s.strTemp i))
  pure (.temp i)

/-- The characters of a literal: up to its end, the end of the line or of the buffer. -/
def literal (delim : Byte) : Nat → Text → List Byte × Text
  | 0, text => ([], text)
  | _ + 1, [] => ([], [])
  | room + 1, c :: text =>
    if c = delim ∨ c = NL then ([], c :: text)
    else (c :: (literal delim room text).1, (literal delim room text).2)

def strLiteral (delim : Byte) : Attempt Basic StrRef := do
  skip 1
  let i ← strTempAlloc
  let found ← look fun s => literal delim (STRVAR_LEN - 1) s.txtpos
  change fun s => { s.setTemp i (filled (s.strTemp i) found.1) with txtpos := found.2 }
  let c ← peekChar 0
  if c = delim then do
    skip 1
    pure (.temp i)
  else do
    setError
    pure (.temp i)

/-- A number that a string function cuts at, as a `long`. -/
def clamp (p : Word) (most : Nat) : Nat := min p.toInt.toNat most

/-- `if (*txtpos != c) { expression_error = 1; return ""; } txtpos++;` and what follows. -/
def expectStr (c : Byte) (next : Attempt Basic StrRef) : Attempt Basic StrRef := do
  let d ← peekChar 0
  if d ≠ c then strError
  else do
    skip 1
    next

def argument (next : Word → Attempt Basic StrRef) : Attempt Basic StrRef := do
  let p ← e.expression
  let wrong ← failed
  if wrong then pure .empty else next p

/-- The string that a string function starts with, and the comma. -/
def source (next : StrRef → Attempt Basic StrRef) : Attempt Basic StrRef := do
  let src ← e.strExpr
  let wrong ← failed
  if wrong then pure .empty
  else do
    ignoreBlanks
    expectStr (byte ',') (next src)

def strLeft : Attempt Basic StrRef :=
  source e fun src => argument e fun p1 => expectStr (byte ')') do
    let p1 ← look fun s => clamp p1 (strlen (s.buffer src))
    newTemp fun s buf => copied buf (s.buffer src) 0 p1

def strRight : Attempt Basic StrRef :=
  source e fun src => argument e fun p1 => expectStr (byte ')') do
    let srclen ← look fun s => strlen (s.buffer src)
    newTemp fun s buf => copied buf (s.buffer src) (srclen - clamp p1 srclen) (clamp p1 srclen)

/-- The end of `MID$`, with its two numbers. -/
def strMiddle (src : StrRef) (srclen : Nat) (p1 p2 : Word) : Attempt Basic StrRef :=
  expectStr (byte ')') do
    let p1 := if p1.toInt < 1 then 1 else p1
    if p1.toInt > srclen then newTemp fun _ buf => filled buf []
    else
      let start := p1.toNat - 1
      let p2 := if p2.toInt < 0 then 0 else p2
      if (p1 - 1 + p2).toInt > srclen then
        newTemp fun s buf => copied buf (s.buffer src) start (srclen - start)
      -- the sum has wrapped around, and `memcpy` copies `p2` bytes over the memory behind the buffer
      else if srclen < start + p2.toNat then overrun
      else newTemp fun s buf => copied buf (s.buffer src) start p2.toNat

def strMid : Attempt Basic StrRef :=
  source e fun src => argument e fun p1 => do
    let srclen ← look fun s => strlen (s.buffer src)
    ignoreBlanks
    let c ← peekChar 0
    if c = byte ',' then do
      skip 1
      argument e fun p2 => strMiddle src srclen p1 p2
    else strMiddle src srclen p1 (BitVec.ofNat 32 srclen)

def strChr : Attempt Basic StrRef :=
  argument e fun p1 => expectStr (byte ')') do
    newTemp fun _ buf => filled buf [p1.setWidth 8]

/-- The decimal digits of a number, the last one first. -/
def digitsOf : Nat → Nat → List Byte
  | 0, _ => []
  | room + 1, uv =>
    (byte '0' + BitVec.ofNat 8 (uv % 10)) :: if uv < 10 then [] else digitsOf room (uv / 10)

/-- A number as `STR$` writes it. -/
def written (p1 : Word) : List Byte :=
  if p1.toInt < 0 then byte '-' :: (digitsOf 10 (-p1).toNat).reverse
  else (digitsOf 10 p1.toNat).reverse

def strStr : Attempt Basic StrRef :=
  argument e fun p1 => expectStr (byte ')') do
    newTemp fun _ buf => filled buf (written p1)

def strFunction (tableIndex : Nat) : Attempt Basic StrRef :=
  expectStr (byte '(') do
    if tableIndex = STRFUNC_LEFT then strLeft e
    else if tableIndex = STRFUNC_RIGHT then strRight e
    else if tableIndex = STRFUNC_MID then strMid e
    else if tableIndex = STRFUNC_CHR then strChr e
    else strStr e

/-- `A$` to `Z$`. -/
def strVariable : Attempt Basic StrRef := do
  let letter ← peekChar 0
  let next ← peekChar 1
  if isUpper letter ∧ next = byte '$' then do
    skip 2
    pure (.stored letter)
  else strError

def strExpr : Attempt Basic StrRef := do
  ignoreBlanks
  let c ← peekChar 0
  if c = byte '"' ∨ c = byte '\'' then strLiteral c
  else do
    let tableIndex ← scan strfuncTab
    if tableIndex ≠ STRFUNC_UNKNOWN then strFunction e tableIndex else strVariable

/-! ## Numbers -/

/-- A number, with the digits that follow. -/
def decimal (a : Word) : Text → Word × Text
  | [] => (a, [])
  | c :: text =>
    if isDigit c then decimal (a * 10 + c.setWidth 32 - 0x30) text else (a, c :: text)

def number : Attempt Basic Word := do
  let found ← look fun s => decimal 0 s.txtpos
  change fun s => { s with txtpos := found.2 }
  pure found.1

def expr4Error : Attempt Basic Word := do
  setError
  pure 0

/-- `if(*txtpos != c) goto expr4_error; txtpos++;` and what follows. -/
def expect (c : Byte) (next : Attempt Basic Word) : Attempt Basic Word := do
  let d ← peekChar 0
  if d ≠ c then expr4Error
  else do
    skip 1
    next

/-- A long word at an odd address stops the 68000. -/
def peek (a : Word) : Attempt Basic Word :=
  if a.getLsbD 0 then trap else look fun s => (s.memory a).setWidth 32

def rand : Attempt Basic Word := do
  change fun s => { s with randSeed := (s.randSeed * 1103515245 + 12345) &&& 0x7FFFFFFF }
  look fun s => (s.randSeed >>> 16) &&& 0x7FFF

/-- `rand() % a`, which stops the 68000 for 0. -/
def random (a : Word) : Attempt Basic Word := do
  let value ← rand
  if a = 0 then trap else pure (value % a)

def parenthesis : Attempt Basic Word :=
  expect (byte '(') do
    let a ← e.expression
    expect (byte ')') (pure a)

/-- `LEN` and `ASC` have a string for an argument. -/
def stringFunction (tableIndex : Nat) : Attempt Basic Word := do
  let src ← e.strExpr
  let wrong ← failed
  if wrong then expr4Error
  else expect (byte ')') do
    if tableIndex = FUNC_LEN then look fun s => BitVec.ofNat 32 (strlen (s.buffer src))
    else look fun s => (s.buffer src 0).setWidth 32

def function : Attempt Basic Word := do
  let tableIndex ← scan funcTab
  if tableIndex = FUNC_UNKNOWN then expr4Error
  else expect (byte '(') do
    if tableIndex = FUNC_LEN ∨ tableIndex = FUNC_ASC then stringFunction e tableIndex
    else do
      let a ← e.expression
      expect (byte ')') do
        if tableIndex = FUNC_PEEK then peek a
        -- `a < 0` does not hold for an `unsigned long`
        else if tableIndex = FUNC_ABS then pure a
        else if tableIndex = FUNC_RND then random a
        -- `AREAD` and `DREAD` have no case, and what follows is looked at
        else parenthesis e

def expr4 : Attempt Basic Word := do
  ignoreBlanks
  let c ← peekChar 0
  if c = byte '-' then do
    skip 1
    let a ← e.expr4
    pure (-a)
  else if c = byte '0' then do
    skip 1
    pure 0
  else if isDigit c then number
  else if isUpper c then do
    let next ← peekChar 1
    if isUpper next then function e
    else do
      skip 1
      look fun s => (s.vars c).signExtend 32
  else parenthesis e

/-! ## Operators -/

def expr3 : Attempt Basic Word := do
  let a ← e.expr4
  ignoreBlanks
  e.factors a

def factors (a : Word) : Attempt Basic Word := do
  let c ← peekChar 0
  if c = byte '*' then do
    skip 1
    let b ← e.expr4
    e.factors (a * b)
  else if c = byte '/' then do
    skip 1
    let b ← e.expr4
    if b ≠ 0 then e.factors (a / b)
    else do
      setError
      e.factors a
  else pure a

def expr2 : Attempt Basic Word := do
  let c ← peekChar 0
  if c = byte '-' ∨ c = byte '+' then e.terms 0
  else do
    let a ← e.expr3
    e.terms a

def terms (a : Word) : Attempt Basic Word := do
  let c ← peekChar 0
  if c = byte '-' then do
    skip 1
    let b ← e.expr3
    e.terms (a - b)
  else if c = byte '+' then do
    skip 1
    let b ← e.expr3
    e.terms (a + b)
  else pure a

/-- The comparison of a relational operator. -/
def relates (tableIndex : Nat) (a b : Word) : Bool :=
  if tableIndex = RELOP_GE then a ≥ b
  else if tableIndex = RELOP_NE ∨ tableIndex = RELOP_NE_BANG then a ≠ b
  else if tableIndex = RELOP_GT then a > b
  else if tableIndex = RELOP_EQ then a = b
  else if tableIndex = RELOP_LE then a ≤ b
  else a < b

/-- What `expression` does behind its first sum. -/
def relation (a : Word) : Attempt Basic Word := do
  let wrong ← failed
  if wrong then pure a
  else do
    let tableIndex ← scan relopTab
    if tableIndex = RELOP_UNKNOWN then pure a
    else do
      let b ← e.expr2
      pure (if relates tableIndex a b then 1 else 0)

def expression : Attempt Basic Word := do
  let a ← e.expr2
  relation e a

/-! ## The recursion -/

/-- The functions with so much fuel. -/
def evaluators : Nat → Evaluators
  | 0 => ⟨spent, spent, fun _ => spent, spent, fun _ => spent, spent, spent⟩
  | fuel + 1 =>
    let e := evaluators fuel
    ⟨expr4 e, expr3 e, factors e, expr2 e, terms e, expression e, strExpr e⟩

end OrionBios.TinyBasic
