import OrionBios.Libc.Printf

/-!
# `vsscanf`

The format is read character by character; what is stored through the pointers is kept in the order
of the arguments.
-/

namespace OrionBios.Libc

open Machine Digits

/-! ## The function -/

inductive Length where
  | hh
  | h
  | n
  | l
  | ll

/-- What is stored through a pointer of the argument list. -/
inductive Stored where
  | char (value : BitVec 8)
  | short (value : BitVec 16)
  | int (value : Word)
  | longLong (value : BitVec 64)
  | pointer (value : Word)
  | chars (text : List CChar)
  /-- With a terminator. -/
  | string (text : List CChar)
deriving DecidableEq

def scIsspace (c : CChar) : Bool := c = 0x20 || (decide (9 ≤ c.toNat) && decide (c.toNat ≤ 13))

def scIsdigit (c : CChar) : Bool := decide (0x30 ≤ c.toNat) && decide (c.toNat ≤ 0x39)

def scDigval (c : CChar) : Int :=
  if 0x30 ≤ c.toNat ∧ c.toNat ≤ 0x39 then c.toNat - 0x30
  else if 0x61 ≤ c.toNat ∧ c.toNat ≤ 0x66 then c.toNat - 0x61 + 10
  else if 0x41 ≤ c.toNat ∧ c.toNat ≤ 0x46 then c.toNat - 0x41 + 10
  else -1

/-- The rest of the string, how far the pointer into it has moved, and the fields so far. -/
structure Scan where
  s : List CChar
  moved : Nat
  count : Word
  stored : List Stored

inductive Outcome where
  /-- `goto done` -/
  | done (scan : Scan)
  /-- `return -1` -/
  | eof (scan : Scan)
  | next (scan : Scan)

namespace Scan

/-- The character at a distance, which is zero at the end. -/
def look (scan : Scan) (distance : Nat) : CChar := scan.s.getD distance 0

def advance (scan : Scan) (distance : Nat) : Scan :=
  { scan with s := scan.s.drop distance, moved := scan.moved + distance }

def skipSpaces (scan : Scan) : Scan := scan.advance (scan.s.takeWhile scIsspace).length

def store (scan : Scan) (value : Stored) : Scan := { scan with stored := scan.stored ++ [value] }

/-- The end of a conversion. -/
def counted (scan : Scan) (suppress : Bool) : Scan :=
  if suppress then scan else { scan with count := scan.count + 1 }

end Scan

def narrow (len : Length) (val : BitVec 64) : Stored :=
  match len with
  | .hh => .char (val.setWidth 8)
  | .h => .short (val.setWidth 16)
  | .n => .int (val.setWidth 32)
  | .l => .int (val.setWidth 32)
  | .ll => .longLong val

def INT_MAX : Int := 0x7FFFFFFF

/-- The characters of `%s`. -/
def stringRun : Int → List CChar → List CChar
  | _, [] => []
  | remaining, c :: rest =>
      if 0 < remaining ∧ scIsspace c = false then c :: stringRun (remaining - 1) rest else []

/-- The digits of a number: its value and how many there are. -/
def digitRun (base : Int) : Int → List CChar → BitVec 64 → Nat → BitVec 64 × Nat
  | _, [], val, ndig => (val, ndig)
  | remaining, c :: rest, val, ndig =>
      if 0 < remaining ∧ 0 ≤ scDigval c ∧ scDigval c < base then
        digitRun base (remaining - 1) rest
          (val * BitVec.ofInt 64 base + BitVec.ofInt 64 (scDigval c)) (ndig + 1)
      else (val, ndig)

def baseOf (conv : CChar) : Int :=
  if conv = 0x64 ∨ conv = 0x75 then 10 else if conv = 0x6F then 8 else if conv = 0x69 then 0 else 16

def scanNumber (suppress : Bool) (len : Length) (conv : CChar) (remaining : Int) (scan : Scan) :
    Outcome :=
  let hasSign : Bool := (scan.look 0 = 0x2D || scan.look 0 = 0x2B) && decide (1 < remaining)
  let neg : Bool := hasSign && scan.look 0 = 0x2D
  let remaining := if hasSign then remaining - 1 else remaining
  let scan := if hasSign then scan.advance 1 else scan
  let base := baseOf conv
  let has0x : Bool := (base = 0 || base = 16) && decide (3 ≤ remaining) &&
    (scan.look 0 = 0x30 && (scan.look 1 = 0x78 || scan.look 1 = 0x58) &&
      (decide (0 ≤ scDigval (scan.look 2)) && decide (scDigval (scan.look 2) < 16)))
  let base := if has0x then 16 else if base = 0 then (if scan.look 0 = 0x30 then 8 else 10)
    else base
  let remaining := if has0x then remaining - 2 else remaining
  let scan := if has0x then scan.advance 2 else scan
  let (val, ndig) := digitRun base remaining scan.s 0 0
  let scan := scan.advance ndig
  if ndig = 0 then .done scan
  else
    let val := if neg then -val else val
    .next ((if suppress then scan
      else scan.store (if conv = 0x70 then .pointer (val.setWidth 32) else narrow len val)).counted
        suppress)

/-- A conversion, with what stands between its `%` and its letter. -/
def scanConversion (suppress : Bool) (width : Word) (len : Length) (conv : CChar) (scan : Scan) :
    Outcome :=
  if conv = 0x25 then
    if scan.skipSpaces.look 0 = 0x25 then .next (scan.skipSpaces.advance 1)
    else .done scan.skipSpaces
  else if conv = 0x6E then
    .next (if suppress then scan
      else scan.store (narrow len ((BitVec.ofNat 32 scan.moved).signExtend 64)))
  else
    let scan := if conv = 0x63 then scan else scan.skipSpaces
    if scan.s = [] then if scan.count = 0 then .eof scan else .done scan
    else
      let remaining : Int := if width = 0 then INT_MAX else width.toInt
      if conv = 0x63 then
        let w : Nat := if width = 0 then 1 else width.toInt.toNat
        let copied := scan.s.take w
        let scan := (if suppress then scan else scan.store (.chars copied)).advance copied.length
        if copied.length < w then .done scan else .next (scan.counted suppress)
      else if conv = 0x73 then
        let copied := stringRun remaining scan.s
        .next (((if suppress then scan else scan.store (.string copied)).advance
          copied.length).counted suppress)
      else if conv = 0x64 ∨ conv = 0x69 ∨ conv = 0x75 ∨ conv = 0x6F ∨ conv = 0x78 ∨ conv = 0x58 ∨
          conv = 0x70 then
        scanNumber suppress len conv remaining scan
      else .done scan

/-- What of the format has been read. -/
inductive ScanMode where
  | text
  | percent
  | width (suppress : Bool) (width : Word)
  | afterH (suppress : Bool) (width : Word)
  | afterL (suppress : Bool) (width : Word)
  | length (suppress : Bool) (width : Word) (len : Length)

/-- One character behind a `%`: more of the conversion, or its letter. -/
inductive ScanStep where
  | more (mode : ScanMode)
  | letter (suppress : Bool) (width : Word) (len : Length)

def widthStep (suppress : Bool) (width : Word) (c : CChar) : ScanStep :=
  if scIsdigit c then .more (.width suppress (width * 10 + BitVec.ofNat 32 (c.toNat - 0x30)))
  else if c = 0x68 then .more (.afterH suppress width)
  else if c = 0x6C then .more (.afterL suppress width)
  else if c = 0x7A ∨ c = 0x6A ∨ c = 0x74 then .more (.length suppress width .l)
  else .letter suppress width .n

def scanStep (mode : ScanMode) (c : CChar) : ScanStep :=
  match mode with
  | .text => .more .percent
  | .percent => if c = 0x2A then .more (.width true 0) else widthStep false 0 c
  | .width suppress width => widthStep suppress width c
  | .afterH suppress width =>
      if c = 0x68 then .more (.length suppress width .hh) else .letter suppress width .h
  | .afterL suppress width =>
      if c = 0x6C then .more (.length suppress width .ll) else .letter suppress width .l
  | .length suppress width len => .letter suppress width len

/-- The value that is returned, and the state at the end. -/
def scanLoop : ScanMode → List CChar → Scan → Word × Scan
  | _, [], scan => (scan.count, scan)
  | .text, c :: rest, scan =>
      if scIsspace c then scanLoop .text rest scan.skipSpaces
      else if c = 0x25 then scanLoop .percent rest scan
      else if scan.look 0 = c then scanLoop .text rest (scan.advance 1)
      else (scan.count, scan)
  | mode, c :: rest, scan =>
      match scanStep mode c with
      | .more mode => scanLoop mode rest scan
      | .letter suppress width len =>
          match scanConversion suppress width len c scan with
          | .done scan => (scan.count, scan)
          | .eof scan => (BitVec.allOnes 32, scan)
          | .next scan => scanLoop .text rest scan

/-- `vsscanf`: what it returns and what it stores. -/
def vsscanf (str fmt : List CChar) : Word × List Stored :=
  let (returned, scan) := scanLoop .text fmt ⟨str, 0, 0, []⟩
  (returned, scan.stored)

example : vsscanf [0x20, 0x2D, 0x37, 0x20, 0x66, 0x46, 0x21] [0x25, 0x64, 0x25, 0x78, 0x25, 0x63] =
    (3, [.int (-7), .int 0xFF, .chars [0x21]]) := by decide +kernel

end OrionBios.Libc
