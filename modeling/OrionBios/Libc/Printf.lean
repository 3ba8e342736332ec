import OrionBios.Libc.Numerals

/-!
# `printf` and `sprintf`

Both read the format character by character. An access outside an object, which is also a character
of the format behind its terminator or an argument that is not there, has no result.
-/

namespace OrionBios.Libc

open Machine

/-! ## The two functions -/

/-- An argument; a string is given by its bytes, and the null pointer has none. -/
inductive Arg where
  | int (value : Word)
  | double
  | str (text : Option (List CChar))
deriving DecidableEq

/-- What of the format has been read: a flag `0` and a width, and in `printf` an `l` behind them. -/
inductive Mode where
  | text
  | flags (zeroPad : Bool) (width : Word)
  | long (zeroPad : Bool) (width : Word)
deriving DecidableEq

/-- The labels of the switch. -/
inductive Case where
  | char
  | decimal
  | unsigned
  | float
  | string
  | hex
  | octal
  | percent
  | other
deriving DecidableEq

def caseOf (c : CChar) : Case :=
  if c = 0x63 then .char
  else if c = 0x64 ∨ c = 0x69 then .decimal
  else if c = 0x75 then .unsigned
  else if c = 0x66 ∨ c = 0x46 then .float
  else if c = 0x73 then .string
  else if c = 0x78 ∨ c = 0x58 then .hex
  else if c = 0x6F then .octal
  else if c = 0x25 then .percent
  else .other

structure State where
  out : List CChar
  charsPrinted : Word
  buffer : Vector CChar 32
  args : List Arg

structure Result where
  out : List CChar
  returned : Word
  args : List Arg
deriving DecidableEq

def nextInt : List Arg → Option (Word × List Arg)
  | .int value :: rest => some (value, rest)
  | _ => none

def nextDouble : List Arg → Option (List Arg)
  | .double :: rest => some rest
  | _ => none

def nextString : List Arg → Option (Option (List CChar) × List Arg)
  | .str text :: rest => some (text, rest)
  | _ => none

/-- `"[float]"` -/
def floatText : List CChar := [0x5B, 0x66, 0x6C, 0x6F, 0x61, 0x74, 0x5D]

/-- `"(null)"` -/
def nullText : List CChar := [0x28, 0x6E, 0x75, 0x6C, 0x6C, 0x29]

namespace State

def emit (text : List CChar) (s : State) : State :=
  { s with out := s.out ++ text, charsPrinted := s.charsPrinted + BitVec.ofNat 32 text.length }

/-- A numeral that goes through the buffer. -/
def number (convert : Word → Vector CChar 32 → Option (Vector CChar 32)) (zeroPad : Bool)
    (width : Word) (s : State) : Option State :=
  (nextInt s.args).bind fun (num, args) =>
    (numeric convert num zeroPad width s.buffer).map fun buffer =>
      { s with buffer := buffer, args := args }.emit (cstring buffer)

/-- The cases of the switch that both functions have. -/
def known (zeroPad : Bool) (width : Word) (s : State) : Case → Option State
  | .char => (nextInt s.args).map fun (c, args) => { s with args := args }.emit [c.setWidth 8]
  | .decimal => s.number itodec zeroPad width
  | .unsigned => s.number itoudec zeroPad width
  | .float => (nextDouble s.args).map fun args => { s with args := args }.emit floatText
  | .string => (nextString s.args).map fun (text, args) =>
      { s with args := args }.emit (text.getD nullText)
  | .hex => s.number itox zeroPad width
  | .octal => s.number itooct zeroPad width
  | .percent => some (s.emit [0x25])
  | .other => none

end State

def isDigit (c : CChar) : Bool := decide (0x30 ≤ c.toInt) && decide (c.toInt ≤ 0x39)

def readDigit (zeroPad : Bool) (width : Word) (c : CChar) : Mode :=
  if c = 0x30 ∧ width = 0 then .flags true width
  else .flags zeroPad (width * 10 + BitVec.ofInt 32 (c.toInt - 0x30))

/-- The loop over the format. Only `printf` skips a length modifier. -/
def formatLoop (skipsLong : Bool) (convert : Bool → Word → CChar → State → Option State) :
    Mode → List CChar → State → Option State
  | .text, [], s => some s
  -- the terminator is taken for a conversion, and the loop goes on behind it
  | .flags _ _, [], _ => none
  | .long _ _, [], _ => none
  | .text, c :: rest, s =>
      if c = 0x25 then formatLoop skipsLong convert (.flags false 0) rest s
      else formatLoop skipsLong convert .text rest (s.emit [c])
  | .flags zeroPad width, c :: rest, s =>
      if isDigit c then formatLoop skipsLong convert (readDigit zeroPad width c) rest s
      else if skipsLong ∧ c = 0x6C then formatLoop skipsLong convert (.long zeroPad width) rest s
      else (convert zeroPad width c s).bind (formatLoop skipsLong convert .text rest)
  | .long zeroPad width, c :: rest, s =>
      (convert zeroPad width c s).bind (formatLoop skipsLong convert .text rest)

namespace Printf

/-- The default of the switch: the conversion as it was written. -/
def other (zeroPad : Bool) (width : Word) (c : CChar) (s : State) : Option State :=
  let numStr : Vector CChar 10 := Vector.replicate 10 0
  (if 0 < width.toInt then itodec width numStr else some numStr).map
    fun numStr =>
      let digits := if 0 < width.toInt then cstring numStr else []
      { s with
        out := s.out ++ (0x25 :: ((if zeroPad then [0x30] else []) ++ digits ++ [c]))
        charsPrinted := s.charsPrinted + (2 + BitVec.ofNat 32 digits.length) }

def convert (zeroPad : Bool) (width : Word) (c : CChar) (s : State) : Option State :=
  if caseOf c = .other then other zeroPad width c s else s.known zeroPad width (caseOf c)

end Printf

def printf (buffer : Vector CChar 32) (format : List CChar) (args : List Arg) : Option Result :=
  (formatLoop true Printf.convert .text format ⟨[], 0, buffer, args⟩).map fun s =>
    ⟨s.out, s.charsPrinted, s.args⟩

def Sprintf.convert (zeroPad : Bool) (width : Word) (c : CChar) (s : State) : Option State :=
  if caseOf c = .other then some (s.emit [0x25, c]) else s.known zeroPad width (caseOf c)

/-- `sprintf`, which returns how far the pointer into the destination has moved. -/
def sprintf (buffer : Vector CChar 32) (format : List CChar) (args : List Arg) : Option Result :=
  (formatLoop false Sprintf.convert .text format ⟨[], 0, buffer, args⟩).map fun s =>
    ⟨s.out, BitVec.ofNat 32 s.out.length, s.args⟩

/-! ## The pieces of a format -/

inductive Piece where
  | text (c : CChar)
  | conversion (zeroPad : Bool) (width : Word) (long : Bool) (c : CChar)
  /-- The format ends inside a conversion. -/
  | cut

def pieces (skipsLong : Bool) : Mode → List CChar → List Piece
  | .text, [] => []
  | .flags _ _, [] => [.cut]
  | .long _ _, [] => [.cut]
  | .text, c :: rest =>
      if c = 0x25 then pieces skipsLong (.flags false 0) rest
      else .text c :: pieces skipsLong .text rest
  | .flags zeroPad width, c :: rest =>
      if isDigit c then pieces skipsLong (readDigit zeroPad width c) rest
      else if skipsLong ∧ c = 0x6C then pieces skipsLong (.long zeroPad width) rest
      else .conversion zeroPad width false c :: pieces skipsLong .text rest
  | .long zeroPad width, c :: rest =>
      .conversion zeroPad width true c :: pieces skipsLong .text rest

section Run

variable {skipsLong : Bool} {convert : Bool → Word → CChar → State → Option State}

def runPieces (convert : Bool → Word → CChar → State → Option State) :
    List Piece → State → Option State
  | [], s => some s
  | .text c :: rest, s => runPieces convert rest (s.emit [c])
  | .conversion zeroPad width _ c :: rest, s =>
      (convert zeroPad width c s).bind (runPieces convert rest)
  | .cut :: _, _ => none

theorem formatLoop_eq (mode : Mode) (format : List CChar) (s : State) :
    formatLoop skipsLong convert mode format s =
      runPieces convert (pieces skipsLong mode format) s := by
  induction format generalizing mode s with
  | nil => cases mode <;> rfl
  | cons c rest inductionHypothesis =>
      cases mode with
      | text =>
          rw [formatLoop, pieces]
          split
          · exact inductionHypothesis _ s
          · exact inductionHypothesis _ (s.emit [c])
      | flags zeroPad width =>
          rw [formatLoop, pieces]
          split
          · exact inductionHypothesis _ s
          · split
            · exact inductionHypothesis _ s
            · exact congrArg _ (funext fun after => inductionHypothesis _ after)
      | long zeroPad width =>
          rw [formatLoop, pieces]
          exact congrArg _ (funext fun after => inductionHypothesis _ after)

end Run

/-! ## What the pieces emit -/

/-- The text and the remaining arguments of a case that both functions have. -/
def knownText (zeroPad : Bool) (width : Word) (args : List Arg) :
    Case → Option (List CChar × List Arg)
  | .char => (nextInt args).map fun next => ([next.1.setWidth 8], next.2)
  | .decimal => numberCase itodecText
  | .unsigned => numberCase itoudecText
  | .float => (nextDouble args).map fun rest => (floatText, rest)
  | .string => (nextString args).map fun next => (next.1.getD nullText, next.2)
  | .hex => numberCase itoxText
  | .octal => numberCase itooctText
  | .percent => some ([0x25], args)
  | .other => none
where
  numberCase (convert : Word → List CChar) : Option (List CChar × List Arg) :=
    (nextInt args).bind fun next =>
      if zeroPad ∧ 32 ≤ width.toInt then none else some (padded zeroPad width (convert next.1), next.2)

/-- The flag and the width, as `printf` writes them. -/
def widthText (width : Word) : List CChar := if 0 < width.toInt then itodecText width else []

def flagText (zeroPad : Bool) : List CChar := if zeroPad then [0x30] else []

def Printf.text (zeroPad : Bool) (width : Word) (c : CChar) (args : List Arg) :
    Option (List CChar × List Arg) :=
  if caseOf c = .other then
    if 10 ≤ (widthText width).length then none
    else some (0x25 :: (flagText zeroPad ++ widthText width ++ [c]), args)
  else knownText zeroPad width args (caseOf c)

def Sprintf.text (zeroPad : Bool) (width : Word) (c : CChar) (args : List Arg) :
    Option (List CChar × List Arg) :=
  if caseOf c = .other then some ([0x25, c], args) else knownText zeroPad width args (caseOf c)

def emission (text : Bool → Word → CChar → List Arg → Option (List CChar × List Arg)) :
    List Piece → List Arg → Option (List CChar × List Arg)
  | [], args => some ([], args)
  | .text c :: rest, args => (emission text rest args).map fun more => (c :: more.1, more.2)
  | .conversion zeroPad width _ c :: rest, args =>
      (text zeroPad width c args).bind fun first =>
        (emission text rest first.2).map fun more => (first.1 ++ more.1, more.2)
  | .cut :: _, _ => none

/-- What `printf` writes and does not count: the flags `0` of its default. -/
def uncounted (count : Bool → CChar → Nat) : List Piece → Nat
  | [] => 0
  | .conversion zeroPad _ _ c :: rest => count zeroPad c + uncounted count rest
  | .text _ :: rest => uncounted count rest
  | .cut :: rest => uncounted count rest

def flagZeros (zeroPad : Bool) (c : CChar) : Nat :=
  if caseOf c = .other then (flagText zeroPad).length else 0

section Emission

def State.result (s : State) : Result := ⟨s.out, s.charsPrinted, s.args⟩

/-- A state in which a text has been written, but for a few of its characters that are not
counted. -/
def Result.behind (r : Result) (count : Nat) (emitted : List CChar × List Arg) : Result :=
  ⟨r.out ++ emitted.1, r.returned + BitVec.ofNat 32 emitted.1.length - BitVec.ofNat 32 count,
    emitted.2⟩

variable {zeroPad : Bool} {width : Word} {c : CChar} {s : State}

theorem emit_result (text : List CChar) (args : List Arg) :
    ({ s with args := args }.emit text).result = s.result.behind 0 (text, args) := by
  rw [Result.behind, BitVec.sub_zero]
  rfl

theorem number_result {convert : Word → Vector CChar 32 → Option (Vector CChar 32)}
    {text : Word → List CChar}
    (stores : ∀ value array, convert value array = storeText 0 (text value ++ [0]) array)
    (letters : ∀ value, (∀ c ∈ text value, c ≠ 0) ∧ (text value).length ≤ 11) :
    (s.number convert zeroPad width).map State.result =
      (knownText.numberCase zeroPad width s.args text).map (s.result.behind 0) := by
  rw [State.number, knownText.numberCase]
  cases nextInt s.args with
  | none => rfl
  | some next =>
      obtain ⟨value, args⟩ := next
      have short : (text value).length < 32 := Nat.lt_of_le_of_lt (letters value).2 (by decide)
      have isText : (numeric convert value zeroPad width s.buffer).map cstring =
          if zeroPad ∧ (32 : Int) ≤ width.toInt then none
          else some (padded zeroPad width (text value)) :=
        numeric_eq (stores value) (letters value).1 short zeroPad width s.buffer
      rw [Option.bind_some, Option.bind_some]
      dsimp only
      cases stored : numeric convert value zeroPad width s.buffer with
      | none =>
          rw [stored, Option.map_none] at isText
          split at isText
          · next outside => rw [if_pos outside]; rfl
          · cases isText
      | some buffer =>
          rw [stored, Option.map_some] at isText
          split at isText
          · cases isText
          · next inside =>
              rw [if_neg inside, Option.map_some, Option.map_some, Option.map_some,
                Option.some.inj isText]
              exact congrArg some (emit_result _ args)

theorem itodec_text (value : Word) : (∀ c ∈ itodecText value, c ≠ 0) ∧ (itodecText value).length ≤ 11 := by
  rw [itodecText_eq]
  exact ⟨signedText_letters _, signedText_length value⟩

theorem itoudec_text (value : Word) :
    (∀ c ∈ itoudecText value, c ≠ 0) ∧ (itoudecText value).length ≤ 11 := by
  rw [itoudecText_eq]
  exact ⟨numberText_letters (by decide) (by decide) _,
    numberText_length (by decide) (by decide) (Nat.lt_trans value.isLt (by decide))⟩

theorem itox_text (value : Word) : (∀ c ∈ itoxText value, c ≠ 0) ∧ (itoxText value).length ≤ 11 := by
  rw [itoxText_eq]
  exact ⟨numberText_letters (by decide) (by decide) _,
    numberText_length (by decide) (by decide) (Nat.lt_trans value.isLt (by decide))⟩

theorem itooct_text (value : Word) : (∀ c ∈ itooctText value, c ≠ 0) ∧ (itooctText value).length ≤ 11 := by
  rw [itooctText_eq]
  exact ⟨numberText_letters (by decide) (by decide) _,
    numberText_length (by decide) (by decide) (Nat.lt_trans value.isLt (by decide))⟩

theorem known_result (case : Case) :
    (s.known zeroPad width case).map State.result =
      (knownText zeroPad width s.args case).map (s.result.behind 0) := by
  cases case with
  | char =>
      rw [State.known, knownText, Option.map_map, Option.map_map]
      exact congrArg (Option.map · _) (funext fun next => emit_result _ next.2)
  | decimal => exact number_result itodec_stores itodec_text
  | unsigned => exact number_result itoudec_stores itoudec_text
  | float =>
      rw [State.known, knownText, Option.map_map, Option.map_map]
      exact congrArg (Option.map · _) (funext fun rest => emit_result _ rest)
  | string =>
      rw [State.known, knownText, Option.map_map, Option.map_map]
      exact congrArg (Option.map · _) (funext fun next => emit_result _ next.2)
  | hex => exact number_result itox_stores itox_text
  | octal => exact number_result itooct_stores itooct_text
  | percent => exact congrArg some (emit_result [0x25] s.args)
  | other => rfl

theorem other_result (flags digits : List CChar) (args : List Arg) :
    (⟨s.out ++ (0x25 :: (flags ++ digits ++ [c])),
        s.charsPrinted + (2 + BitVec.ofNat 32 digits.length), args⟩ : Result) =
      s.result.behind flags.length (0x25 :: (flags ++ digits ++ [c]), args) := by
  have length : (0x25 :: (flags ++ digits ++ [c])).length = 2 + digits.length + flags.length := by
    rw [List.length_cons, List.length_append, List.length_append, List.length_singleton]
    omega
  have counted : ∀ printed more uncounted : Word,
      printed + (more + uncounted) - uncounted = printed + more := fun printed more uncounted => by
    rw [← BitVec.add_assoc, BitVec.add_sub_cancel]
  rw [Result.behind, length, BitVec.ofNat_add, BitVec.ofNat_add, counted]
  rfl

theorem printf_result :
    (Printf.convert zeroPad width c s).map State.result =
      (Printf.text zeroPad width c s.args).map (s.result.behind (flagZeros zeroPad c)) := by
  rw [Printf.convert, Printf.text, flagZeros]
  by_cases isOther : caseOf c = .other
  · rw [if_pos isOther, if_pos isOther, if_pos isOther, Printf.other]
    dsimp only
    by_cases positive : 0 < width.toInt
    · have digits : widthText width = itodecText width := if_pos positive
      rw [if_pos positive, digits]
      by_cases long : 10 ≤ (itodecText width).length
      · rw [if_pos long, itodec_stores, storeText_outside (Nat.zero_le _) (by
          rw [List.length_append, List.length_singleton]; omega)]
        rfl
      · obtain ⟨numStr, behind, stored, stands⟩ := @storeText_string 10 (itodecText width) (by omega)
          (Vector.replicate 10 0)
        rw [if_neg long, itodec_stores, stored, Option.map_some, if_pos positive,
          cstring_eq stands (itodec_text width).1]
        exact congrArg some (other_result (flagText zeroPad) (itodecText width) s.args)
    · have digits : widthText width = [] := if_neg positive
      have few : ¬10 ≤ ([] : List CChar).length := by decide
      rw [if_neg positive, digits, if_neg few, Option.map_some, if_neg positive]
      exact congrArg some (other_result (flagText zeroPad) [] s.args)
  · rw [if_neg isOther, if_neg isOther, if_neg isOther]
    exact known_result _

theorem sprintf_result :
    (Sprintf.convert zeroPad width c s).map State.result =
      (Sprintf.text zeroPad width c s.args).map (s.result.behind 0) := by
  rw [Sprintf.convert, Sprintf.text]
  by_cases isOther : caseOf c = .other
  · rw [if_pos isOther, if_pos isOther]
    exact congrArg some (emit_result [0x25, c] s.args)
  · rw [if_neg isOther, if_neg isOther]
    exact known_result _

theorem behind_behind {r : Result} (first second : Nat) (text more : List CChar × List Arg) :
    (r.behind first text).behind second more =
      r.behind (first + second) (text.1 ++ more.1, more.2) := by
  have sum : ∀ a b c d e : Word, a + b - c + d - e = a + (b + d) - (c + e) := by
    intro a b c d e
    grind
  rw [Result.behind, Result.behind, Result.behind, List.append_assoc, List.length_append,
    BitVec.ofNat_add, BitVec.ofNat_add, sum]

theorem runPieces_result {convert : Bool → Word → CChar → State → Option State}
    {text : Bool → Word → CChar → List Arg → Option (List CChar × List Arg)}
    {count : Bool → CChar → Nat}
    (step : ∀ zeroPad width c s, (convert zeroPad width c s).map State.result =
      (text zeroPad width c s.args).map (s.result.behind (count zeroPad c))) (ps : List Piece)
    (s : State) :
    (runPieces convert ps s).map State.result =
      (emission text ps s.args).map (s.result.behind (uncounted count ps)) := by
  induction ps generalizing s with
  | nil =>
      refine congrArg some ?_
      rw [Result.behind, uncounted, List.append_nil]
      exact congrArg (Result.mk _ · _) (by rw [BitVec.sub_zero]; exact (BitVec.add_zero _).symm)
  | cons piece rest inductionHypothesis =>
      cases piece with
      | cut => rfl
      | text c =>
          have now : (s.emit [c]).result = s.result.behind 0 ([c], s.args) :=
            emit_result [c] s.args
          rw [runPieces, inductionHypothesis, emission, Option.map_map, now]
          refine congrArg (Option.map · _) (funext fun more => ?_)
          rw [behind_behind, Nat.zero_add]
          rfl
      | conversion zeroPad width long c =>
          have now := step zeroPad width c s
          rw [runPieces, emission]
          cases converted : convert zeroPad width c s with
          | none =>
              rw [converted] at now
              rw [Option.map_eq_none_iff.mp now.symm]
              rfl
          | some after =>
              rw [converted, Option.map_some] at now
              obtain ⟨first, isText, isAfter⟩ := Option.map_eq_some_iff.mp now.symm
              have args : after.args = first.2 := (congrArg Result.args isAfter).symm
              rw [isText, Option.bind_some, Option.bind_some, inductionHypothesis, args,
                Option.map_map]
              refine congrArg (Option.map · _) (funext fun more => ?_)
              rw [← isAfter]
              exact behind_behind _ _ first more

end Emission

/-! ## Both functions on their pieces -/

theorem printf_eq (buffer : Vector CChar 32) (format : List CChar) (args : List Arg) :
    printf buffer format args =
      (emission Printf.text (pieces true .text format) args).map fun emitted =>
        ⟨emitted.1, BitVec.ofNat 32 emitted.1.length -
          BitVec.ofNat 32 (uncounted flagZeros (pieces true .text format)), emitted.2⟩ := by
  have runs := @runPieces_result Printf.convert Printf.text flagZeros
    (fun _ _ _ _ => printf_result) (pieces true .text format) ⟨[], 0, buffer, args⟩
  rw [printf, formatLoop_eq]
  refine runs.trans (congrArg (Option.map · _) (funext fun emitted => ?_))
  rw [Result.behind]
  exact congrArg (Result.mk _ · _) (congrArg (· - _) (BitVec.zero_add _))

theorem sprintf_eq (buffer : Vector CChar 32) (format : List CChar) (args : List Arg) :
    sprintf buffer format args =
      (emission Sprintf.text (pieces false .text format) args).map fun emitted =>
        ⟨emitted.1, BitVec.ofNat 32 emitted.1.length, emitted.2⟩ := by
  have runs := @runPieces_result Sprintf.convert Sprintf.text (fun _ _ => 0)
    (fun _ _ _ _ => sprintf_result) (pieces false .text format) ⟨[], 0, buffer, args⟩
  rw [sprintf, formatLoop_eq]
  have forget : ∀ s : Option State,
      s.map (fun s => (⟨s.out, BitVec.ofNat 32 s.out.length, s.args⟩ : Result)) =
        (s.map State.result).map fun r => ⟨r.out, BitVec.ofNat 32 r.out.length, r.args⟩ :=
    fun s => by rw [Option.map_map]; rfl
  rw [forget, runs, Option.map_map]
  rfl

end OrionBios.Libc
