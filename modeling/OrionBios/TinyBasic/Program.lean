import OrionBios.Machine.OrderedMap
import OrionBios.TinyBasic.Expressions
import OrionBios.TinyBasic.Lines

/-!
# The program that is entered

A program is a map from line numbers to texts. The lines that are typed update the map, and the
memory holds its entries one behind the other.
-/

namespace OrionBios.TinyBasic

open Buffers
open Machine (OrderedMap)

/-! ## Lines as bytes -/

abbrev Line := Nat × Text

/-- The bytes of a line: the header, the text, the `NL` and what makes the number of them even. -/
def lineSize (body : Text) : Nat := body.length + 4 + body.length % 2

def encodeLine (line : Line) : Text :=
  BitVec.ofNat 8 (line.1 / 256) :: BitVec.ofNat 8 line.1 :: BitVec.ofNat 8 (lineSize line.2) ::
    (line.2 ++ NL :: List.replicate (line.2.length % 2) NL)

def encode (lines : List Line) : Text := lines.flatMap encodeLine

/-- A line as `LIST` prints it. -/
def printed (line : Line) : Text := numeral line.1 ++ SPACE :: line.2 ++ [NL]

/-! ## Lines as they are typed -/

/-- The line that the keys make where there is room for so many characters. A line of which more is
erased than there was is none. -/
def typed (room : Nat) : List Byte → Text → Option Text
  | [], _ => none
  | c :: keys, line =>
    if c = PS2_ESC then none
    else if c = NL ∨ c = CR then some line
    else if c = CTRLH then if line = [] then none else typed room keys line.dropLast
    else if line.length = room then typed room keys line
    else typed room keys (line ++ [c])

def uppercased (quote : Byte) : Text → Text
  | [] => []
  | c :: rest =>
    if c = quote then c :: uppercased 0 rest
    else if c = DQUOTE ∨ c = SQUOTE then c :: uppercased c rest
    else if quote = 0 ∧ byte 'a' ≤ c ∧ c ≤ byte 'z' then
      (c + byte 'A' - byte 'a') :: uppercased quote rest
    else c :: uppercased quote rest

/-- The number of a line and what stands behind it. -/
def parts (text : Text) : Line := ((testnum text).1, skipBlanks (testnum text).2)

/-! ## Programs -/

abbrev Listing := OrderedMap Nat Text

namespace Listing

def size (listing : Listing) : Nat := (encode listing.entries).length

/-- The line is put into the program, or taken out of it where there is no text. -/
def merge (listing : Listing) (line : Line) : Listing :=
  listing.put line.1 (if line.2 = [] then none else some line.2)

/-- What the keys of a line with a number come to, where there is room for them and for the line that
they make. The size of the line has to be a byte. -/
def enter (variablesBegin : Nat) (listing : Listing) (keys : List Byte) :
    Option (Outcome × Listing) := do
  if variablesBegin < listing.size + 4 then none
  else
    let text ← typed (variablesBegin - 4 - listing.size) keys []
    let line := parts (uppercased 0 text)
    if line.1 = 0 then none
    else if line.1 = 0xFFFF then some (.qhow, listing)
    else if 250 < line.2.length ∨ variablesBegin ≤ (listing.merge line).size then none
    else some (.prompt, listing.merge line)

def printedFrom (listing : Listing) (linenum : Nat) : Text :=
  (listing.entries.filter fun line => linenum ≤ line.1).flatMap printed

end Listing

/-! ## Sessions -/

/-- What the user has the interpreter do: lines with a number, and the statements `NEW` and `LIST`,
of which the texts are what stands behind the word. -/
inductive Event where
  | line (keys : List Byte)
  | new (text : Text)
  | list (text : Text)

/-- Where the interpreter goes, and what it has printed of the program. -/
abbrev Answer := Outcome × Text

/-- A line without a number is executed, and so is what is left of a wrong statement; neither is
followed here. -/
def Store.step (fuel variablesBegin sp : Nat) (s : Store) : Event → Option (Answer × Store)
  | .line keys =>
    (enterLine fuel variablesBegin keys s).bind fun entered =>
      if entered.1 = .direct then none else some ((entered.1, []), entered.2)
  | .new text =>
    if (clear s text).1 = .qwhat then none else some (((clear s text).1, []), (clear s text).2)
  | .list text =>
    (list fuel sp s text).bind fun listed => if listed.1.1 = .qwhat then none else some listed

/-- The statements are typed too, and need the room that the prompt needs. -/
def Listing.step (variablesBegin : Nat) (listing : Listing) : Event → Option (Answer × Listing)
  | .line keys =>
    (listing.enter variablesBegin keys).map fun entered => ((entered.1, []), entered.2)
  | .new text =>
    if variablesBegin < listing.size + 4 ∨ charAt text 0 ≠ NL then none
    else some ((.prompt, []), OrderedMap.empty)
  | .list text =>
    if variablesBegin < listing.size + 4 ∨ charAt (testnum text).2 0 ≠ NL then none
    else some ((.warmstart, listing.printedFrom (testnum text).1), listing)

def session {State : Type} (step : State → Event → Option (Answer × State)) :
    List Event → State → Option (List Answer × State)
  | [], s => some ([], s)
  | event :: events, s => do
    let (answer, next) ← step s event
    let (answers, last) ← session step events next
    pure (answer :: answers, last)

/-! ## What the memory holds -/

def isTyped (c : Byte) : Bool := c ≠ PS2_ESC && c ≠ NL && c ≠ CR && c ≠ CTRLH

/-- A line that the program can hold. -/
structure Storable (line : Line) : Prop where
  numbered : line.1 ≠ 0
  small : line.1 < 65530
  texted : line.2 ≠ []
  short : line.2.length ≤ 250
  typed : ∀ c ∈ line.2, isTyped c = true
  still : skipBlanks line.2 = line.2
  capital : uppercased 0 line.2 = line.2

structure Stores (s : Store) (listing : Listing) : Prop where
  held : bufferRead s.cells 0 s.programEnd = encode listing.entries
  lines : ∀ line ∈ listing.entries, Storable line

end OrionBios.TinyBasic
