import OrionBios.Transition.Runs
import OrionBios.UsbKeyboard.Keymaps

/-!
# From reports to characters

A report holds a modifier byte and the code of the first key that is down. What `kbd_finish_0x88`
makes of it also depends on what it keeps from earlier reports.
-/

namespace OrionBios.UsbKeyboard

open Transition

/-! ## The functions -/

def KEY_CTRL : Byte := 0x01
def KEY_SHIFT : Byte := 0x02
def KEY_ALT : Byte := 0x04
def KEY_ALTGR : Byte := 0x08

structure Decoder where
  specialKeyUp : Bool
  specialKeyDown : Bool
  keyUp : Bool
  keyDown : Bool
  specialKeyStatus : Byte
  modCaps : Byte
  capslockJaPressionado : Bool
  deriving DecidableEq, Repr

/-- `init_kbd`, before which the flag of the caps lock key is zero. -/
def Decoder.initial : Decoder where
  specialKeyUp := false
  specialKeyDown := false
  keyUp := false
  keyDown := false
  specialKeyStatus := 0
  modCaps := 0
  capslockJaPressionado := false

/-- `key_buffer[2]` and `key_buffer[4]`. -/
structure Report where
  modifier : Byte
  code : Byte
  deriving DecidableEq, Repr

/-- The keymap `get_kbd_key` reads; without one it prints a dot and returns 0. -/
def Decoder.getKbdKey (d : Decoder) : Option Keymap :=
  if d.specialKeyStatus = 0 ∧ d.modCaps = 0 then some .base
  else if d.specialKeyStatus &&& KEY_SHIFT ≠ 0 then some (if d.modCaps = 2 then .base else .shift)
  else if d.specialKeyStatus &&& KEY_CTRL ≠ 0 then some .ctrl
  else if d.specialKeyStatus &&& KEY_ALT ≠ 0 then some .alt
  else if d.specialKeyStatus &&& KEY_ALTGR ≠ 0 then some .altGr
  else if d.modCaps ≠ 0 then some .shift
  else none

/-- The packet that switches the lamps of the keyboard. -/
def sendCmdKeyboard (cmd : Byte) : List Byte :=
  let body : List Byte := [0x12, 0x00, 0x00, 0x00, 0x00, cmd, 0x00, 0x0F]
  0x57 :: 0xAB :: body ++ [body.foldl (· + ·) 0]

/-- What a report leads to: a character, the read of a keymap, and bytes to the keyboard. -/
structure Outcome where
  character : Option Byte
  lookup : Option Lookup
  sent : List Byte

def Outcome.nothing : Outcome := { character := none, lookup := none, sent := [] }

/-- The status a modifier byte sets. Several modifiers at a time are none of these. -/
def statusOf (modifier : Byte) : Option Byte :=
  if modifier = 0x01 ∨ modifier = 0x10 then some KEY_CTRL
  else if modifier = 0x02 ∨ modifier = 0x20 then some KEY_SHIFT
  else if modifier = 0x04 then some KEY_ALT
  else if modifier = 0x40 then some KEY_ALTGR
  else none

/-- The part that all reports with a key share. -/
def Decoder.character (rom : Keymap → Byte → Byte) (d : Decoder) (code : Byte) : Outcome :=
  if code = 0 then .nothing
  else
    match d.getKbdKey with
    | some keymap =>
        { character := some (Lookup.value rom ⟨keymap, code⟩)
          lookup := some ⟨keymap, code⟩
          sent := [] }
    | none => { character := some 0, lookup := none, sent := [] }

def Decoder.kbdFinish0x88 (rom : Keymap → Byte → Byte) (d : Decoder) (report : Report) :
    Decoder × Outcome :=
  if report.modifier = 0 ∧ report.code = 0 then
    let d := if d.specialKeyDown then
        { d with specialKeyUp := true, specialKeyDown := false, specialKeyStatus := 0 }
      else d
    ({ d with keyDown := false, capslockJaPressionado := false }, .nothing)
  else
    match statusOf report.modifier with
    | some status =>
        let d := { d with specialKeyStatus := status, specialKeyDown := true, specialKeyUp := false }
        (d, d.character rom report.code)
    | none =>
        if report.code = 0x39 then
          if d.capslockJaPressionado then (d, .nothing)
          else
            let modCaps : Byte := if d.modCaps = 0 then 2 else 0
            ({ d with capslockJaPressionado := true, modCaps := modCaps },
              { Outcome.nothing with sent := sendCmdKeyboard modCaps })
        else
          let d := { d with keyDown := true, keyUp := false }
          (d, d.character rom report.code)

end OrionBios.UsbKeyboard
