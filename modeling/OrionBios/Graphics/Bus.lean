import Mathlib.Data.BitVec

/-!
# The graphics controller on the bus

The handler takes a packet from the bus, keeps parameters in registers of its own and calls the
screen. Every packet is answered with one byte.
-/

namespace OrionBios.Graphics

abbrev Byte := BitVec 8

abbrev Word := BitVec 16

/-! ## Packets -/

inductive Register where
  | D_WRITE_SCREEN | D_REG_X1_HIGH | D_REG_X1_LOW | D_REG_Y1_HIGH | D_REG_Y1_LOW
  | D_REG_PRIMITIVE_COLOR | D_REG_WIDTH_HIGH | D_REG_WIDTH_LOW | D_REG_HEIGHT_HIGH
  | D_REG_HEIGHT_LOW | D_REG_RAIO | D_SET_TXT_COLOR | D_REG_X_HIGH | D_REG_X_LOW | D_REG_Y_HIGH
  | D_REG_Y_LOW | D_REG_CORNERNAME | D_REG_DELTA | D_RUN_CMD | D_REG_SETFONT
  deriving DecidableEq

def registerOf (reg : BitVec 6) : Option Register :=
  match reg.toNat with
  | 0x00 => some .D_WRITE_SCREEN
  | 0x03 => some .D_REG_X1_HIGH
  | 0x04 => some .D_REG_X1_LOW
  | 0x05 => some .D_REG_Y1_HIGH
  | 0x06 => some .D_REG_Y1_LOW
  | 0x0E => some .D_REG_PRIMITIVE_COLOR
  | 0x0F => some .D_REG_WIDTH_HIGH
  | 0x10 => some .D_REG_WIDTH_LOW
  | 0x11 => some .D_REG_HEIGHT_HIGH
  | 0x12 => some .D_REG_HEIGHT_LOW
  | 0x13 => some Register.D_REG_RAIO
  | 0x14 => some .D_SET_TXT_COLOR
  | 0x16 => some .D_REG_X_HIGH
  | 0x17 => some .D_REG_X_LOW
  | 0x18 => some .D_REG_Y_HIGH
  | 0x19 => some .D_REG_Y_LOW
  | 0x1A => some .D_REG_CORNERNAME
  | 0x1B => some .D_REG_DELTA
  | 0x1E => some .D_RUN_CMD
  | 0x1F => some .D_REG_SETFONT
  | _ => none

inductive Command where
  | CMD_CLEAR_SCREEN | CMD_SET_CUR_POS | CMD_GO_HOME | CMD_DRAW_PIXEL | CMD_DRAW_LINE
  | CMD_DRAW_VLINE | CMD_DRAW_HLINE | CMD_DRAW_CIRCLE | CMD_DRAW_CIRCLEHELPER
  | CMD_DRAW_FILLCIRCLE | CMD_DRAW_FILLCIRCLEHELPER | CMD_DRAW_ROUNDRECT | CMD_DRAW_FILLROUNDRECT
  | CMD_DRAW_FILLRECT | CMD_DRAW_FILLTRIANGLE | CMD_DRAW_MULTILINE
  deriving DecidableEq

def commandOf (data : Byte) : Option Command :=
  match data.toNat with
  | 0xA4 => some .CMD_CLEAR_SCREEN
  | 0xA3 => some .CMD_SET_CUR_POS
  | 0xA1 => some .CMD_GO_HOME
  | 0xA0 => some .CMD_DRAW_PIXEL
  | 0xBF => some .CMD_DRAW_LINE
  | 0xBE => some .CMD_DRAW_VLINE
  | 0xBD => some .CMD_DRAW_HLINE
  | 0xBC => some .CMD_DRAW_CIRCLE
  | 0xBB => some .CMD_DRAW_CIRCLEHELPER
  | 0xBA => some .CMD_DRAW_FILLCIRCLE
  | 0xB9 => some .CMD_DRAW_FILLCIRCLEHELPER
  | 0xB8 => some .CMD_DRAW_ROUNDRECT
  | 0xB7 => some .CMD_DRAW_FILLROUNDRECT
  | 0xB6 => some .CMD_DRAW_FILLRECT
  | 0xB5 => some .CMD_DRAW_FILLTRIANGLE
  | 0xB4 => some .CMD_DRAW_MULTILINE
  | _ => none

structure Packet where
  operation : BitVec 2
  reg : BitVec 6
  data : Byte

/-- The fields of a word from the bus. -/
def packetOf (pacote : Word) : Packet where
  operation := pacote.extractLsb' 14 2
  reg := pacote.extractLsb' 8 6
  data := pacote.extractLsb' 0 8

def OPER_LEITURA : BitVec 2 := 0x01

/-! ## Calls of the screen -/

inductive Call where
  | setTextCursorVisible (v : Bool)
  | pchar (c : Byte)
  | setTextColor (c b : Byte)
  | setTextFont (fonte : Byte)
  | clrscr
  | setTextCursorPos (x y : Word)
  | setVgaHome
  | drawLine (x0 y0 x1 y1 : Word) (color : Byte)
  | drawVLine (x y h : Word) (color : Byte)
  | drawHLine (x y w : Word) (color : Byte)
  | drawCircle (x0 y0 r : Word) (color : Byte)
  | drawCircleHelper (x0 y0 r cornername : Word) (color : Byte)
  | fillCircle (x0 y0 r : Word) (color : Byte)
  | fillCircleHelper (x0 y0 r cornername delta : Word) (color : Byte)
  | drawRoundRect (x y w h r : Word) (color : Byte)
  | fillRoundRect (x y w h r : Word) (color : Byte)
  | fillRect (x y w h : Word) (color : Byte)
  | fillTri (x0 y0 x1 y1 x2 y2 : Word) (color : Byte)
  deriving DecidableEq

/-! ## The handler -/

structure Registers where
  cursorX : Word
  cursorY : Word
  cursorX1 : Word
  cursorY1 : Word
  cursorX2 : Word
  cursorY2 : Word
  textColor : Byte
  bgColor : Byte
  primitiveWidth : Word
  primitiveHeight : Word
  primitiveColor : Byte
  raio : Word
  cornername : Word
  delta : Word
  deriving DecidableEq

/-- Zero-initialised variables. -/
def Registers.start : Registers where
  cursorX := 0
  cursorY := 0
  cursorX1 := 0
  cursorY1 := 0
  cursorX2 := 0
  cursorY2 := 0
  textColor := 0
  bgColor := 0
  primitiveWidth := 0
  primitiveHeight := 0
  primitiveColor := 0
  raio := 0
  cornername := 0
  delta := 0

/-- A new upper half, with the lower half of a word. -/
def highOver (data : Byte) (word : Word) : Word := (data.setWidth 16 <<< 8) ||| (word &&& 0x00FF)

/-- A new lower half, with the upper half of a word. -/
def lowUnder (word : Word) (data : Byte) : Word := (word &&& 0xFF00) ||| data.setWidth 16

/-- The cases of `D_RUN_CMD`. -/
def runCommand (s : Registers) : Command → Registers × List Call
  | .CMD_SET_CUR_POS => (s, [.setTextCursorPos s.cursorX s.cursorY])
  | .CMD_CLEAR_SCREEN => ({ s with cursorX := 0, cursorY := 0 }, [.clrscr])
  | .CMD_GO_HOME => ({ s with cursorX := 0, cursorY := 0 }, [.setVgaHome])
  | .CMD_DRAW_PIXEL => (s, [])
  | .CMD_DRAW_LINE =>
    (s, [.drawLine s.cursorX s.cursorY s.cursorX1 s.cursorY1 s.primitiveColor])
  | .CMD_DRAW_VLINE => (s, [.drawVLine s.cursorX s.cursorY s.primitiveHeight s.primitiveColor])
  | .CMD_DRAW_HLINE => (s, [.drawHLine s.cursorX s.cursorY s.primitiveWidth s.primitiveColor])
  | .CMD_DRAW_CIRCLE => (s, [.drawCircle s.cursorX s.cursorY s.raio s.primitiveColor])
  | .CMD_DRAW_CIRCLEHELPER =>
    (s, [.drawCircleHelper s.cursorX s.cursorY s.raio s.cornername s.primitiveColor])
  | .CMD_DRAW_FILLCIRCLE => (s, [.fillCircle s.cursorX s.cursorY s.raio s.primitiveColor])
  | .CMD_DRAW_FILLCIRCLEHELPER =>
    (s, [.fillCircleHelper s.cursorX s.cursorY s.raio s.cornername s.delta s.primitiveColor])
  | .CMD_DRAW_ROUNDRECT =>
    (s, [.drawRoundRect s.cursorX s.cursorY s.primitiveWidth s.primitiveHeight s.raio
      s.primitiveColor])
  | .CMD_DRAW_FILLROUNDRECT =>
    (s, [.fillRoundRect s.cursorX s.cursorY s.primitiveWidth s.primitiveHeight s.raio
      s.primitiveColor])
  | .CMD_DRAW_FILLRECT =>
    (s, [.fillRect s.cursorX s.cursorY s.primitiveWidth s.primitiveHeight s.primitiveColor])
  | .CMD_DRAW_FILLTRIANGLE =>
    (s, [.fillTri s.cursorX s.cursorY s.cursorX1 s.cursorY1 s.cursorX2 s.cursorY2
      s.primitiveColor])
  | .CMD_DRAW_MULTILINE => (s, [])

def writeRegister (s : Registers) (data : Byte) : Register → Registers × List Call
  | .D_WRITE_SCREEN =>
    (s, [.setTextCursorVisible false, .pchar data, .setTextCursorVisible true])
  | .D_SET_TXT_COLOR =>
    ({ s with bgColor := data &&& 0x0F, textColor := (data >>> 4) &&& 0x0F },
      [.setTextColor ((data >>> 4) &&& 0x0F) (data &&& 0x0F)])
  | .D_REG_PRIMITIVE_COLOR => ({ s with primitiveColor := data }, [])
  | .D_REG_WIDTH_HIGH => ({ s with primitiveWidth := highOver data s.cursorX }, [])
  | .D_REG_WIDTH_LOW => ({ s with primitiveWidth := lowUnder s.primitiveWidth data }, [])
  | .D_REG_HEIGHT_HIGH => ({ s with primitiveHeight := highOver data s.cursorX }, [])
  | .D_REG_HEIGHT_LOW => ({ s with primitiveHeight := lowUnder s.primitiveHeight data }, [])
  | .D_REG_X_HIGH => ({ s with cursorX := highOver data s.cursorX }, [])
  | .D_REG_X_LOW => ({ s with cursorX := lowUnder s.cursorX data }, [])
  | .D_REG_Y_HIGH => ({ s with cursorY := highOver data s.cursorY }, [])
  | .D_REG_Y_LOW => ({ s with cursorY := lowUnder s.cursorY data }, [])
  | .D_REG_X1_HIGH => ({ s with cursorX1 := highOver data s.cursorX }, [])
  | .D_REG_X1_LOW => ({ s with cursorX1 := lowUnder s.cursorX data }, [])
  | .D_REG_Y1_HIGH => ({ s with cursorY1 := highOver data s.cursorY }, [])
  | .D_REG_Y1_LOW => ({ s with cursorY1 := lowUnder s.cursorY data }, [])
  | Register.D_REG_RAIO => ({ s with raio := data.setWidth 16 }, [])
  | .D_REG_CORNERNAME => ({ s with cornername := data.setWidth 16 }, [])
  | .D_REG_DELTA => ({ s with delta := data.setWidth 16 }, [])
  | .D_REG_SETFONT => (s, [.setTextFont data, .clrscr])
  | .D_RUN_CMD =>
    match commandOf data with
    | none => (s, [])
    | some command => runCommand s command

/-- `gerenciar_barramento_m68k` with a packet in the FIFO: the registers, the calls of the screen
and the byte that is put for the bus. The cases are the same for both operations. -/
def gerenciar (s : Registers) (packet : Packet) : Registers × List Call × Byte :=
  match registerOf packet.reg with
  | none => (s, [], if packet.operation = OPER_LEITURA then 0xFF else 0xA5)
  | some register =>
    ((writeRegister s packet.data register).1, (writeRegister s packet.data register).2,
      if packet.operation = OPER_LEITURA then 0x00 else 0xA5)

end OrionBios.Graphics
