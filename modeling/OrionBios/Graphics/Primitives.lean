import OrionBios.Graphics.Screen

/-!
# The drawing commands

The loops of the commands. A loop whose counter cannot reach its limit does not end: its rounds
repeat when the counter has gone through its values.
-/

namespace OrionBios.Graphics

/-! ## Lines -/

/-- A loop on a `short` counter: the rounds that end it, from a state of its own, or `none`. -/
def forShort {σ : Type} (limit : Int) (body : Int → σ → σ × List Access) :
    (rounds : Nat) → Int → σ → Option (List Access)
  | 0, _, _ => none
  | rounds + 1, i, state =>
    if i < limit then
      let (state, accesses) := body i state
      (forShort limit body rounds (short (i + 1)) state).map (accesses ++ ·)
    else some []

/-- More rounds than the counter has values. -/
def SHORT_ROUNDS : Nat := 65537

def drawVLine (s : Screen) (x y h : Int) (color : Byte) : Option (List Access) :=
  let x := short x
  let y := short y
  let h := short h
  forShort (y + h) (fun i (_ : Unit) => ((), drawPixel s x i color)) SHORT_ROUNDS y ()

/-- The variables of the loop of `drawLine` apart from its counter. -/
structure LineState where
  y0 : Int
  err : Int

def drawLine (s : Screen) (x0 y0 x1 y1 : Int) (color : Byte) : Option (List Access) :=
  let x0 := short x0
  let y0 := short y0
  let x1 := short x1
  let y1 := short y1
  let steep := (y1 - y0).natAbs > (x1 - x0).natAbs
  let (x0, y0, x1, y1) := if steep then (y0, x0, y1, x1) else (x0, y0, x1, y1)
  let (x0, y0, x1, y1) := if x0 > x1 then (x1, y1, x0, y0) else (x0, y0, x1, y1)
  let dx := short (x1 - x0)
  let dy := short (y1 - y0).natAbs
  let ystep : Int := if y0 < y1 then 1 else -1
  let body := fun (i : Int) (state : LineState) =>
    let pixel := if steep then drawPixel s state.y0 i color else drawPixel s i state.y0 color
    let err := short (state.err - dy)
    (if err < 0 then ⟨short (state.y0 + ystep), short (err + dx)⟩ else ⟨state.y0, err⟩, pixel)
  forShort (x1 + 1) body SHORT_ROUNDS x0 ⟨y0, Int.tdiv dx 2⟩

/-! ## Circles -/

/-- The variables of the loops over an eighth of a circle. -/
structure Octant where
  f : Int
  ddFx : Int
  ddFy : Int
  x : Int
  y : Int

def Octant.start (r : Int) : Octant := ⟨short (1 - r), 1, short (-2 * r), 0, r⟩

/-- One round of the loop. -/
def Octant.next (o : Octant) : Octant :=
  let o :=
    if o.f ≥ 0 then
      { o with
        y := short (o.y - 1)
        ddFy := short (o.ddFy + 2)
        f := short (o.f + short (o.ddFy + 2)) }
    else o
  { o with
    x := short (o.x + 1)
    ddFx := short (o.ddFx + 2)
    f := short (o.f + short (o.ddFx + 2)) }

def octantLoop : (rounds : Nat) → Octant → Option (List (Int × Int))
  | 0, _ => none
  | rounds + 1, o =>
    if o.x < o.y then (octantLoop rounds o.next).map ((o.next.x, o.next.y) :: ·) else some []

def octantPoints (r : Int) : Option (List (Int × Int)) := octantLoop SHORT_ROUNDS (Octant.start r)

def drawCircle (s : Screen) (x0 y0 r : Int) (color : Byte) : Option (List Access) :=
  let x0 := short x0
  let y0 := short y0
  let r := short r
  let cross := drawPixel s x0 (y0 + r) color ++ drawPixel s x0 (y0 - r) color ++
    drawPixel s (x0 + r) y0 color ++ drawPixel s (x0 - r) y0 color
  (octantPoints r).map fun points => cross ++ points.flatMap fun (x, y) =>
    drawPixel s (x0 + x) (y0 + y) color ++ drawPixel s (x0 - x) (y0 + y) color ++
    drawPixel s (x0 + x) (y0 - y) color ++ drawPixel s (x0 - x) (y0 - y) color ++
    drawPixel s (x0 + y) (y0 + x) color ++ drawPixel s (x0 - y) (y0 + x) color ++
    drawPixel s (x0 + y) (y0 - x) color ++ drawPixel s (x0 - y) (y0 - x) color

/-- `cornername` is an `unsigned char`. -/
def corner (cornername : Int) (bit : Nat) : Bool := (cornername % 256).toNat.testBit bit

def drawCircleHelper (s : Screen) (x0 y0 r cornername : Int) (color : Byte) :
    Option (List Access) :=
  let x0 := short x0
  let y0 := short y0
  let r := short r
  (octantPoints r).map fun points => points.flatMap fun (x, y) =>
    (if corner cornername 2 then
      drawPixel s (x0 + x) (y0 + y) color ++ drawPixel s (x0 + y) (y0 + x) color else []) ++
    (if corner cornername 1 then
      drawPixel s (x0 + x) (y0 - y) color ++ drawPixel s (x0 + y) (y0 - x) color else []) ++
    (if corner cornername 3 then
      drawPixel s (x0 - y) (y0 + x) color ++ drawPixel s (x0 - x) (y0 + y) color else []) ++
    (if corner cornername 0 then
      drawPixel s (x0 - y) (y0 - x) color ++ drawPixel s (x0 - x) (y0 - y) color else [])

/-- The second loop of `sqrt_i32`; `b` is the power of four at `digits`. -/
def sqrtLoop : (digits : Nat) → (q r : Nat) → Nat
  | 0, q, _ => q
  | digits + 1, q, r =>
    let b := 4 ^ digits
    let t := q + b
    if r ≥ t then sqrtLoop digits (q / 2 + b) (r - t) else sqrtLoop digits (q / 2) r

/-- The first loop: the digits of the greatest power of four that is not above `r`. -/
def sqrtDigits (r : Nat) : (digits : Nat) → Nat
  | 0 => 0
  | digits + 1 => if 4 ^ digits > r then sqrtDigits r digits else digits + 1

def sqrtI32 (v : Nat) : Nat := sqrtLoop (sqrtDigits v 16) 0 v

def halfWidth (r : Int) (i : Nat) : Int := sqrtI32 (r * r + r - i * i).toNat

def fillCircle (s : Screen) (x0 y0 r : Int) (color : Byte) : List Access :=
  let x0 := short x0
  let y0 := short y0
  let r := short r
  if y0 - r < 0 ∨ y0 + r > 479 then []
  else (List.range (r + 1).toNat).flatMap fun (i : Nat) =>
    let dx := halfWidth r i
    drawHLine s (x0 - dx) (y0 + i) (2 * dx) color ++ drawHLine s (x0 - dx) (y0 - i) (2 * dx) color

/-- The vertical lines of a point of `fillCircleHelper`: left side, top and height of each. -/
def helperLines (x0 y0 cornername delta x y : Int) : List (Int × Int × Int) :=
  (if corner cornername 0 then
    [(x0 + x, y0 - y, 2 * y + 1 + delta), (x0 + y, y0 - x, 2 * x + 1 + delta)] else []) ++
  (if corner cornername 1 then
    [(x0 - x, y0 - y, 2 * y + 1 + delta), (x0 - y, y0 - x, 2 * x + 1 + delta)] else [])

def sequence : List (Option (List Access)) → Option (List Access)
  | [] => some []
  | call :: rest => do
    let accesses ← call
    let others ← sequence rest
    pure (accesses ++ others)

def fillCircleHelper (s : Screen) (x0 y0 r cornername delta : Int) (color : Byte) :
    Option (List Access) := do
  let points ← octantPoints (short r)
  sequence ((points.flatMap fun (x, y) =>
    helperLines (short x0) (short y0) cornername (short delta) x y).map fun (left, top, height) =>
      drawVLine s left top height color)

/-! ## Rectangles with round corners -/

def drawRoundRect (s : Screen) (x y w h r : Int) (color : Byte) : Option (List Access) :=
  let x := short x
  let y := short y
  let w := short w
  let h := short h
  let r := short r
  sequence [
    some (drawHLine s (x + r) y (w - 2 * r) color),
    some (drawHLine s (x + r) (y + h - 1) (w - 2 * r) color),
    drawVLine s x (y + r) (h - 2 * r) color,
    drawVLine s (x + w - 1) (y + r) (h - 2 * r) color,
    drawCircleHelper s (x + r) (y + r) r 1 color,
    drawCircleHelper s (x + w - r - 1) (y + r) r 2 color,
    drawCircleHelper s (x + w - r - 1) (y + h - r - 1) r 4 color,
    drawCircleHelper s (x + r) (y + h - r - 1) r 8 color]

def fillRoundRect (s : Screen) (x y w h r : Int) (color : Byte) : List Access :=
  let x := short x
  let y := short y
  let w := short w
  let h := short h
  let r := short r
  fillRect s x (y + r) w (h - 2 * r) color ++
  fillRect s (x + r) y (w - 2 * r) r color ++
  fillRect s (x + r) (y + h - r) (w - 2 * r) r color ++
  fillCircle s (x + w - r) (y + r) (r - 1) color ++
  fillCircle s (x + r) (y + r) (r - 1) color ++
  fillCircle s (x + w - r) (y + h - r) (r - 1) color ++
  fillCircle s (x + r) (y + h - r) (r - 1) color

/-! ## Calls -/

/-- What keeps a call from returning. -/
inductive Fault where
  | neverEnds
  | nullFont
  | unspecifiedFont
  deriving DecidableEq

def ends {α : Type} : Option α → Except Fault α
  | none => .error .neverEnds
  | some result => .ok result

def setTextFont (s : Screen) : FontPointer → Except Fault Screen
  | .found font => .ok { s with font := font }
  | .null => .error .nullFont
  | .unspecified => .error .unspecifiedFont

/-- A `uint16_t` as a number. -/
def int (word : Word) : Int := word.toNat

section Calls

variable (bitmaps : Font → Nat → Byte)

/-- A call of the screen. `fillTri` orders its points and draws nothing. -/
def exec (s : Screen) : Call → Except Fault (Screen × List Access)
  | .setTextCursorVisible v => .ok ({ s with visible := v }, [])
  | .pchar c => .ok (tftWrite bitmaps s c)
  | .setTextColor c b => .ok ({ s with textcolor := c, textbgcolor := b }, [])
  | .setTextFont fonte => (setTextFont s (setFont fonte)).map fun s => (s, [])
  | .clrscr => .ok (clrscr s)
  | .setTextCursorPos x y => .ok (setTextCursor s x y, [])
  | .setVgaHome => .ok (setVgaHome s, [])
  | .drawLine x0 y0 x1 y1 color =>
    (ends (drawLine s (int x0) (int y0) (int x1) (int y1) color)).map (s, ·)
  | .drawVLine x y h color => (ends (drawVLine s (int x) (int y) (int h) color)).map (s, ·)
  | .drawHLine x y w color => .ok (s, drawHLine s (int x) (int y) (int w) color)
  | .drawCircle x0 y0 r color => (ends (drawCircle s (int x0) (int y0) (int r) color)).map (s, ·)
  | .drawCircleHelper x0 y0 r cornername color =>
    (ends (drawCircleHelper s (int x0) (int y0) (int r) (int cornername) color)).map (s, ·)
  | .fillCircle x0 y0 r color => .ok (s, fillCircle s (int x0) (int y0) (int r) color)
  | .fillCircleHelper x0 y0 r cornername delta color =>
    (ends (fillCircleHelper s (int x0) (int y0) (int r) (int cornername) (int delta) color)).map
      (s, ·)
  | .drawRoundRect x y w h r color =>
    (ends (drawRoundRect s (int x) (int y) (int w) (int h) (int r) color)).map (s, ·)
  | .fillRoundRect x y w h r color =>
    .ok (s, fillRoundRect s (int x) (int y) (int w) (int h) (int r) color)
  | .fillRect x y w h color => .ok (s, fillRect s (int x) (int y) (int w) (int h) color)
  | .fillTri _ _ _ _ _ _ _ => .ok (s, [])

/-- The calls of a packet, in their order. -/
def execAll : Screen → List Call → Except Fault (Screen × List Access)
  | s, [] => .ok (s, [])
  | s, call :: rest => do
    let (s, accesses) ← exec bitmaps s call
    let (s, others) ← execAll s rest
    pure (s, accesses ++ others)

def initializeGraphos : List Call :=
  .setTextCursorVisible false ::
    "graphos INICIALIZED\n".toList.map (fun c => .pchar (BitVec.ofNat 8 c.toNat)) ++
    [.setTextCursorVisible true, .drawLine 20 10 40 10 5]

/-- The framebuffer that `create_screen` leaves. -/
def startFrame (mode : ScreenMode) : Frame :=
  match execAll bitmaps (openScreen mode) initializeGraphos with
  | .ok (_, accesses) => Frame.accesses (fun _ => 0) accesses
  | .error _ => fun _ => 0

/-! ## Packets -/

structure Controller where
  registers : Registers
  screen : Screen

/-- A packet, with the byte that is put for it and the accesses. A call that does not return keeps
the handler from its answer. -/
def step (c : Controller) (packet : Packet) : Except Fault (Controller × Byte × List Access) := do
  let (registers, calls, response) := gerenciar c.registers packet
  let (screen, accesses) ← execAll bitmaps c.screen calls
  pure (⟨registers, screen⟩, response, accesses)

def run : Controller → List Packet → Except Fault (Controller × List Byte × List Access)
  | c, [] => .ok (c, [], [])
  | c, packet :: rest => do
    let (c, response, accesses) ← step bitmaps c packet
    let (c, responses, others) ← run c rest
    pure (c, response :: responses, accesses ++ others)

end Calls

end OrionBios.Graphics
