import OrionBios.Graphics.Bounds

/-!
# Safety of the graphics controller

The calls that return with every access inside, and the runs of packets that consist of them. The
text cursor stays on the screen, so of the text functions only the glyph and the font can go wrong.
-/

namespace OrionBios.Graphics

/-! ## Text -/

/-- The cursor is on the screen. -/
structure Screen.Valid (s : Screen) : Prop where
  left : 0 ≤ s.cursorX
  right : s.cursorX < s.width
  top : 0 ≤ s.cursorY
  bottom : s.cursorY < s.height

/-- Only the mode and the cursor matter. -/
theorem Screen.Valid.same {s after : Screen} (valid : s.Valid) (mode : after.mode = s.mode)
    (x : after.cursorX = s.cursorX) (y : after.cursorY = s.cursorY) : after.Valid := by
  refine ⟨?_, ?_, ?_, ?_⟩
  · rw [x]
    exact valid.left
  · rw [x, Screen.width, mode]
    exact valid.right
  · rw [y]
    exact valid.top
  · rw [y, Screen.height, mode]
    exact valid.bottom

theorem Font.height_range (font : Font) : 12 ≤ font.height ∧ font.height ≤ 18 := by
  cases font <;> decide

/-- The glyph of a character is in its font's table. -/
def GlyphInside (font : Font) (charCode : Byte) : Prop :=
  charCode.toNat * font.height + font.height ≤ font.dataSize

instance (font : Font) (charCode : Byte) : Decidable (GlyphInside font charCode) :=
  inferInstanceAs (Decidable (_ ≤ _))

theorem glyphInside_space (font : Font) : GlyphInside font 32 := by
  cases font <;> decide

theorem glyphInside_bar (font : Font) : GlyphInside font CURSOR_BAR := by
  cases font <;> decide

section Text

variable (bitmaps : Font → Nat → Byte)

theorem drawCharRow_inside_iff (s : Screen) (startX startY : Int) (charCode color bgcolor : Byte)
    (row : Nat) :
    Inside (drawCharRow bitmaps s startX startY charCode color bgcolor row) ↔
      charCode.toNat * s.font.height + row < s.font.dataSize := by
  unfold drawCharRow
  rw [inside_cons, inside_flatMap]
  simp only [drawPixel_inside, implies_true, and_true]
  rfl

theorem drawChar2_inside_iff {s : Screen} {startX startY : Int} (left : 0 ≤ startX)
    (right : startX ≤ 32767) (top : 0 ≤ startY) (bottom : startY ≤ 32767)
    (charCode color bgcolor : Byte) :
    Inside (drawChar2 bitmaps s startX startY charCode color bgcolor) ↔
      GlyphInside s.font charCode := by
  have rect : RectInside s startX startY 8 16 := by
    intro _
    rw [short_of_range (by omega) right, short_of_range (by omega) bottom]
    exact lineInside_of_nonneg left top _
  have tall := s.font.height_range
  rw [drawChar2, inside_append, fillRect_inside_iff, inside_flatMap, GlyphInside]
  simp only [rect, true_and, drawCharRow_inside_iff, List.mem_range]
  constructor
  · intro all
    have last := all (s.font.height - 1) (by omega)
    omega
  · intro inside row below
    omega

theorem putCursor_inside {s : Screen} (left : 0 ≤ s.cursorX) (right : s.cursorX ≤ 32767)
    (top : 0 ≤ s.cursorY) (bottom : s.cursorY ≤ 32767) (c : Bool) :
    Inside (putCursor bitmaps s c) := by
  unfold putCursor drawChar
  rw [drawChar2_inside_iff bitmaps left right top bottom]
  split
  · split
    · split
      · exact glyphInside_bar s.font
      · exact glyphInside_space s.font
    · exact glyphInside_bar s.font
  · exact glyphInside_space s.font

theorem scrollUpGraphics_inside : Inside scrollUpGraphics := by
  unfold scrollUpGraphics
  simp only [inside_cons, inside_nil, Access.Inside]
  decide

/-- A byte that has a glyph of its own. -/
def Drawn (c : Byte) : Prop := c.toNat ≠ 0x0A ∧ c.toNat ≠ 0x0D ∧ c.toNat ≠ 0x08 ∧ c.toNat ≠ 0x09

instance (c : Byte) : Decidable (Drawn c) := inferInstanceAs (Decidable (_ ∧ _ ∧ _ ∧ _))

/-- What `writeByte` does, case by case. -/
theorem writeByte_cases (s : Screen) (c : Byte) :
    (c.toNat = 0x0A ∧ writeByte bitmaps s c =
      ({ s with cursorY := short (s.cursorY + s.font.height), cursorX := 0 },
        putCursor bitmaps s false ++
          putCursor bitmaps
            { s with cursorY := short (s.cursorY + s.font.height), cursorX := 0 } true)) ∨
    (c.toNat = 0x0D ∧ writeByte bitmaps s c =
      ({ s with cursorX := 0 }, putCursor bitmaps { s with cursorX := 0 } true)) ∨
    (c.toNat = 0x08 ∧ writeByte bitmaps s c =
      ({ s with cursorX := if short (s.cursorX - 8) < 0 then 0 else short (s.cursorX - 8) },
        putCursor bitmaps s false ++ putCursor bitmaps
          { s with cursorX := if short (s.cursorX - 8) < 0 then 0 else short (s.cursorX - 8) }
          true)) ∨
    (c.toNat = 0x09 ∧ writeByte bitmaps s c =
      (if s.cursorX + tabspace < s.width then { s with cursorX := short (s.cursorX + tabspace) }
        else s, [])) ∨
    (Drawn c ∧ writeByte bitmaps s c =
      (if short (s.cursorX + 8) ≥ s.width then
          { s with cursorY := short (s.cursorY + s.font.height), cursorX := 0 }
        else { s with cursorX := short (s.cursorX + 8) },
        drawChar bitmaps s c s.textcolor s.textbgcolor)) := by
  unfold writeByte
  split
  next is => exact .inl ⟨is, rfl⟩
  next is => exact .inr (.inl ⟨is, rfl⟩)
  next is => exact .inr (.inr (.inl ⟨is, rfl⟩))
  next is => exact .inr (.inr (.inr (.inl ⟨is, rfl⟩)))
  next newline enter back tab => exact .inr (.inr (.inr (.inr ⟨⟨newline, enter, back, tab⟩, rfl⟩)))

/-- After `writeByte` the cursor is on the screen or in the line below it. -/
theorem writeByte_cursor {s : Screen} (valid : s.Valid) (c : Byte) :
    (writeByte bitmaps s c).1.mode = s.mode ∧ (writeByte bitmaps s c).1.font = s.font ∧
    0 ≤ (writeByte bitmaps s c).1.cursorX ∧ (writeByte bitmaps s c).1.cursorX < s.width ∧
    0 ≤ (writeByte bitmaps s c).1.cursorY ∧
    (writeByte bitmaps s c).1.cursorY < s.height + s.font.height := by
  have tall := s.font.height_range
  obtain ⟨left, right, top, bottom⟩ := valid
  have size := s.size
  have down : short (s.cursorY + s.font.height) = s.cursorY + s.font.height :=
    short_of_range (by omega) (by omega)
  have back : short (s.cursorX - 8) = s.cursorX - 8 := short_of_range (by omega) (by omega)
  have on : short (s.cursorX + 8) = s.cursorX + 8 := short_of_range (by omega) (by omega)
  have tab : short (s.cursorX + tabspace) = s.cursorX + 4 :=
    short_of_range (by unfold tabspace; omega) (by unfold tabspace; omega)
  rcases writeByte_cases bitmaps s c with ⟨-, same⟩ | ⟨-, same⟩ | ⟨-, same⟩ | ⟨-, same⟩ | ⟨-, same⟩
  · rw [same, down]
    refine ⟨rfl, rfl, ?_⟩
    dsimp only
    omega
  · rw [same]
    refine ⟨rfl, rfl, ?_⟩
    dsimp only
    omega
  · rw [same, back]
    refine ⟨rfl, rfl, ?_⟩
    dsimp only
    split <;> omega
  · rw [same, tab]
    unfold tabspace
    split <;> refine ⟨rfl, rfl, ?_⟩ <;> dsimp only <;> omega
  · rw [same, on, down]
    split <;> refine ⟨rfl, rfl, ?_⟩ <;> dsimp only <;> omega

theorem writeByte_inside_iff {s : Screen} (valid : s.Valid) (c : Byte) :
    Inside (writeByte bitmaps s c).2 ↔ (Drawn c → GlyphInside s.font c) := by
  have tall := s.font.height_range
  obtain ⟨left, right, top, bottom⟩ := valid
  have size := s.size
  have down : short (s.cursorY + s.font.height) = s.cursorY + s.font.height :=
    short_of_range (by omega) (by omega)
  have back : short (s.cursorX - 8) = s.cursorX - 8 := short_of_range (by omega) (by omega)
  have cursor : Inside (putCursor bitmaps s false) :=
    putCursor_inside bitmaps left (by omega) top (by omega) false
  rcases writeByte_cases bitmaps s c with
    ⟨is, same⟩ | ⟨is, same⟩ | ⟨is, same⟩ | ⟨is, same⟩ | ⟨drawn, same⟩
  · refine iff_of_true ?_ fun drawn => absurd is drawn.1
    rw [same, down, inside_append]
    exact ⟨cursor, putCursor_inside bitmaps (Int.le_refl 0) (show (0 : Int) ≤ 32767 by decide)
      (show 0 ≤ s.cursorY + s.font.height by omega)
      (show s.cursorY + s.font.height ≤ 32767 by omega) true⟩
  · refine iff_of_true ?_ fun drawn => absurd is drawn.2.1
    rw [same]
    apply putCursor_inside
    · exact Int.le_refl 0
    · exact show (0 : Int) ≤ 32767 by decide
    · exact top
    · exact show s.cursorY ≤ 32767 by omega
  · refine iff_of_true ?_ fun drawn => absurd is drawn.2.2.1
    rw [same, back, inside_append]
    refine ⟨cursor, ?_⟩
    apply putCursor_inside
    · dsimp only
      split <;> omega
    · dsimp only
      split <;> omega
    · exact top
    · exact show s.cursorY ≤ 32767 by omega
  · refine iff_of_true ?_ fun drawn => absurd is drawn.2.2.2
    rw [same]
    exact inside_nil
  · rw [same]
    change Inside (drawChar bitmaps s c s.textcolor s.textbgcolor) ↔ _
    rw [drawChar, drawChar2_inside_iff bitmaps left (by omega) top (by omega)]
    exact ⟨fun inside _ => inside, fun inside => inside drawn⟩

theorem tftWrite_valid {s : Screen} (valid : s.Valid) (c : Byte) :
    (tftWrite bitmaps s c).1.Valid := by
  obtain ⟨mode, font, left, right, top, bottom⟩ := writeByte_cursor bitmaps valid c
  have tall := s.font.height_range
  have size := s.size
  unfold tftWrite
  generalize writeByte bitmaps s c = written at *
  have width : written.1.width = s.width := by rw [Screen.width, mode, Screen.width]
  have height : written.1.height = s.height := by rw [Screen.height, mode, Screen.height]
  dsimp only
  split
  next below =>
    have up : short (written.1.cursorY - written.1.font.height) =
        written.1.cursorY - s.font.height := by
      rw [font]
      exact short_of_range (by omega) (by omega)
    rw [up]
    refine ⟨Int.le_refl 0, ?_, ?_, ?_⟩
    · change 0 < written.1.width
      omega
    · change 0 ≤ written.1.cursorY - s.font.height
      omega
    · change written.1.cursorY - s.font.height < written.1.height
      omega
  next above =>
    refine ⟨left, ?_, top, ?_⟩
    · change written.1.cursorX < written.1.width
      omega
    · change written.1.cursorY < written.1.height
      omega

theorem tftWrite_inside_iff {s : Screen} (valid : s.Valid) (c : Byte) :
    Inside (tftWrite bitmaps s c).2 ↔ (Drawn c → GlyphInside s.font c) := by
  rw [← writeByte_inside_iff bitmaps valid c]
  unfold tftWrite
  generalize writeByte bitmaps s c = written
  dsimp only
  split
  · rw [inside_append]
    exact and_iff_left scrollUpGraphics_inside
  · exact Iff.rfl

end Text

theorem clrscr_inside (s : Screen) : Inside (clrscr s).2 := by
  unfold clrscr
  simp only [inside_cons, inside_nil, Access.Inside]
  decide

theorem setTextCursor_valid {s : Screen} (valid : s.Valid) (x y : Word) :
    (setTextCursor s x y).Valid := by
  have size := s.size
  unfold setTextCursor
  split
  · exact valid
  · dsimp only
    generalize pixelXIs : (x.toNat : Int) * s.font.width % 65536 = pixelX
    generalize pixelYIs : (y.toNat : Int) * s.font.height % 65536 = pixelY
    have lowerX : 0 ≤ pixelX := by omega
    have lowerY : 0 ≤ pixelY := by omega
    have columns : 0 ≤ (if pixelX ≥ s.width then 0 else pixelX) ∧
        (if pixelX ≥ s.width then 0 else pixelX) < s.width := by
      split <;> omega
    have rows : 0 ≤ (if pixelY ≥ s.height then 0 else pixelY) ∧
        (if pixelY ≥ s.height then 0 else pixelY) < s.height := by
      split <;> omega
    rw [short_of_range (by omega) (by omega), short_of_range (by omega) (by omega)]
    exact ⟨columns.1, columns.2, rows.1, rows.2⟩

/-! ## Calls -/

/-- The calls that return with every access inside. -/
def Call.Safe (s : Screen) : Call → Prop
  | .pchar c => Drawn c → GlyphInside s.font c
  | .setTextFont fonte => ∃ font, setFont fonte = .found font
  | .drawLine x0 y0 x1 y1 _ => lineEnd (int x0) (int y0) (int x1) (int y1) < 32767
  | .drawVLine _ y h _ => VLineEnds (int y) (int h)
  | .fillCircle x0 y0 r _ => CircleInside s (int x0) (int y0) (int r)
  | .fillCircleHelper x0 y0 r cornername delta _ =>
    HelperEnds (int x0) (int y0) (int r) (int cornername) (int delta)
  | .drawRoundRect x y w h r _ => RoundRectEnds s (int x) (int y) (int w) (int h) (int r)
  | .fillRoundRect x y w h r _ => RoundRectInside s (int x) (int y) (int w) (int h) (int r)
  | .fillRect x y w h _ => RectInside s (int x) (int y) (int w) (int h)
  | _ => True

def Returns {α : Type} (result : Except Fault (α × List Access)) : Prop :=
  ∃ after accesses, result = .ok (after, accesses) ∧ Inside accesses

@[simp] theorem returns_ok {α : Type} {after : α} {accesses : List Access} :
    Returns (.ok (after, accesses)) ↔ Inside accesses := by
  constructor
  · rintro ⟨_, _, same, inside⟩
    cases same
    exact inside
  · exact fun inside => ⟨after, accesses, rfl, inside⟩

theorem returns_ends (s : Screen) (result : Option (List Access)) :
    Returns ((ends result).map (s, ·)) ↔ EndsInside result := by
  cases result with
  | none => simp [ends, Returns, EndsInside, Except.map]
  | some accesses => exact returns_ok.trans endsInside_some.symm

theorem ends_same {s after : Screen} {result : Option (List Access)} {accesses : List Access}
    (ended : (ends result).map (s, ·) = .ok (after, accesses)) : after = s := by
  cases result with
  | none => cases ended
  | some _ => cases ended; rfl

section Calls

variable (bitmaps : Font → Nat → Byte)

theorem exec_returns_iff {s : Screen} (valid : s.Valid) (call : Call) :
    Returns (exec bitmaps s call) ↔ call.Safe s := by
  cases call with
  | setTextCursorVisible v => exact iff_of_true (returns_ok.mpr inside_nil) trivial
  | pchar c => exact returns_ok.trans (tftWrite_inside_iff bitmaps valid c)
  | setTextColor c b => exact iff_of_true (returns_ok.mpr inside_nil) trivial
  | setTextFont fonte =>
    change Returns ((setTextFont s (setFont fonte)).map _) ↔ ∃ font, setFont fonte = .found font
    cases setFont fonte with
    | found font => exact iff_of_true (returns_ok.mpr inside_nil) ⟨font, rfl⟩
    | null => simp [setTextFont, Returns, Except.map]
    | unspecified => simp [setTextFont, Returns, Except.map]
  | clrscr => exact iff_of_true (returns_ok.mpr (clrscr_inside s)) trivial
  | setTextCursorPos x y => exact iff_of_true (returns_ok.mpr inside_nil) trivial
  | setVgaHome => exact iff_of_true (returns_ok.mpr inside_nil) trivial
  | drawLine x0 y0 x1 y1 color =>
    simp only [exec, returns_ends, Call.Safe, drawLine_endsInside_iff]
  | drawVLine x y h color => simp only [exec, returns_ends, Call.Safe, drawVLine_endsInside_iff]
  | drawHLine x y w color =>
    refine iff_of_true (returns_ok.mpr ?_) trivial
    rw [drawHLine_inside_iff]
    exact lineInside_of_nonneg (Int.natCast_nonneg _) (Int.natCast_nonneg _) _
  | drawCircle x0 y0 r color =>
    simp only [exec, returns_ends, Call.Safe, drawCircle_endsInside]
  | drawCircleHelper x0 y0 r cornername color =>
    simp only [exec, returns_ends, Call.Safe, drawCircleHelper_endsInside]
  | fillCircle x0 y0 r color => exact returns_ok.trans (fillCircle_inside_iff s _ _ _ color)
  | fillCircleHelper x0 y0 r cornername delta color =>
    simp only [exec, returns_ends, Call.Safe, fillCircleHelper_endsInside_iff]
  | drawRoundRect x y w h r color =>
    simp only [exec, returns_ends, Call.Safe, drawRoundRect_endsInside_iff]
  | fillRoundRect x y w h r color =>
    exact returns_ok.trans (fillRoundRect_inside_iff s _ _ _ _ _ color)
  | fillRect x y w h color => exact returns_ok.trans (fillRect_inside_iff s _ _ _ _ color)
  | fillTri x0 y0 x1 y1 x2 y2 color => exact iff_of_true (returns_ok.mpr inside_nil) trivial

theorem exec_valid {s after : Screen} {call : Call} {accesses : List Access} (valid : s.Valid)
    (executed : exec bitmaps s call = .ok (after, accesses)) : after.Valid := by
  have unchanged : ∀ {result : Option (List Access)},
      (ends result).map (s, ·) = .ok (after, accesses) → after.Valid := by
    intro result ended
    rw [ends_same ended]
    exact valid
  have size : 0 < s.width ∧ 0 < s.height := by
    have sizes := s.size
    omega
  cases call with
  | setTextCursorVisible v =>
    cases executed
    exact valid.same rfl rfl rfl
  | pchar c =>
    have written : tftWrite bitmaps s c = (after, accesses) := Except.ok.inj executed
    have kept := tftWrite_valid bitmaps valid c
    rwa [written] at kept
  | setTextColor c b =>
    cases executed
    exact valid.same rfl rfl rfl
  | setTextFont fonte =>
    change (setTextFont s (setFont fonte)).map _ = _ at executed
    cases found : setFont fonte with
    | found font =>
      rw [found] at executed
      cases executed
      exact valid.same rfl rfl rfl
    | null =>
      rw [found] at executed
      cases executed
    | unspecified =>
      rw [found] at executed
      cases executed
  | clrscr =>
    cases executed
    exact ⟨Int.le_refl 0, size.1, Int.le_refl 0, size.2⟩
  | setTextCursorPos x y =>
    cases executed
    exact setTextCursor_valid valid x y
  | setVgaHome =>
    cases executed
    have hidden : Screen.Valid { s with visible := false } := valid.same rfl rfl rfl
    exact (setTextCursor_valid hidden 0 0).same rfl rfl rfl
  | drawLine x0 y0 x1 y1 color =>
    rw [exec] at executed
    exact unchanged executed
  | drawVLine x y h color =>
    rw [exec] at executed
    exact unchanged executed
  | drawCircle x0 y0 r color =>
    rw [exec] at executed
    exact unchanged executed
  | drawCircleHelper x0 y0 r cornername color =>
    rw [exec] at executed
    exact unchanged executed
  | fillCircleHelper x0 y0 r cornername delta color =>
    rw [exec] at executed
    exact unchanged executed
  | drawRoundRect x y w h r color =>
    rw [exec] at executed
    exact unchanged executed
  | drawHLine x y w color =>
    cases executed
    exact valid
  | fillCircle x0 y0 r color =>
    cases executed
    exact valid
  | fillRoundRect x y w h r color =>
    cases executed
    exact valid
  | fillRect x y w h color =>
    cases executed
    exact valid
  | fillTri x0 y0 x1 y1 x2 y2 color =>
    cases executed
    exact valid

theorem execAll_cons_returns {s : Screen} {call : Call} {rest : List Call} :
    Returns (execAll bitmaps s (call :: rest)) ↔
      ∃ after accesses, exec bitmaps s call = .ok (after, accesses) ∧ Inside accesses ∧
        Returns (execAll bitmaps after rest) := by
  rw [execAll]
  constructor
  · rintro ⟨last, all, executed, inside⟩
    cases first : exec bitmaps s call with
    | error fault =>
      rw [first] at executed
      cases executed
    | ok result =>
      obtain ⟨after, accesses⟩ := result
      rw [first] at executed
      cases second : execAll bitmaps after rest with
      | error fault =>
        dsimp only [bind, Except.bind] at executed
        rw [second] at executed
        cases executed
      | ok others =>
        dsimp only [bind, Except.bind] at executed
        rw [second] at executed
        cases executed
        rw [inside_append] at inside
        exact ⟨after, accesses, rfl, inside.1, others.1, others.2, second, inside.2⟩
  · rintro ⟨after, accesses, first, inside, last, others, second, othersInside⟩
    refine ⟨last, accesses ++ others, ?_, inside_append.mpr ⟨inside, othersInside⟩⟩
    rw [first]
    dsimp only [bind, Except.bind]
    rw [second]
    rfl

theorem execAll_nil_returns (s : Screen) : Returns (execAll bitmaps s []) :=
  returns_ok.mpr inside_nil

theorem execAll_single_returns {s : Screen} {call : Call} :
    Returns (execAll bitmaps s [call]) ↔ Returns (exec bitmaps s call) := by
  rw [execAll_cons_returns]
  simp only [execAll_nil_returns, and_true]
  rfl

theorem execAll_valid {calls : List Call} :
    ∀ {s after : Screen} {accesses : List Access}, s.Valid →
      execAll bitmaps s calls = .ok (after, accesses) → after.Valid := by
  induction calls with
  | nil =>
    intro s after accesses valid executed
    cases executed
    exact valid
  | cons call rest inductionHypothesis =>
    intro s after accesses valid executed
    rw [execAll] at executed
    cases first : exec bitmaps s call with
    | error fault =>
      rw [first] at executed
      cases executed
    | ok result =>
      rw [first] at executed
      dsimp only [bind, Except.bind] at executed
      cases second : execAll bitmaps result.1 rest with
      | error fault =>
        rw [second] at executed
        cases executed
      | ok others =>
        rw [second] at executed
        cases executed
        exact inductionHypothesis (exec_valid bitmaps valid first) second

/-! ## Packets -/

theorem runCommand_calls (registers : Registers) (command : Command) :
    (runCommand registers command).2 = [] ∨ ∃ call, (runCommand registers command).2 = [call] ∧
      (∀ c, call ≠ .pchar c) ∧ ∀ fonte, call ≠ .setTextFont fonte := by
  cases command <;> first | exact .inl rfl | exact .inr ⟨_, rfl, nofun, nofun⟩

theorem gerenciar_calls (registers : Registers) (packet : Packet) :
    (gerenciar registers packet).2.1 = [] ∨
    (∃ call, (gerenciar registers packet).2.1 = [call] ∧
      (∀ c, call ≠ .pchar c) ∧ ∀ fonte, call ≠ .setTextFont fonte) ∨
    (∃ c, (gerenciar registers packet).2.1 =
      [.setTextCursorVisible false, .pchar c, .setTextCursorVisible true]) ∨
    ∃ fonte, (gerenciar registers packet).2.1 = [.setTextFont fonte, .clrscr] := by
  unfold gerenciar
  cases registerOf packet.reg with
  | none => exact .inl rfl
  | some register =>
    cases register with
    | D_WRITE_SCREEN => exact .inr (.inr (.inl ⟨_, rfl⟩))
    | D_REG_SETFONT => exact .inr (.inr (.inr ⟨_, rfl⟩))
    | D_SET_TXT_COLOR => exact .inr (.inl ⟨_, rfl, nofun, nofun⟩)
    | D_RUN_CMD =>
      dsimp only [writeRegister]
      cases commandOf packet.data with
      | none => exact .inl rfl
      | some command =>
        rcases runCommand_calls registers command with none | one
        · exact .inl none
        · exact .inr (.inl one)
    | _ => exact .inl rfl

def PacketSafe (c : Controller) (packet : Packet) : Prop :=
  ∀ call ∈ (gerenciar c.registers packet).2.1, call.Safe c.screen

theorem packet_returns_iff {c : Controller} (valid : c.screen.Valid) (packet : Packet) :
    Returns (execAll bitmaps c.screen (gerenciar c.registers packet).2.1) ↔
      PacketSafe c packet := by
  unfold PacketSafe
  rcases gerenciar_calls c.registers packet with
    calls | ⟨call, calls, -⟩ | ⟨letter, calls⟩ | ⟨fonte, calls⟩
  · rw [calls]
    exact iff_of_true (execAll_nil_returns bitmaps c.screen) (List.forall_mem_nil _)
  · rw [calls, execAll_single_returns, exec_returns_iff bitmaps valid, List.forall_mem_singleton]
  · rw [calls]
    have hidden : Screen.Valid { c.screen with visible := false } := valid.same rfl rfl rfl
    have first : exec bitmaps c.screen (.setTextCursorVisible false) =
        .ok ({ c.screen with visible := false }, []) := rfl
    have last : ∀ s, Returns (execAll bitmaps s [.setTextCursorVisible true]) := fun s =>
      (execAll_single_returns bitmaps).mpr (returns_ok.mpr inside_nil)
    have written := exec_returns_iff bitmaps hidden (.pchar letter)
    simp only [execAll_cons_returns, first, Except.ok.injEq, Prod.mk.injEq, List.forall_mem_cons]
    constructor
    · rintro ⟨_, _, ⟨rfl, rfl⟩, -, after, accesses, executed, inside, -⟩
      refine ⟨trivial, ?_, trivial, List.forall_mem_nil _⟩
      exact written.mp ⟨after, accesses, executed, inside⟩
    · rintro ⟨-, letterSafe, -⟩
      obtain ⟨after, accesses, executed, inside⟩ := written.mpr letterSafe
      exact ⟨_, _, ⟨rfl, rfl⟩, inside_nil, after, accesses, executed, inside, _, _, rfl,
        inside_nil, execAll_nil_returns bitmaps _⟩
  · rw [calls, execAll_cons_returns]
    have written := exec_returns_iff bitmaps valid (.setTextFont fonte)
    simp only [List.forall_mem_cons]
    rw [← written]
    constructor
    · rintro ⟨after, accesses, executed, inside, -⟩
      exact ⟨⟨after, accesses, executed, inside⟩, trivial, List.forall_mem_nil _⟩
    · rintro ⟨⟨after, accesses, executed, inside⟩, -⟩
      exact ⟨after, accesses, executed, inside,
        (execAll_single_returns bitmaps).mpr (returns_ok.mpr (clrscr_inside after))⟩

/-- The packets of a run, each safe in the state in which it comes. -/
def Guarded : Controller → List Packet → Prop
  | _, [] => True
  | c, packet :: rest => PacketSafe c packet ∧ ∀ next response accesses,
      step bitmaps c packet = .ok (next, response, accesses) → Guarded next rest

/-- A run that answers every packet with one byte, and whose accesses are all inside. -/
def Sound (c : Controller) (packets : List Packet) : Prop :=
  ∃ last responses accesses, run bitmaps c packets = .ok (last, responses, accesses) ∧
    responses.length = packets.length ∧ Inside accesses

theorem step_cases (c : Controller) (packet : Packet) :
    (∃ fault, step bitmaps c packet = .error fault ∧
      execAll bitmaps c.screen (gerenciar c.registers packet).2.1 = .error fault) ∨
    ∃ screen accesses,
      execAll bitmaps c.screen (gerenciar c.registers packet).2.1 = .ok (screen, accesses) ∧
      step bitmaps c packet = .ok (⟨(gerenciar c.registers packet).1, screen⟩,
        (gerenciar c.registers packet).2.2, accesses) := by
  rw [step]
  cases executed : execAll bitmaps c.screen (gerenciar c.registers packet).2.1 with
  | error fault => exact .inl ⟨fault, by dsimp only; rw [executed]; rfl, rfl⟩
  | ok result => exact .inr ⟨result.1, result.2, rfl, by dsimp only; rw [executed]; rfl⟩

/-- A run is sound exactly when every packet is safe in the state that it meets. -/
theorem controller_safe_iff {c : Controller} (packets : List Packet) (valid : c.screen.Valid) :
    Sound bitmaps c packets ↔ Guarded bitmaps c packets := by
  induction packets generalizing c with
  | nil => exact iff_of_true ⟨c, [], [], rfl, rfl, inside_nil⟩ trivial
  | cons packet rest inductionHypothesis =>
    rw [Guarded, ← packet_returns_iff bitmaps valid]
    rcases step_cases bitmaps c packet with
      ⟨fault, stepped, executed⟩ | ⟨screen, accesses, executed, stepped⟩
    · refine iff_of_false ?_ ?_
      · rintro ⟨_, _, _, ran, -⟩
        rw [run, stepped] at ran
        cases ran
      · rintro ⟨⟨_, _, returned, -⟩, -⟩
        rw [executed] at returned
        cases returned
    · have nextValid : screen.Valid := execAll_valid bitmaps valid executed
      obtain ⟨soundGuarded, guardedSound⟩ := inductionHypothesis
        (show (⟨(gerenciar c.registers packet).1, screen⟩ : Controller).screen.Valid from nextValid)
      rw [executed, returns_ok]
      constructor
      · rintro ⟨last, responses, all, ran, answered, inside⟩
        rw [run, stepped] at ran
        dsimp only [bind, Except.bind] at ran
        cases others : run bitmaps ⟨(gerenciar c.registers packet).1, screen⟩ rest with
        | error fault =>
          rw [others] at ran
          cases ran
        | ok result =>
          rw [others] at ran
          cases ran
          rw [inside_append] at inside
          refine ⟨inside.1, fun next response accesses same => ?_⟩
          rw [stepped] at same
          cases same
          exact soundGuarded ⟨result.1, result.2.1, result.2.2, others,
            Nat.succ.inj answered, inside.2⟩
      · rintro ⟨inside, guarded⟩
        obtain ⟨last, responses, others, ran, answered, othersInside⟩ :=
          guardedSound (guarded _ _ _ stepped)
        refine ⟨last, (gerenciar c.registers packet).2.2 :: responses, accesses ++ others, ?_,
          congrArg Nat.succ answered, inside_append.mpr ⟨inside, othersInside⟩⟩
        rw [run, stepped]
        dsimp only [bind, Except.bind]
        rw [ran]
        rfl

end Calls

/-! ## The start -/

section Start

variable (bitmaps : Font → Nat → Byte)

def Leaves (s : Screen) (calls : List Call) (last : Screen) : Prop :=
  ∃ accesses, execAll bitmaps s calls = .ok (last, accesses)

theorem leaves_cons {s t last : Screen} {call : Call} {rest : List Call} {a : List Access}
    (first : exec bitmaps s call = .ok (t, a)) (later : Leaves bitmaps t rest last) :
    Leaves bitmaps s (call :: rest) last := by
  obtain ⟨others, ran⟩ := later
  refine ⟨a ++ others, ?_⟩
  rw [execAll, first]
  dsimp only [bind, Except.bind]
  rw [ran]
  rfl

theorem tftWrite_within {s : Screen} {c : Byte} (drawn : Drawn c) (left : 0 ≤ s.cursorX)
    (right : s.cursorX + 8 < s.width) (above : s.cursorY < s.height) :
    (tftWrite bitmaps s c).1 = { s with cursorX := s.cursorX + 8 } := by
  have size := s.size
  rcases writeByte_cases bitmaps s c with ⟨is, -⟩ | ⟨is, -⟩ | ⟨is, -⟩ | ⟨is, -⟩ | ⟨-, same⟩
  · exact absurd is drawn.1
  · exact absurd is drawn.2.1
  · exact absurd is drawn.2.2.1
  · exact absurd is drawn.2.2.2
  · rw [short_of_range (by omega) (by omega), if_neg (by omega)] at same
    rw [tftWrite, same]
    dsimp only
    rw [if_neg (by change ¬ s.cursorY ≥ s.height; omega)]

theorem tftWrite_newline {s : Screen} (top : 0 ≤ s.cursorY)
    (above : s.cursorY + s.font.height < s.height) :
    (tftWrite bitmaps s 0x0A).1 =
      { s with cursorY := s.cursorY + s.font.height, cursorX := 0 } := by
  have size := s.size
  have down : short (s.cursorY + s.font.height) = s.cursorY + s.font.height :=
    short_of_range (by omega) (by omega)
  have same : (writeByte bitmaps s 0x0A).1 =
      { s with cursorY := short (s.cursorY + s.font.height), cursorX := 0 } := rfl
  rw [down] at same
  rw [tftWrite]
  dsimp only
  rw [same, if_neg (by change ¬ s.cursorY + s.font.height ≥ s.height; omega)]

theorem leaves_char {s last : Screen} {c : Byte} {rest : List Call}
    (later : Leaves bitmaps (tftWrite bitmaps s c).1 rest last) :
    Leaves bitmaps s (.pchar c :: rest) last :=
  leaves_cons bitmaps (a := (tftWrite bitmaps s c).2) rfl later

theorem leaves_text {text : List Byte} {s last : Screen} {rest : List Call}
    (drawn : ∀ c ∈ text, Drawn c) (left : 0 ≤ s.cursorX)
    (right : s.cursorX + 8 * text.length < s.width) (above : s.cursorY < s.height)
    (later : Leaves bitmaps { s with cursorX := s.cursorX + 8 * text.length } rest last) :
    Leaves bitmaps s (text.map .pchar ++ rest) last := by
  induction text generalizing s with
  | nil =>
    rw [List.length_nil, Int.natCast_zero, Int.mul_zero, Int.add_zero] at later
    exact later
  | cons c text inductionHypothesis =>
    rw [List.length_cons, Int.natCast_succ] at right later
    have moved := tftWrite_within bitmaps (drawn c List.mem_cons_self) left (by omega) above
    refine leaves_char bitmaps ?_
    rw [moved]
    refine inductionHypothesis (fun c among => drawn c (List.mem_cons_of_mem _ among)) ?_ ?_ above ?_
    · change 0 ≤ s.cursorX + 8
      omega
    · change s.cursorX + 8 + 8 * (text.length : Int) < s.width
      omega
    · rw [show s.cursorX + 8 * ((text.length : Int) + 1) = s.cursorX + 8 + 8 * text.length by omega]
        at later
      exact later

/-- `initialize_graphos` prints its line and leaves the cursor below it. -/
theorem createScreen_graphos (mode : ScreenMode) :
    Leaves bitmaps (openScreen mode) initializeGraphos (createScreen mode) := by
  have size := (openScreen mode).size
  have line : initializeGraphos = .setTextCursorVisible false ::
      ("graphos INICIALIZED".toList.map fun c => BitVec.ofNat 8 c.toNat).map .pchar ++
        [.pchar 0x0A, .setTextCursorVisible true, .drawLine 20 10 40 10 5] := rfl
  rw [line]
  refine leaves_cons bitmaps (t := { openScreen mode with visible := false }) rfl ?_
  refine leaves_text bitmaps (by decide) (Int.le_refl 0) ?_ ?_ ?_
  · change (0 : Int) + 8 * 19 < (openScreen mode).width
    omega
  · change (0 : Int) < (openScreen mode).height
    omega
  · refine leaves_char bitmaps ?_
    rw [tftWrite_newline bitmaps (Int.le_refl 0) ?_]
    · refine leaves_cons bitmaps (t := createScreen mode) rfl ?_
      obtain ⟨accesses, drawn, -⟩ :=
        (drawLine_endsInside_iff (createScreen mode) 20 10 40 10 5).mpr (by decide)
      refine leaves_cons bitmaps (t := createScreen mode) (a := accesses) ?_ ⟨[], rfl⟩
      rw [exec, show int 20 = 20 from rfl, show int 10 = 10 from rfl, show int 40 = 40 from rfl,
        drawn]
      rfl
    · change (0 : Int) + 16 < (openScreen mode).height
      omega

end Start

/-- The controller after `create_screen`. -/
def Controller.start (mode : ScreenMode) : Controller := ⟨Registers.start, createScreen mode⟩

theorem start_valid (mode : ScreenMode) : (Controller.start mode).screen.Valid := by
  have size := (createScreen mode).size
  refine ⟨Int.le_refl 0, ?_, show (0 : Int) ≤ 16 by decide, ?_⟩
  · change 0 < (createScreen mode).width
    omega
  · change 16 < (createScreen mode).height
    omega

theorem controller_safe_iff_start :
    (Controller.start .MODE_TEXT_80_S).screen.Valid ∧
      (Sound (fun _ _ => 0) (Controller.start .MODE_TEXT_80_S) [⟨0, 0x00, 0x41⟩] ↔
        Guarded (fun _ _ => 0) (Controller.start .MODE_TEXT_80_S) [⟨0, 0x00, 0x41⟩]) :=
  ⟨start_valid _, controller_safe_iff (fun _ _ => 0) _ (start_valid _)⟩

/-- The handler does not come back from the font number 0. -/
theorem font_zero_faults :
    ¬∀ (bitmaps : Font → Nat → Byte) (mode : ScreenMode) (packets : List Packet),
      Sound bitmaps (Controller.start mode) packets := by
  intro sound
  obtain ⟨last, responses, accesses, ran, -⟩ :=
    sound (fun _ _ => 0) .MODE_TEXT_80_S [⟨0, 0x1F, 0x00⟩]
  have faults : (step (fun _ _ => 0) (Controller.start .MODE_TEXT_80_S) ⟨0, 0x1F, 0x00⟩) =
      .error .nullFont := rfl
  rw [run, faults] at ran
  cases ran

end OrionBios.Graphics
