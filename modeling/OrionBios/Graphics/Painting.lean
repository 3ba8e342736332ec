import OrionBios.Graphics.Bounds

/-!
# Painting in one color

A byte of the framebuffer holds two pixels. What accesses of one color do is said by the pixels they
paint, so two drawings are the same if they paint the same pixels.
-/

namespace OrionBios.Graphics

def colorByte (c : BitVec 4) : Byte := c.setWidth 8

/-- The pixels of a frame in their order, of which an odd one is the upper half of its byte. -/
def Frame.pixel (frame : Frame) (place : Int) : BitVec 4 :=
  if place % 2 = 1 then (frame (place / 2)).extractLsb' 4 4
  else (frame (place / 2)).extractLsb' 0 4

def Access.Paints (place : Int) : Access → Prop
  | .nibble index high _ => place = 2 * index + if high then 1 else 0
  | .fill start len _ => 2 * start ≤ place ∧ place < 2 * (start + len)
  | .copy _ _ _ => False
  | .glyph _ _ => False

def Access.Colored (c : BitVec 4) : Access → Prop
  | .nibble _ _ color => color = colorByte c
  | .fill _ _ value => value = colorByte c ||| (colorByte c <<< 4)
  | .copy _ _ _ => False
  | .glyph _ _ => False

def PaintsAt (accesses : List Access) (place : Int) : Prop :=
  ∃ access ∈ accesses, access.Paints place

def Colored (c : BitVec 4) (accesses : List Access) : Prop := ∀ access ∈ accesses, access.Colored c

/-! ## Halves of a byte -/

section Halves

def lowHalf (byte : Byte) : BitVec 4 := byte.extractLsb' 0 4

def highHalf (byte : Byte) : BitVec 4 := byte.extractLsb' 4 4

theorem ext_halves {byte byte' : Byte} (low : lowHalf byte = lowHalf byte')
    (high : highHalf byte = highHalf byte') : byte = byte' := by
  have whole : ∀ byte : Byte, highHalf byte ++ lowHalf byte = byte := fun byte =>
    (BitVec.extractLsb'_append_extractLsb'_eq_extractLsb' rfl).trans BitVec.extractLsb'_eq_self
  rw [← whole byte, ← whole byte', low, high]

theorem lowHalf_colorByte (c : BitVec 4) : lowHalf (colorByte c) = c := by
  revert c
  decide

theorem highHalf_colorByte (c : BitVec 4) : highHalf (colorByte c) = 0 := by
  revert c
  decide

theorem lowHalf_shifted (c : BitVec 4) : lowHalf (colorByte c <<< 4) = 0 := by
  revert c
  decide

theorem highHalf_shifted (c : BitVec 4) : highHalf (colorByte c <<< 4) = c := by
  revert c
  decide

theorem lowHalf_or (byte byte' : Byte) : lowHalf (byte ||| byte') = lowHalf byte ||| lowHalf byte' :=
  BitVec.extractLsb'_or

theorem highHalf_or (byte byte' : Byte) :
    highHalf (byte ||| byte') = highHalf byte ||| highHalf byte' := BitVec.extractLsb'_or

theorem halves_high (byte : Byte) (c : BitVec 4) :
    lowHalf ((byte &&& (0x0F : Byte)) ||| (colorByte c <<< 4)) = lowHalf byte ∧
      highHalf ((byte &&& (0x0F : Byte)) ||| (colorByte c <<< 4)) = c := by
  have low : lowHalf (byte &&& 0x0F) = lowHalf byte &&& BitVec.allOnes 4 := BitVec.extractLsb'_and
  have high : highHalf (byte &&& 0x0F) = highHalf byte &&& 0 := BitVec.extractLsb'_and
  rw [lowHalf_or, highHalf_or, low, high, lowHalf_shifted, highHalf_shifted, BitVec.and_allOnes]
  simp

theorem halves_low (byte : Byte) (c : BitVec 4) :
    lowHalf ((byte &&& (0xF0 : Byte)) ||| colorByte c) = c ∧
      highHalf ((byte &&& (0xF0 : Byte)) ||| colorByte c) = highHalf byte := by
  have low : lowHalf (byte &&& 0xF0) = lowHalf byte &&& 0 := BitVec.extractLsb'_and
  have high : highHalf (byte &&& 0xF0) = highHalf byte &&& BitVec.allOnes 4 :=
    BitVec.extractLsb'_and
  rw [lowHalf_or, highHalf_or, low, high, lowHalf_colorByte, highHalf_colorByte, BitVec.and_allOnes]
  simp

theorem halves_both (c : BitVec 4) :
    lowHalf (colorByte c ||| (colorByte c <<< 4)) = c ∧
      highHalf (colorByte c ||| (colorByte c <<< 4)) = c := by
  rw [lowHalf_or, highHalf_or, lowHalf_colorByte, highHalf_colorByte, lowHalf_shifted,
    highHalf_shifted]
  simp

theorem ne_complement (c : BitVec 4) : c ≠ ~~~c := by
  revert c
  decide

end Halves

/-! ## Pixels -/

variable {frame : Frame} {accesses : List Access} {c : BitVec 4} {place : Int}

theorem pixel_eq (frame : Frame) (place : Int) :
    frame.pixel place =
      if place % 2 = 1 then highHalf (frame (place / 2)) else lowHalf (frame (place / 2)) := rfl

theorem ext_pixels {frame frame' : Frame} (same : ∀ place, frame.pixel place = frame'.pixel place) :
    frame = frame' := by
  funext i
  have low := same (2 * i)
  have high := same (2 * i + 1)
  rw [pixel_eq, pixel_eq, if_neg (by omega), if_neg (by omega)] at low
  rw [pixel_eq, pixel_eq, if_pos (by omega), if_pos (by omega)] at high
  have half : 2 * i / 2 = i := by omega
  have half' : (2 * i + 1) / 2 = i := by omega
  rw [half] at low
  rw [half'] at high
  exact ext_halves low high

theorem pixel_access {access : Access} (colored : access.Colored c) (place : Int) :
    (access.Paints place → (frame.access access).pixel place = c) ∧
      (¬ access.Paints place → (frame.access access).pixel place = frame.pixel place) := by
  cases access with
  | nibble index high color =>
      obtain rfl : color = colorByte c := colored
      rw [pixel_eq, pixel_eq]
      by_cases here : place / 2 = index
      · have stored : frame.access (.nibble index high (colorByte c)) (place / 2) =
            if high then (frame index &&& 0x0F) ||| (colorByte c <<< 4)
            else (frame index &&& 0xF0) ||| colorByte c := by
          rw [here]
          exact if_pos rfl
        rw [stored, here, Access.Paints]
        obtain ⟨lowKept, highNew⟩ := halves_high (frame index) c
        obtain ⟨lowNew, highKept⟩ := halves_low (frame index) c
        cases high with
        | true =>
            rw [if_pos rfl, if_pos rfl]
            by_cases odd : place % 2 = 1
            · rw [if_pos odd, if_pos odd]
              exact ⟨fun _ => highNew, fun other => absurd (by omega) other⟩
            · rw [if_neg odd, if_neg odd]
              exact ⟨fun painted => absurd (by omega) odd, fun _ => lowKept⟩
        | false =>
            rw [if_neg Bool.false_ne_true, if_neg Bool.false_ne_true]
            by_cases odd : place % 2 = 1
            · rw [if_pos odd, if_pos odd]
              exact ⟨fun painted => by omega, fun _ => highKept⟩
            · rw [if_neg odd, if_neg odd]
              exact ⟨fun _ => lowNew, fun other => absurd (by omega) other⟩
      · have kept : frame.access (.nibble index high (colorByte c)) (place / 2) =
            frame (place / 2) := if_neg here
        rw [kept, Access.Paints]
        refine ⟨fun painted => absurd ?_ here, fun _ => rfl⟩
        cases high <;> simp at painted <;> omega
  | fill start len value =>
      obtain rfl : value = colorByte c ||| (colorByte c <<< 4) := colored
      rw [pixel_eq, pixel_eq, Access.Paints]
      obtain ⟨low, high⟩ := halves_both c
      constructor
      · intro painted
        have stored : frame.access (.fill start len (colorByte c ||| (colorByte c <<< 4)))
            (place / 2) = colorByte c ||| (colorByte c <<< 4) := if_pos (by omega)
        rw [stored, low, high, ite_self]
      · intro other
        have kept : frame.access (.fill start len (colorByte c ||| (colorByte c <<< 4)))
            (place / 2) = frame (place / 2) := if_neg (by omega)
        rw [kept]
  | copy dest src len => exact colored.elim
  | glyph font place => exact colored.elim

theorem paints_cons {access : Access} {rest : List Access} :
    PaintsAt (access :: rest) place ↔ access.Paints place ∨ PaintsAt rest place := by
  unfold PaintsAt
  simp

theorem paints_append {first second : List Access} :
    PaintsAt (first ++ second) place ↔ PaintsAt first place ∨ PaintsAt second place := by
  unfold PaintsAt
  simp [or_and_right, exists_or]

theorem paints_flatMap {α : Type} {items : List α} {f : α → List Access} :
    PaintsAt (items.flatMap f) place ↔ ∃ item ∈ items, PaintsAt (f item) place := by
  simp only [PaintsAt, List.mem_flatMap]
  constructor
  · rintro ⟨access, ⟨item, member, inside⟩, painted⟩
    exact ⟨item, member, access, inside, painted⟩
  · rintro ⟨item, member, access, inside, painted⟩
    exact ⟨access, ⟨item, member, inside⟩, painted⟩

@[simp] theorem paints_nil : ¬ PaintsAt [] place := by
  rintro ⟨_, member, -⟩
  cases member

theorem pixel_accesses (colored : Colored c accesses) (place : Int) :
    (PaintsAt accesses place → (frame.accesses accesses).pixel place = c) ∧
      (¬ PaintsAt accesses place → (frame.accesses accesses).pixel place = frame.pixel place) := by
  induction accesses generalizing frame with
  | nil => exact ⟨fun painted => absurd painted paints_nil, fun _ => rfl⟩
  | cons access rest inductionHypothesis =>
      have later : Colored c rest := fun other member =>
        colored other (List.mem_cons_of_mem access member)
      obtain ⟨painted, kept⟩ := @inductionHypothesis (frame.access access) later
      obtain ⟨first, others⟩ :=
        @pixel_access frame c access (colored access List.mem_cons_self) place
      rw [paints_cons]
      by_cases inRest : PaintsAt rest place
      · exact ⟨fun _ => painted inRest, fun neither => absurd (Or.inr inRest) neither⟩
      · constructor
        · rintro (inFirst | inRest')
          · exact (kept inRest).trans (first inFirst)
          · exact absurd inRest' inRest
        · intro neither
          exact (kept inRest).trans (others fun inFirst => neither (Or.inl inFirst))

/-- Two drawings in one color do the same to every frame if they paint the same pixels, and only
then. -/
theorem accesses_eq_iff {accesses accesses' : List Access} (colored : Colored c accesses)
    (colored' : Colored c accesses') :
    (∀ frame : Frame, frame.accesses accesses = frame.accesses accesses') ↔
      ∀ place, PaintsAt accesses place ↔ PaintsAt accesses' place := by
  constructor
  · intro same place
    -- on a ground of another color every pixel that is painted shows
    obtain ⟨painted, kept⟩ := @pixel_accesses (fun _ => colorByte (~~~c) ||| (colorByte (~~~c) <<< 4))
      accesses c colored place
    obtain ⟨painted', kept'⟩ :=
      @pixel_accesses (fun _ => colorByte (~~~c) ||| (colorByte (~~~c) <<< 4)) accesses' c colored' place
    rw [same] at painted kept
    have ground : Frame.pixel (fun _ => colorByte (~~~c) ||| (colorByte (~~~c) <<< 4)) place = ~~~c := by
      obtain ⟨low, high⟩ := halves_both (~~~c)
      rw [pixel_eq, low, high, ite_self]
    rw [ground] at kept kept'
    constructor
    · intro first
      by_contra second
      exact ne_complement c ((painted first).symm.trans (kept' second))
    · intro second
      by_contra first
      exact ne_complement c ((painted' second).symm.trans (kept first))
  · intro same frame
    apply ext_pixels
    intro place
    obtain ⟨painted, kept⟩ := @pixel_accesses frame accesses c colored place
    obtain ⟨painted', kept'⟩ := @pixel_accesses frame accesses' c colored' place
    by_cases first : PaintsAt accesses place
    · rw [painted first, painted' ((same place).mp first)]
    · rw [kept first, kept' fun second => first ((same place).mpr second)]

end OrionBios.Graphics
