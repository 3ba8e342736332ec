import OrionBios.SectorPath.Request

/-!
# The driver asks for a sector

Between the accesses of the 68k the disk takes turns of the session on the card. The driver's
writes of its registers and of its command are the writes of a session, under every schedule.
-/

namespace OrionBios.SectorPath

open Machine (Stable Establishes await establishes_await establishes_pure)
open PicoIde Transition

variable {r : Request} {host : Host} {b c : Board} {turn : DiskTurn}

/-! ## Turns of the disk -/

def DiskTurn.cardTurn : DiskTurn → CardTurn
  | .writeIsr => .writeIsr
  | .readIsr => .readIsr
  | .dmaBIsr => .dmaBIsr
  | .dmaCIsr => .dmaCIsr
  | .core1 answer => .core1 answer

/-- The board with its card, as a session has them. -/
abbrev Board.at (b : Board) (host : Host) : OnCard := { session := b.session host, sd := b.sd }

theorem cardStep_of_diskStep (taken : diskStep b turn = some c) (writes : Bool)
    (data : Nat → Word) (host : Host) :
    ∃ host', cardStep writes data (b.at host) turn.cardTurn = some (c.at host') ∧
      LawfulTurn (b.at host) turn.cardTurn ∧ (host' = host ∨ turn = .readIsr) := by
  cases turn with
  | writeIsr | dmaBIsr | dmaCIsr =>
      obtain ⟨disk, recorded, rfl⟩ := Option.map_eq_some_iff.mp taken
      refine ⟨host, ?_, trivial, .inl rfl⟩
      simp only [DiskTurn.cardTurn, cardStep, CardTurn.turn, sessionStep, recorded, Option.map_some]
  | readIsr =>
      simp only [diskStep] at taken
      split at taken
      · next raw waiting =>
        obtain ⟨middle, served, rfl⟩ := Option.map_eq_some_iff.mp taken
        obtain ⟨disk, recorded, rfl⟩ := Option.map_eq_some_iff.mp served
        refine ⟨seeStatus (readRegister raw b.firmware).1, ?_, trivial, .inr rfl⟩
        simp only [DiskTurn.cardTurn, cardStep, CardTurn.turn, sessionStep, recorded,
          Option.map_some, show (b.session host).access = _ from waiting]
      · cases taken
  | core1 answer =>
      simp only [diskStep] at taken
      split at taken
      · next lawful =>
        cases taken
        exact ⟨host, rfl, lawful, .inl rfl⟩
      · cases taken

/-- What a turn does. -/
inductive Stepped (b : Board) : DiskTurn → Board → Prop where
  | writeIsr (raw : Raw) (waiting : b.access = some (.write raw)) :
      Stepped b .writeIsr
        { b with
          disk :=
            { bus := { firmware := writeRegister raw b.firmware, access := none }
              ledger := recordWrite raw b.firmware b.ledger } }
  | readIsr (raw : Raw) (waiting : b.access = some (.read raw)) :
      Stepped b .readIsr
        { b with
          disk :=
            { bus := { firmware := (readRegister raw b.firmware).2, access := none }
              ledger := b.ledger }
          answer := (readRegister raw b.firmware).1 }
  | dmaBIsr (pending : b.firmware.ints0 = true) :
      Stepped b .dmaBIsr
        { b with
          disk :=
            { bus := { b.disk.bus with firmware := dmaBIrqHandler b.firmware }
              ledger := b.ledger } }
  | dmaCIsr (pending : b.firmware.ints1 = true) :
      Stepped b .dmaCIsr
        { b with
          disk :=
            { bus := { b.disk.bus with firmware := dmaCIrqHandler b.firmware }
              ledger := b.ledger } }
  | core1 (answer : Answer) (lawful : LawfulTurn b.onCard (.core1 answer)) :
      Stepped b (.core1 answer)
        { b with
          disk :=
            { bus := { b.disk.bus with firmware := (core1OnCard answer b.firmware b.sd).1 }
              ledger := recordCore1 b.firmware b.ledger (driverReturns answer b.firmware b.sd) }
          sd := (core1OnCard answer b.firmware b.sd).2 }

theorem stepped_of_diskStep (taken : diskStep b turn = some c) : Stepped b turn c := by
  cases turn with
  | writeIsr =>
      obtain ⟨disk, recorded, rfl⟩ := Option.map_eq_some_iff.mp taken
      obtain ⟨bus, stepped, rfl⟩ := Option.map_eq_some_iff.mp recorded
      simp only [busStep] at stepped
      split at stepped
      · next raw waiting =>
        cases stepped
        simp only [record, waiting]
        exact .writeIsr raw waiting
      · cases stepped
  | readIsr =>
      simp only [diskStep] at taken
      split at taken
      · next raw waiting =>
        obtain ⟨middle, served, rfl⟩ := Option.map_eq_some_iff.mp taken
        obtain ⟨disk, recorded, rfl⟩ := Option.map_eq_some_iff.mp served
        obtain ⟨bus, stepped, rfl⟩ := Option.map_eq_some_iff.mp recorded
        simp only [busStep, show b.disk.bus.access = _ from waiting, Option.some.injEq] at stepped
        subst stepped
        exact .readIsr raw waiting
      · cases taken
  | dmaBIsr =>
      obtain ⟨disk, recorded, rfl⟩ := Option.map_eq_some_iff.mp taken
      obtain ⟨bus, stepped, rfl⟩ := Option.map_eq_some_iff.mp recorded
      obtain ⟨firmware, enabled, rfl⟩ := Option.map_eq_some_iff.mp stepped
      simp only [eventStep] at enabled
      split at enabled
      · next pending =>
        cases enabled
        exact .dmaBIsr pending
      · cases enabled
  | dmaCIsr =>
      obtain ⟨disk, recorded, rfl⟩ := Option.map_eq_some_iff.mp taken
      obtain ⟨bus, stepped, rfl⟩ := Option.map_eq_some_iff.mp recorded
      obtain ⟨firmware, enabled, rfl⟩ := Option.map_eq_some_iff.mp stepped
      simp only [eventStep] at enabled
      split at enabled
      · next pending =>
        cases enabled
        exact .dmaCIsr pending
      · cases enabled
  | core1 answer =>
      simp only [diskStep] at taken
      split at taken
      · next lawful =>
        cases taken
        exact .core1 answer lawful
      · cases taken

theorem Stepped.access (stepped : Stepped b turn c) : c.access = b.access ∨ c.access = none := by
  cases stepped with
  | writeIsr raw waiting | readIsr raw waiting => exact .inr rfl
  | dmaBIsr pending | dmaCIsr pending | core1 answer lawful => exact .inl rfl

/-- The words that the 68k has moved since the command stay the same, but for a new command. -/
theorem Stepped.words (stepped : Stepped b turn c) :
    c.ledger.taken = b.ledger.taken ∧ c.ledger.given = b.ledger.given ∨
      (∃ raw, b.access = some (.write raw)) ∧ c.ledger.taken = [] ∧ c.ledger.given = [] := by
  cases stepped with
  | readIsr raw waiting | dmaBIsr pending | dmaCIsr pending => exact .inl ⟨rfl, rfl⟩
  | writeIsr raw waiting =>
      by_cases isCommand : rawAddr raw = IDE_REG_STATUS_CMD
      · refine .inr ⟨⟨raw, waiting⟩, ?_⟩
        show (recordWrite raw b.firmware b.ledger).taken = [] ∧ _
        rw [recordWrite, if_pos isCommand]
        exact ⟨rfl, rfl⟩
      · refine .inl ?_
        show (recordWrite raw b.firmware b.ledger).taken = _ ∧ _
        rw [recordWrite, if_neg isCommand]
        exact ⟨rfl, rfl⟩
  | core1 answer lawful =>
      obtain ⟨begun, failures, frame⟩ := recordCore1_frame b.firmware b.ledger
        (driverReturns answer b.firmware b.sd)
      refine .inl ?_
      show (recordCore1 b.firmware b.ledger _).taken = _ ∧ _
      rw [frame]
      exact ⟨rfl, rfl⟩

/-! ## Before the command -/

/-- The 68k writes its registers and the command, or has just done so. -/
structure Request.Setting (r : Request) (host : Host) (b : Board) : Prop where
  underway : Underway r.inserted r.taskfile r.command r.writes r.data (b.session host)
  placed : Placed r.writes r.order r.sd (b.at host)
  unread : ∀ raw, b.access ≠ some (.read raw)
  unmoved : b.ledger.taken = [] ∧ b.ledger.given = []

/-- What a request needs of the disk and its card. -/
structure Request.Sound (r : Request) : Prop where
  idle : Idle r.start
  small : r.sector.toNat < 2 ^ 28
  unwrapped : Unwrapped r.sd r.sector

theorem Request.Sound.ends (sound : r.Sound) : EndsUnwrapped r.sd r.order :=
  r.order_ends sound.small sound.unwrapped

theorem setting_resting (sound : r.Sound) :
    r.Setting (.setup (r.taskfile ++ [r.command])) (restingBoard r.start r.sd) where
  underway := .inl (preparing_initial ⟨sound.idle.work, sound.idle.dir, sound.idle.status⟩)
  placed := by
    have initial : Placed r.writes r.order r.sd (initialOnCard r.start r.sd [] 0) :=
      placed_initial r.start sound.idle r.sd
    exact initial.congr ⟨rfl, rfl⟩ rfl rfl
  unread _ := (Option.some_ne_none _).symm
  unmoved := ⟨rfl, rfl⟩

theorem Request.Setting.step {t : OnCard} {turn : CardTurn} (sound : r.Sound)
    (setting : r.Setting host b) (lawful : LawfulTurn (b.at host) turn)
    (taken : cardStep r.writes r.data (b.at host) turn = some t) :
    Underway r.inserted r.taskfile r.command r.writes r.data t.session ∧
      Placed r.writes r.order r.sd t := by
  obtain ⟨stepped, placed⟩ := setting.placed.step setting.underway sound.ends lawful taken
  exact ⟨setting.underway.step (lbaWrites_registers r.sector) r.command_isCommand r.command_code
    stepped, placed⟩

theorem Request.Setting.others (sound : r.Sound) (setting : r.Setting host b)
    (taken : diskStep b turn = some c) : r.Setting host c := by
  obtain ⟨host', stepped, lawful, stands⟩ := cardStep_of_diskStep taken r.writes r.data host
  obtain ⟨underway, placed⟩ := setting.step sound lawful stepped
  have turned := stepped_of_diskStep taken
  have same : host' = host := by
    refine stands.resolve_right fun reads => ?_
    subst reads
    cases turned with
    | readIsr raw waiting => exact setting.unread raw waiting
  rw [same] at underway placed
  exact
    { underway := underway
      placed := placed
      unread := fun raw => by
        rcases turned.access with kept | ended
        · rw [kept]
          exact setting.unread raw
        · rw [ended]
          exact (Option.some_ne_none _).symm
      unmoved := by
        rcases turned.words with ⟨words, given⟩ | ⟨_, none⟩
        · rw [words, given]
          exact setting.unmoved
        · exact none }

/-- The program of the 68k behind a write. -/
def setupHost (rest : List Raw) : Host := if rest = [] then .poll else .setup rest

theorem Request.Setting.beginWrite {raw : Raw} {rest : List Raw} (sound : r.Sound)
    (setting : r.Setting (.setup (raw :: rest)) b)
    (taken : beginAccess (.write raw) b = some ((), c)) : r.Setting (setupHost rest) c := by
  obtain ⟨next, began, same⟩ := Option.map_eq_some_iff.mp taken
  cases same
  obtain ⟨disk, recorded, rfl⟩ := Option.map_eq_some_iff.mp began
  have stepped : cardStep r.writes r.data (b.at (.setup (raw :: rest))) .host =
      some (({ b with disk := disk } : Board).at (setupHost rest)) := by
    simp only [cardStep, CardTurn.turn, sessionStep, hostStep, recorded, Option.map_some, setupHost]
  have lawful : LawfulTurn (b.at (.setup (raw :: rest))) .host := trivial
  obtain ⟨underway, placed⟩ := setting.step sound lawful stepped
  obtain ⟨stepped, ledger⟩ := recordedStep_eq_some.mp recorded
  simp only [busStep] at stepped
  split at stepped
  · have bus := Option.some.inj stepped
    exact
      { underway := underway
        placed := placed
        unread := fun raw' => by
          rw [Board.access, ← bus]
          exact fun same => Access.noConfusion (Option.some.inj same)
        unmoved := by
          rw [Board.ledger, ledger]
          exact setting.unmoved }
  · cases stepped

theorem establishes_writeRaw (sound : r.Sound) (raw : Raw) (rest : List Raw) :
    Establishes (r.Setting (.setup (raw :: rest))) (writeRaw raw) fun _ b =>
      r.Setting (setupHost rest) b ∧ b.access = none := by
  have others : ∀ host, Stable diskStep (r.Setting host) := fun host b turn c setting taken =>
    setting.others sound taken
  have began : Establishes (r.Setting (.setup (raw :: rest)))
      (await diskStep (beginAccess (.write raw))) fun _ => r.Setting (setupHost rest) :=
    establishes_await (others _) fun b _ c setting taken => setting.beginWrite sound taken
  have ended : Establishes (r.Setting (setupHost rest)) (await diskStep endAccess) fun _ b =>
      r.Setting (setupHost rest) b ∧ b.access = none := by
    refine establishes_await (others _) fun b value c setting taken => ?_
    unfold endAccess at taken
    split at taken
    · next free =>
      cases taken
      exact ⟨setting, free⟩
    · cases taken
  exact (began.bind fun _ => ended).bind fun _ => establishes_pure fun b holds => holds

theorem establishes_next (sound : r.Sound) (raw : Raw) (rest : List Raw) :
    Establishes (fun b => r.Setting (.setup (raw :: rest)) b ∧ b.access = none) (writeRaw raw)
      fun _ b => r.Setting (setupHost rest) b ∧ b.access = none :=
  (establishes_writeRaw sound raw rest).weaken (fun _ both => both.1) fun _ _ => id

/-- `picoide_set_lba`. -/
theorem establishes_setLba (sound : r.Sound) :
    Establishes (r.Setting (.setup (r.taskfile ++ [r.command])))
      (Disks.picoideSetLba port r.sector) fun _ b =>
        r.Setting (.setup [r.command]) b ∧ b.access = none := by
  have next := establishes_next sound
  refine (establishes_writeRaw sound _ _).bind fun _ => ?_
  refine (next _ _).bind fun _ => ?_
  refine (next _ _).bind fun _ => ?_
  exact (next _ _).bind fun _ => next _ _

theorem establishes_command (sound : r.Sound) :
    Establishes (fun b => r.Setting (.setup [r.command]) b ∧ b.access = none)
      (port.writeCommand (commandOf r.writes)) fun _ b => r.Setting .poll b ∧ b.access = none :=
  establishes_next sound r.command []

end OrionBios.SectorPath
