import OrionBios.Disks.Statuses

/-!
# Sectors on the way to the device

A sector that goes to the device with statuses between its bytes arrives if the device asked for
it before the first byte and told of no error. A byte that the device did not ask for cannot be
made good.
-/

namespace OrionBios.Disks

open Machine

variable {d : Device} {byte : Byte} {bytes : List Byte} {sector : Sector}

/-- How far a sector has come. -/
def progress (bytes : List Byte) : Phase :=
  if full : bytes.length = 512 then .complete ⟨bytes, full⟩ else .moving bytes

theorem progress_of_full (full : bytes.length = 512) : progress bytes = .complete ⟨bytes, full⟩ :=
  dif_pos full

theorem progress_of_less (less : bytes.length < 512) : progress bytes = .moving bytes :=
  dif_neg (Nat.ne_of_lt less)

namespace Device

theorem moved_eq : d.moved byte bytes = d.withPhase (progress (bytes ++ [byte])) := by
  unfold moved progress
  split
  · rfl
  · rfl

theorem take_moving (write : d.order.operation = .write) :
    (d.withPhase (.moving bytes)).take byte = d.withPhase (progress (bytes ++ [byte])) := by
  have order : (d.withPhase (.moving bytes)).order.operation = .write := write
  unfold take
  rw [order]
  exact moved_eq

theorem take_asked : (d.withPhase .asked).take byte = d.withPhase .asked := rfl

theorem take_failed : (d.withPhase .failed).take byte = d.withPhase .failed := rfl

/-- A byte and the statuses that were read before it. -/
abbrev Sent := List Byte × Byte

/-- Each byte is sent after some statuses were read. -/
def takeAll (sent : List Sent) (d : Device) : Device :=
  sent.foldl (fun d next => (d.toldAll next.1).take next.2) d

@[simp] theorem takeAll_nil : d.takeAll [] = d := rfl

@[simp] theorem takeAll_cons (next : Sent) (rest : List Sent) :
    d.takeAll (next :: rest) = ((d.toldAll next.1).take next.2).takeAll rest := rfl

theorem takeAll_failed (sent : List Sent) :
    (d.withPhase .failed).takeAll sent = d.withPhase .failed := by
  induction sent with
  | nil => rfl
  | cons next rest inductionHypothesis =>
    rw [takeAll_cons, toldAll_failed, take_failed]
    exact inductionHypothesis

def tellErrors (sent : List Sent) : Bool := sent.any fun next => next.1.any tellsError

theorem tellErrors_cons (next : Sent) (rest : List Sent) :
    tellErrors (next :: rest) = (next.1.any tellsError || tellErrors rest) := rfl

theorem takeAll_moving {sent : List Sent} (write : d.order.operation = .write)
    (less : bytes.length < 512) (fits : bytes.length + sent.length ≤ 512) :
    (d.withPhase (.moving bytes)).takeAll sent =
      d.withPhase (if tellErrors sent then .failed else progress (bytes ++ sent.map Prod.snd)) := by
  induction sent generalizing bytes with
  | nil =>
    rw [takeAll_nil, List.map_nil, List.append_nil, progress_of_less less]
    rfl
  | cons next rest inductionHypothesis =>
    have grown : (bytes ++ [next.2]).length = bytes.length + 1 := List.length_append
    rw [List.length_cons] at fits
    rw [takeAll_cons, toldAll_moving, tellErrors_cons]
    cases next.1.any tellsError with
    | true => exact takeAll_failed rest
    | false =>
      have appended := List.append_cons bytes next.2 (rest.map Prod.snd)
      rw [if_neg Bool.false_ne_true, take_moving write, List.map_cons, appended]
      cases rest with
      | nil => rw [takeAll_nil, List.map_nil, List.append_nil]; rfl
      | cons second rest =>
        rw [List.length_cons] at fits
        rw [progress_of_less (by omega : (bytes ++ [next.2]).length < 512)]
        exact inductionHypothesis (by omega) (by rw [List.length_cons]; omega)

/-! ## Sectors that do not arrive -/

/-- A device that was not sent the whole sector that it asked for; `left` bytes are on the way. -/
def Late (left : Nat) (p : Phase) : Prop :=
  p = .failed ∨ p = .asked ∧ left < 512 ∨ ∃ bytes, p = .moving bytes ∧ bytes.length + left < 512

theorem toldAll_late {left : Nat} {p : Phase} (statuses : List Byte) (late : Late left p) :
    ∃ q, Late left q ∧ (d.withPhase p).toldAll statuses = d.withPhase q := by
  rcases late with rfl | ⟨rfl, less⟩ | ⟨bytes, rfl, less⟩
  · exact ⟨.failed, .inl rfl, toldAll_failed⟩
  · refine ⟨_, ?_, toldAll_asked⟩
    split
    · exact .inl rfl
    · split
      · exact .inr (.inr ⟨[], rfl, by rw [List.length_nil]; omega⟩)
      · exact .inr (.inl ⟨rfl, less⟩)
  · refine ⟨_, ?_, toldAll_moving⟩
    split
    · exact .inl rfl
    · exact .inr (.inr ⟨bytes, rfl, less⟩)

theorem take_late {left : Nat} {p : Phase} (byte : Byte) (write : d.order.operation = .write)
    (late : Late (left + 1) p) : ∃ q, Late left q ∧ (d.withPhase p).take byte = d.withPhase q := by
  rcases late with rfl | ⟨rfl, less⟩ | ⟨bytes, rfl, less⟩
  · exact ⟨.failed, .inl rfl, take_failed⟩
  · exact ⟨.asked, .inr (.inl ⟨rfl, by omega⟩), take_asked⟩
  · have grown : (bytes ++ [byte]).length = bytes.length + 1 := List.length_append
    refine ⟨.moving (bytes ++ [byte]), .inr (.inr ⟨_, rfl, by omega⟩), ?_⟩
    rw [take_moving write, progress_of_less (by omega)]

theorem takeAll_late {p : Phase} (sent : List Sent) (write : d.order.operation = .write)
    (late : Late sent.length p) :
    ∃ q, Late 0 q ∧ (d.withPhase p).takeAll sent = d.withPhase q := by
  induction sent generalizing p with
  | nil => exact ⟨p, late, rfl⟩
  | cons next rest inductionHypothesis =>
    obtain ⟨q, lateQ, told⟩ := toldAll_late (d := d) next.1 late
    obtain ⟨r, lateR, taken⟩ := take_late next.2 write lateQ
    obtain ⟨s, lateS, same⟩ := inductionHypothesis lateR
    refine ⟨s, lateS, ?_⟩
    rw [takeAll_cons, told, taken, same]

/-! ## A whole sector -/

/-- The device asked for the sector before its first byte and told of no error until the last. -/
def Arrives (sent : List Sent) : Prop :=
  tellErrors sent = false ∧ ∃ first rest, sent = first :: rest ∧ first.1.any asksData = true

theorem takeAll_asked {sent : List Sent} (write : d.order.operation = .write)
    (whole : sent.map Prod.snd = sector.val) (arrives : Arrives sent) :
    (d.withPhase .asked).takeAll sent = d.withPhase (.complete sector) := by
  obtain ⟨silent, first, rest, rfl, asks⟩ := arrives
  rw [tellErrors_cons, Bool.or_eq_false_iff] at silent
  have length := congrArg List.length whole
  rw [List.length_map, sector.property, List.length_cons] at length
  have one : [first.2].length = 1 := rfl
  have bytes : [first.2] ++ rest.map Prod.snd = sector.val := whole
  rw [takeAll_cons, toldAll_asked, if_neg (Bool.eq_false_iff.mp silent.1), if_pos asks,
    take_moving write, List.nil_append, progress_of_less (by omega : [first.2].length < 512),
    takeAll_moving write (by omega) (by omega), if_neg (Bool.eq_false_iff.mp silent.2), bytes,
    progress_of_full sector.property]

theorem takeAll_not_arrives {sent : List Sent} (write : d.order.operation = .write)
    (whole : sent.map Prod.snd = sector.val) (lost : ¬ Arrives sent) :
    ∃ p, Late 0 p ∧ (d.withPhase .asked).takeAll sent = d.withPhase p := by
  have length := congrArg List.length whole
  rw [List.length_map, sector.property] at length
  cases sent with
  | nil => exact absurd length nofun
  | cons first rest =>
    have one : [first.2].length = 1 := rfl
    rw [List.length_cons] at length
    rw [takeAll_cons, toldAll_asked]
    cases tells : first.1.any tellsError with
    | true => exact ⟨.failed, .inl rfl, takeAll_failed rest⟩
    | false =>
      rw [if_neg Bool.false_ne_true]
      cases asks : first.1.any asksData with
      | true =>
        rw [if_pos rfl, take_moving write, List.nil_append,
          progress_of_less (by omega : [first.2].length < 512),
          takeAll_moving write (by omega) (by omega)]
        cases silent : tellErrors rest with
        | true => exact ⟨.failed, .inl rfl, rfl⟩
        | false =>
          refine absurd ⟨?_, first, rest, rfl, asks⟩ lost
          rw [tellErrors_cons, tells, silent]
          rfl
      | false =>
        rw [if_neg Bool.false_ne_true, take_asked]
        exact takeAll_late rest write (.inr (.inl ⟨rfl, by omega⟩))

/-! ## The end of a command -/

def withSaved (saved : List (Lba × Sector)) (d : Device) : Device := { d with saved := saved }

theorem told_complete (write : d.order.operation = .write) (one : d.order.sectors = 1)
    (status : Byte) :
    (d.withPhase (.complete sector)).told status =
      if busy status || dataReady status then d.withPhase (.complete sector)
      else if error status then d.withPhase .failed
      else (d.withSaved ((d.order.lba, sector) :: d.saved)).withPhase .accepted := by
  obtain ⟨present, taskFile, phase, ⟨operation, lba, sectors⟩, orders, saved, medium, identity,
    script⟩ := d
  cases write
  cases one
  unfold told
  cases busy status with
  | true => rfl
  | false =>
    cases dataReady status with
    | true => rfl
    | false =>
      cases error status with
      | true => rfl
      | false => rfl

theorem told_accepted (write : d.order.operation = .write) (status : Byte) :
    (d.withPhase .accepted).told status =
      if tellsError status then (d.withSaved d.saved.tail).withPhase .failed
      else d.withPhase .accepted := by
  obtain ⟨present, taskFile, phase, ⟨operation, lba, sectors⟩, orders, saved, medium, identity,
    script⟩ := d
  cases write
  unfold told tellsError
  cases busy status with
  | true => rfl
  | false =>
    cases error status with
    | true => rfl
    | false => rfl

/-- What became of a sector: the device holds it, or what it held before. -/
structure Outcome (before after : Device) (sector : Sector) (good : Prop) : Prop where
  accepted : good → after.phase = .accepted ∧ after.saved = (before.order.lba, sector) :: before.saved
  refused : ¬ good → after.phase ≠ .accepted ∧ after.saved = before.saved

/-- Of two statuses after the last byte, the first without the busy bit, one ends the sector and
neither tells of an error then. -/
def EndsWell (ended last : Byte) : Prop :=
  if dataReady ended then busy last = false ∧ dataReady last = false ∧ error last = false
  else error ended = false ∧ tellsError last = false

theorem told_end {ended last : Byte} (write : d.order.operation = .write)
    (one : d.order.sectors = 1) (clear : busy ended = false) :
    Outcome d (((d.withPhase (.complete sector)).told ended).told last) sector
      (EndsWell ended last) := by
  unfold EndsWell
  rw [told_complete write one, clear, Bool.false_or]
  cases ready : dataReady ended with
  | true =>
    rw [if_pos rfl, if_pos rfl, told_complete write one]
    cases stillBusy : busy last with
    | true => exact ⟨fun good => absurd good.1 nofun, fun _ => ⟨nofun, rfl⟩⟩
    | false =>
      cases wants : dataReady last with
      | true => exact ⟨fun good => absurd good.2.1 nofun, fun _ => ⟨nofun, rfl⟩⟩
      | false =>
        cases broken : error last with
        | true => exact ⟨fun good => absurd good.2.2 nofun, fun _ => ⟨nofun, rfl⟩⟩
        | false => exact ⟨fun _ => ⟨rfl, rfl⟩, fun bad => absurd ⟨rfl, rfl, rfl⟩ bad⟩
  | false =>
    rw [if_neg Bool.false_ne_true, if_neg Bool.false_ne_true]
    cases broken : error ended with
    | true =>
      rw [if_pos rfl]
      refine ⟨fun good => absurd good.1 nofun, fun _ => ?_⟩
      rw [told_failed]
      exact ⟨nofun, rfl⟩
    | false =>
      rw [if_neg Bool.false_ne_true,
        told_accepted (d := d.withSaved ((d.order.lba, sector) :: d.saved)) write]
      cases late : tellsError last with
      | true => exact ⟨fun good => absurd good.2 nofun, fun _ => ⟨nofun, rfl⟩⟩
      | false => exact ⟨fun _ => ⟨rfl, rfl⟩, fun bad => absurd ⟨rfl, rfl⟩ bad⟩

theorem late_ne_accepted {left : Nat} {p : Phase} (late : Late left p) : p ≠ .accepted := by
  rcases late with rfl | ⟨rfl, -⟩ | ⟨bytes, rfl, -⟩
  · exact nofun
  · exact nofun
  · exact nofun

theorem sent_outcome {sent : List Sent} {ends : List Byte} {ended last : Byte}
    (write : d.order.operation = .write) (one : d.order.sectors = 1)
    (whole : sent.map Prod.snd = sector.val) (wait : ∀ status ∈ ends, busy status = true)
    (clear : busy ended = false) :
    Outcome d (((d.withPhase .asked).takeAll sent).toldAll (ends ++ [ended, last])) sector
      (Arrives sent ∧ EndsWell ended last) := by
  rw [toldAll_append]
  by_cases arrives : Arrives sent
  · rw [takeAll_asked write whole arrives, toldAll_busy wait]
    have outcome : Outcome d _ sector (EndsWell ended last) := told_end write one clear
    exact ⟨fun good => outcome.accepted good.2, fun bad =>
      outcome.refused fun well => bad ⟨arrives, well⟩⟩
  · obtain ⟨p, late, taken⟩ := takeAll_not_arrives write whole arrives
    obtain ⟨q, late', told⟩ := toldAll_late (d := d) ends late
    obtain ⟨r, late'', told'⟩ := toldAll_late (d := d) [ended, last] late'
    rw [taken, told, told']
    exact ⟨fun good => absurd good.1 arrives, fun _ => ⟨late_ne_accepted late'', rfl⟩⟩

/-! ## The script apart -/

theorem take_withScript (script : List Byte) :
    (d.withScript script).take byte = (d.take byte).withScript script := by
  obtain ⟨present, taskFile, phase, ⟨operation, lba, sectors⟩, orders, saved, medium, identity,
    own⟩ := d
  cases phase with
  | moving bytes =>
    cases operation with
    | write =>
      show moved byte bytes _ = (moved byte bytes _).withScript script
      rw [moved_eq, moved_eq]
      rfl
    | read => rfl
    | identify => rfl
    | other => rfl
  | idle => rfl
  | asked => rfl
  | complete sector => rfl
  | accepted => rfl
  | failed => rfl

theorem takeAll_withScript (script : List Byte) (sent : List Sent) :
    (d.withScript script).takeAll sent = (d.takeAll sent).withScript script := by
  induction sent generalizing d with
  | nil => rfl
  | cons next rest inductionHypothesis =>
    rw [takeAll_cons, toldAll_withScript, take_withScript]
    exact inductionHypothesis

end Device

end OrionBios.Disks
