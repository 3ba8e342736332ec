import OrionBios.Disks.MideWrite
import Mathlib.Tactic.SplitIfs

/-!
# Writing a sector to the picoIDE

The driver asks for the data before it sends them and looks at the status that ends the sector.
-/

namespace OrionBios.Disks

open Machine Device

variable {d e : Device} {sector : BitVec 32} {buffer : Sector} {rounds : Nat} {read : List Byte}

/-! ## The waits -/

/-- How `picoide_wait_drq` takes a status. -/
def drqOf (status : Byte) : Option Nat :=
  if busy status then none
  else if error status then some 0
  else if dataReady status then some 1
  else none

/-- How `picoide_wait_idle` takes a status. -/
def idleOf (status : Byte) : Option Nat :=
  if busy status || dataReady status then none else some (if error status then 0 else 1)

theorem picoideWaitDrqLoop_eq (rounds : Nat) :
    picoideWaitDrqLoop devicePort rounds = pollLoop drqOf 0 rounds := by
  induction rounds with
  | zero => rfl
  | succ rounds inductionHypothesis =>
    unfold picoideWaitDrqLoop pollLoop
    refine congrArg (readStatus >>= ·) (funext fun status => ?_)
    rw [inductionHypothesis]
    unfold drqOf
    split_ifs <;> rfl

theorem picoideWaitIdleLoop_eq (rounds : Nat) :
    picoideWaitIdleLoop devicePort rounds = pollLoop idleOf 0 rounds := by
  induction rounds with
  | zero => rfl
  | succ rounds inductionHypothesis =>
    unfold picoideWaitIdleLoop pollLoop
    refine congrArg (readStatus >>= ·) (funext fun status => ?_)
    rw [inductionHypothesis]
    unfold idleOf
    split_ifs <;> rfl

theorem drqOf_none {status : Byte} (goesOn : drqOf status = none) :
    tellsError status = false ∧ asksData status = false := by
  unfold drqOf at goesOn
  unfold tellsError asksData
  cases still : busy status with
  | true => exact ⟨rfl, rfl⟩
  | false =>
    rw [still] at goesOn
    cases broken : error status with
    | true =>
      rw [broken] at goesOn
      exact absurd goesOn nofun
    | false =>
      rw [broken] at goesOn
      cases ready : dataReady status with
      | true =>
        rw [ready] at goesOn
        exact absurd goesOn nofun
      | false => exact ⟨rfl, rfl⟩

theorem drqOf_one {status : Byte} (found : drqOf status = some 1) :
    tellsError status = false ∧ asksData status = true := by
  unfold drqOf at found
  unfold tellsError asksData
  cases still : busy status with
  | true =>
    rw [still] at found
    exact absurd found nofun
  | false =>
    rw [still] at found
    cases broken : error status with
    | true =>
      rw [broken] at found
      exact absurd found nofun
    | false =>
      rw [broken] at found
      cases ready : dataReady status with
      | true => exact ⟨rfl, rfl⟩
      | false =>
        rw [ready] at found
        exact absurd found nofun

/-- A device that `picoide_wait_drq` found ready takes the sector. -/
theorem toldAll_drq (polled : Polled drqOf 0 rounds read 1) :
    (d.withPhase .asked).toldAll read = d.withPhase (.moving []) := by
  rcases polled with ⟨-, -, impossible⟩ | ⟨skipped, last, rfl, -, others, found⟩
  · exact absurd impossible nofun
  · rw [toldAll_asked, List.any_append, List.any_append]
    have silent : skipped.any tellsError = false :=
      List.any_eq_false.mpr fun status among =>
        Bool.eq_false_iff.mp (drqOf_none (others status among)).1
    rw [silent, List.any_cons, (drqOf_one found).1, List.any_nil, List.any_cons,
      (drqOf_one found).2, Bool.true_or, Bool.or_true]
    rfl

theorem idleOf_none {status : Byte} (goesOn : idleOf status = none) :
    (busy status || dataReady status) = true := by
  unfold idleOf at goesOn
  by_contra clear
  rw [if_neg clear] at goesOn
  exact absurd goesOn nofun

theorem idleOf_one {status : Byte} (found : idleOf status = some 1) :
    (busy status || dataReady status) = false ∧ error status = false := by
  unfold idleOf at found
  cases waits : busy status || dataReady status with
  | true =>
    rw [waits] at found
    exact absurd found nofun
  | false =>
    rw [waits] at found
    cases broken : error status with
    | true =>
      rw [broken] at found
      exact absurd found nofun
    | false => exact ⟨rfl, rfl⟩

/-- A device that `picoide_wait_idle` found done holds the sector. -/
theorem toldAll_idle_one (write : d.order.operation = .write) (one : d.order.sectors = 1)
    (polled : Polled idleOf 0 rounds read 1) :
    (d.withPhase (.complete buffer)).toldAll read =
      (d.withSaved ((d.order.lba, buffer) :: d.saved)).withPhase .accepted := by
  rcases polled with ⟨-, -, impossible⟩ | ⟨skipped, last, rfl, -, others, found⟩
  · exact absurd impossible nofun
  · have stays : (d.withPhase (.complete buffer)).toldAll skipped = d.withPhase (.complete buffer) := by
      refine toldAll_of_fixed fun status among => ?_
      rw [told_complete write one, if_pos (idleOf_none (others status among))]
    rw [toldAll_append, stays, toldAll_cons, told_complete write one, (idleOf_one found).1,
      (idleOf_one found).2]
    rfl

/-! ## The words -/

/-- Bytes that are sent without a look at the status. -/
def unwatched (bytes : List Byte) : List Sent := bytes.map fun byte => ([], byte)

theorem unwatched_whole (bytes : List Byte) : (unwatched bytes).map Prod.snd = bytes := by
  unfold unwatched
  rw [List.map_map]
  exact List.map_id bytes

theorem unwatched_silent (bytes : List Byte) : tellErrors (unwatched bytes) = false := by
  unfold tellErrors unwatched
  refine List.any_eq_false.mpr fun next among => ?_
  obtain ⟨byte, -, rfl⟩ := List.mem_map.mp among
  exact Bool.false_ne_true

theorem writeDataWord_append (first second : Byte) :
    writeDataWord (first ++ second) d = (some (), (d.take first).take second) := by
  have upper : (first ++ second : Word).extractLsb' 8 8 = first := BitVec.extractLsb'_append_eq_left
  have lower : (first ++ second : Word).extractLsb' 0 8 = second :=
    BitVec.extractLsb'_append_eq_right
  show (some (), (d.take ((first ++ second : Word).extractLsb' 8 8)).take
    ((first ++ second : Word).extractLsb' 0 8)) = _
  rw [upper, lower]

theorem writeWords_wordsOf (bytes : List Byte) (even : bytes.length % 2 = 0) (d : Device) :
    writeWords devicePort (wordsOf bytes) d = (some (), d.takeAll (unwatched bytes)) := by
  induction bytes using wordsOf.induct generalizing d with
  | case1 first second rest inductionHypothesis =>
    have even' : rest.length % 2 = 0 := by
      rw [List.length_cons, List.length_cons] at even
      omega
    have sent : devicePort.writeData16 (first ++ second) d =
        (some (), (d.take first).take second) := writeDataWord_append first second
    show (devicePort.writeData16 (first ++ second) >>= fun _ => writeWords devicePort (wordsOf rest)) d = _
    rw [Program.bind_of_returns sent, inductionHypothesis even']
    rfl
  | case2 bytes short =>
    match bytes, short with
    | [], _ => rfl
    | [byte], _ => exact absurd even nofun
    | first :: second :: rest, short => exact absurd rfl (short first second rest)

theorem writeWords_sector (write : d.order.operation = .write) :
    writeWords devicePort (wordsOf buffer.val) (d.withPhase (.moving [])) =
      (some (), d.withPhase (.complete buffer)) := by
  have length : (unwatched buffer.val).length = 512 := by
    unfold unwatched
    rw [List.length_map, buffer.property]
  rw [writeWords_wordsOf buffer.val (by rw [buffer.property])]
  have none : ([] : List Byte).length = 0 := rfl
  rw [takeAll_moving write (by omega) (by omega), unwatched_silent, if_neg Bool.false_ne_true,
    unwatched_whole, List.nil_append, progress_of_full buffer.property]

/-! ## The whole function -/

theorem drq_value {value : Nat} (polled : Polled drqOf 0 rounds read value) :
    value = 0 ∨ value = 1 := by
  rcases polled with ⟨-, -, same⟩ | ⟨skipped, last, -, -, -, found⟩
  · exact .inl same
  · unfold drqOf at found
    split_ifs at found
    · exact .inl (Option.some.inj found).symm
    · exact .inr (Option.some.inj found).symm

theorem idle_value {value : Nat} (polled : Polled idleOf 0 rounds read value) :
    value = 0 ∨ value = 1 := by
  rcases polled with ⟨-, -, same⟩ | ⟨skipped, last, -, -, -, found⟩
  · exact .inl same
  · unfold idleOf at found
    split_ifs at found
    · exact .inl (Option.some.inj found).symm
    · exact .inr (Option.some.inj found).symm

theorem picoideWaitDrq_returns {value : Nat} :
    picoideWaitDrq devicePort d = (some value, e) ↔
      ∃ read left, d.script = read ++ left ∧ Polled drqOf 0 PICOIDE_TIMEOUT_LOOPS read value ∧
        e = (d.toldAll read).withScript left := by
  unfold picoideWaitDrq
  rw [picoideWaitDrqLoop_eq]
  exact pollLoop_returns

theorem picoideWaitIdle_returns {value : Nat} :
    picoideWaitIdle devicePort d = (some value, e) ↔
      ∃ read left, d.script = read ++ left ∧ Polled idleOf 0 PICOIDE_TIMEOUT_LOOPS read value ∧
        e = (d.toldAll read).withScript left := by
  unfold picoideWaitIdle
  rw [picoideWaitIdleLoop_eq]
  exact pollLoop_returns

/-- `picoide_write_sector` from the wait after its command on. -/
def picoideSend (words : List Word) : Program Device Nat := do
  let ready ← picoideWaitDrq devicePort
  if ready = 0 then do
    picoideReport devicePort
    pure 0
  else do
    writeWords devicePort words
    let idle ← picoideWaitIdle devicePort
    if idle = 0 then do
      picoideReport devicePort
      pure 0
    else
      pure 512

theorem picoideWriteSector_eq (words : List Word) (d : Device) :
    picoideWriteSector devicePort sector words d = picoideSend words (d.asked .write sector) := by
  rw [← begin_write]
  rfl

/-- How a write ends on a device that was given its command. -/
inductive WriteEnds (buffer : Sector) (d e : Device) : Nat → Prop
  | notAsked (read left : List Byte) (script : d.script = read ++ left)
      (drq : Polled drqOf 0 PICOIDE_TIMEOUT_LOOPS read 0)
      (report : picoideReport devicePort ((d.toldAll read).withScript left) = (some (), e)) :
      WriteEnds buffer d e 0
  | notDone (read read' left : List Byte) (script : d.script = read ++ (read' ++ left))
      (drq : Polled drqOf 0 PICOIDE_TIMEOUT_LOOPS read 1)
      (idle : Polled idleOf 0 PICOIDE_TIMEOUT_LOOPS read' 0)
      (report : picoideReport devicePort
        (((d.withPhase (.complete buffer)).toldAll read').withScript left) = (some (), e)) :
      WriteEnds buffer d e 0
  | done (read read' left : List Byte) (script : d.script = read ++ (read' ++ left))
      (drq : Polled drqOf 0 PICOIDE_TIMEOUT_LOOPS read 1)
      (idle : Polled idleOf 0 PICOIDE_TIMEOUT_LOOPS read' 1)
      (same : e = ((d.withPhase (.complete buffer)).toldAll read').withScript left) :
      WriteEnds buffer d e 512

theorem picoideSend_ends {result : Nat} (write : d.order.operation = .write)
    (returns : picoideSend (wordsOf buffer.val) (d.withPhase .asked) = (some result, e)) :
    WriteEnds buffer (d.withPhase .asked) e result := by
  obtain ⟨ready, t, first, returns⟩ := Program.bind_returns.mp returns
  obtain ⟨read, left, script, drq, rfl⟩ := picoideWaitDrq_returns.mp first
  rcases drq_value drq with rfl | rfl
  · obtain ⟨_, u, report, returns⟩ := Program.bind_returns.mp returns
    cases returns
    exact .notAsked read left script drq report
  · rw [if_neg Nat.one_ne_zero, toldAll_drq drq] at returns
    obtain ⟨_, u, second, returns⟩ := Program.bind_returns.mp returns
    have sent : writeWords devicePort (wordsOf buffer.val) ((d.withScript left).withPhase (.moving [])) =
        (some (), (d.withScript left).withPhase (.complete buffer)) := writeWords_sector write
    have own : u = (d.withScript left).withPhase (.complete buffer) :=
      (Prod.mk.inj (second.symm.trans sent)).2
    rw [own] at returns
    obtain ⟨idle, v, third, returns⟩ := Program.bind_returns.mp returns
    obtain ⟨read', left', script', polled, rfl⟩ := picoideWaitIdle_returns.mp third
    have whole : (d.withPhase .asked).script = read ++ (read' ++ left') := by
      have own : left = read' ++ left' := script'
      rw [script, own]
    have ended : (((d.withScript left).withPhase (.complete buffer)).toldAll read').withScript left' =
        ((d.withPhase (.complete buffer)).toldAll read').withScript left' := by
      show (((d.withPhase (.complete buffer)).withScript left).toldAll read').withScript left' = _
      rw [toldAll_withScript, withScript_withScript]
    rw [ended] at returns
    rcases idle_value polled with rfl | rfl
    · obtain ⟨_, w, report, returns⟩ := Program.bind_returns.mp returns
      cases returns
      exact .notDone read read' left' whole drq polled report
    · rw [if_neg Nat.one_ne_zero] at returns
      cases returns
      exact .done read read' left' whole drq polled rfl

theorem picoideWriteSector_ends {result : Nat}
    (returns : picoideWriteSector devicePort sector (wordsOf buffer.val) d = (some result, e)) :
    WriteEnds buffer (d.asked .write sector) e result := by
  rw [picoideWriteSector_eq] at returns
  exact picoideSend_ends (d := (d.addressed sector).ordered ⟨.write, lbaOf sector, 1⟩) rfl returns

theorem picoideWriteSector_result {result : Nat}
    (returns : picoideWriteSector devicePort sector (wordsOf buffer.val) d = (some result, e)) :
    result = 0 ∨ result = 512 := by
  cases picoideWriteSector_ends returns with
  | notAsked => exact .inl rfl
  | notDone => exact .inl rfl
  | done => exact .inr rfl

theorem picoideWriteSector_accepted
    (returns : picoideWriteSector devicePort sector (wordsOf buffer.val) d = (some 512, e)) :
    e.phase = .accepted ∧ e.saved = (lbaOf sector, buffer) :: d.saved := by
  cases picoideWriteSector_ends returns with
  | done read read' left script drq idle same =>
    have ended : ((d.asked .write sector).withPhase (.complete buffer)).toldAll read' = _ :=
      toldAll_idle_one (d := d.asked .write sector) rfl rfl idle
    rw [same, ended]
    exact ⟨rfl, rfl⟩

end OrionBios.Disks
