import OrionBios.Disks.Volumes

/-!
# What statuses do to a device

A device that is asked, or in the middle of a sector, changes nothing but its phase when it
shows a status. The statuses of a waiting loop are a prefix of the script.
-/

namespace OrionBios.Disks

open Machine

def tellsError (status : Byte) : Bool := !busy status && error status

def asksData (status : Byte) : Bool := !busy status && dataReady status

variable {d e : Device} {status : Byte} {statuses : List Byte} {bytes : List Byte}

namespace Device

def withPhase (phase : Phase) (d : Device) : Device := { d with phase := phase }

theorem withPhase_self {p : Phase} (phase : d.phase = p) : d.withPhase p = d := by
  rw [← phase]
  rfl

/-! ## One status -/

theorem told_busy (still : busy status = true) : d.told status = d := if_pos still

theorem told_failed : (d.withPhase .failed).told status = d.withPhase .failed := ite_self _

theorem told_idle : (d.withPhase .idle).told status = d.withPhase .idle := ite_self _

theorem told_moving :
    (d.withPhase (.moving bytes)).told status =
      d.withPhase (if tellsError status then .failed else .moving bytes) := by
  unfold told tellsError
  cases busy status with
  | true => rfl
  | false =>
    cases error status with
    | true => rfl
    | false => rfl

theorem told_asked :
    (d.withPhase .asked).told status =
      d.withPhase
        (if tellsError status then .failed else if asksData status then .moving [] else .asked) := by
  unfold told tellsError asksData
  cases busy status with
  | true => rfl
  | false =>
    cases error status with
    | true => rfl
    | false =>
      cases dataReady status with
      | true => rfl
      | false => rfl

/-! ## The statuses of a wait -/

def toldAll (statuses : List Byte) (d : Device) : Device :=
  statuses.foldl (fun d status => d.told status) d

@[simp] theorem toldAll_nil : d.toldAll [] = d := rfl

@[simp] theorem toldAll_cons : d.toldAll (status :: statuses) = (d.told status).toldAll statuses :=
  rfl

theorem toldAll_append (first second : List Byte) :
    d.toldAll (first ++ second) = (d.toldAll first).toldAll second := List.foldl_append

theorem toldAll_of_fixed (fixed : ∀ status ∈ statuses, d.told status = d) :
    d.toldAll statuses = d := by
  induction statuses with
  | nil => rfl
  | cons status rest inductionHypothesis =>
    rw [toldAll_cons, fixed status List.mem_cons_self]
    exact inductionHypothesis fun other among => fixed other (List.mem_cons_of_mem _ among)

theorem toldAll_failed : (d.withPhase .failed).toldAll statuses = d.withPhase .failed :=
  toldAll_of_fixed fun _ _ => told_failed

theorem toldAll_idle : (d.withPhase .idle).toldAll statuses = d.withPhase .idle :=
  toldAll_of_fixed fun _ _ => told_idle

theorem toldAll_busy (still : ∀ status ∈ statuses, busy status = true) : d.toldAll statuses = d :=
  toldAll_of_fixed fun status among => told_busy (still status among)

theorem toldAll_moving :
    (d.withPhase (.moving bytes)).toldAll statuses =
      d.withPhase (if statuses.any tellsError then .failed else .moving bytes) := by
  induction statuses with
  | nil => rfl
  | cons status rest inductionHypothesis =>
    rw [toldAll_cons, told_moving, List.any_cons]
    cases tellsError status with
    | true => exact toldAll_failed
    | false => exact inductionHypothesis

theorem toldAll_asked :
    (d.withPhase .asked).toldAll statuses =
      d.withPhase
        (if statuses.any tellsError then .failed
          else if statuses.any asksData then .moving [] else .asked) := by
  induction statuses with
  | nil => rfl
  | cons status rest inductionHypothesis =>
    rw [toldAll_cons, told_asked, List.any_cons, List.any_cons]
    cases tellsError status with
    | true => exact toldAll_failed
    | false =>
      cases asksData status with
      | true => exact toldAll_moving
      | false => exact inductionHypothesis

/-! ## The script apart -/

/-- What a device keeps while it is read, told and sent bytes. -/
structure Frame (before after : Device) : Prop where
  present : after.present = before.present
  taskFile : after.taskFile = before.taskFile
  orders : after.orders = before.orders
  medium : after.medium = before.medium
  identity : after.identity = before.identity

theorem frame_refl (d : Device) : Frame d d := ⟨rfl, rfl, rfl, rfl, rfl⟩

theorem Frame.trans {f : Device} (first : Frame d e) (second : Frame e f) : Frame d f where
  present := second.present.trans first.present
  taskFile := second.taskFile.trans first.taskFile
  orders := second.orders.trans first.orders
  medium := second.medium.trans first.medium
  identity := second.identity.trans first.identity

theorem told_frame (status : Byte) : Frame d (d.told status) := by
  obtain ⟨present, taskFile, phase, ⟨operation, lba, sectors⟩, orders, saved, medium, identity,
    script⟩ := d
  unfold told
  cases busy status with
  | true => exact frame_refl _
  | false =>
    cases phase with
    | idle => exact frame_refl _
    | failed => exact frame_refl _
    | asked => cases dataReady status <;> cases error status <;> exact ⟨rfl, rfl, rfl, rfl, rfl⟩
    | moving bytes => cases error status <;> exact ⟨rfl, rfl, rfl, rfl, rfl⟩
    | complete sector =>
      by_cases last : sectors = 1
      · cases operation <;> cases dataReady status <;> cases error status <;>
          simp only [last, if_true] <;> exact ⟨rfl, rfl, rfl, rfl, rfl⟩
      · cases operation <;> cases dataReady status <;> cases error status <;>
          simp only [last, if_false] <;> exact ⟨rfl, rfl, rfl, rfl, rfl⟩
    | accepted => cases operation <;> cases error status <;> exact ⟨rfl, rfl, rfl, rfl, rfl⟩

def withScript (script : List Byte) (d : Device) : Device := { d with script := script }

theorem told_withScript (script : List Byte) :
    (d.withScript script).told status = (d.told status).withScript script := by
  obtain ⟨present, taskFile, phase, ⟨operation, lba, sectors⟩, orders, saved, medium, identity,
    own⟩ := d
  unfold told withScript
  generalize busy status = still
  generalize dataReady status = ready
  generalize error status = broken
  cases still with
  | true => rfl
  | false =>
    cases phase with
    | idle => rfl
    | failed => rfl
    | asked => cases ready <;> cases broken <;> rfl
    | moving bytes => cases broken <;> rfl
    | complete sector =>
      by_cases last : sectors = 1
      · cases operation <;> cases ready <;> cases broken <;> simp only [last, if_true] <;> rfl
      · cases operation <;> cases ready <;> cases broken <;> simp only [last, if_false] <;> rfl
    | accepted => cases operation <;> cases broken <;> rfl

theorem toldAll_withScript (script : List Byte) :
    (d.withScript script).toldAll statuses = (d.toldAll statuses).withScript script := by
  induction statuses generalizing d with
  | nil => rfl
  | cons status rest inductionHypothesis =>
    rw [toldAll_cons, told_withScript]
    exact inductionHypothesis

@[simp] theorem withScript_withScript (first second : List Byte) :
    (d.withScript first).withScript second = d.withScript second := rfl

end Device

/-! ## Waiting loops -/

/-- What a waiting loop reads: statuses that do not end it, and then one that does. -/
def IsWait (stop : Byte → Bool) (read : List Byte) : Prop :=
  ∃ skipped last, read = skipped ++ [last] ∧ (∀ other ∈ skipped, stop other = false) ∧
    stop last = true

variable {stop : Byte → Bool} {read left : List Byte} {last : Byte}

theorem readStatus_cons {rest : List Byte} (script : d.script = status :: rest) :
    readStatus d = (some status, (d.told status).withScript rest) := by
  unfold readStatus
  rw [script]
  exact congrArg (Prod.mk (some status)) (Device.told_withScript rest)

theorem readStatus_nil (script : d.script = []) : readStatus d = (none, d) := by
  unfold readStatus
  rw [script]

theorem readStatus_returns :
    readStatus d = (some status, e) ↔
      ∃ left, d.script = status :: left ∧ e = (d.told status).withScript left := by
  cases script : d.script with
  | nil =>
    rw [readStatus_nil script]
    constructor
    · intro returns
      exact absurd (congrArg Prod.fst returns) nofun
    · rintro ⟨left, impossible, -⟩
      exact absurd impossible nofun
  | cons first rest =>
    rw [readStatus_cons script]
    constructor
    · intro returns
      cases returns
      exact ⟨rest, rfl, rfl⟩
    · rintro ⟨left, same, rfl⟩
      cases same
      rfl

theorem waitLoop_cons (script : List Byte) :
    waitLoop stop (status :: script) d =
      if stop status then (some status, (d.told status).withScript script)
      else waitLoop stop script ((d.told status).withScript script) := by
  have shown : ({ d with script := script } : Device).told status =
      (d.told status).withScript script := Device.told_withScript script
  rw [← shown]
  rfl

theorem waitFor_eq (d : Device) :
    waitFor stop d =
      (readStatus >>= fun status => if stop status then pure status else waitFor stop) d := by
  have waits : waitFor stop d = waitLoop stop d.script d := rfl
  cases script : d.script with
  | nil =>
    have same : d.withScript [] = d := by
      rw [← script]
      rfl
    rw [Program.bind_of_waits (readStatus_nil script), waits, script]
    exact congrArg (Prod.mk none) same
  | cons status rest =>
    rw [Program.bind_of_returns (readStatus_cons script), waits, script, waitLoop_cons]
    split
    · rfl
    · rfl

theorem waitLoop_returns (script : List Byte) :
    waitLoop stop script d = (some last, e) ↔
      ∃ skipped left, script = skipped ++ last :: left ∧
        (∀ other ∈ skipped, stop other = false) ∧ stop last = true ∧
        e = (d.toldAll (skipped ++ [last])).withScript left := by
  induction script generalizing d with
  | nil =>
    constructor
    · intro returns
      exact absurd (congrArg Prod.fst returns) nofun
    · rintro ⟨skipped, left, impossible, -⟩
      exact absurd impossible.symm (List.append_ne_nil_of_right_ne_nil _ (List.cons_ne_nil _ _))
  | cons status rest inductionHypothesis =>
    rw [waitLoop_cons]
    cases ends : stop status with
    | true =>
      rw [if_pos rfl]
      constructor
      · intro returns
        cases returns
        exact ⟨[], rest, rfl, nofun, ends, rfl⟩
      · rintro ⟨skipped, left, same, others, -, rfl⟩
        cases skipped with
        | nil =>
          cases same
          rfl
        | cons first skipped =>
          cases same
          exact absurd (ends.symm.trans (others _ List.mem_cons_self)) nofun
    | false =>
      rw [if_neg Bool.false_ne_true, inductionHypothesis]
      constructor
      · rintro ⟨skipped, left, rfl, others, isLast, rfl⟩
        refine ⟨status :: skipped, left, rfl, ?_, isLast, ?_⟩
        · intro other among
          rcases List.mem_cons.mp among with rfl | among
          · exact ends
          · exact others other among
        · rw [Device.toldAll_withScript]
          rfl
      · rintro ⟨skipped, left, same, others, isLast, rfl⟩
        cases skipped with
        | nil =>
          cases same
          exact absurd (ends.symm.trans isLast) nofun
        | cons first skipped =>
          cases same
          refine ⟨skipped, left, rfl, fun other among => ?_, isLast, ?_⟩
          · exact others other (List.mem_cons_of_mem _ among)
          · rw [Device.toldAll_withScript]
            rfl

theorem waitFor_returns :
    waitFor stop d = (some last, e) ↔
      ∃ skipped left, d.script = skipped ++ last :: left ∧
        (∀ other ∈ skipped, stop other = false) ∧ stop last = true ∧
        e = (d.toldAll (skipped ++ [last])).withScript left :=
  waitLoop_returns d.script

theorem wait_returns :
    (waitFor stop >>= fun _ => pure ()) d = (some (), e) ↔
      ∃ read left, d.script = read ++ left ∧ IsWait stop read ∧
        e = (d.toldAll read).withScript left := by
  rw [Program.bind_returns]
  constructor
  · rintro ⟨last, t, returns, done⟩
    cases done
    obtain ⟨skipped, left, script, others, isLast, same⟩ := waitFor_returns.mp returns
    refine ⟨skipped ++ [last], left, ?_, ⟨skipped, last, rfl, others, isLast⟩, same⟩
    rw [script, List.append_assoc]
    rfl
  · rintro ⟨read, left, script, ⟨skipped, last, rfl, others, isLast⟩, rfl⟩
    rw [List.append_assoc] at script
    exact ⟨last, _, waitFor_returns.mpr ⟨skipped, left, script, others, isLast, rfl⟩, rfl⟩

def notBusy (status : Byte) : Bool := !busy status

theorem ataWait_returns :
    ataWait d = (some (), e) ↔
      ∃ read left, d.script = read ++ left ∧ IsWait notBusy read ∧
        e = (d.toldAll read).withScript left := wait_returns

theorem ataWaitForData_returns :
    ataWaitForData d = (some (), e) ↔
      ∃ read left, d.script = read ++ left ∧ IsWait dataReady read ∧
        e = (d.toldAll read).withScript left := wait_returns

/-! ## Loops that give up -/

/-- A loop of so many rounds that each look at one status. -/
def pollLoop {Value : Type} (classify : Byte → Option Value) (giveUp : Value) :
    Nat → Program Device Value
  | 0 => pure giveUp
  | rounds + 1 => do
    let status ← readStatus
    match classify status with
    | some value => pure value
    | none => pollLoop classify giveUp rounds

variable {Value : Type} {classify : Byte → Option Value} {giveUp value : Value} {rounds : Nat}

/-- What the loop read before it returned. -/
def Polled (classify : Byte → Option Value) (giveUp : Value) (rounds : Nat) (read : List Byte)
    (value : Value) : Prop :=
  (read.length = rounds ∧ (∀ status ∈ read, classify status = none) ∧ value = giveUp) ∨
    ∃ skipped last, read = skipped ++ [last] ∧ skipped.length < rounds ∧
      (∀ status ∈ skipped, classify status = none) ∧ classify last = some value

theorem polled_last (found : classify status = some value) (rounds : Nat) :
    Polled classify giveUp (rounds + 1) [status] value :=
  .inr ⟨[], status, rfl, Nat.succ_pos rounds, nofun, found⟩

theorem Polled.cons (goesOn : classify status = none)
    (polled : Polled classify giveUp rounds read value) :
    Polled classify giveUp (rounds + 1) (status :: read) value := by
  have all {statuses : List Byte} (others : ∀ other ∈ statuses, classify other = none) :
      ∀ other ∈ status :: statuses, classify other = none := by
    intro other among
    rcases List.mem_cons.mp among with rfl | among
    · exact goesOn
    · exact others other among
  rcases polled with ⟨length, others, same⟩ | ⟨skipped, last, rfl, less, others, found⟩
  · exact .inl ⟨congrArg Nat.succ length, all others, same⟩
  · exact .inr ⟨status :: skipped, last, rfl, Nat.succ_lt_succ less, all others, found⟩

theorem Polled.uncons (polled : Polled classify giveUp (rounds + 1) (status :: read) value) :
    (classify status = some value ∧ read = []) ∨
      (classify status = none ∧ Polled classify giveUp rounds read value) := by
  rcases polled with ⟨length, others, same⟩ | ⟨skipped, last, isRead, less, others, found⟩
  · refine .inr ⟨others status List.mem_cons_self, .inl ⟨Nat.succ.inj length, ?_, same⟩⟩
    exact fun other among => others other (List.mem_cons_of_mem _ among)
  · cases skipped with
    | nil =>
      cases isRead
      exact .inl ⟨found, rfl⟩
    | cons first skipped =>
      cases isRead
      refine .inr ⟨others _ List.mem_cons_self, .inr ⟨skipped, last, rfl, ?_, ?_, found⟩⟩
      · exact Nat.lt_of_succ_lt_succ less
      · exact fun other among => others other (List.mem_cons_of_mem _ among)

theorem pollLoop_returns :
    pollLoop classify giveUp rounds d = (some value, e) ↔
      ∃ read left, d.script = read ++ left ∧ Polled classify giveUp rounds read value ∧
        e = (d.toldAll read).withScript left := by
  induction rounds generalizing d with
  | zero =>
    constructor
    · intro returns
      cases returns
      exact ⟨[], _, rfl, .inl ⟨rfl, nofun, rfl⟩, rfl⟩
    · rintro ⟨read, left, script, polled, rfl⟩
      rcases polled with ⟨length, -, rfl⟩ | ⟨skipped, last, -, less, -⟩
      · cases List.length_eq_zero_iff.mp length
        have own : left = _ := script.symm
        rw [own]
        rfl
      · exact absurd less (Nat.not_lt_zero _)
  | succ rounds inductionHypothesis =>
    unfold pollLoop
    rw [Program.bind_returns]
    constructor
    · rintro ⟨status, t, first, others⟩
      obtain ⟨left, script, rfl⟩ := readStatus_returns.mp first
      cases found : classify status with
      | some value' =>
        rw [found] at others
        cases others
        exact ⟨[status], left, script, polled_last found rounds, rfl⟩
      | none =>
        rw [found] at others
        obtain ⟨read, left', script', polled, rfl⟩ := inductionHypothesis.mp others
        have own : left = read ++ left' := script'
        refine ⟨status :: read, left', ?_, polled.cons found, ?_⟩
        · rw [script, own]
          rfl
        · rw [Device.toldAll_withScript]
          rfl
    · rintro ⟨read, left, script, polled, rfl⟩
      cases read with
      | nil =>
        rcases polled with ⟨impossible, -⟩ | ⟨skipped, last, impossible, -⟩
        · exact absurd impossible nofun
        · exact absurd impossible.symm (List.append_ne_nil_of_right_ne_nil _ (List.cons_ne_nil _ _))
      | cons status read =>
        refine ⟨status, _, readStatus_returns.mpr ⟨read ++ left, script, rfl⟩, ?_⟩
        rcases polled.uncons with ⟨found, rfl⟩ | ⟨goesOn, polled'⟩
        · rw [found]
          rfl
        · rw [goesOn]
          refine inductionHypothesis.mpr ⟨read, left, rfl, polled', ?_⟩
          rw [Device.toldAll_withScript]
          rfl

end OrionBios.Disks
