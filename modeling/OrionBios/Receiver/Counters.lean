import OrionBios.Receiver.StateMachine

/-!
# The counters of the receiver

The announced size comes from the peer. `w5100_getter_loop` subtracts the counted bytes
from it, stores at the counted offset, and asks whether all bytes are there only after it
has taken a block. This module states what the counters keep to at each poll, and for
which announced sizes they do.
-/

namespace OrionBios.Receiver

open Transition Buffers

/-- The offsets of `BUFFER_ARQUIVO` one call writes: the header, or the block behind the
counted bytes. -/
def storedBy (status : Byte) (s : State) : List Nat :=
  if status = SOCK_ESTABLISHED then
    match s.estado with
    | .header => if 21 ≤ s.chip.getRxSize then List.range 21 else []
    | .payload =>
      if 0 < s.chip.getRxSize then
        List.range' s.bytesRecebidos.toNat (bloco s s.chip.getRxSize).toNat
      else []
  else []

/-- The call reaches the subtraction and takes a block. -/
def TakesBlock (status : Byte) (s : State) : Prop :=
  status = SOCK_ESTABLISHED ∧ s.estado = .payload ∧ s.chip.queue ≠ []

/-- What one call of `w5100_getter_loop` keeps to. -/
structure CallRule (status : Byte) (s : State) : Prop where
  unwrapped : TakesBlock status s →
    ((s.tamanhoTotal - s.bytesRecebidos).toNat : Int) =
      s.tamanhoTotal.toNat - s.bytesRecebidos.toNat
  block : TakesBlock status s → bloco s s.chip.getRxSize ≤ s.chip.getRxSize
  stored : ∀ offset ∈ storedBy status s,
    offset < (getterLoop status s).2.tamanhoTotal.toNat
  kept : ∀ offset, offset ∉ storedBy status s →
    (getterLoop status s).2.bufferArquivo offset = s.bufferArquivo offset

/-- What the counters keep to at a poll. A transfer of which everything announced has arrived
needs no further byte: the next poll on the connection acknowledges it. -/
structure CounterRule (s : State) (poll : Poll) (t : State) : Prop where
  called : ∀ chip, s.chip.deliver poll.arrived = some chip →
    CallRule poll.status { s with chip := chip }
  counted : t.estado = .payload → t.bytesRecebidos ≤ t.tamanhoTotal
  acknowledged : t.estado = .payload →
    t.tamanhoTotal.toNat ≤ t.bytesRecebidos.toNat + t.chip.queue.length →
      ∃ u, pollOnce t emptyPoll = some (0, u) ∧ u.chip.sent = t.chip.sent ++ arqLido

/-- A header that is read announces more than its own 21 bytes, or just these with a further
byte already waiting behind it. -/
def LongAnnounced (s : State) (poll : Poll) : Prop :=
  let waiting := s.chip.queue ++ poll.arrived
  poll.status = SOCK_ESTABLISHED → s.estado = .header → 21 ≤ waiting.length →
    waiting.length ≤ 2048 →
      21 < (decodeTamanho waiting).toNat ∨
        (decodeTamanho waiting).toNat = 21 ∧ 21 < waiting.length

/-- Between two polls: a transfer has begun, and it is not complete except when it ends with its
header and a further byte waits. -/
def Incomplete (s : State) : Prop :=
  s.estado = .payload →
    (s.bytesRecebidos = 21 ∨ 21 < s.bytesRecebidos ∧ s.bytesRecebidos < s.tamanhoTotal) ∧
      (21 < s.tamanhoTotal.toNat ∨ s.tamanhoTotal.toNat = 21 ∧ s.chip.queue ≠ [])

/-! ## One call -/

theorem bloco_le (s : State) (rxAvail : BitVec 16) : bloco s rxAvail ≤ rxAvail := by
  unfold bloco
  by_cases fewer : rxAvail.zeroExtend 32 < s.tamanhoTotal - s.bytesRecebidos
  · simp only [if_pos fewer]
    exact BitVec.le_refl rxAvail
  · have less := fewer
    rw [BitVec.lt_def] at less
    simp only [if_neg fewer]
    rw [BitVec.le_def]
    simp only [BitVec.truncate_eq_setWidth, BitVec.toNat_setWidth] at less ⊢
    omega

theorem readBlock_queue (s : State) :
    (readBlock s s.chip.getRxSize).chip.queue =
      s.chip.queue.drop (bloco s s.chip.getRxSize).toNat := by
  have le : (bloco s s.chip.getRxSize).toNat ≤ s.chip.queue.length := by
    rw [Chip.queue_length]
    exact bloco_le s s.chip.getRxSize
  exact (Chip.recvBytes_queue le).2

theorem getterLoop_queue (status : Byte) (s : State) :
    (getterLoop status s).2.chip.queue.length ≤ s.chip.queue.length := by
  rcases getterLoop_cases status s with
    ⟨_, outcome⟩ | ⟨_, outcome⟩ | ⟨_, outcome⟩ | ⟨_, outcome⟩
  · rw [outcome, Chip.queue_open]
    exact Nat.zero_le _
  · rw [outcome]
  · rw [outcome]
  · rw [outcome]
    rcases receive_cases s with
      ⟨_, _, branch⟩ | ⟨_, enough, branch⟩ | ⟨_, _, branch⟩ | ⟨_, _, branch⟩
    · rw [branch]
    · rw [branch, (readHeader_chip enough).2, List.length_drop]
      exact Nat.sub_le _ _
    · rw [branch]
    · have shorter : (readBlock s s.chip.getRxSize).chip.queue.length ≤ s.chip.queue.length := by
        rw [readBlock_queue, List.length_drop]
        exact Nat.sub_le _ _
      rw [branch]
      dsimp only
      split
      · exact shorter
      · exact shorter

theorem receive_header {s : State} (phase : s.estado = .header) (enough : 21 ≤ s.chip.queue.length) :
    receive s = (1, readHeader s) := by
  rcases receive_cases s with
    ⟨_, short, _⟩ | ⟨_, _, branch⟩ | ⟨payload, _⟩ | ⟨payload, _⟩
  · omega
  · exact branch
  · exact Estado.noConfusion (phase.symm.trans payload)
  · exact Estado.noConfusion (phase.symm.trans payload)

theorem receive_block {s : State} (phase : s.estado = .payload) (waiting : s.chip.queue ≠ []) :
    receive s =
      if s.tamanhoTotal ≤ (readBlock s s.chip.getRxSize).bytesRecebidos then
        (0, acknowledge (readBlock s s.chip.getRxSize))
      else (1, readBlock s s.chip.getRxSize) := by
  rcases receive_cases s with
    ⟨header, _⟩ | ⟨header, _⟩ | ⟨_, empty, _⟩ | ⟨_, _, branch⟩
  · exact Estado.noConfusion (phase.symm.trans header)
  · exact Estado.noConfusion (phase.symm.trans header)
  · exact absurd empty waiting
  · exact branch

/-- Only the reading of a header changes the announced size. -/
theorem receive_block_total {s : State} (phase : s.estado = .payload)
    (waiting : s.chip.queue ≠ []) : (receive s).2.tamanhoTotal = s.tamanhoTotal := by
  rw [receive_block phase waiting]
  split
  · rfl
  · rfl

theorem mem_storedBy {status : Byte} {s : State} {offset : Nat} :
    offset ∈ storedBy status s ↔
      (status = SOCK_ESTABLISHED ∧ s.estado = .header ∧ 21 ≤ s.chip.queue.length ∧ offset < 21) ∨
        (TakesBlock status s ∧ s.bytesRecebidos.toNat ≤ offset ∧
          offset < s.bytesRecebidos.toNat + (bloco s s.chip.getRxSize).toNat) := by
  have size := s.chip.queue_length
  unfold storedBy TakesBlock
  by_cases established : status = SOCK_ESTABLISHED
  · rw [if_pos established]
    cases phase : s.estado with
    | header =>
        by_cases enough : 21 ≤ s.chip.getRxSize
        · have length : 21 ≤ s.chip.getRxSize.toNat := enough
          simp only [if_pos enough]
          simp [established, length]
        · have length : ¬21 ≤ s.chip.getRxSize.toNat := enough
          simp only [if_neg enough]
          simp [length]
    | payload =>
        by_cases waiting : 0 < s.chip.getRxSize
        · have length : 0 < s.chip.getRxSize.toNat := waiting
          have some : s.chip.queue ≠ [] := List.ne_nil_of_length_pos (by omega)
          simp only [if_pos waiting]
          simp [established, some, List.mem_range'_1]
        · have length : ¬0 < s.chip.getRxSize.toNat := waiting
          have none : s.chip.queue = [] := List.eq_nil_of_length_eq_zero (by omega)
          simp only [if_neg waiting]
          simp [none]
  · simp [established]

/-- Nothing but the listed offsets is written. -/
theorem getterLoop_frame {status : Byte} {s : State} {offset : Nat}
    (unlisted : offset ∉ storedBy status s) :
    (getterLoop status s).2.bufferArquivo offset = s.bufferArquivo offset := by
  rw [mem_storedBy, not_or] at unlisted
  obtain ⟨noHeader, noBlock⟩ := unlisted
  rcases getterLoop_cases status s with
    ⟨_, outcome⟩ | ⟨_, outcome⟩ | ⟨_, outcome⟩ | ⟨established, outcome⟩
  · rw [outcome]
  · rw [outcome]
  · rw [outcome]
  rcases receive_cases s with
    ⟨_, _, branch⟩ | ⟨phase, enough, branch⟩ | ⟨_, _, branch⟩ | ⟨phase, waiting, branch⟩
  · rw [outcome, branch]
  · have behind : ¬offset < 21 := fun inside => noHeader ⟨established, phase, enough, inside⟩
    have memory : (readHeader s).bufferArquivo =
        bufferWrite s.bufferArquivo 0 (s.chip.recvBytes 21).1 := rfl
    have written : (readHeader s).bufferArquivo offset = s.bufferArquivo offset := by
      rw [memory]
      apply bufferWrite_behind
      rw [Chip.recvBytes_length]
      exact Nat.not_lt.mp behind
    rw [outcome, branch]
    exact written
  · rw [outcome, branch]
  · have memory : (readBlock s s.chip.getRxSize).bufferArquivo =
        bufferWrite s.bufferArquivo s.bytesRecebidos.toNat
          (s.chip.recvBytes (bloco s s.chip.getRxSize)).1 := rfl
    have written : (readBlock s s.chip.getRxSize).bufferArquivo offset =
        s.bufferArquivo offset := by
      by_cases before : offset < s.bytesRecebidos.toNat
      · exact bufferWrite_before before
      · rw [memory]
        apply bufferWrite_behind
        rw [Chip.recvBytes_length]
        have outside := fun less =>
          noBlock ⟨⟨established, phase, waiting⟩, Nat.not_lt.mp before, less⟩
        exact Nat.not_lt.mp outside
    rw [outcome, branch]
    dsimp only
    split
    · exact written
    · exact written

/-! ## One poll -/

theorem step_called {s t : State} {poll : Poll} (taken : step s poll = some t) :
    ∃ chip disk, s.chip.deliver poll.arrived = some chip ∧
      t = { (getterLoop poll.status { s with chip := chip }).2 with disk := disk } := by
  obtain ⟨⟨result, middle⟩, polled, rfl⟩ := Option.map_eq_some_iff.mp taken
  obtain ⟨chip, delivered, called⟩ := Option.map_eq_some_iff.mp polled
  dsimp only
  by_cases ended : result = 0
  · refine ⟨chip, (savingFile poll.created middle).disk, delivered, ?_⟩
    rw [if_pos ended, called]
    exact savingFile_disk poll.created middle
  · refine ⟨chip, middle.disk, delivered, ?_⟩
    rw [if_neg ended, called]

theorem step_room {s t : State} {poll : Poll} (taken : step s poll = some t) :
    t.chip.queue.length ≤ 2048 := by
  obtain ⟨chip, disk, delivered, rfl⟩ := step_called taken
  have room := (Chip.deliver_eq_some delivered).2.1
  exact (getterLoop_queue poll.status { s with chip := chip }).trans room

theorem deliver_nothing {chip : Chip} (room : chip.queue.length ≤ 2048) :
    ∃ same, chip.deliver [] = some same ∧ same.queue = chip.queue ∧ same.sent = chip.sent := by
  rw [Chip.queue_length] at room
  obtain ⟨same, delivered⟩ : ∃ same, chip.deliver [] = some same :=
    ⟨_, if_pos room⟩
  obtain ⟨queueEq, _, sentEq⟩ := Chip.deliver_eq_some delivered
  exact ⟨same, delivered, queueEq.trans (List.append_nil _), sentEq⟩

theorem receive_completes {s : State} (room : s.chip.queue.length ≤ 2048)
    (phase : s.estado = .payload) (counted : s.bytesRecebidos ≤ s.tamanhoTotal)
    (waiting : s.chip.queue ≠ [])
    (all : s.tamanhoTotal.toNat ≤ s.bytesRecebidos.toNat + s.chip.queue.length) :
    receive s = (0, acknowledge (readBlock s s.chip.getRxSize)) := by
  have le : s.bytesRecebidos.toNat ≤ s.tamanhoTotal.toNat := counted
  have bound := s.tamanhoTotal.isLt
  have blockEq : (bloco s s.chip.getRxSize).toNat =
      s.tamanhoTotal.toNat - s.bytesRecebidos.toNat := by
    rw [bloco_toNat counted room]
    exact Nat.min_eq_right (by omega)
  have reached : s.tamanhoTotal ≤ (readBlock s s.chip.getRxSize).bytesRecebidos := by
    have sum : (readBlock s s.chip.getRxSize).bytesRecebidos =
        s.bytesRecebidos + (bloco s s.chip.getRxSize).zeroExtend 32 := rfl
    rw [BitVec.le_def, sum, BitVec.toNat_add]
    simp only [BitVec.truncate_eq_setWidth, BitVec.toNat_setWidth]
    omega
  rw [receive_block phase waiting, if_pos reached]

theorem pollOnce_empty {t : State} (room : t.chip.queue.length ≤ 2048) :
    ∃ same, pollOnce t emptyPoll = some (receive { t with chip := same }) ∧
      same.queue = t.chip.queue ∧ same.sent = t.chip.sent := by
  obtain ⟨same, delivered, queueEq, sentEq⟩ := deliver_nothing room
  refine ⟨same, ?_, queueEq, sentEq⟩
  unfold pollOnce emptyPoll
  rw [delivered, Option.map_some]
  rfl

theorem acknowledges {t : State} (room : t.chip.queue.length ≤ 2048) (phase : t.estado = .payload)
    (counted : t.bytesRecebidos ≤ t.tamanhoTotal) (waiting : t.chip.queue ≠ [])
    (all : t.tamanhoTotal.toNat ≤ t.bytesRecebidos.toNat + t.chip.queue.length) :
    ∃ u, pollOnce t emptyPoll = some (0, u) ∧ u.chip.sent = t.chip.sent ++ arqLido := by
  obtain ⟨same, polled, queueEq, sentEq⟩ := pollOnce_empty room
  rw [← queueEq] at room waiting all
  have completed := receive_completes (s := { t with chip := same }) room phase counted waiting all
  refine ⟨_, polled.trans (congrArg some completed), ?_⟩
  rw [← sentEq]
  rfl

theorem not_acknowledges {t u : State} (phase : t.estado = .payload) (empty : t.chip.queue = []) :
    pollOnce t emptyPoll ≠ some (0, u) := by
  intro acknowledged
  have room : t.chip.queue.length ≤ 2048 := by
    rw [empty]
    exact Nat.zero_le _
  obtain ⟨same, polled, queueEq, _⟩ := pollOnce_empty room
  rcases receive_cases { t with chip := same } with
    ⟨header, _⟩ | ⟨header, _⟩ | ⟨_, _, branch⟩ | ⟨_, waiting, _⟩
  · exact Estado.noConfusion (header.symm.trans phase)
  · exact Estado.noConfusion (header.symm.trans phase)
  · rw [polled, branch] at acknowledged
    cases acknowledged
  · exact waiting (queueEq.trans empty)

theorem Incomplete.counted {s : State} (incomplete : Incomplete s) (phase : s.estado = .payload) :
    s.bytesRecebidos ≤ s.tamanhoTotal := by
  obtain ⟨progress, announced⟩ := incomplete phase
  rw [BitVec.le_def]
  rcases progress with start | ⟨_, less⟩
  · rw [start]
    show 21 ≤ _
    omega
  · exact (BitVec.lt_def.mp less).le

theorem Incomplete.deliver {s : State} {chip : Chip} {arrived : List Byte}
    (incomplete : Incomplete s) (queueEq : chip.queue = s.chip.queue ++ arrived) :
    Incomplete { s with chip := chip } := by
  intro phase
  obtain ⟨progress, announced⟩ := incomplete phase
  refine ⟨progress, announced.imp_right fun ⟨exact, waiting⟩ => ⟨exact, ?_⟩⟩
  show chip.queue ≠ []
  rw [queueEq]
  exact List.append_ne_nil_of_left_ne_nil waiting arrived

/-- What the guard says of the header, at the call that reads it. -/
def LongHeader (status : Byte) (s : State) : Prop :=
  status = SOCK_ESTABLISHED → s.estado = .header → 21 ≤ s.chip.queue.length →
    21 < (decodeTamanho s.chip.queue).toNat ∨
      (decodeTamanho s.chip.queue).toNat = 21 ∧ 21 < s.chip.queue.length

theorem readHeader_total {s : State} (enough : 21 ≤ s.chip.queue.length) :
    (readHeader s).tamanhoTotal = decodeTamanho s.chip.queue := by
  have decoded : (readHeader s).tamanhoTotal = decodeTamanho (readHeader s).cabecalhoRaw := rfl
  rw [decoded, (readHeader_chip enough).1, decodeTamanho_take]

theorem incomplete_readHeader {s : State} (enough : 21 ≤ s.chip.queue.length)
    (long : 21 < (decodeTamanho s.chip.queue).toNat ∨
      (decodeTamanho s.chip.queue).toNat = 21 ∧ 21 < s.chip.queue.length) :
    Incomplete (readHeader s) := by
  intro _
  refine ⟨.inl rfl, ?_⟩
  rw [readHeader_total enough, (readHeader_chip enough).2]
  refine long.imp_right fun ⟨exact, behind⟩ => ⟨exact, ?_⟩
  apply List.ne_nil_of_length_pos
  rw [List.length_drop]
  omega

theorem incomplete_readBlock {s : State} (incomplete : Incomplete s)
    (room : s.chip.queue.length ≤ 2048) (phase : s.estado = .payload) (waiting : s.chip.queue ≠ [])
    (more : ¬(readBlock s s.chip.getRxSize).tamanhoTotal ≤
      (readBlock s s.chip.getRxSize).bytesRecebidos) :
    Incomplete (readBlock s s.chip.getRxSize) := by
  intro _
  have counted := BitVec.le_def.mp (incomplete.counted phase)
  obtain ⟨progress, _⟩ := incomplete phase
  obtain ⟨block, _, _, _, counter, inside, _⟩ := readBlock_counts room progress
  have blockEq := inside counted
  have positive := List.length_pos_iff.mpr waiting
  have start : 21 ≤ s.bytesRecebidos.toNat := by
    rcases progress with begun | ⟨after, _⟩
    · rw [begun]
      decide
    · exact (BitVec.lt_def.mp after).le
  have totalEq : (readBlock s s.chip.getRxSize).tamanhoTotal = s.tamanhoTotal := rfl
  rw [totalEq, BitVec.le_def, counter] at more
  refine ⟨.inr ⟨?_, ?_⟩, .inl ?_⟩
  · rw [BitVec.lt_def, counter]
    show 21 < _
    omega
  · rw [BitVec.lt_def, counter, totalEq]
    omega
  · rw [totalEq]
    omega

theorem Incomplete.called {s : State} {status : Byte} (incomplete : Incomplete s)
    (room : s.chip.queue.length ≤ 2048) (long : LongHeader status s) :
    Incomplete (getterLoop status s).2 := by
  rcases getterLoop_cases status s with
    ⟨_, outcome⟩ | ⟨_, outcome⟩ | ⟨_, outcome⟩ | ⟨established, outcome⟩
  · rw [outcome]
    intro phase
    cases phase
  · rw [outcome]
    exact incomplete
  · rw [outcome]
    exact incomplete
  rcases receive_cases s with
    ⟨_, _, branch⟩ | ⟨phase, enough, branch⟩ | ⟨_, _, branch⟩ | ⟨phase, waiting, branch⟩
  · rw [outcome, branch]
    exact incomplete
  · rw [outcome, branch]
    exact incomplete_readHeader enough (long established phase enough)
  · rw [outcome, branch]
    exact incomplete
  · rw [outcome, branch]
    dsimp only
    split
    · intro header
      cases header
    next more => exact incomplete_readBlock incomplete room phase waiting more

theorem Incomplete.callRule {s : State} {status : Byte} (incomplete : Incomplete s)
    (room : s.chip.queue.length ≤ 2048) (long : LongHeader status s) : CallRule status s where
  unwrapped := by
    rintro ⟨_, phase, _⟩
    have counted := incomplete.counted phase
    have le : s.bytesRecebidos.toNat ≤ s.tamanhoTotal.toNat := counted
    rw [BitVec.toNat_sub_of_le counted, Int.ofNat_sub le]
  block := fun _ => bloco_le s s.chip.getRxSize
  stored := by
    intro offset member
    rcases mem_storedBy.mp member with
      ⟨rfl, phase, enough, inside⟩ | ⟨⟨rfl, phase, waiting⟩, _, inside⟩
    · have announced := long rfl phase enough
      have read : (getterLoop SOCK_ESTABLISHED s).2.tamanhoTotal = decodeTamanho s.chip.queue := by
        show (receive s).2.tamanhoTotal = _
        rw [receive_header phase enough]
        exact readHeader_total enough
      rw [read]
      omega
    · have counted := incomplete.counted phase
      have le : s.bytesRecebidos.toNat ≤ s.tamanhoTotal.toNat := counted
      have total : (getterLoop SOCK_ESTABLISHED s).2.tamanhoTotal = s.tamanhoTotal :=
        receive_block_total phase waiting
      rw [bloco_toNat counted room] at inside
      rw [total]
      omega
  kept := fun _ => getterLoop_frame

theorem Incomplete.step {s t : State} {poll : Poll} (incomplete : Incomplete s)
    (long : LongAnnounced s poll) (taken : step s poll = some t) :
    Incomplete t ∧ CounterRule s poll t := by
  have called : ∀ chip, s.chip.deliver poll.arrived = some chip →
      Incomplete { s with chip := chip } ∧ chip.queue.length ≤ 2048 ∧
        LongHeader poll.status { s with chip := chip } := by
    intro chip delivered
    obtain ⟨queueEq, room, _⟩ := Chip.deliver_eq_some delivered
    refine ⟨incomplete.deliver queueEq, room, ?_⟩
    intro established phase enough
    simp only [queueEq] at enough room ⊢
    exact long established phase enough room
  have room := step_room taken
  obtain ⟨chip, disk, delivered, rfl⟩ := step_called taken
  obtain ⟨arrived, roomThere, header⟩ := called chip delivered
  have after : Incomplete { (getterLoop poll.status { s with chip := chip }).2 with disk := disk } :=
    arrived.called roomThere header
  refine ⟨after, ?_, fun phase => after.counted phase, fun phase all => ?_⟩
  · intro other same
    obtain ⟨before, enough, long⟩ := called other same
    exact before.callRule enough long
  · refine acknowledges room phase (after.counted phase) ?_ all
    obtain ⟨progress, announced⟩ := after phase
    intro empty
    rw [empty, List.length_nil, Nat.add_zero] at all
    rcases announced with long | ⟨_, waiting⟩
    · rcases progress with start | ⟨_, less⟩
      · rw [start] at all
        exact absurd all (Nat.not_le.mpr long)
      · exact absurd all (Nat.not_le.mpr less)
    · exact waiting empty

theorem step_header {s t : State} {poll : Poll} (taken : step s poll = some t)
    (established : poll.status = SOCK_ESTABLISHED) (phase : s.estado = .header)
    (enough : 21 ≤ (s.chip.queue ++ poll.arrived).length) :
    t.estado = .payload ∧ t.bytesRecebidos = 21 ∧
      t.tamanhoTotal = decodeTamanho (s.chip.queue ++ poll.arrived) ∧
      t.chip.queue = (s.chip.queue ++ poll.arrived).drop 21 := by
  obtain ⟨chip, disk, delivered, rfl⟩ := step_called taken
  obtain ⟨queueEq, _, _⟩ := Chip.deliver_eq_some delivered
  rw [← queueEq] at enough ⊢
  have read : (getterLoop poll.status { s with chip := chip }).2 =
      readHeader { s with chip := chip } := by
    rw [established]
    exact congrArg Prod.snd (receive_header (s := { s with chip := chip }) phase enough)
  rw [read]
  exact ⟨rfl, rfl, readHeader_total (s := { s with chip := chip }) enough,
    (readHeader_chip (s := { s with chip := chip }) enough).2⟩

/-- A header that does not meet the guard breaks the rule at once. -/
theorem CounterRule.longAnnounced {s t : State} {poll : Poll} (rule : CounterRule s poll t)
    (taken : step s poll = some t) : LongAnnounced s poll := by
  intro established phase enough _
  obtain ⟨payload, counter, totalEq, behind⟩ := step_header taken established phase enough
  have counted := BitVec.le_def.mp (rule.counted payload)
  rw [counter, totalEq] at counted
  change 21 ≤ (decodeTamanho (s.chip.queue ++ poll.arrived)).toNat at counted
  by_contra short
  rw [not_or, not_and] at short
  have exact : (decodeTamanho (s.chip.queue ++ poll.arrived)).toNat = 21 :=
    Nat.le_antisymm (Nat.not_lt.mp short.1) counted
  have empty : t.chip.queue = [] := by
    rw [behind]
    exact List.drop_eq_nil_of_le (Nat.not_lt.mp (short.2 exact))
  have all : t.tamanhoTotal.toNat ≤ t.bytesRecebidos.toNat + t.chip.queue.length := by
    rw [totalEq, exact, counter]
    exact Nat.le_add_right 21 _
  obtain ⟨u, acknowledged, _⟩ := rule.acknowledged payload all
  exact not_acknowledges payload empty acknowledged

theorem longAnnounced_of_step_eq_none {s : State} {poll : Poll} (refused : step s poll = none) :
    LongAnnounced s poll := by
  intro _ _ _ room
  have fits : s.chip.getRxSize.toNat + poll.arrived.length ≤ 2048 := by
    rw [← Chip.queue_length, ← List.length_append]
    exact room
  have delivered : s.chip.deliver poll.arrived ≠ none := by
    rw [Chip.deliver, if_pos fits]
    exact Option.some_ne_none _
  rw [step, Option.map_eq_none_iff, pollOnce, Option.map_eq_none_iff] at refused
  exact absurd refused delivered

/-! ## Whole runs -/

/-- From power-up, over any number of calls of `do_receiver`, the counters keep to their rule at
every poll exactly when every header that is read announces more than its own 21 bytes, or just
these with a further byte waiting. -/
theorem counters_keep_iff (chip : Chip) (bufferArquivo : Nat → Byte) (polls : List Poll) :
    EachStep step CounterRule (boot chip bufferArquivo) polls ↔
      Guarded step LongAnnounced (boot chip bufferArquivo) polls := by
  apply eachStep_iff_guarded Incomplete
  · exact fun _ _ => longAnnounced_of_step_eq_none
  · exact fun s poll t incomplete taken =>
      ⟨fun rule => rule.longAnnounced taken, fun long => (incomplete.step long taken).2⟩
  · exact fun s poll t incomplete long taken => (incomplete.step long taken).1
  · intro phase
    cases phase

/-- A header that announces 3 bytes. -/
def shortPoll : Poll where
  arrived := headerFor 3
  status := SOCK_ESTABLISHED
  created := true

/-- The 21 bytes of the header are stored where 3 were announced. -/
theorem short_header_overruns :
    ¬ ∀ (chip : Chip) (bufferArquivo : Nat → Byte) (polls : List Poll),
      EachStep step CounterRule (boot chip bufferArquivo) polls := by
  intro always
  have stepped : (step (boot emptyChip fun _ => 0) shortPoll).isSome = true := by decide +kernel
  obtain ⟨t, taken⟩ := Option.isSome_iff_exists.mp stepped
  have rule := (always emptyChip (fun _ => 0) [shortPoll] t taken).1
  rcases rule.longAnnounced taken rfl rfl (by decide +kernel) (by decide +kernel) with
    long | ⟨exact, _⟩
  · exact absurd long (by decide +kernel)
  · exact absurd exact (by decide +kernel)

end OrionBios.Receiver
