import OrionBios.Receiver.Progress
import OrionBios.Transition.Runs

/-!
# When the receiver writes a file

A connection lasts from one `CR_OPEN` to the next, which the receiver gives when it
sees the socket closed. Beside the receiver, the bytes of the current transfer are
kept: what arrived on the connection, without the transfers already acknowledged.
-/

namespace OrionBios.Receiver

open Transition Buffers

structure Watched where
  state : State
  transfer : List Byte

def received (w : Watched) (poll : Poll) : List Byte := w.transfer ++ poll.arrived

/-- What an acknowledged transfer leaves in the queue belongs to the next one. -/
def nextTransfer (w : Watched) (poll : Poll) (next : State) : List Byte :=
  if poll.status = SOCK_CLOSED then []
  else if next.chip.sent = w.state.chip.sent then received w poll
  else next.chip.queue

def watchedStep (w : Watched) (poll : Poll) : Option Watched :=
  (step w.state poll).map fun next => { state := next, transfer := nextTransfer w poll next }

/-- A file is written only on an established connection of which the header and every
announced byte were received. -/
def FileRule (w : Watched) (poll : Poll) (next : State) : Prop :=
  next.disk = w.state.disk ∨
    poll.status = SOCK_ESTABLISHED ∧ 21 ≤ (received w poll).length ∧
      21 + (decodeTamanho (received w poll)).toNat ≤ (received w poll).length

def TransferRule (before : Watched) (poll : Poll) (after : Watched) : Prop :=
  FileRule before poll after.state ∧ ParsedFromStart after.state after.transfer

/-- No announced transfer meets `CLOSE_WAIT`, and no payload poll finds the announced
number of bytes there while the last 21 behind them are still missing. -/
def OrderlyPoll (w : Watched) (poll : Poll) : Prop :=
  (poll.status = SOCK_CLOSE_WAIT → w.state.tamanhoTotal = 0) ∧
    (poll.status = SOCK_ESTABLISHED → w.state.estado = .payload →
      w.state.chip.queue ++ poll.arrived ≠ [] →
        let count := w.state.bytesRecebidos.toNat + (w.state.chip.queue ++ poll.arrived).length
        count < w.state.tamanhoTotal.toNat ∨ w.state.tamanhoTotal.toNat + 21 ≤ count)

/-! ## Single polls -/

/-- What is shown of each poll: the tracking goes on, and the rule for files holds if the
poll is orderly. -/
def Follows (w : Watched) (poll : Poll) (next : State) : Prop :=
  Tracked next (nextTransfer w poll next) ∧
    (OrderlyPoll w poll → FileRule w poll next)

/-- A poll that neither opens the socket nor acknowledges carries its bytes over. -/
theorem nextTransfer_carries {w : Watched} {poll : Poll} {next : State}
    (notClosed : poll.status ≠ SOCK_CLOSED) (sentEq : next.chip.sent = w.state.chip.sent) :
    nextTransfer w poll next = received w poll := by
  rw [nextTransfer, if_neg notClosed, if_pos sentEq]

theorem follows_idle {w : Watched} {poll : Poll} {next : State}
    (notClosed : poll.status ≠ SOCK_CLOSED) (sentEq : next.chip.sent = w.state.chip.sent)
    (diskEq : next.disk = w.state.disk)
    (tracked : Tracked next (received w poll)) : Follows w poll next := by
  refine ⟨?_, fun _ => .inl diskEq⟩
  rw [nextTransfer_carries notClosed sentEq]
  exact tracked

theorem follows_closed {w : Watched} {poll : Poll} {chip : Chip}
    (closed : poll.status = SOCK_CLOSED) :
    Follows w poll
      { w.state with chip := chip.command CR_OPEN, estado := .header, bytesRecebidos := 0 } := by
  refine ⟨⟨?_, ?_, ?_⟩, fun _ => .inl rfl⟩
  · rw [nextTransfer, if_pos closed]
    exact chip.queue_open
  · intro phase
    cases phase
  · intro phase
    cases phase

theorem savingFile_of_zero {created : Bool} {s : State} (zero : s.tamanhoTotal = 0) :
    savingFile created s = s := by
  rw [savingFile, if_pos zero]

theorem follows_closeWait {w : Watched} {poll : Poll} {s : State}
    (closeWait : poll.status = SOCK_CLOSE_WAIT) (sentEq : s.chip.sent = w.state.chip.sent)
    (diskEq : s.disk = w.state.disk) (totalEq : s.tamanhoTotal = w.state.tamanhoTotal)
    (tracked : Tracked s (received w poll)) :
    Follows w poll (savingFile poll.created s) := by
  have notClosed : poll.status ≠ SOCK_CLOSED := by
    rw [closeWait]
    decide
  have saved := savingFile_disk poll.created s
  constructor
  · rw [nextTransfer_carries notClosed (by rw [saved]; exact sentEq)]
    exact tracked.of_eq _ saved
  · intro orderly
    have zero : s.tamanhoTotal = 0 := totalEq.trans (orderly.1 closeWait)
    rw [savingFile_of_zero zero]
    exact .inl diskEq

theorem follows_acknowledge {w : Watched} {poll : Poll} {chip : Chip}
    (established : poll.status = SOCK_ESTABLISHED)
    (queueEq : chip.queue = w.state.chip.queue ++ poll.arrived)
    (sentEq : chip.sent = w.state.chip.sent) (phase : w.state.estado = .payload)
    (waiting : chip.queue ≠ [])
    (tracked : Tracked { w.state with chip := chip } (received w poll))
    (reached : w.state.tamanhoTotal.toNat ≤
      w.state.bytesRecebidos.toNat + chip.queue.length) :
    Follows w poll (savingFile poll.created
      (acknowledge (readBlock { w.state with chip := chip } chip.getRxSize))) := by
  have notClosed : poll.status ≠ SOCK_CLOSED := by
    rw [established]
    decide
  have saved := savingFile_disk poll.created
    (acknowledge (readBlock { w.state with chip := chip } chip.getRxSize))
  generalize savingFile poll.created
    (acknowledge (readBlock { w.state with chip := chip } chip.getRxSize)) = next at saved ⊢
  have sentNext : next.chip.sent = w.state.chip.sent ++ arqLido := by
    rw [saved, ← sentEq]
    rfl
  have changed : ¬next.chip.sent = w.state.chip.sent := by
    simp [sentNext, arqLido]
  have phaseNext : next.estado = .header := by
    rw [saved]
    rfl
  constructor
  · rw [nextTransfer, if_neg notClosed, if_neg changed]
    refine ⟨?_, ?_, ?_⟩
    · simp only [ParsedFromStart, phaseNext]
    · intro payload
      rw [phaseNext] at payload
      cases payload
    · intro payload
      rw [phaseNext] at payload
      cases payload
  · intro orderly
    have parsed := tracked.parsed
    simp only [ParsedFromStart, phase] at parsed
    obtain ⟨long, _, totalEq⟩ := parsed
    have count := tracked.counted phase
    have whole := orderly.2 established phase (by rw [← queueEq]; exact waiting)
    simp only [← queueEq] at whole count
    refine .inr ⟨established, long, ?_⟩
    rw [← totalEq]
    omega

theorem tracked_step {w w' : Watched} {poll : Poll} (tracked : Tracked w.state w.transfer)
    (taken : watchedStep w poll = some w') :
    Tracked w'.state w'.transfer ∧ (OrderlyPoll w poll → TransferRule w poll w') := by
  obtain ⟨next, stepped, rfl⟩ := Option.map_eq_some_iff.mp taken
  obtain ⟨result, middle, polled, nextEq⟩ := step_eq_some stepped
  obtain ⟨chip, queueEq, room, sentEq, called⟩ := pollOnce_eq_some polled
  have arrived := tracked.arrive queueEq
  suffices follows : Follows w poll next by
    exact ⟨follows.1, fun orderly => ⟨follows.2 orderly, follows.1.parsed⟩⟩
  have idle : poll.status ≠ SOCK_CLOSED →
      (result, middle) = (1, { w.state with chip := chip }) → Follows w poll next := by
    intro notClosed outcome
    simp only [Prod.mk.injEq] at outcome
    obtain ⟨rfl, rfl⟩ := outcome
    rw [nextEq, if_neg (by decide)]
    exact follows_idle notClosed sentEq rfl arrived
  rcases getterLoop_cases poll.status { w.state with chip := chip } with
    ⟨closed, outcome⟩ | ⟨notClosed, outcome⟩ | ⟨closeWait, outcome⟩ | ⟨established, outcome⟩
  · rw [outcome, Prod.mk.injEq] at called
    obtain ⟨rfl, rfl⟩ := called
    rw [nextEq, if_neg (by decide)]
    exact follows_closed closed
  · exact idle notClosed (called.symm.trans outcome)
  · rw [outcome, Prod.mk.injEq] at called
    obtain ⟨rfl, rfl⟩ := called
    rw [nextEq, if_pos rfl]
    exact follows_closeWait closeWait sentEq rfl rfl arrived
  · have notClosed : poll.status ≠ SOCK_CLOSED := by
      rw [established]
      decide
    rw [outcome] at called
    rcases receive_cases { w.state with chip := chip } with
      ⟨_, _, branch⟩ | ⟨phase, enough, branch⟩ | ⟨_, _, branch⟩ | ⟨phase, waiting, branch⟩
    · exact idle notClosed (called.symm.trans branch)
    · rw [branch, Prod.mk.injEq] at called
      obtain ⟨rfl, rfl⟩ := called
      rw [nextEq, if_neg (by decide)]
      have parsed := arrived.parsed
      simp only [ParsedFromStart] at parsed phase
      simp only [phase] at parsed
      exact follows_idle notClosed sentEq rfl (tracked_readHeader parsed enough)
    · exact idle notClosed (called.symm.trans branch)
    · by_cases complete : (readBlock { w.state with chip := chip } chip.getRxSize).tamanhoTotal ≤
          (readBlock { w.state with chip := chip } chip.getRxSize).bytesRecebidos
      · simp only [branch, if_pos complete, Prod.mk.injEq] at called
        obtain ⟨rfl, rfl⟩ := called
        rw [nextEq, if_pos rfl]
        exact follows_acknowledge established queueEq sentEq phase waiting arrived
          (readBlock_reached (arrived.open_ phase) room complete)
      · simp only [branch, if_neg complete, Prod.mk.injEq] at called
        obtain ⟨rfl, rfl⟩ := called
        rw [nextEq, if_neg (by decide)]
        exact follows_idle notClosed sentEq rfl (tracked_readBlock arrived phase room waiting complete)

/-! ## Whole runs -/

/-- The receiver at power-up, with nothing in the receive memory. -/
def watchedBoot (chip : Chip) (bufferArquivo : Nat → Byte) : Watched where
  state := boot (chip.command CR_OPEN) bufferArquivo
  transfer := []

theorem tracked_boot (chip : Chip) (bufferArquivo : Nat → Byte) :
    Tracked (watchedBoot chip bufferArquivo).state [] := by
  refine ⟨chip.queue_open, ?_, ?_⟩
  · intro phase
    cases phase
  · intro phase
    cases phase

/-- In a run of orderly polls every poll keeps the rule for files, over any number of
calls of `do_receiver`. -/
theorem orderly_polls_keep_transferRule (chip : Chip) (bufferArquivo : Nat → Byte)
    (polls : List Poll)
    (orderly : Guarded watchedStep OrderlyPoll (watchedBoot chip bufferArquivo) polls) :
    EachStep watchedStep TransferRule (watchedBoot chip bufferArquivo) polls :=
  eachStep_of_guarded (fun w => Tracked w.state w.transfer)
    (fun _ _ _ tracked _ taken => (tracked_step tracked taken).1)
    (fun _ _ _ tracked guard taken => (tracked_step tracked taken).2 guard)
    (tracked_boot chip bufferArquivo) orderly

/-- A header that announces `size` bytes for a file called `A`. -/
def headerFor (size : Byte) : List Byte :=
  [size, 0, 0, 0, 0, 0, 0, 0, 0x41] ++ List.replicate 12 0

def headerPoll : Poll where
  arrived := headerFor 100
  status := SOCK_ESTABLISHED
  created := true

def dropPoll : Poll where
  arrived := []
  status := SOCK_CLOSE_WAIT
  created := true

/-- The header of a transfer of 100 bytes, and then the peer is gone: `do_receiver` still
writes a file of 100 bytes. -/
theorem dropped_connection_writes_file :
    ¬ ∀ (chip : Chip) (bufferArquivo : Nat → Byte) (polls : List Poll),
      EachStep watchedStep TransferRule (watchedBoot chip bufferArquivo) polls := by
  intro always
  have written : (watchedStep (watchedBoot emptyChip fun _ => 0) headerPoll).any (fun w1 =>
      decide (w1.state.disk.length = 0) &&
        (watchedStep w1 dropPoll).any fun w2 => decide (w2.state.disk.length = 1)) = true := by
    decide +kernel
  obtain ⟨w1, taken1, written1⟩ := Option.any_eq_true _ _ |>.mp written
  rw [Bool.and_eq_true, decide_eq_true_eq] at written1
  obtain ⟨w2, taken2, written2⟩ := Option.any_eq_true _ _ |>.mp written1.2
  rw [decide_eq_true_eq] at written2
  have rule := always emptyChip (fun _ => 0) [headerPoll, dropPoll]
  have second := ((rule w1 taken1).2 w2 taken2).1.1
  rcases second with kept | ⟨established, _⟩
  · rw [kept] at written2
    omega
  · cases established

/-- A transfer of 22 announced bytes, all of it there when the payload is polled. -/
def wholePoll : Poll where
  arrived := headerFor 22 ++ List.replicate 22 7
  status := SOCK_ESTABLISHED
  created := true

def emptyPoll : Poll where
  arrived := []
  status := SOCK_ESTABLISHED
  created := true

theorem orderly_polls_keep_transferRule_whole :
    EachStep watchedStep TransferRule (watchedBoot emptyChip fun _ => 0) [wholePoll, emptyPoll] := by
  apply orderly_polls_keep_transferRule
  have orderly : (watchedStep (watchedBoot emptyChip fun _ => 0) wholePoll).all (fun w1 =>
      decide (w1.state.tamanhoTotal.toNat = 22 ∧ w1.state.bytesRecebidos.toNat = 21 ∧
        w1.state.chip.queue.length = 22)) = true := by
    decide +kernel
  refine ⟨⟨?_, ?_⟩, fun w1 taken1 => ⟨⟨?_, ?_⟩, fun _ _ => trivial⟩⟩
  · intro status
    cases status
  · intro _ phase
    cases phase
  · intro status
    cases status
  · intro _ _ _
    rw [taken1, Option.all_some, decide_eq_true_eq] at orderly
    obtain ⟨total, counter, waiting⟩ := orderly
    right
    rw [List.length_append, total, counter, waiting]
    decide

end OrionBios.Receiver
