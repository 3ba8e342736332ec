import OrionBios.Receiver.Model

/-!
# The progress of one transfer

The transfer is the list of all bytes that arrived for it. In the header phase all of
them still wait; in the payload phase the counted ones stand in RAM from
`BUFFER_ARQUIVO` on, in order, and the others wait.
-/

namespace OrionBios.Receiver

open Buffers

/-- The parser stands at the start of the transfer, or has read its header from there. -/
def ParsedFromStart (s : State) (transfer : List Byte) : Prop :=
  match s.estado with
  | .header => s.chip.queue = transfer
  | .payload => 21 ≤ transfer.length ∧ s.cabecalhoRaw = transfer.take 21 ∧
      s.tamanhoTotal = decodeTamanho transfer

theorem decodeTamanho_take (bytes : List Byte) :
    decodeTamanho (bytes.take 21) = decodeTamanho bytes := by
  simp [decodeTamanho, List.getD_eq_getElem?_getD]

theorem decodeTamanho_append {bytes : List Byte} (more : List Byte) (long : 21 ≤ bytes.length) :
    decodeTamanho (bytes ++ more) = decodeTamanho bytes := by
  rw [← decodeTamanho_take, List.take_append_of_le_length long, decodeTamanho_take]

structure Tracked (s : State) (transfer : List Byte) : Prop where
  parsed : ParsedFromStart s transfer
  /-- Every counted byte is stored at its offset. -/
  stored : s.estado = .payload →
    bufferRead s.bufferArquivo 0 s.bytesRecebidos.toNat ++ s.chip.queue = transfer
  /-- Between two polls the transfer is not complete, unless its announced size does not
  reach past the header. -/
  open_ : s.estado = .payload → s.bytesRecebidos = 21 ∨
    21 < s.bytesRecebidos ∧ s.bytesRecebidos < s.tamanhoTotal

theorem Tracked.counted {s : State} {transfer : List Byte} (tracked : Tracked s transfer)
    (phase : s.estado = .payload) :
    s.bytesRecebidos.toNat + s.chip.queue.length = transfer.length := by
  rw [← tracked.stored phase, List.length_append, bufferRead_length]

theorem Tracked.of_eq {s t : State} {transfer : List Byte} (tracked : Tracked s transfer)
    (disk : List SavedFile) (equal : t = { s with disk := disk }) : Tracked t transfer := by
  subst equal
  exact ⟨tracked.parsed, tracked.stored, tracked.open_⟩

theorem savingFile_disk (created : Bool) (s : State) :
    savingFile created s = { s with disk := (savingFile created s).disk } := by
  unfold savingFile
  dsimp only
  split
  · rfl
  · split <;> rfl

theorem Tracked.arrive {s : State} {transfer bytes : List Byte} {chip : Chip}
    (tracked : Tracked s transfer) (queueEq : chip.queue = s.chip.queue ++ bytes) :
    Tracked { s with chip := chip } (transfer ++ bytes) := by
  obtain ⟨parsed, stored, progress⟩ := tracked
  refine ⟨?_, ?_, progress⟩
  · unfold ParsedFromStart at parsed ⊢
    cases phase : s.estado with
    | header =>
        simp only [phase] at parsed ⊢
        rw [queueEq, parsed]
    | payload =>
        simp only [phase] at parsed ⊢
        obtain ⟨long, rawEq, totalEq⟩ := parsed
        refine ⟨by rw [List.length_append]; omega, ?_, ?_⟩
        · rw [List.take_append_of_le_length long, rawEq]
        · rw [decodeTamanho_append bytes long, totalEq]
  · intro phase
    rw [← stored phase, List.append_assoc, ← queueEq]

/-! ## The header -/

theorem tracked_readHeader {s : State} {transfer : List Byte} (queueEq : s.chip.queue = transfer)
    (enough : 21 ≤ s.chip.queue.length) : Tracked (readHeader s) transfer := by
  subst queueEq
  obtain ⟨rawEq, restEq⟩ := readHeader_chip enough
  refine ⟨⟨enough, rawEq, ?_⟩, ?_, fun _ => .inl rfl⟩
  · rw [← decodeTamanho_take, ← rawEq]
    rfl
  · intro _
    have written : bufferRead (readHeader s).bufferArquivo 0 21 = (readHeader s).cabecalhoRaw := by
      have length : (readHeader s).cabecalhoRaw.length = 21 := by
        rw [rawEq, List.length_take]
        omega
      have memory : (readHeader s).bufferArquivo =
        bufferWrite s.bufferArquivo 0 (readHeader s).cabecalhoRaw := rfl
      have same := bufferRead_bufferWrite s.bufferArquivo 0 (readHeader s).cabecalhoRaw
      rw [length] at same
      rw [memory]
      exact same
    have counter : (readHeader s).bytesRecebidos.toNat = 21 := rfl
    rw [counter, written, rawEq, restEq, List.take_append_drop]

/-! ## The payload -/

/-- What a payload poll with waiting bytes does: it takes a block off the queue, all that
waits or exactly what is missing, and counts it. -/
theorem readBlock_counts {s : State} (room : s.chip.queue.length ≤ 2048)
    (progress : s.bytesRecebidos = 21 ∨
      21 < s.bytesRecebidos ∧ s.bytesRecebidos < s.tamanhoTotal) :
    ∃ block, block ≤ s.chip.queue.length ∧
      (readBlock s s.chip.getRxSize).chip.queue = s.chip.queue.drop block ∧
      (readBlock s s.chip.getRxSize).bufferArquivo =
        bufferWrite s.bufferArquivo s.bytesRecebidos.toNat (s.chip.queue.take block) ∧
      (readBlock s s.chip.getRxSize).bytesRecebidos.toNat = s.bytesRecebidos.toNat + block ∧
      (s.bytesRecebidos ≤ s.tamanhoTotal →
        block = min s.chip.queue.length (s.tamanhoTotal.toNat - s.bytesRecebidos.toNat)) ∧
      (s.tamanhoTotal < s.bytesRecebidos → block = s.chip.queue.length) := by
  have small : s.bytesRecebidos.toNat = 21 ∨ s.bytesRecebidos.toNat < s.tamanhoTotal.toNat := by
    rcases progress with start | ⟨_, less⟩
    · exact .inl (by rw [start]; rfl)
    · exact .inr less
  have block : (bloco s s.chip.getRxSize).toNat ≤ s.chip.queue.length ∧
      s.bytesRecebidos.toNat + (bloco s s.chip.getRxSize).toNat < 2 ^ 32 := by
    by_cases counted : s.bytesRecebidos ≤ s.tamanhoTotal
    · have exact := bloco_toNat counted room
      have le : s.bytesRecebidos.toNat ≤ s.tamanhoTotal.toNat := counted
      have bound := s.tamanhoTotal.isLt
      omega
    · have passed : s.tamanhoTotal < s.bytesRecebidos := BitVec.not_le.mp counted
      have less : s.tamanhoTotal.toNat < s.bytesRecebidos.toNat := passed
      have exact := bloco_toNat_of_lt passed (by omega) room
      omega
  obtain ⟨bytesEq, restEq⟩ := Chip.recvBytes_queue block.1
  refine ⟨(bloco s s.chip.getRxSize).toNat, block.1, restEq, ?_, ?_, ?_, ?_⟩
  · rw [← bytesEq]
    rfl
  · have sum : (readBlock s s.chip.getRxSize).bytesRecebidos =
        s.bytesRecebidos + (bloco s s.chip.getRxSize).zeroExtend 32 := rfl
    rw [sum, BitVec.toNat_add]
    simp only [BitVec.truncate_eq_setWidth, BitVec.toNat_setWidth]
    omega
  · exact fun counted => bloco_toNat counted room
  · intro passed
    have less : s.tamanhoTotal.toNat < s.bytesRecebidos.toNat := passed
    exact bloco_toNat_of_lt passed (by omega) room

theorem readBlock_stored {s : State} {transfer : List Byte} (tracked : Tracked s transfer)
    (phase : s.estado = .payload) (room : s.chip.queue.length ≤ 2048) :
    bufferRead (readBlock s s.chip.getRxSize).bufferArquivo 0
        (readBlock s s.chip.getRxSize).bytesRecebidos.toNat ++
      (readBlock s s.chip.getRxSize).chip.queue = transfer := by
  obtain ⟨block, le, restEq, memory, counter, _⟩ := readBlock_counts room (tracked.open_ phase)
  have length : (s.chip.queue.take block).length = block := by
    rw [List.length_take]
    omega
  have before : bufferRead (readBlock s s.chip.getRxSize).bufferArquivo 0
      s.bytesRecebidos.toNat = bufferRead s.bufferArquivo 0 s.bytesRecebidos.toNat := by
    apply bufferRead_congr
    intro index _ less
    rw [memory, bufferWrite_before (by omega)]
  have added := bufferRead_bufferWrite s.bufferArquivo s.bytesRecebidos.toNat
    (s.chip.queue.take block)
  rw [length, ← memory] at added
  rw [counter, bufferRead_append, before, Nat.zero_add, added, restEq, List.append_assoc,
    List.take_append_drop, tracked.stored phase]

theorem tracked_readBlock {s : State} {transfer : List Byte} (tracked : Tracked s transfer)
    (phase : s.estado = .payload) (room : s.chip.queue.length ≤ 2048)
    (waiting : s.chip.queue ≠ [])
    (more : ¬(readBlock s s.chip.getRxSize).tamanhoTotal ≤
      (readBlock s s.chip.getRxSize).bytesRecebidos) :
    Tracked (readBlock s s.chip.getRxSize) transfer := by
  have parsed := tracked.parsed
  simp only [ParsedFromStart, phase] at parsed
  obtain ⟨block, le, restEq, _, counter, inside, passed⟩ :=
    readBlock_counts room (tracked.open_ phase)
  have positive := List.length_pos_iff.mpr waiting
  have totalEq : (readBlock s s.chip.getRxSize).tamanhoTotal = s.tamanhoTotal := rfl
  have phaseEq : (readBlock s s.chip.getRxSize).estado = .payload := phase
  rw [totalEq, BitVec.le_def, counter] at more
  have counted : s.bytesRecebidos ≤ s.tamanhoTotal := by
    rw [BitVec.le_def]
    omega
  have blockEq := inside counted
  have start : 21 ≤ s.bytesRecebidos.toNat := by
    rcases tracked.open_ phase with begun | ⟨after, _⟩
    · rw [begun]
      decide
    · exact (BitVec.lt_def.mp after).le
  refine ⟨?_, fun _ => readBlock_stored tracked phase room, fun _ => .inr ⟨?_, ?_⟩⟩
  · simp only [ParsedFromStart, phaseEq]
    exact parsed
  · rw [BitVec.lt_def, counter]
    show 21 < _
    omega
  · rw [BitVec.lt_def, counter, totalEq]
    omega

theorem readBlock_reached {s : State} (progress : s.bytesRecebidos = 21 ∨
      21 < s.bytesRecebidos ∧ s.bytesRecebidos < s.tamanhoTotal)
    (room : s.chip.queue.length ≤ 2048)
    (reached : (readBlock s s.chip.getRxSize).tamanhoTotal ≤
      (readBlock s s.chip.getRxSize).bytesRecebidos) :
    s.tamanhoTotal.toNat ≤ s.bytesRecebidos.toNat + s.chip.queue.length := by
  obtain ⟨block, le, _, _, counter, _⟩ := readBlock_counts room progress
  have totalEq : (readBlock s s.chip.getRxSize).tamanhoTotal = s.tamanhoTotal := rfl
  rw [totalEq, BitVec.le_def, counter] at reached
  omega

end OrionBios.Receiver
