import OrionBios.Receiver.Progress
import OrionBios.Receiver.Sender

/-!
# A file from the sending tool to the disk of the receiver

The tool announces the length of the file and sends that many bytes of its block, so
the last 21 bytes of the file stay behind. The receiver counts the header among the
announced bytes, acknowledges, and then saves the announced number of bytes from
behind the header: 21 more than it stored.
-/

namespace OrionBios.Receiver

open Buffers

/-! ## What is sent -/

theorem tam_toNat {arquivo : List Byte} (small : arquivo.length < 2 ^ 32) :
    (tam arquivo).toNat = arquivo.length := by
  rw [tam, BitVec.toNat_ofNat, Nat.mod_eq_of_lt small]

theorem signExtend_tam_of_short {arquivo : List Byte} (short : arquivo.length ≤ 21) :
    ((tam arquivo).signExtend 64).toNat = arquivo.length := by
  have length := tam_toNat (show arquivo.length < 2 ^ 32 by omega)
  have positive : (tam arquivo).msb = false := by
    rw [BitVec.msb_eq_decide]
    simp only [decide_eq_false_iff_not]
    omega
  rw [BitVec.toNat_signExtend, BitVec.toNat_setWidth, positive]
  simp only [Bool.false_eq_true, if_false]
  omega

theorem overwrite_middle (before behind : List Byte) {replaced bytes : List Byte}
    (length : replaced.length = bytes.length) :
    overwrite (before ++ (replaced ++ behind)) before.length bytes =
      before ++ (bytes ++ behind) := by
  rw [overwrite, List.take_left, ← List.drop_drop, List.drop_left, ← length, List.drop_left,
    List.append_assoc]

theorem take_add_append {first second : List Byte} {length count : Nat}
    (lengthEq : first.length = length) :
    (first ++ second).take (length + count) = first ++ second.take count := by
  subst lengthEq
  exact List.take_length_add_append count

theorem nomeArquivo_length {name : List Byte} (nameLength : name.length ≤ 12) :
    (nomeArquivo name).length = 13 := by
  rw [nomeArquivo, List.length_append, List.length_replicate]
  omega

theorem dados_eq {allocated name : List Byte} (arquivo : List Byte)
    (allocatedLength : allocated.length = 21) (nameLength : name.length ≤ 12) :
    ∃ crc, crc.length = 4 ∧ dados allocated arquivo name =
      encodeTamanho (tam arquivo) ++ (crc ++ (nomeArquivo name ++ arquivo)) := by
  obtain ⟨size, crc, field, rfl, sizeLength, crcLength, fieldLength⟩ :
      ∃ size crc field, allocated = size ++ (crc ++ field) ∧ size.length = 4 ∧ crc.length = 4 ∧
        field.length = 13 := by
    refine ⟨allocated.take 4, (allocated.drop 4).take 4, allocated.drop 8, ?_, ?_, ?_, ?_⟩
    · rw [show 8 = 4 + 4 by rfl, ← List.drop_drop, List.take_append_drop, List.take_append_drop]
    · simp [allocatedLength]
    · simp [allocatedLength]
    · simp [allocatedLength]
  have encoded : (encodeTamanho (tam arquivo)).length = 4 := rfl
  have nome := nomeArquivo_length nameLength
  have first := overwrite_middle [] (crc ++ (field ++ arquivo)) (sizeLength.trans encoded.symm)
  have second := overwrite_middle (encodeTamanho (tam arquivo) ++ crc) arquivo
    (fieldLength.trans nome.symm)
  have offset : (encodeTamanho (tam arquivo) ++ crc).length = 8 := by
    rw [List.length_append, encoded, crcLength]
  rw [offset] at second
  refine ⟨crc, crcLength, ?_⟩
  simp only [List.nil_append, List.length_nil, List.append_assoc] at first second
  rw [dados]
  simp only [List.append_assoc]
  rw [first, second]

theorem decodeTamanho_encodeTamanho (tamanho : BitVec 32) (more : List Byte) :
    decodeTamanho (encodeTamanho tamanho ++ more) = tamanho := by
  simp only [decodeTamanho, encodeTamanho, List.cons_append, List.getD_cons_succ,
    List.getD_cons_zero]
  apply BitVec.eq_of_getElem_eq
  intro index inside
  simp only [BitVec.truncate_eq_setWidth, BitVec.getElem_or, BitVec.getElem_shiftLeft,
    BitVec.getElem_setWidth, BitVec.getLsbD_extractLsb']
  grind

theorem enviados_length_of_short {allocated arquivo name behind : List Byte}
    (short : arquivo.length ≤ 21) :
    (enviados allocated arquivo name behind).length ≤ arquivo.length := by
  rw [enviados, List.length_take, signExtend_tam_of_short short]
  exact Nat.min_le_left _ _

/-! ## What the receiver stores -/

/-- The offset up to which the receiver has filled its buffer. -/
def filled (s : State) : Nat :=
  match s.estado with
  | .header => 0
  | .payload => s.bytesRecebidos.toNat

/-- The receiver in the middle of a transfer that began at the state `start`. -/
structure Receiving (start s : State) (transfer : List Byte) : Prop where
  tracked : Tracked s transfer
  untouched : ∀ index, filled s ≤ index → s.bufferArquivo index = start.bufferArquivo index
  disk : s.disk = start.disk
  sent : s.chip.sent = start.chip.sent

/-- The receiver at the acknowledgement, with `size` bytes of the transfer in RAM. -/
structure Received (start s : State) (transfer : List Byte) (size : Nat) : Prop where
  total : s.tamanhoTotal = decodeTamanho transfer
  stored : bufferRead s.bufferArquivo 0 size = transfer.take size
  enough : size ≤ transfer.length
  long : 21 < transfer.length
  reached : 21 ≤ s.tamanhoTotal.toNat → size = s.tamanhoTotal.toNat
  untouched : ∀ index, size ≤ index → s.bufferArquivo index = start.bufferArquivo index
  disk : s.disk = start.disk
  sent : s.chip.sent = start.chip.sent ++ arqLido

theorem Receiving.arrive {start s : State} {transfer bytes : List Byte} {chip : Chip}
    (receiving : Receiving start s transfer) (queueEq : chip.queue = s.chip.queue ++ bytes)
    (sentEq : chip.sent = s.chip.sent) :
    Receiving start { s with chip := chip } (transfer ++ bytes) :=
  ⟨receiving.tracked.arrive queueEq, receiving.untouched, receiving.disk,
    sentEq.trans receiving.sent⟩

theorem receiving_readHeader {start s : State} {transfer : List Byte}
    (receiving : Receiving start s transfer) (phase : s.estado = .header)
    (enough : 21 ≤ s.chip.queue.length) : Receiving start (readHeader s) transfer := by
  have parsed := receiving.tracked.parsed
  simp only [ParsedFromStart, phase] at parsed
  refine ⟨tracked_readHeader parsed enough, ?_, receiving.disk, receiving.sent⟩
  intro index behind
  have length : (readHeader s).cabecalhoRaw.length = 21 := by
    rw [(readHeader_chip enough).1, List.length_take]
    omega
  have memory : (readHeader s).bufferArquivo index = s.bufferArquivo index := by
    have fits : 0 + (readHeader s).cabecalhoRaw.length ≤ index := by
      rw [Nat.zero_add]
      exact length.le.trans behind
    exact bufferWrite_behind fits
  have before := receiving.untouched index (by simp [filled, phase])
  rw [memory, before]

theorem readBlock_untouched {start s : State} {transfer : List Byte}
    (receiving : Receiving start s transfer) (phase : s.estado = .payload)
    (room : s.chip.queue.length ≤ 2048) {index : Nat}
    (behind : (readBlock s s.chip.getRxSize).bytesRecebidos.toNat ≤ index) :
    (readBlock s s.chip.getRxSize).bufferArquivo index = start.bufferArquivo index := by
  obtain ⟨block, le, _, memory, counter, _⟩ :=
    readBlock_counts room (receiving.tracked.open_ phase)
  have length : (s.chip.queue.take block).length = block := by
    rw [List.length_take]
    omega
  rw [memory, bufferWrite_behind (by omega)]
  apply receiving.untouched
  simp only [filled, phase]
  omega

theorem receiving_readBlock {start s : State} {transfer : List Byte}
    (receiving : Receiving start s transfer) (phase : s.estado = .payload)
    (room : s.chip.queue.length ≤ 2048) (waiting : s.chip.queue ≠ [])
    (more : ¬(readBlock s s.chip.getRxSize).tamanhoTotal ≤
      (readBlock s s.chip.getRxSize).bytesRecebidos) :
    Receiving start (readBlock s s.chip.getRxSize) transfer := by
  refine ⟨tracked_readBlock receiving.tracked phase room waiting more, ?_, receiving.disk,
    receiving.sent⟩
  intro index behind
  have phaseEq : (readBlock s s.chip.getRxSize).estado = .payload := phase
  simp only [filled, phaseEq] at behind
  exact readBlock_untouched receiving phase room behind

theorem received_acknowledge {start s : State} {transfer : List Byte}
    (receiving : Receiving start s transfer) (phase : s.estado = .payload)
    (room : s.chip.queue.length ≤ 2048) (waiting : s.chip.queue ≠ [])
    (reached : (readBlock s s.chip.getRxSize).tamanhoTotal ≤
      (readBlock s s.chip.getRxSize).bytesRecebidos) :
    Received start (acknowledge (readBlock s s.chip.getRxSize)) transfer
      (readBlock s s.chip.getRxSize).bytesRecebidos.toNat := by
  have parsed := receiving.tracked.parsed
  simp only [ParsedFromStart, phase] at parsed
  have stored := readBlock_stored receiving.tracked phase room
  have counted := receiving.tracked.counted phase
  have positive := List.length_pos_iff.mpr waiting
  have progress := receiving.tracked.open_ phase
  have start21 : 21 ≤ s.bytesRecebidos.toNat := by
    rcases progress with begun | ⟨after, _⟩
    · rw [begun]
      decide
    · exact (BitVec.lt_def.mp after).le
  have front : bufferRead (readBlock s s.chip.getRxSize).bufferArquivo 0
      (readBlock s s.chip.getRxSize).bytesRecebidos.toNat =
        transfer.take (readBlock s s.chip.getRxSize).bytesRecebidos.toNat := by
    rw [← stored, List.take_left' bufferRead_length]
  refine ⟨parsed.2.2, front, ?_, by omega, ?_, ?_, receiving.disk, ?_⟩
  · rw [← stored, List.length_append, bufferRead_length]
    exact Nat.le_add_right _ _
  · intro large
    obtain ⟨block, le, _, _, counter, inside, _⟩ := readBlock_counts room progress
    have totalEq : (readBlock s s.chip.getRxSize).tamanhoTotal = s.tamanhoTotal := rfl
    have large' : 21 ≤ s.tamanhoTotal.toNat := large
    have within : s.bytesRecebidos ≤ s.tamanhoTotal := by
      rw [BitVec.le_def]
      rcases progress with begun | ⟨_, less⟩
      · rw [begun]
        exact large'
      · exact (BitVec.lt_def.mp less).le
    have blockEq := inside within
    have le' := BitVec.le_def.mp within
    rw [totalEq, BitVec.le_def, counter] at reached
    show _ = s.tamanhoTotal.toNat
    omega
  · intro index behind
    exact readBlock_untouched receiving phase room behind
  · show s.chip.sent ++ arqLido = _
    rw [receiving.sent]

theorem receiving_closed {start s : State} {chip : Chip} (receiving : Receiving start s [])
    (sentEq : chip.sent = s.chip.sent) :
    Receiving start
      { s with chip := chip.command CR_OPEN, estado := .header, bytesRecebidos := 0 } [] := by
  have phase : s.estado = .header := by
    cases phase : s.estado with
    | header => rfl
    | payload =>
        have parsed := receiving.tracked.parsed
        simp only [ParsedFromStart, phase] at parsed
        exact absurd parsed.1 (by decide)
  refine ⟨⟨chip.queue_open, ?_, ?_⟩, ?_, receiving.disk, ?_⟩
  · intro payload
    cases payload
  · intro payload
    cases payload
  · intro index _
    exact receiving.untouched index (by simp [filled, phase])
  · exact sentEq.trans receiving.sent

/-! ## The loop of `do_receiver` -/

/-- The polls see one connection: the socket is not found closed once bytes have come. -/
def OneConnection : List Byte → List Poll → Prop
  | _, [] => True
  | before, poll :: rest =>
      (poll.status = SOCK_CLOSED → before ++ poll.arrived = []) ∧
        OneConnection (before ++ poll.arrived) rest

/-- One poll of the loop: the transfer goes on, is acknowledged, or was dropped. -/
theorem pollOnce_receiving {start s t : State} {transfer : List Byte} {poll : Poll} {result : Nat}
    (receiving : Receiving start s transfer)
    (connected : poll.status = SOCK_CLOSED → transfer ++ poll.arrived = [])
    (polled : pollOnce s poll = some (result, t)) :
    (result ≠ 0 ∧ Receiving start t (transfer ++ poll.arrived)) ∨
      (result = 0 ∧ t.chip.sent = start.chip.sent) ∨
      (result = 0 ∧ ∃ size, Received start t (transfer ++ poll.arrived) size) := by
  obtain ⟨chip, queueEq, room, sentEq, called⟩ := pollOnce_eq_some polled
  have arrived := receiving.arrive queueEq sentEq
  have idle : (result, t) = (1, { s with chip := chip }) →
      result ≠ 0 ∧ Receiving start t (transfer ++ poll.arrived) := by
    intro outcome
    simp only [Prod.mk.injEq] at outcome
    obtain ⟨rfl, rfl⟩ := outcome
    exact ⟨by decide, arrived⟩
  rcases getterLoop_cases poll.status { s with chip := chip } with
    ⟨closed, outcome⟩ | ⟨_, outcome⟩ | ⟨_, outcome⟩ | ⟨_, outcome⟩
  · have nothing := connected closed
    rw [outcome, Prod.mk.injEq] at called
    obtain ⟨rfl, rfl⟩ := called
    have empty : transfer = [] := (List.append_eq_nil_iff.mp nothing).1
    subst empty
    rw [nothing]
    have reopened := receiving_closed receiving sentEq
    exact .inl ⟨by decide, reopened⟩
  · exact .inl (idle (called.symm.trans outcome))
  · rw [outcome, Prod.mk.injEq] at called
    obtain ⟨rfl, rfl⟩ := called
    exact .inr (.inl ⟨rfl, sentEq.trans receiving.sent⟩)
  · rw [outcome] at called
    rcases receive_cases { s with chip := chip } with
      ⟨_, _, branch⟩ | ⟨phase, enough, branch⟩ | ⟨_, _, branch⟩ | ⟨phase, waiting, branch⟩
    · exact .inl (idle (called.symm.trans branch))
    · rw [branch, Prod.mk.injEq] at called
      obtain ⟨rfl, rfl⟩ := called
      exact .inl ⟨by decide, receiving_readHeader arrived phase enough⟩
    · exact .inl (idle (called.symm.trans branch))
    · by_cases complete : (readBlock { s with chip := chip } chip.getRxSize).tamanhoTotal ≤
          (readBlock { s with chip := chip } chip.getRxSize).bytesRecebidos
      · simp only [branch, if_pos complete, Prod.mk.injEq] at called
        obtain ⟨rfl, rfl⟩ := called
        exact .inr (.inr ⟨rfl, _, received_acknowledge arrived phase room waiting complete⟩)
      · simp only [branch, if_neg complete, Prod.mk.injEq] at called
        obtain ⟨rfl, rfl⟩ := called
        exact .inl ⟨by decide, receiving_readBlock arrived phase room waiting complete⟩

/-- A call of `do_receiver` that acknowledges has received a transfer and then saves it. -/
theorem doReceiver_received {start s t : State} {transfer : List Byte} {polls rest : List Poll}
    (receiving : Receiving start s transfer) (connected : OneConnection transfer polls)
    (created : ∀ poll ∈ polls, poll.created = true)
    (ended : doReceiver polls s = some (t, rest))
    (acknowledged : t.chip.sent = start.chip.sent ++ arqLido) :
    ∃ used middle size, used <+: polls ∧
      Received start middle (transfer ++ used.flatMap (·.arrived)) size ∧
        t = savingFile true middle := by
  induction polls generalizing s transfer with
  | nil => cases ended
  | cons poll polls inductionHypothesis =>
      unfold doReceiver at ended
      obtain ⟨⟨result, middle⟩, polled, continued⟩ := Option.bind_eq_some_iff.mp ended
      rcases pollOnce_receiving receiving connected.1 polled with
        ⟨going, receiving'⟩ | ⟨rfl, sentEq⟩ | ⟨rfl, size, received⟩
      · simp only [if_neg going] at continued
        have createdRest : ∀ poll ∈ polls, poll.created = true :=
          fun other member => created other (List.mem_cons_of_mem _ member)
        obtain ⟨used, last, size, before, received, saved⟩ :=
          inductionHypothesis receiving' connected.2 createdRest continued
        refine ⟨poll :: used, last, size, List.cons_prefix_cons.mpr ⟨rfl, before⟩, ?_, saved⟩
        rw [List.flatMap_cons, ← List.append_assoc]
        exact received
      · simp only [if_pos, Option.some.injEq, Prod.mk.injEq] at continued
        rw [← continued.1, savingFile_disk] at acknowledged
        have unchanged : middle.chip.sent = start.chip.sent ++ arqLido := acknowledged
        rw [sentEq] at unchanged
        simp [arqLido] at unchanged
      · simp only [if_pos, Option.some.injEq, Prod.mk.injEq] at continued
        refine ⟨[poll], middle, size, ⟨polls, rfl⟩, ?_, ?_⟩
        · simpa using received
        · rw [← continued.1, created poll List.mem_cons_self]

/-! ## The saved file -/

theorem readString_eq {memory : Nat → Byte} {text : List Byte} {size offset : Nat}
    (letters : ∀ letter ∈ text, letter ≠ 0) (fits : text.length < size)
    (stands : bufferRead memory offset (text.length + 1) = text ++ [0]) :
    readString memory size offset = text := by
  induction text generalizing size offset with
  | nil =>
      cases size with
      | zero => omega
      | succ size =>
          have terminator : memory offset = 0 := by simpa [bufferRead] using stands
          rw [readString, if_pos terminator]
  | cons letter rest inductionHypothesis =>
      cases size with
      | zero => omega
      | succ size =>
          have split : bufferRead memory offset (1 + (rest.length + 1)) =
              [letter] ++ (rest ++ [0]) := by
            rw [Nat.add_comm]
            exact stands
          rw [bufferRead_append] at split
          obtain ⟨first, others⟩ := List.append_inj split (by simp)
          have here : memory offset = letter := by simpa [bufferRead] using first
          have nonzero : ¬memory offset = 0 := by
            rw [here]
            exact letters letter List.mem_cons_self
          have restLetters : ∀ other ∈ rest, other ≠ 0 :=
            fun other member => letters other (List.mem_cons_of_mem _ member)
          rw [readString, if_neg nonzero, here,
            inductionHypothesis restLetters (by simpa using fits) others]

/-- The receiver's RAM at the acknowledgement: the front of the sender's block, and behind
the announced size what was there before the transfer. -/
theorem received_memory {start s : State} {allocated arquivo name behind transfer : List Byte}
    {size : Nat} (small : arquivo.length < 2 ^ 32 - 21) (allocatedLength : allocated.length = 21)
    (nameLength : name.length ≤ 12)
    (streamed : transfer <+: enviados allocated arquivo name behind)
    (received : Received start s transfer size) :
    22 ≤ arquivo.length ∧ s.tamanhoTotal.toNat = arquivo.length ∧
      bufferRead s.bufferArquivo 0 arquivo.length =
        (dados allocated arquivo name).take arquivo.length ∧
      ∀ index, arquivo.length ≤ index → s.bufferArquivo index = start.bufferArquivo index := by
  have small' : arquivo.length < 2 ^ 32 := by omega
  have long := received.long
  have atLeast : 22 ≤ arquivo.length := by
    by_contra short
    have bound := streamed.length_le.trans (enviados_length_of_short (by omega))
    omega
  obtain ⟨more, whole⟩ : transfer <+: dados allocated arquivo name ++ behind :=
    streamed.trans (List.take_prefix _ _)
  obtain ⟨crc, _, block⟩ := dados_eq arquivo allocatedLength nameLength
  have total : s.tamanhoTotal = tam arquivo := by
    rw [received.total, ← decodeTamanho_append more (by omega), whole, block]
    simp only [List.append_assoc]
    exact decodeTamanho_encodeTamanho (tam arquivo) _
  have totalNat : s.tamanhoTotal.toNat = arquivo.length := by rw [total, tam_toNat small']
  have sizeEq : size = arquivo.length := by rw [received.reached (by omega), totalNat]
  subst sizeEq
  refine ⟨atLeast, totalNat, ?_, received.untouched⟩
  have blockLength : arquivo.length ≤ (dados allocated arquivo name).length := by
    rw [block]
    simp only [List.length_append]
    omega
  calc bufferRead s.bufferArquivo 0 arquivo.length
      = transfer.take arquivo.length := received.stored
    _ = (transfer ++ more).take arquivo.length := by
        rw [List.take_append_of_le_length received.enough]
    _ = (dados allocated arquivo name).take arquivo.length := by
        rw [whole, List.take_append_of_le_length blockLength]

theorem received_parts {memory : Nat → Byte} {allocated arquivo name : List Byte}
    (allocatedLength : allocated.length = 21) (nameLength : name.length ≤ 12)
    (atLeast : 22 ≤ arquivo.length)
    (block : bufferRead memory 0 arquivo.length =
      (dados allocated arquivo name).take arquivo.length) :
    bufferRead memory 8 13 = nomeArquivo name ∧
      bufferRead memory 21 (arquivo.length - 21) = arquivo.take (arquivo.length - 21) := by
  obtain ⟨crc, crcLength, layout⟩ := dados_eq arquivo allocatedLength nameLength
  have nome := nomeArquivo_length nameLength
  have front : (encodeTamanho (tam arquivo) ++ crc).length = 8 := by
    rw [List.length_append, crcLength]
    rfl
  obtain ⟨rest, sum⟩ : ∃ rest, arquivo.length = 8 + (13 + rest) :=
    ⟨arquivo.length - 21, by omega⟩
  have restEq : arquivo.length - 21 = rest := by omega
  rw [layout, ← List.append_assoc, sum, take_add_append front, take_add_append nome,
    bufferRead_append, bufferRead_append] at block
  obtain ⟨_, behind⟩ := List.append_inj block (by rw [bufferRead_length, front])
  rw [restEq]
  exact List.append_inj behind (by rw [bufferRead_length, nome])

theorem received_name {memory : Nat → Byte} {name : List Byte} (nameLength : name.length ≤ 12)
    (nameText : ∀ letter ∈ name, letter ≠ 0)
    (field : bufferRead memory 8 13 = nomeArquivo name) :
    readString memory (2 ^ 32) 8 = name := by
  apply readString_eq nameText (by omega)
  have zeros : List.replicate (13 - name.length) (0 : Byte) =
      [0] ++ List.replicate (12 - name.length) 0 := by
    rw [show 13 - name.length = 1 + (12 - name.length) by omega, List.replicate_add]
    rfl
  have split : bufferRead memory 8 (name.length + 1 + (12 - name.length)) =
      (name ++ [0]) ++ List.replicate (12 - name.length) 0 := by
    rw [show name.length + 1 + (12 - name.length) = 13 by omega, field, nomeArquivo, zeros,
      List.append_assoc]
  rw [bufferRead_append] at split
  exact (List.append_inj split (by simp)).1

/-! ## End to end -/

theorem receiving_start {s : State} (phase : s.estado = .header) (waiting : s.chip.queue = []) :
    Receiving s s [] := by
  refine ⟨⟨?_, ?_, ?_⟩, fun _ _ => rfl, rfl, rfl⟩
  · simp only [ParsedFromStart, phase]
    exact waiting
  · intro payload
    rw [phase] at payload
    cases payload
  · intro payload
    rw [phase] at payload
    cases payload

/-- For every file, name, segmentation and sequence of polls that ends with the
acknowledgement: the receiver saved the sender's file exactly if the 21 bytes of RAM
behind the announced size were, before the transfer, the last 21 bytes of the file. -/
theorem saved_file_iff (s t : State) (allocated arquivo name behind : List Byte)
    (polls rest : List Poll) (small : arquivo.length < 2 ^ 32 - 21) (nameLength : name.length ≤ 12)
    (nameText : ∀ letter ∈ name, letter ≠ 0) (allocatedLength : allocated.length = 21)
    (phase : s.estado = .header) (waiting : s.chip.queue = [])
    (streamed : polls.flatMap (·.arrived) <+: enviados allocated arquivo name behind)
    (connected : OneConnection [] polls) (created : ∀ poll ∈ polls, poll.created = true)
    (ended : doReceiver polls s = some (t, rest))
    (acknowledged : t.chip.sent = s.chip.sent ++ arqLido) :
    t.disk = s.disk ++ [{ name := name, content := arquivo }] ↔
      bufferRead s.bufferArquivo arquivo.length 21 = arquivo.drop (arquivo.length - 21) := by
  obtain ⟨used, middle, size, ⟨later, usedEq⟩, received, saved⟩ :=
    doReceiver_received (receiving_start phase waiting) connected created ended acknowledged
  have usedStream : used.flatMap (·.arrived) <+: enviados allocated arquivo name behind := by
    apply List.IsPrefix.trans _ streamed
    rw [← usedEq, List.flatMap_append]
    exact List.prefix_append _ _
  rw [List.nil_append] at received
  obtain ⟨atLeast, total, block, untouched⟩ :=
    received_memory small allocatedLength nameLength usedStream received
  obtain ⟨nome, front⟩ := received_parts allocatedLength nameLength atLeast block
  have nonzero : ¬middle.tamanhoTotal = 0 := by
    intro zero
    have zeroNat : (0 : BitVec 32).toNat = 0 := rfl
    rw [zero, zeroNat] at total
    omega
  have nameRead := received_name nameLength nameText nome
  have tail : bufferRead middle.bufferArquivo arquivo.length 21 =
      bufferRead s.bufferArquivo arquivo.length 21 :=
    bufferRead_congr fun index above _ => untouched index above
  have content : bufferRead middle.bufferArquivo 21 arquivo.length =
      arquivo.take (arquivo.length - 21) ++ bufferRead s.bufferArquivo arquivo.length 21 := by
    have sum : arquivo.length = (arquivo.length - 21) + 21 := by omega
    have position : 21 + (arquivo.length - 21) = arquivo.length := by omega
    conv_lhs => rw [sum]
    rw [bufferRead_append, front, position, tail]
  have disk : t.disk = s.disk ++ [{
      name := name
      content := arquivo.take (arquivo.length - 21) ++
        bufferRead s.bufferArquivo arquivo.length 21 }] := by
    rw [saved, savingFile, if_neg nonzero, if_pos rfl, total, nameRead, content, received.disk]
  rw [disk, List.append_right_inj, List.singleton_inj, SavedFile.mk.injEq]
  constructor
  · rintro ⟨_, equal⟩
    have split := equal.trans (List.take_append_drop (arquivo.length - 21) arquivo).symm
    exact (List.append_inj split rfl).2
  · intro stale
    refine ⟨rfl, ?_⟩
    rw [stale, List.take_append_drop]

def sampleFile : List Byte := List.replicate 22 7

/-- Its 22 sent bytes arrive at once, and are read in two polls. -/
def samplePolls : List Poll :=
  [{ arrived := enviados (List.replicate 21 0) sampleFile [0x41] [], status := SOCK_ESTABLISHED,
      created := true },
    { arrived := [], status := SOCK_ESTABLISHED, created := true }]

theorem samplePolls_connected : OneConnection [] samplePolls := by
  have notClosed : ¬SOCK_ESTABLISHED = SOCK_CLOSED := by decide
  exact ⟨fun closed => absurd closed notClosed, fun closed => absurd closed notClosed, trivial⟩

/-- Over RAM that is zero, 21 of the 22 saved bytes are not those of the file. -/
theorem saved_file_differs :
    ¬ ∀ (s t : State) (allocated arquivo name behind : List Byte) (polls rest : List Poll),
      arquivo.length < 2 ^ 32 - 21 → name.length ≤ 12 → (∀ letter ∈ name, letter ≠ 0) →
      allocated.length = 21 → s.estado = .header → s.chip.queue = [] →
      polls.flatMap (·.arrived) <+: enviados allocated arquivo name behind →
      OneConnection [] polls → (∀ poll ∈ polls, poll.created = true) →
      doReceiver polls s = some (t, rest) → t.chip.sent = s.chip.sent ++ arqLido →
        t.disk = s.disk ++ [{ name := name, content := arquivo }] := by
  intro always
  have ended : (doReceiver samplePolls (boot emptyChip fun _ => 0)).any (fun (t, _) =>
      decide (t.chip.sent = arqLido ∧ ¬t.disk = [{ name := [0x41], content := sampleFile }])) =
        true := by
    decide +kernel
  obtain ⟨⟨t, rest⟩, run, outcome⟩ := Option.any_eq_true _ _ |>.mp ended
  obtain ⟨acknowledged, differs⟩ := of_decide_eq_true outcome
  exact differs (always (boot emptyChip fun _ => 0) t (List.replicate 21 0) sampleFile [0x41] []
    samplePolls rest (by decide) (by decide) (by decide) (by decide) rfl rfl (by decide +kernel)
    samplePolls_connected (by decide +kernel) run acknowledged)

/-- Over RAM that is 7 already, the same transfer saves the file. -/
theorem saved_file_iff_stale :
    ∃ t rest, doReceiver samplePolls (boot emptyChip fun _ => 7) = some (t, rest) ∧
      t.disk = [{ name := [0x41], content := sampleFile }] := by
  have ended : (doReceiver samplePolls (boot emptyChip fun _ => 7)).any (fun (t, _) =>
      decide (t.chip.sent = arqLido)) = true := by
    decide +kernel
  obtain ⟨⟨t, rest⟩, run, outcome⟩ := Option.any_eq_true _ _ |>.mp ended
  refine ⟨t, rest, run, ?_⟩
  apply (saved_file_iff (boot emptyChip fun _ => 7) t (List.replicate 21 0) sampleFile [0x41] []
    samplePolls rest (by decide) (by decide) (by decide) (by decide) rfl rfl (by decide +kernel)
    samplePolls_connected (by decide +kernel) run (of_decide_eq_true outcome)).mpr
  decide

end OrionBios.Receiver
