import OrionBios.Receiver.W5100

/-!
# The file receiver of the BIOS shell

One step is one call of `w5100_getter_loop`, followed by `saving_file` where the
call ends the loop of `do_receiver`. The static variables live in the state and
survive the calls. RAM from `BUFFER_ARQUIVO` on is a function of the offset.
-/

namespace OrionBios.Receiver

open Buffers

inductive Estado where
  | header | payload
  deriving DecidableEq, Repr

/-- A file FatFs was told to create, with the bytes written to it. -/
structure SavedFile where
  name : List Byte
  content : List Byte
  deriving DecidableEq, Repr

structure State where
  chip : Chip
  tamanhoTotal : BitVec 32
  cabecalhoRaw : List Byte
  estado : Estado
  bytesRecebidos : BitVec 32
  bufferArquivo : Nat → Byte
  /-- The files `saving_file` created, the last one at the end. -/
  disk : List SavedFile

/-- The static variables at power-up, over any contents of RAM and chip. -/
def boot (chip : Chip) (bufferArquivo : Nat → Byte) : State where
  chip := chip
  tamanhoTotal := 0
  cabecalhoRaw := List.replicate 21 0
  estado := .header
  bytesRecebidos := 0
  bufferArquivo := bufferArquivo
  disk := []

/-- The four bytes of a little-endian number, as the header decoding shifts them. -/
def decodeTamanho (raw : List Byte) : BitVec 32 :=
  (raw.getD 3 0).zeroExtend 32 <<< 24 ||| (raw.getD 2 0).zeroExtend 32 <<< 16 |||
    (raw.getD 1 0).zeroExtend 32 <<< 8 ||| (raw.getD 0 0).zeroExtend 32

def arqLido : List Byte := [0x41, 0x72, 0x71, 0x20, 0x6C, 0x69, 0x64, 0x6F]

/-- FASE 1 with at least 21 bytes waiting. -/
def readHeader (s : State) : State :=
  let (cabecalhoRaw, chip) := s.chip.recvBytes 21
  { s with
    chip := chip
    cabecalhoRaw := cabecalhoRaw
    tamanhoTotal := decodeTamanho cabecalhoRaw
    bytesRecebidos := 21
    estado := .payload
    bufferArquivo := bufferWrite s.bufferArquivo 0 cabecalhoRaw }

/-- The `bloco` of FASE 2: what waits, or the low half of what is still missing. -/
def bloco (s : State) (rxAvail : BitVec 16) : BitVec 16 :=
  let restante := s.tamanhoTotal - s.bytesRecebidos
  if rxAvail.zeroExtend 32 < restante then rxAvail else restante.truncate 16

/-- FASE 2 with some byte waiting. -/
def readBlock (s : State) (rxAvail : BitVec 16) : State :=
  let (bytes, chip) := s.chip.recvBytes (bloco s rxAvail)
  { s with
    chip := chip
    bufferArquivo := bufferWrite s.bufferArquivo s.bytesRecebidos.toNat bytes
    bytesRecebidos := s.bytesRecebidos + (bloco s rxAvail).zeroExtend 32 }

/-- FASE 3. -/
def acknowledge (s : State) : State :=
  { s with chip := (s.chip.sendBytes arqLido).command CR_DISCON, estado := .header }

/-- The case `SOCK_ESTABLISHED`. -/
def receive (s : State) : Nat × State :=
  let rxAvail := s.chip.getRxSize
  match s.estado with
  | .header => if 21 ≤ rxAvail then (1, readHeader s) else (1, s)
  | .payload =>
    if 0 < rxAvail then
      let s := readBlock s rxAvail
      if s.tamanhoTotal ≤ s.bytesRecebidos then (0, acknowledge s) else (1, s)
    else (1, s)

/-- `w5100_getter_loop` for the value it read from the status register. -/
def getterLoop (status : Byte) (s : State) : Nat × State :=
  if status = SOCK_CLOSED then
    (1, { s with chip := s.chip.command CR_OPEN, estado := .header, bytesRecebidos := 0 })
  else if status = SOCK_INIT then (1, { s with chip := s.chip.command CR_LISTEN })
  else if status = SOCK_ESTABLISHED then receive s
  else if status = SOCK_CLOSE_WAIT then (0, { s with chip := s.chip.command CR_DISCON })
  else (1, s)

/-- A C string in RAM: the bytes before the first zero. -/
def readString (memory : Nat → Byte) : Nat → Nat → List Byte
  | 0, _ => []
  | size + 1, offset =>
      if memory offset = 0 then [] else memory offset :: readString memory size (offset + 1)

/-- `saving_file`, where FatFs creates the file or not and writes what it is given. -/
def savingFile (created : Bool) (s : State) : State :=
  let tamanho := s.tamanhoTotal
  if tamanho = 0 then s
  else if created then
    { s with disk := s.disk ++
      [{ name := readString s.bufferArquivo (2 ^ 32) 8
         content := bufferRead s.bufferArquivo 21 tamanho.toNat }] }
  else s

/-- What the environment decides at one poll: the bytes that arrived since the last
one, the status register, and whether FatFs would create a file now. -/
structure Poll where
  arrived : List Byte
  status : Byte
  created : Bool
  deriving DecidableEq, Repr

/-- The arrivals, and then the call of `w5100_getter_loop`. -/
def pollOnce (s : State) (poll : Poll) : Option (Nat × State) :=
  (s.chip.deliver poll.arrived).map fun chip => getterLoop poll.status { s with chip := chip }

def step (s : State) (poll : Poll) : Option State :=
  (pollOnce s poll).map fun (result, s) =>
    if result = 0 then savingFile poll.created s else s

/-- One call of `do_receiver`: it polls until a poll returns 0, and leaves the rest. -/
def doReceiver : List Poll → State → Option (State × List Poll)
  | [], _ => none
  | poll :: rest, s =>
    (pollOnce s poll).bind fun (result, s) =>
      if result = 0 then some (savingFile poll.created s, rest) else doReceiver rest s

/-! ## What one call can do -/

theorem pollOnce_eq_some {s t : State} {poll : Poll} {result : Nat}
    (polled : pollOnce s poll = some (result, t)) :
    ∃ chip, chip.queue = s.chip.queue ++ poll.arrived ∧ chip.queue.length ≤ 2048 ∧
      chip.sent = s.chip.sent ∧ getterLoop poll.status { s with chip := chip } = (result, t) := by
  obtain ⟨chip, delivered, called⟩ := Option.map_eq_some_iff.mp polled
  obtain ⟨queueEq, room, sentEq⟩ := Chip.deliver_eq_some delivered
  exact ⟨chip, queueEq, room, sentEq, called⟩

theorem step_eq_some {s t : State} {poll : Poll} (taken : step s poll = some t) :
    ∃ result middle, pollOnce s poll = some (result, middle) ∧
      t = if result = 0 then savingFile poll.created middle else middle := by
  obtain ⟨⟨result, middle⟩, polled, equality⟩ := Option.map_eq_some_iff.mp taken
  exact ⟨result, middle, polled, equality.symm⟩

theorem getterLoop_cases (status : Byte) (s : State) :
    (status = SOCK_CLOSED ∧ getterLoop status s =
        (1, { s with chip := s.chip.command CR_OPEN, estado := .header, bytesRecebidos := 0 })) ∨
      (status ≠ SOCK_CLOSED ∧ getterLoop status s = (1, s)) ∨
      (status = SOCK_CLOSE_WAIT ∧ getterLoop status s = (0, s)) ∨
      (status = SOCK_ESTABLISHED ∧ getterLoop status s = receive s) := by
  by_cases closed : status = SOCK_CLOSED
  · exact .inl ⟨closed, by rw [getterLoop, if_pos closed]⟩
  by_cases init : status = SOCK_INIT
  · refine .inr (.inl ⟨closed, ?_⟩)
    rw [getterLoop, if_neg closed, if_pos init]
    rfl
  by_cases established : status = SOCK_ESTABLISHED
  · refine .inr (.inr (.inr ⟨established, ?_⟩))
    rw [getterLoop, if_neg closed, if_neg init, if_pos established]
  by_cases closeWait : status = SOCK_CLOSE_WAIT
  · refine .inr (.inr (.inl ⟨closeWait, ?_⟩))
    rw [getterLoop, if_neg closed, if_neg init, if_neg established, if_pos closeWait]
    rfl
  · refine .inr (.inl ⟨closed, ?_⟩)
    rw [getterLoop, if_neg closed, if_neg init, if_neg established, if_neg closeWait]

theorem receive_cases (s : State) :
    (s.estado = .header ∧ s.chip.queue.length < 21 ∧ receive s = (1, s)) ∨
      (s.estado = .header ∧ 21 ≤ s.chip.queue.length ∧ receive s = (1, readHeader s)) ∨
      (s.estado = .payload ∧ s.chip.queue = [] ∧ receive s = (1, s)) ∨
      (s.estado = .payload ∧ s.chip.queue ≠ [] ∧
        receive s =
          let t := readBlock s s.chip.getRxSize
          if t.tamanhoTotal ≤ t.bytesRecebidos then (0, acknowledge t) else (1, t)) := by
  have size := s.chip.queue_length
  cases phase : s.estado with
  | header =>
      by_cases enough : 21 ≤ s.chip.getRxSize
      · have length : 21 ≤ s.chip.getRxSize.toNat := enough
        refine .inr (.inl ⟨rfl, by omega, ?_⟩)
        simp only [receive, phase, if_pos enough]
      · have length : ¬21 ≤ s.chip.getRxSize.toNat := enough
        refine .inl ⟨rfl, by omega, ?_⟩
        simp only [receive, phase, if_neg enough]
  | payload =>
      by_cases waiting : 0 < s.chip.getRxSize
      · have length : 0 < s.chip.getRxSize.toNat := waiting
        refine .inr (.inr (.inr ⟨rfl, ?_, ?_⟩))
        · exact List.ne_nil_of_length_pos (by omega)
        · simp only [receive, phase, if_pos waiting]
      · have length : ¬0 < s.chip.getRxSize.toNat := waiting
        refine .inr (.inr (.inl ⟨rfl, ?_, ?_⟩))
        · exact List.eq_nil_of_length_eq_zero (by omega)
        · simp only [receive, phase, if_neg waiting]

theorem readHeader_chip {s : State} (enough : 21 ≤ s.chip.queue.length) :
    (readHeader s).cabecalhoRaw = s.chip.queue.take 21 ∧
      (readHeader s).chip.queue = s.chip.queue.drop 21 :=
  Chip.recvBytes_queue enough

/-- The block length, while the counter has not passed the announced size: all that
waits, or exactly what is missing. -/
theorem bloco_toNat {s : State} (counted : s.bytesRecebidos ≤ s.tamanhoTotal)
    (room : s.chip.queue.length ≤ 2048) :
    (bloco s s.chip.getRxSize).toNat =
      min s.chip.queue.length (s.tamanhoTotal.toNat - s.bytesRecebidos.toNat) := by
  have le : s.bytesRecebidos.toNat ≤ s.tamanhoTotal.toNat := counted
  have size := s.chip.queue_length
  have restante : (s.tamanhoTotal - s.bytesRecebidos).toNat =
      s.tamanhoTotal.toNat - s.bytesRecebidos.toNat := BitVec.toNat_sub_of_le counted
  unfold bloco
  by_cases fewer : s.chip.getRxSize.zeroExtend 32 < s.tamanhoTotal - s.bytesRecebidos
  · have less := BitVec.lt_def.mp fewer
    simp only [if_pos fewer]
    simp only [BitVec.truncate_eq_setWidth, BitVec.toNat_setWidth] at less
    omega
  · have less := fewer
    rw [BitVec.lt_def] at less
    simp only [if_neg fewer]
    simp only [BitVec.truncate_eq_setWidth, BitVec.toNat_setWidth] at less ⊢
    omega

/-- Once the counter is past the announced size the subtraction wraps, and the block
is all that waits. -/
theorem bloco_toNat_of_lt {s : State} (passed : s.tamanhoTotal < s.bytesRecebidos)
    (small : s.bytesRecebidos.toNat ≤ 21) (room : s.chip.queue.length ≤ 2048) :
    (bloco s s.chip.getRxSize).toNat = s.chip.queue.length := by
  have less : s.tamanhoTotal.toNat < s.bytesRecebidos.toNat := passed
  have size := s.chip.queue_length
  have restante : (s.tamanhoTotal - s.bytesRecebidos).toNat =
      2 ^ 32 - s.bytesRecebidos.toNat + s.tamanhoTotal.toNat := by
    rw [BitVec.toNat_sub]
    omega
  have fewer : s.chip.getRxSize.zeroExtend 32 < s.tamanhoTotal - s.bytesRecebidos := by
    rw [BitVec.lt_def]
    simp only [BitVec.truncate_eq_setWidth, BitVec.toNat_setWidth]
    omega
  unfold bloco
  simp only [if_pos fewer]
  omega

end OrionBios.Receiver
