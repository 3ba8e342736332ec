import OrionBios.Crc.Crc32
import OrionBios.Transition.Runs

/-!
# The registers of the file server

`gerenciar_barramento_m68k` answers the accesses of the 68000 from the file that the server has
published and from the sector buffer of the SD card. Beside the next state, an access has the bytes
it puts into the FIFO and the places it reads through its pointers. The bus program gives the 68000
whatever is first in that FIFO, and core 1 puts the keys of the keyboard into the same one.
-/

namespace OrionBios.FileServer

open Crc Transition

inductive Operacao where
  | OPER_ESCRITA | OPER_LEITURA
  deriving DecidableEq, Repr

/-- The packet of the bus program. What a read of a sector leaves in the buffer is part of it. -/
structure Pacote where
  operacao : Operacao
  reg : BitVec 6
  dado : Byte
  block : Nat → Byte

/-- `SECTOR_DEF`, with the pointer to the card as whether it is set. -/
structure SectorDef where
  card : Bool
  buffer : Nat → Byte
  sector : BitVec 16

/-- The variables of the file and of the card. -/
structure Server where
  arquivoBuffer : Option (List Byte)
  arquivoPronto : Bool
  arquivoTamanho : BitVec 32
  ponteiroLeitura : BitVec 32
  arquivoCrc32 : BitVec 32
  ponteiroLeituraSetor : BitVec 16
  sd : SectorDef
  sdCounter : Int

def Server.initial : Server where
  arquivoBuffer := none
  arquivoPronto := false
  arquivoTamanho := 0
  ponteiroLeitura := 0
  arquivoCrc32 := 0
  ponteiroLeituraSetor := 0
  sd := ⟨false, fun _ => 0, 0⟩
  sdCounter := 0

/-- Where a byte is read: in the file, in the sector buffer, or through the pointer `sd0` in the
cases that do not set it. -/
inductive Place where
  | file (index : Nat)
  | sector (index : Nat)
  | unset (offset : Int)
  deriving DecidableEq, Repr

/-- The place belongs to an object that is there. -/
def Place.Inside (s : Server) : Place → Prop
  | .file index => ∃ file, s.arquivoBuffer = some file ∧ index < file.length
  | .sector index => index < 512
  | .unset _ => False

/-- What an access comes to. -/
structure Answer where
  puts : List Byte
  reads : List Place
  next : Server

/-- `get_sdcard_instance`; there always is a first card. -/
def getSdcardInstance (s : Server) : Server :=
  if s.sd.card then s else { s with sd := { s.sd with card := true, sector := 0 } }

section Access

variable (table : Table) (stray : Place → Byte)

/-- The byte at a place; what lies outside is a parameter. -/
def Server.byteAt (s : Server) : Place → Byte
  | .file index => ((s.arquivoBuffer.bind fun file => file[index]?).getD (stray (.file index)))
  | .sector index => if index < 512 then s.sd.buffer index else stray (.sector index)
  | .unset offset => stray (.unset offset)

/-- The end of the file is noticed by the access behind its last byte. -/
def Server.endOfFile (s : Server) : Server :=
  if s.arquivoPronto = false then s
  else if s.ponteiroLeitura ≥ s.arquivoTamanho then
    { s with ponteiroLeitura := 0, arquivoPronto := false }
  else s

def Server.put (s : Server) (byte : Byte) : Answer := ⟨[byte], [], s⟩

/-- `gerenciar_barramento_m68k` with a packet. The operation is decoded but not asked for. -/
def Server.access (s : Server) (pacote : Pacote) : Answer :=
  let s := s.endOfFile
  match pacote.reg.toNat with
  | 0x00 =>
    let place := Place.file s.ponteiroLeitura.toNat
    ⟨[s.byteAt stray place], [place], { s with ponteiroLeitura := s.ponteiroLeitura + 1 }⟩
  | 0x01 =>
    if s.arquivoPronto = false then s.put 0x00
    else if s.ponteiroLeitura < s.arquivoTamanho then s.put 0x01
    else s.put 0x02
  | 0x02 => s.put (s.arquivoTamanho.extractLsb' 8 8)
  | 0x03 => s.put (s.arquivoTamanho.extractLsb' 0 8)
  | 0x04 => s.put (s.arquivoCrc32.extractLsb' 24 8)
  | 0x05 => s.put (s.arquivoCrc32.extractLsb' 16 8)
  | 0x06 => s.put (s.arquivoCrc32.extractLsb' 8 8)
  | 0x07 => s.put (s.arquivoCrc32.extractLsb' 0 8)
  | 0x08 => { s with arquivoPronto := false }.put 0x00
  | 0x09 => ⟨[], [], s⟩
  | 0x0A =>
    let s := getSdcardInstance s
    ⟨[], [], { s with
      sd := { s.sd with sector := pacote.dado.setWidth 16 }
      ponteiroLeituraSetor := 0 }⟩
  | 0x0B =>
    let s := getSdcardInstance s
    ⟨[], [], { s with
      sd := { s.sd with sector := s.sd.sector ||| (pacote.dado.setWidth 16 <<< 8) }
      ponteiroLeituraSetor := 0 }⟩
  | 0x0C =>
    let s := getSdcardInstance s
    let s := { s with sd := { s.sd with buffer := pacote.block } }
    ⟨[], (List.range 512).map .sector, { s with
      arquivoCrc32 := Program.pico2W.crc32Calculate table ((List.range 512).map s.sd.buffer) }⟩
  | 0x0D =>
    let s := getSdcardInstance s
    let place := Place.sector s.ponteiroLeituraSetor.toNat
    ⟨[s.byteAt stray place], [place],
      { s with ponteiroLeituraSetor := s.ponteiroLeituraSetor + 1 }⟩
  | 0x15 => s.put 0x00
  | 0x20 => ⟨[0x00], [.unset 0], { s with sdCounter := 0 }⟩
  | 0x21 =>
    let place := Place.unset s.sdCounter
    ⟨[s.byteAt stray place], [place], { s with sdCounter := s.sdCounter + 1 }⟩
  | _ => s.put 0xFF

end Access

/-- The block of a file, whose length is a `uint32_t`. -/
abbrev Block := { bytes : List Byte // bytes.length < 2 ^ 32 }

/-- What `tcp_server_recv` does with a complete file. -/
def Server.publish (table : Table) (s : Server) (block : Block) : Server :=
  { s with
    arquivoBuffer := some block.val
    arquivoTamanho := BitVec.ofNat 32 block.val.length
    arquivoCrc32 := Program.pico2W.crc32Calculate table (block.val.drop 4)
    ponteiroLeitura := 0
    arquivoPronto := true }

/-! ## The protocol -/

def Pacote.DataRead (pacote : Pacote) : Prop := pacote.reg = 0 ∧ pacote.operacao = .OPER_LEITURA

instance (pacote : Pacote) : Decidable pacote.DataRead := instDecidableAnd

/-- An access of the 68000, with a number that tells it from the others. -/
structure Request where
  number : Nat
  pacote : Pacote

/-- A byte for the 68000, with where it comes from. -/
inductive Response where
  | key (byte : Byte)
  | answer (number : Nat) (byte : Byte)

/-- The server, the bus program and the two FIFOs of its state machine. -/
structure Bus where
  server : Server
  rx : List Request
  tx : List Response
  /-- The access that waits in `pull block`. -/
  held : Option Request
  /-- What core 0 has computed for an access and has not put yet. -/
  answering : Option Response
  accesses : Nat
  /-- The bytes of the last file that the 68000 has not read. -/
  unread : List Byte

def Bus.initial : Bus where
  server := .initial
  rx := []
  tx := []
  held := none
  answering := none
  accesses := 0
  unread := []

/-- A FIFO has four places; what does not fit is lost. -/
def pushFifo {α : Type} (fifo : List α) (item : α) : List α :=
  if fifo.length < 4 then fifo ++ [item] else fifo

inductive Event where
  /-- The 68000 begins a bus cycle. -/
  | access (pacote : Pacote)
  /-- Core 0 gets a packet, clears both FIFOs and looks at the register. -/
  | serve
  | put
  /-- Core 1 puts a key. -/
  | key (byte : Byte)
  | publish (block : Block)

section Protocol

/-- The bus program at an access: `push noblock` and `pull block`. -/
def Bus.begin (s : Bus) (pacote : Pacote) : Bus :=
  let request : Request := ⟨s.accesses, pacote⟩
  let s := { s with rx := pushFifo s.rx request, accesses := s.accesses + 1 }
  match s.tx with
  | [] => { s with held := some request }
  | _ :: rest => { s with tx := rest }

/-- A bus program that waits in `pull block` takes the byte at once. -/
def Bus.pioSmPut (s : Bus) (response : Response) : Bus :=
  match s.held with
  | some _ => { s with held := none }
  | none => { s with tx := pushFifo s.tx response }

variable (table : Table) (stray : Place → Byte)

def Bus.serve (s : Bus) (request : Request) : Bus :=
  let answer := s.server.access table stray request.pacote
  { s with
    server := answer.next
    rx := []
    tx := []
    answering := answer.puts.head?.map (.answer request.number)
    unread := if request.pacote.DataRead then s.unread.tail else s.unread }

def step (s : Bus) : Event → Option Bus
  | .access pacote => if s.held.isNone then some (s.begin pacote) else none
  | .serve => if s.answering.isNone then s.rx.head?.map (s.serve table stray) else none
  | .put => s.answering.map fun response => { s with answering := none }.pioSmPut response
  | .key byte => some (s.pioSmPut (.key byte))
  | .publish block =>
    some { s with server := s.server.publish table block, unread := block.val }

def given (s : Bus) : Event → Option (Request × Response)
  | .access pacote => s.tx.head?.map (⟨s.accesses, pacote⟩, ·)
  | .put => s.held.bind fun request => s.answering.map (request, ·)
  | .key byte => s.held.map (·, .key byte)
  | _ => none

/-- A key answers the keyboard's register, and a byte of core 0 the access that it is for. -/
def Response.Suits (request : Request) : Response → Prop
  | .key _ => request.pacote.reg = 0x09
  | .answer number _ => number = request.number

/-- What core 0 makes of an access. -/
structure Lawful (m : Bus) (pacote : Pacote) (answer : Answer) : Prop where
  /-- The register 0x09 is left to the keyboard. -/
  answered : answer.puts.length = if pacote.reg = 0x09 then 0 else 1
  inside : ∀ place ∈ answer.reads, place.Inside m.server
  data : pacote.DataRead → ∀ byte rest, m.unread = byte :: rest → answer.puts = [byte]
  once : ¬ pacote.DataRead ∨ m.unread = [] → ∀ index, Place.file index ∉ answer.reads
  sizeHigh : pacote.reg = 0x02 → ∀ byte ∈ answer.puts,
    byte.toNat = m.server.arquivoTamanho.toNat / 256
  sizeLow : pacote.reg = 0x03 → ∀ byte ∈ answer.puts,
    byte.toNat = m.server.arquivoTamanho.toNat % 256
  status : pacote.reg = 0x01 → m.unread = [] → answer.puts ≠ [0x01]

structure StepLawful (s : Bus) (event : Event) (next : Bus) : Prop where
  suits : ∀ request response, given s event = some (request, response) → response.Suits request
  served : event = .serve → ∀ request, s.rx.head? = some request →
    Lawful s request.pacote (s.server.access table stray request.pacote)
  /-- Core 0 turns to the access that waits. -/
  attended : ∀ request, next.held = some request → request.pacote.reg ≠ 0x09 →
    next.rx.head? = some request ∨ ∃ byte, next.answering = some (.answer request.number byte)

/-- The accesses that core 0 answers by the protocol. -/
structure Allowed (m : Bus) (pacote : Pacote) : Prop where
  answers : pacote.reg ∉ [(0x0A : BitVec 6), 0x0B, 0x0C, 0x20, 0x21]
  data : pacote.reg = 0x00 → pacote.operacao = .OPER_LEITURA ∧ m.unread ≠ []
  size : pacote.reg = 0x02 → m.server.arquivoTamanho.toNat < 65536
  sector : pacote.reg = 0x0D → m.server.ponteiroLeituraSetor.toNat < 512

/-- No key meets an access of another register than the keyboard's. -/
def EventAllowed (s : Bus) : Event → Prop
  | .access pacote => s.held = none → pacote.reg ≠ 0x09 → s.rx = [] ∧ s.tx = []
  | .serve => s.answering = none → ∀ request, s.rx.head? = some request →
      Allowed s request.pacote
  | .key _ => ∀ request, s.held = some request → request.pacote.reg = 0x09
  | .put | .publish _ => True

end Protocol

/-! ## What an access does -/

/-- The file and the place in it are the same. -/
structure SameFile (s t : Server) : Prop where
  buffer : t.arquivoBuffer = s.arquivoBuffer
  tamanho : t.arquivoTamanho = s.arquivoTamanho
  ponteiro : t.ponteiroLeitura = s.ponteiroLeitura
  pronto : t.arquivoPronto = true → s.arquivoPronto = true

theorem sameFile_rfl (s : Server) : SameFile s s := ⟨rfl, rfl, rfl, id⟩

variable {table : Table} {stray : Place → Byte} {s : Server} {pacote : Pacote}

theorem getSdcardInstance_same (s : Server) : SameFile s (getSdcardInstance s) := by
  unfold getSdcardInstance
  split
  · exact sameFile_rfl s
  · exact ⟨rfl, rfl, rfl, id⟩

theorem getSdcardInstance_setor (s : Server) :
    (getSdcardInstance s).ponteiroLeituraSetor = s.ponteiroLeituraSetor := by
  unfold getSdcardInstance
  split <;> rfl

theorem endOfFile_setor (s : Server) :
    s.endOfFile.ponteiroLeituraSetor = s.ponteiroLeituraSetor := by
  unfold Server.endOfFile
  split
  · rfl
  · split <;> rfl

/-- What an access comes to, by the kind of its register. -/
inductive Accessed (stray : Place → Byte) (s : Server) (reg : BitVec 6) (answer : Answer) : Prop where
  | data (isReg : reg = 0)
      (isAnswer : answer = ⟨[s.byteAt stray (.file s.ponteiroLeitura.toNat)],
        [.file s.ponteiroLeitura.toNat], { s with ponteiroLeitura := s.ponteiroLeitura + 1 }⟩)
  | status (isReg : reg = 0x01) (byte : Byte) (isAnswer : answer = s.put byte)
      (hasFile : byte = 0x01 → s.arquivoPronto = true ∧ s.ponteiroLeitura < s.arquivoTamanho)
  | sizeHigh (isReg : reg = 0x02) (isAnswer : answer = s.put (s.arquivoTamanho.extractLsb' 8 8))
  | sizeLow (isReg : reg = 0x03) (isAnswer : answer = s.put (s.arquivoTamanho.extractLsb' 0 8))
  | plain (other : reg ∉ [(0x00 : BitVec 6), 0x01, 0x02, 0x03, 0x09, 0x0D] ∧
        reg ∉ [(0x0A : BitVec 6), 0x0B, 0x0C, 0x20, 0x21]) (t : Server) (byte : Byte)
      (isAnswer : answer = t.put byte) (same : SameFile s t)
  | keyboard (isReg : reg = 0x09) (isAnswer : answer = ⟨[], [], s⟩)
  | silent (isReg : reg ∈ [(0x0A : BitVec 6), 0x0B, 0x0C]) (puts : answer.puts = [])
      (same : SameFile s answer.next)
  | sector (isReg : reg = 0x0D) (puts : answer.puts.length = 1)
      (reads : answer.reads = [.sector s.ponteiroLeituraSetor.toNat])
      (same : SameFile s answer.next)
  | unset (isReg : reg ∈ [(0x20 : BitVec 6), 0x21]) (offset : Int)
      (reads : .unset offset ∈ answer.reads) (same : SameFile s answer.next)

theorem accessed (s : Server) (pacote : Pacote) :
    Accessed stray s.endOfFile pacote.reg (s.access table stray pacote) := by
  obtain ⟨operacao, reg, dado, block⟩ := pacote
  unfold Server.access
  dsimp only
  generalize s.endOfFile = s
  have isReg : ∀ {number : BitVec 6}, reg.toNat = number.toNat → reg = number :=
    BitVec.eq_of_toNat_eq
  have same := sameFile_rfl s
  have cardSame := getSdcardInstance_same s
  split
  next found => exact .data (isReg found) rfl
  next found =>
    by_cases closed : s.arquivoPronto = false
    · rw [if_pos closed]
      exact .status (isReg found) 0x00 rfl fun one => absurd one (by decide)
    · rw [if_neg closed]
      by_cases unread : s.ponteiroLeitura < s.arquivoTamanho
      · rw [if_pos unread]
        exact .status (isReg found) 0x01 rfl fun _ => ⟨Bool.eq_true_of_not_eq_false closed, unread⟩
      · rw [if_neg unread]
        exact .status (isReg found) 0x02 rfl fun one => absurd one (by decide)
  next found => exact .sizeHigh (isReg found) rfl
  next found => exact .sizeLow (isReg found) rfl
  next found =>
    obtain rfl : reg = 0x04 := isReg found
    exact .plain (by decide) s _ rfl same
  next found =>
    obtain rfl : reg = 0x05 := isReg found
    exact .plain (by decide) s _ rfl same
  next found =>
    obtain rfl : reg = 0x06 := isReg found
    exact .plain (by decide) s _ rfl same
  next found =>
    obtain rfl : reg = 0x07 := isReg found
    exact .plain (by decide) s _ rfl same
  next found =>
    obtain rfl : reg = 0x08 := isReg found
    exact .plain (by decide) _ _ rfl ⟨rfl, rfl, rfl, nofun⟩
  next found =>
    exact .keyboard (isReg found) rfl
  next found =>
    obtain rfl : reg = 0x0A := isReg found
    exact .silent (by decide) rfl ⟨cardSame.1, cardSame.2, cardSame.3, cardSame.4⟩
  next found =>
    obtain rfl : reg = 0x0B := isReg found
    exact .silent (by decide) rfl ⟨cardSame.1, cardSame.2, cardSame.3, cardSame.4⟩
  next found =>
    obtain rfl : reg = 0x0C := isReg found
    exact .silent (by decide) rfl ⟨cardSame.1, cardSame.2, cardSame.3, cardSame.4⟩
  next found =>
    refine .sector (isReg found) rfl ?_ ⟨cardSame.1, cardSame.2, cardSame.3, cardSame.4⟩
    rw [getSdcardInstance_setor]
  next found =>
    obtain rfl : reg = 0x15 := isReg found
    exact .plain (by decide) s _ rfl same
  next found =>
    obtain rfl : reg = 0x20 := isReg found
    exact .unset (by decide) 0 List.mem_cons_self ⟨rfl, rfl, rfl, id⟩
  next found =>
    obtain rfl : reg = 0x21 := isReg found
    exact .unset (by decide) _ List.mem_cons_self ⟨rfl, rfl, rfl, id⟩
  next =>
    refine .plain ⟨?_, ?_⟩ s _ rfl same
    · intro member
      simp only [List.mem_cons, List.not_mem_nil, or_false] at member
      rcases member with rfl | rfl | rfl | rfl | rfl | rfl <;> contradiction
    · intro member
      simp only [List.mem_cons, List.not_mem_nil, or_false] at member
      rcases member with rfl | rfl | rfl | rfl | rfl <;> contradiction

/-! ## The place in the file -/

/-- What is unread lies behind the pointer, or there is nothing and the file is not ready. -/
def Tracks (s : Server) (unread : List Byte) : Prop :=
  (∃ file, s.arquivoBuffer = some file ∧ s.arquivoTamanho.toNat = file.length ∧
      s.ponteiroLeitura.toNat ≤ file.length ∧ unread = file.drop s.ponteiroLeitura.toNat) ∨
    unread = [] ∧ s.arquivoPronto = false

variable {m : Bus} {unread rest : List Byte} {byte : Byte}

theorem Tracks.same {t : Server} (tracks : Tracks s unread) (same : SameFile s t) :
    Tracks t unread := by
  obtain ⟨buffer, tamanho, ponteiro, pronto⟩ := same
  rcases tracks with place | ⟨nothing, closed⟩
  · left
    rw [buffer, tamanho, ponteiro]
    exact place
  · right
    refine ⟨nothing, Bool.eq_false_iff.mpr fun opened => ?_⟩
    rw [pronto opened] at closed
    cases closed

theorem endOfFile_buffer (s : Server) : s.endOfFile.arquivoBuffer = s.arquivoBuffer ∧
    s.endOfFile.arquivoTamanho = s.arquivoTamanho := by
  unfold Server.endOfFile
  split
  · exact ⟨rfl, rfl⟩
  · split <;> exact ⟨rfl, rfl⟩

theorem Tracks.endOfFile (tracks : Tracks s unread) : Tracks s.endOfFile unread := by
  unfold Server.endOfFile
  by_cases closed : s.arquivoPronto = false
  · rw [if_pos closed]
    exact tracks
  · rw [if_neg closed]
    by_cases ended : s.ponteiroLeitura ≥ s.arquivoTamanho
    · rw [if_pos ended]
      rcases tracks with ⟨file, -, tamanho, -, rfl⟩ | ⟨-, closed'⟩
      · refine Or.inr ⟨List.drop_eq_nil_of_le ?_, rfl⟩
        rw [← tamanho]
        exact ended
      · exact absurd closed' closed
    · rw [if_neg ended]
      exact tracks

/-- While bytes are unread, the pointer is at the first of them, also after the end was looked
for. -/
theorem Tracks.next_byte (tracks : Tracks s (byte :: rest)) :
    ∃ file, s.arquivoBuffer = some file ∧ s.arquivoTamanho.toNat = file.length ∧
      s.endOfFile.ponteiroLeitura = s.ponteiroLeitura ∧
      file[s.ponteiroLeitura.toNat]? = some byte ∧
      rest = file.drop (s.ponteiroLeitura.toNat + 1) := by
  rcases tracks with ⟨file, buffer, tamanho, -, unread⟩ | ⟨nothing, -⟩
  · have first : file[s.ponteiroLeitura.toNat]? = some byte := by
      rw [← List.head?_drop, ← unread]
      rfl
    refine ⟨file, buffer, tamanho, ?_, first, ?_⟩
    · have inside : s.ponteiroLeitura.toNat < file.length :=
        (List.getElem?_eq_some_iff.mp first).1
      have notEnded : ¬ s.ponteiroLeitura ≥ s.arquivoTamanho := by
        rw [ge_iff_le, BitVec.le_def, tamanho]
        omega
      unfold Server.endOfFile
      rw [if_neg notEnded, ite_self]
    · rw [← List.tail_drop, ← unread]
      rfl
  · cases nothing

theorem Tracks.read (tracks : Tracks s (byte :: rest)) :
    Tracks { s.endOfFile with ponteiroLeitura := s.endOfFile.ponteiroLeitura + 1 } rest := by
  obtain ⟨file, buffer, tamanho, pointer, first, isRest⟩ := tracks.next_byte
  obtain ⟨sameBuffer, sameTamanho⟩ := endOfFile_buffer s
  have inside : s.ponteiroLeitura.toNat < file.length := (List.getElem?_eq_some_iff.mp first).1
  have size := s.arquivoTamanho.isLt
  have next : (s.ponteiroLeitura + 1).toNat = s.ponteiroLeitura.toNat + 1 := by
    have one : (1 : BitVec 32).toNat = 1 := rfl
    rw [BitVec.toNat_add, one]
    exact Nat.mod_eq_of_lt (by omega)
  left
  refine ⟨file, sameBuffer.trans buffer, (congrArg _ sameTamanho).trans tamanho, ?_, ?_⟩
  · dsimp only
    rw [pointer, next]
    omega
  · dsimp only
    rw [pointer, next]
    exact isRest

theorem Tracks.publish (block : Block) : Tracks (s.publish table block) block.val := by
  left
  refine ⟨block.val, rfl, ?_, Nat.zero_le _, rfl⟩
  exact Nat.mod_eq_of_lt block.property

/-! ## The protocol holds for the accesses described -/

theorem Lawful.of_put {answer : Answer} (put : answer.puts = [byte]) (reads : answer.reads = [])
    (noData : pacote.reg ≠ 0) (noKey : pacote.reg ≠ 0x09)
    (sizeHigh : pacote.reg = 0x02 → byte.toNat = m.server.arquivoTamanho.toNat / 256)
    (sizeLow : pacote.reg = 0x03 → byte.toNat = m.server.arquivoTamanho.toNat % 256)
    (status : pacote.reg = 0x01 → m.unread = [] → byte ≠ 0x01) : Lawful m pacote answer := by
  constructor
  · rw [put, if_neg noKey]
    rfl
  · rw [reads]
    exact List.forall_mem_nil _
  · exact fun isData => absurd isData.1 noData
  · rw [reads]
    exact fun _ index => List.not_mem_nil
  · rw [put]
    exact fun isReg other member => List.mem_singleton.mp member ▸ sizeHigh isReg
  · rw [put]
    exact fun isReg other member => List.mem_singleton.mp member ▸ sizeLow isReg
  · rw [put]
    exact fun isReg nothing one => status isReg nothing (List.singleton_inj.mp one)

theorem allowed_of_other (other : pacote.reg ∉ [(0x00 : BitVec 6), 0x02, 0x0D])
    (answers : pacote.reg ∉ [(0x0A : BitVec 6), 0x0B, 0x0C, 0x20, 0x21]) :
    Allowed m pacote := by
  simp only [List.mem_cons, List.not_mem_nil, or_false, not_or] at other
  exact ⟨answers, fun data => absurd data other.1, fun size => absurd size other.2.1,
    fun sector => absurd sector other.2.2⟩

theorem lawful_data_iff (tracks : Tracks m.server m.unread) (isReg : pacote.reg = 0)
    {answer : Answer} (isAnswer : answer =
      ⟨[m.server.endOfFile.byteAt stray (.file m.server.endOfFile.ponteiroLeitura.toNat)],
        [.file m.server.endOfFile.ponteiroLeitura.toNat],
        { m.server.endOfFile with
          ponteiroLeitura := m.server.endOfFile.ponteiroLeitura + 1 }⟩) :
    Lawful m pacote answer ↔ Allowed m pacote := by
  have elsewhere : ∀ {number : BitVec 6}, number ≠ 0 → pacote.reg ≠ number := by
    rintro number other rfl
    exact other isReg
  constructor
  · intro lawful
    have reads : Place.file m.server.endOfFile.ponteiroLeitura.toNat ∈ answer.reads := by
      rw [isAnswer]
      exact List.mem_cons_self
    refine ⟨by rw [isReg]; decide, fun _ => ⟨?_, ?_⟩, fun size => absurd size (elsewhere (by decide)),
      fun sector => absurd sector (elsewhere (by decide))⟩
    · by_contra written
      exact lawful.once (Or.inl fun read => written read.2) _ reads
    · exact fun nothing => lawful.once (Or.inr nothing) _ reads
  · intro allowed
    obtain ⟨isRead, some⟩ := allowed.data isReg
    obtain ⟨byte, rest, unread⟩ := List.exists_cons_of_ne_nil some
    rw [unread] at tracks
    obtain ⟨file, buffer, tamanho, pointer, first, -⟩ := tracks.next_byte
    have inside := (List.getElem?_eq_some_iff.mp first).1
    have isByte : m.server.endOfFile.byteAt stray (.file m.server.endOfFile.ponteiroLeitura.toNat) =
        byte := by
      unfold Server.byteAt
      dsimp only
      rw [(endOfFile_buffer m.server).1, buffer, pointer, Option.bind_some, first]
      rfl
    rw [isByte] at isAnswer
    subst isAnswer
    constructor
    · rw [if_neg (elsewhere (by decide))]
      rfl
    · intro place member
      rw [List.mem_singleton.mp member, pointer]
      exact ⟨file, buffer, inside⟩
    · intro _ byte' rest' same
      rw [unread] at same
      cases same
      rfl
    · rintro (written | nothing)
      · exact absurd ⟨isReg, isRead⟩ written
      · exact absurd nothing some
    · exact fun size => absurd size (elsewhere (by decide))
    · exact fun size => absurd size (elsewhere (by decide))
    · exact fun status => absurd status (elsewhere (by decide))

section Kinds

variable {answer : Answer}

theorem ne_of_reg {number other : BitVec 6} (isReg : pacote.reg = number) (apart : number ≠ other) :
    pacote.reg ≠ other := fun same => apart (isReg.symm.trans same)

theorem lawful_status (ended : Tracks m.server.endOfFile m.unread) (isReg : pacote.reg = 0x01)
    (isAnswer : answer = m.server.endOfFile.put byte)
    (hasFile : byte = 0x01 → m.server.endOfFile.arquivoPronto = true ∧
      m.server.endOfFile.ponteiroLeitura < m.server.endOfFile.arquivoTamanho) :
    Lawful m pacote answer := by
  subst isAnswer
  have elsewhere := @ne_of_reg pacote 0x01
  refine Lawful.of_put rfl rfl (elsewhere isReg (by decide)) (elsewhere isReg (by decide))
    (fun isHigh => absurd isHigh (elsewhere isReg (by decide)))
    (fun isLow => absurd isLow (elsewhere isReg (by decide))) ?_
  intro _ nothing one
  obtain ⟨opened, less⟩ := hasFile one
  rcases ended with ⟨file, -, tamanho, -, unread⟩ | ⟨-, closed⟩
  · rw [nothing] at unread
    have beyond := List.drop_eq_nil_iff.mp unread.symm
    rw [← tamanho] at beyond
    exact absurd less (BitVec.not_lt.mpr beyond)
  · rw [opened] at closed
    cases closed

theorem lawful_sizeHigh_iff (isReg : pacote.reg = 0x02)
    (isAnswer : answer =
      m.server.endOfFile.put (m.server.endOfFile.arquivoTamanho.extractLsb' 8 8)) :
    Lawful m pacote answer ↔ Allowed m pacote := by
  subst isAnswer
  have elsewhere := @ne_of_reg pacote 0x02
  have high : (m.server.endOfFile.arquivoTamanho.extractLsb' 8 8).toNat =
      m.server.arquivoTamanho.toNat / 256 % 256 := by
    rw [(endOfFile_buffer m.server).2, BitVec.extractLsb'_toNat, Nat.shiftRight_eq_div_pow]
  constructor
  · intro lawful
    have whole := lawful.sizeHigh isReg _ List.mem_cons_self
    rw [high] at whole
    refine ⟨by rw [isReg]; decide, fun data => absurd data (elsewhere isReg (by decide)),
      fun _ => by omega, fun sector => absurd sector (elsewhere isReg (by decide))⟩
  · intro allowed
    have small := allowed.size isReg
    refine Lawful.of_put rfl rfl (elsewhere isReg (by decide)) (elsewhere isReg (by decide))
      (fun _ => ?_) (fun isLow => absurd isLow (elsewhere isReg (by decide)))
      (fun status => absurd status (elsewhere isReg (by decide)))
    rw [high]
    omega

theorem lawful_sizeLow (isReg : pacote.reg = 0x03)
    (isAnswer : answer =
      m.server.endOfFile.put (m.server.endOfFile.arquivoTamanho.extractLsb' 0 8)) :
    Lawful m pacote answer := by
  subst isAnswer
  have elsewhere := @ne_of_reg pacote 0x03
  refine Lawful.of_put rfl rfl (elsewhere isReg (by decide)) (elsewhere isReg (by decide))
    (fun isHigh => absurd isHigh (elsewhere isReg (by decide))) (fun _ => ?_)
    (fun status => absurd status (elsewhere isReg (by decide)))
  rw [(endOfFile_buffer m.server).2, BitVec.extractLsb'_toNat, Nat.shiftRight_zero]

theorem lawful_keyboard {s : Server} (isReg : pacote.reg = 0x09) (isAnswer : answer = ⟨[], [], s⟩) :
    Lawful m pacote answer := by
  subst isAnswer
  have elsewhere := @ne_of_reg pacote 0x09
  constructor
  · rw [if_pos isReg]
    rfl
  · exact List.forall_mem_nil _
  · exact fun isData => absurd isData.1 (elsewhere isReg (by decide))
  · exact fun _ index => List.not_mem_nil
  · exact fun isHigh => absurd isHigh (elsewhere isReg (by decide))
  · exact fun isLow => absurd isLow (elsewhere isReg (by decide))
  · exact fun status => absurd status (elsewhere isReg (by decide))

theorem not_lawful_silent (isReg : pacote.reg ∈ [(0x0A : BitVec 6), 0x0B, 0x0C])
    (puts : answer.puts = []) : ¬ Lawful m pacote answer := by
  intro lawful
  have noKey : pacote.reg ≠ 0x09 := by
    intro key
    rw [key] at isReg
    exact absurd isReg (by decide)
  have answered := lawful.answered
  rw [puts, if_neg noKey] at answered
  cases answered

theorem lawful_sector_iff (isReg : pacote.reg = 0x0D) (puts : answer.puts.length = 1)
    (reads : answer.reads = [.sector m.server.ponteiroLeituraSetor.toNat]) :
    Lawful m pacote answer ↔ Allowed m pacote := by
  have elsewhere := @ne_of_reg pacote 0x0D
  constructor
  · intro lawful
    refine ⟨by rw [isReg]; decide, fun data => absurd data (elsewhere isReg (by decide)),
      fun size => absurd size (elsewhere isReg (by decide)), fun _ => ?_⟩
    refine lawful.inside (.sector m.server.ponteiroLeituraSetor.toNat) ?_
    rw [reads]
    exact List.mem_cons_self
  · intro allowed
    constructor
    · rw [puts, isReg]
      rfl
    · intro place member
      rw [reads] at member
      rw [List.mem_singleton.mp member]
      exact allowed.sector isReg
    · exact fun data => absurd data.1 (elsewhere isReg (by decide))
    · intro _ index member
      rw [reads] at member
      cases List.mem_singleton.mp member
    · exact fun isHigh => absurd isHigh (elsewhere isReg (by decide))
    · exact fun isLow => absurd isLow (elsewhere isReg (by decide))
    · exact fun status => absurd status (elsewhere isReg (by decide))

end Kinds

theorem lawful_iff (tracks : Tracks m.server m.unread) :
    Lawful m pacote (m.server.access table stray pacote) ↔ Allowed m pacote := by
  have kind := @accessed table stray m.server pacote
  generalize m.server.access table stray pacote = answer at kind ⊢
  cases kind with
  | data isReg isAnswer => exact lawful_data_iff tracks isReg isAnswer
  | status isReg byte isAnswer hasFile =>
      refine iff_of_true (lawful_status tracks.endOfFile isReg isAnswer hasFile)
        (allowed_of_other ?_ ?_) <;> rw [isReg] <;> decide
  | sizeHigh isReg isAnswer => exact lawful_sizeHigh_iff isReg isAnswer
  | sizeLow isReg isAnswer =>
      refine iff_of_true (lawful_sizeLow isReg isAnswer) (allowed_of_other ?_ ?_) <;>
        rw [isReg] <;> decide
  | plain other t byte isAnswer same =>
      subst isAnswer
      obtain ⟨other, answers⟩ := other
      simp only [List.mem_cons, List.not_mem_nil, or_false, not_or] at other
      obtain ⟨noData, noStatus, noHigh, noLow, noKey, noSector⟩ := other
      refine iff_of_true (Lawful.of_put rfl rfl noData noKey (absurd · noHigh) (absurd · noLow)
        (absurd · noStatus)) (allowed_of_other ?_ answers)
      simp only [List.mem_cons, List.not_mem_nil, or_false, not_or]
      exact ⟨noData, noHigh, noSector⟩
  | keyboard isReg isAnswer =>
      refine iff_of_true (lawful_keyboard isReg isAnswer) (allowed_of_other ?_ ?_) <;>
        rw [isReg] <;> decide
  | silent isReg puts same =>
      refine iff_of_false (not_lawful_silent isReg puts) fun allowed => allowed.answers ?_
      simp only [List.mem_cons, List.not_mem_nil, or_false] at isReg ⊢
      tauto
  | sector isReg puts reads same =>
      rw [endOfFile_setor] at reads
      exact lawful_sector_iff isReg puts reads
  | unset isReg offset reads same =>
      refine iff_of_false (fun lawful => lawful.inside _ reads) fun allowed => allowed.answers ?_
      simp only [List.mem_cons, List.not_mem_nil, or_false] at isReg ⊢
      tauto

theorem Accessed.same {reg : BitVec 6} {answer : Answer} (kind : Accessed stray s reg answer)
    (other : reg ≠ 0) : SameFile s answer.next := by
  cases kind with
  | data isReg _ => exact absurd isReg other
  | status _ byte isAnswer _ =>
      rw [isAnswer]
      exact sameFile_rfl s
  | sizeHigh _ isAnswer =>
      rw [isAnswer]
      exact sameFile_rfl s
  | sizeLow _ isAnswer =>
      rw [isAnswer]
      exact sameFile_rfl s
  | plain _ t byte isAnswer same =>
      rw [isAnswer]
      exact same
  | keyboard _ isAnswer =>
      rw [isAnswer]
      exact sameFile_rfl s
  | silent _ _ same => exact same
  | sector _ _ _ same => exact same
  | unset _ _ _ same => exact same

theorem access_data (isReg : pacote.reg = 0) : (s.access table stray pacote).next =
    { s.endOfFile with ponteiroLeitura := s.endOfFile.ponteiroLeitura + 1 } := by
  unfold Server.access
  rw [isReg]
  rfl

theorem Tracks.access (tracks : Tracks m.server m.unread) (allowed : Allowed m pacote) :
    Tracks (m.server.access table stray pacote).next
      (if pacote.DataRead then m.unread.tail else m.unread) := by
  by_cases isReg : pacote.reg = 0
  · obtain ⟨isRead, some⟩ := allowed.data isReg
    obtain ⟨byte, rest, unread⟩ := List.exists_cons_of_ne_nil some
    have read : pacote.DataRead := ⟨isReg, isRead⟩
    rw [if_pos read, access_data isReg, unread]
    rw [unread] at tracks
    exact tracks.read
  · rw [if_neg fun read => isReg read.1]
    exact tracks.endOfFile.same ((@accessed table stray m.server pacote).same isReg)

/-! ## The bus program and the keyboard -/

/-- The bus program and core 0 are at the same access, and only keys are in the FIFO. -/
structure Synced (s : Bus) : Prop where
  tracks : Tracks s.server s.unread
  keys : ∀ response ∈ s.tx, ∃ byte, response = .key byte
  /-- Between accesses, and while the keyboard's register waits for a key. -/
  free : (∀ request, s.held = some request → request.pacote.reg = 0x09) →
    s.answering = none ∧ ∀ request ∈ s.rx, request.pacote.reg = 0x09
  waits : s.held ≠ none → s.tx = []
  busy : ∀ request, s.held = some request → request.pacote.reg ≠ 0x09 →
    s.rx = [request] ∧ s.answering = none ∨
      s.rx = [] ∧ ∃ byte, s.answering = some (.answer request.number byte)

theorem synced_initial : Synced Bus.initial where
  tracks := .inr ⟨rfl, rfl⟩
  keys := List.forall_mem_nil _
  free _ := ⟨rfl, List.forall_mem_nil _⟩
  waits held := absurd rfl held
  busy _ held := by cases held

variable {b next : Bus} {event : Event}

theorem mem_pushFifo {α : Type} {fifo : List α} {item other : α} (among : other ∈ pushFifo fifo item) :
    other ∈ fifo ∨ other = item := by
  unfold pushFifo at among
  split at among
  · exact (List.mem_append.mp among).imp_right List.mem_singleton.mp
  · exact .inl among

/-- The bus program waits for the keyboard, or there is no access. -/
def Open (b : Bus) : Prop := ∀ request, b.held = some request → request.pacote.reg = 0x09

theorem open_of_none (held : b.held = none) : Open b := fun _ some => by
  rw [held] at some
  cases some

/-! ### An access -/

theorem Synced.access_keyboard (synced : Synced b) {pacote : Pacote} (held : b.held = none)
    (keyboard : pacote.reg = 0x09) : Synced (b.begin pacote) := by
  obtain ⟨idle, earlier⟩ := synced.free (open_of_none held)
  have all : ∀ request ∈ pushFifo b.rx ⟨b.accesses, pacote⟩, request.pacote.reg = 0x09 := by
    intro request among
    rcases mem_pushFifo among with among | rfl
    · exact earlier request among
    · exact keyboard
  unfold Bus.begin
  cases tx : b.tx with
  | nil =>
      refine ⟨synced.tracks, List.forall_mem_nil _, fun _ => ⟨idle, all⟩, fun _ => rfl, ?_⟩
      intro request same other
      cases same
      exact absurd keyboard other
  | cons first rest =>
      refine ⟨synced.tracks, ?_, fun _ => ⟨idle, all⟩, fun some => absurd held some, ?_⟩
      · intro response among
        exact synced.keys response (by rw [tx]; exact List.mem_cons_of_mem _ among)
      · intro request same
        have same : b.held = some request := same
        rw [held] at same
        cases same

theorem Synced.access_other (synced : Synced b) {pacote : Pacote} (held : b.held = none)
    (other : pacote.reg ≠ 0x09) (rx : b.rx = []) (tx : b.tx = []) : Synced (b.begin pacote) := by
  have idle := (synced.free (open_of_none held)).1
  unfold Bus.begin
  simp only [rx, tx, pushFifo, List.length_nil, Nat.zero_lt_succ, if_true, List.nil_append]
  refine ⟨synced.tracks, List.forall_mem_nil _, ?_, fun _ => rfl, ?_⟩
  · exact fun keyboard => absurd (keyboard _ rfl) other
  · intro request same _
    cases same
    exact .inl ⟨rfl, idle⟩

theorem lawful_access_iff (synced : Synced b) {pacote : Pacote} (held : b.held = none) :
    StepLawful table stray b (.access pacote) (b.begin pacote) ↔ EventAllowed b (.access pacote) := by
  obtain ⟨idle, earlier⟩ := synced.free (open_of_none held)
  by_cases keyboard : pacote.reg = 0x09
  · refine iff_of_true ⟨?_, nofun, ?_⟩ fun _ other => absurd keyboard other
    · intro request response same
      obtain ⟨first, among, pair⟩ := Option.map_eq_some_iff.mp same
      obtain ⟨rfl, rfl⟩ := Prod.mk.inj pair
      obtain ⟨byte, rfl⟩ := synced.keys first (List.mem_of_mem_head? among)
      exact keyboard
    · intro request same other
      unfold Bus.begin at same
      cases tx : b.tx with
      | nil =>
          rw [tx] at same
          cases same
          exact absurd keyboard other
      | cons first rest =>
          rw [tx] at same
          have same : b.held = some request := same
          rw [held] at same
          cases same
  · constructor
    · intro lawful _ _
      have tx : b.tx = [] := by
        match found : b.tx with
        | [] => rfl
        | first :: rest =>
            obtain ⟨byte, rfl⟩ := synced.keys first (by rw [found]; exact List.mem_cons_self)
            exact absurd (lawful.suits ⟨b.accesses, pacote⟩ (.key byte)
              (by rw [given, found]; rfl)) keyboard
      refine ⟨?_, tx⟩
      have attended := lawful.attended ⟨b.accesses, pacote⟩
        (by unfold Bus.begin; rw [tx]) keyboard
      simp only [Bus.begin, tx] at attended
      rcases attended with first | ⟨byte, answering⟩
      · match found : b.rx with
        | [] => rfl
        | request :: rest =>
            have key := earlier request (by rw [found]; exact List.mem_cons_self)
            have same : request = ⟨b.accesses, pacote⟩ := by
              rw [found, pushFifo] at first
              split at first <;> exact Option.some.inj first
            rw [same] at key
            exact absurd key keyboard
      · rw [idle] at answering
        cases answering
    · intro allowed
      obtain ⟨rx, tx⟩ := allowed held keyboard
      refine ⟨?_, nofun, ?_⟩
      · intro request response same
        rw [given, tx] at same
        cases same
      · intro request same _
        left
        simp only [Bus.begin, rx, tx, pushFifo, List.length_nil, Nat.zero_lt_succ, if_true,
          List.nil_append] at same ⊢
        rw [← same]
        rfl

/-! ### Core 0 -/

theorem answering_of_lawful {answer : Answer} (lawful : Lawful b pacote answer)
    (other : pacote.reg ≠ 0x09) : ∃ byte, answer.puts.head? = some byte := by
  have one := lawful.answered
  rw [if_neg other] at one
  match found : answer.puts with
  | [] =>
      rw [found] at one
      cases one
  | byte :: rest => exact ⟨byte, rfl⟩

theorem silent_of_keyboard {answer : Answer} (lawful : Lawful b pacote answer)
    (keyboard : pacote.reg = 0x09) : answer.puts.head? = none := by
  have none := lawful.answered
  rw [if_pos keyboard] at none
  rw [List.eq_nil_of_length_eq_zero none]
  rfl

theorem Synced.serve (synced : Synced b) {request : Request} (first : b.rx.head? = some request)
    (allowed : Allowed b request.pacote) : Synced (b.serve table stray request) := by
  have lawful : Lawful b request.pacote (b.server.access table stray request.pacote) :=
    (lawful_iff synced.tracks).mpr allowed
  have among : request ∈ b.rx := List.mem_of_mem_head? first
  refine ⟨synced.tracks.access allowed, List.forall_mem_nil _, ?_, fun _ => rfl, ?_⟩
  · intro opened
    have keyboard := (synced.free opened).2 request among
    refine ⟨?_, List.forall_mem_nil _⟩
    show Option.map _ _ = none
    rw [silent_of_keyboard lawful keyboard]
    rfl
  · intro other held noKey
    rcases synced.busy other held noKey with ⟨rx, _⟩ | ⟨rx, _⟩
    · rw [rx] at first
      cases first
      obtain ⟨byte, puts⟩ := answering_of_lawful lawful noKey
      refine .inr ⟨rfl, byte, ?_⟩
      show Option.map _ _ = _
      rw [puts]
      rfl
    · rw [rx] at first
      cases first

theorem lawful_serve_iff (synced : Synced b) {request : Request} (idle : b.answering = none)
    (first : b.rx.head? = some request) :
    StepLawful table stray b .serve (b.serve table stray request) ↔ EventAllowed b .serve := by
  constructor
  · intro lawful _ other same
    exact (lawful_iff synced.tracks).mp (lawful.served rfl other same)
  · intro allowed
    have after : Synced (b.serve table stray request) :=
      synced.serve first (allowed idle request first)
    refine ⟨nofun, fun _ other same =>
      (lawful_iff synced.tracks).mpr (allowed idle other same), ?_⟩
    intro other held noKey
    rcases after.busy other held noKey with ⟨rx, _⟩ | ⟨_, answering⟩
    · exact .inl (by rw [rx]; rfl)
    · exact .inr answering

theorem Synced.answers (synced : Synced b) {response : Response}
    (answering : b.answering = some response) :
    ∃ request byte, b.held = some request ∧ request.pacote.reg ≠ 0x09 ∧ b.rx = [] ∧
      response = .answer request.number byte := by
  have shut : ¬ Open b := fun opened => by
    rw [(synced.free opened).1] at answering
    cases answering
  simp only [Open, not_forall] at shut
  obtain ⟨request, held, other⟩ := shut
  rcases synced.busy request held other with ⟨_, idle⟩ | ⟨rx, byte, same⟩
  · rw [idle] at answering
    cases answering
  · rw [answering] at same
    cases same
    exact ⟨request, byte, held, other, rx, rfl⟩

theorem Synced.put_held (synced : Synced b) {request : Request} {response : Response}
    (held : b.held = some request)
    (idle : b.answering = none) (rest : ∀ request ∈ b.rx, request.pacote.reg = 0x09) :
    Synced (b.pioSmPut response) := by
  unfold Bus.pioSmPut
  rw [held]
  exact ⟨synced.tracks, synced.keys, fun _ => ⟨idle, rest⟩, fun some => absurd rfl some,
    fun _ same => by cases same⟩

theorem pioSmPut_free (held : b.held = none) (response : Response) :
    b.pioSmPut response = { b with tx := pushFifo b.tx response } := by
  unfold Bus.pioSmPut
  rw [held]

theorem Synced.key (synced : Synced b) {byte : Byte} (allowed : Open b) :
    Synced (b.pioSmPut (.key byte)) := by
  obtain ⟨idle, rest⟩ := synced.free allowed
  cases held : b.held with
  | some request => exact synced.put_held held idle rest
  | none =>
      rw [pioSmPut_free held]
      refine ⟨synced.tracks, ?_, fun _ => ⟨idle, rest⟩, fun some => absurd held some, ?_⟩
      · intro response among
        rcases mem_pushFifo among with among | rfl
        · exact synced.keys response among
        · exact ⟨byte, rfl⟩
      · intro request same
        have same : b.held = some request := same
        rw [held] at same
        cases same

theorem held_pioSmPut (b : Bus) (response : Response) : (b.pioSmPut response).held = none := by
  unfold Bus.pioSmPut
  split
  · rfl
  · assumption

theorem lawful_key_iff {byte : Byte} :
    StepLawful table stray b (.key byte) (b.pioSmPut (.key byte)) ↔ EventAllowed b (.key byte) := by
  constructor
  · intro lawful request held
    exact lawful.suits request (.key byte) (by rw [given, held]; rfl)
  · intro allowed
    refine ⟨?_, nofun, fun request same => ?_⟩
    · intro request response same
      obtain ⟨other, held, pair⟩ := Option.map_eq_some_iff.mp same
      cases pair
      exact allowed request held
    · rw [held_pioSmPut] at same
      cases same

theorem Synced.put (synced : Synced b) {response : Response}
    (answering : b.answering = some response) :
    Synced ({ b with answering := none }.pioSmPut response) ∧
      StepLawful table stray b .put ({ b with answering := none }.pioSmPut response) := by
  obtain ⟨request, byte, held, other, rx, rfl⟩ := synced.answers answering
  have tx : b.tx = [] := synced.waits (by rw [held]; exact Option.some_ne_none _)
  constructor
  · unfold Bus.pioSmPut
    simp only [held]
    refine ⟨synced.tracks, synced.keys, fun _ => ⟨rfl, ?_⟩, fun _ => tx,
      fun _ same => by cases same⟩
    rw [show _ = [] from rx]
    exact List.forall_mem_nil _
  · refine ⟨?_, nofun, fun _ same => ?_⟩
    · intro request' response' same
      rw [given, held, answering] at same
      cases same
      rfl
    · rw [held_pioSmPut] at same
      cases same

theorem Synced.publish (synced : Synced b) (block : Block) :
    Synced { b with server := b.server.publish table block, unread := block.val } :=
  ⟨Tracks.publish block, synced.keys, synced.free, synced.waits, synced.busy⟩

theorem lawful_publish (synced : Synced b) (block : Block) :
    StepLawful table stray b (.publish block)
      { b with server := b.server.publish table block, unread := block.val } := by
  refine ⟨nofun, nofun, fun request held other => ?_⟩
  rcases synced.busy request held other with ⟨rx, _⟩ | ⟨_, answering⟩
  · exact .inl (by rw [show _ = [request] from rx]; rfl)
  · exact .inr answering

/-! ### Runs -/

theorem step_cases (taken : step table stray b event = some next) :
    (∃ pacote, event = .access pacote ∧ b.held = none ∧ next = b.begin pacote) ∨
    (∃ request, event = .serve ∧ b.answering = none ∧ b.rx.head? = some request ∧
      next = b.serve table stray request) ∨
    (∃ response, event = .put ∧ b.answering = some response ∧
      next = { b with answering := none }.pioSmPut response) ∨
    (∃ byte, event = .key byte ∧ next = b.pioSmPut (.key byte)) ∨
    ∃ block, event = .publish block ∧
      next = { b with server := b.server.publish table block, unread := block.val } := by
  cases event with
  | access pacote =>
      left
      simp only [step] at taken
      split at taken
      · next none => exact ⟨pacote, rfl, Option.isNone_iff_eq_none.mp none, (Option.some.inj taken).symm⟩
      · cases taken
  | serve =>
      right; left
      simp only [step] at taken
      split at taken
      · next none =>
          obtain ⟨request, first, same⟩ := Option.map_eq_some_iff.mp taken
          exact ⟨request, rfl, Option.isNone_iff_eq_none.mp none, first, same.symm⟩
      · cases taken
  | put =>
      right; right; left
      obtain ⟨response, answering, same⟩ := Option.map_eq_some_iff.mp taken
      exact ⟨response, rfl, answering, same.symm⟩
  | key byte => exact .inr (.inr (.inr (.inl ⟨byte, rfl, (Option.some.inj taken).symm⟩)))
  | publish block => exact .inr (.inr (.inr (.inr ⟨block, rfl, (Option.some.inj taken).symm⟩)))

theorem lawful_step_iff (synced : Synced b) (taken : step table stray b event = some next) :
    StepLawful table stray b event next ↔ EventAllowed b event := by
  rcases step_cases taken with ⟨pacote, rfl, held, rfl⟩ | ⟨request, rfl, idle, first, rfl⟩ |
    ⟨response, rfl, answering, rfl⟩ | ⟨byte, rfl, rfl⟩ | ⟨block, rfl, rfl⟩
  · exact lawful_access_iff synced held
  · exact lawful_serve_iff synced idle first
  · exact iff_of_true (synced.put answering).2 trivial
  · exact lawful_key_iff
  · exact iff_of_true (lawful_publish synced block) trivial

theorem Synced.step (synced : Synced b) (allowed : EventAllowed b event)
    (taken : step table stray b event = some next) : Synced next := by
  rcases step_cases taken with ⟨pacote, rfl, held, rfl⟩ | ⟨request, rfl, idle, first, rfl⟩ |
    ⟨response, rfl, answering, rfl⟩ | ⟨byte, rfl, rfl⟩ | ⟨block, rfl, rfl⟩
  · by_cases keyboard : pacote.reg = 0x09
    · exact synced.access_keyboard held keyboard
    · obtain ⟨rx, tx⟩ := allowed held keyboard
      exact synced.access_other held keyboard rx tx
  · exact synced.serve first (allowed idle request first)
  · have put : _ ∧ StepLawful table stray b .put _ := synced.put answering
    exact put.1
  · exact synced.key allowed
  · exact synced.publish block

theorem allowed_of_stuck (stuck : FileServer.step table stray b event = none) :
    EventAllowed b event := by
  cases event with
  | access pacote =>
      intro held
      simp [FileServer.step, held] at stuck
  | serve =>
      intro idle request first
      simp [FileServer.step, idle, first] at stuck
  | put | publish block => trivial
  | key byte => cases stuck

/-- From the start on, whatever is accessed, typed and published: the 68000 is answered by the
protocol exactly where every access is one of those described and no key comes in its way. -/
theorem register_protocol (table : Table) (stray : Place → Byte) (events : List Event) :
    EachStep (step table stray) (StepLawful table stray) Bus.initial events ↔
      Guarded (step table stray) EventAllowed Bus.initial events := by
  refine eachStep_iff_guarded Synced ?_ ?_ ?_ synced_initial
  · exact fun _ _ stuck => allowed_of_stuck stuck
  · exact fun _ _ _ synced taken => lawful_step_iff synced taken
  · exact fun _ _ _ synced allowed taken => synced.step allowed taken

/-- A file of two bytes, read and then read again. -/
def readPast : List Event :=
  let read : List Event := [.access ⟨.OPER_LEITURA, 0, 0, fun _ => 0⟩, .serve, .put]
  .publish ⟨[0x11, 0x22], by decide⟩ :: (read ++ read ++ read)

/-- The read behind the last byte returns the first one once more. -/
theorem first_byte_again :
    ¬ ∀ (table : Table) (stray : Place → Byte) (events : List Event),
      EachStep (step table stray) (StepLawful table stray) Bus.initial events := by
  intro all
  have each := all (fun _ => 0) (fun _ => 0) readPast
  have lawful := (((((((((each _ rfl).2 _ rfl).2 _ rfl).2 _ rfl).2 _ rfl).2 _ rfl).2 _ rfl).2 _
    rfl).2 _ rfl).1.served rfl _ rfl
  exact lawful.once (Or.inr rfl) 0 List.mem_cons_self

end OrionBios.FileServer
