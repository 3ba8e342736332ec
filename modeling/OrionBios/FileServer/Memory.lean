import OrionBios.Buffers.Ownership
import OrionBios.FileServer.Reception
import OrionBios.FileServer.Registers

/-!
# Who owns the memory of the file server

All connections, and one heap. The callbacks run on one core, one after the other; the accesses of
the 68000 are answered on the other core, between any two steps of a callback. Blocks have numbers,
and no number is given out twice.
-/

namespace OrionBios.FileServer

open Buffers Crc Transition
open Receiver (encodeTamanho)

/-! ## The system -/

/-- `sizeof(conexao_estado_t)` -/
def sizeofConexao : Nat := 36

/-- A connection of lwIP: its argument `es` with what that block contains, the block of `es->pfh`,
and whether a packet was refused. lwIP keeps such a packet and hands it over again. -/
structure Pcb where
  es : Nat
  conexao : Conexao
  arquivo : Nat
  refused : Bool

/-- What a callback still has to do. -/
inductive Task where
  | effect (effect : Effect)
  | returns (err : Err)
  /-- The call without a buffer returns, and lwIP forgets the connection. -/
  | forget
  deriving DecidableEq

/-- `heap` has the sizes of the blocks that are allocated, `tpcb` the connection of the callback,
and `pbuf` says whether it was handed a buffer that is not freed yet. -/
structure Memory where
  heap : Nat → Option Nat
  unused : Nat
  pcbs : Nat → Option Pcb
  arquivoBuffer : Option Nat
  tpcb : Nat
  pbuf : Bool

/-- `clearing` is between `free(arquivo_buffer)` and `arquivo_buffer = NULL`, and `loaded` what an
access has taken from `arquivo_buffer` and not yet read through. -/
structure System where
  memory : Memory
  pending : List Task
  clearing : Bool
  loaded : Option Nat

def System.initial : System :=
  ⟨⟨fun _ => none, 0, fun _ => none, none, 0, false⟩, [], false, none⟩

/-- What a step does with the memory. -/
inductive Operation where
  | write (block offset length : Nat)
  | use (block : Nat)
  | free (block : Nat)
  | pbufFree
  | returns (err : Err)
  deriving DecidableEq

namespace Memory

/-- The operations of an effect for the connection whose callback runs. -/
def operationsOf (m : Memory) (pcb : Pcb) : Effect → List Operation
  | .malloc _ => [.use pcb.es]
  | .store offset bytes => [.use pcb.es, .write pcb.arquivo offset bytes.length]
  | .freePublished => m.arquivoBuffer.toList.map .free
  | .storeCrc _ => [.use pcb.arquivo, .write pcb.arquivo 0 4]
  | .publish _ => [.use pcb.es, .use pcb.arquivo]
  | .freeFile => [.use pcb.es, .free pcb.arquivo]
  | .freeState => [.free pcb.es]
  | .close => []
  | .pbufFree => [.pbufFree]

def operations (m : Memory) : Task → List Operation
  | .effect effect => (m.pcbs m.tpcb).elim [] fun pcb => m.operationsOf pcb effect
  | .returns err => [.returns err]
  | .forget => []

def free (m : Memory) (block : Nat) : Memory :=
  { m with heap := Function.update m.heap block none }

/-- A new block. -/
def alloc (m : Memory) (size : Nat) : Memory :=
  { m with heap := Function.update m.heap m.unused (some size), unused := m.unused + 1 }

def setPcb (m : Memory) (pcb : Option Pcb) : Memory :=
  { m with pcbs := Function.update m.pcbs m.tpcb pcb }

def applyOf (m : Memory) (pcb : Pcb) : Effect → Memory
  | .malloc size =>
      if pcb.conexao.pfh then
        (m.alloc size.toNat).setPcb (some { pcb with arquivo := m.unused })
      else m
  | .freePublished => m.arquivoBuffer.elim m m.free
  | .publish _ => { m with arquivoBuffer := some pcb.arquivo }
  | .freeFile => m.free pcb.arquivo
  | .freeState => m.free pcb.es
  | .pbufFree => { m with pbuf := false }
  | .store _ _ | .storeCrc _ | .close => m

/-- A packet that the callback did not take is lwIP's again. -/
def apply (m : Memory) : Task → Memory
  | .effect effect => (m.pcbs m.tpcb).elim m fun pcb => m.applyOf pcb effect
  | .returns .ERR_OK => m
  | .returns .ERR_MEM =>
      { m.setPcb ((m.pcbs m.tpcb).map fun pcb => { pcb with refused := true }) with pbuf := false }
  | .forget => m.setPcb none

/-- `tcp_server_accept`. -/
def accept (m : Memory) (conexao : Nat) (alocado : Bool) : Memory :=
  if alocado then
    { m.alloc sizeofConexao with
      pcbs := Function.update m.pcbs conexao (some ⟨m.unused, .aceita, 0, false⟩) }
  else m

end Memory

/-- A write stays in its block, a block that is used or freed is there, the buffer is freed once,
and it is lwIP's again where the callback says so. -/
def Operation.Safe (m : Memory) : Operation → Prop
  | .write block offset length => ∃ size, m.heap block = some size ∧ offset + length ≤ size
  | .use block => m.heap block ≠ none
  | .free block => m.heap block ≠ none
  | .pbufFree => m.pbuf = true
  | .returns err => m.pbuf = true ↔ err = .ERR_MEM

inductive Action where
  | accept (conexao : Nat) (alocado : Bool)
  | recv (conexao : Nat) (dados : List Byte) (alocado : Bool)
  | disconnect (conexao : Nat)
  | advance
  | access (pacote : Pacote)
  | read

namespace System

def operations (s : System) : Action → List Operation
  | .accept _ _ => []
  | .recv conexao _ _ => (s.memory.pcbs conexao).toList.map fun pcb => .use pcb.es
  | .disconnect conexao => (s.memory.pcbs conexao).toList.map fun pcb => .use pcb.es
  | .advance => if s.clearing then [] else s.pending.head?.elim [] s.memory.operations
  | .access _ => []
  | .read => s.loaded.toList.map .use

def idle (s : System) : Bool := s.pending.isEmpty && !s.clearing

/-- A callback begins when none is running, and an access when the last one is answered. Only the
register of the data takes the pointer. -/
def step (s : System) : Action → Option System
  | .accept conexao alocado =>
      if s.idle && (s.memory.pcbs conexao).isNone then
        some { s with memory := s.memory.accept conexao alocado }
      else none
  | .recv conexao dados alocado =>
      if s.idle then
        (s.memory.pcbs conexao).map fun pcb =>
          let outcome := pcb.conexao.recebe dados alocado
          let memory : Memory := { s.memory with tpcb := conexao, pbuf := true }
          { s with
            memory := memory.setPcb (some { pcb with conexao := outcome.conexao })
            pending := outcome.effects.map .effect ++ [.returns outcome.err] }
      else none
  | .disconnect conexao =>
      if s.idle then
        (s.memory.pcbs conexao).map fun pcb =>
          { s with
            memory := { s.memory with tpcb := conexao }
            pending := pcb.conexao.desconecta.map .effect ++ [.forget] }
      else none
  | .advance =>
      if s.clearing then
        some { s with memory := { s.memory with arquivoBuffer := none }, clearing := false }
      else match s.pending with
        | [] => none
        | task :: tasks => some { s with
            memory := s.memory.apply task
            pending := tasks
            clearing := task = .effect .freePublished && s.memory.arquivoBuffer.isSome }
  | .access pacote =>
      if s.loaded = none then
        some { s with loaded := if pacote.reg = 0 then s.memory.arquivoBuffer else none }
      else none
  | .read => if s.loaded = none then none else some { s with loaded := none }

end System

/-- All that the step does with the memory is safe. -/
def StepSafe (s : System) (action : Action) (_ : System) : Prop :=
  ∀ operation ∈ s.operations action, operation.Safe s.memory

/-! ## What may happen -/

/-- A packet brings no more than was announced, and the size of the block can be said in a word. -/
structure Conexao.Fits (es : Conexao) (dados : List Byte) (alocado : Bool) : Prop where
  header : es.estado = .ESTADO_ESPERA_CABECALHO → TAMANHO_CABECALHO ≤ dados.length →
    alocado = true → sizeofFile + (decodeUint32 dados).toNat < 2 ^ 32 ∧
      dados.length ≤ TAMANHO_CABECALHO + (decodeUint32 dados).toNat
  dados : es.estado = .ESTADO_ESPERA_DADOS →
    es.bytesRecebidos.toNat + dados.length ≤ es.tamanhoTotal.toNat

/-- lwIP does not come back to a connection that has refused a packet, the packets fit, and the
published block is not freed in the middle of an access. -/
def Permitted (s : System) : Action → Prop
  | .accept _ _ => True
  | .recv conexao dados alocado => ∀ pcb, s.memory.pcbs conexao = some pcb →
      pcb.refused = false ∧ pcb.conexao.Fits dados alocado
  | .disconnect conexao => ∀ pcb, s.memory.pcbs conexao = some pcb → pcb.refused = false
  | .advance => s.pending.head? = some (.effect .freePublished) → s.loaded = none
  | .access pacote => pacote.reg = 0 → s.clearing = false
  | .read => True

/-! ## The owners -/

inductive Owner where
  | estado (conexao : Nat)
  | arquivo (conexao : Nat)
  | arquivoBuffer
  deriving DecidableEq

/-- The block of an owner. A file is its connection's until it is published. -/
def Memory.block (m : Memory) : Owner → Option Nat
  | .estado conexao => (m.pcbs conexao).bind fun pcb => if pcb.refused then none else some pcb.es
  | .arquivo conexao => (m.pcbs conexao).bind fun pcb =>
      if pcb.refused = false ∧ pcb.conexao.estado = .ESTADO_ESPERA_DADOS then some pcb.arquivo
      else none
  | .arquivoBuffer => m.arquivoBuffer

/-- The pointer to the file is set while data are awaited, and the block has room for them all. -/
structure Pcb.Regular (heap : Nat → Option Nat) (pcb : Pcb) : Prop where
  cabecalho : pcb.conexao.estado = .ESTADO_ESPERA_CABECALHO → pcb.conexao.pfh = false
  dados : pcb.conexao.estado = .ESTADO_ESPERA_DADOS →
    pcb.conexao.pfh = true ∧
      heap pcb.arquivo = some (sizeofFile + pcb.conexao.tamanhoTotal.toNat)

/-- The memory between two callbacks. -/
structure Memory.Possessed (m : Memory) : Prop where
  unused : ∀ block, m.unused ≤ block → m.heap block = none
  owned : Owned (fun block => m.heap block ≠ none) m.block
  regular : ∀ conexao pcb, m.pcbs conexao = some pcb → pcb.refused = false → pcb.Regular m.heap

/-- The memory while a callback runs: its connection has a file or not, whatever its state says. -/
structure Memory.Running (m : Memory) (pcb : Pcb) (arquivo : Option Nat) : Prop where
  current : m.pcbs m.tpcb = some pcb
  accepts : pcb.refused = false
  unused : ∀ block, m.unused ≤ block → m.heap block = none
  owned : Owned (fun block => m.heap block ≠ none)
    (Function.update m.block (.arquivo m.tpcb) arquivo)
  others : ∀ conexao other, conexao ≠ m.tpcb → m.pcbs conexao = some other →
    other.refused = false → other.Regular m.heap

variable {m : Memory} {pcb : Pcb} {conexao block : Nat} {arquivo : Option Nat}

@[simp] theorem setPcb_self (other : Option Pcb) : (m.setPcb other).pcbs m.tpcb = other :=
  Function.update_self _ _ _

theorem setPcb_other {other : Option Pcb} (different : conexao ≠ m.tpcb) :
    (m.setPcb other).pcbs conexao = m.pcbs conexao := Function.update_of_ne different _ _

theorem block_estado (isPcb : m.pcbs conexao = some pcb) (accepts : pcb.refused = false) :
    m.block (.estado conexao) = some pcb.es := by
  rw [Memory.block, isPcb, Option.bind_some, accepts]
  rfl

theorem block_arquivo (isPcb : m.pcbs conexao = some pcb) (accepts : pcb.refused = false)
    (estado : pcb.conexao.estado = .ESTADO_ESPERA_DADOS) :
    m.block (.arquivo conexao) = some pcb.arquivo := by
  rw [Memory.block, isPcb, Option.bind_some, if_pos ⟨accepts, estado⟩]

theorem block_arquivo_none (isPcb : m.pcbs conexao = some pcb)
    (estado : pcb.conexao.estado ≠ .ESTADO_ESPERA_DADOS) :
    m.block (.arquivo conexao) = none := by
  rw [Memory.block, isPcb, Option.bind_some, if_neg fun both => estado both.2]

theorem block_setPcb {other : Pcb} (isPcb : m.pcbs m.tpcb = some pcb) (same : other.es = pcb.es)
    (refused : other.refused = pcb.refused) (arquivo : Option Nat) :
    Function.update (m.setPcb (some other)).block (.arquivo m.tpcb) arquivo =
      Function.update m.block (.arquivo m.tpcb) arquivo := by
  funext owner
  by_cases isFile : owner = .arquivo m.tpcb
  · rw [isFile, Function.update_self, Function.update_self]
  rw [Function.update_of_ne isFile, Function.update_of_ne isFile]
  cases owner with
  | estado conexao =>
      by_cases here : conexao = m.tpcb
      · rw [here, Memory.block, Memory.block, setPcb_self, isPcb,
          Option.bind_some, Option.bind_some, same, refused]
      · rw [Memory.block, Memory.block, setPcb_other here]
  | arquivo conexao =>
      have elsewhere : conexao ≠ m.tpcb := fun here => isFile (here ▸ rfl)
      rw [Memory.block, Memory.block, setPcb_other elsewhere]
  | arquivoBuffer => rfl

theorem block_gone {other : Option Pcb} (gone : ∀ pcb, other = some pcb → pcb.refused = true) :
    (m.setPcb other).block =
      Function.update (Function.update m.block (.arquivo m.tpcb) none) (.estado m.tpcb) none := by
  funext owner
  cases owner with
  | estado conexao =>
      by_cases here : conexao = m.tpcb
      · rw [here, Function.update_self, Memory.block, setPcb_self]
        cases other with
        | none => rfl
        | some pcb => rw [Option.bind_some, gone pcb rfl, if_pos rfl]
      · have different : Owner.estado conexao ≠ .estado m.tpcb := fun same =>
          here (Owner.estado.inj same)
        rw [Function.update_of_ne different, Function.update_of_ne Owner.noConfusion,
          Memory.block, Memory.block, setPcb_other here]
  | arquivo conexao =>
      rw [Function.update_of_ne Owner.noConfusion]
      by_cases here : conexao = m.tpcb
      · rw [here, Function.update_self, Memory.block, setPcb_self]
        cases other with
        | none => rfl
        | some pcb =>
            rw [Option.bind_some, if_neg fun both => ?_]
            rw [gone pcb rfl] at both
            exact Bool.noConfusion both.1
      · have different : Owner.arquivo conexao ≠ .arquivo m.tpcb := fun same =>
          here (Owner.arquivo.inj same)
        rw [Function.update_of_ne different, Memory.block, Memory.block, setPcb_other here]
  | arquivoBuffer => rfl

theorem Pcb.Regular.congr {heap heap' : Nat → Option Nat} (regular : pcb.Regular heap)
    (same : pcb.conexao.estado = .ESTADO_ESPERA_DADOS → heap' pcb.arquivo = heap pcb.arquivo) :
    pcb.Regular heap' :=
  ⟨regular.cabecalho, fun estado =>
    ⟨(regular.dados estado).1, (same estado).trans (regular.dados estado).2⟩⟩


/-! ### A new block -/

section Alloc

variable (unused : ∀ block, m.unused ≤ block → m.heap block = none) {size : Nat}

include unused

theorem alloc_unused (block : Nat) (above : (m.alloc size).unused ≤ block) :
    (m.alloc size).heap block = none :=
  (Function.update_of_ne (Nat.ne_of_gt above) _ _).trans (unused block (Nat.le_of_succ_le above))

theorem alloc_heap (live : m.heap block ≠ none) : (m.alloc size).heap block = m.heap block := by
  refine Function.update_of_ne (fun isNew => live ?_) _ _
  rw [isNew]
  exact unused _ (Nat.le_refl _)

theorem alloc_owned {held : Owner → Option Nat}
    (owned : Owned (fun block => m.heap block ≠ none) held) (owner : Owner) (size : Nat) :
    Owned (fun block => (m.alloc size).heap block ≠ none)
      (Function.update held owner (some m.unused)) := by
  refine (owned.stay fun _ block holds => ?_).gain owner (fun other holds => ?_) ?_
  · rw [alloc_heap unused (owned.live holds)]
    exact owned.live holds
  · exact owned.live holds (unused _ (Nat.le_refl _))
  · have isNew : (m.alloc size).heap m.unused = some size := Function.update_self _ _ _
    rw [isNew]
    exact Option.some_ne_none size

theorem alloc_regular (regular : pcb.Regular m.heap) : pcb.Regular (m.alloc size).heap := by
  refine regular.congr fun estado => alloc_heap unused ?_
  rw [(regular.dados estado).2]
  exact Option.some_ne_none _

end Alloc

/-! ## The steps of a callback -/

/-- The memory behind a step, with the pointer to a freed block cleared. -/
def Memory.settle (m : Memory) (task : Task) : Memory :=
  if task = .effect .freePublished then { m.apply task with arquivoBuffer := none }
  else m.apply task

/-- From here on the callback does what is safe, publishes where nothing is published, and leaves
every block to its owner. -/
def Memory.Proceeds : List Task → Memory → Prop
  | [], m => m.Possessed
  | task :: tasks, m =>
      (∀ block, m.arquivoBuffer = some block → m.heap block ≠ none) ∧
        (∀ operation ∈ m.operations task, operation.Safe m) ∧
        (∀ tamanho, task = .effect (.publish tamanho) → m.arquivoBuffer = none) ∧
        Proceeds tasks (m.settle task)

namespace Memory.Running

variable {tasks : List Task} {size offset : Nat} {bytes : List Byte}

theorem state (running : m.Running pcb arquivo) : m.heap pcb.es ≠ none := by
  refine @running.owned.live (.estado m.tpcb) _ ?_
  rw [Function.update_of_ne Owner.noConfusion]
  exact block_estado running.current running.accepts

theorem file (running : m.Running pcb (some block)) : m.heap block ≠ none :=
  @running.owned.live (.arquivo m.tpcb) _ (Function.update_self _ _ _)

theorem published (running : m.Running pcb arquivo) :
    ∀ block, m.arquivoBuffer = some block → m.heap block ≠ none := by
  intro block holds
  refine @running.owned.live .arquivoBuffer _ ?_
  rw [Function.update_of_ne Owner.noConfusion]
  exact holds

theorem performs {effect : Effect} (running : m.Running pcb arquivo)
    (safe : ∀ operation ∈ m.operationsOf pcb effect, operation.Safe m)
    (isOther : effect ≠ .freePublished ∧ ∀ tamanho, effect ≠ .publish tamanho)
    (next : (m.applyOf pcb effect).Proceeds tasks) : m.Proceeds (.effect effect :: tasks) := by
  refine ⟨running.published, ?_, fun tamanho same => ?_, ?_⟩
  · rw [operations, running.current]
    exact safe
  · exact absurd (Task.effect.inj same) (isOther.2 tamanho)
  · rw [settle, if_neg fun same => isOther.1 (Task.effect.inj same), apply, running.current]
    exact next

/-! ### The file -/

theorem store (running : m.Running pcb (some pcb.arquivo))
    (isSize : m.heap pcb.arquivo = some size) (inside : offset + bytes.length ≤ size)
    (next : m.Proceeds tasks) : m.Proceeds (.effect (.store offset bytes) :: tasks) := by
  refine running.performs (fun operation member => ?_)
    ⟨Effect.noConfusion, fun _ => Effect.noConfusion⟩ next
  rcases List.mem_cons.mp member with rfl | member
  · exact running.state
  · rw [List.mem_singleton.mp member]
    exact ⟨size, isSize, inside⟩

theorem alloc (running : m.Running pcb none) (size : Nat) :
    ((m.alloc size).setPcb (some { pcb with arquivo := m.unused })).Running
      { pcb with arquivo := m.unused } (some m.unused) := by
  refine ⟨Function.update_self _ _ _, running.accepts, alloc_unused running.unused, ?_,
    fun conexao other different isOther accepts => ?_⟩
  · have owned := alloc_owned running.unused running.owned (.arquivo m.tpcb) size
    rw [Function.update_idem] at owned
    have kept := @block_setPcb (m.alloc size) pcb { pcb with arquivo := m.unused }
      running.current rfl rfl (some m.unused)
    exact (congrArg (Owned _) kept).mpr owned
  · rw [@setPcb_other (m.alloc size) _ _ different] at isOther
    exact alloc_regular running.unused (running.others conexao other different isOther accepts)

theorem malloc {tamanho : BitVec 32} (running : m.Running pcb none)
    (alocado : pcb.conexao.pfh = true)
    (next : ((m.alloc tamanho.toNat).setPcb (some { pcb with arquivo := m.unused })).Proceeds
      tasks) : m.Proceeds (.effect (.malloc tamanho) :: tasks) := by
  refine running.performs (fun operation member => ?_)
    ⟨Effect.noConfusion, fun _ => Effect.noConfusion⟩ ?_
  · rw [List.mem_singleton.mp member]
    exact running.state
  · rw [applyOf, if_pos alocado]
    exact next

/-! ### Release -/

section Release

variable {owner : Owner} (running : m.Running pcb arquivo)
  (holds : Function.update m.block (.arquivo m.tpcb) arquivo owner = some block)

include running in
theorem free_unused (above : m.unused ≤ block) (gone : Nat) : (m.free gone).heap block = none := by
  by_cases same : block = gone
  · rw [same]
    exact Function.update_self _ _ _
  · exact (Function.update_of_ne same _ _).trans (running.unused block above)

include running holds

theorem free_owned : Owned (fun other => (m.free block).heap other ≠ none)
    (Function.update (Function.update m.block (.arquivo m.tpcb) arquivo) owner none) := by
  refine (running.owned.drop owner).stay fun other block' rest => ?_
  have different := running.owned.dropped_ne holds rest
  have live := running.owned.live (dropped_holds rest).2
  exact fun gone => live ((Function.update_of_ne different _ _).symm.trans gone)

theorem free_others (notOther : ∀ conexao, conexao ≠ m.tpcb → owner ≠ .arquivo conexao)
    (other : Pcb) (different : conexao ≠ m.tpcb) (isOther : m.pcbs conexao = some other)
    (accepts : other.refused = false) : other.Regular (m.free block).heap := by
  refine (running.others conexao other different isOther accepts).congr fun estado => ?_
  refine Function.update_of_ne (fun same => notOther conexao different ?_) _ _
  have elsewhere : Owner.arquivo conexao ≠ .arquivo m.tpcb := fun equal =>
    different (Owner.arquivo.inj equal)
  refine running.owned.unique holds ?_
  rw [Function.update_of_ne elsewhere, block_arquivo isOther accepts estado, same]

end Release

theorem unpublished (running : m.Running pcb arquivo) (isBlock : m.arquivoBuffer = some block) :
    ({ m.free block with arquivoBuffer := none } : Memory).Running pcb arquivo := by
  have holds : Function.update m.block (.arquivo m.tpcb) arquivo .arquivoBuffer = some block := by
    rw [Function.update_of_ne Owner.noConfusion]
    exact isBlock
  have isNone : Function.update m.block .arquivoBuffer none =
      ({ m.free block with arquivoBuffer := none } : Memory).block := by
    funext owner
    cases owner <;> rfl
  refine ⟨running.current, running.accepts, fun other above => running.free_unused above block, ?_,
    fun conexao other => running.free_others holds (fun _ _ => Owner.noConfusion) other⟩
  have owned := running.free_owned holds
  rw [Function.update_comm Owner.noConfusion, isNone] at owned
  exact owned

theorem releases (running : m.Running pcb arquivo)
    (apart : m.arquivoBuffer ≠ some pcb.arquivo)
    (next : ∀ m' : Memory, m'.Running pcb arquivo → m'.heap pcb.arquivo = m.heap pcb.arquivo →
      m'.pbuf = m.pbuf → m'.arquivoBuffer = none → m'.Proceeds tasks) :
    m.Proceeds (.effect .freePublished :: tasks) := by
  refine ⟨running.published, fun operation member => ?_,
    fun _ same => Effect.noConfusion (Task.effect.inj same), ?_⟩
  · rw [operations, running.current] at member
    obtain ⟨block, isBlock, rfl⟩ := List.mem_map.mp member
    exact running.published block (Option.mem_toList.mp isBlock)
  · rw [settle, if_pos rfl, apply, running.current, Option.elim_some, applyOf]
    cases published : m.arquivoBuffer with
    | none =>
        have same : ({ m with arquivoBuffer := none } : Memory) = m := by
          rw [← published]
        rw [Option.elim_none, same]
        exact next m running rfl rfl published
    | some block =>
        refine next _ (running.unpublished published) (Function.update_of_ne ?_ _ _) rfl rfl
        rintro rfl
        exact apart published

theorem publish (running : m.Running pcb (some pcb.arquivo)) :
    ({ m with arquivoBuffer := some pcb.arquivo } : Memory).Running pcb none := by
  have isPublished : Function.update m.block .arquivoBuffer (some pcb.arquivo) =
      ({ m with arquivoBuffer := some pcb.arquivo } : Memory).block := by
    funext owner
    cases owner <;> rfl
  refine ⟨running.current, running.accepts, running.unused, ?_, running.others⟩
  have owned := running.owned.pass (Function.update_self _ _ _) .arquivoBuffer
  rw [Function.update_idem, Function.update_comm Owner.noConfusion, isPublished] at owned
  exact owned

theorem publishes {tamanho : BitVec 32} (running : m.Running pcb (some pcb.arquivo))
    (unpublished : m.arquivoBuffer = none)
    (next : ({ m with arquivoBuffer := some pcb.arquivo } : Memory).Proceeds tasks) :
    m.Proceeds (.effect (.publish tamanho) :: tasks) := by
  refine ⟨running.published, fun operation member => ?_, fun _ _ => unpublished, ?_⟩
  · rw [operations, running.current] at member
    rcases List.mem_cons.mp member with rfl | member
    · exact running.state
    · rw [List.mem_singleton.mp member]
      exact running.file
  · rw [settle, if_neg fun other => Effect.noConfusion (Task.effect.inj other), apply,
      running.current]
    exact next

theorem apart (running : m.Running pcb (some block)) : m.arquivoBuffer ≠ some block := by
  intro published
  have same := @running.owned.unique (.arquivo m.tpcb) .arquivoBuffer block
    (Function.update_self _ _ _) ?_
  · exact Owner.noConfusion same
  · rw [Function.update_of_ne Owner.noConfusion]
    exact published

theorem concludes {tamanho : BitVec 32} (running : m.Running pcb (some pcb.arquivo))
    (isSize : m.heap pcb.arquivo = some size) (room : 8 ≤ size)
    (next : ∀ m' : Memory, m'.Running pcb none → m'.pbuf = m.pbuf → m'.Proceeds tasks) :
    m.Proceeds (.effect .freePublished :: .effect (.store 4 (encodeTamanho tamanho)) ::
      .effect (.storeCrc tamanho) :: .effect (.publish tamanho) :: tasks) := by
  refine running.releases running.apart fun m' running' same pbuf unpublished => ?_
  rw [isSize] at same
  refine running'.store same room ?_
  refine running'.performs (fun operation member => ?_)
    ⟨Effect.noConfusion, fun _ => Effect.noConfusion⟩ ?_
  · rcases List.mem_cons.mp member with rfl | member
    · exact running'.file
    · rw [List.mem_singleton.mp member]
      exact ⟨size, same, Nat.le_trans (by decide) room⟩
  exact running'.publishes unpublished (next _ running'.publish pbuf)

/-! ### The end of a callback -/

theorem possessed (running : m.Running pcb (m.block (.arquivo m.tpcb)))
    (regular : pcb.Regular m.heap) : m.Possessed := by
  refine ⟨running.unused, ?_, fun conexao other isOther accepts => ?_⟩
  · have owned := running.owned
    rw [Function.update_eq_self] at owned
    exact owned
  · by_cases here : conexao = m.tpcb
    · rw [here, running.current] at isOther
      exact Option.some.inj isOther ▸ regular
    · exact running.others conexao other here isOther accepts

theorem taken (running : m.Running pcb (m.block (.arquivo m.tpcb))) (regular : pcb.Regular m.heap)
    (pbuf : m.pbuf = true) : m.Proceeds [.effect .pbufFree, .returns .ERR_OK] := by
  have kept := running.possessed regular
  refine running.performs (fun operation member => ?_)
    ⟨Effect.noConfusion, fun _ => Effect.noConfusion⟩
    ⟨running.published, ?_, fun _ => Task.noConfusion, ?_⟩
  · rw [List.mem_singleton.mp member]
    exact pbuf
  · intro operation member
    rw [List.mem_singleton.mp member]
    exact iff_of_false Bool.noConfusion Err.noConfusion
  · exact ⟨kept.unused, kept.owned, kept.regular⟩

theorem leaves (running : m.Running pcb none) (other : Option Pcb)
    (gone : ∀ pcb, other = some pcb → pcb.refused = true) :
    ((m.free pcb.es).setPcb other).Possessed := by
  have holds : Function.update m.block (.arquivo m.tpcb) none (.estado m.tpcb) = some pcb.es := by
    rw [Function.update_of_ne Owner.noConfusion]
    exact block_estado running.current running.accepts
  refine ⟨fun block above => running.free_unused above pcb.es, ?_, ?_⟩
  · have owned := running.free_owned holds
    have isGone := @block_gone (m.free pcb.es) other gone
    exact (congrArg (Owned _) isGone).mpr owned
  · intro conexao other' isOther accepts
    by_cases here : conexao = m.tpcb
    · rw [here] at isOther
      have refused := gone other' ((@setPcb_self (m.free pcb.es) other).symm.trans isOther)
      rw [accepts] at refused
      exact Bool.noConfusion refused
    · rw [@setPcb_other (m.free pcb.es) _ _ here] at isOther
      exact running.free_others holds (fun _ _ => Owner.noConfusion) other' here isOther accepts

theorem freesState (running : m.Running pcb none)
    (next : (∀ block, m.arquivoBuffer = some block → (m.free pcb.es).heap block ≠ none) →
      (m.free pcb.es).Proceeds tasks) : m.Proceeds (.effect .freeState :: tasks) := by
  have holds : Function.update m.block (.arquivo m.tpcb) none (.estado m.tpcb) = some pcb.es := by
    rw [Function.update_of_ne Owner.noConfusion]
    exact block_estado running.current running.accepts
  refine running.performs (fun operation member => ?_)
    ⟨Effect.noConfusion, fun _ => Effect.noConfusion⟩ (next fun block published => ?_)
  · rw [List.mem_singleton.mp member]
    exact running.state
  · refine @(running.free_owned holds).live .arquivoBuffer block ?_
    rw [Function.update_of_ne Owner.noConfusion, Function.update_of_ne Owner.noConfusion]
    exact published

theorem fails {tamanho : BitVec 32} (running : m.Running pcb none)
    (noMemory : pcb.conexao.pfh = false) (pbuf : m.pbuf = true) :
    m.Proceeds [.effect (.malloc tamanho), .effect .close, .effect .freeState,
      .returns .ERR_MEM] := by
  have closes : m.Proceeds [.effect .close, .effect .freeState, .returns .ERR_MEM] := by
    refine running.performs (fun _ member => absurd member List.not_mem_nil)
      ⟨Effect.noConfusion, fun _ => Effect.noConfusion⟩
      (running.freesState fun published =>
        ⟨published, fun operation member => ?_, fun _ => Task.noConfusion, ?_⟩)
    · rw [List.mem_singleton.mp member]
      exact iff_of_true pbuf rfl
    · have kept := running.leaves (some { pcb with refused := true }) fun other same =>
        Option.some.inj same ▸ rfl
      rw [settle, if_neg Task.noConfusion, apply, free, running.current]
      exact ⟨kept.unused, kept.owned, kept.regular⟩
  refine running.performs (fun operation member => ?_)
    ⟨Effect.noConfusion, fun _ => Effect.noConfusion⟩ ?_
  · rw [List.mem_singleton.mp member]
    exact running.state
  · rw [applyOf, if_neg (by rw [noMemory]; exact Bool.noConfusion)]
    exact closes

theorem forgets (running : m.Running pcb none) :
    m.Proceeds [.effect .freeState, .effect .close, .forget] := by
  have isClose : (m.free pcb.es).settle (.effect .close) = m.free pcb.es := by
    rw [settle, if_neg fun same => Effect.noConfusion (Task.effect.inj same), apply, free,
      running.current]
    rfl
  refine running.freesState fun published => ⟨published, fun operation member => ?_,
    fun _ same => Effect.noConfusion (Task.effect.inj same), ?_⟩
  · rw [operations, free, running.current] at member
    exact absurd member List.not_mem_nil
  · rw [isClose]
    refine ⟨published, fun _ member => absurd member List.not_mem_nil,
      fun _ => Task.noConfusion, ?_⟩
    rw [settle, if_neg Task.noConfusion]
    exact running.leaves none fun _ isSome => (Option.some_ne_none _ isSome.symm).elim

theorem forgets_file (running : m.Running pcb (some pcb.arquivo)) :
    m.Proceeds [.effect .freeFile, .effect .freeState, .effect .close, .forget] := by
  have holds : Function.update m.block (.arquivo m.tpcb) (some pcb.arquivo) (.arquivo m.tpcb) =
      some pcb.arquivo := Function.update_self _ _ _
  have without : (m.free pcb.arquivo).Running pcb none := by
    refine ⟨running.current, running.accepts,
      fun block above => running.free_unused above pcb.arquivo, ?_,
      fun conexao other => running.free_others holds (fun conexao different same =>
        different (Owner.arquivo.inj same).symm) other⟩
    have owned := running.free_owned holds
    rw [Function.update_idem] at owned
    exact owned
  refine running.performs (fun operation member => ?_)
    ⟨Effect.noConfusion, fun _ => Effect.noConfusion⟩ without.forgets
  rcases List.mem_cons.mp member with rfl | member
  · exact running.state
  · rw [List.mem_singleton.mp member]
    exact running.file

end Memory.Running

end OrionBios.FileServer
