import OrionBios.FileServer.Memory

/-!
# No block is used behind its end, or behind its release

What keeps every block with one owner, over all runs of the file server: one owner for each block
between the callbacks, and while one runs a file that is its connection's until it is published.
-/

namespace OrionBios.FileServer

open Buffers Crc Transition
open Receiver (encodeTamanho)

/-! ## The accesses -/

/-- Of all registers only that of the data is answered from the file. -/
theorem file_read_iff (table : Table) (stray : Place → Byte) (s : Server) (pacote : Pacote) :
    (∃ index, Place.file index ∈ (s.access table stray pacote).reads) ↔ pacote.reg = 0 := by
  constructor
  · rintro ⟨index, member⟩
    by_contra other
    have notZero : pacote.reg.toNat ≠ 0 := fun zero => other (BitVec.eq_of_toNat_eq zero)
    revert member
    unfold Server.access
    dsimp only
    split
    next => contradiction
    next =>
      split
      · exact List.not_mem_nil
      · split <;> exact List.not_mem_nil
    iterate 10 next => exact List.not_mem_nil
    next =>
      dsimp only
      rw [List.mem_map]
      rintro ⟨_, -, same⟩
      cases same
    next => exact fun member => Place.noConfusion (List.mem_singleton.mp member)
    next => exact List.not_mem_nil
    next => exact fun member => Place.noConfusion (List.mem_singleton.mp member)
    next => exact fun member => Place.noConfusion (List.mem_singleton.mp member)
    next => exact List.not_mem_nil
  · intro isReg
    refine ⟨s.endOfFile.ponteiroLeitura.toNat, ?_⟩
    unfold Server.access
    rw [isReg]
    exact List.mem_cons_self

variable {m : Memory} {pcb : Pcb} {conexao block : Nat} {arquivo : Option Nat}

/-! ## The callbacks -/

theorem Conexao.conclui_pfh (es : Conexao) : es.conclui.1.pfh = es.pfh := by
  rw [Conexao.conclui]
  split <;> rfl

theorem Conexao.recebeDados_pfh (es : Conexao) (dados : List Byte) :
    (es.recebeDados dados).1.pfh = es.pfh := by
  rw [Conexao.recebeDados]
  split
  · exact Conexao.conclui_pfh _
  · rfl

section Callbacks

variable {dados : List Byte} {alocado : Bool}

theorem Memory.Running.conclui {es : Conexao} (running : m.Running pcb (some pcb.arquivo))
    (estado : es.estado = .ESTADO_ESPERA_DADOS) (pfh : es.pfh = true)
    (isConexao : pcb.conexao = es.conclui.1)
    (isSize : m.heap pcb.arquivo = some (sizeofFile + es.tamanhoTotal.toNat))
    (pbuf : m.pbuf = true) :
    m.Proceeds (es.conclui.2.map Task.effect ++ [.effect .pbufFree, .returns .ERR_OK]) := by
  rw [Conexao.conclui] at isConexao ⊢
  split at isConexao
  next complete =>
    rw [if_pos complete]
    refine running.concludes isSize (Nat.le_add_right_of_le (by decide)) fun m' running' same => ?_
    have concluded : pcb.conexao.estado = .ESTADO_CONCLUIDO := by rw [isConexao]
    have isNone : m'.block (.arquivo m'.tpcb) = none :=
      block_arquivo_none running'.current (by rw [concluded]; exact Estado.noConfusion)
    rw [← isNone] at running'
    refine running'.taken ⟨fun other => ?_, fun other => ?_⟩ (same.trans pbuf)
    · rw [concluded] at other
      exact Estado.noConfusion other
    · rw [concluded] at other
      exact Estado.noConfusion other
  next incomplete =>
    rw [if_neg incomplete]
    have isFile : m.block (.arquivo m.tpcb) = some pcb.arquivo :=
      block_arquivo running.current running.accepts (by rw [isConexao]; exact estado)
    rw [← isFile] at running
    refine running.taken ⟨fun other => ?_, fun _ => ?_⟩ pbuf
    · rw [isConexao, estado] at other
      exact Estado.noConfusion other
    · rw [isConexao]
      exact ⟨pfh, isSize⟩

theorem Memory.Running.recebeDados {es : Conexao} (running : m.Running pcb (some pcb.arquivo))
    (estado : es.estado = .ESTADO_ESPERA_DADOS) (pfh : es.pfh = true)
    (isConexao : pcb.conexao = (es.recebeDados dados).1)
    (isSize : m.heap pcb.arquivo = some (sizeofFile + es.tamanhoTotal.toNat))
    (fits : es.bytesRecebidos.toNat + dados.length ≤ es.tamanhoTotal.toNat)
    (pbuf : m.pbuf = true) :
    m.Proceeds ((es.recebeDados dados).2.map Task.effect ++
      [.effect .pbufFree, .returns .ERR_OK]) := by
  rw [Conexao.recebeDados, if_pos estado] at isConexao ⊢
  have ends := @Memory.Running.conclui m pcb
    { es with bytesRecebidos := es.bytesRecebidos + BitVec.ofNat 32 dados.length } running estado
    pfh isConexao isSize pbuf
  rw [List.map_append, List.append_assoc]
  split
  · exact running.store isSize (by rw [Nat.add_assoc]; exact Nat.add_le_add_left fits _) ends
  · exact ends

theorem Memory.Possessed.running (possessed : m.Possessed) (isPcb : m.pcbs conexao = some pcb)
    (accepts : pcb.refused = false) (es : Conexao) :
    (({ m with tpcb := conexao, pbuf := true } : Memory).setPcb
      (some { pcb with conexao := es })).Running { pcb with conexao := es }
        (m.block (.arquivo conexao)) := by
  refine ⟨Function.update_self _ _ _, accepts, possessed.unused, ?_,
    fun other pcb' different isOther accepts' => ?_⟩
  · have kept := @block_setPcb { m with tpcb := conexao, pbuf := true } pcb
      { pcb with conexao := es } isPcb rfl rfl (m.block (.arquivo conexao))
    refine (congrArg (Owned _) (kept.trans ?_)).mpr possessed.owned
    exact Function.update_eq_self (.arquivo conexao) m.block
  · rw [@setPcb_other { m with tpcb := conexao, pbuf := true } _ _ different] at isOther
    exact possessed.regular other pcb' isOther accepts'

theorem Memory.Running.header {es : Conexao} {nome : List Byte} {tamanho : BitVec 32}
    (running : m.Running pcb none) (estado : es.estado = .ESTADO_ESPERA_DADOS)
    (pfh : es.pfh = true) (isConexao : pcb.conexao = (es.recebeDados dados).1)
    (isTamanho : tamanho.toNat = sizeofFile + es.tamanhoTotal.toNat)
    (fits : es.bytesRecebidos.toNat + dados.length ≤ es.tamanhoTotal.toNat)
    (pbuf : m.pbuf = true) :
    m.Proceeds (.effect (.malloc tamanho) :: .effect (.store 8 (strncpy nome 12)) ::
      .effect (.store 20 [0]) :: ((es.recebeDados dados).2.map Task.effect ++
        [.effect .pbufFree, .returns .ERR_OK])) := by
  have running' := running.alloc tamanho.toNat
  have isSize : ((m.alloc tamanho.toNat).setPcb (some { pcb with arquivo := m.unused })).heap
      m.unused = some (sizeofFile + es.tamanhoTotal.toNat) := by
    rw [← isTamanho]
    exact Function.update_self _ _ _
  refine running.malloc (by rw [isConexao, Conexao.recebeDados_pfh]; exact pfh) ?_
  refine running'.store isSize ?_ (running'.store isSize ?_
    (running'.recebeDados estado pfh isConexao isSize fits pbuf))
  · rw [strncpy_length]
    exact Nat.le_add_right_of_le (by decide)
  · exact Nat.le_add_right_of_le (by decide)

theorem recebe_proceeds (possessed : m.Possessed) (isPcb : m.pcbs conexao = some pcb)
    (accepts : pcb.refused = false) (fits : pcb.conexao.Fits dados alocado) :
    (({ m with tpcb := conexao, pbuf := true } : Memory).setPcb
      (some { pcb with conexao := (pcb.conexao.recebe dados alocado).conexao })).Proceeds
        ((pcb.conexao.recebe dados alocado).effects.map Task.effect ++
          [.returns (pcb.conexao.recebe dados alocado).err]) := by
  have running := possessed.running isPcb accepts (pcb.conexao.recebe dados alocado).conexao
  by_cases header : pcb.conexao.estado = .ESTADO_ESPERA_CABECALHO ∧
      dados.length ≥ TAMANHO_CABECALHO
  · have noFile : m.block (.arquivo conexao) = none :=
      block_arquivo_none isPcb (by rw [header.1]; exact Estado.noConfusion)
    rw [noFile] at running
    cases alocado with
    | true =>
        obtain ⟨small, room⟩ := fits.header header.1 header.2 rfl
        have whole : pcb.conexao.recebe dados true =
            ⟨((Conexao.mk .ESTADO_ESPERA_DADOS (decodeUint32 dados) 0
                ((dados.drop 4).take 12 ++ [0]) true).recebeDados (dados.drop TAMANHO_CABECALHO)).1,
              [.malloc (BitVec.ofNat 32 sizeofFile + decodeUint32 dados),
                .store 8 (strncpy ((dados.drop 4).take 12 ++ [0]) 12), .store 20 [0]] ++
                ((Conexao.mk .ESTADO_ESPERA_DADOS (decodeUint32 dados) 0
                  ((dados.drop 4).take 12 ++ [0]) true).recebeDados
                    (dados.drop TAMANHO_CABECALHO)).2 ++ [.pbufFree], .ERR_OK⟩ :=
          recebe_cabecalho header.1 header.2 true
        have isTamanho : (BitVec.ofNat 32 sizeofFile + decodeUint32 dados).toNat =
            sizeofFile + (decodeUint32 dados).toNat := by
          rw [BitVec.toNat_add, BitVec.toNat_ofNat]
          exact Nat.mod_eq_of_lt small
        rw [whole] at running ⊢
        rw [List.map_append, List.map_append, List.append_assoc, List.append_assoc]
        refine running.header rfl rfl rfl isTamanho ?_ rfl
        rw [List.length_drop]
        exact (Nat.zero_add _).trans_le (Nat.sub_le_of_le_add (Nat.add_comm _ _ ▸ room))
    | false =>
        rw [recebe_cabecalho header.1 header.2] at running ⊢
        exact running.fails rfl rfl
  · rw [recebe_dados header] at running ⊢
    rw [List.map_append, List.append_assoc]
    by_cases estado : pcb.conexao.estado = .ESTADO_ESPERA_DADOS
    · obtain ⟨pfh, isSize⟩ := (possessed.regular conexao pcb isPcb accepts).dados estado
      rw [block_arquivo isPcb accepts estado] at running
      exact running.recebeDados estado pfh rfl isSize (fits.dados estado) rfl
    · have kept := block_arquivo_none isPcb estado
      rw [recebeDados_ignored estado] at running ⊢
      rw [kept, ← block_arquivo_none running.current estado] at running
      exact running.taken (possessed.regular conexao pcb isPcb accepts) rfl

theorem desconecta_proceeds (possessed : m.Possessed) (isPcb : m.pcbs conexao = some pcb)
    (accepts : pcb.refused = false) :
    ({ m with tpcb := conexao } : Memory).Proceeds
      (pcb.conexao.desconecta.map Task.effect ++ [.forget]) := by
  have running : ({ m with tpcb := conexao } : Memory).Running pcb
      (m.block (.arquivo conexao)) := by
    refine ⟨isPcb, accepts, possessed.unused, ?_, fun other pcb' _ => possessed.regular other pcb'⟩
    exact (congrArg (Owned _) (Function.update_eq_self (.arquivo conexao) m.block)).mpr
      possessed.owned
  have regular := possessed.regular conexao pcb isPcb accepts
  rw [Conexao.desconecta]
  by_cases estado : pcb.conexao.estado = .ESTADO_ESPERA_DADOS
  · rw [block_arquivo isPcb accepts estado] at running
    rw [if_pos ⟨by rw [estado]; exact Estado.noConfusion, (regular.dados estado).1⟩]
    exact running.forgets_file
  · rw [block_arquivo_none isPcb estado] at running
    have noFile : ¬(pcb.conexao.estado ≠ .ESTADO_CONCLUIDO ∧ pcb.conexao.pfh = true) := by
      rintro ⟨incomplete, pfh⟩
      cases waiting : pcb.conexao.estado with
      | ESTADO_ESPERA_CABECALHO =>
          rw [regular.cabecalho waiting] at pfh
          exact Bool.noConfusion pfh
      | ESTADO_ESPERA_DADOS => exact estado waiting
      | ESTADO_CONCLUIDO => exact incomplete waiting
    rw [if_neg noFile]
    exact running.forgets

end Callbacks

/-! ## Runs -/

theorem accept_possessed (possessed : m.Possessed) (isNew : m.pcbs conexao = none)
    (alocado : Bool) : (m.accept conexao alocado).Possessed := by
  cases alocado with
  | false => exact possessed
  | true =>
      have isPcb : (m.accept conexao true).pcbs conexao = some ⟨m.unused, .aceita, 0, false⟩ :=
        Function.update_self _ _ _
      have elsewhere : ∀ {other}, other ≠ conexao →
          (m.accept conexao true).pcbs other = m.pcbs other := fun different =>
        Function.update_of_ne different _ _
      have isNewBlock : Function.update m.block (.estado conexao) (some m.unused) =
          (m.accept conexao true).block := by
        funext owner
        cases owner with
        | estado other =>
            by_cases same : other = conexao
            · rw [same, Function.update_self]
              exact (block_estado isPcb rfl).symm
            · have different : Owner.estado other ≠ .estado conexao := fun equal =>
                same (Owner.estado.inj equal)
              rw [Function.update_of_ne different, Memory.block, Memory.block, elsewhere same]
        | arquivo other =>
            rw [Function.update_of_ne Owner.noConfusion]
            by_cases same : other = conexao
            · rw [same, block_arquivo_none isPcb Estado.noConfusion, Memory.block, isNew]
              rfl
            · rw [Memory.block, Memory.block, elsewhere same]
        | arquivoBuffer => rfl
      refine ⟨alloc_unused possessed.unused, ?_, fun other pcb isOther accepts => ?_⟩
      · rw [← isNewBlock]
        exact alloc_owned possessed.unused possessed.owned (.estado conexao) sizeofConexao
      · by_cases same : other = conexao
        · rw [same, isPcb] at isOther
          obtain rfl := Option.some.inj isOther
          exact ⟨fun _ => rfl, Estado.noConfusion⟩
        · rw [elsewhere same] at isOther
          exact alloc_regular possessed.unused (possessed.regular other pcb isOther accepts)

/-- The memory with the pointer to a freed block cleared. -/
def System.settled (s : System) : Memory :=
  if s.clearing then { s.memory with arquivoBuffer := none } else s.memory

structure System.Invariant (s : System) : Prop where
  proceeds : s.settled.Proceeds s.pending
  loaded : ∀ block, s.loaded = some block →
    s.clearing = false ∧ s.memory.arquivoBuffer = some block

theorem initial_invariant : System.initial.Invariant := by
  have possessed : System.initial.memory.Possessed := by
    refine ⟨fun _ _ => rfl, ⟨fun {owner block} holds => ?_, fun {owner other block} holds => ?_⟩,
      fun conexao pcb isPcb => (Option.some_ne_none _ isPcb.symm).elim⟩
    · cases owner <;> exact (Option.some_ne_none _ holds.symm).elim
    · cases owner <;> exact (Option.some_ne_none _ holds.symm).elim
  exact ⟨possessed, fun block isBlock => (Option.some_ne_none _ isBlock.symm).elim⟩

variable {s next : System} {action : Action}

theorem settled_of (clear : s.clearing = false) : s.settled = s.memory := by
  rw [System.settled, clear]
  rfl

theorem idle_iff : s.idle = true ↔ s.pending = [] ∧ s.clearing = false := by
  rw [System.idle, Bool.and_eq_true, List.isEmpty_iff, Bool.not_eq_true']

theorem System.Invariant.possessed (invariant : s.Invariant) (idle : s.idle = true) :
    s.memory.Possessed := by
  obtain ⟨nothing, clear⟩ := idle_iff.mp idle
  have proceeds := invariant.proceeds
  rw [settled_of clear, nothing] at proceeds
  exact proceeds

theorem System.Invariant.published (invariant : s.Invariant) (clear : s.clearing = false) :
    ∀ block, s.memory.arquivoBuffer = some block → s.memory.heap block ≠ none := by
  intro block published
  have proceeds := invariant.proceeds
  rw [settled_of clear] at proceeds
  cases pending : s.pending with
  | nil =>
      rw [pending] at proceeds
      exact @proceeds.owned.live .arquivoBuffer block published
  | cons task tasks =>
      rw [pending] at proceeds
      exact proceeds.1 block published

theorem System.Invariant.called (invariant : s.Invariant) (idle : s.idle = true) {memory : Memory}
    {pending : List Task} (proceeds : memory.Proceeds pending)
    (same : memory.arquivoBuffer = s.memory.arquivoBuffer) :
    ({ s with memory := memory, pending := pending } : System).Invariant := by
  have clear := (idle_iff.mp idle).2
  have settled := @settled_of { s with memory := memory, pending := pending } clear
  refine ⟨?_, fun block isBlock => ⟨clear, same.trans (invariant.loaded block isBlock).2⟩⟩
  rw [settled]
  exact proceeds

theorem apply_arquivoBuffer {task : Task}
    (notPublish : ∀ tamanho, task ≠ .effect (.publish tamanho)) :
    (m.apply task).arquivoBuffer = m.arquivoBuffer := by
  cases task with
  | effect effect =>
      rw [Memory.apply]
      cases m.pcbs m.tpcb with
      | none => rfl
      | some pcb =>
          rw [Option.elim_some]
          cases effect with
          | malloc tamanho =>
              rw [Memory.applyOf]
              split <;> rfl
          | freePublished =>
              rw [Memory.applyOf]
              cases published : m.arquivoBuffer <;> exact published
          | publish tamanho => exact absurd rfl (notPublish tamanho)
          | store offset bytes => rfl
          | storeCrc tamanho => rfl
          | freeFile => rfl
          | freeState => rfl
          | close => rfl
          | pbufFree => rfl
  | returns err => cases err <;> rfl
  | forget => rfl

theorem settled_step (s : System) (task : Task) (tasks : List Task) :
    ({ s with
        memory := s.memory.apply task
        pending := tasks
        clearing := task = .effect .freePublished && s.memory.arquivoBuffer.isSome } :
      System).settled = s.memory.settle task := by
  rw [System.settled, Memory.settle]
  dsimp only
  by_cases isFree : task = .effect .freePublished
  · rw [decide_eq_true isFree, Bool.true_and, if_pos isFree]
    cases published : s.memory.arquivoBuffer with
    | some block => rfl
    | none =>
        have same : (s.memory.apply task).arquivoBuffer = none :=
          (apply_arquivoBuffer fun _ other => by rw [isFree] at other; cases other).trans published
        exact congrArg
          (fun pointer => ({ s.memory.apply task with arquivoBuffer := pointer } : Memory)) same
  · rw [decide_eq_false isFree, Bool.false_and, if_neg isFree]
    rfl

theorem advance_invariant (invariant : s.Invariant)
    (permitted : s.pending.head? = some (.effect .freePublished) → s.loaded = none)
    (taken : s.step .advance = some next) : next.Invariant := by
  obtain ⟨memory, pending, clearing, loaded⟩ := s
  obtain ⟨proceeds, isLoaded⟩ := invariant
  cases clearing with
  | true =>
      obtain rfl := Option.some.inj taken
      refine ⟨proceeds, fun block isBlock => ?_⟩
      exact Bool.noConfusion (isLoaded block isBlock).1
  | false =>
      cases pending with
      | nil => exact (Option.some_ne_none _ taken.symm).elim
      | cons task tasks =>
          obtain rfl := Option.some.inj taken
          obtain ⟨published, -, unpublished, proceeds⟩ := proceeds
          refine ⟨?_, fun block isBlock => ?_⟩
          · have same := settled_step ⟨memory, task :: tasks, false, loaded⟩ task tasks
            rw [same]
            exact proceeds
          · have notFree : task ≠ .effect .freePublished := by
              rintro rfl
              rw [permitted rfl] at isBlock
              exact Option.some_ne_none _ isBlock.symm
            have isPublished := (isLoaded block isBlock).2
            refine ⟨?_, ?_⟩
            · rw [decide_eq_false notFree, Bool.false_and]
            · refine (apply_arquivoBuffer fun tamanho same => ?_).trans isPublished
              exact Option.some_ne_none _ (isPublished.symm.trans (unpublished tamanho same))

theorem step_invariant (invariant : s.Invariant) (permitted : Permitted s action)
    (taken : s.step action = some next) : next.Invariant := by
  cases action with
  | accept conexao alocado =>
      rw [System.step] at taken
      split at taken
      next both =>
        rw [Bool.and_eq_true] at both
        obtain rfl := Option.some.inj taken
        have possessed := accept_possessed (invariant.possessed both.1)
          (Option.isNone_iff_eq_none.mp both.2) alocado
        refine invariant.called both.1 ?_ ?_
        · rw [(idle_iff.mp both.1).1]
          exact possessed
        · cases alocado <;> rfl
      next => exact (Option.some_ne_none _ taken.symm).elim
  | recv conexao dados alocado =>
      rw [System.step] at taken
      split at taken
      next idle =>
        obtain ⟨pcb, isPcb, rfl⟩ := Option.map_eq_some_iff.mp taken
        obtain ⟨accepts, fits⟩ := permitted pcb isPcb
        exact invariant.called idle
          (recebe_proceeds (invariant.possessed idle) isPcb accepts fits) rfl
      next => exact (Option.some_ne_none _ taken.symm).elim
  | disconnect conexao =>
      rw [System.step] at taken
      split at taken
      next idle =>
        obtain ⟨pcb, isPcb, rfl⟩ := Option.map_eq_some_iff.mp taken
        exact invariant.called idle
          (desconecta_proceeds (invariant.possessed idle) isPcb (permitted pcb isPcb)) rfl
      next => exact (Option.some_ne_none _ taken.symm).elim
  | advance => exact advance_invariant invariant permitted taken
  | access pacote =>
      rw [System.step] at taken
      split at taken
      next =>
        obtain rfl := Option.some.inj taken
        refine ⟨invariant.proceeds, fun block isBlock => ?_⟩
        dsimp only at isBlock ⊢
        split at isBlock
        next isData => exact ⟨permitted isData, isBlock⟩
        next => exact (Option.some_ne_none _ isBlock.symm).elim
      next => exact (Option.some_ne_none _ taken.symm).elim
  | read =>
      rw [System.step] at taken
      split at taken
      next => exact (Option.some_ne_none _ taken.symm).elim
      next =>
        obtain rfl := Option.some.inj taken
        exact ⟨invariant.proceeds, fun _ isBlock => (Option.some_ne_none _ isBlock.symm).elim⟩

theorem step_safe (invariant : s.Invariant) (permitted : Permitted s action)
    (taken : s.step action = some next) : StepSafe s action next := by
  have called : ∀ conexao, s.idle = true →
      (∀ pcb, s.memory.pcbs conexao = some pcb → pcb.refused = false) →
      ∀ operation ∈ (s.memory.pcbs conexao).toList.map fun pcb => Operation.use pcb.es,
        operation.Safe s.memory := by
    intro conexao idle accepts operation member
    obtain ⟨pcb, isPcb, rfl⟩ := List.mem_map.mp member
    rw [Option.mem_toList] at isPcb
    exact (invariant.possessed idle).owned.live (block_estado isPcb (accepts pcb isPcb))
  have idle : ∀ {answer : Option System}, (if s.idle then answer else none) = some next →
      s.idle = true := by
    intro answer taken
    by_contra busy
    rw [if_neg busy] at taken
    exact (Option.some_ne_none _ taken.symm).elim
  cases action with
  | accept conexao alocado => exact fun operation member => absurd member List.not_mem_nil
  | recv conexao dados alocado =>
      exact called conexao (idle taken) fun pcb isPcb => (permitted pcb isPcb).1
  | disconnect conexao => exact called conexao (idle taken) permitted
  | advance =>
      intro operation member
      rw [System.operations] at member
      split at member
      next => exact absurd member List.not_mem_nil
      next busy =>
        have proceeds := invariant.proceeds
        rw [settled_of (Bool.eq_false_iff.mpr busy)] at proceeds
        cases pending : s.pending with
        | nil =>
            rw [pending] at member
            exact absurd member List.not_mem_nil
        | cons task tasks =>
            rw [pending] at member proceeds
            exact proceeds.2.1 operation member
  | access pacote => exact fun operation member => absurd member List.not_mem_nil
  | read =>
      intro operation member
      obtain ⟨block, isBlock, rfl⟩ := List.mem_map.mp member
      rw [Option.mem_toList] at isBlock
      obtain ⟨clear, published⟩ := invariant.loaded block isBlock
      exact invariant.published clear block published

/-- Where all that happens is permitted, all that is done with the memory is safe. -/
theorem ownership_kept (actions : List Action)
    (permitted : Guarded System.step Permitted .initial actions) :
    EachStep System.step StepSafe .initial actions :=
  eachStep_of_guarded System.Invariant
    (fun _ _ _ invariant permitted taken => step_invariant invariant permitted taken)
    (fun _ _ _ invariant permitted taken => step_safe invariant permitted taken)
    initial_invariant permitted

theorem advance_loaded (taken : s.step .advance = some next) : next.loaded = s.loaded := by
  obtain ⟨memory, pending, clearing, loaded⟩ := s
  cases clearing with
  | true =>
      obtain rfl := Option.some.inj taken
      rfl
  | false =>
      cases pending with
      | nil => exact (Option.some_ne_none _ taken.symm).elim
      | cons task tasks =>
          obtain rfl := Option.some.inj taken
          rfl

/-- A header that announces one byte, and more bytes in the same packet. -/
def umByte (dados : List Byte) : List Byte := encodeTamanho 1 ++ List.replicate 12 0x20 ++ dados

/-- The 68000 reads, and a file of one byte arrives. -/
theorem ownership_kept_upload : EachStep System.step StepSafe .initial
    ([.accept 0 true, .recv 0 (umByte [0x41]) true, .access ⟨.OPER_LEITURA, 0, 0, fun _ => 0⟩] ++
      List.replicate 10 .advance) := by
  have advances : ∀ count state, state.loaded = none →
      Guarded System.step Permitted state (List.replicate count .advance) := by
    intro count
    induction count with
    | zero => exact fun _ _ => trivial
    | succ count inductionHypothesis =>
        refine fun state nothing => ⟨fun _ => nothing, fun next taken => ?_⟩
        exact inductionHypothesis next ((advance_loaded taken).trans nothing)
  refine ownership_kept _ ⟨trivial, fun first accepted => ?_⟩
  obtain rfl := Option.some.inj accepted
  refine ⟨fun pcb isPcb => ?_, fun second received => ?_⟩
  · obtain rfl := Option.some.inj isPcb
    exact ⟨rfl, fun _ _ _ => by decide, Estado.noConfusion⟩
  · obtain rfl := Option.some.inj received
    refine ⟨fun _ => rfl, fun third accessed => ?_⟩
    obtain rfl := Option.some.inj accessed
    exact advances 10 _ rfl

/-- One byte is announced, and two come. -/
theorem data_behind_block : ¬EachStep System.step StepSafe .initial
    [.accept 0 true, .recv 0 (umByte [0x41, 0x42]) true, .advance, .advance, .advance,
      .advance] := by
  intro each
  have stored := ((((((each _ rfl).2 _ rfl).2 _ rfl).2 _ rfl).2 _ rfl).2 _ rfl).1
  obtain ⟨size, isSize, inside⟩ :=
    stored (.write 1 21 2) (List.mem_cons_of_mem _ List.mem_cons_self)
  obtain rfl := Option.some.inj isSize
  exact absurd inside (by decide)

end OrionBios.FileServer
