import OrionBios.Crc.Crc32
import OrionBios.Receiver.Sender
import OrionBios.Buffers.Ring
import Mathlib.Data.List.TakeWhile

/-!
# The reception of a file

`tcp_server_recv` for one connection. A call changes the state of the connection and has effects in
their order: on the block of the file, on the variables of the published file, and on what it was
handed. It looks at the first buffer of a chain only.
-/

namespace OrionBios.FileServer

open Buffers Crc
open Receiver (encodeTamanho)

/-! ## The connection -/

inductive Estado where
  | ESTADO_ESPERA_CABECALHO | ESTADO_ESPERA_DADOS | ESTADO_CONCLUIDO
  deriving DecidableEq, Repr

/-- `conexao_estado_t`. The pointer `pfh` is set or not; `buffer_ram` points into its block. -/
structure Conexao where
  estado : Estado
  tamanhoTotal : BitVec 32
  bytesRecebidos : BitVec 32
  nomeArquivo : List Byte
  pfh : Bool

/-- What `calloc` and `tcp_server_accept` make of it. -/
def Conexao.aceita : Conexao := ⟨.ESTADO_ESPERA_CABECALHO, 0, 0, List.replicate 13 0, false⟩

def TAMANHO_CABECALHO : Nat := 16

/-- `sizeof(file_t)`, where `conteudo` begins. -/
def sizeofFile : Nat := 21

inductive Effect where
  /-- `es->pfh = malloc(size)` -/
  | malloc (size : BitVec 32)
  /-- Bytes stored in the block of `es->pfh`. -/
  | store (offset : Nat) (bytes : List Byte)
  /-- `free(arquivo_buffer)`, where one is published. -/
  | freePublished
  /-- The CRC of the block behind its first four bytes, stored in these. -/
  | storeCrc (tamanho : BitVec 32)
  /-- The block becomes `arquivo_buffer`, ready to be read. -/
  | publish (tamanho : BitVec 32)
  /-- `free(es->pfh)` -/
  | freeFile
  /-- `free(es)` -/
  | freeState
  | close
  | pbufFree
  deriving DecidableEq

inductive Err where
  | ERR_OK | ERR_MEM
  deriving DecidableEq

structure Outcome where
  conexao : Conexao
  effects : List Effect
  err : Err

/-- The bytes of `strncpy(.., source, count)`. -/
def strncpy (source : List Byte) (count : Nat) : List Byte :=
  let text := (source.take count).takeWhile (· ≠ 0)
  text ++ List.replicate (count - text.length) 0

/-- A little-endian number of four bytes. -/
def decodeUint32 (bytes : List Byte) : BitVec 32 :=
  bytes.getD 3 0 ++ bytes.getD 2 0 ++ (bytes.getD 1 0 ++ bytes.getD 0 0)

namespace Conexao

/-- The call without a buffer: the client has gone. -/
def desconecta (es : Conexao) : List Effect :=
  (if es.estado ≠ .ESTADO_CONCLUIDO ∧ es.pfh = true then [.freeFile] else []) ++
    [.freeState, .close]

/-- The end of a file, in the state in which data are awaited. -/
def conclui (es : Conexao) : Conexao × List Effect :=
  if es.bytesRecebidos ≥ es.tamanhoTotal then
    let tamanho := BitVec.ofNat 32 sizeofFile + es.tamanhoTotal
    ({ es with estado := .ESTADO_CONCLUIDO },
      [.freePublished, .store 4 (encodeTamanho tamanho), .storeCrc tamanho, .publish tamanho])
  else (es, [])

/-- The bytes of a packet from `indice_dados` on. -/
def recebeDados (es : Conexao) (dados : List Byte) : Conexao × List Effect :=
  if es.estado = .ESTADO_ESPERA_DADOS then
    let copied := if dados.length > 0 then
        [Effect.store (sizeofFile + es.bytesRecebidos.toNat) dados] else []
    let (es, finished) :=
      { es with bytesRecebidos := es.bytesRecebidos + BitVec.ofNat 32 dados.length }.conclui
    (es, copied ++ finished)
  else (es, [])

/-- `tcp_server_recv`, with the bytes of the first buffer and whether there is memory. -/
def recebe (es : Conexao) (dados : List Byte) (alocado : Bool) : Outcome :=
  if es.estado = .ESTADO_ESPERA_CABECALHO ∧ dados.length ≥ TAMANHO_CABECALHO then
    let nome := (dados.drop 4).take 12 ++ [0]
    let es := { es with tamanhoTotal := decodeUint32 dados, nomeArquivo := nome, pfh := alocado }
    let malloc := Effect.malloc (BitVec.ofNat 32 sizeofFile + es.tamanhoTotal)
    if alocado then
      let es := { es with bytesRecebidos := 0, estado := .ESTADO_ESPERA_DADOS }
      let (es, effects) := es.recebeDados (dados.drop TAMANHO_CABECALHO)
      ⟨es, [malloc, .store 8 (strncpy nome 12), .store 20 [0]] ++ effects ++ [.pbufFree], .ERR_OK⟩
    else ⟨es, [malloc, .close, .freeState], .ERR_MEM⟩
  else
    let (es, effects) := es.recebeDados dados
    ⟨es, effects ++ [.pbufFree], .ERR_OK⟩

end Conexao

/-! ## One upload -/

/-- A call: the first buffer of the chain and the others. -/
structure Segment where
  payload : List Byte
  chain : List (List Byte)

def Segment.bytes (segment : Segment) : List Byte := segment.payload ++ segment.chain.flatten

/-- The connection, unless it was freed; the block of its file, and the published one. -/
structure Upload where
  conexao : Option Conexao
  cells : Nat → Byte
  arquivo : Option (List Byte)

section Upload

variable (table : Table) (allocated : Nat → Byte)

def Upload.apply (u : Upload) : Effect → Upload
  | .malloc _ => { u with cells := allocated }
  | .store offset bytes => { u with cells := bufferWrite u.cells offset bytes }
  | .freePublished => { u with arquivo := none }
  | .storeCrc tamanho =>
      let crc := Program.pico2W.crc32Calculate table (bufferRead u.cells 4 (tamanho.toNat - 4))
      { u with cells := bufferWrite u.cells 0 (encodeTamanho crc) }
  | .publish tamanho => { u with arquivo := some (bufferRead u.cells 0 tamanho.toNat) }
  | .freeState => { u with conexao := none }
  | .freeFile | .close | .pbufFree => u

def Upload.start : Upload := ⟨some .aceita, fun _ => 0, none⟩

/-- A call, on a connection whose state is there. -/
def Upload.recv (alocado : Bool) (u : Upload) (segment : Segment) : Option Upload :=
  u.conexao.map fun es =>
    let outcome := es.recebe segment.payload alocado
    outcome.effects.foldl (Upload.apply table allocated) { u with conexao := some outcome.conexao }

def Upload.deliver (alocado : Bool) : Upload → List Segment → Option Upload
  | u, [] => some u
  | u, segment :: rest => (u.recv table allocated alocado segment).bind fun next =>
      Upload.deliver alocado next rest

end Upload

/-! ## What is sent -/

/-- A file as the tool sends it: its name is an argument of at most twelve characters, and its
length an `int`. -/
structure Arquivo where
  nome : List Byte
  noTerminator : (0 : Byte) ∉ nome
  nomeFits : nome.length ≤ 12
  conteudo : List Byte
  fits : conteudo.length < 2 ^ 31

namespace Arquivo

variable (arquivo : Arquivo)

/-- The name in the header, filled with spaces. -/
def nomeEnviado : List Byte :=
  arquivo.nome ++ List.replicate (12 - arquivo.nome.length) 0x20

def enviado : List Byte :=
  encodeTamanho (BitVec.ofNat 32 arquivo.conteudo.length) ++ arquivo.nomeEnviado ++ arquivo.conteudo

/-- The block behind its CRC: the length of the block, the name and the content. -/
def semCrc : List Byte :=
  encodeTamanho (BitVec.ofNat 32 (sizeofFile + arquivo.conteudo.length)) ++
    (arquivo.nomeEnviado ++ [0]) ++ arquivo.conteudo

/-- The block of the file, with the CRC of the standard in front. -/
def Publicado (bytes : List Byte) : Prop :=
  ∃ crc, IsCrc32 arquivo.semCrc crc ∧ bytes = encodeTamanho crc ++ arquivo.semCrc

end Arquivo

/-! ## The bytes that reach the file -/

/-- The block made of a header and of data, once as many came as the header announces. -/
def blocoDe (table : Table) (taken : List Byte) : List Byte :=
  let tamanho := decodeUint32 taken
  let semCrc := encodeTamanho (BitVec.ofNat 32 sizeofFile + tamanho) ++
    (strncpy ((taken.drop 4).take 12 ++ [0]) 12 ++ [0]) ++ (taken.drop 16).take tamanho.toNat
  encodeTamanho (Program.pico2W.crc32Calculate table semCrc) ++ semCrc

structure Filling (cells : Nat → Byte) (es : Conexao) (taken : List Byte) : Prop where
  estado : es.estado = .ESTADO_ESPERA_DADOS
  header : 16 ≤ taken.length
  tamanho : es.tamanhoTotal = decodeUint32 taken
  recebidos : es.bytesRecebidos.toNat + 16 = taken.length
  nome : bufferRead cells 8 13 = strncpy ((taken.drop 4).take 12 ++ [0]) 12 ++ [0]
  dados : bufferRead cells sizeofFile es.bytesRecebidos.toNat = taken.drop 16

/-- How far the bytes taken have brought an upload. -/
inductive Reached (table : Table) (u : Upload) (taken : List Byte) : Prop where
  | waiting (es : Conexao) (isEs : u.conexao = some es) (nothing : taken = [])
      (estado : es.estado = .ESTADO_ESPERA_CABECALHO) (arquivo : u.arquivo = none)
  | receiving (es : Conexao) (isEs : u.conexao = some es) (filling : Filling u.cells es taken)
      (less : es.bytesRecebidos < es.tamanhoTotal) (arquivo : u.arquivo = none)
  | done (es : Conexao) (isEs : u.conexao = some es) (estado : es.estado = .ESTADO_CONCLUIDO)
      (bytes : List Byte) (arquivo : u.arquivo = some bytes) (header : 16 ≤ taken.length)
      (enough : (decodeUint32 taken).toNat + 16 ≤ taken.length)
      (length : bytes.length = (BitVec.ofNat 32 sizeofFile + decodeUint32 taken).toNat)
      (content : sizeofFile + (decodeUint32 taken).toNat < 2 ^ 32 → bytes = blocoDe table taken)

variable {table : Table} {allocated : Nat → Byte} {u : Upload} {es : Conexao}
  {taken dados : List Byte}

/-! ### The header -/

theorem decodeUint32_append (header : 4 ≤ taken.length) :
    decodeUint32 (taken ++ dados) = decodeUint32 taken := by
  unfold decodeUint32
  rw [List.getD_append _ _ _ _ (by omega), List.getD_append _ _ _ _ (by omega),
    List.getD_append _ _ _ _ (by omega), List.getD_append _ _ _ _ (by omega)]

theorem nome_append (header : 16 ≤ taken.length) :
    ((taken ++ dados).drop 4).take 12 = (taken.drop 4).take 12 := by
  rw [List.drop_append_of_le_length (by omega), List.take_append_of_le_length]
  rw [List.length_drop]
  omega

theorem blocoDe_append (header : 16 ≤ taken.length)
    (enough : (decodeUint32 taken).toNat + 16 ≤ taken.length) :
    blocoDe table (taken ++ dados) = blocoDe table taken := by
  unfold blocoDe
  dsimp only
  rw [decodeUint32_append (by omega), nome_append header, List.drop_append_of_le_length header,
    List.take_append_of_le_length]
  rw [List.length_drop]
  omega

/-! ### The block -/

theorem Filling.more (filling : Filling u.cells es taken)
    (small : taken.length + dados.length < 2 ^ 32) :
    Filling (bufferWrite u.cells (sizeofFile + es.bytesRecebidos.toNat) dados)
      { es with bytesRecebidos := es.bytesRecebidos + BitVec.ofNat 32 dados.length }
      (taken ++ dados) := by
  obtain ⟨estado, header, tamanho, recebidos, nome, isData⟩ := filling
  have sum : (es.bytesRecebidos + BitVec.ofNat 32 dados.length).toNat =
      es.bytesRecebidos.toNat + dados.length := by
    rw [BitVec.toNat_add, BitVec.toNat_ofNat]
    omega
  refine ⟨estado, ?_, ?_, ?_, ?_, ?_⟩
  · rw [List.length_append]
    omega
  · rw [decodeUint32_append (by omega)]
    exact tamanho
  · dsimp only
    rw [sum, List.length_append]
    omega
  · rw [bufferRead_apart (Or.inl (Nat.le_add_right 21 _)), nome_append header, nome]
  · dsimp only
    rw [sum, bufferRead_append, bufferRead_apart (Or.inl (Nat.le_refl _)), isData,
      List.drop_append_of_le_length header]
    exact congrArg _ (bufferRead_bufferWrite u.cells _ dados)

theorem bufferRead_prefix {cells : Nat → Byte} {start first count : Nat} (le : first ≤ count) :
    bufferRead cells start first = (bufferRead cells start count).take first := by
  obtain ⟨more, rfl⟩ := Nat.exists_eq_add_of_le le
  rw [bufferRead_append, List.take_left' bufferRead_length]

theorem sealed_eq (filling : Filling u.cells es taken)
    (enough : es.tamanhoTotal ≤ es.bytesRecebidos)
    (fits : sizeofFile + (decodeUint32 taken).toNat < 2 ^ 32) {sealed : Nat → Byte}
    (isSealed : sealed = bufferWrite u.cells 4
      (encodeTamanho (BitVec.ofNat 32 sizeofFile + es.tamanhoTotal))) :
    bufferRead (bufferWrite sealed 0 (encodeTamanho (Program.pico2W.crc32Calculate table
          (bufferRead sealed 4 ((BitVec.ofNat 32 sizeofFile + es.tamanhoTotal).toNat - 4))))) 0
        (BitVec.ofNat 32 sizeofFile + es.tamanhoTotal).toNat = blocoDe table taken := by
  obtain ⟨-, -, tamanho, -, nome, isData⟩ := filling
  rw [tamanho] at enough isSealed ⊢
  have total : (BitVec.ofNat 32 sizeofFile + decodeUint32 taken).toNat =
      4 + (4 + (13 + (decodeUint32 taken).toNat)) := by
    unfold sizeofFile at fits ⊢
    rw [BitVec.toNat_add, BitVec.toNat_ofNat]
    omega
  have isTamanho : bufferRead sealed 4 4 =
      encodeTamanho (BitVec.ofNat 32 sizeofFile + decodeUint32 taken) := by
    rw [isSealed]
    exact bufferRead_bufferWrite u.cells 4 _
  have isNome : bufferRead sealed (4 + 4) 13 =
      strncpy ((taken.drop 4).take 12 ++ [0]) 12 ++ [0] := by
    rw [isSealed, ← nome]
    exact bufferRead_apart (Or.inr (Nat.le_refl 8))
  have isConteudo : bufferRead sealed (4 + 4 + 13) (decodeUint32 taken).toNat =
      (taken.drop 16).take (decodeUint32 taken).toNat := by
    rw [isSealed, ← isData, ← bufferRead_prefix enough]
    exact bufferRead_apart (Or.inr (Nat.le_add_right 8 13))
  have semCrc : bufferRead sealed 4 (4 + (13 + (decodeUint32 taken).toNat)) =
      encodeTamanho (BitVec.ofNat 32 sizeofFile + decodeUint32 taken) ++
        (strncpy ((taken.drop 4).take 12 ++ [0]) 12 ++ [0]) ++
          (taken.drop 16).take (decodeUint32 taken).toNat := by
    rw [bufferRead_append, bufferRead_append, isTamanho, isNome, isConteudo, ← List.append_assoc]
  rw [total, Nat.add_sub_cancel_left, semCrc, bufferRead_append]
  unfold blocoDe
  refine congrArg₂ _ (bufferRead_bufferWrite sealed 0 _) ?_
  rw [← semCrc]
  exact bufferRead_apart (Or.inr (Nat.le_refl 4))

/-! ### Calls -/

theorem conclui_reached (filling : Filling u.cells es taken) (arquivo : u.arquivo = none) :
    Reached table (es.conclui.2.foldl (Upload.apply table allocated)
      { u with conexao := some es.conclui.1 }) taken := by
  unfold Conexao.conclui
  by_cases enough : es.bytesRecebidos ≥ es.tamanhoTotal
  · rw [if_pos enough]
    refine .done _ rfl rfl _ rfl filling.header ?_ ?_ fun fits => sealed_eq filling enough fits rfl
    · have least : es.tamanhoTotal.toNat ≤ es.bytesRecebidos.toNat := enough
      rw [← filling.tamanho, ← filling.recebidos]
      omega
    · rw [← filling.tamanho]
      exact bufferRead_length
  · rw [if_neg enough]
    exact .receiving es rfl filling (BitVec.not_le.mp enough) arquivo

theorem recebeDados_reached (filling : Filling u.cells es taken)
    (small : taken.length + dados.length < 2 ^ 32) (arquivo : u.arquivo = none) :
    Reached table ((es.recebeDados dados).2.foldl (Upload.apply table allocated)
      { u with conexao := some (es.recebeDados dados).1 }) (taken ++ dados) := by
  have copied : ∀ conexao : Option Conexao,
      (if dados.length > 0 then [Effect.store (sizeofFile + es.bytesRecebidos.toNat) dados]
        else []).foldl (Upload.apply table allocated) { u with conexao := conexao } =
      { u with
        conexao := conexao
        cells := bufferWrite u.cells (sizeofFile + es.bytesRecebidos.toNat) dados } := by
    intro conexao
    by_cases some : dados.length > 0
    · rw [if_pos some]
      rfl
    · obtain rfl : dados = [] := List.length_eq_zero_iff.mp (by omega)
      rw [if_neg some, bufferWrite_nil]
      rfl
  unfold Conexao.recebeDados
  rw [if_pos filling.estado]
  dsimp only
  rw [List.foldl_append, copied]
  exact @conclui_reached table allocated { u with
    conexao := none
    cells := bufferWrite u.cells (sizeofFile + es.bytesRecebidos.toNat) dados } _ _
    (filling.more small) arquivo

/-- The bytes taken after one more buffer: before the header, a buffer that is too short for it is
dropped. -/
def takes (taken payload : List Byte) : List Byte :=
  if taken = [] ∧ payload.length < 16 then [] else taken ++ payload

theorem strncpy_length (source : List Byte) (count : Nat) :
    (strncpy source count).length = count := by
  have le : ((source.take count).takeWhile (· ≠ 0)).length ≤ count :=
    (List.takeWhile_sublist _).length_le.trans (List.length_take_le _ _)
  rw [strncpy, List.length_append, List.length_replicate]
  omega

/-- The block behind its first stores, with the header of a packet. -/
theorem filling_header (header : 16 ≤ dados.length) :
    Filling
      (bufferWrite (bufferWrite allocated 8 (strncpy ((dados.drop 4).take 12 ++ [0]) 12)) 20 [0])
      ⟨.ESTADO_ESPERA_DADOS, decodeUint32 dados, 0, (dados.drop 4).take 12 ++ [0], true⟩
      (dados.take 16) := by
  have length : (dados.take 16).length = 16 := List.length_take_of_le header
  have parts : dados.take 16 ++ dados.drop 16 = dados := List.take_append_drop 16 dados
  have sameTamanho : decodeUint32 (dados.take 16) = decodeUint32 dados := by
    rw [← @decodeUint32_append (dados.take 16) (dados.drop 16) (by omega), parts]
  have sameNome : ((dados.take 16).drop 4).take 12 = (dados.drop 4).take 12 := by
    rw [← @nome_append (dados.take 16) (dados.drop 16) (by omega), parts]
  generalize isNome : strncpy ((dados.drop 4).take 12 ++ [0]) 12 = nome
  have nomeLength : nome.length = 12 := by
    rw [← isNome, strncpy_length]
  refine ⟨rfl, Nat.le_of_eq length.symm, sameTamanho.symm, ?_, ?_, ?_⟩
  · rw [length]
    rfl
  · have isNome' : bufferRead (bufferWrite allocated 8 nome) 8 12 = nome := by
      rw [← nomeLength]
      exact bufferRead_bufferWrite allocated 8 nome
    rw [sameNome, isNome, bufferRead_append 12 1, bufferRead_apart (Or.inl (Nat.le_refl 20)),
      isNome']
    exact congrArg _ (bufferRead_bufferWrite (bufferWrite allocated 8 nome) 20 [0])
  · rw [List.drop_take_self]
    rfl

theorem recv_eq {segment : Segment} {alocado : Bool} (isEs : u.conexao = some es) :
    u.recv table allocated alocado segment =
      some ((es.recebe segment.payload alocado).effects.foldl (Upload.apply table allocated)
        { u with conexao := some (es.recebe segment.payload alocado).conexao }) := by
  rw [Upload.recv, isEs]
  rfl

theorem recebeDados_ignored (other : es.estado ≠ .ESTADO_ESPERA_DADOS) :
    es.recebeDados dados = (es, []) := if_neg other

theorem recebe_dados {alocado : Bool}
    (noHeader : ¬(es.estado = .ESTADO_ESPERA_CABECALHO ∧ dados.length ≥ TAMANHO_CABECALHO)) :
    es.recebe dados alocado =
      ⟨(es.recebeDados dados).1, (es.recebeDados dados).2 ++ [.pbufFree], .ERR_OK⟩ :=
  if_neg noHeader

theorem recebe_cabecalho (waiting : es.estado = .ESTADO_ESPERA_CABECALHO)
    (header : dados.length ≥ TAMANHO_CABECALHO) (alocado : Bool) :
    es.recebe dados alocado =
      let nome := (dados.drop 4).take 12 ++ [0]
      let malloc := Effect.malloc (BitVec.ofNat 32 sizeofFile + decodeUint32 dados)
      if alocado then
        let (es, effects) := Conexao.recebeDados
          ⟨.ESTADO_ESPERA_DADOS, decodeUint32 dados, 0, nome, true⟩ (dados.drop TAMANHO_CABECALHO)
        ⟨es, [malloc, .store 8 (strncpy nome 12), .store 20 [0]] ++ effects ++ [.pbufFree], .ERR_OK⟩
      else
        ⟨{ es with tamanhoTotal := decodeUint32 dados, nomeArquivo := nome, pfh := false },
          [malloc, .close, .freeState], .ERR_MEM⟩ := by
  unfold Conexao.recebe
  rw [if_pos ⟨waiting, header⟩]
  cases alocado <;> rfl

theorem recv_reached {segment : Segment} (reached : Reached table u taken)
    (small : taken.length + segment.payload.length < 2 ^ 32) :
    ∃ next, u.recv table allocated true segment = some next ∧
      Reached table next (takes taken segment.payload) := by
  obtain ⟨payload, chain⟩ := segment
  cases reached with
  | waiting es isEs nothing estado arquivo =>
      refine ⟨_, recv_eq isEs, ?_⟩
      dsimp only at small ⊢
      by_cases header : payload.length ≥ TAMANHO_CABECALHO
      · have filling := @filling_header allocated payload header
        have whole : takes taken payload = payload.take 16 ++ payload.drop 16 := by
          rw [takes, if_neg fun both => absurd both.2 (Nat.not_lt.mpr header), nothing,
            List.take_append_drop]
          rfl
        rw [recebe_cabecalho estado header, whole]
        dsimp only
        rw [if_pos rfl, List.foldl_append, List.foldl_append]
        refine recebeDados_reached (u := { u with cells := _ }) filling ?_ arquivo
        have sixteen : 16 ≤ payload.length := header
        rw [List.length_take_of_le sixteen, List.length_drop]
        unfold TAMANHO_CABECALHO
        omega
      · have dropped : takes taken payload = [] :=
          if_pos ⟨nothing, Nat.not_le.mp header⟩
        have ignored : es.recebeDados payload = (es, []) := by
          apply recebeDados_ignored
          rw [estado]
          decide
        rw [recebe_dados fun both => header both.2, dropped, ignored]
        exact .waiting es rfl rfl estado arquivo
  | receiving es isEs filling less arquivo =>
      have whole : takes taken payload = taken ++ payload := by
        refine if_neg fun both => ?_
        rw [both.1] at filling
        exact absurd filling.header (by decide)
      have noHeader : es.estado ≠ .ESTADO_ESPERA_CABECALHO := by
        rw [filling.estado]
        decide
      refine ⟨_, recv_eq isEs, ?_⟩
      dsimp only at small ⊢
      rw [recebe_dados fun both => noHeader both.1, whole]
      dsimp only
      rw [List.foldl_append]
      exact recebeDados_reached filling small arquivo
  | done es isEs estado bytes arquivo header enough length content =>
      have whole : takes taken payload = taken ++ payload := by
        refine if_neg fun both => ?_
        rw [both.1] at header
        exact absurd header (by decide)
      have ignored : es.recebeDados payload = (es, []) := by
        apply recebeDados_ignored
        rw [estado]
        decide
      have noHeader : es.estado ≠ .ESTADO_ESPERA_CABECALHO := by
        rw [estado]
        decide
      have same : decodeUint32 (taken ++ payload) = decodeUint32 taken :=
        decodeUint32_append (by omega)
      refine ⟨_, recv_eq isEs, ?_⟩
      dsimp only at small ⊢
      rw [recebe_dados fun both => noHeader both.1, whole, ignored]
      refine .done es rfl estado bytes arquivo ?_ ?_ ?_ ?_
      · rw [List.length_append]
        omega
      · rw [same, List.length_append]
        omega
      · rw [same]
        exact length
      · rw [same, blocoDe_append header enough]
        exact content

/-! ## All calls -/

def payloads (segments : List Segment) : List Byte := segments.flatMap Segment.payload

def takesAll : List Byte → List Segment → List Byte
  | taken, [] => taken
  | taken, segment :: rest => takesAll (takes taken segment.payload) rest

theorem takes_length_le (taken payload : List Byte) :
    (takes taken payload).length ≤ taken.length + payload.length := by
  unfold takes
  split
  · exact Nat.zero_le _
  · rw [List.length_append]

theorem deliver_reached : ∀ {segments : List Segment} {u : Upload} {taken : List Byte},
    Reached table u taken → taken.length + (payloads segments).length < 2 ^ 32 →
      ∃ last, u.deliver table allocated true segments = some last ∧
        Reached table last (takesAll taken segments) := by
  intro segments
  induction segments with
  | nil => exact fun reached _ => ⟨_, rfl, reached⟩
  | cons segment rest inductionHypothesis =>
      intro u taken reached small
      have total : (payloads (segment :: rest)).length =
          segment.payload.length + (payloads rest).length := List.length_append
      have taking := takes_length_le taken segment.payload
      obtain ⟨next, received, reached'⟩ := @recv_reached table allocated u taken segment reached
        (by omega)
      obtain ⟨last, delivered, reached''⟩ := inductionHypothesis reached' (by omega)
      refine ⟨last, ?_, reached''⟩
      rw [Upload.deliver, received]
      exact delivered

/-- The first buffer that is not empty has the whole header. -/
def HeaderWhole : List Segment → Prop
  | [] => True
  | segment :: rest =>
      if segment.payload = [] then HeaderWhole rest else 16 ≤ segment.payload.length

instance decidableHeaderWhole : (segments : List Segment) → Decidable (HeaderWhole segments)
  | [] => .isTrue trivial
  | segment :: rest =>
      have := decidableHeaderWhole rest
      inferInstanceAs (Decidable (if segment.payload = [] then _ else _))

/-- Nothing of the stream is lost. -/
structure Lossless (segments : List Segment) : Prop where
  single : ∀ segment ∈ segments, segment.chain.flatten = []
  header : HeaderWhole segments

theorem takesAll_of_some : ∀ {segments : List Segment} {taken : List Byte}, taken ≠ [] →
    takesAll taken segments = taken ++ payloads segments := by
  intro segments
  induction segments with
  | nil => exact fun _ => (List.append_nil _).symm
  | cons segment rest inductionHypothesis =>
      intro taken some
      have next : takes taken segment.payload = taken ++ segment.payload :=
        if_neg fun both => some both.1
      rw [takesAll, next, inductionHypothesis (List.append_ne_nil_of_left_ne_nil some _),
        List.append_assoc]
      rfl

theorem headerWhole_iff (segments : List Segment) :
    (HeaderWhole segments → takesAll [] segments = payloads segments) ∧
      (takesAll [] segments).length ≤ (payloads segments).length ∧
        ((takesAll [] segments).length = (payloads segments).length → HeaderWhole segments) := by
  induction segments with
  | nil => exact ⟨fun _ => rfl, Nat.le_refl _, fun _ => trivial⟩
  | cons segment rest inductionHypothesis =>
      obtain ⟨payload, chain⟩ := segment
      have total : payloads (⟨payload, chain⟩ :: rest) = payload ++ payloads rest := rfl
      rw [takesAll, HeaderWhole, total, List.length_append]
      dsimp only
      by_cases empty : payload = []
      · subst empty
        have skipped : takes [] [] = [] := rfl
        rw [if_pos rfl, skipped, List.length_nil, Nat.zero_add]
        exact inductionHypothesis
      · rw [if_neg empty]
        have some : 0 < payload.length := List.length_pos_iff.mpr empty
        by_cases header : 16 ≤ payload.length
        · have whole : takes [] payload = payload := if_neg fun both => absurd both.2 (by omega)
          rw [whole, takesAll_of_some empty, List.length_append]
          exact ⟨fun _ => rfl, Nat.le_refl _, fun _ => header⟩
        · have dropped : takes [] payload = [] := if_pos ⟨rfl, by omega⟩
          rw [dropped]
          exact ⟨fun whole => absurd whole header, by omega, fun same => by omega⟩

theorem bytes_length (segments : List Segment) :
    (segments.flatMap Segment.bytes).length =
      (payloads segments).length + (segments.flatMap fun s => s.chain.flatten).length := by
  induction segments with
  | nil => rfl
  | cons segment rest inductionHypothesis =>
      rw [payloads] at inductionHypothesis ⊢
      simp only [List.flatMap_cons, List.length_append, inductionHypothesis, Segment.bytes]
      omega

theorem bytes_of_single {segments : List Segment}
    (single : ∀ segment ∈ segments, segment.chain.flatten = []) :
    segments.flatMap Segment.bytes = payloads segments := by
  induction segments with
  | nil => rfl
  | cons segment rest inductionHypothesis =>
      obtain ⟨first, others⟩ := List.forall_mem_cons.mp single
      rw [List.flatMap_cons, inductionHypothesis others, Segment.bytes, first, List.append_nil]
      rfl

theorem takesAll_iff {segments : List Segment} {stream : List Byte}
    (sent : segments.flatMap Segment.bytes = stream) :
    (Lossless segments → takesAll [] segments = stream) ∧
      (stream.length ≤ (takesAll [] segments).length → Lossless segments) := by
  obtain ⟨whole, le, ofLength⟩ := headerWhole_iff segments
  constructor
  · rintro ⟨single, header⟩
    rw [whole header, ← sent, bytes_of_single single]
  · intro all
    rw [← sent, bytes_length] at all
    refine ⟨?_, ofLength (by omega)⟩
    have nothing : (segments.flatMap fun s => s.chain.flatten) = [] :=
      List.length_eq_zero_iff.mp (by omega)
    exact List.flatMap_eq_nil_iff.mp nothing

/-! ## The published file -/

theorem decode_encode (number : BitVec 32) (more : List Byte) :
    decodeUint32 (encodeTamanho number ++ more) = number := by
  unfold decodeUint32 encodeTamanho
  simp only [List.cons_append, List.getD_cons_succ, List.getD_cons_zero]
  apply BitVec.eq_of_getElem_eq
  intro index inside
  simp only [BitVec.getElem_append, BitVec.getElem_extractLsb']
  grind

section Arquivo

variable {arquivo : Arquivo}

theorem nomeEnviado_length : arquivo.nomeEnviado.length = 12 := by
  have fits := arquivo.nomeFits
  rw [Arquivo.nomeEnviado, List.length_append, List.length_replicate]
  omega

theorem decode_enviado :
    decodeUint32 arquivo.enviado = BitVec.ofNat 32 arquivo.conteudo.length := by
  rw [Arquivo.enviado, List.append_assoc]
  exact decode_encode _ _

theorem enviado_length : arquivo.enviado.length = 16 + arquivo.conteudo.length := by
  rw [Arquivo.enviado, List.length_append, List.length_append, nomeEnviado_length]
  rfl

/-- The name has no terminator, so that `strncpy` copies all of it. -/
theorem strncpy_nome : strncpy (arquivo.nomeEnviado ++ [0]) 12 = arquivo.nomeEnviado := by
  have length := @nomeEnviado_length arquivo
  have noZero : ∀ letter ∈ arquivo.nomeEnviado, decide (letter ≠ 0) = true := by
    intro letter member
    rcases List.mem_append.mp member with own | space
    · exact decide_eq_true fun zero => arquivo.noTerminator (zero ▸ own)
    · rw [List.eq_of_mem_replicate space]
      rfl
  have text : ((arquivo.nomeEnviado ++ [0]).take 12).takeWhile (· ≠ 0) = arquivo.nomeEnviado := by
    rw [List.take_left' length]
    exact List.takeWhile_eq_self_iff.mpr noZero
  unfold strncpy
  dsimp only
  rw [text, length]
  exact List.append_nil _

theorem blocoDe_enviado (table : Table) :
    arquivo.Publicado (blocoDe (crc32Init table) arquivo.enviado) := by
  have fits := arquivo.fits
  have encoded : (encodeTamanho (BitVec.ofNat 32 arquivo.conteudo.length)).length = 4 := rfl
  have nome : (arquivo.enviado.drop 4).take 12 = arquivo.nomeEnviado := by
    rw [Arquivo.enviado, List.append_assoc, List.drop_left' encoded,
      List.take_left' nomeEnviado_length]
  have dados : arquivo.enviado.drop 16 = arquivo.conteudo := by
    rw [Arquivo.enviado, List.drop_left']
    rw [List.length_append, encoded, nomeEnviado_length]
  have size : (BitVec.ofNat 32 arquivo.conteudo.length).toNat = arquivo.conteudo.length := by
    rw [BitVec.toNat_ofNat]
    omega
  refine ⟨_, (Program.pico2W.crc32Calculate_standard table _ _).mpr rfl, ?_⟩
  unfold blocoDe Arquivo.semCrc
  dsimp only
  rw [decode_enviado, nome, dados, size, List.take_length, strncpy_nome, BitVec.ofNat_add]

theorem publicado_length {bytes : List Byte} (publicado : arquivo.Publicado bytes) :
    bytes.length = sizeofFile + arquivo.conteudo.length := by
  obtain ⟨crc, -, rfl⟩ := publicado
  have encoded : ∀ number, (encodeTamanho number).length = 4 := fun _ => rfl
  rw [Arquivo.semCrc, List.length_append, List.length_append, List.length_append,
    List.length_append, encoded, encoded, nomeEnviado_length]
  unfold sizeofFile
  rw [List.length_singleton]
  omega

end Arquivo

/-! ### Every delivery -/

/-- The file is published by the end, and nothing else before. -/
def Delivers (arquivo : Arquivo) (table : Table) (allocated : Nat → Byte) (alocado : Bool)
    (segments : List Segment) : Prop :=
  (∀ received, received <+: segments → ∃ u,
    Upload.deliver table allocated alocado .start received = some u ∧
      ∀ bytes, u.arquivo = some bytes → arquivo.Publicado bytes) ∧
    ∃ last bytes, Upload.deliver table allocated alocado .start segments = some last ∧
      last.arquivo = some bytes

theorem start_reached : Reached table .start [] := .waiting .aceita rfl rfl rfl rfl

theorem headerWhole_of_append {segments more : List Segment} :
    HeaderWhole (segments ++ more) → HeaderWhole segments := by
  induction segments with
  | nil => exact fun _ => trivial
  | cons segment rest inductionHypothesis =>
      intro whole
      rw [List.cons_append, HeaderWhole] at whole
      rw [HeaderWhole]
      by_cases empty : segment.payload = []
      · rw [if_pos empty] at whole ⊢
        exact inductionHypothesis whole
      · rw [if_neg empty] at whole ⊢
        exact whole

theorem published_whole {arquivo : Arquivo} {rest bytes : List Byte}
    (isPrefix : arquivo.enviado = taken ++ rest) (header : 16 ≤ taken.length)
    (enough : (decodeUint32 taken).toNat + 16 ≤ taken.length)
    (content : sizeofFile + (decodeUint32 taken).toNat < 2 ^ 32 →
      bytes = blocoDe (crc32Init table) taken) : arquivo.Publicado bytes := by
  have fits := arquivo.fits
  have tamanho : decodeUint32 taken = BitVec.ofNat 32 arquivo.conteudo.length := by
    rw [← decode_enviado, isPrefix, decodeUint32_append (by omega)]
  have size : (decodeUint32 taken).toNat = arquivo.conteudo.length := by
    rw [tamanho, BitVec.toNat_ofNat]
    omega
  have whole := @enviado_length arquivo
  rw [isPrefix, List.length_append] at whole
  obtain rfl : rest = [] := List.length_eq_zero_iff.mp (by omega)
  rw [List.append_nil] at isPrefix
  rw [content (by unfold sizeofFile; omega), ← isPrefix]
  exact blocoDe_enviado table

theorem deliver_unpublished : ∀ {segments : List Segment} {u last : Upload},
    (∀ es, u.conexao = some es → es.estado = .ESTADO_ESPERA_CABECALHO) → u.arquivo = none →
      u.deliver table allocated false segments = some last → last.arquivo = none := by
  intro segments
  induction segments with
  | nil =>
      intro u last _ unpublished delivered
      rw [← Option.some.inj delivered]
      exact unpublished
  | cons segment rest inductionHypothesis =>
      intro u last waiting unpublished delivered
      obtain ⟨next, received, delivered⟩ := Option.bind_eq_some_iff.mp delivered
      cases isEs : u.conexao with
      | none =>
          rw [Upload.recv, isEs] at received
          cases received
      | some es =>
          have estado := waiting es isEs
          rw [recv_eq isEs] at received
          by_cases header : segment.payload.length ≥ TAMANHO_CABECALHO
          · rw [recebe_cabecalho estado header] at received
            obtain rfl := Option.some.inj received
            refine inductionHypothesis ?_ ?_ delivered
            · rintro _ ⟨⟩
            · exact unpublished
          · have ignored : es.recebeDados segment.payload = (es, []) := by
              apply recebeDados_ignored
              rw [estado]
              decide
            rw [recebe_dados fun both => header both.2, ignored] at received
            obtain rfl := Option.some.inj received
            refine inductionHypothesis ?_ ?_ delivered
            · rintro _ ⟨⟩
              exact estado
            · exact unpublished

theorem payloads_length_le (segments : List Segment) :
    (payloads segments).length ≤ (segments.flatMap Segment.bytes).length := by
  rw [bytes_length]
  exact Nat.le_add_right _ _

/-- A connection brings the file that was sent, and nothing else, exactly if there is memory for it,
no buffer behind the first of a chain holds bytes and the first one that is not empty has the whole
header. -/
theorem upload_iff (arquivo : Arquivo) (table : Table) (allocated : Nat → Byte) (alocado : Bool)
    (segments : List Segment) (sent : segments.flatMap Segment.bytes = arquivo.enviado) :
    Delivers arquivo (crc32Init table) allocated alocado segments ↔
      alocado = true ∧ Lossless segments := by
  have fits := arquivo.fits
  have length := @enviado_length arquivo
  have le := payloads_length_le segments
  rw [sent, length] at le
  have small : ([] : List Byte).length + (payloads segments).length < 2 ^ 32 := by
    rw [List.length_nil]
    omega
  obtain ⟨whole, ofWhole⟩ := takesAll_iff sent
  constructor
  · rintro ⟨only, last, bytes, delivered, published⟩
    cases alocado with
    | false =>
        have unpublished := deliver_unpublished
          (fun es isEs => congrArg Conexao.estado (Option.some.inj isEs).symm) rfl delivered
        rw [unpublished] at published
        cases published
    | true =>
        obtain ⟨_, again, correct⟩ := only segments (List.prefix_refl segments)
        obtain rfl := Option.some.inj (delivered.symm.trans again)
        obtain ⟨_, again', reached⟩ :=
          @deliver_reached (crc32Init table) allocated segments .start [] start_reached small
        obtain rfl := Option.some.inj (delivered.symm.trans again')
        refine ⟨rfl, ofWhole ?_⟩
        cases reached with
        | waiting _ _ _ _ unpublished | receiving _ _ _ _ unpublished =>
            rw [unpublished] at published
            cases published
        | done es isEs estado bytes' isBytes header enough sum content =>
            obtain rfl := Option.some.inj (published.symm.trans isBytes)
            have size := publicado_length (correct bytes published)
            have announced := (decodeUint32 (takesAll [] segments)).isLt
            rw [sum, BitVec.toNat_add, BitVec.toNat_ofNat] at size
            unfold sizeofFile at size
            omega
  · rintro ⟨rfl, lossless⟩
    have all := whole lossless
    refine ⟨fun received isPrefix => ?_, ?_⟩
    · obtain ⟨more, rfl⟩ := isPrefix
      have parts : payloads (received ++ more) = payloads received ++ payloads more :=
        List.flatMap_append
      have taken := (headerWhole_iff received).1 (headerWhole_of_append lossless.header)
      rw [parts, List.length_append] at small
      obtain ⟨u, delivered, reached⟩ :=
        @deliver_reached (crc32Init table) allocated received .start [] start_reached (by omega)
      refine ⟨u, delivered, fun bytes published => ?_⟩
      rw [taken] at reached
      have stream : arquivo.enviado = payloads received ++ payloads more := by
        rw [← sent, bytes_of_single lossless.single, parts]
      cases reached with
      | waiting _ _ _ _ unpublished | receiving _ _ _ _ unpublished =>
          rw [unpublished] at published
          cases published
      | done es isEs estado bytes' isBytes header enough sum content =>
          obtain rfl := Option.some.inj (published.symm.trans isBytes)
          exact published_whole stream header enough content
    · obtain ⟨last, delivered, reached⟩ :=
        @deliver_reached (crc32Init table) allocated segments .start [] start_reached small
      rw [all] at reached
      cases reached with
      | waiting es isEs nothing _ _ =>
          rw [nothing, List.length_nil] at length
          omega
      | receiving es isEs filling less _ =>
          have received := filling.recebidos
          have announced : es.bytesRecebidos.toNat < es.tamanhoTotal.toNat := less
          rw [length] at received
          rw [filling.tamanho, decode_enviado, BitVec.toNat_ofNat] at announced
          omega
      | done es isEs estado bytes isBytes _ _ _ _ => exact ⟨last, bytes, delivered, isBytes⟩

/-- A file of one byte. -/
def pequeno : Arquivo where
  nome := [0x41]
  noTerminator := by decide
  nomeFits := by decide
  conteudo := [0x07]
  fits := by decide

/-- With the byte in a packet of its own, behind one without bytes. -/
theorem upload_iff_pequeno :
    Delivers pequeno (crc32Init fun _ => 0) (fun _ => 0xFF) true
      [⟨pequeno.enviado.take 16, []⟩, ⟨[], []⟩, ⟨[0x07], [[]]⟩] :=
  (upload_iff pequeno (fun _ => 0) (fun _ => 0xFF) true
    [⟨pequeno.enviado.take 16, []⟩, ⟨[], []⟩, ⟨[0x07], [[]]⟩] (by decide)).mpr
      ⟨rfl, by decide, by decide⟩

/-- A header that is cut is dropped. -/
theorem header_lost : ¬∀ (arquivo : Arquivo) (table : Table) (allocated : Nat → Byte)
    (segments : List Segment), segments.flatMap Segment.bytes = arquivo.enviado →
      Delivers arquivo (crc32Init table) allocated true segments := by
  intro all
  obtain ⟨-, last, bytes, delivered, published⟩ := all pequeno (fun _ => 0) (fun _ => 0)
    [⟨pequeno.enviado.take 8, []⟩, ⟨pequeno.enviado.drop 8, []⟩] (by decide)
  obtain rfl := Option.some.inj delivered
  cases published

end OrionBios.FileServer
