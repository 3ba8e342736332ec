import OrionBios.Receiver.W5100

/-!
# The sending tool

`main` of the tool fills one block: 21 bytes of header in front of the file. What
`malloc` left in the block, and what lies in memory behind it, are parameters.
-/

namespace OrionBios.Receiver

/-- `memcpy(data + offset, bytes, sizeof bytes)`. -/
def overwrite (data : List Byte) (offset : Nat) (bytes : List Byte) : List Byte :=
  data.take offset ++ bytes ++ data.drop (offset + bytes.length)

/-- The bytes of a `uint32_t` on the little-endian host. -/
def encodeTamanho (tamanho : BitVec 32) : List Byte :=
  [tamanho.extractLsb' 0 8, tamanho.extractLsb' 8 8, tamanho.extractLsb' 16 8,
    tamanho.extractLsb' 24 8]

/-- `int tam`, where `carregar_arquivo_completo` stores the length of the file. -/
def tam (arquivo : List Byte) : BitVec 32 := BitVec.ofNat 32 arquivo.length

/-- The field `nome_arquivo[13]`, cleared before the name was copied. -/
def nomeArquivo (name : List Byte) : List Byte :=
  name ++ List.replicate (13 - name.length) 0

/-- `file_data.dados` as it is sent; `allocated` is what `malloc` left in the header. -/
def dados (allocated arquivo name : List Byte) : List Byte :=
  overwrite (overwrite (allocated ++ arquivo) 0 (encodeTamanho (tam arquivo))) 8
    (nomeArquivo name)

/-- The bytes `escrever_dados` sends: `tam` widened to `size_t`, counted from `dados`. -/
def enviados (allocated arquivo name behind : List Byte) : List Byte :=
  (dados allocated arquivo name ++ behind).take ((tam arquivo).signExtend 64).toNat

end OrionBios.Receiver
