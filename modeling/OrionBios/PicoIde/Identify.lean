import Mathlib.Data.BitVec
import Mathlib.Logic.Function.Basic

/-!
# Sectors in a staging buffer, and the IDENTIFY block

A staging buffer holds one sector as its 256 halfwords, each as the little-endian
firmware sees it: the byte at the even address is the low one. Both DMA channels swap
the two bytes, so the 68k sees the byte at the even address on top.
-/

namespace OrionBios.PicoIde

abbrev Byte := BitVec 8
abbrev Word := BitVec 16
abbrev Sector := Fin 256 → Word

scoped instance wordsNonzero : NeZero 256 := ⟨by decide⟩

scoped instance buffersNonzero : NeZero 2 := ⟨by decide⟩

def lowByte (word : Word) : Byte := word.extractLsb' 0 8

def highByte (word : Word) : Byte := word.extractLsb' 8 8

/-- `channel_config_set_bswap` on a 16-bit transfer. -/
def bswap (word : Word) : Word := lowByte word ++ highByte word

/-- The words of a sector in the order and byte order in which the 68k moves them. -/
def sectorWords (sector : Sector) : List Word := (List.finRange 256).map fun i => bswap (sector i)

def IDE_ID_MODEL : List Char := "picoIDE RP2350B SD".toList
def IDE_ID_SERIAL : List Char := "ORION68-0001".toList
def IDE_ID_FW : List Char := "2.3.0".toList

def charByte (char : Char) : Byte := BitVec.ofNat 8 char.toNat

/-- The word `first_word + i` that `id_put_string` writes: two characters, the first on
top, with blanks behind the end. -/
def idStringWord (text : List Char) (i : Nat) : Word :=
  charByte (text.getD (2 * i) ' ') ++ charByte (text.getD (2 * i + 1) ' ')

/-- `id_put_string`. -/
def idPutString (firstWord nWords : Nat) (text : List Char) (w : Sector) : Sector :=
  fun i =>
    if firstWord ≤ i.val ∧ i.val < firstWord + nWords then idStringWord text (i.val - firstWord)
    else w i

def put (i : Fin 256) (value : Word) (w : Sector) : Sector := Function.update w i value

/-- The loop `sum += b[i]` over the 512 bytes. -/
def byteSum (w : Sector) : Byte :=
  (List.finRange 256).foldl (fun sum i => sum + lowByte (w i) + highByte (w i)) 0

def buildIdentify (sdSectors : BitVec 32) : Sector :=
  let total := if 0x0FFFFFFF < sdSectors then 0x0FFFFFFF else sdSectors
  let cyl : Word := 16383
  let hd : Word := 16
  let spt : Word := 63
  let chs : BitVec 32 := 16383 * 16 * 63
  let chs := if total < chs then total else chs
  let w : Sector := fun _ => 0
  let w := put 6 spt (put 3 hd (put 1 cyl (put 0 0x0040 w)))
  let w := idPutString 10 10 IDE_ID_SERIAL w
  let w := idPutString 23 4 IDE_ID_FW w
  let w := idPutString 27 20 IDE_ID_MODEL w
  let w := put 53 0x0001 (put 49 0x0200 (put 47 0 w))
  let w := put 56 spt (put 55 hd (put 54 cyl w))
  let w := put 58 ((chs >>> 16).truncate 16) (put 57 ((chs &&& 0xFFFF).truncate 16) w)
  let w := put 61 ((total >>> 16).truncate 16) (put 60 ((total &&& 0xFFFF).truncate 16) w)
  let w := put 87 0x4000 (put 84 0x4000 (put 83 0x4000 (put 80 0x007E w)))
  let w := put 255 0x00A5 w
  put 255 (w 255 ||| ((0 - byteSum w).zeroExtend 16 <<< 8)) w

end OrionBios.PicoIde
