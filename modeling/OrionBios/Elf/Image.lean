import OrionBios.Elf.Model

/-!
# What a file says about its image

The program headers of a file, the memory each of them asks for, and what remains of it when the
segments are loaded one after the other.
-/

namespace OrionBios.Elf

open Loader (Byte Half halfAt wordAt ProgramHeader)
open Machine

/-! ## The headers of a file -/

def headerOf (data : List Byte) : Header := Header.ofBytes (data.take headerSize.toNat)

/-- `size` bytes of the file from a place on. -/
def slice (data : List Byte) (place size : Word) : List Byte :=
  (data.drop place.toNat).take size.toNat

def Inside (data : List Byte) (place size : Word) : Prop := size.toNat ≤ data.length - place.toNat

theorem slice_length {data : List Byte} {place size : Word} :
    (slice data place size).length = size.toNat ↔ Inside data place size := by
  rw [slice, List.length_take, List.length_drop, Inside]
  omega

def progHeaderOf (data : List Byte) (index : Nat) : ProgramHeader :=
  ProgramHeader.ofBytes (slice data ((headerOf data).place index) progHeaderSize)

def progHeaders (data : List Byte) (index count : Nat) : List ProgramHeader :=
  (List.range' index count).map (progHeaderOf data)

/-! ## Segments -/

def Loads (progHeader : ProgramHeader) : Prop := treatment progHeader.type = .load

instance (progHeader : ProgramHeader) : Decidable (Loads progHeader) :=
  inferInstanceAs (Decidable (treatment progHeader.type = .load))

/-- The bytes a segment is loaded to or cleared. -/
def Covers (progHeader : ProgramHeader) (address : Address) : Prop :=
  Within progHeader.paddr (max progHeader.filesz.toNat progHeader.memsz.toNat) address

def place (data : List Byte) (memory : Memory) (progHeader : ProgramHeader) : Memory :=
  fun address =>
    if Within progHeader.paddr progHeader.filesz.toNat address then
      data.getD (progHeader.offset.toNat + (address - progHeader.paddr).toNat) 0
    else if Within progHeader.paddr progHeader.memsz.toNat address then 0
    else memory address

def placeLoaded (data : List Byte) (memory : Memory) (progHeader : ProgramHeader) : Memory :=
  if Loads progHeader then place data memory progHeader else memory

variable {data : List Byte} {memory : Memory} {progHeader : ProgramHeader} {address : Address}

theorem place_of_not_covers (apart : ¬Covers progHeader address) :
    place data memory progHeader address = memory address := by
  unfold Covers Within at apart
  rw [place, if_neg (by unfold Within; omega), if_neg (by unfold Within; omega)]

theorem placeLoaded_of_not_covers (apart : Loads progHeader → ¬Covers progHeader address) :
    placeLoaded data memory progHeader address = memory address := by
  unfold placeLoaded
  split
  next loads => exact place_of_not_covers (apart loads)
  · rfl

theorem storeBytes_place (inside : Inside data progHeader.offset progHeader.filesz) :
    (if progHeader.filesz < progHeader.memsz then
        clearBytes (storeBytes memory progHeader.paddr
            (slice data progHeader.offset progHeader.filesz))
          (progHeader.paddr + progHeader.filesz) (progHeader.memsz - progHeader.filesz).toNat
      else storeBytes memory progHeader.paddr (slice data progHeader.offset progHeader.filesz)) =
      place data memory progHeader := by
  have length := slice_length.mpr inside
  have stored : ∀ address, storeBytes memory progHeader.paddr
      (slice data progHeader.offset progHeader.filesz) address =
      if Within progHeader.paddr progHeader.filesz.toNat address then
        data.getD (progHeader.offset.toNat + (address - progHeader.paddr).toNat) 0
      else memory address := by
    intro address
    rw [storeBytes, length]
    by_cases within : Within progHeader.paddr progHeader.filesz.toNat address
    · rw [if_pos within, if_pos within, slice, List.getD_eq_getElem?_getD,
        List.getElem?_take_of_lt within, List.getElem?_drop, List.getD_eq_getElem?_getD]
    · rw [if_neg within, if_neg within]
  funext address
  by_cases longer : progHeader.filesz < progHeader.memsz
  · rw [if_pos longer, clearBytes, stored, place]
    have behind : Within (progHeader.paddr + progHeader.filesz)
        (progHeader.memsz - progHeader.filesz).toNat address ↔
        ¬Within progHeader.paddr progHeader.filesz.toNat address ∧
          Within progHeader.paddr progHeader.memsz.toNat address := by
      unfold Within
      bv_omega
    by_cases within : Within progHeader.paddr progHeader.filesz.toNat address
    · rw [if_neg (fun cleared => (behind.mp cleared).1 within), if_pos within, if_pos within]
    · by_cases cleared : Within progHeader.paddr progHeader.memsz.toNat address
      · rw [if_pos (behind.mpr ⟨within, cleared⟩), if_neg within, if_pos cleared]
      · rw [if_neg (fun both => cleared (behind.mp both).2), if_neg within, if_neg within,
          if_neg cleared]
  · rw [if_neg longer, stored, place]
    split
    · rfl
    next outside =>
      rw [if_neg]
      unfold Within at *
      bv_omega

/-! ## All segments -/

theorem foldl_frame (headers : List ProgramHeader) (memory : Memory)
    (apart : ∀ progHeader ∈ headers, Loads progHeader → ¬Covers progHeader address) :
    headers.foldl (placeLoaded data) memory address = memory address := by
  induction headers generalizing memory with
  | nil => rfl
  | cons first rest inductionHypothesis =>
      rw [List.foldl_cons, inductionHypothesis _
        fun progHeader among => apart progHeader (List.mem_cons_of_mem _ among)]
      exact placeLoaded_of_not_covers (apart first List.mem_cons_self)

theorem foldl_covered {before behind : List ProgramHeader} (loads : Loads progHeader)
    (apart : ∀ other ∈ behind, Loads other → ¬Covers other address) (memory : Memory) :
    ∃ memory', (before ++ progHeader :: behind).foldl (placeLoaded data) memory address =
      place data memory' progHeader address := by
  rw [List.foldl_append, List.foldl_cons]
  refine ⟨before.foldl (placeLoaded data) memory, ?_⟩
  rw [foldl_frame behind _ apart, placeLoaded, if_pos loads]

end OrionBios.Elf
