import OrionBios.Loader.Model

/-!
# The image that a load leaves

What the loader reads does not depend on where it writes, so a file that is read without errors,
with every seek at its place, gives the same effects in every slot. Seen from the base of the slot,
the segments give the same bytes, and each patch adds the base to a word.
-/

namespace OrionBios.Loader

open Machine

/-! ## A load without read errors -/

/-- The loader from a point on, up to the call, with what is in D2 at each step: its variables at
the call, and all it wrote. -/
def arrive : File → List Word → Next → Option (Locals × List Effect)
  | _, _, .goes (.call l) => some (l, [])
  | file, d2 :: rest, .goes phase =>
    let read := phase.read file d2 .ok
    (arrive read.2 rest (advance read.1 phase).1).map fun result =>
      (result.1, (advance read.1 phase).2 ++ result.2)
  | _, _, _ => none

/-- The file is accepted: the loader comes to the call. -/
def Accepted (file : File) (d2s : List Word) (l : Locals) (effects : List Effect) : Prop :=
  arrive file d2s (.goes .header) = some (l, effects)

/-- The seek of a phase goes to its offset, or to the end of the file in front of it. -/
def Phase.reaches (phase : Phase) (file : File) (d2 : Word) : Bool :=
  match phase.request with
  | none => true
  | some (offset, _) => (flseek file d2 offset).fptr == min offset.toNat file.data.length

/-- Every seek of the load goes where it should. -/
def straight : File → List Word → Next → Bool
  | file, d2 :: rest, .goes phase =>
    phase.reaches file d2 &&
      straight (phase.read file d2 .ok).2 rest (advance (phase.read file d2 .ok).1 phase).1
  | _, _, _ => true

/-! ## Reading at an offset -/

def readAt (file : List Byte) (offset : Word) (size : Nat) : Read :=
  ⟨true, (file.drop offset.toNat).take size⟩

/-- What a phase reads where the seek goes to its offset. -/
def Phase.plainRead (phase : Phase) (file : List Byte) : Read :=
  match phase.request with
  | none => ⟨true, []⟩
  | some (offset, size) => readAt file offset size

def plainly (file : List Byte) (phase : Phase) : Next × List Effect :=
  advance (phase.plainRead file) phase

def finish (file : List Byte) : Nat → Next → Option (Locals × List Effect)
  | 0, _ => none
  | _ + 1, .fail => none
  | _ + 1, .addressError => none
  | _ + 1, .goes (.call l) => some (l, [])
  | steps + 1, .goes phase =>
    (finish file steps (plainly file phase).1).map fun result =>
      (result.1, (plainly file phase).2 ++ result.2)

theorem Phase.read_plain {phase : Phase} {file : File} {d2 : Word}
    (reaches : phase.reaches file d2 = true) :
    (phase.read file d2 .ok).1 = phase.plainRead file.data := by
  unfold Phase.reaches at reaches
  unfold Phase.read Phase.plainRead
  cases wanted : phase.request with
  | none => rfl
  | some request =>
      rw [wanted] at reaches
      have place : (flseek file d2 request.1).fptr = min request.1.toNat file.data.length :=
        beq_iff_eq.mp reaches
      have same : file.data.drop (min request.1.toNat file.data.length) =
          file.data.drop request.1.toNat := by
        obtain within | beyond := Nat.le_total request.1.toNat file.data.length
        · rw [Nat.min_eq_left within]
        · rw [Nat.min_eq_right beyond, List.drop_length, List.drop_eq_nil_of_le beyond]
      show (fread (flseek file d2 request.1) .ok request.2).1 = readAt file.data request.1 request.2
      unfold fread readAt
      dsimp only
      rw [flseek_data, place, same]

theorem Phase.read_data (phase : Phase) (file : File) (d2 : Word) (outcome : Outcome) :
    (phase.read file d2 outcome).2.data = file.data := by
  unfold Phase.read
  cases phase.request with
  | none => rfl
  | some request =>
      show (fread (flseek file d2 request.1) outcome request.2).2.data = file.data
      rw [← flseek_data file d2 request.1]
      cases outcome <;> rfl

theorem arrive_call {file : File} {d2s : List Word} {l : Locals} :
    arrive file d2s (.goes (.call l)) = some (l, []) := by
  cases d2s <;> rfl

theorem arrive_goes {file : File} {d2 : Word} {rest : List Word} {phase : Phase}
    (before : ∀ l, phase ≠ .call l) :
    arrive file (d2 :: rest) (.goes phase) =
      (arrive (phase.read file d2 .ok).2 rest (advance (phase.read file d2 .ok).1 phase).1).map
        fun result => (result.1, (advance (phase.read file d2 .ok).1 phase).2 ++ result.2) := by
  cases phase with
  | call l => exact absurd rfl (before l)
  | _ => rfl

theorem finish_goes {file : List Byte} {phase : Phase} (before : ∀ l, phase ≠ .call l)
    (steps : Nat) :
    finish file (steps + 1) (.goes phase) =
      (finish file steps (plainly file phase).1).map fun result =>
        (result.1, (plainly file phase).2 ++ result.2) := by
  cases phase with
  | call l => exact absurd rfl (before l)
  | _ => rfl

theorem finish_of_arrive {file : File} {d2s : List Word} {next : Next}
    {result : Locals × List Effect} (direct : straight file d2s next = true)
    (done : arrive file d2s next = some result) :
    ∃ steps, finish file.data steps next = some result := by
  induction d2s generalizing file next result with
  | nil =>
      cases next with
      | fail | addressError => cases done
      | goes phase =>
          cases phase with
          | call l => exact ⟨1, done⟩
          | _ => cases done
  | cons d2 rest inductionHypothesis =>
      cases next with
      | fail | addressError => cases done
      | goes phase =>
          by_cases calls : ∃ l, phase = .call l
          · obtain ⟨l, rfl⟩ := calls
            exact ⟨1, done⟩
          · have reaches := Bool.and_eq_true_iff.mp direct
            rw [arrive_goes fun l same => calls ⟨l, same⟩, Option.map_eq_some_iff] at done
            obtain ⟨last, remaining, rfl⟩ := done
            obtain ⟨steps, finished⟩ := inductionHypothesis reaches.2 remaining
            rw [Phase.read_data, Phase.read_plain reaches.1] at finished
            refine ⟨steps + 1, ?_⟩
            rw [finish_goes fun l same => calls ⟨l, same⟩, Phase.read_plain reaches.1]
            exact congrArg (Option.map _) finished

/-! ## At the call -/

def entryAddress (base : Address) (l : Locals) : Address := base + l.header.entry

def a5Value (base : Address) (l : Locals) : Address := base + (l.got.map Prod.fst).getD 0

/-! ## What is in the file -/

def headerOf (file : List Byte) : ElfHeader := .ofBytes (readAt file 0 52).bytes

section

variable (file : List Byte) (header : ElfHeader)

def sectionHeader (index : Word) : Option SectionHeader :=
  let read := readAt file (header.sectionAt index) SHDR_SIZE
  if read.whole SHDR_SIZE then some (.ofBytes read.bytes) else none

def stringTable : Option Word :=
  (sectionHeader file header (header.shstrndx.setWidth 32)).map SectionHeader.offset

/-- The first bytes of a section's name. -/
def nameOf (strtab : Word) (sect : SectionHeader) (size : Nat) : List Byte :=
  (readAt file (strtab + sect.nameIdx) size).bytes

/-- The readable sections with a name of a kind. -/
def sectionsNamed (strtab : Word) (size : Nat) (kind : List Byte → Bool) : List SectionHeader :=
  (List.range header.shnum.toNat).filterMap fun i =>
    (sectionHeader file header (BitVec.ofNat 32 i)).filter fun sect =>
      kind (nameOf file strtab sect size)

/-- The loop of `find_got_section` over the sections that are left, none at an unreadable one. -/
def scanSections (strtab : Word) : List Nat → Scan → Option Scan
  | [], scan => some scan
  | i :: rest, scan =>
    match sectionHeader file header (BitVec.ofNat 32 i) with
    | none => none
    | some sect =>
      scanSections strtab rest
        (if isGot (nameOf file strtab sect 9) then scan.add sect.addr sect.size else scan)

/-- `find_got_section` as a function of the file. -/
def findGotSection : Option (Word × Word) :=
  (stringTable file header).bind fun strtab =>
    (scanSections file header strtab (List.range header.shnum.toNat) ⟨0xFFFFFFFF, 0, false⟩).bind
      fun scan => if scan.found then some (scan.minAddr, scan.maxEnd - scan.minAddr) else none

/-- The target of an entry that is R_68K_32. -/
def relocationAt (relaOffset : Word) (r : Nat) : Option Word :=
  let read := readAt file (relaOffset + BitVec.ofNat 32 (r * 12)) 12
  if read.whole 12 && wordAt read.bytes 4 &&& 0xFF == 1 then some (wordAt read.bytes 0) else none

/-- The targets of the R_68K_32 entries of a section. -/
def relocationsIn (sect : SectionHeader) : List Word :=
  (List.range (sect.size.toNat / 12)).filterMap (relocationAt file sect.offset)

/-- The words that `apply_data_relocations` patches: those of the first `.rela.data`. -/
def dataRelocations : List Word :=
  ((stringTable file header).bind fun strtab =>
    (sectionsNamed file header strtab 15 isRelaData).head?).elim [] (relocationsIn file)

def patches : List Word :=
  ((findGotSection file header).elim [] fun got => gotWords got.1 got.2) ++
    dataRelocations file header

def loadHeader (index : Nat) : Option ProgramHeader :=
  let read := readAt file (header.programAt (BitVec.ofNat 32 index)) 32
  let progHeader := ProgramHeader.ofBytes read.bytes
  if read.whole 32 && progHeader.type == PT_LOAD then some progHeader else none

def segmentsFrom (index : Nat) : List ProgramHeader :=
  (List.range' index (header.phnum.toNat - index)).filterMap (loadHeader file header)

def Complete (progHeader : ProgramHeader) : Prop :=
  (readAt file progHeader.offset progHeader.filesz.toNat).bytes.length = progHeader.filesz.toNat

def placement (progHeader : ProgramHeader) : List Effect :=
  .write progHeader.paddr (readAt file progHeader.offset progHeader.filesz.toNat).bytes ::
    if progHeader.memsz > progHeader.filesz then
      [.clear (progHeader.paddr + progHeader.filesz) (progHeader.memsz - progHeader.filesz).toNat]
    else []

def segmentImage : Memory :=
  runAll 0 ((segmentsFrom file header 0).flatMap (placement file)) fun _ => 0

/-- The words in the sections whose names start with `.got`. -/
def gotSectionWords : List Word :=
  (stringTable file header).elim [] fun strtab =>
    (sectionsNamed file header strtab 9 isGot).flatMap fun sect => gotWords sect.addr sect.size

/-- The targets of the R_68K_32 entries of the sections `.rela.data`. -/
def relocationTargets : List Word :=
  (stringTable file header).elim [] fun strtab =>
    (sectionsNamed file header strtab 15 isRelaData).flatMap (relocationsIn file)

/-- The words that should follow the base. -/
def addressWords : List Word := gotSectionWords file header ++ relocationTargets file header

end

end OrionBios.Loader
