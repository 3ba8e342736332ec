import OrionBios.Loader.Slots

/-!
# When a load stays in its slot

The sizes and addresses of the file go into the writes unchecked, and a program without a GOT is
called all the same. Where each of them fits into the slot, and there is a loaded GOT at the call,
no run of loads writes elsewhere.
-/

namespace OrionBios.Loader

open Machine Transition

/-! ## What fits -/

/-- The bytes from an offset on lie in the slot, if there are any. -/
def Inside (offset : Word) (length : Nat) : Prop := length = 0 ∨ offset.toNat + length ≤ SLOT_SIZE

instance (offset : Word) (length : Nat) : Decidable (Inside offset length) :=
  inferInstanceAs (Decidable (_ ∨ _))

/-- The bytes of a segment in memory. -/
def ProgramHeader.extent (progHeader : ProgramHeader) : Nat :=
  max progHeader.filesz.toNat progHeader.memsz.toNat

/-- The byte at an offset belongs to a segment. -/
def ProgramHeader.Holds (progHeader : ProgramHeader) (offset : Word) : Prop :=
  Within progHeader.paddr progHeader.extent offset

instance (progHeader : ProgramHeader) (offset : Word) : Decidable (progHeader.Holds offset) :=
  inferInstanceAs (Decidable (Within _ _ _))

/-- A GOT was found, and its words were loaded with the segments. -/
def Locals.GotLoaded (l : Locals) : Prop :=
  ∃ got ∈ l.got, ∀ word ∈ gotWords got.1 got.2, ∀ byte : Fin 4, ∃ progHeader ∈ l.segments,
    progHeader.Holds (word + BitVec.ofNat 32 byte)

instance (l : Locals) : Decidable l.GotLoaded :=
  match known : l.got with
  | none => isFalse fun ⟨_, there, _⟩ => by
    rw [known] at there
    cases there
  | some got =>
    -- one after the other, not over all words
    have words := List.decidableBAll (fun word => ∀ byte : Fin 4, ∃ progHeader ∈ l.segments,
      progHeader.Holds (word + BitVec.ofNat 32 byte)) (gotWords got.1 got.2)
    @decidable_of_iff _ _
      ⟨fun all => ⟨got, known, all⟩, fun ⟨_, there, all⟩ => by
        rw [known] at there
        cases there
        exact all⟩ words

/-- What a phase asks of the bytes that are read for its next step to be safe. -/
def Fits (read : Read) : Phase → Prop
  | .segment _ progHeader =>
    Inside progHeader.paddr read.bytes.length ∧
      (read.whole progHeader.filesz.toNat = true → progHeader.filesz < progHeader.memsz →
        Inside progHeader.paddr progHeader.memsz.toNat)
  | .patchGot _ gotAddr gotSize => Inside gotAddr (4 * (gotSize.toNat / 4))
  | .relaEntry .. =>
    read.whole 12 = true → wordAt read.bytes 4 &&& 0xFF = 1 → Inside (wordAt read.bytes 0) 4
  | .call l => l.GotLoaded
  | _ => True

/-- The condition under which the loads stay in their slots, step by step. -/
def Guard (s : System) : Label → Prop
  | .go d2 outcome => ∀ task ∈ s.loads.head?,
    Fits (task.phase.read task.file d2 outcome).1 task.phase
  | _ => True

instance (read : Read) (phase : Phase) : Decidable (Fits read phase) := by
  cases phase <;> dsimp only [Fits] <;> infer_instance

instance (s : System) (label : Label) : Decidable (Guard s label) := by
  cases label <;> dsimp only [Guard] <;> infer_instance

/-! ## What is safe -/

/-- A program may be called: both segments and the GOT are in the slot. -/
structure Ready (l : Locals) : Prop where
  two : l.segments.length = 2
  inside : ∀ progHeader ∈ l.segments, Inside progHeader.paddr progHeader.extent
  got : l.GotLoaded

/-- A step writes only into the slot of the load that takes it, and a load that ends gives
this slot back and no other. -/
structure Confined (s : System) (label : Label) (t : System) : Prop where
  writes : ∀ effect ∈ effects s label, ∀ task ∈ s.loads.head?, ∀ address,
    effect.Touches (slotsBaseAddr task.slot) address → InSlot task.slot address
  exits : ∀ task rest, s.loads = task :: rest → t.loads = rest →
    s.slotInUse task.slot = true ∧ t.slotInUse task.slot = false ∧
      ∀ other, other ≠ task.slot → t.slotInUse other = s.slotInUse other

/-! ## Writes -/

/-- The bytes of the effect lie in the slot. -/
def Effect.Stays : Effect → Prop
  | .write offset bytes => Inside offset bytes.length
  | .clear offset count => Inside offset count
  | .add offset => Inside offset 4

variable {s t : System} {label : Label} {read : Read} {phase : Phase}

theorem Inside.within {offset : Word} {length : Nat} (inside : Inside offset length)
    {base address : Address} (touched : Within (base + offset) length address) :
    Within base SLOT_SIZE address := by
  unfold Within at touched ⊢
  obtain none | fits := inside
  · rw [none] at touched
    exact absurd touched (Nat.not_lt_zero _)
  · unfold SLOT_SIZE at fits ⊢
    bv_omega

theorem Effect.Stays.inSlot {effect : Effect} (stays : effect.Stays) {slot : Nat}
    {address : Address} (touched : effect.Touches (slotsBaseAddr slot) address) :
    InSlot slot address := by
  cases effect with
  | write offset bytes => exact Inside.within stays touched
  | clear offset count => exact Inside.within stays touched
  | add offset => exact Inside.within stays touched

theorem gotWords_inside {gotAddr gotSize : Word}
    (inside : Inside gotAddr (4 * (gotSize.toNat / 4))) {word : Word}
    (there : word ∈ gotWords gotAddr gotSize) : Inside word 4 := by
  obtain ⟨w, less, rfl⟩ := List.mem_map.mp there
  rw [List.mem_range] at less
  obtain none | fits := inside
  · omega
  · refine .inr ?_
    unfold SLOT_SIZE at fits ⊢
    rw [BitVec.toNat_add, BitVec.toNat_ofNat]
    omega

theorem clear_inside {progHeader : ProgramHeader} (more : progHeader.filesz < progHeader.memsz)
    (inside : Inside progHeader.paddr progHeader.memsz.toNat) :
    Inside (progHeader.paddr + progHeader.filesz) (progHeader.memsz - progHeader.filesz).toNat := by
  obtain none | fits := inside
  · bv_omega
  · refine .inr ?_
    unfold SLOT_SIZE at fits ⊢
    bv_omega

theorem advance_stays (fits : Fits read phase) :
    ∀ effect ∈ (advance read phase).2, effect.Stays := by
  have nothing {effect : Effect} {property : Prop} (there : effect ∈ ([] : List Effect)) :
      property := absurd there List.not_mem_nil
  intro effect there
  cases phase with
  | segment l progHeader =>
    obtain ⟨placed, cleared⟩ := fits
    dsimp only [advance] at there
    by_cases whole : read.whole progHeader.filesz.toNat = true
    · rw [if_pos whole] at there
      have effects : effect ∈ if progHeader.memsz > progHeader.filesz then
          [Effect.write progHeader.paddr read.bytes,
            .clear (progHeader.paddr + progHeader.filesz)
              (progHeader.memsz - progHeader.filesz).toNat]
          else [Effect.write progHeader.paddr read.bytes] := by
        by_cases second : l.ptLoadSeen = 1
        · rw [if_pos second] at there
          exact there
        · rw [if_neg second] at there
          exact there
      by_cases more : progHeader.memsz > progHeader.filesz
      · rw [if_pos more] at effects
        obtain rfl | last := List.mem_cons.mp effects
        · exact placed
        · rw [List.mem_singleton.mp last]
          exact clear_inside more (cleared whole more)
      · rw [if_neg more] at effects
        rw [List.mem_singleton.mp effects]
        exact placed
    · rw [if_neg whole] at there
      rw [List.mem_singleton.mp there]
      exact placed
  | patchGot l gotAddr gotSize =>
    dsimp only [advance] at there
    split at there
    · exact nothing there
    · obtain ⟨word, inGot, rfl⟩ := List.mem_map.mp there
      exact gotWords_inside fits inGot
  | relaEntry l relaOffset r numRelas =>
    dsimp only [advance] at there
    split at there
    · next patched =>
      rw [Bool.and_eq_true, beq_iff_eq] at patched
      split at there
      · exact nothing there
      · rw [List.mem_singleton.mp there]
        exact fits patched.1 patched.2
    · exact nothing there
  | header | programHeader | gotStrings | gotSection | relaStrings | relaSection | relaName =>
    dsimp only [advance] at there
    repeat' split at there
    all_goals exact nothing there
  | gotName | call | running => exact nothing there

/-! ## The way to the call -/

/-- The loaded segments lie in the slot, and the loader counts them, but for the one in hand. -/
structure Placed (l : Locals) (inHand : Nat) : Prop where
  inside : ∀ progHeader ∈ l.segments, Inside progHeader.paddr progHeader.extent
  counted : l.segments.length = l.ptLoadSeen + inHand

/-- What holds of a load in a phase. -/
def Sound : Phase → Prop
  | .header => True
  | .programHeader l | .segment l _ => Placed l 0
  | .gotStrings l | .gotSection l _ _ _ | .gotName l _ _ _ _ | .patchGot l _ _
  | .relaStrings l | .relaSection l _ _ | .relaName l _ _ _ | .relaEntry l _ _ _ => Placed l 1
  | .call l => Placed l 0 ∧ l.ptLoadSeen = 2
  | .running l => Ready l

/-- The next phase is sound, if there is one. -/
def Next.Sound : Next → Prop
  | .goes phase => Loader.Sound phase
  | .fail | .addressError => True

variable {l : Locals}

theorem enter_sound (placed : Placed l 0) : (enter l).Sound := by
  unfold enter
  by_cases more : l.progIndex < l.header.phnum.toNat
  · rw [if_pos more]
    exact placed
  · rw [if_neg more]
    by_cases two : l.ptLoadSeen = 2
    · rw [if_pos two]
      exact ⟨placed, two⟩
    · rw [if_neg two]
      trivial

theorem continueWith_sound (placed : Placed l 0) : (continueWith l).Sound :=
  enter_sound ⟨placed.inside, placed.counted⟩

theorem loaded_sound (placed : Placed l 1) : (loaded l).Sound :=
  continueWith_sound ⟨placed.inside, placed.counted⟩

theorem scanGot_sound {strtab : Word} {i : Nat} {scan : Scan} (placed : Placed l 1) :
    (scanGot l strtab i scan).Sound := by
  unfold scanGot
  repeat' split
  all_goals exact placed

theorem scanRela_sound {strtab : Word} {i : Nat} (placed : Placed l 1) :
    (scanRela l strtab i).Sound := by
  unfold scanRela
  split
  · exact placed
  · exact loaded_sound placed

theorem relaEntries_sound {relaOffset : Word} {r numRelas : Nat} (placed : Placed l 1) :
    (relaEntries l relaOffset r numRelas).Sound := by
  unfold relaEntries
  split
  · exact placed
  · exact loaded_sound placed

theorem segment_inside {progHeader : ProgramHeader}
    (fits : Fits read (.segment l progHeader))
    (whole : read.whole progHeader.filesz.toNat = true) : Inside progHeader.paddr progHeader.extent := by
  obtain ⟨placed, cleared⟩ := fits
  have complete := whole
  unfold Read.whole at complete
  rw [Bool.and_eq_true, beq_iff_eq] at complete
  rw [complete.2] at placed
  unfold ProgramHeader.extent
  by_cases more : progHeader.filesz < progHeader.memsz
  · rw [Nat.max_eq_right (Nat.le_of_lt more)]
    exact cleared whole more
  · rw [Nat.max_eq_left (Nat.le_of_not_lt more)]
    exact placed

theorem Placed.segment {progHeader : ProgramHeader} (placed : Placed l 0)
    (inside : Inside progHeader.paddr progHeader.extent) :
    Placed { l with segments := l.segments ++ [progHeader] } 1 where
  inside := fun other there => by
    obtain earlier | last := List.mem_append.mp there
    · exact placed.inside other earlier
    · rw [List.mem_singleton.mp last]
      exact inside
  counted := by
    show (l.segments ++ [progHeader]).length = l.ptLoadSeen + 1
    rw [List.length_append, placed.counted]
    rfl

theorem advance_sound (fits : Fits read phase) (sound : Sound phase) :
    (advance read phase).1.Sound := by
  cases phase with
  | header =>
    dsimp only [advance]
    split
    · exact enter_sound ⟨fun _ there => absurd there List.not_mem_nil, rfl⟩
    · trivial
  | programHeader l =>
    dsimp only [advance]
    repeat' split
    · exact sound
    · trivial
    · trivial
    · exact continueWith_sound sound
    · trivial
  | segment l progHeader =>
    dsimp only [advance]
    by_cases whole : read.whole progHeader.filesz.toNat = true
    · have placed := Placed.segment sound (segment_inside fits whole)
      rw [if_pos whole]
      split
      · exact placed
      · exact loaded_sound placed
    · rw [if_neg whole]
      trivial
  | gotStrings l =>
    dsimp only [advance]
    split
    · exact scanGot_sound sound
    · exact sound
  | gotSection l strtab i scan =>
    dsimp only [advance]
    split <;> exact sound
  | gotName l strtab i scan sect => exact scanGot_sound sound
  | patchGot l gotAddr gotSize =>
    dsimp only [advance]
    split
    · trivial
    · exact ⟨sound.inside, sound.counted⟩
  | relaStrings l =>
    dsimp only [advance]
    split
    · exact scanRela_sound sound
    · exact loaded_sound sound
  | relaSection l strtab i =>
    dsimp only [advance]
    split
    · exact sound
    · exact scanRela_sound sound
  | relaName l strtab i sect =>
    dsimp only [advance]
    split
    · exact relaEntries_sound sound
    · exact scanRela_sound sound
  | relaEntry l relaOffset r numRelas =>
    dsimp only [advance]
    repeat' split
    · trivial
    · exact relaEntries_sound sound
    · exact relaEntries_sound sound
  | call l =>
    obtain ⟨placed, two⟩ := sound
    exact ⟨by rw [placed.counted, two], placed.inside, fits⟩
  | running l => exact sound

/-! ## Every run -/

structure Inv (s : System) : Prop where
  accounts : Accounts s
  sound : ∀ task ∈ s.loads, Sound task.phase

theorem initial_inv (memory : Memory) : Inv (initial memory) :=
  ⟨initial_accounts memory, fun _ there => absurd there List.not_mem_nil⟩

theorem step_inv (inv : Inv s) (guard : Guard s label) (taken : step s label = some t) : Inv t := by
  refine ⟨step_accounts inv.accounts taken, ?_⟩
  have sound := inv.sound
  unfold step at taken
  cases label with
  | load data =>
    cases free : s.slotsAlloc with
    | none =>
      rw [free] at taken
      cases taken
      exact sound
    | some slot =>
      rw [free] at taken
      cases taken
      intro task there
      obtain rfl | earlier := List.mem_cons.mp there
      · trivial
      · exact sound task earlier
  | go d2 outcome =>
    cases loads : s.loads with
    | nil =>
      rw [loads] at taken
      cases taken
    | cons task rest =>
      have fits := guard task (by rw [loads]; rfl)
      rw [loads] at taken sound
      have next := advance_sound fits (sound task List.mem_cons_self)
      dsimp only at taken
      cases reached : (advance (task.phase.read task.file d2 outcome).1 task.phase).1 with
      | goes phase =>
        rw [reached] at taken next
        cases taken
        intro other there
        obtain rfl | earlier := List.mem_cons.mp there
        · exact next
        · exact sound other (List.mem_cons_of_mem _ earlier)
      | fail =>
        rw [reached] at taken
        cases taken
        intro other there
        refine sound other (List.mem_cons_of_mem _ ?_)
        unfold System.slotsFree at there
        split at there <;> exact there
      | addressError =>
        rw [reached] at taken
        cases taken
  | ret =>
    cases loads : s.loads with
    | nil =>
      rw [loads] at taken
      cases taken
    | cons task rest =>
      rw [loads] at taken sound
      obtain ⟨slot, file, phase⟩ := task
      cases phase with
      | running l =>
        cases taken
        intro other there
        refine sound other (List.mem_cons_of_mem _ ?_)
        unfold System.slotsFree at there
        split at there <;> exact there
      | _ => cases taken

theorem step_exits (accounts : Accounts s) (taken : step s label = some t) {task : Load}
    {rest : List Load} (loads : s.loads = task :: rest) (left : t.loads = rest) :
    s.slotInUse task.slot = true ∧ t.slotInUse task.slot = false ∧
      ∀ other, other ≠ task.slot → t.slotInUse other = s.slotInUse other := by
  have own : task.slot ∈ s.loads.map Load.slot := by
    rw [loads]
    exact List.mem_cons_self
  have inside := accounts.within task.slot own
  refine ⟨(accounts.used task.slot inside).mpr own, ?_⟩
  have freed {u : System} (same : u.slotInUse = s.slotInUse) :
      (u.slotsFree task.slot).slotInUse task.slot = false ∧
        ∀ other, other ≠ task.slot →
          (u.slotsFree task.slot).slotInUse other = s.slotInUse other := by
    unfold System.slotsFree
    rw [if_pos inside, ← same]
    exact ⟨if_pos rfl, fun other different => if_neg different⟩
  have longer {other : List Load} (same : rest = other) (more : rest.length < other.length) :
      False := by
    rw [same] at more
    exact Nat.lt_irrefl _ more
  unfold step at taken
  cases label with
  | load data =>
    cases free : s.slotsAlloc with
    | none =>
      rw [free] at taken
      cases taken
      exact (longer (left.symm.trans loads) (Nat.lt_succ_self _)).elim
    | some slot =>
      rw [free] at taken
      cases taken
      refine (longer left.symm ?_).elim
      rw [List.length_cons, loads, List.length_cons]
      omega
  | go d2 outcome =>
    rw [loads] at taken
    dsimp only at taken
    cases reached : (advance (task.phase.read task.file d2 outcome).1 task.phase).1 with
    | goes phase =>
      rw [reached] at taken
      cases taken
      exact (longer left.symm (Nat.lt_succ_self _)).elim
    | fail =>
      rw [reached] at taken
      cases taken
      exact freed rfl
    | addressError =>
      rw [reached] at taken
      cases taken
  | ret =>
    rw [loads] at taken
    obtain ⟨slot, file, phase⟩ := task
    cases phase with
    | running l =>
      cases taken
      exact freed rfl
    | _ => cases taken

theorem step_confined (inv : Inv s) (guard : Guard s label) (taken : step s label = some t) :
    Confined s label t where
  writes := fun effect written task first address touched => by
    cases label with
    | go d2 outcome =>
      have fits := guard task first
      cases loads : s.loads with
      | nil =>
        rw [loads] at first
        cases first
      | cons other rest =>
        rw [loads] at first
        cases first
        unfold effects at written
        rw [loads] at written
        exact (advance_stays fits effect written).inSlot touched
    | load data => exact absurd written List.not_mem_nil
    | ret => exact absurd written List.not_mem_nil
  exits := fun _ _ loads left => step_exits inv.accounts taken loads left

/-! ## Files -/

def wordBytes (word : Word) : List Byte :=
  [word.extractLsb' 24 8, word.extractLsb' 16 8, word.extractLsb' 8 8, word.extractLsb' 0 8]

/-- An executable whose tables follow its header; section 0 holds the names. -/
def elfFile (programs : List ProgramHeader) (sections : List SectionHeader) (rest : List Byte) :
    List Byte :=
  let ident : List Byte := [0x7F, 0x45, 0x4C, 0x46, 1, 2, 1, 0, 0, 0, 0, 0, 0, 0, 0, 0, 0, 2, 0, 4]
  let tables := [1, 0, 52, 52 + 32 * BitVec.ofNat 32 programs.length, 0].flatMap wordBytes
  let counts : List Byte :=
    [0, 52, 0, 32, 0, BitVec.ofNat 8 programs.length, 0, 40, 0, BitVec.ofNat 8 sections.length, 0, 0]
  let programTable := programs.flatMap fun header =>
    [header.type, header.offset, 0, header.paddr, header.filesz, header.memsz, 0, 0].flatMap wordBytes
  let sectionTable := sections.flatMap fun header =>
    [header.nameIdx, 0, 0, header.addr, header.offset, header.size, 0, 0, 0, 0].flatMap wordBytes
  ident ++ tables ++ counts ++ programTable ++ sectionTable ++ rest

end OrionBios.Loader
