import OrionBios.Loader.Path
import OrionBios.Loader.Confinement

/-!
# Position independence

Two loads of one file differ by their bases only: seen from the base, the segments are the same
bytes, and a word that is patched once holds its value from the file plus the base. Which words
are patched depends on how the sections lie.
-/

namespace OrionBios.Loader

open Machine

variable {file : List Byte} {base : Address} {memory : Memory}

/-! ## Seen from the base -/

def viewFrom (base : Address) (memory : Memory) : Memory := fun offset => memory (base + offset)

theorem within_shift {offset place : Word} {length : Nat} :
    Within (base + offset) length (base + place) ↔ Within offset length place := by
  unfold Within
  have same : base + place - (base + offset) = place - offset := by bv_omega
  rw [same]

theorem load32_view {offset : Word} :
    load32 (viewFrom base memory) offset = load32 memory (base + offset) := by
  unfold load32 viewFrom
  rw [BitVec.add_assoc, BitVec.add_assoc, BitVec.add_assoc]

theorem store32_view {offset value : Word} :
    viewFrom base (store32 memory (base + offset) value) =
      store32 (viewFrom base memory) offset value := by
  funext place
  unfold viewFrom store32
  have same (more : Word) : base + place = base + offset + more ↔ place = offset + more := by
    rw [BitVec.add_assoc, BitVec.add_right_inj]
  simp only [BitVec.add_right_inj, same]

/-- An effect that does not depend on the base. -/
def Effect.Fixed : Effect → Prop
  | .write _ _ | .clear _ _ => True
  | .add _ => False

theorem Effect.Fixed.view {effect : Effect} (fixed : effect.Fixed) :
    viewFrom base (effect.run base memory) = effect.run 0 (viewFrom base memory) := by
  funext place
  cases effect with
  | write offset bytes =>
    show (if Within (base + offset) bytes.length (base + place) then
        bytes.getD (base + place - (base + offset)).toNat 0 else memory (base + place)) =
      if Within (0 + offset) bytes.length place then bytes.getD (place - (0 + offset)).toNat 0
      else memory (base + place)
    have same : base + place - (base + offset) = place - offset := by bv_omega
    have first : (0 : Word) + offset = offset := BitVec.zero_add offset
    simp only [within_shift, same, first]
  | clear offset count =>
    show (if Within (base + offset) count (base + place) then 0 else memory (base + place)) =
      if Within (0 + offset) count place then 0 else memory (base + place)
    have first : (0 : Word) + offset = offset := BitVec.zero_add offset
    simp only [within_shift, first]
  | add offset => exact fixed.elim

theorem runAll_view {effects : List Effect} (fixed : ∀ effect ∈ effects, effect.Fixed) :
    viewFrom base (runAll base effects memory) = runAll 0 effects (viewFrom base memory) := by
  induction effects generalizing memory with
  | nil => rfl
  | cons effect rest inductionHypothesis =>
      show viewFrom base (runAll base rest (effect.run base memory)) =
        runAll 0 rest (effect.run 0 (viewFrom base memory))
      rw [inductionHypothesis fun other there => fixed other (List.mem_cons_of_mem _ there),
        (fixed effect List.mem_cons_self).view]

theorem runAll_congr {effects : List Effect} (fixed : ∀ effect ∈ effects, effect.Fixed)
    {memory' : Memory} {place : Word}
    (same : (∃ effect ∈ effects, effect.Touches 0 place) ∨ memory place = memory' place) :
    runAll 0 effects memory place = runAll 0 effects memory' place := by
  induction effects generalizing memory memory' with
  | nil => exact same.resolve_left fun ⟨_, there, _⟩ => absurd there List.not_mem_nil
  | cons effect rest inductionHypothesis =>
      refine inductionHypothesis (fun other there => fixed other (List.mem_cons_of_mem _ there)) ?_
      by_cases here : effect.Touches 0 place
      · refine .inr ?_
        have own := fixed effect List.mem_cons_self
        cases effect with
        | write offset bytes => exact (if_pos here).trans (if_pos here).symm
        | clear offset count => exact (if_pos here).trans (if_pos here).symm
        | add offset => exact own.elim
      · obtain ⟨other, there, touched⟩ | same := same
        · obtain rfl | later := List.mem_cons.mp there
          · exact absurd touched here
          · exact .inl ⟨other, later, touched⟩
        · refine .inr ?_
          exact (effect.run_outside here).trans (same.trans (effect.run_outside here).symm)

theorem placement_fixed {progHeader : ProgramHeader} :
    ∀ effect ∈ placement file progHeader, effect.Fixed := by
  intro effect there
  unfold placement at there
  obtain rfl | later := List.mem_cons.mp there
  · trivial
  · split at later
    · rw [List.mem_singleton.mp later]
      trivial
    · exact absurd later List.not_mem_nil

theorem placement_touches {progHeader : ProgramHeader} (complete : Complete file progHeader)
    {place : Word} (holds : progHeader.Holds place) :
    ∃ effect ∈ placement file progHeader, effect.Touches 0 place := by
  unfold ProgramHeader.Holds ProgramHeader.extent Within at holds
  by_cases read : (place - progHeader.paddr).toNat < progHeader.filesz.toNat
  · refine ⟨_, List.mem_cons_self, ?_⟩
    have first : (0 : Word) + progHeader.paddr = progHeader.paddr := BitVec.zero_add _
    show Within (0 + progHeader.paddr) _ place
    rw [complete, first]
    exact read
  · have more : progHeader.memsz > progHeader.filesz := by
      rw [gt_iff_lt, BitVec.lt_def]
      omega
    refine ⟨.clear (progHeader.paddr + progHeader.filesz)
      (progHeader.memsz - progHeader.filesz).toNat, ?_, ?_⟩
    · unfold placement
      rw [if_pos more]
      exact List.mem_cons_of_mem _ List.mem_cons_self
    · show Within (0 + (progHeader.paddr + progHeader.filesz)) _ place
      have less := holds
      rw [Nat.max_eq_right (Nat.le_of_lt more)] at less
      unfold Within
      bv_omega

/-! ## Patches -/

/-- Two words share no byte. -/
def Apart (first second : Word) : Prop :=
  4 ≤ (second - first).toNat ∧ 4 ≤ (first - second).toNat

instance (first second : Word) : Decidable (Apart first second) :=
  inferInstanceAs (Decidable (_ ∧ _))

theorem Apart.bytes {first second : Word} (apart : Apart first second) {byte : Word}
    (within : Within first 4 byte) : ¬Within second 4 byte := by
  unfold Apart at apart
  unfold Within at within ⊢
  bv_omega

theorem Apart.symm {first second : Word} (apart : Apart first second) : Apart second first :=
  ⟨apart.2, apart.1⟩

/-- The patches, seen from the base. -/
def addAll (base : Word) : List Word → Memory → Memory
  | [], image => image
  | word :: rest, image => addAll base rest (store32 image word (load32 image word + base))

theorem addAll_view {words : List Word} :
    viewFrom base (runAll base (words.map .add) memory) =
      addAll base words (viewFrom base memory) := by
  induction words generalizing memory with
  | nil => rfl
  | cons word rest inductionHypothesis =>
      show viewFrom base (runAll base (rest.map .add) (store32 memory (base + word) _)) =
        addAll base rest (store32 (viewFrom base memory) word _)
      rw [inductionHypothesis, store32_view, load32_view]

theorem addAll_outside {words : List Word} {image : Memory} {place : Word}
    (outside : ∀ word ∈ words, ¬Within word 4 place) :
    addAll base words image place = image place := by
  induction words generalizing image with
  | nil => rfl
  | cons word rest inductionHypothesis =>
      calc addAll base (word :: rest) image place
          = store32 image word (load32 image word + base) place :=
            inductionHypothesis fun other there => outside other (List.mem_cons_of_mem _ there)
        _ = image place := store32_outside (outside word List.mem_cons_self)

theorem addAll_word {words : List Word} {image : Memory} (apart : words.Pairwise Apart)
    {word : Word} (there : word ∈ words) :
    load32 (addAll base words image) word = load32 image word + base := by
  induction words generalizing image with
  | nil => exact absurd there List.not_mem_nil
  | cons first rest inductionHypothesis =>
      obtain ⟨clear, apart⟩ := List.pairwise_cons.mp apart
      obtain rfl | later := List.mem_cons.mp there
      · calc load32 (addAll base (word :: rest) image) word
            = load32 (store32 image word (load32 image word + base)) word :=
              load32_congr fun place within =>
                addAll_outside fun other there => (clear other there).bytes within
          _ = load32 image word + base := load32_store32_same
      · calc load32 (addAll base (first :: rest) image) word
            = load32 (store32 image first (load32 image first + base)) word + base :=
              inductionHypothesis apart later
          _ = load32 image word + base := by
              rw [load32_store32_apart fun byte within => (clear word later).symm.bytes within]

/-! ## The load as a run -/

theorem run_of_arrive {file : File} {d2s : List Word} {phase : Phase} {l : Locals}
    {effects : List Effect} (done : arrive file d2s (.goes phase) = some (l, effects)) (s : System)
    {slot : Nat} {rest : List Load} (loads : s.loads = ⟨slot, file, phase⟩ :: rest) :
    ∃ count t file', Transition.exec step s ((d2s.take count).map fun d2 => .go d2 .ok) = some t ∧
      t.loads = ⟨slot, file', .call l⟩ :: rest ∧
      t.memory = runAll (slotsBaseAddr slot) effects s.memory := by
  induction d2s generalizing file phase effects s with
  | nil =>
      cases phase with
      | call l' =>
          cases arrive_call.symm.trans done
          exact ⟨0, s, file, rfl, loads, rfl⟩
      | _ => cases done
  | cons d2 d2s inductionHypothesis =>
      by_cases calls : ∃ l', phase = .call l'
      · obtain ⟨l', rfl⟩ := calls
        cases arrive_call.symm.trans done
        exact ⟨0, s, file, rfl, loads, rfl⟩
      · rw [arrive_goes fun l' same => calls ⟨l', same⟩, Option.map_eq_some_iff] at done
        obtain ⟨⟨last, others⟩, remaining, same⟩ := done
        cases same
        cases next : (advance (phase.read file d2 .ok).1 phase).1 with
        | fail | addressError =>
          rw [next] at remaining
          cases d2s <;> cases remaining
        | goes phase' =>
          rw [next] at remaining
          let middle : System :=
            { s with
              loads := ⟨slot, (phase.read file d2 .ok).2, phase'⟩ :: rest
              memory := runAll (slotsBaseAddr slot) (advance (phase.read file d2 .ok).1 phase).2
                s.memory }
          have taken : step s (.go d2 .ok) = some middle := by
            unfold step
            rw [loads]
            dsimp only
            rw [next]
          obtain ⟨count, t, file', run, reached, memory⟩ := inductionHypothesis remaining middle rfl
          refine ⟨count + 1, t, file', ?_, reached, ?_⟩
          · exact Transition.exec_cons_eq_some.mpr ⟨middle, taken, run⟩
          · rw [memory]
            exact (List.foldl_append ..).symm

/-! ## Two bases -/

/-- What two loads of a file have in common at the call, and how they differ. -/
structure Independent (file : List Byte) (l l' : Locals) (a b : Address) (first second : Memory) :
    Prop where
  bytes : ∀ offset,
    (∃ progHeader ∈ segmentsFrom file (headerOf file) 0, progHeader.Holds offset) →
    (∀ word ∈ addressWords file (headerOf file), ¬Within word 4 offset) →
    first (a + offset) = second (b + offset)
  words : ∀ word ∈ addressWords file (headerOf file),
    load32 first (a + word) = load32 (segmentImage file (headerOf file)) word + a ∧
      load32 second (b + word) = load32 (segmentImage file (headerOf file)) word + b
  entry : entryAddress b l' - entryAddress a l = b - a
  a5 : a5Value b l' - a5Value a l = b - a

/-- The two patchers hit the words that should follow the base, each once and nothing else, and
these words belong to the segments. -/
structure Clean (file : List Byte) (header : ElfHeader) : Prop where
  apart : (patches file header).Pairwise Apart
  exact : ∀ word, word ∈ patches file header ↔ word ∈ addressWords file header
  loaded : ∀ word ∈ addressWords file header, ∀ byte : Fin 4,
    ∃ progHeader ∈ segmentsFrom file header 0, progHeader.Holds (word + BitVec.ofNat 32 byte)

theorem within_four {word place : Word} (within : Within word 4 place) :
    ∃ byte : Fin 4, place = word + BitVec.ofNat 32 byte := by
  unfold Within at within
  refine ⟨⟨(place - word).toNat, within⟩, ?_⟩
  show place = word + BitVec.ofNat 32 (place - word).toNat
  rw [BitVec.ofNat_toNat, BitVec.setWidth_eq]
  bv_omega

theorem image_of_finishes {l : Locals} {effects : List Effect}
    (finishes : Finishes file (.goes .header) l effects) (clean : Clean file (headerOf file))
    (base : Address) (memory : Memory) :
    (∀ offset, (∃ progHeader ∈ segmentsFrom file (headerOf file) 0, progHeader.Holds offset) →
      (∀ word ∈ addressWords file (headerOf file), ¬Within word 4 offset) →
      runAll base effects memory (base + offset) = segmentImage file (headerOf file) offset) ∧
    ∀ word ∈ addressWords file (headerOf file),
      load32 (runAll base effects memory) (base + word) =
        load32 (segmentImage file (headerOf file)) word + base := by
  obtain ⟨-, -, complete, rfl⟩ := finishes.effects
  let placements := (segmentsFrom file (headerOf file) 0).flatMap (placement file)
  have fixed : ∀ effect ∈ placements, effect.Fixed := fun effect there => by
    obtain ⟨progHeader, -, there⟩ := List.mem_flatMap.mp there
    exact placement_fixed effect there
  have view : viewFrom base (runAll base (placements ++
      (patches file (headerOf file)).map .add) memory) =
      addAll base (patches file (headerOf file)) (runAll 0 placements (viewFrom base memory)) := by
    unfold runAll
    rw [List.foldl_append]
    exact addAll_view.trans (congrArg _ (runAll_view fixed))
  -- what was in the memory before does not matter under a segment
  have placed {offset : Word}
      (held : ∃ progHeader ∈ segmentsFrom file (headerOf file) 0, progHeader.Holds offset) :
      runAll 0 placements (viewFrom base memory) offset =
        segmentImage file (headerOf file) offset := by
    obtain ⟨progHeader, there, holds⟩ := held
    obtain ⟨effect, inside, touched⟩ := placement_touches (complete progHeader there) holds
    exact runAll_congr fixed (.inl ⟨effect, List.mem_flatMap.mpr ⟨progHeader, there, inside⟩, touched⟩)
  constructor
  · intro offset held outside
    calc runAll base _ memory (base + offset)
        = addAll base (patches file (headerOf file))
            (runAll 0 placements (viewFrom base memory)) offset := congrFun view offset
      _ = runAll 0 placements (viewFrom base memory) offset :=
          addAll_outside fun word there => outside word ((clean.exact word).mp there)
      _ = segmentImage file (headerOf file) offset := placed held
  · intro word there
    have same : load32 (runAll 0 placements (viewFrom base memory)) word =
        load32 (segmentImage file (headerOf file)) word :=
      load32_congr fun place within => by
        obtain ⟨byte, rfl⟩ := within_four within
        exact placed (clean.loaded word there byte)
    rw [← load32_view, view, addAll_word clean.apart ((clean.exact word).mpr there), same]

theorem shift_sub_shift (a b offset : Word) : b + offset - (a + offset) = b - a := by
  have first : b + offset - (a + offset) + (a + offset) = b - a + (a + offset) := by
    rw [BitVec.sub_add_cancel, ← BitVec.add_assoc, BitVec.sub_add_cancel]
  exact (BitVec.add_left_inj (a + offset)).mp first

/-- Two loads of a file whose patches are clean differ by their bases, and by nothing else, when
their seeks go where they should. -/
theorem position_independent (file : List Byte) (d2s d2s' : List Word) (l l' : Locals)
    (effects effects' : List Effect) (accepted : Accepted ⟨file, 0⟩ d2s l effects)
    (accepted' : Accepted ⟨file, 0⟩ d2s' l' effects')
    (direct : straight ⟨file, 0⟩ d2s (.goes .header) = true)
    (direct' : straight ⟨file, 0⟩ d2s' (.goes .header) = true) (clean : Clean file (headerOf file))
    (a b : Address) (ma mb : Memory) :
    Independent file l l' a b (runAll a effects ma) (runAll b effects' mb) := by
  have finishes : Finishes file (.goes .header) l effects := finish_of_arrive direct accepted
  have finishes' : Finishes file (.goes .header) l' effects' := finish_of_arrive direct' accepted'
  obtain ⟨header, got, -⟩ := finishes.effects
  obtain ⟨header', got', -⟩ := finishes'.effects
  obtain ⟨bytes, words⟩ := image_of_finishes finishes clean a ma
  obtain ⟨bytes', words'⟩ := image_of_finishes finishes' clean b mb
  exact
    { bytes := fun offset held outside =>
        (bytes offset held outside).trans (bytes' offset held outside).symm
      words := fun word there => ⟨words word there, words' word there⟩
      entry := by
        unfold entryAddress
        rw [header, header']
        exact shift_sub_shift a b _
      a5 := by
        unfold a5Value
        rw [got, got']
        exact shift_sub_shift a b _ }

/-! ## Two files -/

/-- D2 holds 0 at every step. -/
def zeros : List Word := List.replicate 30 0

/-- A GOT of one word and a relocated word beside it. -/
theorem position_independent_pair :
    let file := elfFile [⟨1, 236, 0, 4, 4⟩, ⟨1, 240, 4, 8, 12⟩]
      [⟨0, 0, 248, 0⟩, ⟨1, 4, 0, 4⟩, ⟨6, 0, 265, 12⟩]
      ([0x4E, 0x71, 0x4E, 0x75, 0, 0, 0, 8, 0, 0, 0, 4] ++
        [0, 0x2E, 0x67, 0x6F, 0x74, 0, 0x2E, 0x72, 0x65, 0x6C, 0x61, 0x2E, 0x64, 0x61, 0x74, 0x61, 0] ++
        [0, 0, 0, 8, 0, 0, 0, 1, 0, 0, 0, 0])
    (arrive ⟨file, 0⟩ zeros (.goes .header)).isSome = true ∧
      ∀ l effects, Accepted ⟨file, 0⟩ zeros l effects → ∀ ma mb,
        Independent file l l (slotsBaseAddr 0) (slotsBaseAddr 1)
          (runAll (slotsBaseAddr 0) effects ma) (runAll (slotsBaseAddr 1) effects mb) := by
  intro file
  have words : patches file (headerOf file) = [4, 8] := by decide +kernel
  have targets : addressWords file (headerOf file) = [4, 8] := by decide +kernel
  have second : (segmentsFrom file (headerOf file) 0).any (fun progHeader =>
      [4, 8].all fun word => (List.range 4).all fun byte =>
        decide (progHeader.Holds (word + BitVec.ofNat 32 byte))) = true := by decide +kernel
  have clean : Clean file (headerOf file) := by
    refine ⟨?_, fun word => ?_, fun word there byte => ?_⟩
    · rw [words]
      decide
    · rw [words, targets]
    · rw [targets] at there
      obtain ⟨progHeader, segment, holds⟩ := List.any_eq_true.mp second
      have all := List.all_eq_true.mp (List.all_eq_true.mp holds word there) byte
        (List.mem_range.mpr byte.isLt)
      exact ⟨progHeader, segment, of_decide_eq_true all⟩
  have direct : straight ⟨file, 0⟩ zeros (.goes .header) = true := by decide +kernel
  exact ⟨by decide +kernel, fun l effects accepted ma mb => position_independent file zeros zeros l l
    effects effects accepted accepted direct direct clean _ _ ma mb⟩

/-- Sections `.got` and `.got.plt` with a word between them: the word is patched too. -/
theorem word_between_sections : ¬∀ (file : List Byte) (d2s : List Word) (l : Locals)
    (effects : List Effect), Accepted ⟨file, 0⟩ d2s l effects →
      ∀ i j : Nat, i < SLOT_COUNT → j < SLOT_COUNT → ∀ ma mb,
        Independent file l l (slotsBaseAddr i) (slotsBaseAddr j)
          (runAll (slotsBaseAddr i) effects ma) (runAll (slotsBaseAddr j) effects mb) := by
  intro all
  let file := elfFile [⟨1, 236, 0, 4, 4⟩, ⟨1, 240, 4, 12, 12⟩]
    [⟨0, 0, 252, 0⟩, ⟨1, 4, 0, 4⟩, ⟨6, 12, 0, 4⟩]
    ([0x4E, 0x71, 0x4E, 0x75, 0, 0, 0, 0, 0, 0, 0, 7, 0, 0, 0, 0] ++
      [0, 0x2E, 0x67, 0x6F, 0x74, 0, 0x2E, 0x67, 0x6F, 0x74, 0x2E, 0x70, 0x6C, 0x74, 0])
  let memory : Memory := fun _ => 0
  have differs : (arrive ⟨file, 0⟩ zeros (.goes .header)).any (fun result =>
      runAll (slotsBaseAddr 0) result.2 memory (slotsBaseAddr 0 + 9) !=
        runAll (slotsBaseAddr 1) result.2 memory (slotsBaseAddr 1 + 9)) = true := by decide +kernel
  have held : (segmentsFrom file (headerOf file) 0).any (fun progHeader =>
      decide (progHeader.Holds 9)) = true := by decide +kernel
  have targets : addressWords file (headerOf file) = [4, 12] := by decide +kernel
  cases done : arrive ⟨file, 0⟩ zeros (.goes .header) with
  | none =>
    rw [done] at differs
    cases differs
  | some result =>
    obtain ⟨l, effects⟩ := result
    rw [done] at differs
    have independent := all file zeros l effects done 0 1 (by decide) (by decide) memory memory
    obtain ⟨progHeader, segment, holds⟩ := List.any_eq_true.mp held
    have bytes := independent.bytes 9
    rw [targets] at bytes
    have outside : ∀ word ∈ ([4, 12] : List Word), ¬Within word 4 9 := fun word there => by
      obtain rfl | last := List.mem_cons.mp there
      · decide
      · rw [List.mem_singleton.mp last]
        decide
    have same := bytes ⟨progHeader, segment, of_decide_eq_true holds⟩ outside
    exact absurd same (bne_iff_ne.mp differs)

end OrionBios.Loader
