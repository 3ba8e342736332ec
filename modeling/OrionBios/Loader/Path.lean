import OrionBios.Loader.Image
import Mathlib.Data.List.Range

/-!
# The effects of an accepted file

Phase by phase, a load that comes to the call has written its two segments, in the order of their
headers, and has then added the base to the words that `find_got_section` and
`apply_data_relocations` name.
-/

namespace OrionBios.Loader

open Machine

variable {file : List Byte} {l l' : Locals} {all : List Effect} {next : Next}

/-- From here the loader comes to the call, with these variables and effects. -/
def Finishes (file : List Byte) (next : Next) (l : Locals) (effects : List Effect) : Prop :=
  ∃ steps, finish file steps next = some (l, effects)

theorem Finishes.not_fail (finishes : Finishes file .fail l' all) : False := by
  obtain ⟨steps, done⟩ := finishes
  cases steps <;> cases done

theorem Finishes.not_addressError (finishes : Finishes file .addressError l' all) : False := by
  obtain ⟨steps, done⟩ := finishes
  cases steps <;> cases done

theorem Finishes.call (finishes : Finishes file (.goes (.call l)) l' all) : l' = l ∧ all = [] := by
  obtain ⟨steps, done⟩ := finishes
  cases steps with
  | zero => cases done
  | succ steps =>
    cases done
    exact ⟨rfl, rfl⟩

theorem Finishes.step {phase : Phase} (finishes : Finishes file (.goes phase) l' all)
    (before : ∀ l, phase ≠ .call l) :
    ∃ others, Finishes file (plainly file phase).1 l' others ∧
      all = (plainly file phase).2 ++ others := by
  obtain ⟨steps, done⟩ := finishes
  cases steps with
  | zero => cases done
  | succ steps =>
    rw [finish_goes before, Option.map_eq_some_iff] at done
    obtain ⟨⟨last, others⟩, remaining, same⟩ := done
    cases same
    exact ⟨others, ⟨steps, remaining⟩, rfl⟩

theorem Finishes.quiet {phase : Phase} (finishes : Finishes file (.goes phase) l' all)
    (before : ∀ l, phase ≠ .call l) (goes : plainly file phase = (next, [])) :
    Finishes file next l' all := by
  obtain ⟨others, remaining, rfl⟩ := finishes.step before
  rw [goes] at remaining ⊢
  exact remaining

/-! ## `find_got_section` -/

theorem gotSection_advance {strtab : Word} {i : Nat} {scan : Scan} :
    plainly file (.gotSection l strtab i scan) =
      (match sectionHeader file l.header (BitVec.ofNat 32 i) with
        | none => .goes (.relaStrings l)
        | some sect => .goes (.gotName l strtab i scan sect), []) := by
  unfold sectionHeader
  by_cases whole : (readAt file (l.header.sectionAt (BitVec.ofNat 32 i)) SHDR_SIZE).whole SHDR_SIZE
      = true
  · rw [if_pos whole]
    exact if_pos whole
  · rw [if_neg whole]
    exact if_neg whole

theorem Finishes.patchGot {gotAddr gotSize : Word}
    (finishes : Finishes file (.goes (.patchGot l gotAddr gotSize)) l' all) :
    ∃ others, Finishes file (.goes (.relaStrings { l with got := some (gotAddr, gotSize) })) l'
        others ∧ all = (gotWords gotAddr gotSize).map .add ++ others := by
  obtain ⟨others, remaining, rfl⟩ := finishes.step nofun
  by_cases odd : gotWords gotAddr gotSize ≠ [] ∧ gotAddr.toNat % 2 = 1
  · have stops : plainly file (.patchGot l gotAddr gotSize) = (.addressError, []) := if_pos odd
    rw [stops] at remaining
    exact remaining.not_addressError.elim
  · have goes : plainly file (.patchGot l gotAddr gotSize) =
        (.goes (.relaStrings { l with got := some (gotAddr, gotSize) }),
          (gotWords gotAddr gotSize).map .add) := if_neg odd
    rw [goes] at remaining ⊢
    exact ⟨others, remaining, rfl⟩

theorem Finishes.scanGot {strtab : Word} (left : Nat) {i : Nat} {scan : Scan}
    (finishes : Finishes file (scanGot l strtab i scan) l' all)
    (bound : i + left = l.header.shnum.toNat) (fresh : l.got = none) :
    let got := (scanSections file l.header strtab (List.range' i left) scan).bind fun scan =>
      if scan.found then some (scan.minAddr, scan.maxEnd - scan.minAddr) else none
    ∃ others, Finishes file (.goes (.relaStrings { l with got := got })) l' others ∧
      all = (got.elim [] fun got => gotWords got.1 got.2).map .add ++ others := by
  have same : { l with got := none } = l := by
    rw [← fresh]
  induction left generalizing i scan with
  | zero =>
      unfold Loader.scanGot at finishes
      rw [if_neg (by omega)] at finishes
      show ∃ others, Finishes file (.goes (.relaStrings { l with
        got := if scan.found then some (scan.minAddr, scan.maxEnd - scan.minAddr) else none })) l'
          others ∧ all = (Option.elim (if scan.found then
            some (scan.minAddr, scan.maxEnd - scan.minAddr) else none) []
              fun got => gotWords got.1 got.2).map .add ++ others
      by_cases found : scan.found = true
      · rw [if_pos found] at finishes ⊢
        exact finishes.patchGot
      · rw [if_neg found] at finishes ⊢
        rw [same]
        exact ⟨all, finishes, rfl⟩
  | succ left inductionHypothesis =>
      unfold Loader.scanGot at finishes
      rw [if_pos (by omega)] at finishes
      have read := finishes.quiet nofun gotSection_advance
      rw [List.range'_succ, scanSections]
      cases header : sectionHeader file l.header (BitVec.ofNat 32 i) with
      | none =>
        rw [header] at read
        dsimp only at read ⊢
        rw [Option.bind_none, same]
        exact ⟨all, read, rfl⟩
      | some sect =>
        rw [header] at read
        exact inductionHypothesis (read.quiet nofun rfl) (by omega)

/-- `find_got_section` and the patch of the GOT. -/
theorem Finishes.gotStrings (finishes : Finishes file (.goes (.gotStrings l)) l' all)
    (fresh : l.got = none) :
    ∃ others,
      Finishes file (.goes (.relaStrings { l with got := findGotSection file l.header })) l' others ∧
      all = ((findGotSection file l.header).elim [] fun got => gotWords got.1 got.2).map .add ++
        others := by
  have goes : plainly file (.gotStrings l) =
      (match stringTable file l.header with
        | none => .goes (.relaStrings l)
        | some strtab => Loader.scanGot l strtab 0 ⟨0xFFFFFFFF, 0, false⟩, []) := by
    unfold stringTable sectionHeader
    by_cases whole : (readAt file (l.header.sectionAt (l.header.shstrndx.setWidth 32))
        SHDR_SIZE).whole SHDR_SIZE = true
    · rw [if_pos whole]
      exact if_pos whole
    · rw [if_neg whole]
      exact if_neg whole
  have read := finishes.quiet nofun goes
  unfold findGotSection
  cases table : stringTable file l.header with
  | none =>
    rw [table] at read
    have same : { l with got := none } = l := by
      rw [← fresh]
    rw [Option.bind_none, same]
    exact ⟨all, read, rfl⟩
  | some strtab =>
    rw [table] at read
    rw [Option.bind_some, List.range_eq_range']
    exact read.scanGot l.header.shnum.toNat (Nat.zero_add _) fresh

/-! ## `apply_data_relocations` -/

/-- An entry that the loader gets past: its target, if it is R_68K_32, is even. -/
theorem Finishes.relaEntry {relaOffset : Word} {r numRelas : Nat}
    (finishes : Finishes file (.goes (.relaEntry l relaOffset r numRelas)) l' all) :
    ∃ others, Finishes file (Loader.relaEntries l relaOffset (r + 1) numRelas) l' others ∧
      all = (relocationAt file relaOffset r).toList.map .add ++ others := by
  obtain ⟨others, remaining, rfl⟩ := finishes.step nofun
  let read := readAt file (relaOffset + BitVec.ofNat 32 (r * 12)) 12
  by_cases patched : (read.whole 12 && wordAt read.bytes 4 &&& 0xFF == 1) = true
  · have target : relocationAt file relaOffset r = some (wordAt read.bytes 0) := if_pos patched
    have goes : plainly file (.relaEntry l relaOffset r numRelas) =
        if (wordAt read.bytes 0).toNat % 2 = 1 then (.addressError, [])
        else (Loader.relaEntries l relaOffset (r + 1) numRelas, [.add (wordAt read.bytes 0)]) :=
      if_pos patched
    rw [goes] at remaining ⊢
    rw [target]
    by_cases odd : (wordAt read.bytes 0).toNat % 2 = 1
    · rw [if_pos odd] at remaining
      exact remaining.not_addressError.elim
    · rw [if_neg odd] at remaining ⊢
      exact ⟨others, remaining, rfl⟩
  · have none : relocationAt file relaOffset r = none := if_neg patched
    have goes : plainly file (.relaEntry l relaOffset r numRelas) =
        (Loader.relaEntries l relaOffset (r + 1) numRelas, []) := if_neg patched
    rw [goes] at remaining ⊢
    rw [none]
    exact ⟨others, remaining, rfl⟩

theorem Finishes.relaEntries {relaOffset : Word} {numRelas : Nat} (left : Nat) {r : Nat}
    (finishes : Finishes file (relaEntries l relaOffset r numRelas) l' all)
    (bound : r + left = numRelas) :
    ∃ others, Finishes file (loaded l) l' others ∧
      all = ((List.range' r left).filterMap (relocationAt file relaOffset)).map .add ++ others := by
  induction left generalizing r all with
  | zero =>
      unfold Loader.relaEntries at finishes
      rw [if_neg (by omega)] at finishes
      exact ⟨all, finishes, rfl⟩
  | succ left inductionHypothesis =>
      unfold Loader.relaEntries at finishes
      rw [if_pos (by omega)] at finishes
      obtain ⟨after, remaining, rfl⟩ := finishes.relaEntry
      obtain ⟨others, last, rfl⟩ := inductionHypothesis remaining (by omega)
      refine ⟨others, last, ?_⟩
      rw [List.range'_succ, List.filterMap_cons]
      cases relocationAt file relaOffset r <;> rfl

/-- The sections that are left; the first of the name ends the search. -/
theorem Finishes.scanRela {strtab : Word} (left : Nat) {i : Nat}
    (finishes : Finishes file (scanRela l strtab i) l' all)
    (bound : i + left = l.header.shnum.toNat) :
    ∃ others, Finishes file (loaded l) l' others ∧
      all = ((((List.range' i left).filterMap fun i =>
        (sectionHeader file l.header (BitVec.ofNat 32 i)).filter fun sect =>
          isRelaData (nameOf file strtab sect 15)).head?).elim [] (relocationsIn file)).map .add ++
        others := by
  induction left generalizing i with
  | zero =>
      unfold Loader.scanRela at finishes
      rw [if_neg (by omega)] at finishes
      exact ⟨all, finishes, rfl⟩
  | succ left inductionHypothesis =>
      unfold Loader.scanRela at finishes
      rw [if_pos (by omega)] at finishes
      have goes : plainly file (.relaSection l strtab i) =
          (match sectionHeader file l.header (BitVec.ofNat 32 i) with
            | none => Loader.scanRela l strtab (i + 1)
            | some sect => .goes (.relaName l strtab i sect), []) := by
        unfold sectionHeader
        by_cases whole : (readAt file (l.header.sectionAt (BitVec.ofNat 32 i)) SHDR_SIZE).whole
            SHDR_SIZE = true
        · rw [if_pos whole]
          exact if_pos whole
        · rw [if_neg whole]
          exact if_neg whole
      have read := finishes.quiet nofun goes
      rw [List.range'_succ, List.filterMap_cons]
      cases header : sectionHeader file l.header (BitVec.ofNat 32 i) with
      | none =>
        rw [header] at read
        exact inductionHypothesis read (by omega)
      | some sect =>
        rw [header] at read
        rw [Option.filter_some]
        by_cases named : isRelaData (nameOf file strtab sect 15) = true
        · have found : plainly file (.relaName l strtab i sect) =
              (Loader.relaEntries l sect.offset 0 (sect.size.toNat / 12), []) := if_pos named
          rw [if_pos named]
          show ∃ others, _ ∧ all = (relocationsIn file sect).map .add ++ others
          unfold relocationsIn
          rw [List.range_eq_range']
          exact (read.quiet nofun found).relaEntries (sect.size.toNat / 12) (Nat.zero_add _)
        · have other : plainly file (.relaName l strtab i sect) =
              (Loader.scanRela l strtab (i + 1), []) := if_neg named
          rw [if_neg named]
          exact inductionHypothesis (read.quiet nofun other) (by omega)

theorem Finishes.relaStrings (finishes : Finishes file (.goes (.relaStrings l)) l' all) :
    ∃ others, Finishes file (loaded l) l' others ∧
      all = (dataRelocations file l.header).map .add ++ others := by
  have goes : plainly file (.relaStrings l) =
      (match stringTable file l.header with
        | none => loaded l
        | some strtab => Loader.scanRela l strtab 0, []) := by
    unfold stringTable sectionHeader
    by_cases whole : (readAt file (l.header.sectionAt (l.header.shstrndx.setWidth 32))
        SHDR_SIZE).whole SHDR_SIZE = true
    · rw [if_pos whole]
      exact if_pos whole
    · rw [if_neg whole]
      exact if_neg whole
  have read := finishes.quiet nofun goes
  unfold dataRelocations
  cases table : stringTable file l.header with
  | none =>
    rw [table] at read
    exact ⟨all, read, rfl⟩
  | some strtab =>
    rw [table] at read
    rw [Option.bind_some]
    unfold sectionsNamed
    rw [List.range_eq_range']
    exact read.scanRela l.header.shnum.toNat (Nat.zero_add _)

/-! ## The program headers -/

theorem segmentsFrom_of_le {header : ElfHeader} {index : Nat}
    (beyond : header.phnum.toNat ≤ index) : segmentsFrom file header index = [] := by
  unfold segmentsFrom
  rw [Nat.sub_eq_zero_of_le beyond]
  rfl

theorem segmentsFrom_of_lt {header : ElfHeader} {index : Nat}
    (less : index < header.phnum.toNat) :
    segmentsFrom file header index =
      (loadHeader file header index).toList ++ segmentsFrom file header (index + 1) := by
  have more : header.phnum.toNat - index = header.phnum.toNat - (index + 1) + 1 := by omega
  unfold segmentsFrom
  rw [more, List.range'_succ, List.filterMap_cons]
  cases loadHeader file header index <;> rfl

theorem Finishes.enter (finishes : Finishes file (enter l) l' all) :
    (segmentsFrom file l.header l.progIndex = [] ∧ l.ptLoadSeen = 2 ∧ l' = l ∧ all = []) ∨
    l.progIndex < l.header.phnum.toNat ∧
      (segmentsFrom file l.header l.progIndex = segmentsFrom file l.header (l.progIndex + 1) ∧
          Finishes file (Loader.enter { l with progIndex := l.progIndex + 1 }) l' all ∨
        ∃ progHeader, segmentsFrom file l.header l.progIndex =
            progHeader :: segmentsFrom file l.header (l.progIndex + 1) ∧
          Finishes file (.goes (.segment l progHeader)) l' all) := by
  unfold Loader.enter at finishes
  by_cases less : l.progIndex < l.header.phnum.toNat
  · rw [if_pos less] at finishes
    refine .inr ⟨less, ?_⟩
    rw [segmentsFrom_of_lt less]
    let read := readAt file (l.header.programAt (BitVec.ofNat 32 l.progIndex)) 32
    let progHeader := ProgramHeader.ofBytes read.bytes
    obtain ⟨others, remaining, rfl⟩ := finishes.step nofun
    by_cases whole : read.whole 32 = true
    · by_cases load : progHeader.type = PT_LOAD
      · have goes : plainly file (.programHeader l) = (.goes (.segment l progHeader), []) := by
          show (if read.whole 32 = true then if progHeader.type = PT_LOAD then _ else _ else _) = _
          rw [if_pos whole, if_pos load]
          rfl
        have here : loadHeader file l.header l.progIndex = some progHeader :=
          if_pos (Bool.and_eq_true_iff.mpr ⟨whole, beq_iff_eq.mpr load⟩)
        rw [goes] at remaining ⊢
        rw [here]
        exact .inr ⟨progHeader, rfl, remaining⟩
      · have here : loadHeader file l.header l.progIndex = none :=
          if_neg fun both => load (beq_iff_eq.mp (Bool.and_eq_true_iff.mp both).2)
        have goes : plainly file (.programHeader l) =
            (if progHeader.type = PT_DYNAMIC ∨ progHeader.type = PT_SHLIB then (.fail, [])
              else if progHeader.type = PT_INTERP then (.fail, [])
              else (continueWith l, [])) := by
          show (if read.whole 32 = true then if progHeader.type = PT_LOAD then _ else _ else _) = _
          rw [if_pos whole, if_neg load]
          rfl
        rw [goes] at remaining ⊢
        rw [here]
        refine .inl ⟨rfl, ?_⟩
        split at remaining
        · exact remaining.not_fail.elim
        · next notDynamic =>
          rw [if_neg notDynamic]
          split at remaining
          · exact remaining.not_fail.elim
          · next notInterp =>
            rw [if_neg notInterp]
            exact remaining
    · have goes : plainly file (.programHeader l) = (.fail, []) := if_neg whole
      rw [goes] at remaining
      exact remaining.not_fail.elim
  · rw [if_neg less] at finishes
    refine .inl ⟨segmentsFrom_of_le (Nat.le_of_not_lt less), ?_⟩
    by_cases two : l.ptLoadSeen = 2
    · rw [if_pos two] at finishes
      exact ⟨two, finishes.call⟩
    · rw [if_neg two] at finishes
      exact finishes.not_fail.elim

theorem Finishes.segment {progHeader : ProgramHeader}
    (finishes : Finishes file (.goes (.segment l progHeader)) l' all) :
    ∃ others, Finishes file
        (if l.ptLoadSeen = 1 then
          .goes (.gotStrings { l with segments := l.segments ++ [progHeader] })
        else loaded { l with segments := l.segments ++ [progHeader] }) l' others ∧
      all = placement file progHeader ++ others ∧ Complete file progHeader := by
  obtain ⟨others, remaining, rfl⟩ := finishes.step nofun
  by_cases whole : (readAt file progHeader.offset progHeader.filesz.toNat).whole
      progHeader.filesz.toNat = true
  · have goes : plainly file (.segment l progHeader) =
        (if l.ptLoadSeen = 1 then
          .goes (.gotStrings { l with segments := l.segments ++ [progHeader] })
        else loaded { l with segments := l.segments ++ [progHeader] },
          placement file progHeader) := by
      refine (if_pos whole).trans ?_
      unfold placement
      dsimp only
      split <;> split <;> rfl
    have read := whole
    unfold Read.whole at read
    rw [Bool.and_eq_true, beq_iff_eq] at read
    rw [goes] at remaining ⊢
    exact ⟨others, remaining, rfl, read.2⟩
  · have goes : (plainly file (.segment l progHeader)).1 = .fail :=
      congrArg Prod.fst (if_neg whole)
    rw [goes] at remaining
    exact remaining.not_fail.elim

theorem not_finishes_of_three (left : Nat) (bound : l.progIndex + left = l.header.phnum.toNat)
    (three : 3 ≤ l.ptLoadSeen) : ¬Finishes file (enter l) l' all := by
  intro finishes
  induction left generalizing l all with
  | zero =>
      obtain ⟨-, two, -⟩ | ⟨less, -⟩ := finishes.enter
      · omega
      · omega
  | succ left inductionHypothesis =>
      obtain ⟨-, two, -⟩ | ⟨-, ⟨-, others⟩ | ⟨progHeader, -, others⟩⟩ := finishes.enter
      · omega
      · exact inductionHypothesis (l := { l with progIndex := l.progIndex + 1 })
          ((Nat.succ_add_eq_add_succ _ _).trans bound) three others
      · obtain ⟨after, remaining, -, -⟩ := others.segment
        rw [if_neg (by omega)] at remaining
        exact inductionHypothesis
          (l := { l with
            progIndex := l.progIndex + 1
            ptLoadSeen := l.ptLoadSeen + 1
            segments := l.segments ++ [progHeader] })
          ((Nat.succ_add_eq_add_succ _ _).trans bound) (Nat.le_succ_of_le three) remaining

theorem Finishes.afterTwo (left : Nat) (finishes : Finishes file (Loader.enter l) l' all)
    (bound : l.progIndex + left = l.header.phnum.toNat) (two : l.ptLoadSeen = 2) :
    segmentsFrom file l.header l.progIndex = [] ∧ l'.header = l.header ∧ l'.got = l.got ∧
      all = [] := by
  induction left generalizing l with
  | zero =>
      obtain ⟨none, -, same, quiet⟩ | ⟨less, -⟩ := finishes.enter
      · rw [same]
        exact ⟨none, rfl, rfl, quiet⟩
      · omega
  | succ left inductionHypothesis =>
      obtain ⟨none, -, same, quiet⟩ | ⟨-, ⟨same, others⟩ | ⟨progHeader, -, others⟩⟩ :=
        finishes.enter
      · rw [same]
        exact ⟨none, rfl, rfl, quiet⟩
      · rw [same]
        exact inductionHypothesis others ((Nat.succ_add_eq_add_succ _ _).trans bound) two
      · obtain ⟨after, remaining, -, -⟩ := others.segment
        rw [if_neg (by omega)] at remaining
        refine (not_finishes_of_three left ?_ ?_ remaining).elim
        · exact (Nat.succ_add_eq_add_succ _ _).trans bound
        · show 3 ≤ l.ptLoadSeen + 1
          omega

theorem Finishes.afterOne (left : Nat) (finishes : Finishes file (Loader.enter l) l' all)
    (bound : l.progIndex + left = l.header.phnum.toNat) (one : l.ptLoadSeen = 1)
    (fresh : l.got = none) :
    ∃ second, segmentsFrom file l.header l.progIndex = [second] ∧ Complete file second ∧
      l'.header = l.header ∧ l'.got = findGotSection file l.header ∧
      all = placement file second ++ (patches file l.header).map .add := by
  induction left generalizing l all with
  | zero =>
      obtain ⟨-, two, -⟩ | ⟨less, -⟩ := finishes.enter
      · omega
      · omega
  | succ left inductionHypothesis =>
      obtain ⟨-, two, -⟩ | ⟨-, ⟨same, others⟩ | ⟨second, here, others⟩⟩ := finishes.enter
      · omega
      · rw [same]
        exact inductionHypothesis others ((Nat.succ_add_eq_add_succ _ _).trans bound) one fresh
      · obtain ⟨after, remaining, rfl, complete⟩ := others.segment
        rw [if_pos one] at remaining
        obtain ⟨relocated, patched, rfl⟩ := remaining.gotStrings fresh
        obtain ⟨rest, done, rfl⟩ := patched.relaStrings
        obtain ⟨none, sameHeader, sameGot, rfl⟩ := Finishes.afterTwo left done
          ((Nat.succ_add_eq_add_succ _ _).trans bound) (congrArg (· + 1) one)
        change segmentsFrom file l.header (l.progIndex + 1) = [] at none
        refine ⟨second, by rw [here, none], complete, sameHeader, sameGot, ?_⟩
        unfold patches
        rw [List.map_append, List.append_nil]

theorem Finishes.afterNone (left : Nat) (finishes : Finishes file (Loader.enter l) l' all)
    (bound : l.progIndex + left = l.header.phnum.toNat) (zero : l.ptLoadSeen = 0)
    (fresh : l.got = none) :
    ∃ first second, segmentsFrom file l.header l.progIndex = [first, second] ∧
      Complete file first ∧ Complete file second ∧ l'.header = l.header ∧ l'.got = findGotSection file l.header ∧
      all = placement file first ++ placement file second ++ (patches file l.header).map .add := by
  induction left generalizing l all with
  | zero =>
      obtain ⟨-, two, -⟩ | ⟨less, -⟩ := finishes.enter
      · omega
      · omega
  | succ left inductionHypothesis =>
      obtain ⟨-, two, -⟩ | ⟨-, ⟨same, others⟩ | ⟨first, here, others⟩⟩ := finishes.enter
      · omega
      · rw [same]
        exact inductionHypothesis others ((Nat.succ_add_eq_add_succ _ _).trans bound) zero fresh
      · obtain ⟨after, remaining, rfl, complete⟩ := others.segment
        rw [if_neg (by omega)] at remaining
        obtain ⟨second, next, complete', sameHeader, sameGot, rfl⟩ := Finishes.afterOne left remaining
          ((Nat.succ_add_eq_add_succ _ _).trans bound) (congrArg (· + 1) zero) fresh
        change segmentsFrom file l.header (l.progIndex + 1) = [second] at next
        refine ⟨first, second, by rw [here, next], complete, complete', sameHeader, sameGot, ?_⟩
        rw [List.append_assoc]

theorem Finishes.effects (finishes : Finishes file (.goes .header) l all) :
    l.header = headerOf file ∧ l.got = findGotSection file (headerOf file) ∧
      (∀ progHeader ∈ segmentsFrom file (headerOf file) 0, Complete file progHeader) ∧
      all = (segmentsFrom file (headerOf file) 0).flatMap (placement file) ++
        (patches file (headerOf file)).map .add := by
  obtain ⟨others, remaining, rfl⟩ := finishes.step nofun
  by_cases valid : ((readAt file 0 52).whole 52 &&
      ElfHeader.accepted (readAt file 0 52).bytes) = true
  · have goes : plainly file .header =
        (Loader.enter ⟨headerOf file, 0, 0, none, []⟩, []) := if_pos valid
    rw [goes] at remaining ⊢
    obtain ⟨first, second, segments, complete, complete', header, got, rfl⟩ :=
      Finishes.afterNone _ remaining (Nat.zero_add _) rfl rfl
    change segmentsFrom file (headerOf file) 0 = [first, second] at segments
    rw [segments]
    refine ⟨header, got, ?_, ?_⟩
    · intro progHeader there
      obtain rfl | there := List.mem_cons.mp there
      · exact complete
      · rw [List.mem_singleton.mp there]
        exact complete'
    · rw [List.flatMap_cons, List.flatMap_cons, List.flatMap_nil, List.append_nil]
      rfl
  · have goes : plainly file .header = (.fail, []) := if_neg valid
    rw [goes] at remaining
    exact remaining.not_fail.elim

end OrionBios.Loader
