import OrionBios.TinyBasic.Editing

/-!
# Sessions with the program

Whatever lines are entered, the memory holds the program that they make, and `LIST` prints it.
-/

namespace OrionBios.TinyBasic

open Buffers
open Machine (OrderedMap)
open Machine.OrderedMap (below beyond entryOf)

variable {cells : Cells} {l : Line} {front back lines : List Line} {more : Text}
  {variablesBegin programEnd place start fuel sp n : Nat} {listing : Listing} {w : Waiting}

/-! ## Lines in the memory -/

theorem encode_append (front back : List Line) :
    encode (front ++ back) = encode front ++ encode back := List.flatMap_append

theorem encode_cons (l : Line) (back : List Line) :
    encode (l :: back) = encodeLine l ++ encode back := List.flatMap_cons

theorem encode_longer (lines : List Line) : lines.length ≤ (encode lines).length := by
  induction lines with
  | nil => exact Nat.le_refl 0
  | cons l lines inductionHypothesis =>
      rw [encode_cons, List.length_append, encodeLine_length, List.length_cons, lineSize]
      omega

theorem encode_even (lines : List Line) : (encode lines).length % 2 = 0 := by
  induction lines with
  | nil => rfl
  | cons l lines inductionHypothesis =>
      have even := lineSize_even l.2
      rw [encode_cons, List.length_append, encodeLine_length]
      omega

theorem header_read (fine : Storable l) (lies : Lies cells start (encodeLine l ++ more)) :
    lineNumber cells start = l.1 ∧ (cells (start + 2)).toNat = lineSize l.2 := by
  have small := fine.small
  have short := fine.short
  obtain ⟨high, behind⟩ := lies_cons.mp lies
  obtain ⟨low, behind⟩ := lies_cons.mp behind
  obtain ⟨size, _⟩ := lies_cons.mp behind
  rw [lineNumber, high, low, size, BitVec.toNat_ofNat, BitVec.toNat_ofNat, BitVec.toNat_ofNat]
  unfold lineSize
  omega

/-- `findline` finds the place between smaller numbers and others. -/
theorem findline_lies (lies : Lies cells start (encode (front ++ back)))
    (ends : programEnd = start + (encode (front ++ back)).length)
    (fine : ∀ l ∈ front ++ back, Storable l) (less : ∀ l ∈ front, l.1 < n)
    (others : ∀ l ∈ back, n ≤ l.1) (enough : front.length < fuel) :
    findline cells programEnd n fuel start = some (start + (encode front).length) := by
  induction front generalizing fuel start with
  | nil =>
      cases fuel with
      | zero => exact absurd enough (Nat.not_lt_zero _)
      | succ fuel =>
          rw [findline]
          cases back with
          | nil => exact if_pos ends.symm
          | cons l back =>
              rw [List.nil_append, encode_cons] at lies ends
              rw [List.length_append, encodeLine_length, lineSize] at ends
              have number := (header_read (fine l List.mem_cons_self) lies).1
              rw [if_neg (by omega), if_pos (number ▸ others l List.mem_cons_self)]
              rfl
  | cons l front inductionHypothesis =>
      cases fuel with
      | zero => exact absurd enough (Nat.not_lt_zero _)
      | succ fuel =>
          rw [List.cons_append, encode_cons] at lies ends
          rw [List.length_append, encodeLine_length] at ends
          obtain ⟨number, size⟩ := header_read (fine l List.mem_cons_self) lies
          have smaller := less l List.mem_cons_self
          have behind := (lies_append.mp lies).2
          have long : 4 ≤ lineSize l.2 := by
            unfold lineSize
            omega
          rw [encodeLine_length] at behind
          rw [findline, if_neg (by omega), if_neg (by omega), size,
            inductionHypothesis behind (by omega)
              (fun m among => fine m (List.mem_cons_of_mem l among))
              (fun m among => less m (List.mem_cons_of_mem l among))
              (Nat.lt_of_succ_lt_succ enough),
            encode_cons, List.length_append, encodeLine_length, Nat.add_assoc]

/-- `removeLine` closes the gap that the line leaves. -/
theorem removeLine_lies (fine : Storable l) (lies : Lies cells 0 (encode (front ++ l :: back)))
    (ends : programEnd = (encode (front ++ l :: back)).length) :
    ∃ cells', removeLine ⟨cells, programEnd⟩ (encode front).length =
        some ⟨cells', (encode (front ++ back)).length⟩ ∧
      Lies cells' 0 (encode (front ++ back)) ∧
      ∀ place, programEnd ≤ place → cells' place = cells place := by
  rw [encode_append, encode_cons] at lies ends
  rw [List.length_append, List.length_append, encodeLine_length] at ends
  obtain ⟨before, behind⟩ := lies_append.mp lies
  rw [Nat.zero_add] at behind
  have size := (header_read fine behind).2
  have rest := (lies_append.mp behind).2
  rw [encodeLine_length] at rest
  refine ⟨move cells (encode front).length ((encode front).length + lineSize l.2)
    (encode back).length, ?_, ?_, fun place beyond => move_outside (by omega)⟩
  · have count : programEnd - ((encode front).length + lineSize l.2) = (encode back).length := by
      omega
    simp only [removeLine, size, count]
    rw [if_neg (by omega), movePieces_eq_move (.inl (by omega)), Nat.one_mul, encode_append,
      List.length_append]
  · rw [encode_append]
    refine lies_append.mpr ⟨before.congr fun place _ less => move_outside (by omega), ?_⟩
    rw [Nat.zero_add]
    exact rest.moved

theorem makePlace_lies (fine : ∀ l ∈ listing.entries, Storable l)
    (lies : Lies cells 0 (encode listing.entries)) (n : Nat) :
    ∃ s' : Store,
      makePlace cells listing.size (encode (below n listing.entries)).length n = some s' ∧
      s'.programEnd = (encode (below n listing.entries ++ beyond n listing.entries)).length ∧
      Lies s'.cells 0 (encode (below n listing.entries ++ beyond n listing.entries)) ∧
      s'.programEnd ≤ listing.size ∧
      ∀ place, listing.size ≤ place → s'.cells place = cells place := by
  have split := listing.entries_split n
  have greater : ∀ m ∈ beyond n listing.entries, n < m.1 := fun m among =>
    (OrderedMap.mem_beyond.mp among).2
  have fine' : ∀ m ∈ beyond n listing.entries, Storable m := fun m among =>
    fine m (OrderedMap.mem_beyond.mp among).1
  unfold Listing.size
  generalize below n listing.entries = front at *
  generalize beyond n listing.entries = back at *
  cases old : listing.lookup n with
  | none =>
      have whole : listing.entries = front ++ back := by
        rw [split, old]
        rfl
      rw [whole] at lies ⊢
      refine ⟨⟨cells, _⟩, if_neg ?_, rfl, lies, Nat.le_refl _, fun _ _ => rfl⟩
      rintro ⟨inside, same⟩
      cases back with
      | nil =>
          have same := congrArg (fun lines => (encode lines).length) (List.append_nil front)
          exact inside same.symm
      | cons m back =>
          rw [encode_append, encode_cons] at lies
          have behind := (lies_append.mp lies).2
          rw [Nat.zero_add] at behind
          have number := (header_read (fine' m List.mem_cons_self) behind).1
          have larger := greater m List.mem_cons_self
          omega
  | some body =>
      have whole : listing.entries = front ++ (n, body) :: back := by
        rw [split, old]
        rfl
      have own : Storable (n, body) := fine _ (whole ▸ List.mem_append_right _ List.mem_cons_self)
      rw [whole] at lies ⊢
      obtain ⟨cells', removed, lies', frame⟩ := removeLine_lies own lies rfl
      have total : (encode (front ++ (n, body) :: back)).length =
          (encode front).length + (lineSize body + (encode back).length) := by
        rw [encode_append, encode_cons, List.length_append, List.length_append, encodeLine_length]
      have size : 4 ≤ lineSize body := by
        unfold lineSize
        omega
      rw [encode_append, encode_cons] at lies
      have behind := (lies_append.mp lies).2
      rw [Nat.zero_add] at behind
      have number := (header_read own behind).1
      refine ⟨⟨cells', _⟩, (if_pos ⟨by omega, number⟩).trans removed, rfl, lies', ?_, frame⟩
      show (encode (front ++ back)).length ≤ _
      rw [total, encode_append, List.length_append]
      omega

theorem from_number (listing : Listing) (n : Nat) :
    ∀ m ∈ entryOf n (listing.lookup n) ++ beyond n listing.entries, n ≤ m.1 := by
  intro m among
  rcases List.mem_append.mp among with here | behind
  · exact (OrderedMap.mem_entryOf.mp here).1.ge
  · exact (OrderedMap.mem_beyond.mp behind).2.le

/-- `findline` passes the lines with smaller numbers. -/
theorem findline_listing (fine : ∀ m ∈ listing.entries, Storable m)
    (lies : Lies cells 0 (encode listing.entries)) (enough : listing.size < fuel) (n : Nat) :
    findline cells listing.size n fuel 0 = some (encode (below n listing.entries)).length := by
  have longer := encode_longer listing.entries
  have fewer : (below n listing.entries).length ≤ listing.entries.length :=
    List.length_filter_le _ _
  have split := listing.entries_split n
  have ends : listing.size = 0 + (encode (below n listing.entries ++
      (entryOf n (listing.lookup n) ++ beyond n listing.entries))).length := by
    rw [← split, Nat.zero_add]
    rfl
  have here := findline_lies (split ▸ lies) ends (split ▸ fine)
    (fun m among => (OrderedMap.mem_below.mp among).2) (from_number listing n)
    (by unfold Listing.size at enough; omega : _ < fuel)
  rw [here, Nat.zero_add]

/-! ## Merging -/

theorem text_read (lies : Lies cells start (encodeLine l)) :
    Lies cells (start + 3) (l.2 ++ [NL]) := by
  have behind := (lies_cons.mp (lies_cons.mp (lies_cons.mp lies).2).2).2
  rw [List.append_cons] at behind
  exact (lies_append.mp behind).1

/-- Behind the header there is an `NL` where the line has no text. -/
theorem text_empty (free : NL ∉ l.2) (lies : Lies cells start (encodeLine l)) :
    cells (start + 3) = NL ↔ l.2 = [] := by
  have text := text_read lies
  cases body : l.2 with
  | nil =>
      rw [body] at text
      exact iff_of_true (lies_single.mp text) rfl
  | cons c rest =>
      rw [body] at text free
      have first := (lies_cons.mp text).1
      exact iff_of_false (fun same => free (List.mem_cons.mpr (.inl (same.symm.trans first))))
        (List.cons_ne_nil c rest)

theorem encode_insert (l : Line) (front back : List Line) :
    (encode (front ++ l :: back)).length = (encode (front ++ back)).length + lineSize l.2 := by
  rw [encode_append, encode_append, encode_cons, List.length_append, List.length_append,
    List.length_append, encodeLine_length]
  omega

theorem shuffle_line {s : Store} {block : Nat} (waiting : Lies s.cells block (encodeLine l))
    (lies : Lies s.cells 0 (encode (front ++ back)))
    (ends : s.programEnd = (encode (front ++ back)).length) (gap : s.programEnd < block)
    (enough : lineSize l.2 < fuel) :
    ∃ cells', shuffle fuel s.cells (encode front).length s.programEnd block (lineSize l.2) =
        some (cells', (encode (front ++ l :: back)).length) ∧
      Lies cells' 0 (encode (front ++ l :: back)) ∧
      ∀ place, block + lineSize l.2 ≤ place → cells' place = s.cells place := by
  rw [encode_insert, ← ends]
  rw [encode_append, List.length_append] at ends
  rw [encode_append] at lies
  obtain ⟨before, behind⟩ := lies_append.mp lies
  rw [Nat.zero_add] at behind
  have linelen := encodeLine_length l
  obtain ⟨cells', merged, inserted, outside⟩ :=
    shuffle_lies waiting behind (by omega) (by omega : _ < fuel)
  rw [← ends, linelen] at merged
  refine ⟨cells', merged, ?_, fun place beyond => outside place (.inr (by omega))⟩
  rw [encode_append, encode_cons]
  refine lies_append.mpr ⟨before.congr fun place _ less => outside place (.inl (by omega)), ?_⟩
  rw [Nat.zero_add]
  exact inserted

theorem merge_entries (listing : Listing) (l : Line) :
    (listing.merge l).entries = below l.1 listing.entries ++
      (entryOf l.1 (if l.2 = [] then none else some l.2) ++ beyond l.1 listing.entries) := rfl

theorem others_less (listing : Listing) (n : Nat) :
    (encode (below n listing.entries ++ beyond n listing.entries)).length ≤ listing.size := by
  have split := congrArg (fun lines => (encode lines).length) (listing.entries_split n)
  rw [encode_append, List.length_append] at split ⊢
  rw [encode_append, List.length_append] at split
  unfold Listing.size
  omega

theorem mergeLine_cleared (waits : Waits w cells variablesBegin l)
    (fine : ∀ m ∈ listing.entries, Storable m) (lies : Lies cells 0 (encode listing.entries))
    (free : NL ∉ l.2) (room : listing.size + lineSize l.2 ≤ variablesBegin)
    (enough : variablesBegin < fuel) :
    ∃ s : Store,
      mergeLine fuel listing.size l.1 w =
        (if l.2 = [] then some s
        else
          (shuffle fuel s.cells (encode (below l.1 listing.entries)).length s.programEnd
            (variablesBegin - lineSize l.2) (lineSize l.2)).bind
              fun merged => some ⟨merged.1, merged.2⟩) ∧
      s.programEnd = (encode (below l.1 listing.entries ++ beyond l.1 listing.entries)).length ∧
      Lies s.cells 0 (encode (below l.1 listing.entries ++ beyond l.1 listing.entries)) ∧
      Lies s.cells (variablesBegin - lineSize l.2) (encodeLine l) ∧
      ∀ place, variablesBegin ≤ place → s.cells place = cells place := by
  have held : Lies w.cells 0 (encode listing.entries) :=
    lies.congr fun place _ less => waits.frame place (by unfold Listing.size at room; omega)
  have found := findline_listing fine held (by omega : listing.size < fuel) l.1
  obtain ⟨s, cleared, ends, lies', _, frame⟩ := makePlace_lies fine held l.1
  have waiting : Lies s.cells (variablesBegin - lineSize l.2) (encodeLine l) :=
    waits.lies.congr fun place low _ => frame place (by omega)
  refine ⟨s, ?_, ends, lies', waiting, fun place beyond =>
    (frame place (by omega)).trans (waits.frame place (.inr beyond))⟩
  rw [mergeLine, found]
  simp only [Option.bind_eq_bind, Option.bind_some, cleared, waits.txtpos, waits.linelen]
  by_cases empty : l.2 = []
  · rw [if_pos ((text_empty free waiting).mpr empty), if_pos empty]
    rfl
  · rw [if_neg (mt (text_empty free waiting).mp empty), if_neg empty]
    rfl

theorem merge_texted (texted : l.2 ≠ []) : (listing.merge l).entries =
    below l.1 listing.entries ++ l :: beyond l.1 listing.entries := by
  rw [merge_entries, if_neg texted]
  rfl

theorem mergeLine_stores (waits : Waits w cells variablesBegin l)
    (fine : ∀ m ∈ listing.entries, Storable m) (lies : Lies cells 0 (encode listing.entries))
    (free : NL ∉ l.2) (room : listing.size + lineSize l.2 ≤ variablesBegin)
    (fits : (listing.merge l).size < variablesBegin) (enough : variablesBegin < fuel) :
    ∃ s', mergeLine fuel listing.size l.1 w = some s' ∧
      s'.programEnd = (listing.merge l).size ∧
      Lies s'.cells 0 (encode (listing.merge l).entries) ∧
      ∀ place, variablesBegin ≤ place → s'.cells place = cells place := by
  obtain ⟨s, merging, ends, cleared, waiting, frame⟩ :=
    mergeLine_cleared waits fine lies free room enough
  rw [merging]
  unfold Listing.size at fits ⊢
  by_cases empty : l.2 = []
  · rw [if_pos empty, merge_entries, if_pos empty]
    exact ⟨s, rfl, ends, cleared, frame⟩
  · rw [merge_texted empty] at fits ⊢
    have longer := encode_insert l (below l.1 listing.entries) (beyond l.1 listing.entries)
    obtain ⟨cells', merged, stored, outside⟩ :=
      shuffle_line waiting cleared ends (by omega) (by omega : _ < fuel)
    rw [if_neg empty, merged]
    exact ⟨_, rfl, rfl, stored, fun place beyond =>
      (outside place (by omega)).trans (frame place beyond)⟩

/-- A line that takes all of the memory is never merged. -/
theorem mergeLine_full (waits : Waits w cells variablesBegin l)
    (fine : ∀ m ∈ listing.entries, Storable m) (lies : Lies cells 0 (encode listing.entries))
    (free : NL ∉ l.2) (room : listing.size + lineSize l.2 ≤ variablesBegin)
    (full : variablesBegin ≤ (listing.merge l).size) (texted : l.2 ≠ [])
    (enough : variablesBegin < fuel) : mergeLine fuel listing.size l.1 w = none := by
  obtain ⟨s, merging, ends, _, _, _⟩ := mergeLine_cleared waits fine lies free room enough
  have longer := encode_insert l (below l.1 listing.entries) (beyond l.1 listing.entries)
  have fewer := others_less listing l.1
  have some : 0 < lineSize l.2 := by
    unfold lineSize
    omega
  unfold Listing.size at full
  rw [merge_texted texted] at full
  rw [merging, if_neg texted, show variablesBegin - lineSize l.2 = s.programEnd by omega,
    shuffle_stuck some]
  rfl

/-! ## Entering a line -/

theorem Stores.size {s : Store} (stores : Stores s listing) : s.programEnd = listing.size := by
  have long := congrArg List.length stores.held
  rw [bufferRead_length] at long
  exact long

theorem Stores.lies {s : Store} (stores : Stores s listing) :
    Lies s.cells 0 (encode listing.entries) := by
  have held := stores.held
  rw [stores.size] at held
  exact held

theorem stores_of_lies {s : Store} (ends : s.programEnd = listing.size)
    (lies : Lies s.cells 0 (encode listing.entries)) (fine : ∀ l ∈ listing.entries, Storable l) :
    Stores s listing := ⟨ends ▸ lies, fine⟩

theorem stores_empty {s : Store} (empty : s.programEnd = 0) : Stores s OrderedMap.empty :=
  ⟨by rw [empty]; rfl, fun l among => absurd among List.not_mem_nil⟩

/-- The keys of a line, with `CR` at the end. -/
def keysOf (line : List Char) : List Byte := line.map byte ++ [CR]

theorem enterLine_read {s : Store} {room : Nat} {keys : List Byte} {text : Text}
    (fits : variablesBegin = s.programEnd + 4 + room) (enough : variablesBegin < fuel)
    (typing : typed room keys [] = some text) (line : Line)
    (here : parts (uppercased 0 text) = line) :
    ∃ cells',
      enterLine fuel variablesBegin keys s =
        (if line.1 = 0 then some (.direct, ⟨cells', s.programEnd⟩)
        else if line.1 = 0xFFFF then some (.qhow, ⟨cells', s.programEnd⟩)
        else if 256 ≤ line.2.length then none
        else
          (mergeLine fuel s.programEnd line.1 (addHeader line.1 line.2.length cells'
            (variablesBegin - (line.2.length + 1)))).bind fun merged => some (.prompt, merged)) ∧
      Lies cells' (variablesBegin - (line.2.length + 1)) (line.2 ++ [NL]) ∧
      line.2.length ≤ text.length ∧ text.length ≤ room ∧
      ∀ place, place < s.programEnd ∨ variablesBegin ≤ place → cells' place = s.cells place := by
  obtain ⟨cells', read, lies, short, frame⟩ := readLine_typed fits enough typing
  have letters : ∀ c ∈ uppercased 0 text, isTyped c = true :=
    uppercased_isTyped (typed_letters typing)
  obtain ⟨front, split⟩ := parts_suffix (uppercased 0 text)
  have long := uppercased_length 0 text
  rw [here] at split
  rw [← split, List.length_append] at long
  have free : NL ∉ line.2 := fun among =>
    free_of_isTyped letters (split ▸ List.mem_append_right front among)
  have number : (testnum (uppercased 0 text ++ [NL])).1 = line.1 := by
    rw [testnum_end]
    exact (congrArg Prod.fst here : (parts (uppercased 0 text)).1 = line.1)
  have body : skipBlanks (testnum (uppercased 0 text ++ [NL])).2 = line.2 ++ [NL] := by
    rw [testnum_end, skipBlanks_end]
    exact congrArg (fun l : Line => l.2 ++ [NL]) here
  have upTo : ((line.2 ++ [NL]).takeWhile fun c => c ≠ NL) = line.2 := by
    have others : ∀ c ∈ line.2, decide (c ≠ NL) = true := by
      intro c among
      apply decide_eq_true
      rintro rfl
      exact free among
    rw [List.takeWhile_append_of_pos others]
    exact List.append_nil _
  refine ⟨cells', ?_, ?_, by omega, short, fun place outside => frame place (by omega)⟩
  · rw [enterLine, read]
    simp only [Option.bind_eq_bind, Option.bind_some, number, body, upTo, List.length_append,
      List.length_singleton]
  · rw [← split, List.append_assoc] at lies
    have behind := (lies_append.mp lies).2
    rw [show variablesBegin - (text.length + 1) + front.length =
      variablesBegin - (line.2.length + 1) by omega] at behind
    exact behind

theorem storable_merge {l : Line} (fine : ∀ m ∈ listing.entries, Storable m)
    (own : l.2 ≠ [] → Storable l) : ∀ m ∈ (listing.merge l).entries, Storable m := by
  intro m among
  rcases OrderedMap.mem_placed.mp among with ⟨same, new⟩ | ⟨_, old⟩
  · by_cases empty : l.2 = []
    · rw [if_pos empty] at new
      exact absurd new.symm (Option.some_ne_none _)
    · rw [if_neg empty] at new
      have equal : m = l := Prod.ext same (Option.some_inj.mp new).symm
      exact equal ▸ own empty
  · exact fine m old

theorem enterLine_merges {s : Store} {keys : List Byte} {text : Text} {line : Line}
    (even : variablesBegin % 2 = 0) (enough : variablesBegin < fuel) (stores : Stores s listing)
    (room : listing.size + 4 ≤ variablesBegin)
    (typing : typed (variablesBegin - 4 - listing.size) keys [] = some text)
    (here : parts (uppercased 0 text) = line) (numbered : line.1 ≠ 0) (small : line.1 ≠ 0xFFFF)
    (short : line.2.length ≤ 250) :
    ∃ cells' w,
      enterLine fuel variablesBegin keys s =
        (mergeLine fuel listing.size line.1 w).bind (fun merged => some (.prompt, merged)) ∧
      Waits w cells' variablesBegin line ∧ Lies cells' 0 (encode listing.entries) ∧
      NL ∉ line.2 ∧ listing.size + lineSize line.2 ≤ variablesBegin ∧
      ∀ place, variablesBegin ≤ place → cells' place = s.cells place := by
  have size := stores.size
  have letters := typed_letters typing
  obtain ⟨cells', reads, lies, _, within, frame⟩ :=
    enterLine_read (by omega : variablesBegin = s.programEnd + 4 + _) enough typing line here
  have less := parts_shorter (here ▸ numbered)
  rw [uppercased_length, here] at less
  have linelen : lineSize line.2 ≤ line.2.length + 5 := by
    unfold lineSize
    omega
  have free : NL ∉ line.2 := fun among => by
    have there := (parts_suffix (uppercased 0 text)).subset (here ▸ among)
    exact free_of_isTyped (uppercased_isTyped letters) there
  refine ⟨cells', _, ?_, addHeader_waits short even (by omega) lies, ?_, free, by omega,
    fun place beyond => frame place (.inr beyond)⟩
  · rw [reads, if_neg numbered, if_neg small, if_neg (by omega), size]
  · refine stores.lies.congr fun place _ less => frame place (.inl ?_)
    rw [size]
    unfold Listing.size
    omega

/-- The interpreter comes back from such a line if and only if the program leaves some room. -/
theorem enterLine_returns {s : Store} {keys : List Byte} {text : Text} {line : Line}
    (even : variablesBegin % 2 = 0) (enough : variablesBegin < fuel) (stores : Stores s listing)
    (room : listing.size + 4 ≤ variablesBegin)
    (typing : typed (variablesBegin - 4 - listing.size) keys [] = some text)
    (here : parts (uppercased 0 text) = line) (numbered : line.1 ≠ 0) (small : line.1 ≠ 0xFFFF)
    (short : line.2.length ≤ 250) :
    (enterLine fuel variablesBegin keys s).isSome ↔ (listing.merge line).size < variablesBegin := by
  obtain ⟨cells', w, reads, waits, lies, free, fits, _⟩ :=
    enterLine_merges even enough stores room typing here numbered small short
  rw [reads]
  by_cases leaves : (listing.merge line).size < variablesBegin
  · obtain ⟨s', merged, _⟩ := mergeLine_stores waits stores.lines lies free fits leaves enough
    rw [merged]
    exact iff_of_true rfl leaves
  · have texted : line.2 ≠ [] := by
      intro empty
      have fewer := others_less listing line.1
      rw [Listing.size, merge_entries, if_pos empty] at leaves
      exact leaves (Nat.lt_of_le_of_lt fewer (by omega))
    rw [mergeLine_full waits stores.lines lies free fits (Nat.le_of_not_lt leaves) texted enough]
    exact iff_of_false (fun some => absurd some Bool.false_ne_true) leaves

/-- A line that would take all of 12 bytes. -/
def fullLine : List Byte := keysOf ['1', 'A', 'B', 'C', 'D', 'E', 'F', 'G']

theorem enterLine_returns_full : ¬ (enterLine 13 12 fullLine ⟨fun _ => 0, 0⟩).isSome := by
  have stores : Stores ⟨fun _ => 0, 0⟩ OrderedMap.empty := stores_empty rfl
  have typing : typed (12 - 4 - 0) fullLine [] =
      some (['1', 'A', 'B', 'C', 'D', 'E', 'F', 'G'].map byte) := rfl
  have returns := @enterLine_returns 12 13 OrderedMap.empty _ _ _ _ (by decide) (by decide) stores
    (by decide) typing rfl (by decide) (by decide) (by decide)
  rw [returns]
  decide

theorem enter_cases {keys : List Byte} {outcome : Outcome} {next : Listing}
    (entered : listing.enter variablesBegin keys = some (outcome, next)) :
    listing.size + 4 ≤ variablesBegin ∧
      ∃ text line, typed (variablesBegin - 4 - listing.size) keys [] = some text ∧
        parts (uppercased 0 text) = line ∧ line.1 ≠ 0 ∧
        ((line.1 = 0xFFFF ∧ outcome = .qhow ∧ next = listing) ∨
          (line.1 ≠ 0xFFFF ∧ line.2.length ≤ 250 ∧
            (listing.merge line).size < variablesBegin ∧ outcome = .prompt ∧
            next = listing.merge line)) := by
  rw [Listing.enter] at entered
  by_cases scarce : variablesBegin < listing.size + 4
  · rw [if_pos scarce] at entered
    exact absurd entered.symm (Option.some_ne_none _)
  rw [if_neg scarce] at entered
  obtain ⟨text, typing, entered⟩ := Option.bind_eq_some_iff.mp entered
  refine ⟨Nat.le_of_not_lt scarce, text, _, typing, rfl, ?_⟩
  generalize parts (uppercased 0 text) = line at *
  by_cases direct : line.1 = 0
  · rw [if_pos direct] at entered
    exact absurd entered.symm (Option.some_ne_none _)
  rw [if_neg direct] at entered
  refine ⟨direct, ?_⟩
  by_cases much : line.1 = 0xFFFF
  · rw [if_pos much] at entered
    obtain ⟨rfl, rfl⟩ := Prod.mk.inj (Option.some_inj.mp entered)
    exact .inl ⟨much, rfl, rfl⟩
  rw [if_neg much] at entered
  by_cases refused : 250 < line.2.length ∨ variablesBegin ≤ (listing.merge line).size
  · rw [if_pos refused] at entered
    exact absurd entered.symm (Option.some_ne_none _)
  rw [if_neg refused] at entered
  obtain ⟨rfl, rfl⟩ := Prod.mk.inj (Option.some_inj.mp entered)
  obtain ⟨short, fits⟩ := not_or.mp refused
  exact .inr ⟨much, Nat.le_of_not_lt short, Nat.lt_of_not_le fits, rfl, rfl⟩

theorem enterLine_stores {s : Store} {keys : List Byte} {outcome : Outcome} {next : Listing}
    (even : variablesBegin % 2 = 0) (enough : variablesBegin < fuel) (stores : Stores s listing)
    (entered : listing.enter variablesBegin keys = some (outcome, next)) :
    ∃ s', enterLine fuel variablesBegin keys s = some (outcome, s') ∧ outcome ≠ .direct ∧
      Stores s' next ∧ ∀ place, variablesBegin ≤ place → s'.cells place = s.cells place := by
  obtain ⟨room, text, line, typing, here, numbered, cases⟩ := enter_cases entered
  have size := stores.size
  obtain ⟨cells', reads, _, _, _, frame⟩ :=
    enterLine_read (by omega : variablesBegin = s.programEnd + 4 + _) enough typing line here
  -- a line that is only looked at leaves the program as it was
  have kept : Stores ⟨cells', s.programEnd⟩ listing := by
    refine stores_of_lies size (stores.lies.congr fun place _ less => ?_) stores.lines
    exact frame place (.inl (by rw [size]; unfold Listing.size; omega))
  obtain ⟨much, rfl, rfl⟩ | ⟨small, short, fitting, rfl, rfl⟩ := cases
  · rw [if_neg numbered, if_pos much] at reads
    exact ⟨_, reads, by decide, kept, fun place beyond => frame place (.inr beyond)⟩
  · obtain ⟨cells, w, merging, waits, lies, free, fits, frame⟩ :=
      enterLine_merges even enough stores room typing here numbered small short
    obtain ⟨s', merged, ends, stored, frame'⟩ :=
      mergeLine_stores waits stores.lines lies free fits fitting enough
    rw [merged] at merging
    have letters := typed_letters typing
    have own : line.2 ≠ [] → Storable line := by
      subst here
      exact fun texted => storable_parts letters numbered small texted short
    exact ⟨s', merging, by decide, stores_of_lies ends stored (storable_merge stores.lines own),
      fun place beyond => (frame' place beyond).trans (frame place beyond)⟩

/-! ## LIST -/

theorem digits_step {n : Nat} (more : 0 < n / 10) :
    numeral n = numeral (n / 10) ++ [digit (n % 10)] := by
  rw [numeral, numeral, if_neg (by omega), if_neg (by omega),
    Nat.digits_def' (by decide) (by omega : 0 < n), List.reverse_cons, List.map_append]
  rfl

theorem numeral_single {n : Nat} (single : n / 10 = 0) : numeral n = [digit (n % 10)] := by
  by_cases zero : n = 0
  · subst zero
    rfl
  · rw [numeral, if_neg zero, Nat.digits_def' (by decide) (by omega : 0 < n), single,
      Nat.digits_zero]
    rfl

theorem numeral_length {n places : Nat} (small : n < 10 ^ (places + 1)) :
    (numeral n).length ≤ places + 1 := by
  induction places generalizing n with
  | zero =>
      rw [numeral_single (Nat.div_eq_of_lt small)]
      exact Nat.le_refl 1
  | succ places inductionHypothesis =>
      by_cases more : 0 < n / 10
      · rw [digits_step more, List.length_append]
        exact Nat.succ_le_succ (inductionHypothesis (by rw [Nat.pow_succ] at small; omega))
      · rw [numeral_single (by omega)]
        exact Nat.succ_le_succ (Nat.zero_le _)

/-- The digits stand on the stack, the first one on top. -/
theorem pushDigits_lies (cells : Cells) (digits : Nat) (fits : (numeral n).length ≤ sp) :
    ∃ cells',
      pushDigits cells sp n digits =
        (cells', sp - (numeral n).length, digits + (numeral n).length) ∧
      Lies cells' (sp - (numeral n).length) (numeral n) ∧
      ∀ place, place < sp - (numeral n).length ∨ sp ≤ place → cells' place = cells place := by
  induction n using Nat.strong_induction_on generalizing cells sp digits with
  | _ n inductionHypothesis =>
      rw [pushDigits]
      by_cases more : 0 < n / 10
      · have split := digits_step more
        have long : (numeral n).length = (numeral (n / 10)).length + 1 := by
          rw [split, List.length_append, List.length_singleton]
        obtain ⟨cells', pushes, lies, frame⟩ := @inductionHypothesis (n / 10) (by omega) (sp - 1)
          (Function.update cells (sp - 1) (byte '0' + BitVec.ofNat 8 (n % 10))) (digits + 1)
          (by omega)
        have top : sp - (numeral n).length = sp - 1 - (numeral (n / 10)).length := by omega
        have count : digits + (numeral n).length =
            digits + 1 + (numeral (n / 10)).length := by omega
        rw [dif_pos more, top, count]
        refine ⟨cells', pushes, ?_, fun place outside => ?_⟩
        · rw [split]
          refine lies_append.mpr ⟨lies, lies_single.mpr ?_⟩
          rw [frame _ (.inr (by omega)),
            show sp - 1 - (numeral (n / 10)).length + (numeral (n / 10)).length = sp - 1 by omega,
            Function.update_self]
          rfl
        · rw [frame place (by omega), Function.update_of_ne (by omega)]
      · have single := numeral_single (by omega : n / 10 = 0)
        rw [dif_neg more, single, List.length_singleton]
        rw [single, List.length_singleton] at fits
        refine ⟨_, rfl, lies_single.mpr (Function.update_self ..), fun place outside => ?_⟩
        exact Function.update_of_ne (by omega) ..

theorem popDigits_lies {text : Text} (lies : Lies cells sp text) :
    popDigits cells text.length sp = text := by
  induction text generalizing sp with
  | nil => rfl
  | cons c text inductionHypothesis =>
      obtain ⟨first, behind⟩ := lies_cons.mp lies
      rw [List.length_cons, popDigits, first, inductionHypothesis behind]

/-- `printnum` prints the number, and writes to the stack only. -/
theorem printnum_lies (cells : Cells) (fits : (numeral n).length ≤ sp) :
    ∃ cells', printnum cells sp n = (numeral n, cells') ∧
      ∀ place, place < sp - (numeral n).length ∨ sp ≤ place → cells' place = cells place := by
  obtain ⟨cells', pushes, lies, frame⟩ := pushDigits_lies cells 0 fits
  refine ⟨cells', ?_, frame⟩
  rw [printnum, pushes]
  dsimp only
  rw [Nat.zero_add, popDigits_lies lies]

theorem lineText_lies {body : Text} (free : NL ∉ body) (lies : Lies cells start (body ++ [NL]))
    (enough : body.length < fuel) :
    lineText cells fuel start = some (body, start + body.length) := by
  induction body generalizing fuel start with
  | nil =>
      cases fuel with
      | zero => exact absurd enough (Nat.not_lt_zero _)
      | succ fuel => exact if_pos (lies_single.mp lies)
  | cons c body inductionHypothesis =>
      cases fuel with
      | zero => exact absurd enough (Nat.not_lt_zero _)
      | succ fuel =>
          rw [List.length_cons] at enough
          obtain ⟨first, behind⟩ := lies_cons.mp lies
          have other : cells start ≠ NL := fun same =>
            free (List.mem_cons.mpr (.inl (same.symm.trans first)))
          rw [lineText, if_neg other, inductionHypothesis
            (fun among => free (List.mem_cons_of_mem c among)) behind
            (Nat.lt_of_succ_lt_succ enough), first, List.length_cons]
          exact congrArg (fun last => some (c :: body, last)) (by omega)

/-- `printline` prints a line and goes to the next one. -/
theorem printline_lies (fine : Storable l) (even : start % 2 = 0)
    (lies : Lies cells start (encodeLine l ++ more)) (enough : l.2.length < fuel)
    (under : start + lineSize l.2 + 5 ≤ sp) :
    ∃ cells', printline fuel sp cells start = some (printed l, start + lineSize l.2, cells') ∧
      ∀ place, place < sp - 5 ∨ sp ≤ place → cells' place = cells place := by
  have number := (header_read fine lies).1
  have digits : (numeral l.1).length ≤ 5 := numeral_length (Nat.lt_trans fine.small (by decide))
  obtain ⟨cells', prints, frame⟩ := @printnum_lies sp l.1 cells (by omega)
  have still : Lies cells' start (encodeLine l) :=
    (lies_append.mp lies).1.congr fun place _ less =>
      frame place (.inl (by rw [encodeLine_length] at less; omega))
  have text := lineText_lies (free_of_isTyped fine.typed) (text_read still) enough
  have next : (if (start + 3 + l.2.length + 1) % 2 = 0 then start + 3 + l.2.length + 1
      else start + 3 + l.2.length + 1 + 1) = start + lineSize l.2 := by
    unfold lineSize
    split_ifs <;> omega
  refine ⟨cells', ?_, fun place outside => frame place (by omega)⟩
  rw [printline, number, prints]
  simp only [Option.bind_eq_bind, text, Option.bind_some, next]
  rfl

theorem printlines_lies (fine : ∀ l ∈ lines, Storable l) (even : start % 2 = 0)
    (lies : Lies cells start (encode lines)) (ends : programEnd = start + (encode lines).length)
    (enough : (encode lines).length < fuel) (under : programEnd + 5 ≤ sp) {rounds : Nat}
    (turns : lines.length < rounds) :
    ∃ cells', printlines fuel sp programEnd rounds cells start =
        some (lines.flatMap printed, cells') ∧
      ∀ place, place < sp - 5 ∨ sp ≤ place → cells' place = cells place := by
  induction lines generalizing rounds start cells with
  | nil =>
      cases rounds with
      | zero => exact absurd turns (Nat.not_lt_zero _)
      | succ rounds => exact ⟨cells, if_pos ends.symm, fun _ _ => rfl⟩
  | cons l lines inductionHypothesis =>
      cases rounds with
      | zero => exact absurd turns (Nat.not_lt_zero _)
      | succ rounds =>
          have size := lineSize_even l.2
          have positive : l.2.length + 4 ≤ lineSize l.2 := Nat.le_add_right _ _
          rw [encode_cons] at lies ends enough
          rw [List.length_append, encodeLine_length] at ends enough
          have behind := (lies_append.mp lies).2
          rw [encodeLine_length] at behind
          obtain ⟨cells', first, frame⟩ := @printline_lies cells l (encode lines) start fuel sp
            (fine l List.mem_cons_self) even lies (by omega) (by omega)
          obtain ⟨cells'', rest, frame'⟩ := inductionHypothesis
            (fun m among => fine m (List.mem_cons_of_mem l among)) (by omega)
            (behind.congr fun place _ less => frame place (.inl (by omega))) (by omega) (by omega)
            (Nat.lt_of_succ_lt_succ turns)
          refine ⟨cells'', ?_, fun place outside =>
            (frame' place outside).trans (frame place outside)⟩
          rw [printlines, if_neg (by omega), first]
          simp only [Option.bind_eq_bind, Option.bind_some, rest]
          rfl

theorem entries_from (listing : Listing) (n : Nat) :
    (listing.entries.filter fun l => n ≤ l.1) =
      entryOf n (listing.lookup n) ++ beyond n listing.entries := by
  have split := listing.entries_split n
  have before : ((below n listing.entries).filter fun l => n ≤ l.1) = [] := by
    refine List.filter_eq_nil_iff.mpr fun l among not_less => ?_
    exact absurd (of_decide_eq_true not_less) (Nat.not_le_of_lt (OrderedMap.mem_below.mp among).2)
  have behind : ((entryOf n (listing.lookup n) ++ beyond n listing.entries).filter
      fun l => n ≤ l.1) = entryOf n (listing.lookup n) ++ beyond n listing.entries :=
    List.filter_eq_self.mpr fun l among => decide_eq_true (from_number listing n l among)
  conv_lhs => rw [split]
  rw [List.filter_append, before, behind, List.nil_append]

/-- `LIST` prints the lines from its number on. -/
theorem list_prints {s : Store} (stores : Stores s listing) (enough : listing.size < fuel)
    (under : listing.size + 5 ≤ sp) {text : Text} (alone : charAt (testnum text).2 0 = NL) :
    ∃ s', list fuel sp s text =
        some ((.warmstart, listing.printedFrom (testnum text).1), s') ∧ Stores s' listing ∧
      ∀ place, place < sp - 5 ∨ sp ≤ place → s'.cells place = s.cells place := by
  have size := stores.size
  rw [list]
  generalize testnum text = parsed at alone ⊢
  obtain ⟨n, rest⟩ := parsed
  dsimp only at alone ⊢
  rw [if_neg (not_not.mpr alone), Listing.printedFrom, entries_from, size]
  have found := findline_listing stores.lines stores.lies enough n
  have split := listing.entries_split n
  have whole := stores.lies
  rw [split, encode_append] at whole
  have behind := (lies_append.mp whole).2
  rw [Nat.zero_add] at behind
  have total : listing.size = (encode (below n listing.entries)).length +
      (encode (entryOf n (listing.lookup n) ++ beyond n listing.entries)).length := by
    rw [← List.length_append, ← encode_append, ← split]
    rfl
  have fine : ∀ l ∈ entryOf n (listing.lookup n) ++ beyond n listing.entries, Storable l :=
    fun l among => stores.lines l (split ▸ List.mem_append_right _ among)
  have longer := encode_longer (entryOf n (listing.lookup n) ++ beyond n listing.entries)
  obtain ⟨cells', prints, frame⟩ := @printlines_lies s.cells _ listing.size _ fuel sp fine
    (encode_even _) behind total (by omega) under fuel (by omega)
  refine ⟨⟨cells', listing.size⟩, ?_, ?_, frame⟩
  · simp only [found, Option.bind_eq_bind, Option.bind_some, prints]
    rfl
  · refine stores_of_lies rfl (stores.lies.congr fun place _ less => frame place (.inl ?_))
      stores.lines
    have isSize : (encode listing.entries).length = listing.size := rfl
    omega

/-! ## Sessions -/

theorem enter_room {keys : List Byte} {outcome : Outcome} {next : Listing}
    (room : listing.size ≤ variablesBegin)
    (entered : listing.enter variablesBegin keys = some (outcome, next)) :
    next.size ≤ variablesBegin := by
  obtain ⟨_, _, _, _, _, _, ⟨_, _, rfl⟩ | ⟨_, _, fits, _, rfl⟩⟩ := enter_cases entered
  · exact room
  · exact fits.le

theorem step_stores {s : Store} {event : Event} {answer : Answer} {next : Listing}
    (even : variablesBegin % 2 = 0) (enough : variablesBegin < fuel)
    (under : variablesBegin + 5 ≤ sp) (stores : Stores s listing)
    (room : listing.size ≤ variablesBegin)
    (stepped : listing.step variablesBegin event = some (answer, next)) :
    ∃ s', s.step fuel variablesBegin sp event = some (answer, s') ∧ Stores s' next ∧
      next.size ≤ variablesBegin ∧
      ∀ place, variablesBegin ≤ place → place < sp - 5 ∨ sp ≤ place →
        s'.cells place = s.cells place := by
  cases event with
  | line keys =>
      obtain ⟨entered, known, same⟩ := Option.map_eq_some_iff.mp stepped
      obtain ⟨outcome, listing'⟩ := entered
      obtain ⟨rfl, rfl⟩ := Prod.mk.inj same
      obtain ⟨s', returns, followed, stores', frame⟩ := enterLine_stores even enough stores known
      refine ⟨s', ?_, stores', enter_room room known, fun place beyond _ => frame place beyond⟩
      rw [Store.step, returns, Option.bind_some, if_neg followed]
  | new text =>
      rw [Listing.step] at stepped
      split at stepped
      · cases stepped
      · next known =>
          obtain ⟨rfl, rfl⟩ := Prod.mk.inj (Option.some_inj.mp stepped)
          refine ⟨⟨s.cells, 0⟩, ?_, stores_empty rfl, Nat.zero_le _, fun _ _ _ => rfl⟩
          have cleared : clear s text = (.prompt, ⟨s.cells, 0⟩) := if_neg (not_or.mp known).2
          rw [Store.step, cleared]
          rfl
  | list text =>
      rw [Listing.step] at stepped
      split at stepped
      · cases stepped
      · next known =>
          obtain ⟨rfl, rfl⟩ := Prod.mk.inj (Option.some_inj.mp stepped)
          obtain ⟨s', prints, stores', frame⟩ := @list_prints fuel sp _ s stores (by omega)
            (by omega) text (not_not.mp (not_or.mp known).2)
          refine ⟨s', ?_, stores', room, fun place _ outside => frame place outside⟩
          rw [Store.step, prints]
          rfl

/-- Three lines, of which one is put in front and one is erased again, behind a line that `NEW`
takes out. The end is a `LIST` from line 20 on. -/
def threeLines : List Event :=
  [.line (keysOf ['5', 'X']), .new [NL], .line (keysOf ['2', '0', ' ', 'b']),
    .line (keysOf ['1', '0', ' ', 'A', '1']), .line (keysOf ['2', '0']),
    .line (keysOf ['3', '0', 'c']), .list [byte '2', byte '0', NL]]

def threeEntries : List Line := [(10, [byte 'A', byte '1']), (30, [byte 'C'])]

theorem threeLines_run : ∃ answers last,
    session (Listing.step 64) threeLines OrderedMap.empty = some (answers, last) ∧
      last.entries = threeEntries := ⟨_, _, rfl, rfl⟩

theorem typed_whole {room : Nat} {text line : Text} (all : ∀ c ∈ text, isTyped c = true)
    (fits : line.length + text.length ≤ room) :
    typed room (text ++ [NL]) line = some (line ++ text) := by
  induction text generalizing line with
  | nil => exact congrArg some (List.append_nil line).symm
  | cons c text inductionHypothesis =>
      obtain ⟨first, behind⟩ := List.forall_mem_cons.mp all
      simp only [isTyped, Bool.and_eq_true, decide_eq_true_eq] at first
      obtain ⟨⟨⟨escape, newline⟩, enter⟩, back⟩ := first
      rw [List.length_cons] at fits
      have longer : (line ++ [c]).length = line.length + 1 := List.length_append
      rw [List.cons_append, typed, if_neg escape, if_neg (by tauto), if_neg back, if_neg (by omega),
        inductionHypothesis behind (by omega), List.append_assoc, List.singleton_append]

theorem digit_facts : ∀ d < 10, isDigit (digit d) = true ∧ (digit d).toNat = 48 + d := by
  decide

theorem numeral_digits (n : Nat) : ∀ c ∈ numeral n, isDigit c = true := by
  induction n using Nat.strong_induction_on with
  | _ n inductionHypothesis =>
      have last := (digit_facts (n % 10) (by omega)).1
      intro c among
      by_cases more : 0 < n / 10
      · rw [digits_step more] at among
        rcases List.mem_append.mp among with before | here
        · exact inductionHypothesis (n / 10) (by omega) c before
        · exact List.mem_singleton.mp here ▸ last
      · rw [numeral_single (by omega)] at among
        exact List.mem_singleton.mp among ▸ last

theorem testnumLoop_numeral {n : Nat} (small : n < 65530) (text : Text) :
    testnumLoop 0 (numeral n ++ text) = testnumLoop n text := by
  induction n using Nat.strong_induction_on generalizing text with
  | _ n inductionHypothesis =>
      obtain ⟨last, value⟩ := digit_facts (n % 10) (by omega)
      by_cases more : 0 < n / 10
      · rw [digits_step more, List.append_assoc, List.singleton_append,
          inductionHypothesis (n / 10) (by omega) (by omega), testnumLoop, if_pos last,
          if_neg (by omega), value]
        exact congrArg (testnumLoop · text) (by omega)
      · rw [numeral_single (by omega), List.singleton_append, testnumLoop, if_pos last,
          if_neg (by omega), value]
        exact congrArg (testnumLoop · text) (by omega)

theorem numeral_some (n : Nat) : numeral n ≠ [] := by
  by_cases more : 0 < n / 10
  · rw [digits_step more]
    exact List.append_ne_nil_of_right_ne_nil _ (List.cons_ne_nil _ _)
  · rw [numeral_single (by omega)]
    exact List.cons_ne_nil _ _

theorem digit_unblank {c : Byte} (digit : isDigit c = true) : ¬ (c = SPACE ∨ c = TAB) := by
  revert c
  decide

theorem digit_typed {c : Byte} (digit : isDigit c = true) : isTyped c = true := by
  revert c
  decide

theorem parts_printed (fine : Storable l) : parts (numeral l.1 ++ SPACE :: l.2) = l := by
  have front : skipBlanks (numeral l.1 ++ SPACE :: l.2) = numeral l.1 ++ SPACE :: l.2 := by
    cases starts : numeral l.1 with
    | nil => exact absurd starts (numeral_some l.1)
    | cons c rest =>
        have digit := numeral_digits l.1 c (starts ▸ List.mem_cons_self)
        exact skipBlanks_other (digit_unblank digit) _
  have number : testnum (numeral l.1 ++ SPACE :: l.2) = (l.1, SPACE :: l.2) := by
    rw [testnum, front, testnumLoop_numeral fine.small]
    rfl
  rw [parts, number]
  exact Prod.ext rfl ((skipBlanks_blank (.inl rfl) l.2).trans fine.still)

theorem capital_front {front : Text} (plain : ∀ c ∈ front, isPlain c = true) (text : Text) :
    uppercased 0 (front ++ text) = front ++ uppercased 0 text := by
  induction front with
  | nil => rfl
  | cons c front inductionHypothesis =>
      obtain ⟨first, behind⟩ := List.forall_mem_cons.mp plain
      rw [List.cons_append, uppercased_plain first, inductionHypothesis behind, List.cons_append]

theorem capital_printed (fine : Storable l) :
    uppercased 0 (numeral l.1 ++ SPACE :: l.2) = numeral l.1 ++ SPACE :: l.2 := by
  rw [capital_front fun c among => digit_plain (numeral_digits l.1 c among),
    uppercased_plain (blank_plain (.inl rfl)), fine.capital]

theorem merge_last (texted : l.2 ≠ []) (less : ∀ m ∈ listing.entries, m.1 < l.1) :
    (listing.merge l).entries = listing.entries ++ [l] := by
  have front : below l.1 listing.entries = listing.entries :=
    List.filter_eq_self.mpr fun m among => decide_eq_true (less m among)
  have back : beyond l.1 listing.entries = [] :=
    List.filter_eq_nil_iff.mpr fun m among greater =>
      absurd (of_decide_eq_true greater) (Nat.lt_asymm (less m among))
  rw [merge_entries, if_neg texted, front, back]
  rfl

theorem enter_printed (fine : Storable l) (less : ∀ m ∈ listing.entries, m.1 < l.1)
    (room : listing.size + lineSize l.2 + 6 ≤ variablesBegin) :
    listing.enter variablesBegin (printed l) = some (.prompt, listing.merge l) := by
  have size : lineSize l.2 = l.2.length + 4 + l.2.length % 2 := rfl
  have longer : (listing.merge l).size = listing.size + lineSize l.2 := by
    rw [Listing.size, merge_last fine.texted less, encode_insert, List.append_nil]
    rfl
  have all : ∀ c ∈ numeral l.1 ++ SPACE :: l.2, isTyped c = true := by
    intro c among
    rcases List.mem_append.mp among with number | rest
    · exact digit_typed (numeral_digits l.1 c number)
    · rcases List.mem_cons.mp rest with rfl | body
      · rfl
      · exact fine.typed c body
  have short : (numeral l.1).length ≤ 5 := numeral_length (Nat.lt_trans fine.small (by decide))
  have fits : ([] : Text).length + (numeral l.1 ++ SPACE :: l.2).length ≤
      variablesBegin - 4 - listing.size := by
    rw [List.length_nil, List.length_append, List.length_cons]
    omega
  have typing := typed_whole all fits
  have small := fine.small
  have few := fine.short
  rw [Listing.enter, if_neg (by omega), printed]
  simp only [Option.bind_eq_bind]
  rw [typing, Option.bind_some, List.nil_append, capital_printed fine, parts_printed fine]
  rw [if_neg fine.numbered, if_neg (by omega), if_neg (by omega)]

theorem session_printed (rest : List Line) {done : Listing}
    (fine : ∀ l ∈ done.entries ++ rest, Storable l)
    (ascending : (done.entries ++ rest).Pairwise fun first second => first.1 < second.1)
    (room : (encode (done.entries ++ rest)).length + 6 ≤ variablesBegin) :
    ∃ answers last, session (Listing.step variablesBegin)
        (rest.map fun l => Event.line (printed l)) done = some (answers, last) ∧
      last.entries = done.entries ++ rest := by
  induction rest generalizing done with
  | nil => exact ⟨[], done, rfl, (List.append_nil _).symm⟩
  | cons l rest inductionHypothesis =>
      have own := fine l (List.mem_append_right _ List.mem_cons_self)
      have less : ∀ m ∈ done.entries, m.1 < l.1 := fun m among =>
        (List.pairwise_append.mp ascending).2.2 m among l List.mem_cons_self
      have longer := encode_insert l done.entries rest
      have front : done.size ≤ (encode (done.entries ++ rest)).length := by
        rw [encode_append, List.length_append]
        exact Nat.le_add_right _ _
      have entered := enter_printed own less (by omega : _ ≤ variablesBegin)
      have whole : (done.merge l).entries ++ rest = done.entries ++ l :: rest := by
        rw [merge_last own.texted less, List.append_assoc, List.singleton_append]
      rw [← whole] at fine ascending room
      obtain ⟨answers, last, run, ends⟩ := inductionHypothesis fine ascending room
      refine ⟨(.prompt, []) :: answers, last, ?_, ends.trans whole⟩
      rw [List.map_cons, session, Listing.step, entered]
      simp only [Option.map_some, Option.bind_eq_bind, Option.bind_some, run]
      rfl

end OrionBios.TinyBasic
