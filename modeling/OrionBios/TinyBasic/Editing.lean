import OrionBios.TinyBasic.Program

/-!
# Editing the program

The interpreter keeps the program that is entered, line by line.
-/

namespace OrionBios.TinyBasic

open Buffers
open Machine (OrderedMap)

variable {cells : Cells} {line text rest : Text} {keys : List Byte} {quote : Byte}
  {variablesBegin programEnd place room start fuel : Nat}

/-! ## The line that is typed -/

theorem typed_isTyped {last : Text} (typing : typed room keys line = some last)
    (all : ∀ c ∈ line, isTyped c = true) : ∀ c ∈ last, isTyped c = true := by
  induction keys generalizing line with
  | nil => exact absurd typing.symm (Option.some_ne_none last)
  | cons c keys inductionHypothesis =>
      rw [typed] at typing
      by_cases escape : c = PS2_ESC
      · rw [if_pos escape] at typing
        exact absurd typing.symm (Option.some_ne_none last)
      rw [if_neg escape] at typing
      by_cases ended : c = NL ∨ c = CR
      · rw [if_pos ended] at typing
        exact Option.some_inj.mp typing ▸ all
      rw [if_neg ended] at typing
      by_cases back : c = CTRLH
      · rw [if_pos back] at typing
        by_cases none : line = []
        · rw [if_pos none] at typing
          exact absurd typing.symm (Option.some_ne_none last)
        · rw [if_neg none] at typing
          exact inductionHypothesis typing fun d among => all d (List.dropLast_subset line among)
      rw [if_neg back] at typing
      by_cases full : line.length = room
      · rw [if_pos full] at typing
        exact inductionHypothesis typing all
      · rw [if_neg full] at typing
        refine inductionHypothesis typing fun d among => ?_
        rcases List.mem_append.mp among with before | new
        · exact all d before
        · rw [List.mem_singleton.mp new, isTyped]
          simp only [not_or] at ended
          simp [escape, ended, back]

theorem typed_letters {last : Text} (typing : typed room keys [] = some last) :
    ∀ c ∈ last, isTyped c = true :=
  typed_isTyped typing fun _ among => absurd among List.not_mem_nil

/-- `getln` leaves the line that the keys make. -/
theorem getln_typed (fits : variablesBegin = programEnd + 4 + room) {last : Text}
    (typing : typed room keys line = some last) (lies : Lies cells (programEnd + 2) line)
    (within : line.length ≤ room) :
    ∃ cells',
      getln variablesBegin programEnd keys (programEnd + 2 + line.length) cells = some cells' ∧
      Lies cells' (programEnd + 2) (last ++ [NL]) ∧ last.length ≤ room ∧
      ∀ place, place < programEnd + 2 ∨ variablesBegin ≤ place → cells' place = cells place := by
  induction keys generalizing line cells with
  | nil => exact absurd typing.symm (Option.some_ne_none last)
  | cons c keys inductionHypothesis =>
      rw [typed] at typing
      rw [getln]
      by_cases escape : c = PS2_ESC
      · rw [if_pos escape] at typing
        exact absurd typing.symm (Option.some_ne_none last)
      rw [if_neg escape] at typing ⊢
      by_cases ended : c = NL ∨ c = CR
      · rw [if_pos ended] at typing ⊢
        obtain rfl := Option.some_inj.mp typing
        refine ⟨_, rfl, ?_, within, fun place outside => Function.update_of_ne (by omega) _ _⟩
        refine lies_append.mpr ⟨?_, lies_single.mpr (Function.update_self ..)⟩
        exact lies.congr fun place _ less => Function.update_of_ne (by omega) _ _
      rw [if_neg ended] at typing ⊢
      by_cases back : c = CTRLH
      · rw [if_pos back] at typing ⊢
        by_cases none : line = []
        · rw [if_pos none] at typing
          exact absurd typing.symm (Option.some_ne_none last)
        rw [if_neg none] at typing
        have longer := List.length_pos_iff.mpr none
        have shorter : line.dropLast.length = line.length - 1 := List.length_dropLast
        rw [if_neg (by omega), show programEnd + 2 + line.length - 1 =
          programEnd + 2 + line.dropLast.length by omega]
        refine inductionHypothesis typing ?_ (by omega)
        rw [← List.dropLast_append_getLast none] at lies
        exact (lies_append.mp lies).1
      rw [if_neg back] at typing ⊢
      by_cases full : line.length = room
      · rw [if_pos full] at typing
        rw [if_pos (by omega)]
        exact inductionHypothesis typing lies within
      · rw [if_neg full] at typing
        have longer : (line ++ [c]).length = line.length + 1 := List.length_append
        rw [if_neg (by omega), Nat.add_assoc (programEnd + 2), ← longer]
        have lies' : Lies (Function.update cells (programEnd + 2 + line.length) c) (programEnd + 2)
            (line ++ [c]) :=
          lies_append.mpr ⟨lies.congr fun place _ less => Function.update_of_ne (by omega) _ _,
            lies_single.mpr (Function.update_self ..)⟩
        obtain ⟨cells', returns, ends, short, frame⟩ :=
          inductionHypothesis typing lies' (by omega)
        refine ⟨cells', returns, ends, short, fun place outside => ?_⟩
        rw [frame place outside, Function.update_of_ne (by omega)]

theorem uppercased_length (quote : Byte) (text : Text) :
    (uppercased quote text).length = text.length := by
  induction text generalizing quote with
  | nil => rfl
  | cons c rest inductionHypothesis =>
      rw [uppercased]
      split_ifs <;> exact congrArg (· + 1) (inductionHypothesis _)

/-- `toUppercaseBuffer` comes to the end of the line. -/
theorem toUppercaseBuffer_lies (quote : Byte) (free : NL ∉ text)
    (lies : Lies cells start (text ++ [NL])) (enough : text.length < fuel) :
    ∃ cells', toUppercaseBuffer fuel cells start quote = some cells' ∧
      Lies cells' start (uppercased quote text ++ [NL]) ∧
      ∀ place, place < start ∨ start + text.length ≤ place → cells' place = cells place := by
  induction text generalizing fuel cells start quote with
  | nil =>
      cases fuel with
      | zero => exact absurd enough (Nat.not_lt_zero _)
      | succ fuel =>
          rw [toUppercaseBuffer, if_pos (lies_single.mp lies)]
          exact ⟨cells, rfl, lies, fun _ _ => rfl⟩
  | cons c text inductionHypothesis =>
      cases fuel with
      | zero => exact absurd enough (Nat.not_lt_zero _)
      | succ fuel =>
          rw [List.length_cons] at enough
          obtain ⟨first, behind⟩ := lies_cons.mp lies
          have other : c ≠ NL := fun same => free (same ▸ List.mem_cons_self)
          have free' : NL ∉ text := fun among => free (List.mem_cons_of_mem c among)
          -- one character may change, and the rest is the same loop
          have onward (d next : Byte) : ∃ cells',
              toUppercaseBuffer fuel (Function.update cells start d) (start + 1) next =
                some cells' ∧
              Lies cells' start (d :: uppercased next text ++ [NL]) ∧
              ∀ place, place < start ∨ start + (c :: text).length ≤ place →
                cells' place = cells place := by
            have behind' : Lies (Function.update cells start d) (start + 1) (text ++ [NL]) :=
              behind.congr fun place low _ => Function.update_of_ne (by omega) _ _
            obtain ⟨cells', returns, ends, frame⟩ :=
              inductionHypothesis next free' behind' (Nat.lt_of_succ_lt_succ enough)
            refine ⟨cells', returns, lies_cons.mpr ⟨?_, ends⟩, fun place outside => ?_⟩
            · rw [frame start (.inl (Nat.lt_succ_self start)), Function.update_self]
            · rw [List.length_cons] at outside
              rw [frame place (by omega), Function.update_of_ne (by omega)]
          have same : Function.update cells start c = cells := first ▸ Function.update_eq_self ..
          have kept := onward c
          simp only [same] at kept
          rw [toUppercaseBuffer, uppercased, first, if_neg other]
          split_ifs
          · exact kept 0
          · exact kept c
          · exact onward _ quote
          · exact kept quote

theorem findNL_lies (free : NL ∉ text) (lies : Lies cells start (text ++ [NL]))
    (enough : text.length < fuel) : findNL cells fuel start = some (start + text.length) := by
  induction text generalizing fuel start with
  | nil =>
      cases fuel with
      | zero => exact absurd enough (Nat.not_lt_zero _)
      | succ fuel => exact if_pos (lies_single.mp lies)
  | cons c text inductionHypothesis =>
      cases fuel with
      | zero => exact absurd enough (Nat.not_lt_zero _)
      | succ fuel =>
          rw [List.length_cons] at enough
          obtain ⟨first, behind⟩ := lies_cons.mp lies
          have other : cells start ≠ NL := fun same =>
            free (List.mem_cons.mpr (.inl (same.symm.trans first)))
          rw [findNL, if_neg other, inductionHypothesis
            (fun among => free (List.mem_cons_of_mem c among)) behind
            (Nat.lt_of_succ_lt_succ enough), List.length_cons]
          exact congrArg some (by omega)

theorem capital_isTyped {c : Byte} (small : byte 'a' ≤ c ∧ c ≤ byte 'z') :
    isTyped (c + byte 'A' - byte 'a') = true := by
  revert c
  decide

theorem uppercased_isTyped (all : ∀ c ∈ text, isTyped c = true) :
    ∀ c ∈ uppercased quote text, isTyped c = true := by
  induction text generalizing quote with
  | nil => exact all
  | cons c text inductionHypothesis =>
      obtain ⟨first, behind⟩ := List.forall_mem_cons.mp all
      rw [uppercased]
      split_ifs with _ _ small
      · exact List.forall_mem_cons.mpr ⟨first, inductionHypothesis behind⟩
      · exact List.forall_mem_cons.mpr ⟨first, inductionHypothesis behind⟩
      · exact List.forall_mem_cons.mpr ⟨capital_isTyped small.2, inductionHypothesis behind⟩
      · exact List.forall_mem_cons.mpr ⟨first, inductionHypothesis behind⟩

theorem free_of_isTyped (all : ∀ c ∈ text, isTyped c = true) : NL ∉ text :=
  fun among => absurd (all NL among) (by decide)

theorem readLine_typed {s : Store} (fits : variablesBegin = s.programEnd + 4 + room)
    (enough : variablesBegin < fuel) (typing : typed room keys [] = some text) :
    ∃ cells', readLine fuel variablesBegin keys s = some (cells', uppercased 0 text ++ [NL]) ∧
      Lies cells' (variablesBegin - (text.length + 1)) (uppercased 0 text ++ [NL]) ∧
      text.length ≤ room ∧
      ∀ place, place < s.programEnd + 2 ∨ variablesBegin ≤ place →
        cells' place = s.cells place := by
  have letters := typed_letters typing
  obtain ⟨first, entered, lies, short, frame⟩ :=
    getln_typed fits typing (lies_nil : Lies s.cells _ []) (Nat.zero_le room)
  obtain ⟨second, raised, lies', frame'⟩ :=
    toUppercaseBuffer_lies 0 (free_of_isTyped letters) lies (by omega : _ < fuel)
  have long : (uppercased 0 text).length = text.length := uppercased_length 0 text
  have found := findNL_lies (free_of_isTyped (uppercased_isTyped letters)) lies'
    (by omega : _ < fuel)
  have count : s.programEnd + 2 + text.length + 1 - (s.programEnd + 2) = text.length + 1 := by omega
  have size : (uppercased 0 text ++ [NL]).length = text.length + 1 := by
    rw [List.length_append, long]
    rfl
  have moved : Lies (moveBack (text.length + 1) second variablesBegin
      (s.programEnd + 2 + text.length + 1)) (variablesBegin - (text.length + 1))
      (uppercased 0 text ++ [NL]) := by
    rw [moveBack_eq_move (by omega) (by omega), ← size,
      show s.programEnd + 2 + text.length + 1 - (uppercased 0 text ++ [NL]).length =
        s.programEnd + 2 by omega]
    exact lies'.moved
  refine ⟨moveBack (text.length + 1) second variablesBegin (s.programEnd + 2 + text.length + 1),
    ?_, moved, short, fun place outside => ?_⟩
  · rw [List.length_nil, Nat.add_zero] at entered
    rw [long] at found
    rw [readLine]
    simp only [entered, raised, found, Option.bind_eq_bind, Option.bind_some, count]
    rw [moved.read size]
    rfl
  · rw [moveBack_eq_move (by omega) (by omega), move_outside (by omega), frame' place (by omega),
      frame place outside]

/-! ## The number and the text -/

theorem skipBlanks_end (text : Text) : skipBlanks (text ++ [NL]) = skipBlanks text ++ [NL] := by
  induction text with
  | nil => rfl
  | cons c text inductionHypothesis =>
      by_cases blank : c = SPACE ∨ c = TAB
      · rw [List.cons_append, skipBlanks_blank blank, skipBlanks_blank blank, inductionHypothesis]
      · rw [List.cons_append, skipBlanks_other blank, skipBlanks_other blank, List.cons_append]

theorem testnumLoop_end (num : Nat) (text : Text) :
    testnumLoop num (text ++ [NL]) =
      ((testnumLoop num text).1, (testnumLoop num text).2 ++ [NL]) := by
  induction text generalizing num with
  | nil => rfl
  | cons c text inductionHypothesis =>
      rw [List.cons_append, testnumLoop, testnumLoop]
      split_ifs
      · rfl
      · exact inductionHypothesis _
      · rfl

theorem testnum_end (text : Text) :
    testnum (text ++ [NL]) = ((testnum text).1, (testnum text).2 ++ [NL]) := by
  rw [testnum, skipBlanks_end, testnumLoop_end]
  rfl

theorem digit_value {c : Byte} (digit : isDigit c = true) : 48 ≤ c.toNat ∧ c.toNat ≤ 57 := by
  revert c
  decide

theorem testnumLoop_small {num : Nat} (small : num < 65530) (text : Text) :
    (testnumLoop num text).1 = 0xFFFF ∨ (testnumLoop num text).1 < 65530 := by
  induction text generalizing num with
  | nil => exact .inr small
  | cons c text inductionHypothesis =>
      rw [testnumLoop]
      split_ifs with digit much
      · exact .inl rfl
      · have value := digit_value digit
        exact inductionHypothesis (by omega)
      · exact .inr small

theorem testnumLoop_suffix (num : Nat) (text : Text) : (testnumLoop num text).2 <:+ text := by
  induction text generalizing num with
  | nil => exact List.suffix_rfl
  | cons c text inductionHypothesis =>
      rw [testnumLoop]
      split_ifs
      · exact List.suffix_rfl
      · exact (inductionHypothesis _).trans (List.suffix_cons c text)
      · exact List.suffix_rfl

/-- There is a number only where there is a digit. -/
theorem testnumLoop_shorter (numbered : (testnumLoop 0 text).1 ≠ 0) :
    (testnumLoop 0 text).2.length < text.length := by
  cases text with
  | nil => exact absurd rfl numbered
  | cons c text =>
      rw [testnumLoop] at numbered ⊢
      by_cases digit : isDigit c = true
      · rw [if_pos digit, if_neg (by decide)]
        exact Nat.lt_succ_of_le (testnumLoop_suffix _ text).length_le
      · rw [if_neg digit] at numbered
        exact absurd rfl numbered

theorem parts_suffix (text : Text) : (parts text).2 <:+ text :=
  (List.dropWhile_suffix _).trans ((testnumLoop_suffix 0 _).trans (List.dropWhile_suffix _))

theorem parts_shorter (numbered : (parts text).1 ≠ 0) : (parts text).2.length < text.length :=
  Nat.lt_of_le_of_lt (List.dropWhile_suffix _).length_le
    (Nat.lt_of_lt_of_le (testnumLoop_shorter numbered) (List.dropWhile_suffix _).length_le)

/-! ## What is stored -/

/-- The character is neither quoted nor a letter that is raised. -/
def isPlain (c : Byte) : Bool :=
  c ≠ 0 && c ≠ DQUOTE && c ≠ SQUOTE && !(byte 'a' ≤ c && c ≤ byte 'z')

theorem uppercased_plain {c : Byte} (plain : isPlain c = true) (text : Text) :
    uppercased 0 (c :: text) = c :: uppercased 0 text := by
  simp only [isPlain, Bool.and_eq_true, decide_eq_true_eq, Bool.not_eq_true', Bool.and_eq_false_iff,
    decide_eq_false_iff_not] at plain
  obtain ⟨⟨⟨some, double⟩, single⟩, other⟩ := plain
  rw [uppercased, if_neg some, if_neg (by tauto), if_neg (by tauto)]

theorem blank_plain {c : Byte} (blank : c = SPACE ∨ c = TAB) : isPlain c = true := by
  rcases blank with rfl | rfl <;> rfl

theorem digit_plain {c : Byte} (digit : isDigit c = true) : isPlain c = true := by
  revert c
  decide

theorem capital_plain {c : Byte} (small : byte 'a' ≤ c ∧ c ≤ byte 'z') :
    isPlain (c + byte 'A' - byte 'a') = true := by
  revert c
  decide

theorem uppercased_again (quote : Byte) (text : Text) :
    uppercased quote (uppercased quote text) = uppercased quote text := by
  induction text generalizing quote with
  | nil => rfl
  | cons c text inductionHypothesis =>
      rw [uppercased]
      split_ifs with same quoted small
      · rw [uppercased, if_pos same, inductionHypothesis]
      · rw [uppercased, if_neg same, if_pos quoted, inductionHypothesis]
      · obtain ⟨rfl, small⟩ := small
        rw [uppercased_plain (capital_plain small), inductionHypothesis]
      · rw [uppercased, if_neg same, if_neg quoted, if_neg small, inductionHypothesis]

theorem capital_behind {c : Byte} (plain : isPlain c = true)
    (capital : uppercased 0 (c :: text) = c :: text) : uppercased 0 text = text :=
  List.tail_eq_of_cons_eq ((uppercased_plain plain text).symm.trans capital)

theorem capital_skipBlanks (capital : uppercased 0 text = text) :
    uppercased 0 (skipBlanks text) = skipBlanks text := by
  induction text with
  | nil => rfl
  | cons c text inductionHypothesis =>
      by_cases blank : c = SPACE ∨ c = TAB
      · rw [skipBlanks_blank blank]
        exact inductionHypothesis (capital_behind (blank_plain blank) capital)
      · rw [skipBlanks_other blank]
        exact capital

theorem capital_testnumLoop (num : Nat) (capital : uppercased 0 text = text) :
    uppercased 0 (testnumLoop num text).2 = (testnumLoop num text).2 := by
  induction text generalizing num with
  | nil => rfl
  | cons c text inductionHypothesis =>
      rw [testnumLoop]
      split_ifs with digit
      · exact capital
      · exact inductionHypothesis _ (capital_behind (digit_plain digit) capital)
      · exact capital

theorem storable_parts (letters : ∀ c ∈ text, isTyped c = true)
    (numbered : (parts (uppercased 0 text)).1 ≠ 0)
    (small : (parts (uppercased 0 text)).1 ≠ 0xFFFF)
    (texted : (parts (uppercased 0 text)).2 ≠ [])
    (short : (parts (uppercased 0 text)).2.length ≤ 250) :
    Storable (parts (uppercased 0 text)) where
  numbered := numbered
  small := (testnumLoop_small (by decide) _).resolve_left small
  texted := texted
  short := short
  typed c among := uppercased_isTyped letters c ((parts_suffix _).subset among)
  still := skipBlanks_again _
  capital := capital_skipBlanks
    (capital_testnumLoop 0 (capital_skipBlanks (uppercased_again 0 text)))

/-! ## The header -/

theorem lineSize_even (body : Text) : lineSize body % 2 = 0 := by
  unfold lineSize
  omega

theorem encodeLine_length (l : Line) : (encodeLine l).length = lineSize l.2 := by
  simp only [encodeLine, List.length_cons, List.length_append, List.length_replicate, lineSize]
  omega

theorem withHeader_lies {linenum linelen : Nat} (lies : Lies cells (start + 3) text) :
    Lies (withHeader cells start linenum linelen) start
      (BitVec.ofNat 8 (linenum / 256) :: BitVec.ofNat 8 linenum :: BitVec.ofNat 8 linelen ::
        text) := by
  have second : start ≠ start + 1 := by omega
  have third : start ≠ start + 2 := by omega
  have third' : start + 1 ≠ start + 2 := by omega
  refine lies_cons.mpr ⟨?_, lies_cons.mpr ⟨?_, lies_cons.mpr ⟨?_, ?_⟩⟩⟩
  · rw [withHeader, Function.update_of_ne third, Function.update_of_ne second, Function.update_self]
  · rw [withHeader, Function.update_of_ne third', Function.update_self]
  · exact Function.update_self ..
  · refine lies.congr fun place low _ => ?_
    rw [withHeader, Function.update_of_ne (by omega), Function.update_of_ne (by omega),
      Function.update_of_ne (by omega)]

theorem withHeader_outside {linenum linelen : Nat} (outside : place < start ∨ start + 3 ≤ place) :
    withHeader cells start linenum linelen place = cells place := by
  rw [withHeader, Function.update_of_ne (by omega), Function.update_of_ne (by omega),
    Function.update_of_ne (by omega)]

/-- The line waits in front of `variables_begin`, and ends there. -/
structure Waits (w : Waiting) (cells : Cells) (variablesBegin : Nat) (l : Line) : Prop where
  txtpos : w.txtpos = variablesBegin - lineSize l.2
  linelen : w.linelen = lineSize l.2
  lies : Lies w.cells (variablesBegin - lineSize l.2) (encodeLine l)
  frame : ∀ place, place < variablesBegin - lineSize l.2 ∨ variablesBegin ≤ place →
    w.cells place = cells place

theorem addHeader_waits {l : Line} (short : l.2.length ≤ 250) (even : variablesBegin % 2 = 0)
    (fits : lineSize l.2 ≤ variablesBegin)
    (lies : Lies cells (variablesBegin - (l.2.length + 1)) (l.2 ++ [NL])) :
    Waits (addHeader l.1 l.2.length cells (variablesBegin - (l.2.length + 1))) cells
      variablesBegin l := by
  unfold lineSize at fits
  rcases Nat.mod_two_eq_zero_or_one l.2.length with whole | odd
  · have size : lineSize l.2 = l.2.length + 4 := by rw [lineSize, whole, Nat.add_zero]
    have linelen : (l.2.length + 1 + 3) % 256 = lineSize l.2 := by omega
    have begins : variablesBegin - (l.2.length + 1) - 3 = variablesBegin - lineSize l.2 := by omega
    have aligned : (variablesBegin - lineSize l.2) % 2 = 0 := by omega
    have same : addHeader l.1 l.2.length cells (variablesBegin - (l.2.length + 1)) =
        ⟨withHeader cells (variablesBegin - lineSize l.2) l.1 (lineSize l.2),
          variablesBegin - lineSize l.2, lineSize l.2⟩ := by
      simp only [addHeader, begins, linelen]
      exact if_pos aligned
    rw [same]
    refine ⟨rfl, rfl, ?_, fun place outside => withHeader_outside (by omega)⟩
    rw [encodeLine, whole]
    refine withHeader_lies ?_
    rw [show variablesBegin - lineSize l.2 + 3 = variablesBegin - (l.2.length + 1) by omega]
    exact lies
  · have size : lineSize l.2 = l.2.length + 5 := by rw [lineSize, odd]
    have linelen : ((l.2.length + 1 + 3) % 256 + 1) % 256 = lineSize l.2 := by omega
    have begins : variablesBegin - (l.2.length + 1) - 3 - 1 = variablesBegin - lineSize l.2 := by
      omega
    have unaligned : ¬ (variablesBegin - (l.2.length + 1) - 3) % 2 = 0 := by omega
    have source : variablesBegin - lineSize l.2 + 3 + 1 = variablesBegin - (l.2.length + 1) := by
      omega
    have count : variablesBegin - lineSize l.2 + lineSize l.2 - 1 -
        (variablesBegin - lineSize l.2 + 3) = (l.2 ++ [NL]).length := by
      rw [List.length_append, List.length_singleton]
      omega
    have same : addHeader l.1 l.2.length cells (variablesBegin - (l.2.length + 1)) =
        ⟨withHeader (move cells (variablesBegin - lineSize l.2 + 3)
          (variablesBegin - (l.2.length + 1)) (l.2 ++ [NL]).length)
          (variablesBegin - lineSize l.2) l.1 (lineSize l.2),
          variablesBegin - lineSize l.2, lineSize l.2⟩ := by
      simp only [addHeader, begins, linelen, count, source]
      rw [if_neg unaligned, movePieces_eq_move (.inl (by omega)), Nat.one_mul]
    have long : (l.2 ++ [NL]).length = l.2.length + 1 := List.length_append
    rw [same]
    refine ⟨rfl, rfl, ?_, fun place outside => ?_⟩
    · rw [encodeLine, odd]
      refine withHeader_lies ?_
      rw [show l.2 ++ NL :: List.replicate 1 NL = (l.2 ++ [NL]) ++ [NL] by
        rw [List.append_assoc]; rfl]
      -- the last `NL` stays where it was
      have last := lies_single.mp (lies_append.mp lies).2
      refine lies_append.mpr ⟨lies.moved, lies_single.mpr ?_⟩
      refine (move_outside (.inr (Nat.le_refl _))).trans (Eq.trans (congrArg cells ?_) last)
      omega
    · exact (withHeader_outside (by omega)).trans (move_outside (by omega))

end OrionBios.TinyBasic
