import OrionBios.Libc.Strings
import Mathlib.Data.List.GetD
import Mathlib.Data.List.TakeWhile

/-!
# `strtok` in place

The calls share a static pointer and destroy the string. A pointer is an offset into the array that
holds the string; behind the array nothing can be read. Each call does what `strtok` of the string
functions says of the text that is left.
-/

namespace OrionBios.Libc.Tokens

/-! ## The function -/

/-- What stays between two calls. -/
structure Static where
  array : List Char
  p : Option Nat

/-- The loop over what is left of the array: where it stops, and whether at a delimiter. -/
def scan (delim : List Char) : List Char → Nat → Option (Nat × Bool)
  | [], _ => none
  | c :: rest, p =>
      if c = '\x00' then some (p, false)
      else if c ∈ delim then some (p, true)
      else scan delim rest (p + 1)

/-- One call: the pointer that is returned, and what is left behind. -/
def strtok (str : Option Nat) (delim : List Char) (static : Static) :
    Option (Option Nat × Static) :=
  match str.or static.p with
  | none => some (none, static)
  | some start =>
      (scan delim (static.array.drop start) start).map fun stop =>
        if stop.2 then
          (some start, { array := static.array.set stop.1 '\x00', p := some (stop.1 + 1) })
        else
          (if start = stop.1 then none else some start, { static with p := some stop.1 })

/-- Calls one behind the other, with the pointers that they are given and return. -/
def calls (delim : List Char) : List (Option Nat) → Static → Option (List (Option Nat) × Static)
  | [], static => some ([], static)
  | str :: rest, static =>
      (strtok str delim static).bind fun called =>
        (calls delim rest called.2).map fun later => (called.1 :: later.1, later.2)

/-! ## The tokens -/

/-- A run of characters that are no delimiters begins here. -/
def RunStarts (delim text : List Char) (index : Nat) : Prop :=
  text.getD index '\x00' ∉ delim ∧ (index = 0 ∨ text.getD (index - 1) '\x00' ∈ delim)

instance (delim text : List Char) (index : Nat) : Decidable (RunStarts delim text index) :=
  inferInstanceAs (Decidable (_ ∧ _))

/-- Where the runs begin, in order. -/
def starts (delim text : List Char) : List Nat :=
  (List.range text.length).filter (RunStarts delim text ·)

def run (delim text : List Char) (index : Nat) : List Char :=
  (text.drop index).takeWhile (· ∉ delim)

/-- Of any number of calls the first ones return the runs, each terminated, and the others NULL. -/
def YieldsTokens (delim text behind : List Char) : Prop :=
  ∀ p count, ∃ after,
    calls delim (some 0 :: List.replicate count none) ⟨text ++ '\x00' :: behind, p⟩ =
      some ((List.range (count + 1)).map fun call => (starts delim text)[call]?, after) ∧
    ∀ call ≤ count, ∀ index ∈ (starts delim text)[call]?,
      cString after.array index = run delim text index

/-- The string does not begin with a delimiter, and none follows another. -/
def Separated (delim text : List Char) : Prop :=
  ∀ index < text.length, index = 0 ∨ text.getD (index - 1) '\x00' ∈ delim →
    text.getD index '\x00' ∉ delim

variable {delim text token rest before behind : List Char}

/-! ## One call -/

/-- What `strtok` says of a text: a token, a delimiter behind it or the end, and the rest. -/
theorem strtok_parts (found : Libc.strtok delim text = some (token, rest)) :
    (∀ c ∈ token, c ∉ delim) ∧
      ((text = token ∧ token ≠ [] ∧ rest = []) ∨ ∃ c ∈ delim, text = token ++ c :: rest) := by
  have whole := @List.takeWhile_append_dropWhile _ (fun c => decide (c ∉ delim)) text
  have free : ∀ c ∈ text.takeWhile (· ∉ delim), c ∉ delim := fun c member =>
    of_decide_eq_true (List.mem_takeWhile_imp (p := fun c => decide (c ∉ delim)) member)
  rw [Libc.strtok] at found
  cases parts : text.dropWhile (· ∉ delim) with
  | nil =>
      rw [parts, List.append_nil] at whole
      rw [parts] at found
      dsimp only at found
      by_cases empty : text.takeWhile (· ∉ delim) = []
      · rw [if_pos empty] at found
        contradiction
      · rw [if_neg empty] at found
        obtain ⟨rfl, rfl⟩ := Prod.mk.inj (Option.some.inj found)
        exact ⟨free, .inl ⟨whole.symm, empty, rfl⟩⟩
  | cons c others =>
      have stops := List.head?_dropWhile_not (fun c => decide (c ∉ delim)) text
      rw [parts] at whole found stops
      obtain ⟨rfl, rfl⟩ := Prod.mk.inj (Option.some.inj found)
      refine ⟨free, .inr ⟨c, ?_, whole.symm⟩⟩
      simpa using stops

theorem strtok_none (none : Libc.strtok delim text = none) : text = [] := by
  rw [Libc.strtok] at none
  cases text with
  | nil => rfl
  | cons c text =>
      by_cases member : c ∈ delim
      · simp [member] at none
      · simp only [List.takeWhile_cons, List.dropWhile_cons, member, not_false_eq_true, decide_true,
          if_true] at none
        split at none <;> contradiction

theorem scan_token (free : ∀ c ∈ token, c ∉ delim) (letters : ∀ c ∈ token, c ≠ '\x00')
    (more : List Char) (p : Nat) :
    scan delim (token ++ more) p = scan delim more (p + token.length) := by
  induction token generalizing p with
  | nil => rfl
  | cons c token inductionHypothesis =>
      rw [List.cons_append, scan, if_neg (letters c List.mem_cons_self),
        if_neg (free c List.mem_cons_self), inductionHypothesis
          (fun other member => free other (List.mem_cons_of_mem c member))
          (fun other member => letters other (List.mem_cons_of_mem c member)), List.length_cons,
        Nat.add_assoc, Nat.add_comm 1]

/-- The array with the static pointer at the text that is left. -/
def pointing (before text behind : List Char) : Static :=
  ⟨before ++ (text ++ '\x00' :: behind), some before.length⟩

theorem call_pointing :
    strtok none delim (pointing before text behind) =
      (scan delim (text ++ '\x00' :: behind) before.length).map fun stop =>
        if stop.2 then
          (some before.length, { array := (pointing before text behind).array.set stop.1 '\x00',
                                 p := some (stop.1 + 1) })
        else
          (if before.length = stop.1 then none else some before.length,
            { pointing before text behind with p := some stop.1 }) := by
  have left : (before ++ (text ++ '\x00' :: behind)).drop before.length =
      text ++ '\x00' :: behind := List.drop_left
  rw [strtok, pointing]
  dsimp only [Option.or]
  rw [left]

theorem call_end :
    strtok none delim (pointing before [] behind) = some (none, pointing before [] behind) := by
  rw [call_pointing, List.nil_append, scan, if_pos rfl, Option.map_some]
  dsimp only
  rw [if_neg Bool.false_ne_true, if_pos rfl]
  rfl

theorem call_token (letters : ∀ c ∈ text, c ≠ '\x00')
    (found : Libc.strtok delim text = some (token, rest)) :
    ∃ closed, strtok none delim (pointing before text behind) =
        some (some before.length, pointing (before ++ closed) rest behind) ∧
      closed.length + rest.length = text.length ∧
      ∀ tail, (rest = [] → tail = '\x00' :: behind) →
        cString (before ++ closed ++ tail) before.length = token := by
  obtain ⟨free, ⟨rfl, nonempty, rfl⟩ | ⟨c, isDelim, rfl⟩⟩ := strtok_parts found
  · have length := List.length_pos_iff.mpr nonempty
    have noTerminator : '\x00' ∉ text := fun member => letters _ member rfl
    refine ⟨text, ?_, rfl, fun tail isTail => ?_⟩
    · rw [call_pointing, scan_token free letters, scan, if_pos rfl, Option.map_some]
      dsimp only
      rw [if_neg Bool.false_ne_true, if_neg (by omega), pointing, pointing, List.length_append,
        List.append_assoc]
      rfl
    · rw [isTail rfl, List.append_assoc]
      exact cString_append before noTerminator behind
  · have tokenLetters : ∀ c ∈ token, c ≠ '\x00' := fun other member =>
      letters other (List.mem_append_left _ member)
    have noTerminator : '\x00' ∉ token := fun member => tokenLetters _ member rfl
    have letter : c ≠ '\x00' := letters c (List.mem_append_right _ List.mem_cons_self)
    refine ⟨token ++ ['\x00'], ?_, ?_, fun tail _ => ?_⟩
    · have array : (pointing before (token ++ c :: rest) behind).array =
          (before ++ token) ++ c :: (rest ++ '\x00' :: behind) := by
        rw [pointing]
        simp only [List.append_assoc, List.cons_append]
      have place : before.length + token.length = (before ++ token).length :=
        List.length_append.symm
      rw [call_pointing, List.append_assoc, scan_token free tokenLetters, List.cons_append, scan,
        if_neg letter, if_pos isDelim, Option.map_some, array, place]
      dsimp only
      rw [if_pos rfl, List.set_append_right _ _ (Nat.le_refl _), Nat.sub_self, List.set_cons_zero,
        pointing]
      simp only [List.append_assoc, List.cons_append, List.nil_append, List.length_append,
        List.length_singleton, Nat.add_assoc]
    · simp only [List.length_append, List.length_cons, List.length_nil]
      omega
    · rw [List.append_assoc, List.append_assoc]
      exact cString_append before noTerminator tail

/-! ## All calls -/

/-- A call begins a token at the start of the string and behind every delimiter. -/
def BoundaryAt (delim text : List Char) (index : Nat) : Prop :=
  index = 0 ∨ text.getD (index - 1) '\x00' ∈ delim

instance (delim text : List Char) (index : Nat) : Decidable (BoundaryAt delim text index) :=
  inferInstanceAs (Decidable (_ ∨ _))

def boundaries (delim text : List Char) : List Nat :=
  (List.range text.length).filter (BoundaryAt delim text ·)

theorem boundaries_token (free : ∀ c ∈ token, c ∉ delim) (more : List Char) {count : Nat}
    (within : count ≤ token.length) :
    (List.range (count + 1)).filter (BoundaryAt delim (token ++ more) ·) = [0] := by
  have start : decide (BoundaryAt delim (token ++ more) 0) = true := decide_eq_true (.inl rfl)
  have others : (List.range count).filter
      ((fun index => decide (BoundaryAt delim (token ++ more) index)) ∘ Nat.succ) = [] := by
    rw [List.filter_eq_nil_iff]
    intro index member boundary
    have less := List.mem_range.mp member
    rcases of_decide_eq_true boundary with zero | behind
    · exact absurd zero (Nat.succ_ne_zero index)
    · rw [Nat.succ_eq_add_one, Nat.add_sub_cancel,
        List.getD_append _ _ _ _ (Nat.lt_of_lt_of_le less within),
        List.getD_eq_getElem _ _ (Nat.lt_of_lt_of_le less within)] at behind
      exact free _ (List.getElem_mem _) behind
  rw [List.range_succ_eq_map, List.filter_cons, if_pos start, List.filter_map, others]
  rfl

theorem boundaries_split {c : Char} (free : ∀ c ∈ token, c ∉ delim) (isDelim : c ∈ delim)
    (rest : List Char) :
    boundaries delim (token ++ c :: rest) =
      0 :: (boundaries delim rest).map (token.length + 1 + ·) := by
  have length : (token ++ c :: rest).length = token.length + 1 + rest.length := by
    simp only [List.length_append, List.length_cons]
    omega
  have anew : ((fun index => decide (BoundaryAt delim (token ++ c :: rest) index)) ∘
      (token.length + 1 + ·)) = fun index => decide (BoundaryAt delim rest index) := by
    funext index
    refine decide_eq_decide.mpr ?_
    change BoundaryAt _ _ (token.length + 1 + index) ↔ _
    cases index with
    | zero =>
        refine iff_of_true (.inr ?_) (.inl rfl)
        rw [Nat.add_zero, Nat.add_sub_cancel, List.getD_append_right _ _ _ _ (Nat.le_refl _),
          Nat.sub_self]
        exact isDelim
    | succ index =>
        have place : token.length + 1 + (index + 1) - 1 = token.length + (index + 1) := by omega
        rw [BoundaryAt, BoundaryAt, place, List.getD_append_right _ _ _ _ (Nat.le_add_right _ _),
          Nat.add_sub_cancel_left, List.getD_cons_succ, Nat.add_sub_cancel]
        exact or_congr_left (iff_of_false (Nat.succ_ne_zero _) (Nat.succ_ne_zero _))
  rw [boundaries, length, List.range_add, List.filter_append,
    boundaries_token free _ (Nat.le_refl _), List.filter_map, anew]
  rfl

theorem boundaries_found (found : Libc.strtok delim text = some (token, rest)) {closed : Nat}
    (whole : closed + rest.length = text.length) :
    boundaries delim text = 0 :: (boundaries delim rest).map (closed + ·) := by
  obtain ⟨free, ⟨rfl, nonempty, rfl⟩ | ⟨c, isDelim, rfl⟩⟩ := strtok_parts found
  · have length := List.length_pos_iff.mpr nonempty
    have one := @boundaries_token delim text free [] (text.length - 1) (Nat.sub_le _ _)
    rw [List.append_nil, Nat.sub_add_cancel length] at one
    exact one
  · have isClosed : closed = token.length + 1 := by
      rw [List.length_append, List.length_cons] at whole
      omega
    rw [isClosed]
    exact boundaries_split free isDelim rest

theorem drop_found (found : Libc.strtok delim text = some (token, rest)) {closed : Nat}
    (whole : closed + rest.length = text.length) : text.drop closed = rest := by
  obtain ⟨-, ⟨rfl, -, rfl⟩ | ⟨c, -, rfl⟩⟩ := strtok_parts found
  · rw [List.length_nil, Nat.add_zero] at whole
    rw [whole, List.drop_length]
  · have isClosed : closed = (token ++ [c]).length := by
      rw [List.length_append, List.length_cons] at whole
      rw [List.length_append, List.length_singleton]
      omega
    have split : token ++ c :: rest = (token ++ [c]) ++ rest := List.append_cons token c rest
    rw [isClosed, split, List.drop_left]

theorem run_found (found : Libc.strtok delim text = some (token, rest)) :
    run delim text 0 = token := by
  have inside : ∀ free : ∀ c ∈ token, c ∉ delim, ∀ c ∈ token, decide (c ∉ delim) = true :=
    fun free c member => decide_eq_true (free c member)
  obtain ⟨free, ⟨rfl, -, -⟩ | ⟨c, isDelim, rfl⟩⟩ := strtok_parts found
  · exact List.takeWhile_eq_self_iff.mpr (inside free)
  · have stops : ¬decide (c ∉ delim) = true := fun other => of_decide_eq_true other isDelim
    rw [run, List.drop_zero, List.takeWhile_append_of_pos (inside free),
      List.takeWhile_cons, if_neg stops, List.append_nil]

/-- What the calls leave: the strings that they have returned, before what they have not seen. -/
structure Left (delim before text behind : List Char) (count : Nat) (array : List Char) : Prop where
  begins : ∃ tail, array = before ++ tail ∧ (text = [] → tail = '\x00' :: behind)
  tokens : ∀ call < count, ∀ index ∈ (boundaries delim text)[call]?,
    cString array (before.length + index) = run delim text index

theorem calls_boundaries (letters : ∀ c ∈ text, c ≠ '\x00') (count : Nat) :
    ∃ after, calls delim (List.replicate count none) (pointing before text behind) =
        some ((List.range count).map fun call =>
          ((boundaries delim text)[call]?).map (before.length + ·), after) ∧
      Left delim before text behind count after.array := by
  induction count generalizing before text with
  | zero =>
      refine ⟨_, rfl, ⟨_, rfl, ?_⟩, fun call less => absurd less (Nat.not_lt_zero call)⟩
      rintro rfl
      rfl
  | succ count inductionHypothesis =>
      rw [List.replicate_succ, calls, List.range_succ_eq_map, List.map_cons, List.map_map]
      cases found : Libc.strtok delim text with
      | none =>
          obtain rfl := strtok_none found
          obtain ⟨after, called, left⟩ := @inductionHypothesis [] before letters
          refine ⟨after, ?_, left.begins, fun call _ index isIndex => by cases isIndex⟩
          rw [call_end, Option.bind_some, called]
          rfl
      | some parts =>
          obtain ⟨token, rest⟩ := parts
          obtain ⟨closed, called, whole, terminated⟩ :=
            @call_token _ _ _ _ before behind letters found
          have isRest := drop_found found whole
          obtain ⟨after, later, ⟨⟨tail, isArray, isTail⟩, tokens⟩⟩ :=
            @inductionHypothesis rest (before ++ closed) fun c member =>
              letters c (List.mem_of_mem_drop (isRest ▸ member))
          have bounds := boundaries_found found whole
          refine ⟨after, ?_, ⟨closed ++ tail, ?_, ?_⟩, fun call less index isIndex => ?_⟩
          · rw [called, Option.bind_some, later, Option.map_some, bounds]
            have shifted : ∀ call,
                ((0 :: (boundaries delim rest).map (closed.length + ·))[call + 1]?).map
                (before.length + ·) =
                  ((boundaries delim rest)[call]?).map ((before ++ closed).length + ·) := by
              intro call
              rw [List.getElem?_cons_succ, List.getElem?_map, Option.map_map, List.length_append]
              congr 1
              funext place
              exact (Nat.add_assoc _ _ _).symm
            exact congrArg (fun results => some (some before.length :: results, after))
              (List.map_congr_left fun call _ => (shifted call).symm)
          · rw [isArray, List.append_assoc]
          · rintro rfl
            rw [Libc.strtok_nil] at found
            exact (Option.some_ne_none _ found.symm).elim
          · rw [bounds] at isIndex
            cases call with
            | zero =>
                obtain rfl := Option.some.inj isIndex
                rw [Nat.add_zero, isArray, run_found found]
                exact terminated tail isTail
            | succ call =>
                rw [List.getElem?_cons_succ, List.getElem?_map] at isIndex
                obtain ⟨place, isPlace, rfl⟩ := Option.map_eq_some_iff.mp isIndex
                have same := tokens call (Nat.lt_of_succ_lt_succ less) place isPlace
                rw [List.length_append, Nat.add_assoc] at same
                rw [same, run, run, ← List.drop_drop, isRest]

/-! ## When these are the tokens -/

theorem starts_eq_boundaries :
    starts delim text = boundaries delim text ↔ Separated delim text := by
  constructor
  · intro same index less boundary
    have member : index ∈ boundaries delim text :=
      List.mem_filter.mpr ⟨List.mem_range.mpr less, decide_eq_true boundary⟩
    rw [← same] at member
    exact (of_decide_eq_true (List.mem_filter.mp member).2 : RunStarts delim text index).1
  · intro separated
    refine List.filter_congr fun index member => decide_eq_decide.mpr ?_
    exact and_iff_right_of_imp (separated index (List.mem_range.mp member))

/-- The calls give the maximal runs, if and only if no token is empty. -/
theorem tokens_iff (delim text behind : List Char) (letters : ∀ c ∈ text, c ≠ '\x00') :
    YieldsTokens delim text behind ↔ Separated delim text := by
  have begins : ∀ p count, calls delim (some 0 :: List.replicate count none)
      ⟨text ++ '\x00' :: behind, p⟩ =
        calls delim (List.replicate (count + 1) none) (pointing [] text behind) := fun _ _ => rfl
  rw [← starts_eq_boundaries]
  constructor
  · intro yields
    refine List.ext_getElem? fun call => ?_
    obtain ⟨after, called, -⟩ := yields none call
    obtain ⟨after', called', -⟩ := @calls_boundaries delim text [] behind letters (call + 1)
    rw [begins, called'] at called
    have results := congrArg (fun results : List (Option Nat) => results[call]?)
      (Prod.mk.inj (Option.some.inj called)).1
    have inside : call < call + 1 := Nat.lt_succ_self call
    simpa [inside] using results.symm
  · intro same p count
    obtain ⟨after, called, left⟩ := @calls_boundaries delim text [] behind letters (count + 1)
    refine ⟨after, ?_, fun call within index isIndex => ?_⟩
    · rw [begins, called, same]
      simp
    · rw [same] at isIndex
      have token := left.tokens call (Nat.lt_succ_of_le within) index isIndex
      rw [List.length_nil, Nat.zero_add] at token
      exact token

/-- Two words with one blank between them. -/
theorem tokens_iff_words :
    YieldsTokens [' '] ['l', 's', ' ', 'a'] [] ↔ Separated [' '] ['l', 's', ' ', 'a'] :=
  tokens_iff [' '] ['l', 's', ' ', 'a'] [] (by simp)

/-- The first token of ` a` is empty. -/
theorem empty_token : ¬YieldsTokens [' '] [' ', 'a'] [] := by
  intro yields
  obtain ⟨after, called, -⟩ := yields none 0
  have first : strtok (some 0) [' '] ⟨[' ', 'a'] ++ '\x00' :: [], none⟩ =
      some (some 0, ⟨['\x00', 'a', '\x00'], some 1⟩) := rfl
  have token : starts [' '] [' ', 'a'] = [1] := by decide
  rw [token, calls, first] at called
  cases called

end OrionBios.Libc.Tokens
