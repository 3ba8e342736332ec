import OrionBios.Libc.Printf

/-!
# Where `printf` and `sprintf` agree

On the formats without a length modifier whose other pieces both treat alike.
-/

namespace OrionBios.Libc

open Machine

/-! ## Matching arguments -/

inductive Kind where
  | int
  | double
  | str
deriving DecidableEq

def Arg.kind : Arg → Kind
  | .int _ => .int
  | .double => .double
  | .str _ => .str

def Case.kinds : Case → List Kind
  | .char => [.int]
  | .decimal => [.int]
  | .unsigned => [.int]
  | .float => [.double]
  | .string => [.str]
  | .hex => [.int]
  | .octal => [.int]
  | .percent => []
  | .other => []

def Piece.kinds : Piece → List Kind
  | .text _ => []
  | .conversion _ _ _ c => (caseOf c).kinds
  | .cut => []

/-- The arguments are what the conversions of the format ask for, length modifiers skipped. -/
def Matches (format : List CChar) (args : List Arg) : Prop :=
  (pieces true .text format).flatMap Piece.kinds <+: args.map Arg.kind

/-- Both functions produce the same characters and return how many, both leave the same arguments,
and neither leaves the format. -/
def Agree (format : List CChar) (args : List Arg) : Prop :=
  ∀ buffer buffer' : Vector CChar 32, ∃ out rest,
    printf buffer format args = some ⟨out, BitVec.ofNat 32 out.length, rest⟩ ∧
      sprintf buffer' format args = some ⟨out, BitVec.ofNat 32 out.length, rest⟩

def Case.numeric : Case → Bool
  | .decimal => true
  | .unsigned => true
  | .hex => true
  | .octal => true
  | _ => false

/-- A piece that both functions treat alike. -/
def Piece.Plain : Piece → Prop
  | .text _ => True
  | .conversion zeroPad width long c => long = false ∧
      (caseOf c = .other → zeroPad = false ∧ width.toInt ≤ 0) ∧
      ((caseOf c).numeric = true → zeroPad = true → width.toInt < 32)
  | .cut => False

/-! ### Plain pieces -/

section Plain

variable {zeroPad : Bool} {width : Word} {c : CChar} {ps : List Piece}

theorem text_plain (plain : caseOf c = .other → zeroPad = false ∧ width.toInt ≤ 0) :
    Printf.text zeroPad width c = Sprintf.text zeroPad width c ∧ flagZeros zeroPad c = 0 := by
  rw [flagZeros]
  by_cases isOther : caseOf c = .other
  · obtain ⟨rfl, small⟩ := plain isOther
    have digits : widthText width = [] := if_neg (Int.not_lt.mpr small)
    refine ⟨funext fun args => ?_, if_pos isOther⟩
    rw [Printf.text, Sprintf.text, if_pos isOther, if_pos isOther, digits,
      if_neg (by decide : ¬10 ≤ ([] : List CChar).length)]
    rfl
  · refine ⟨funext fun args => ?_, if_neg isOther⟩
    rw [Printf.text, Sprintf.text, if_neg isOther, if_neg isOther]

theorem emission_plain (plain : ∀ piece ∈ ps, piece.Plain) (args : List Arg) :
    emission Printf.text ps args = emission Sprintf.text ps args ∧
      uncounted flagZeros ps = 0 := by
  induction ps generalizing args with
  | nil => exact ⟨rfl, rfl⟩
  | cons piece rest inductionHypothesis =>
      have others := fun args =>
        inductionHypothesis (fun other member => plain other (List.mem_cons_of_mem _ member)) args
      cases piece with
      | cut => exact ⟨rfl, (others args).2⟩
      | text c =>
          rw [emission, emission, (others args).1]
          exact ⟨rfl, (others args).2⟩
      | conversion zeroPad width long c =>
          obtain ⟨-, isOther, -⟩ := plain _ List.mem_cons_self
          obtain ⟨same, none⟩ := text_plain isOther
          rw [emission, emission, uncounted, same, none, (others args).2]
          refine ⟨congrArg _ (funext fun first => ?_), rfl⟩
          rw [(others first.2).1]

theorem next_of_fits {kind : Kind} {kinds : List Kind} {args : List Arg}
    (fits : kind :: kinds <+: args.map Arg.kind) :
    ∃ arg rest, args = arg :: rest ∧ arg.kind = kind ∧ kinds <+: rest.map Arg.kind := by
  cases args with
  | nil => exact absurd (List.prefix_nil.mp fits) (List.cons_ne_nil _ _)
  | cons arg rest =>
      obtain ⟨same, others⟩ := List.cons_prefix_cons.mp fits
      exact ⟨arg, rest, rfl, same.symm, others⟩

theorem knownText_some {case : Case} {args : List Arg} {kinds : List Kind}
    (known : case ≠ .other) (inside : case.numeric = true → zeroPad = true → width.toInt < 32)
    (fits : case.kinds ++ kinds <+: args.map Arg.kind) :
    ∃ emitted, knownText zeroPad width args case = some emitted ∧
      kinds <+: emitted.2.map Arg.kind := by
  have number : case.numeric = true → ∀ convert, .int :: kinds <+: args.map Arg.kind →
      ∃ emitted, knownText.numberCase zeroPad width args convert = some emitted ∧
        kinds <+: emitted.2.map Arg.kind := by
    intro numeric convert fits
    obtain ⟨arg, rest, rfl, isInt, others⟩ := next_of_fits fits
    cases arg with
    | int value =>
        have room : ¬(zeroPad = true ∧ 32 ≤ width.toInt) := fun both =>
          absurd both.2 (Int.not_le.mpr (inside numeric both.1))
        exact ⟨_, if_neg room, others⟩
    | double => cases isInt
    | str text => cases isInt
  cases case with
  | char =>
      obtain ⟨arg, rest, rfl, isInt, others⟩ := next_of_fits fits
      cases arg with
      | int value => exact ⟨_, rfl, others⟩
      | double => cases isInt
      | str text => cases isInt
  | decimal => exact number rfl itodecText fits
  | unsigned => exact number rfl itoudecText fits
  | float =>
      obtain ⟨arg, rest, rfl, isDouble, others⟩ := next_of_fits fits
      cases arg with
      | int value => cases isDouble
      | double => exact ⟨_, rfl, others⟩
      | str text => cases isDouble
  | string =>
      obtain ⟨arg, rest, rfl, isStr, others⟩ := next_of_fits fits
      cases arg with
      | int value => cases isStr
      | double => cases isStr
      | str text => exact ⟨_, rfl, others⟩
  | hex => exact number rfl itoxText fits
  | octal => exact number rfl itooctText fits
  | percent => exact ⟨_, rfl, fits⟩
  | other => exact absurd rfl known

theorem emission_some {args : List Arg} (plain : ∀ piece ∈ ps, piece.Plain)
    (fits : ps.flatMap Piece.kinds <+: args.map Arg.kind) :
    ∃ emitted, emission Sprintf.text ps args = some emitted := by
  induction ps generalizing args with
  | nil => exact ⟨_, rfl⟩
  | cons piece rest inductionHypothesis =>
      have others : ∀ other ∈ rest, other.Plain := fun other member =>
        plain other (List.mem_cons_of_mem _ member)
      have here := plain piece List.mem_cons_self
      rw [List.flatMap_cons] at fits
      cases piece with
      | cut => exact here.elim
      | text c =>
          obtain ⟨more, isMore⟩ := inductionHypothesis others fits
          exact ⟨_, by rw [emission, isMore]; rfl⟩
      | conversion zeroPad width long c =>
          obtain ⟨-, -, inside⟩ := here
          rw [emission, Sprintf.text]
          by_cases isOther : caseOf c = .other
          · rw [Piece.kinds, isOther] at fits
            obtain ⟨more, isMore⟩ := inductionHypothesis others fits
            exact ⟨_, by rw [if_pos isOther, Option.bind_some, isMore]; rfl⟩
          · obtain ⟨first, isFirst, others'⟩ := knownText_some isOther inside fits
            obtain ⟨more, isMore⟩ := inductionHypothesis others others'
            exact ⟨_, by rw [if_neg isOther, isFirst, Option.bind_some, isMore]; rfl⟩

theorem readDigit_flags (zeroPad : Bool) (width : Word) (c : CChar) :
    ∃ zeroPad' width', readDigit zeroPad width c = .flags zeroPad' width' := by
  unfold readDigit
  split
  · exact ⟨_, _, rfl⟩
  · exact ⟨_, _, rfl⟩

theorem text_not_long (zeroPad : Bool) (width : Word) : Mode.text ≠ .long zeroPad width :=
  fun same => Mode.noConfusion same

theorem flags_not_long (zeroPad' : Bool) (width' : Word) (zeroPad : Bool) (width : Word) :
    Mode.flags zeroPad' width' ≠ .long zeroPad width := fun same => Mode.noConfusion same

theorem pieces_short {mode : Mode} {format : List CChar}
    (short : ∀ zeroPad width c, .conversion zeroPad width true c ∉ pieces true mode format)
    (whole : .cut ∉ pieces true mode format)
    (notLong : ∀ zeroPad width, mode ≠ .long zeroPad width) :
    pieces false mode format = pieces true mode format := by
  induction format generalizing mode with
  | nil => cases mode <;> rfl
  | cons c rest inductionHypothesis =>
      cases mode with
      | long zeroPad width => exact absurd rfl (notLong zeroPad width)
      | text =>
          rw [pieces] at short whole
          rw [pieces, pieces]
          by_cases percent : c = 0x25
          · rw [if_pos percent] at short whole
            rw [if_pos percent, if_pos percent]
            exact inductionHypothesis short whole (flags_not_long false 0)
          · rw [if_neg percent] at short whole
            rw [if_neg percent, if_neg percent, inductionHypothesis
              (fun zeroPad width c member => short zeroPad width c (List.mem_cons_of_mem _ member))
              (fun member => whole (List.mem_cons_of_mem _ member)) text_not_long]
      | flags zeroPad width =>
          rw [pieces] at short whole
          rw [pieces, pieces]
          by_cases digit : isDigit c = true
          · rw [if_pos digit] at short whole
            rw [if_pos digit, if_pos digit]
            refine inductionHypothesis short whole fun zeroPad' width' isLong => ?_
            obtain ⟨zeroPad'', width'', isFlags⟩ := readDigit_flags zeroPad width c
            cases isFlags.symm.trans isLong
          · rw [if_neg digit] at short whole
            rw [if_neg digit, if_neg digit, if_neg (fun both => Bool.noConfusion both.1)]
            by_cases isLong : true ∧ c = 0x6C
            · rw [if_pos isLong] at short whole
              -- what stands behind the modifier is a conversion or the end
              cases rest with
              | nil => exact absurd List.mem_cons_self whole
              | cons next others =>
                  exact absurd List.mem_cons_self (short zeroPad width next)
            · rw [if_neg isLong] at short whole
              rw [if_neg isLong, inductionHypothesis
                (fun zeroPad width c member =>
                  short zeroPad width c (List.mem_cons_of_mem _ member))
                (fun member => whole (List.mem_cons_of_mem _ member)) text_not_long]

theorem agree_of_plain {format : List CChar}
    (plain : ∀ piece ∈ pieces true .text format, piece.Plain) {args : List Arg}
    (fits : Matches format args) : Agree format args := by
  intro buffer buffer'
  have same : pieces false .text format = pieces true .text format :=
    pieces_short (fun zeroPad width c member => Bool.noConfusion (plain _ member).1)
      (fun member => plain _ member) text_not_long
  obtain ⟨alike, none⟩ := emission_plain plain args
  obtain ⟨emitted, isEmitted⟩ := emission_some plain fits
  refine ⟨emitted.1, emitted.2, ?_, ?_⟩
  · rw [printf_eq, alike, isEmitted, none, Option.map_some, BitVec.sub_zero]
  · rw [sprintf_eq, same, isEmitted, Option.map_some]

end Plain

/-! ### Harmless arguments -/

/-- How many letters `l` a text has more than opening brackets; `[float]` has one of each. -/
def weight (text : List CChar) : Int := text.count 0x6C - text.count 0x5B

def harmless : Kind → Arg
  | .int => .int 0
  | .double => .double
  | .str => .str (some [])

def Harmless (args : List Arg) : Prop := ∀ arg ∈ args, ∃ kind, arg = harmless kind

def Piece.letter : Piece → List CChar
  | .text c => [c]
  | .conversion _ _ _ c => [c]
  | .cut => []

def Piece.isLong : Piece → Bool
  | .conversion _ _ long _ => long
  | _ => false

section Weight

variable {zeroPad : Bool} {width : Word} {c : CChar} {ps : List Piece}

theorem weight_append (first second : List CChar) :
    weight (first ++ second) = weight first + weight second := by
  unfold weight
  rw [List.count_append, List.count_append]
  omega

theorem weight_cons (c : CChar) (rest : List CChar) :
    weight (c :: rest) = weight [c] + weight rest := weight_append [c] rest

theorem weight_light {text : List CChar} (light : ∀ c ∈ text, c ≠ 0x6C ∧ c ≠ 0x5B) :
    weight text = 0 := by
  have letters : text.count 0x6C = 0 := List.count_eq_zero.mpr fun member => (light _ member).1 rfl
  have brackets : text.count 0x5B = 0 :=
    List.count_eq_zero.mpr fun member => (light _ member).2 rfl
  rw [weight, letters, brackets]
  rfl

theorem numberText_light (number : Nat) :
    ∀ c ∈ numberText 10 number, c ≠ 0x6C ∧ c ≠ 0x5B := by
  intro c member
  obtain ⟨digit, isDigit, rfl⟩ := List.mem_map.mp member
  have small := Digits.numeral_lt (by decide) digit isDigit
  have light : ∀ digit < 10, digitChar digit ≠ 0x6C ∧ digitChar digit ≠ 0x5B := by decide
  exact light digit small

theorem itodec_light (value : Word) : ∀ c ∈ itodecText value, c ≠ 0x6C ∧ c ≠ 0x5B := by
  intro c member
  rw [itodecText_eq] at member
  rcases List.mem_append.mp member with sign | digit
  · split at sign
    · rw [List.mem_singleton.mp sign]
      decide
    · exact absurd sign List.not_mem_nil
  · exact numberText_light _ c digit

theorem weight_known (known : caseOf c ≠ .other) : weight [c] = 0 := by
  refine weight_light fun c' member => ?_
  rw [List.mem_singleton.mp member]
  constructor
  · rintro rfl
    exact known rfl
  · rintro rfl
    exact known rfl

theorem weight_padded : weight (padded zeroPad width [0x30]) = 0 := by
  refine weight_light fun c member => ?_
  have zero : c = 0x30 := by
    unfold padded at member
    split at member
    · rcases List.mem_append.mp member with zero | digit
      · exact List.eq_of_mem_replicate zero
      · exact List.mem_singleton.mp digit
    · exact List.mem_singleton.mp member
  rw [zero]
  decide

theorem Harmless.tail {arg : Arg} {rest : List Arg} (harm : Harmless (arg :: rest)) :
    Harmless rest := fun other member => harm other (List.mem_cons_of_mem _ member)

theorem Harmless.nextInt {args : List Arg} (harm : Harmless args) {next : Word × List Arg}
    (takes : Libc.nextInt args = some next) : next.1 = 0 ∧ Harmless next.2 := by
  cases args with
  | nil => cases takes
  | cons arg rest =>
      obtain ⟨kind, rfl⟩ := harm _ List.mem_cons_self
      cases kind with
      | int =>
          obtain rfl := Option.some.inj takes
          exact ⟨rfl, harm.tail⟩
      | double => cases takes
      | str => cases takes

theorem Harmless.number {args : List Arg} (harm : Harmless args) {convert : Word → List CChar}
    (zero : convert 0 = [0x30]) {emitted : List CChar × List Arg}
    (takes : knownText.numberCase zeroPad width args convert = some emitted) :
    weight emitted.1 = 0 ∧ Harmless emitted.2 := by
  obtain ⟨next, isNext, emits⟩ := Option.bind_eq_some_iff.mp takes
  obtain ⟨isZero, others⟩ := harm.nextInt isNext
  split at emits
  · cases emits
  · obtain rfl := Option.some.inj emits
    rw [isZero, zero]
    exact ⟨weight_padded, others⟩

theorem Harmless.known {args : List Arg} (harm : Harmless args) {case : Case}
    {emitted : List CChar × List Arg} (takes : knownText zeroPad width args case = some emitted) :
    weight emitted.1 = 0 ∧ Harmless emitted.2 := by
  cases case with
  | char =>
      obtain ⟨next, isNext, rfl⟩ := Option.map_eq_some_iff.mp takes
      obtain ⟨isZero, others⟩ := harm.nextInt isNext
      refine ⟨?_, others⟩
      dsimp only
      rw [isZero]
      decide
  | decimal => exact harm.number rfl takes
  | unsigned => exact harm.number rfl takes
  | float =>
      obtain ⟨rest, isRest, rfl⟩ := Option.map_eq_some_iff.mp takes
      refine ⟨(by decide : weight floatText = 0), ?_⟩
      cases args with
      | nil => cases isRest
      | cons arg others =>
          obtain ⟨kind, rfl⟩ := harm _ List.mem_cons_self
          cases kind with
          | int => cases isRest
          | double =>
              obtain rfl := Option.some.inj isRest
              exact harm.tail
          | str => cases isRest
  | string =>
      obtain ⟨next, isNext, rfl⟩ := Option.map_eq_some_iff.mp takes
      cases args with
      | nil => cases isNext
      | cons arg others =>
          obtain ⟨kind, rfl⟩ := harm _ List.mem_cons_self
          cases kind with
          | int => cases isNext
          | double => cases isNext
          | str =>
              obtain rfl := Option.some.inj isNext
              exact ⟨rfl, harm.tail⟩
  | hex => exact harm.number rfl takes
  | octal => exact harm.number rfl takes
  | percent =>
      obtain rfl := Option.some.inj takes
      exact ⟨(by decide : weight [0x25] = 0), harm⟩
  | other => cases takes

theorem Harmless.printf {args : List Arg} (harm : Harmless args) {emitted : List CChar × List Arg}
    (takes : Printf.text zeroPad width c args = some emitted) :
    weight emitted.1 = weight [c] ∧ Harmless emitted.2 := by
  rw [Printf.text] at takes
  by_cases isOther : caseOf c = .other
  · rw [if_pos isOther] at takes
    split at takes
    · cases takes
    · obtain rfl := Option.some.inj takes
      have flags : weight (flagText zeroPad) = 0 := by cases zeroPad <;> rfl
      have digits : weight (widthText width) = 0 := by
        unfold widthText
        split
        · exact weight_light (itodec_light width)
        · rfl
      refine ⟨?_, harm⟩
      rw [weight_cons, weight_append, weight_append, flags, digits]
      exact (Int.zero_add _).trans (Int.zero_add _)
  · rw [if_neg isOther] at takes
    rw [weight_known isOther]
    exact harm.known takes

theorem Harmless.sprintf {args : List Arg} (harm : Harmless args) {emitted : List CChar × List Arg}
    (takes : Sprintf.text zeroPad width c args = some emitted) :
    weight emitted.1 = weight [c] ∧ Harmless emitted.2 := by
  rw [Sprintf.text] at takes
  by_cases isOther : caseOf c = .other
  · rw [if_pos isOther] at takes
    obtain rfl := Option.some.inj takes
    refine ⟨?_, harm⟩
    rw [weight_cons]
    exact Int.zero_add _
  · rw [if_neg isOther] at takes
    rw [weight_known isOther]
    exact harm.known takes

theorem Harmless.emission
    {text : Bool → Word → CChar → List Arg → Option (List CChar × List Arg)}
    (step : ∀ {zeroPad width c args emitted}, Harmless args →
      text zeroPad width c args = some emitted →
        weight emitted.1 = weight [c] ∧ Harmless emitted.2) {args : List Arg}
    (harm : Harmless args) {emitted : List CChar × List Arg}
    (runs : Libc.emission text ps args = some emitted) :
    weight emitted.1 = weight (ps.flatMap Piece.letter) ∧ .cut ∉ ps := by
  induction ps generalizing args emitted with
  | nil =>
      obtain rfl := Option.some.inj runs
      exact ⟨rfl, List.not_mem_nil⟩
  | cons piece rest inductionHypothesis =>
      rw [List.flatMap_cons, weight_append]
      cases piece with
      | cut => cases runs
      | text c =>
          obtain ⟨more, isMore, rfl⟩ := Option.map_eq_some_iff.mp runs
          obtain ⟨weighs, whole⟩ := inductionHypothesis harm isMore
          refine ⟨?_, fun member => ?_⟩
          · rw [weight_cons, weighs]
            rfl
          · rcases List.mem_cons.mp member with now | later
            · cases now
            · exact whole later
      | conversion zeroPad width long c =>
          obtain ⟨first, isFirst, others⟩ := Option.bind_eq_some_iff.mp runs
          obtain ⟨more, isMore, rfl⟩ := Option.map_eq_some_iff.mp others
          obtain ⟨weighsFirst, harm'⟩ := step harm isFirst
          obtain ⟨weighs, whole⟩ := inductionHypothesis harm' isMore
          refine ⟨?_, fun member => ?_⟩
          · rw [weight_append, weighsFirst, weighs]
            rfl
          · rcases List.mem_cons.mp member with now | later
            · cases now
            · exact whole later

/-- A modifier that has been skipped. -/
def Mode.skipped : Mode → Nat
  | .long _ _ => 1
  | _ => 0

theorem digit_light (digit : isDigit c = true) : weight [c] = 0 := by
  refine weight_light fun c' member => ?_
  rw [List.mem_singleton.mp member]
  constructor
  · rintro rfl
    exact absurd digit (by decide)
  · rintro rfl
    exact absurd digit (by decide)

theorem weight_pieces {skipsLong : Bool} {mode : Mode} {format : List CChar}
    (whole : .cut ∉ pieces skipsLong mode format) :
    weight format + mode.skipped = weight ((pieces skipsLong mode format).flatMap Piece.letter) +
      (pieces skipsLong mode format).countP Piece.isLong := by
  induction format generalizing mode with
  | nil =>
      cases mode with
      | text => rfl
      | flags zeroPad width => exact absurd List.mem_cons_self whole
      | long zeroPad width => exact absurd List.mem_cons_self whole
  | cons c rest inductionHypothesis =>
      rw [weight_cons]
      cases mode with
      | text =>
          rw [pieces] at whole ⊢
          by_cases percent : c = 0x25
          · rw [if_pos percent] at whole ⊢
            have later := inductionHypothesis whole
            rw [percent, ← later]
            exact congrArg (· + _) (Int.zero_add _)
          · rw [if_neg percent] at whole ⊢
            have later := inductionHypothesis fun member => whole (List.mem_cons_of_mem _ member)
            rw [List.flatMap_cons, weight_append, List.countP_cons_of_neg Bool.false_ne_true,
              Int.add_assoc, later, Int.add_assoc]
            rfl
      | flags zeroPad width =>
          rw [pieces] at whole ⊢
          by_cases digit : isDigit c = true
          · rw [if_pos digit] at whole ⊢
            have later := inductionHypothesis whole
            obtain ⟨zeroPad', width', isFlags⟩ := readDigit_flags zeroPad width c
            rw [digit_light digit, ← later, isFlags]
            exact congrArg (· + _) (Int.zero_add _)
          · rw [if_neg digit] at whole ⊢
            by_cases isLong : skipsLong ∧ c = 0x6C
            · rw [if_pos isLong] at whole ⊢
              have later := inductionHypothesis whole
              have one : weight [c] = 1 := by rw [isLong.2]; rfl
              have none : (Mode.flags zeroPad width).skipped = 0 := rfl
              have skipped : (Mode.long zeroPad width).skipped = 1 := rfl
              rw [one, none, ← later, skipped]
              omega
            · rw [if_neg isLong] at whole ⊢
              have later := inductionHypothesis fun member => whole (List.mem_cons_of_mem _ member)
              have none : (Mode.flags zeroPad width).skipped = Mode.text.skipped := rfl
              rw [List.flatMap_cons, weight_append, List.countP_cons_of_neg Bool.false_ne_true,
                Int.add_assoc, none, later, Int.add_assoc]
              rfl
      | long zeroPad width =>
          rw [pieces] at whole ⊢
          have later := inductionHypothesis fun member => whole (List.mem_cons_of_mem _ member)
          have one : (.conversion zeroPad width true c : Piece).isLong = true := rfl
          rw [List.flatMap_cons, weight_append, List.countP_cons_of_pos one]
          have letter : weight (.conversion zeroPad width true c : Piece).letter = weight [c] := rfl
          have skipped : (Mode.long zeroPad width).skipped = 1 := rfl
          have none : Mode.text.skipped = 0 := rfl
          rw [letter, skipped]
          rw [none] at later
          omega

end Weight

/-! ### Which formats agree -/

section Agree

variable {ps : List Piece}

/-- What `printf` writes of a conversion that it does not know and `sprintf` leaves out. -/
def Piece.extra : Piece → List CChar
  | .conversion zeroPad width _ c =>
      if caseOf c = .other then flagText zeroPad ++ widthText width else []
  | _ => []

theorem emission_lengths {args : List Arg} {emitted emitted' : List CChar × List Arg}
    (first : emission Printf.text ps args = some emitted)
    (second : emission Sprintf.text ps args = some emitted') :
    emitted.1.length = emitted'.1.length + (ps.flatMap Piece.extra).length := by
  induction ps generalizing args emitted emitted' with
  | nil =>
      obtain rfl := Option.some.inj first
      obtain rfl := Option.some.inj second
      rfl
  | cons piece rest inductionHypothesis =>
      rw [List.flatMap_cons, List.length_append]
      cases piece with
      | cut => cases first
      | text c =>
          obtain ⟨more, isMore, rfl⟩ := Option.map_eq_some_iff.mp first
          obtain ⟨more', isMore', rfl⟩ := Option.map_eq_some_iff.mp second
          have later := inductionHypothesis isMore isMore'
          have none : (Piece.text c).extra.length = 0 := rfl
          rw [List.length_cons, List.length_cons, later, none]
          omega
      | conversion zeroPad width long c =>
          obtain ⟨here, isHere, others⟩ := Option.bind_eq_some_iff.mp first
          obtain ⟨here', isHere', others'⟩ := Option.bind_eq_some_iff.mp second
          obtain ⟨more, isMore, rfl⟩ := Option.map_eq_some_iff.mp others
          obtain ⟨more', isMore', rfl⟩ := Option.map_eq_some_iff.mp others'
          have now : here.1.length = here'.1.length +
              (Piece.conversion zeroPad width long c).extra.length ∧ here.2 = here'.2 := by
            rw [Printf.text] at isHere
            rw [Sprintf.text] at isHere'
            rw [Piece.extra]
            by_cases isOther : caseOf c = .other
            · rw [if_pos isOther] at isHere isHere' ⊢
              split at isHere
              · cases isHere
              · obtain rfl := Option.some.inj isHere
                obtain rfl := Option.some.inj isHere'
                simp only [List.length_cons, List.length_append, List.length_nil]
                exact ⟨by omega, trivial⟩
            · rw [if_neg isOther] at isHere isHere' ⊢
              obtain rfl := Option.some.inj (isHere.symm.trans isHere')
              exact ⟨rfl, rfl⟩
          rw [now.2] at isMore
          have later := inductionHypothesis isMore isMore'
          rw [List.length_append, List.length_append, now.1, later]
          omega

theorem emission_inside {args : List Arg} {emitted : List CChar × List Arg}
    (runs : emission Printf.text ps args = some emitted) :
    ∀ zeroPad width long c, .conversion zeroPad width long c ∈ ps →
      (caseOf c).numeric = true → zeroPad = true → width.toInt < 32 := by
  induction ps generalizing args emitted with
  | nil => exact fun _ _ _ _ member => absurd member List.not_mem_nil
  | cons piece rest inductionHypothesis =>
      intro zeroPad width long c member numeric isPad
      cases piece with
      | cut => cases runs
      | text c' =>
          obtain ⟨more, isMore, -⟩ := Option.map_eq_some_iff.mp runs
          rcases List.mem_cons.mp member with now | later
          · cases now
          · exact inductionHypothesis isMore _ _ _ _ later numeric isPad
      | conversion zeroPad' width' long' c' =>
          obtain ⟨here, isHere, others⟩ := Option.bind_eq_some_iff.mp runs
          obtain ⟨more, isMore, -⟩ := Option.map_eq_some_iff.mp others
          rcases List.mem_cons.mp member with now | later
          · obtain ⟨rfl, rfl, rfl, rfl⟩ := Piece.conversion.inj now
            rw [Printf.text] at isHere
            have number : ∀ convert, knownText.numberCase zeroPad width args convert = some here →
                width.toInt < 32 := by
              intro convert takes
              obtain ⟨next, -, emits⟩ := Option.bind_eq_some_iff.mp takes
              split at emits
              · cases emits
              · next inside => exact Int.not_le.mp fun large => inside ⟨isPad, large⟩
            cases isCase : caseOf c with
            | decimal => rw [isCase] at isHere; exact number _ isHere
            | unsigned => rw [isCase] at isHere; exact number _ isHere
            | hex => rw [isCase] at isHere; exact number _ isHere
            | octal => rw [isCase] at isHere; exact number _ isHere
            | char => rw [isCase] at numeric; cases numeric
            | float => rw [isCase] at numeric; cases numeric
            | string => rw [isCase] at numeric; cases numeric
            | percent => rw [isCase] at numeric; cases numeric
            | other => rw [isCase] at numeric; cases numeric
          · exact inductionHypothesis isMore _ _ _ _ later numeric isPad

/-- `sprintf` skips no modifier. -/
theorem pieces_none_long {mode : Mode} {format : List CChar}
    (notLong : ∀ zeroPad width, mode ≠ .long zeroPad width) :
    (pieces false mode format).countP Piece.isLong = 0 := by
  induction format generalizing mode with
  | nil => cases mode <;> rfl
  | cons c rest inductionHypothesis =>
      have inText := @inductionHypothesis .text text_not_long
      cases mode with
      | long zeroPad width => exact absurd rfl (notLong zeroPad width)
      | text =>
          rw [pieces]
          split
          · exact inductionHypothesis (flags_not_long false 0)
          · rw [List.countP_cons_of_neg Bool.false_ne_true, inText]
      | flags zeroPad width =>
          rw [pieces]
          split
          · obtain ⟨zeroPad', width', isFlags⟩ := readDigit_flags zeroPad width c
            rw [isFlags]
            exact inductionHypothesis (flags_not_long zeroPad' width')
          · rw [if_neg (fun both => Bool.noConfusion both.1),
              List.countP_cons_of_neg Bool.false_ne_true, inText]

theorem itodec_ne_nil (value : Word) : itodecText value ≠ [] := by
  rw [itodecText_eq, signedText]
  intro none
  exact Digits.numeral_ne_nil (List.map_eq_nil_iff.mp (List.append_eq_nil_iff.mp none).2)

/-- No character is left out only where there is nothing to leave out. -/
theorem extra_nil {zeroPad : Bool} {width : Word} {long : Bool} {c : CChar}
    (none : (Piece.conversion zeroPad width long c).extra = []) (isOther : caseOf c = .other) :
    zeroPad = false ∧ width.toInt ≤ 0 := by
  rw [Piece.extra, if_pos isOther] at none
  obtain ⟨flags, digits⟩ := List.append_eq_nil_iff.mp none
  constructor
  · cases zeroPad with
    | false => rfl
    | true => cases flags
  · by_contra positive
    rw [widthText, if_pos (Int.not_le.mp positive)] at digits
    exact itodec_ne_nil width digits

/-- Both functions agree on a format exactly if its pieces are plain. -/
theorem printf_sprintf_iff (format : List CChar) :
    (∀ args, Matches format args → Agree format args) ↔
      ∀ piece ∈ pieces true .text format, piece.Plain := by
  constructor
  · intro all
    -- with harmless arguments every letter of the output comes from the format
    have kinds : ∀ asked : List Kind, (asked.map harmless).map Arg.kind = asked := by
      intro asked
      rw [List.map_map]
      have same : Arg.kind ∘ harmless = id := funext fun kind => by cases kind <;> rfl
      rw [same, List.map_id]
    generalize isArgs : ((pieces true .text format).flatMap Piece.kinds).map harmless = args
    have fits : Matches format args := by
      rw [Matches, ← isArgs, kinds]
    have harm : Harmless args := fun arg member => by
      rw [← isArgs] at member
      obtain ⟨kind, -, rfl⟩ := List.mem_map.mp member
      exact ⟨kind, rfl⟩
    obtain ⟨out, rest, first, second⟩ :=
      all args fits (Vector.replicate 32 0) (Vector.replicate 32 0)
    rw [printf_eq] at first
    rw [sprintf_eq] at second
    obtain ⟨emitted, runs, isFirst⟩ := Option.map_eq_some_iff.mp first
    obtain ⟨emitted', runs', isSecond⟩ := Option.map_eq_some_iff.mp second
    have out' : emitted.1 = emitted'.1 :=
      (congrArg Result.out isFirst).trans (congrArg Result.out isSecond).symm
    obtain ⟨weighs, whole⟩ := Harmless.emission (fun harm takes => harm.printf takes) harm runs
    obtain ⟨weighs', whole'⟩ := Harmless.emission (fun harm takes => harm.sprintf takes) harm runs'
    have counted := weight_pieces whole
    have counted' := weight_pieces whole'
    have noneLong' := @pieces_none_long .text format text_not_long
    have noneLong : (pieces true .text format).countP Piece.isLong = 0 := by
      rw [noneLong'] at counted'
      rw [out', weighs'] at weighs
      omega
    have short : ∀ piece ∈ pieces true .text format, piece.isLong = false := fun piece member =>
      Bool.not_eq_true _ ▸ List.countP_eq_zero.mp noneLong piece member
    have same := pieces_short (fun zeroPad width c member => Bool.noConfusion (short _ member)) whole
      text_not_long
    rw [same] at runs'
    have lengths := emission_lengths runs runs'
    rw [out'] at lengths
    have noExtra : (pieces true .text format).flatMap Piece.extra = [] :=
      List.length_eq_zero_iff.mp (by omega)
    have inside := emission_inside runs
    intro piece member
    cases piece with
    | text c => trivial
    | cut => exact whole member
    | conversion zeroPad width long c =>
        exact ⟨short _ member, extra_nil (List.flatMap_eq_nil_iff.mp noExtra _ member),
          inside _ _ _ _ member⟩
  · exact fun plain args fits => agree_of_plain plain fits

/-- `%ld`: `sprintf` stores the format itself. -/
theorem long_disagrees : ¬∀ format args, Matches format args → Agree format args := by
  intro all
  have fits : Matches [0x25, 0x6C, 0x64] [.int 5] := ⟨[], rfl⟩
  obtain ⟨out, rest, first, second⟩ :=
    all _ _ fits (Vector.replicate 32 0) (Vector.replicate 32 0)
  have printed : printf (Vector.replicate 32 0) [0x25, 0x6C, 0x64] [.int 5] =
      some ⟨[0x35], 1, []⟩ := by decide +kernel
  have stored : sprintf (Vector.replicate 32 0) [0x25, 0x6C, 0x64] [.int 5] =
      some ⟨[0x25, 0x6C, 0x64], 3, [.int 5]⟩ := by decide +kernel
  have left := congrArg Result.args (Option.some.inj (printed.symm.trans first))
  have right := congrArg Result.args (Option.some.inj (stored.symm.trans second))
  cases left.trans right.symm

end Agree

end OrionBios.Libc
