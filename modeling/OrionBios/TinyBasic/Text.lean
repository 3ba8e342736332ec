import Mathlib.Data.BitVec

/-!
# Lines of text

What the interpreter reads off the line that it is in: single characters, blanks and keywords. A
line ends with a `NL`.
-/

namespace OrionBios.TinyBasic

abbrev Byte := BitVec 8

abbrev Text := List Byte

def byte (c : Char) : Byte := BitVec.ofNat 8 c.toNat

def NL : Byte := 0x0A

def TAB : Byte := 0x09

def SPACE : Byte := 0x20

/-- `txtpos[i]`. -/
def charAt (text : Text) (i : Nat) : Byte := text.getD i 0

def skipBlanks (text : Text) : Text := text.dropWhile fun c => c = SPACE ∨ c = TAB

/-! ## Keywords -/

/-- A keyword of a table: `0x80` is added to its last letter. -/
def keyword : List Char → List Byte
  | [] => []
  | [last] => [byte last + 0x80]
  | c :: rest => byte c :: keyword rest

/-- What is behind the keyword of a table that `table` starts in. -/
def behindKeyword : List Byte → List Byte
  | [] => []
  | c :: table => if c &&& 0x80 = 0 then behindKeyword table else table

theorem behindKeyword_length (c : Byte) (table : List Byte) :
    (behindKeyword (c :: table)).length ≤ table.length := by
  induction table generalizing c with
  | nil =>
      rw [behindKeyword]
      split <;> exact Nat.le_refl _
  | cons next table inductionHypothesis =>
      rw [behindKeyword]
      split
      · exact Nat.le_succ_of_le (inductionHypothesis next)
      · exact Nat.le_refl _

/-- `scantable`: the index of the keyword that the text starts with, and what is behind it. The
table ends with a 0, which is not written here. -/
def scantable (table : List Byte) (text : Text) (i index : Nat) : Nat × Text :=
  match table with
  | [] => (index, text)
  | c :: rest =>
    if charAt text i = c then scantable rest text (i + 1) index
    else if (charAt text i).toNat + 0x80 = c.toNat then (index, skipBlanks (text.drop (i + 1)))
    else scantable (behindKeyword (c :: rest)) (skipBlanks text) 0 (index + 1)
  termination_by table.length
  decreasing_by
    · exact Nat.lt_succ_self _
    · exact Nat.lt_succ_of_le (behindKeyword_length c rest)

def FUNC_PEEK : Nat := 0
def FUNC_ABS : Nat := 1
def FUNC_RND : Nat := 4
def FUNC_LEN : Nat := 5
def FUNC_ASC : Nat := 6
def FUNC_UNKNOWN : Nat := 7

def tableOf (words : List (List Char)) : List Byte := words.flatMap keyword

def funcTab : List Byte :=
  tableOf [['P', 'E', 'E', 'K'], ['A', 'B', 'S'], ['A', 'R', 'E', 'A', 'D'],
    ['D', 'R', 'E', 'A', 'D'], ['R', 'N', 'D'], ['L', 'E', 'N'], ['A', 'S', 'C']]

def STRFUNC_LEFT : Nat := 0
def STRFUNC_RIGHT : Nat := 1
def STRFUNC_MID : Nat := 2
def STRFUNC_CHR : Nat := 3
def STRFUNC_UNKNOWN : Nat := 5

def strfuncTab : List Byte :=
  tableOf [['L', 'E', 'F', 'T', '$'], ['R', 'I', 'G', 'H', 'T', '$'], ['M', 'I', 'D', '$'],
    ['C', 'H', 'R', '$'], ['S', 'T', 'R', '$']]

def RELOP_GE : Nat := 0
def RELOP_NE : Nat := 1
def RELOP_GT : Nat := 2
def RELOP_EQ : Nat := 3
def RELOP_LE : Nat := 4
def RELOP_LT : Nat := 5
def RELOP_NE_BANG : Nat := 6
def RELOP_UNKNOWN : Nat := 7

def relopTab : List Byte :=
  tableOf [['>', '='], ['<', '>'], ['>'], ['='], ['<', '='], ['<'], ['!', '=']]

/-! ## Keywords of a table

What `scantable` finds, said with the words of the table. -/

theorem skipBlanks_blank {c : Byte} (blank : c = SPACE ∨ c = TAB) (text : Text) :
    skipBlanks (c :: text) = skipBlanks text :=
  List.dropWhile_cons_of_pos (by rw [decide_eq_true blank])

theorem skipBlanks_other {c : Byte} (other : ¬ (c = SPACE ∨ c = TAB)) (text : Text) :
    skipBlanks (c :: text) = c :: text :=
  List.dropWhile_cons_of_neg (by rw [decide_eq_false other]; exact Bool.false_ne_true)

theorem skipBlanks_again (text : Text) : skipBlanks (skipBlanks text) = skipBlanks text := by
  induction text with
  | nil => rfl
  | cons c rest inductionHypothesis =>
      by_cases blank : c = SPACE ∨ c = TAB
      · rw [skipBlanks_blank blank]
        exact inductionHypothesis
      · rw [skipBlanks_other blank, skipBlanks_other blank]

theorem charAt_drop (text : Text) (i j : Nat) : charAt (text.drop i) j = charAt text (i + j) := by
  unfold charAt
  rw [List.getD_eq_getElem?_getD, List.getD_eq_getElem?_getD, List.getElem?_drop]

theorem charAt_starts {text more : Text} {c : Byte} {i : Nat} (here : text.drop i = c :: more) :
    charAt text i = c := by
  rw [← Nat.add_zero i, ← charAt_drop, here]
  rfl

theorem drop_starts {text more : Text} {c : Byte} {i : Nat} (here : text.drop i = c :: more) :
    text.drop (i + 1) = more := by
  rw [← List.drop_drop, here]
  rfl

/-! ## Words -/

theorem keyword_cons {c : Char} {word : List Char} (more : word ≠ []) :
    keyword (c :: word) = byte c :: keyword word := by
  cases word with
  | nil => exact absurd rfl more
  | cons d rest => rfl

/-- The letters have no `0x80`. -/
def PlainWord (word : List Char) : Bool := word.all fun c => (byte c).toNat < 0x80

/-- The text starts with something else than the word. -/
def differs : List Char → Text → Bool
  | [], _ => false
  | [last], text => charAt text 0 != byte last && charAt text 0 != byte last + 0x80
  | c :: rest, text => charAt text 0 != byte c || differs rest (text.drop 1)

theorem plain_cons {c : Char} {word : List Char} (plain : PlainWord (c :: word) = true) :
    (byte c).toNat < 0x80 ∧ PlainWord word = true := by
  unfold PlainWord at plain ⊢
  rw [List.all_cons, Bool.and_eq_true, decide_eq_true_eq] at plain
  exact plain

theorem marked_toNat {c : Byte} (plain : c.toNat < 0x80) : (c + 0x80).toNat = c.toNat + 0x80 := by
  rw [BitVec.toNat_add]
  exact Nat.mod_eq_of_lt (by change c.toNat + 128 < 256; omega)

theorem plain_bit {c : Byte} (plain : c.toNat < 0x80) : c &&& 0x80 = 0 := by
  revert c
  decide

theorem marked_bit {c : Byte} (plain : c.toNat < 0x80) : ¬ (c + 0x80) &&& 0x80 = 0 := by
  revert c
  decide

theorem behindKeyword_keyword {word : List Char} (some : word ≠ []) (plain : PlainWord word = true)
    (table : List Byte) : behindKeyword (keyword word ++ table) = table := by
  induction word using keyword.induct with
  | case1 => exact absurd rfl some
  | case2 last =>
      rw [keyword, List.singleton_append, behindKeyword]
      exact if_neg (marked_bit (plain_cons plain).1)
  | case3 c rest more inductionHypothesis =>
      rw [keyword_cons more, List.cons_append, behindKeyword,
        if_pos (plain_bit (plain_cons plain).1)]
      exact inductionHypothesis more (plain_cons plain).2

theorem no_mark {c d : Byte} (plain : d.toNat < 0x80) : c.toNat + 0x80 ≠ d.toNat := by
  omega

theorem scantable_differs {word : List Char} (plain : PlainWord word = true) {text : Text} {i : Nat}
    (other : differs word (text.drop i) = true) (table : List Byte) (index : Nat) :
    scantable (keyword word ++ table) text i index =
      scantable table (skipBlanks text) 0 (index + 1) := by
  induction word using keyword.induct generalizing i with
  | case1 => exact absurd other Bool.false_ne_true
  | case2 last =>
      have small := (plain_cons plain).1
      rw [differs, Bool.and_eq_true, bne_iff_ne, bne_iff_ne, charAt_drop, Nat.add_zero] at other
      rw [keyword, List.singleton_append, scantable, if_neg other.2, if_neg, behindKeyword,
        if_neg (marked_bit small)]
      rw [marked_toNat small]
      exact fun same => other.1 (BitVec.eq_of_toNat_eq (Nat.add_right_cancel same))
  | case3 c rest more inductionHypothesis =>
      obtain ⟨small, plain'⟩ := plain_cons plain
      rw [keyword_cons more, List.cons_append, scantable]
      by_cases same : charAt text i = byte c
      · rw [if_pos same]
        refine inductionHypothesis plain' ?_
        rw [differs, charAt_drop, Nat.add_zero, same, bne_self_eq_false, Bool.false_or,
          List.drop_drop] at other
        · exact other
        · exact more
      · rw [if_neg same, if_neg (no_mark small), behindKeyword, if_pos (plain_bit small),
          behindKeyword_keyword more plain']

theorem scantable_found {word : List Char} (some : word ≠ []) (plain : PlainWord word = true)
    {text rest : Text} {i : Nat} (starts : text.drop i = word.map byte ++ rest)
    (table : List Byte) (index : Nat) :
    scantable (keyword word ++ table) text i index = (index, skipBlanks rest) := by
  induction word using keyword.induct generalizing i with
  | case1 => exact absurd rfl some
  | case2 last =>
      have small := (plain_cons plain).1
      have here := charAt_starts starts
      have marked : ¬ byte last = byte last + 0x80 := fun same => by
        have high := marked_toNat small
        rw [← same] at high
        omega
      rw [keyword, List.singleton_append, scantable, here, if_neg marked,
        if_pos (marked_toNat small).symm, drop_starts starts]
      rfl
  | case3 c letters more inductionHypothesis =>
      obtain ⟨small, plain'⟩ := plain_cons plain
      rw [keyword_cons more, List.cons_append, scantable, if_pos (charAt_starts starts)]
      exact inductionHypothesis more plain' (drop_starts starts)

theorem differs_first {c : Char} {text : Text} (word : List Char) (other : charAt text 0 ≠ byte c)
    (unmarked : charAt text 0 ≠ byte c + 0x80) : differs (c :: word) text = true := by
  cases word with
  | nil =>
      rw [differs, Bool.and_eq_true, bne_iff_ne, bne_iff_ne]
      exact ⟨other, unmarked⟩
  | cons d rest =>
      show (charAt text 0 != byte c || differs (d :: rest) (text.drop 1)) = true
      rw [Bool.or_eq_true, bne_iff_ne]
      exact .inl other

theorem differs_later (a b : Char) {c : Char} (word : List Char) (x : Byte) {text : Text}
    (other : charAt text 0 ≠ byte b) : differs (a :: b :: c :: word) (x :: text) = true := by
  show (x != byte a || (charAt text 0 != byte b || differs (c :: word) (text.drop 1))) = true
  rw [Bool.or_eq_true, Bool.or_eq_true, bne_iff_ne, bne_iff_ne]
  exact .inr (.inl other)

theorem differs_second {a b : Char} {text : Text} (other : charAt text 0 ≠ byte b)
    (unmarked : charAt text 0 ≠ byte b + 0x80) : differs [a, b] (byte a :: text) = true := by
  show (byte a != byte a || (charAt text 0 != byte b && charAt text 0 != byte b + 0x80)) = true
  rw [bne_self_eq_false, Bool.false_or, Bool.and_eq_true, bne_iff_ne, bne_iff_ne]
  exact ⟨other, unmarked⟩

/-! ## Tables -/

variable {text rest : Text}

/-- The first word of the table that is there is found. -/
theorem tableOf_found (front : List (List Char)) (word : List Char) (back : List (List Char))
    (some : word ≠ []) (plain : ((front ++ [word]).all PlainWord) = true)
    (still : skipBlanks text = text)
    (others : (front.all fun v => differs v text) = true) (starts : text = word.map byte ++ rest)
    (index : Nat) :
    scantable (tableOf (front ++ word :: back)) text 0 index =
      (index + front.length, skipBlanks rest) := by
  induction front generalizing index with
  | nil =>
      rw [List.nil_append, List.all_cons, Bool.and_eq_true] at plain
      exact scantable_found (i := 0) some plain.1 starts _ index
  | cons v front inductionHypothesis =>
      rw [List.cons_append, List.all_cons, Bool.and_eq_true] at plain
      rw [List.all_cons, Bool.and_eq_true] at others
      have next := inductionHypothesis plain.2 others.2 (index + 1)
      rw [List.cons_append, tableOf, List.flatMap_cons,
        scantable_differs plain.1 (i := 0) others.1, still]
      rw [List.length_cons, Nat.add_comm front.length, ← Nat.add_assoc]
      exact next

theorem tableOf_none {words : List (List Char)} (plain : words.all PlainWord = true)
    (still : skipBlanks text = text) (others : (words.all fun v => differs v text) = true)
    (index : Nat) : scantable (tableOf words) text 0 index = (index + words.length, text) := by
  induction words generalizing index with
  | nil =>
      rw [tableOf, List.flatMap_nil, scantable]
      rfl
  | cons v words inductionHypothesis =>
      rw [List.all_cons, Bool.and_eq_true] at plain others
      have next := inductionHypothesis plain.2 others.2 (index + 1)
      rw [tableOf, List.flatMap_cons, scantable_differs plain.1 (i := 0) others.1, still]
      rw [List.length_cons, Nat.add_comm words.length, ← Nat.add_assoc]
      exact next

/-- No word is there behind the blanks, and the first one is not there before them. -/
theorem tableOf_blanks {word : List Char} {words : List (List Char)}
    (plain : (word :: words).all PlainWord = true) (first : differs word text = true)
    (others : (words.all fun v => differs v (skipBlanks text)) = true) (index : Nat) :
    scantable (tableOf (word :: words)) text 0 index =
      (index + (word :: words).length, skipBlanks text) := by
  rw [List.all_cons, Bool.and_eq_true] at plain
  rw [tableOf, List.flatMap_cons, scantable_differs plain.1 (i := 0) first]
  have next := tableOf_none plain.2 (skipBlanks_again text) others (index + 1)
  rw [List.length_cons, Nat.add_comm words.length, ← Nat.add_assoc]
  exact next

end OrionBios.TinyBasic
