import OrionBios.TinyBasic.Evaluator

/-!
# The evaluator stays in its line

Whatever is in the line, the evaluator comes back or traps, but for a `MID$` whose numbers wrap
around. It does not go behind the end of the line, keeps its strings in their buffers, and leaves
the variables alone.
-/

namespace OrionBios.TinyBasic

open Machine (Attempt)
open Machine.Attempt

/-! ## The line -/

/-- The characters in front of `after` are none that end a line. -/
def Passed (before after : Text) : Prop := ∃ front, before = front ++ after ∧ NL ∉ front

theorem Passed.refl (text : Text) : Passed text text := ⟨[], rfl, List.not_mem_nil⟩

theorem Passed.trans {one two three : Text} (first : Passed one two) (second : Passed two three) :
    Passed one three := by
  obtain ⟨front, rfl, free⟩ := first
  obtain ⟨front', rfl, free'⟩ := second
  refine ⟨front ++ front', (List.append_assoc _ _ _).symm, fun inside => ?_⟩
  rcases List.mem_append.mp inside with inside | inside
  · exact free inside
  · exact free' inside

theorem Passed.length {before after : Text} (passed : Passed before after) :
    after.length ≤ before.length := by
  obtain ⟨front, rfl, _⟩ := passed
  rw [List.length_append]
  exact Nat.le_add_left _ _

theorem passed_cons {c : Byte} {before after : Text} (inside : c ≠ NL)
    (passed : Passed before after) : Passed (c :: before) after := by
  obtain ⟨front, rfl, free⟩ := passed
  refine ⟨c :: front, rfl, fun among => ?_⟩
  rcases List.mem_cons.mp among with same | among
  · exact inside same.symm
  · exact free among

theorem passed_skipBlanks (text : Text) : Passed text (skipBlanks text) := by
  induction text with
  | nil => exact Passed.refl _
  | cons c rest inductionHypothesis =>
      by_cases blank : c = SPACE ∨ c = TAB
      · have skipped : skipBlanks (c :: rest) = skipBlanks rest :=
          List.dropWhile_cons_of_pos (by rw [decide_eq_true blank])
        rw [skipped]
        refine passed_cons ?_ inductionHypothesis
        rcases blank with rfl | rfl <;> decide
      · have kept : skipBlanks (c :: rest) = c :: rest :=
          List.dropWhile_cons_of_neg (by rw [decide_eq_false blank]; exact Bool.false_ne_true)
        rw [kept]
        exact Passed.refl _

theorem passed_drop (text : Text) (i : Nat)
    (inside : ∀ j, j ≤ i → charAt text j ≠ 0 ∧ charAt text j ≠ NL) :
    Passed text (text.drop (i + 1)) ∧ (text.drop (i + 1)).length < text.length := by
  induction i generalizing text with
  | zero =>
      cases text with
      | nil => exact absurd rfl (inside 0 (Nat.le_refl 0)).1
      | cons c rest => exact ⟨passed_cons (inside 0 (Nat.le_refl 0)).2 (Passed.refl _),
          Nat.lt_succ_self _⟩
  | succ i inductionHypothesis =>
      cases text with
      | nil => exact absurd rfl (inside 0 (Nat.zero_le _)).1
      | cons c rest =>
          obtain ⟨passed, shorter⟩ := inductionHypothesis rest fun j le =>
            inside (j + 1) (Nat.succ_le_succ le)
          exact ⟨passed_cons (inside 0 (Nat.zero_le _)).2 passed, Nat.lt_succ_of_lt shorter⟩

/-- The letters of a table are none of a line's end. -/
abbrev Plain (table : List Byte) : Prop :=
  ∀ c ∈ table, c ≠ 0 ∧ c ≠ 0x80 ∧ c ≠ NL ∧ c ≠ NL + 0x80

theorem behindKeyword_plain {table : List Byte} (plain : Plain table) :
    Plain (behindKeyword table) := by
  induction table with
  | nil => exact plain
  | cons c rest inductionHypothesis =>
      have others : Plain rest := fun d among => plain d (List.mem_cons_of_mem c among)
      rw [behindKeyword]
      split
      · exact inductionHypothesis others
      · exact others

theorem passed_scantable (table : List Byte) (text : Text) (i index : Nat) (plain : Plain table)
    (matched : ∀ j, j < i → charAt text j ≠ 0 ∧ charAt text j ≠ NL) :
    Passed text (scantable table text i index).2 := by
  induction table, text, i, index using scantable.induct with
  | case1 text i index =>
      rw [scantable]
      exact Passed.refl _
  | case2 text i index rest inductionHypothesis =>
      rw [scantable, if_pos rfl]
      have letter := plain _ List.mem_cons_self
      refine inductionHypothesis (fun d among => plain d (List.mem_cons_of_mem _ among)) ?_
      intro j less
      rcases Nat.lt_succ_iff_lt_or_eq.mp less with less | rfl
      · exact matched j less
      · exact ⟨letter.1, letter.2.2.1⟩
  | case3 text i index c rest differ last =>
      rw [scantable, if_neg differ, if_pos last]
      have letter := plain c List.mem_cons_self
      have here : charAt text i + 0x80 = c := by
        apply BitVec.eq_of_toNat_eq
        rw [BitVec.toNat_add, ← last]
        have bound := c.isLt
        rw [← last] at bound
        exact Nat.mod_eq_of_lt bound
      refine (passed_drop text i fun j le => ?_).1.trans (passed_skipBlanks _)
      rcases Nat.lt_or_eq_of_le le with less | rfl
      · exact matched j less
      · constructor
        · intro zero
          rw [zero] at here
          exact letter.2.1 here.symm
        · intro newline
          rw [newline] at here
          exact letter.2.2.2 here.symm
  | case4 text i index c rest differ other inductionHypothesis =>
      rw [scantable, if_neg differ, if_neg other]
      exact (passed_skipBlanks _).trans
        (inductionHypothesis (behindKeyword_plain plain) fun j less =>
          absurd less (Nat.not_lt_zero j))

/-! ## The state -/

def Terminated (buffer : Buffer) : Prop := ∃ i, i < STRVAR_LEN ∧ buffer i = 0

structure Strings (s : Basic) : Prop where
  temps : ∀ i, Terminated (s.strTemp i)
  stored : ∀ letter, Terminated (s.stringVars letter)

theorem Strings.buffer {s : Basic} (strings : Strings s) (src : StrRef) :
    Terminated (s.buffer src) := by
  cases src with
  | temp i => exact strings.temps i
  | stored letter => exact strings.stored letter
  | empty => exact ⟨0, by decide, rfl⟩

theorem strlen_lt {buffer : Buffer} (terminated : Terminated buffer) :
    strlen buffer < STRVAR_LEN := by
  obtain ⟨i, less, zero⟩ := terminated
  unfold strlen
  cases found : (List.range STRVAR_LEN).find? fun i => buffer i = 0 with
  | some j => exact List.mem_range.mp (List.mem_of_find?_eq_some found)
  | none =>
      exact absurd (decide_eq_true zero)
        (List.find?_eq_none.mp found i (List.mem_range.mpr less))

/-- What the evaluator may have done between two states. -/
structure Behind (s t : Basic) : Prop where
  passed : Passed s.txtpos t.txtpos
  error : s.expressionError = true → t.expressionError = true
  vars : t.vars = s.vars
  stringVars : t.stringVars = s.stringVars
  memory : t.memory = s.memory
  strings : Strings t
  /-- Nothing is written behind a buffer. -/
  within : ∀ k i, STRVAR_LEN ≤ i → t.strTemp k i = s.strTemp k i

variable {s t u : Basic}

theorem Behind.refl (strings : Strings s) : Behind s s :=
  ⟨Passed.refl _, id, rfl, rfl, rfl, strings, fun _ _ _ => rfl⟩

theorem Behind.trans (first : Behind s t) (second : Behind t u) : Behind s u where
  passed := first.passed.trans second.passed
  error wrong := second.error (first.error wrong)
  vars := second.vars.trans first.vars
  stringVars := second.stringVars.trans first.stringVars
  memory := second.memory.trans first.memory
  strings := second.strings
  within k i beyond := (second.within k i beyond).trans (first.within k i beyond)

theorem Behind.length (behind : Behind s t) : t.txtpos.length ≤ s.txtpos.length :=
  behind.passed.length

theorem behind_text {text : Text} (strings : Strings s) (passed : Passed s.txtpos text) :
    Behind s { s with txtpos := text } :=
  ⟨passed, id, rfl, rfl, rfl, ⟨strings.temps, strings.stored⟩, fun _ _ _ => rfl⟩

theorem behind_error (strings : Strings s) : Behind s { s with expressionError := true } :=
  ⟨Passed.refl _, fun _ => rfl, rfl, rfl, rfl, ⟨strings.temps, strings.stored⟩,
    fun _ _ _ => rfl⟩

theorem behind_setTemp (strings : Strings s) (i : Fin 4) {buffer : Buffer}
    (terminated : Terminated buffer)
    (within : ∀ j, STRVAR_LEN ≤ j → buffer j = s.strTemp i j) : Behind s (s.setTemp i buffer) where
  passed := Passed.refl _
  error := id
  vars := rfl
  stringVars := rfl
  memory := rfl
  strings := by
    refine ⟨fun k => ?_, strings.stored⟩
    by_cases same : k = i
    · subst same
      rw [Basic.setTemp_same]
      exact terminated
    · rw [Basic.setTemp_other _ _ same]
      exact strings.temps k
  within k j beyond := by
    by_cases same : k = i
    · subst same
      rw [Basic.setTemp_same]
      exact within j beyond
    · rw [Basic.setTemp_other _ _ same]

theorem terminated_copied (buf src : Buffer) (start : Nat) {count : Nat}
    (less : count < STRVAR_LEN) : Terminated (copied buf src start count) :=
  ⟨count, less, by rw [copied, if_neg (Nat.lt_irrefl _), if_pos rfl]⟩

theorem copied_within (buf src : Buffer) (start : Nat) {count : Nat} (less : count < STRVAR_LEN)
    (i : Nat) (beyond : STRVAR_LEN ≤ i) : copied buf src start count i = buf i := by
  rw [copied, if_neg (by omega), if_neg (by omega)]

theorem terminated_filled (buf : Buffer) {chars : List Byte} (less : chars.length < STRVAR_LEN) :
    Terminated (filled buf chars) :=
  ⟨chars.length, less, by rw [filled, if_neg (Nat.lt_irrefl _), if_pos rfl]⟩

theorem filled_within (buf : Buffer) {chars : List Byte} (less : chars.length < STRVAR_LEN)
    (i : Nat) (beyond : STRVAR_LEN ≤ i) : filled buf chars i = buf i := by
  rw [filled, if_neg (by omega), if_neg (by omega)]

/-! ## Steps -/

/-- What a function leaves is behind where it has started. After an error no `MID$` copies. -/
abbrev Stays {Value : Type} (attempt : Attempt Basic Value) (s : Basic) : Prop :=
  attempt.Meets s (fun _ t => Behind s t) (s.expressionError = false)

/-- What is done from a state behind `s`. -/
theorem stays_from {Value : Type} {attempt : Attempt Basic Value} (behind : Behind s t)
    (stays : Stays attempt t) :
    attempt.Meets t (fun _ u => Behind s u) (s.expressionError = false) := by
  refine stays.weaken (fun _ _ later => behind.trans later) fun right => ?_
  by_contra wrong
  exact absurd (behind.error (Bool.of_not_eq_false wrong)) (Bool.eq_false_iff.mp right)

theorem Stays.bind {Value Result : Type} {attempt : Attempt Basic Value}
    {next : Value → Attempt Basic Result} (first : Stays attempt s)
    (second : ∀ value t, Behind s t → Stays (next value) t) : Stays (attempt >>= next) s :=
  Meets.bind first fun value t behind => stays_from behind (second value t behind)

theorem stays_pure {Value : Type} {value : Value} (strings : Strings s) :
    Stays (pure value : Attempt Basic Value) s := meets_pure (Behind.refl strings)

theorem passed_seen {text : Text} {c : Byte} (seen : charAt text 0 = c) (some : c ≠ 0)
    (inside : c ≠ NL) : Passed text (text.drop 1) ∧ (text.drop 1).length < text.length := by
  refine passed_drop text 0 fun j le => ?_
  rw [Nat.le_zero.mp le, seen]
  exact ⟨some, inside⟩

theorem stays_skip {Value : Type} {next : PUnit → Attempt Basic Value} {c : Byte}
    (strings : Strings s) (seen : charAt s.txtpos 0 = c) (some : c ≠ 0) (inside : c ≠ NL)
    (rest : ∀ t, Behind s t → t.txtpos.length < s.txtpos.length → Stays (next ⟨⟩) t) :
    Stays (skip 1 >>= next) s := by
  obtain ⟨passed, shorter⟩ := passed_seen seen some inside
  have behind := behind_text strings passed
  exact meets_change (stays_from behind (rest _ behind shorter))

theorem stays_ignoreBlanks {Value : Type} {next : PUnit → Attempt Basic Value}
    (strings : Strings s) (rest : ∀ t, Behind s t → Stays (next ⟨⟩) t) :
    Stays (ignoreBlanks >>= next) s := by
  have behind := behind_text strings (passed_skipBlanks s.txtpos)
  exact meets_change (stays_from behind (rest _ behind))

theorem stays_scan {Value : Type} {next : Nat → Attempt Basic Value} {table : List Byte}
    (plain : Plain table) (strings : Strings s)
    (rest : ∀ index t, Behind s t → Stays (next index) t) : Stays (scan table >>= next) s := by
  have behind := behind_text strings (passed_scantable table s.txtpos 0 0 plain fun j less =>
    absurd less (Nat.not_lt_zero j))
  show (next (scantable table s.txtpos 0 0).1).Meets
    { s with txtpos := (scantable table s.txtpos 0 0).2 } _ _
  exact stays_from behind (rest _ _ behind)

theorem plain_funcTab : Plain funcTab := by decide

theorem plain_strfuncTab : Plain strfuncTab := by decide

theorem plain_relopTab : Plain relopTab := by decide

theorem stays_strError (strings : Strings s) : Stays strError s :=
  meets_change (meets_pure (behind_error strings))

theorem stays_expr4Error (strings : Strings s) : Stays expr4Error s :=
  meets_change (meets_pure (behind_error strings))

theorem stays_expectStr {c : Byte} {next : Attempt Basic StrRef} (strings : Strings s)
    (some : c ≠ 0) (inside : c ≠ NL)
    (rest : ∀ t, Behind s t → t.txtpos.length < s.txtpos.length → Stays next t) :
    Stays (expectStr c next) s := by
  refine meets_look (meets_ite (fun _ => stays_strError strings) fun same => ?_)
  exact stays_skip strings (not_not.mp same) some inside rest

theorem stays_expect {c : Byte} {next : Attempt Basic Word} (strings : Strings s)
    (some : c ≠ 0) (inside : c ≠ NL)
    (rest : ∀ t, Behind s t → t.txtpos.length < s.txtpos.length → Stays next t) :
    Stays (expect c next) s := by
  refine meets_look (meets_ite (fun _ => stays_expr4Error strings) fun same => ?_)
  exact stays_skip strings (not_not.mp same) some inside rest

/-! ## Strings -/

theorem stays_newTemp {contents : Basic → Buffer → Buffer} (strings : Strings s)
    (fits : ∀ (u : Basic) (buf : Buffer), Behind s u →
      Terminated (contents u buf) ∧ ∀ i, STRVAR_LEN ≤ i → contents u buf i = buf i) :
    Stays (newTemp contents) s := by
  let u : Basic := { s with strTempIdx := s.strTempIdx + 1 }
  have counted : Behind s u :=
    ⟨Passed.refl _, id, rfl, rfl, rfl, ⟨strings.temps, strings.stored⟩, fun _ _ _ => rfl⟩
  obtain ⟨terminated, within⟩ := fits u (u.strTemp s.strTempIdx) counted
  exact counted.trans (behind_setTemp counted.strings s.strTempIdx terminated within)

theorem literal_length (delim : Byte) (room : Nat) (text : Text) :
    (literal delim room text).1.length ≤ room := by
  induction room generalizing text with
  | zero => exact Nat.le_refl _
  | succ room inductionHypothesis =>
      cases text with
      | nil => exact Nat.zero_le _
      | cons c rest =>
          rw [literal]
          split
          · exact Nat.zero_le _
          · exact Nat.succ_le_succ (inductionHypothesis rest)

theorem passed_literal (delim : Byte) (room : Nat) (text : Text) :
    Passed text (literal delim room text).2 := by
  induction room generalizing text with
  | zero => exact Passed.refl _
  | succ room inductionHypothesis =>
      cases text with
      | nil => exact Passed.refl _
      | cons c rest =>
          rw [literal]
          split
          · exact Passed.refl _
          · next other => exact passed_cons (not_or.mp other).2 (inductionHypothesis rest)

theorem stays_strLiteral {delim : Byte} (strings : Strings s) (seen : charAt s.txtpos 0 = delim)
    (some : delim ≠ 0) (inside : delim ≠ NL) : Stays (strLiteral delim) s := by
  refine stays_skip strings seen some inside fun t behind _ => ?_
  let chars := literal delim (STRVAR_LEN - 1) t.txtpos
  have short : chars.1.length < STRVAR_LEN :=
    Nat.lt_of_le_of_lt (literal_length delim _ _) (by decide)
  let filled' := filled (t.strTemp t.strTempIdx) chars.1
  let u : Basic := { t with strTempIdx := t.strTempIdx + 1 }
  have counted : Behind t u :=
    ⟨Passed.refl _, id, rfl, rfl, rfl, ⟨behind.strings.temps, behind.strings.stored⟩,
      fun _ _ _ => rfl⟩
  have stored : Behind u (u.setTemp t.strTempIdx filled') :=
    behind_setTemp counted.strings _ (terminated_filled _ short) (filled_within _ short)
  have moved : Behind (u.setTemp t.strTempIdx filled')
      { u.setTemp t.strTempIdx filled' with txtpos := chars.2 } :=
    behind_text stored.strings (passed_literal delim _ _)
  have all := (counted.trans stored).trans moved
  refine stays_from (t := { u.setTemp t.strTempIdx filled' with txtpos := chars.2 }) all ?_
  refine meets_look (meets_ite (fun same => ?_) fun _ => ?_)
  · exact stays_skip all.strings same some inside fun v later _ => stays_pure later.strings
  · exact meets_change (meets_pure (behind_error all.strings))

/-! ## Fuel -/

/-- With so much fuel the functions stay in every line that is short enough. -/
structure Sound (n : Nat) (e : Evaluators) : Prop where
  expr4 : ∀ s, Strings s → 6 * s.txtpos.length + 1 ≤ n → Stays e.expr4 s
  expr3 : ∀ s, Strings s → 6 * s.txtpos.length + 2 ≤ n → Stays e.expr3 s
  factors : ∀ a s, Strings s → 6 * s.txtpos.length + 1 ≤ n → Stays (e.factors a) s
  expr2 : ∀ s, Strings s → 6 * s.txtpos.length + 3 ≤ n → Stays e.expr2 s
  terms : ∀ a s, Strings s → 6 * s.txtpos.length + 1 ≤ n → Stays (e.terms a) s
  expression : ∀ s, Strings s → 6 * s.txtpos.length + 4 ≤ n → Stays e.expression s
  strExpr : ∀ s, Strings s → 6 * s.txtpos.length + 1 ≤ n → Stays e.strExpr s

section Sound

variable {n : Nat} {e : Evaluators}

theorem stays_argument (sound : Sound n e) {next : Word → Attempt Basic StrRef}
    (strings : Strings s) (fuel : 6 * s.txtpos.length + 4 ≤ n)
    (rest : ∀ p t, Behind s t → t.expressionError = false → Stays (next p) t) :
    Stays (argument e next) s := by
  refine Stays.bind (sound.expression s strings fuel) fun p t behind => ?_
  exact meets_look (meets_ite (fun _ => stays_pure behind.strings) fun right =>
    rest p t behind (Bool.eq_false_iff.mpr right))

theorem stays_source (sound : Sound n e) {next : StrRef → Attempt Basic StrRef}
    (strings : Strings s) (fuel : 6 * s.txtpos.length + 1 ≤ n)
    (rest : ∀ src t, Behind s t → t.txtpos.length < s.txtpos.length → Stays (next src) t) :
    Stays (source e next) s := by
  refine Stays.bind (sound.strExpr s strings fuel) fun src t behind => ?_
  refine meets_look (meets_ite (fun _ => stays_pure behind.strings) fun _ => ?_)
  refine stays_ignoreBlanks behind.strings fun u blanks => ?_
  refine stays_expectStr blanks.strings (by decide) (by decide) fun v comma shorter => ?_
  have long := behind.length
  have long' := blanks.length
  exact stays_from (Behind.refl comma.strings)
    (rest src v ((behind.trans blanks).trans comma) (by omega))

theorem stays_lastArgument (sound : Sound n e) {next : Word → Attempt Basic StrRef}
    (strings : Strings s) (fuel : 6 * s.txtpos.length + 4 ≤ n)
    (rest : ∀ p t, Strings t → Stays (next p) t) :
    Stays (argument e fun p => expectStr (byte ')') (next p)) s :=
  stays_argument sound strings fuel fun p _ behind _ =>
    stays_expectStr behind.strings (by decide) (by decide) fun u close _ => rest p u close.strings

theorem clamp_lt (p : Word) {buffer : Buffer} (terminated : Terminated buffer) :
    clamp p (strlen buffer) < STRVAR_LEN :=
  Nat.lt_of_le_of_lt (Nat.min_le_right _ _) (strlen_lt terminated)

theorem stays_copied {src : StrRef} {start count : Nat} (strings : Strings s)
    (less : count < STRVAR_LEN) :
    Stays (newTemp fun s buf => copied buf (s.buffer src) start count) s :=
  stays_newTemp strings fun _ _ _ => ⟨terminated_copied _ _ _ less, copied_within _ _ _ less⟩

theorem stays_filled {chars : List Byte} (strings : Strings s) (less : chars.length < STRVAR_LEN) :
    Stays (newTemp fun _ buf => filled buf chars) s :=
  stays_newTemp strings fun _ _ _ => ⟨terminated_filled _ less, filled_within _ less⟩

theorem stays_strLeft (sound : Sound n e) (strings : Strings s)
    (fuel : 6 * s.txtpos.length + 1 ≤ n) : Stays (strLeft e) s := by
  refine stays_source sound strings fuel fun src t behind shorter => ?_
  refine stays_lastArgument sound behind.strings (by omega) fun p u strings => ?_
  exact meets_look (stays_copied strings (clamp_lt p (strings.buffer src)))

theorem stays_strRight (sound : Sound n e) (strings : Strings s)
    (fuel : 6 * s.txtpos.length + 1 ≤ n) : Stays (strRight e) s := by
  refine stays_source sound strings fuel fun src t behind shorter => ?_
  refine stays_lastArgument sound behind.strings (by omega) fun p u strings => ?_
  exact meets_look (stays_copied strings (clamp_lt p (strings.buffer src)))

theorem stays_strMiddle {src : StrRef} {srclen : Nat} {p1 p2 : Word} (strings : Strings s)
    (right : s.expressionError = false) (less : srclen < STRVAR_LEN) :
    Stays (strMiddle src srclen p1 p2) s := by
  refine meets_look (meets_ite (fun _ => stays_strError strings) fun close => ?_)
  have behind := behind_text strings
    (passed_seen (not_not.mp close) (by decide) (by decide)).1
  refine meets_change (stays_from behind ?_)
  refine meets_ite (fun _ => stays_filled behind.strings (by decide)) fun _ => ?_
  refine meets_ite (fun _ => stays_copied behind.strings (by omega)) fun _ => ?_
  refine meets_ite (fun _ => meets_overrun right) fun inside => ?_
  exact stays_copied behind.strings (by omega)

theorem stays_strMid (sound : Sound n e) (strings : Strings s)
    (fuel : 6 * s.txtpos.length + 1 ≤ n) : Stays (strMid e) s := by
  refine stays_source sound strings fuel fun src t behind shorter => ?_
  refine stays_argument sound behind.strings (by omega) fun p1 u first right => ?_
  have less := strlen_lt (first.strings.buffer src)
  have blanks := behind_text first.strings (passed_skipBlanks u.txtpos)
  have long := first.length
  have long' := blanks.length
  refine meets_look (meets_change (stays_from blanks ?_))
  refine meets_look (meets_ite (fun comma => ?_) fun _ =>
    stays_strMiddle blanks.strings right less)
  refine stays_skip blanks.strings comma (by decide) (by decide) fun w later _ => ?_
  have long'' := later.length
  exact stays_argument sound later.strings (by omega) fun p2 _ second right' =>
    stays_strMiddle second.strings right' less

theorem stays_strChr (sound : Sound n e) (strings : Strings s)
    (fuel : 6 * s.txtpos.length + 4 ≤ n) : Stays (strChr e) s :=
  stays_lastArgument sound strings fuel fun _ _ strings =>
    stays_filled strings (by decide : 1 < STRVAR_LEN)

theorem digitsOf_length (room uv : Nat) : (digitsOf room uv).length ≤ room := by
  induction room generalizing uv with
  | zero => exact Nat.le_refl _
  | succ room inductionHypothesis =>
      rw [digitsOf, List.length_cons]
      split
      · exact Nat.succ_le_succ (Nat.zero_le _)
      · exact Nat.succ_le_succ (inductionHypothesis (uv / 10))

theorem written_length (p : Word) : (written p).length < STRVAR_LEN := by
  have short : ∀ uv, (digitsOf 10 uv).reverse.length ≤ 10 := fun uv => by
    rw [List.length_reverse]
    exact digitsOf_length 10 uv
  unfold written STRVAR_LEN
  split
  · have digits := short (-p).toNat
    rw [List.length_cons]
    omega
  · have digits := short p.toNat
    omega

theorem stays_strStr (sound : Sound n e) (strings : Strings s)
    (fuel : 6 * s.txtpos.length + 4 ≤ n) : Stays (strStr e) s :=
  stays_lastArgument sound strings fuel fun p _ strings => stays_filled strings (written_length p)

theorem stays_strFunction (sound : Sound n e) (strings : Strings s)
    (fuel : 6 * s.txtpos.length ≤ n) (tableIndex : Nat) : Stays (strFunction e tableIndex) s := by
  refine stays_expectStr strings (by decide) (by decide) fun t behind shorter => ?_
  refine meets_ite (fun _ => stays_strLeft sound behind.strings (by omega)) fun _ => ?_
  refine meets_ite (fun _ => stays_strRight sound behind.strings (by omega)) fun _ => ?_
  refine meets_ite (fun _ => stays_strMid sound behind.strings (by omega)) fun _ => ?_
  refine meets_ite (fun _ => stays_strChr sound behind.strings (by omega)) fun _ => ?_
  exact stays_strStr sound behind.strings (by omega)

theorem upper_inside {c : Byte} (upper : isUpper c = true) : c ≠ 0 ∧ c ≠ NL := by
  revert c
  decide

theorem digit_inside {c : Byte} (digit : isDigit c = true) : c ≠ 0 ∧ c ≠ NL := by
  revert c
  decide

theorem stays_strVariable (strings : Strings s) : Stays strVariable s := by
  refine meets_look (meets_look (meets_ite (fun named => ?_) fun _ => stays_strError strings))
  have passed := (passed_drop s.txtpos 1 fun j le => by
    rcases Nat.le_one_iff_eq_zero_or_eq_one.mp le with rfl | rfl
    · exact upper_inside named.1
    · rw [named.2]
      decide).1
  exact behind_text strings passed

theorem stays_strExpr (sound : Sound n e) (strings : Strings s)
    (fuel : 6 * s.txtpos.length + 1 ≤ n + 1) : Stays (strExpr e) s := by
  refine stays_ignoreBlanks strings fun t blanks => ?_
  have long := blanks.length
  refine meets_look (meets_ite (fun quoted => ?_) fun _ => ?_)
  · rcases quoted with quote | quote
    · exact stays_strLiteral blanks.strings rfl (by rw [quote]; decide) (by rw [quote]; decide)
    · exact stays_strLiteral blanks.strings rfl (by rw [quote]; decide) (by rw [quote]; decide)
  · refine stays_scan plain_strfuncTab blanks.strings fun index u found => ?_
    have long' := found.length
    exact meets_ite (fun _ => stays_strFunction sound found.strings (by omega) index) fun _ =>
      stays_strVariable found.strings

/-! ## Numbers -/

theorem passed_decimal (a : Word) (text : Text) : Passed text (decimal a text).2 := by
  induction text generalizing a with
  | nil => exact Passed.refl _
  | cons c rest inductionHypothesis =>
      rw [decimal]
      split
      · next digit => exact passed_cons (digit_inside digit).2 (inductionHypothesis _)
      · exact Passed.refl _

theorem stays_number (strings : Strings s) : Stays number s :=
  behind_text strings (passed_decimal 0 s.txtpos)

theorem stays_peek (a : Word) (strings : Strings s) : Stays (peek a) s :=
  meets_ite (fun _ => meets_trap) fun _ => Behind.refl strings

theorem stays_random (a : Word) (strings : Strings s) : Stays (random a) s := by
  have seeded : Stays rand s := meets_change (meets_of_returns rfl
    ⟨Passed.refl _, id, rfl, rfl, rfl, ⟨strings.temps, strings.stored⟩, fun _ _ _ => rfl⟩)
  exact seeded.bind fun _ _ behind =>
    meets_ite (fun _ => meets_trap) fun _ => stays_pure behind.strings

theorem stays_parenthesis (sound : Sound n e) (strings : Strings s)
    (fuel : 6 * s.txtpos.length ≤ n) : Stays (parenthesis e) s := by
  refine stays_expect strings (by decide) (by decide) fun t behind shorter => ?_
  refine Stays.bind (sound.expression t behind.strings (by omega)) fun a u later => ?_
  exact stays_expect later.strings (by decide) (by decide) fun v close _ => stays_pure close.strings

theorem stays_stringFunction (sound : Sound n e) (strings : Strings s)
    (fuel : 6 * s.txtpos.length + 1 ≤ n) (tableIndex : Nat) :
    Stays (stringFunction e tableIndex) s := by
  refine Stays.bind (sound.strExpr s strings fuel) fun src t behind => ?_
  refine meets_look (meets_ite (fun _ => stays_expr4Error behind.strings) fun _ => ?_)
  refine stays_expect behind.strings (by decide) (by decide) fun u close _ => ?_
  exact meets_ite (fun _ => Behind.refl close.strings) fun _ => Behind.refl close.strings

theorem stays_function (sound : Sound n e) (strings : Strings s)
    (fuel : 6 * s.txtpos.length ≤ n) : Stays (function e) s := by
  refine stays_scan plain_funcTab strings fun index t found => ?_
  have long := found.length
  refine meets_ite (fun _ => stays_expr4Error found.strings) fun _ => ?_
  refine stays_expect found.strings (by decide) (by decide) fun u behind shorter => ?_
  refine meets_ite (fun _ => stays_stringFunction sound behind.strings (by omega) index)
    fun _ => ?_
  refine Stays.bind (sound.expression u behind.strings (by omega)) fun a v later => ?_
  have long' := later.length
  refine stays_expect later.strings (by decide) (by decide) fun w close shorter' => ?_
  refine meets_ite (fun _ => stays_peek a close.strings) fun _ => ?_
  refine meets_ite (fun _ => stays_pure close.strings) fun _ => ?_
  refine meets_ite (fun _ => stays_random a close.strings) fun _ => ?_
  exact stays_parenthesis sound close.strings (by omega)

theorem stays_expr4 (sound : Sound n e) (strings : Strings s)
    (fuel : 6 * s.txtpos.length + 1 ≤ n + 1) : Stays (expr4 e) s := by
  refine stays_ignoreBlanks strings fun t blanks => ?_
  have long := blanks.length
  refine meets_look (meets_ite (fun minus => ?_) fun _ => meets_ite (fun zero => ?_) fun _ =>
    meets_ite (fun _ => stays_number blanks.strings) fun _ =>
      meets_ite (fun upper => ?_) fun _ => stays_parenthesis sound blanks.strings (by omega))
  · refine stays_skip blanks.strings minus (by decide) (by decide) fun u later shorter => ?_
    exact Stays.bind (sound.expr4 u later.strings (by omega)) fun _ _ behind =>
      stays_pure behind.strings
  · exact stays_skip blanks.strings zero (by decide) (by decide) fun u later _ =>
      stays_pure later.strings
  · refine meets_look (meets_ite (fun _ => stays_function sound blanks.strings (by omega))
      fun _ => ?_)
    exact stays_skip blanks.strings rfl (upper_inside upper).1 (upper_inside upper).2
      fun u later _ => Behind.refl later.strings

/-! ## Operators -/

theorem stays_expr3 (sound : Sound n e) (strings : Strings s)
    (fuel : 6 * s.txtpos.length + 2 ≤ n + 1) : Stays (expr3 e) s := by
  refine Stays.bind (sound.expr4 s strings (by omega)) fun a t first => ?_
  have long := first.length
  refine stays_ignoreBlanks first.strings fun u blanks => ?_
  have long' := blanks.length
  exact sound.factors a u blanks.strings (by omega)

theorem stays_operator {c : Byte} {operand : Attempt Basic Word} {next : Word → Attempt Basic Word}
    (strings : Strings s) (seen : charAt s.txtpos 0 = c) (some : c ≠ 0) (inside : c ≠ NL)
    (first : ∀ t, Strings t → t.txtpos.length < s.txtpos.length → Stays operand t)
    (rest : ∀ b t, Strings t → t.txtpos.length < s.txtpos.length → Stays (next b) t) :
    Stays (skip 1 >>= fun _ => operand >>= next) s := by
  refine stays_skip strings seen some inside fun t behind shorter => ?_
  refine Stays.bind (first t behind.strings shorter) fun b u later => ?_
  exact rest b u later.strings (Nat.lt_of_le_of_lt later.length shorter)

theorem stays_factors (sound : Sound n e) (strings : Strings s)
    (fuel : 6 * s.txtpos.length + 1 ≤ n + 1) (a : Word) : Stays (factors e a) s := by
  refine meets_look (meets_ite (fun times => ?_) fun _ => meets_ite (fun slash => ?_) fun _ =>
    stays_pure strings)
  · exact stays_operator strings times (by decide) (by decide)
      (fun t own shorter => sound.expr4 t own (by omega))
      fun b t own shorter => sound.factors (a * b) t own (by omega)
  · refine stays_operator strings slash (by decide) (by decide)
      (fun t own shorter => sound.expr4 t own (by omega)) fun b t own shorter => ?_
    refine meets_ite (fun _ => sound.factors (a / b) t own (by omega)) fun _ => ?_
    have wrong := behind_error own
    exact meets_change (stays_from wrong (sound.factors a _ wrong.strings
      (by have long := wrong.length; omega)))

theorem stays_expr2 (sound : Sound n e) (strings : Strings s)
    (fuel : 6 * s.txtpos.length + 3 ≤ n + 1) : Stays (expr2 e) s := by
  refine meets_look (meets_ite (fun _ => sound.terms 0 s strings (by omega)) fun _ => ?_)
  refine Stays.bind (sound.expr3 s strings (by omega)) fun a t first => ?_
  have long := first.length
  exact sound.terms a t first.strings (by omega)

theorem stays_terms (sound : Sound n e) (strings : Strings s)
    (fuel : 6 * s.txtpos.length + 1 ≤ n + 1) (a : Word) : Stays (terms e a) s := by
  refine meets_look (meets_ite (fun minus => ?_) fun _ => meets_ite (fun plus => ?_) fun _ =>
    stays_pure strings)
  · exact stays_operator strings minus (by decide) (by decide)
      (fun t own shorter => sound.expr3 t own (by omega))
      fun b t own shorter => sound.terms (a - b) t own (by omega)
  · exact stays_operator strings plus (by decide) (by decide)
      (fun t own shorter => sound.expr3 t own (by omega))
      fun b t own shorter => sound.terms (a + b) t own (by omega)

theorem stays_relation (sound : Sound n e) (strings : Strings s)
    (fuel : 6 * s.txtpos.length + 3 ≤ n) (a : Word) : Stays (relation e a) s := by
  refine meets_look (meets_ite (fun _ => stays_pure strings) fun _ => ?_)
  refine stays_scan plain_relopTab strings fun index t found => ?_
  have long := found.length
  refine meets_ite (fun _ => stays_pure found.strings) fun _ => ?_
  exact Stays.bind (sound.expr2 t found.strings (by omega)) fun b u second =>
    stays_pure second.strings

theorem stays_expression (sound : Sound n e) (strings : Strings s)
    (fuel : 6 * s.txtpos.length + 4 ≤ n + 1) : Stays (expression e) s := by
  refine Stays.bind (sound.expr2 s strings (by omega)) fun a t first => ?_
  have long := first.length
  exact stays_relation sound first.strings (by omega) a

end Sound

theorem sound_evaluators (n : Nat) : Sound n (evaluators n) := by
  induction n with
  | zero =>
      constructor
      all_goals
        intros
        omega
  | succ n inductionHypothesis =>
      exact ⟨fun _ strings fuel => stays_expr4 inductionHypothesis strings fuel,
        fun _ strings fuel => stays_expr3 inductionHypothesis strings fuel,
        fun a _ strings fuel => stays_factors inductionHypothesis strings fuel a,
        fun _ strings fuel => stays_expr2 inductionHypothesis strings fuel,
        fun a _ strings fuel => stays_terms inductionHypothesis strings fuel a,
        fun _ strings fuel => stays_expression inductionHypothesis strings fuel,
        fun _ strings fuel => stays_strExpr inductionHypothesis strings fuel⟩

/-- Whatever is in a line, the evaluator traps or comes back in the line, with fuel enough, unless a
`MID$` overruns its buffer. After an error none does. -/
theorem expression_stays (s : Basic) (strings : Strings s) (fuel : Nat)
    (enough : 6 * s.txtpos.length + 4 ≤ fuel) :
    (evaluators fuel).expression s = .traps ∨
      (s.expressionError = false ∧ (evaluators fuel).expression s = .overruns) ∨
      ∃ value t, (evaluators fuel).expression s = .returns value t ∧ Behind s t := by
  have stays := (sound_evaluators fuel).expression s strings enough
  unfold Stays Meets at stays
  cases outcome : (evaluators fuel).expression s with
  | returns value t =>
      rw [outcome] at stays
      exact .inr (.inr ⟨value, t, rfl, stays⟩)
  | traps => exact .inl rfl
  | overruns =>
      rw [outcome] at stays
      exact .inr (.inl ⟨stays, rfl⟩)
  | spent =>
      rw [outcome] at stays
      exact stays.elim

/-- All variables are 0 and all strings empty. -/
def fresh (text : Text) : Basic where
  txtpos := text
  expressionError := false
  randSeed := 1
  vars _ := 0
  stringVars _ _ := 0
  strTemp _ _ := 0
  strTempIdx := ⟨0, Nat.zero_lt_succ 3⟩
  memory _ := 0

theorem strings_fresh (text : Text) : Strings (fresh text) where
  temps _ := ⟨0, by decide, rfl⟩
  stored _ := ⟨0, by decide, rfl⟩

/-- `LEN("A` -/
def unended : Text := ['L', 'E', 'N', '(', '"', 'A'].map byte ++ [NL]

theorem expression_stays_unended :
    (evaluators 64).expression (fresh unended) = .traps ∨
      ((fresh unended).expressionError = false ∧
        (evaluators 64).expression (fresh unended) = .overruns) ∨
      ∃ value t, (evaluators 64).expression (fresh unended) = .returns value t ∧
        Behind (fresh unended) t :=
  expression_stays (fresh unended) (strings_fresh unended) 64 (by decide)

/-- `LEN(MID$("AB",2,2147483647))` -/
def wrapping : Text := "LEN(MID$(\"AB\",2,2147483647))".toList.map byte ++ [NL]

example : (match (evaluators 64).expression (fresh wrapping) with
    | .overruns => true
    | _ => false) = true := by
  decide +kernel

end OrionBios.TinyBasic
