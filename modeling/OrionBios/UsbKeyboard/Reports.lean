import OrionBios.UsbKeyboard.Decoder

/-!
# A character from its own report

The character of a report should follow from the modifiers and the key in it, and from how often the
caps lock key was pressed. An observer of the reports therefore keeps the last key code and the
state of caps lock.
-/

namespace OrionBios.UsbKeyboard

open Transition

structure Watched where
  decoder : Decoder
  lastCode : Byte
  caps : Bool
  deriving DecidableEq, Repr

namespace Watched

def initial : Watched where
  decoder := .initial
  lastCode := 0
  caps := false

/-- The caps lock key is down, and was not in the report before. -/
def Presses (s : Watched) (report : Report) : Prop := report.code = 0x39 ∧ s.lastCode ≠ 0x39

instance (s : Watched) (report : Report) : Decidable (s.Presses report) :=
  inferInstanceAs (Decidable (_ ∧ _))

def next (rom : Keymap → Byte → Byte) (s : Watched) (report : Report) : Watched where
  decoder := (s.decoder.kbdFinish0x88 rom report).1
  lastCode := report.code
  caps := if s.Presses report then !s.caps else s.caps

def step (rom : Keymap → Byte → Byte) (s : Watched) (report : Report) : Option Watched :=
  some (s.next rom report)

end Watched

/-! ## What a report stands for -/

def keymapOf (status : Byte) (caps : Bool) : Keymap :=
  if status = KEY_SHIFT then (if caps then .base else .shift)
  else if status = KEY_CTRL then .ctrl
  else if status = KEY_ALT then .alt
  else if status = KEY_ALTGR then .altGr
  else if caps then .shift else .base

/-- The caps lock key has no character, unless a modifier is held with it. -/
def characterOf (rom : Keymap → Byte → Byte) (report : Report) (caps : Bool) : Option Byte :=
  if report.code = 0 ∨ report.code = 0x39 ∧ statusOf report.modifier = none then none
  else some (Lookup.value rom ⟨keymapOf ((statusOf report.modifier).getD 0) caps, report.code⟩)

structure Decodes (rom : Keymap → Byte → Byte) (s : Watched) (report : Report) (next : Watched) :
    Prop where
  character : (s.decoder.kbdFinish0x88 rom report).2.character =
    characterOf rom report next.caps
  inside : ∀ lookup, (s.decoder.kbdFinish0x88 rom report).2.lookup = some lookup → lookup.Inside
  caps : next.decoder.modCaps = if next.caps then 2 else 0

/-- Caps lock is pressed without a modifier and behind a report without keys, and held only from
there on; a key has an entry in the tables; and a key without a modifier of its own has the same
entry in the keymap of the modifier remembered. -/
structure Clean (s : Watched) (report : Report) : Prop where
  press : s.Presses report →
    statusOf report.modifier = none ∧ s.decoder.capslockJaPressionado = false
  hold : report.code = 0x39 → s.lastCode = 0x39 → statusOf report.modifier = none →
    s.decoder.capslockJaPressionado = true
  inside : report.code ≠ 0 → report.code ≠ 0x39 → report.code.toNat < 0x80
  fresh : report.code ≠ 0 → report.code ≠ 0x39 → statusOf report.modifier = none →
    (keymapOf s.decoder.specialKeyStatus s.caps).table[report.code.toNat]? =
      (keymapOf 0 s.caps).table[report.code.toNat]?

/-! ## One report -/

variable {rom : Keymap → Byte → Byte} {s : Watched} {report : Report}

structure Consistent (s : Watched) : Prop where
  status : s.decoder.specialKeyStatus ∈ [0, KEY_CTRL, KEY_SHIFT, KEY_ALT, KEY_ALTGR]
  caps : s.decoder.modCaps = if s.caps then 2 else 0

theorem consistent_initial : Consistent .initial where
  status := by decide
  caps := rfl

theorem statusOf_mem {modifier status : Byte} (known : statusOf modifier = some status) :
    status ∈ [0, KEY_CTRL, KEY_SHIFT, KEY_ALT, KEY_ALTGR] := by
  unfold statusOf at known
  split at known
  · cases known; decide
  · split at known
    · cases known; decide
    · split at known
      · cases known; decide
      · split at known
        · cases known; decide
        · cases known

theorem getKbdKey_eq {d : Decoder} {caps : Bool}
    (status : d.specialKeyStatus ∈ [0, KEY_CTRL, KEY_SHIFT, KEY_ALT, KEY_ALTGR])
    (agrees : d.modCaps = if caps then 2 else 0) :
    d.getKbdKey = some (keymapOf d.specialKeyStatus caps) := by
  obtain ⟨_, _, _, _, specialKeyStatus, modCaps, _⟩ := d
  obtain rfl : modCaps = if caps then 2 else 0 := agrees
  have all : ∀ status ∈ [0, KEY_CTRL, KEY_SHIFT, KEY_ALT, KEY_ALTGR], ∀ caps : Bool,
      Decoder.getKbdKey ⟨false, false, false, false, status, if caps then 2 else 0, false⟩ =
        some (keymapOf status caps) := by decide
  exact all specialKeyStatus status caps

theorem value_eq_getD {keymap : Keymap} {code : Byte} :
    Lookup.value rom ⟨keymap, code⟩ = (keymap.table[code.toNat]?).getD (rom keymap code) :=
  List.getD_eq_getElem?_getD

theorem value_eq_iff {keymap keymap' : Keymap} {code : Byte} (inside : code.toNat < 0x80) :
    Lookup.value rom ⟨keymap, code⟩ = Lookup.value rom ⟨keymap', code⟩ ↔
      keymap.table[code.toNat]? = keymap'.table[code.toNat]? := by
  have le : code.toNat < keymap.table.length := by rwa [Keymap.length_table]
  have le' : code.toNat < keymap'.table.length := by rwa [Keymap.length_table]
  rw [value_eq_getD, value_eq_getD, List.getElem?_eq_getElem le, List.getElem?_eq_getElem le',
    Option.getD_some, Option.getD_some, Option.some.injEq]

theorem character_eq {d : Decoder} {caps : Bool} {code : Byte} (key : code ≠ 0)
    (status : d.specialKeyStatus ∈ [0, KEY_CTRL, KEY_SHIFT, KEY_ALT, KEY_ALTGR])
    (agrees : d.modCaps = if caps then 2 else 0) :
    d.character rom code =
      { character := some (Lookup.value rom ⟨keymapOf d.specialKeyStatus caps, code⟩)
        lookup := some ⟨keymapOf d.specialKeyStatus caps, code⟩
        sent := [] } := by
  rw [Decoder.character, if_neg key, getKbdKey_eq status agrees]

theorem not_released {modifier code status : Byte} (known : statusOf modifier = some status) :
    ¬ (modifier = 0 ∧ code = 0) := by
  rintro ⟨rfl, -⟩
  cases known

theorem finish_known {d : Decoder} {status : Byte} (known : statusOf report.modifier = some status) :
    d.kbdFinish0x88 rom report =
      ({ d with specialKeyStatus := status, specialKeyDown := true, specialKeyUp := false },
        Decoder.character rom
          { d with specialKeyStatus := status, specialKeyDown := true, specialKeyUp := false }
          report.code) := by
  rw [Decoder.kbdFinish0x88, if_neg (not_released known), known]

theorem finish_caps {d : Decoder} (unknown : statusOf report.modifier = none)
    (key : report.code = 0x39) :
    d.kbdFinish0x88 rom report =
      if d.capslockJaPressionado then (d, .nothing)
      else
        ({ d with capslockJaPressionado := true, modCaps := if d.modCaps = 0 then 2 else 0 },
          { Outcome.nothing with sent := sendCmdKeyboard (if d.modCaps = 0 then 2 else 0) }) := by
  have pressed : ¬ (report.modifier = 0 ∧ report.code = 0) := by
    rintro ⟨-, released⟩
    rw [key] at released
    exact absurd released (by decide)
  rw [Decoder.kbdFinish0x88, if_neg pressed, unknown]
  exact if_pos key

theorem finish_key {d : Decoder} (unknown : statusOf report.modifier = none)
    (key : report.code ≠ 0) (other : report.code ≠ 0x39) :
    d.kbdFinish0x88 rom report =
      ({ d with keyDown := true, keyUp := false },
        Decoder.character rom { d with keyDown := true, keyUp := false } report.code) := by
  have pressed : ¬ (report.modifier = 0 ∧ report.code = 0) := fun released => key released.2
  rw [Decoder.kbdFinish0x88, if_neg pressed, unknown]
  exact if_neg other

theorem finish_noKey {d : Decoder} (noKey : report.code = 0) :
    (d.kbdFinish0x88 rom report).2 = .nothing ∧
      (d.kbdFinish0x88 rom report).1.modCaps = d.modCaps := by
  have notCaps : report.code ≠ 0x39 := by
    rw [noKey]
    decide
  rw [Decoder.kbdFinish0x88]
  by_cases released : report.modifier = 0 ∧ report.code = 0
  · rw [if_pos released]
    cases d.specialKeyDown <;> exact ⟨rfl, rfl⟩
  · rw [if_neg released]
    cases statusOf report.modifier with
    | some status => simp only [Decoder.character, if_pos noKey, and_self]
    | none => simp only [if_neg notCaps, Decoder.character, if_pos noKey, and_self]

/-! ## Which reports decode -/

theorem capsValue_ne (caps : Bool) :
    (if caps then (2 : Byte) else 0) ≠ if !caps then 2 else 0 := by
  revert caps
  decide

theorem capsValue_toggled (caps : Bool) :
    (if (if caps then (2 : Byte) else 0) = 0 then (2 : Byte) else 0) = if !caps then 2 else 0 := by
  revert caps
  decide

theorem decodes_noKey (consistent : Consistent s) (noKey : report.code = 0) :
    Decodes rom s report (s.next rom report) ∧ Clean s report := by
  have notCaps : report.code ≠ 0x39 := by
    rw [noKey]
    decide
  have notPressed : ¬ s.Presses report := fun pressed => notCaps pressed.1
  obtain ⟨nothing, kept⟩ := @finish_noKey rom report s.decoder noKey
  constructor
  · constructor
    · rw [nothing, characterOf, if_pos (Or.inl noKey)]
      rfl
    · intro lookup read
      rw [nothing] at read
      cases read
    · rw [Watched.next, if_neg notPressed]
      exact kept.trans consistent.caps
  · exact ⟨fun pressed => absurd pressed notPressed, fun caps => absurd caps notCaps,
      fun key => absurd noKey key, fun key => absurd noKey key⟩

theorem decodes_known {status : Byte} (consistent : Consistent s) (key : report.code ≠ 0)
    (known : statusOf report.modifier = some status) :
    Decodes rom s report (s.next rom report) ↔
      ¬ s.Presses report ∧ report.code.toNat < 0x80 := by
  have finished := @finish_known rom report s.decoder status known
  have read := @character_eq rom { s.decoder with
      specialKeyStatus := status, specialKeyDown := true, specialKeyUp := false } s.caps
    report.code key (statusOf_mem known) consistent.caps
  have caps : (s.next rom report).decoder.modCaps = if s.caps then 2 else 0 := by
    rw [Watched.next, finished]
    exact consistent.caps
  constructor
  · intro decodes
    constructor
    · intro pressed
      have agrees := decodes.caps
      rw [caps, Watched.next, if_pos pressed] at agrees
      exact capsValue_ne s.caps agrees
    · have inside := decodes.inside
      rw [finished, read] at inside
      exact (Lookup.inside_iff _).mp (inside _ rfl)
  · rintro ⟨notPressed, inside⟩
    constructor
    · rw [finished, read, characterOf, if_neg, known, Watched.next, if_neg notPressed]
      · rfl
      · rintro (noKey | ⟨-, unknown⟩)
        · exact key noKey
        · rw [known] at unknown
          cases unknown
    · intro lookup isRead
      rw [finished, read] at isRead
      cases isRead
      exact (Lookup.inside_iff _).mpr inside
    · rw [caps, Watched.next, if_neg notPressed]

theorem decodes_caps (consistent : Consistent s) (unknown : statusOf report.modifier = none)
    (key : report.code = 0x39) :
    Decodes rom s report (s.next rom report) ↔
      (s.lastCode ≠ 0x39 ↔ s.decoder.capslockJaPressionado = false) := by
  have finished := @finish_caps rom report s.decoder unknown key
  have noCharacter : ∀ caps, characterOf rom report caps = none := by
    intro caps
    rw [characterOf, if_pos (Or.inr ⟨key, unknown⟩)]
  have presses : s.Presses report ↔ s.lastCode ≠ 0x39 := by
    rw [Watched.Presses, and_iff_right key]
  have next : (s.next rom report).caps = if s.lastCode ≠ 0x39 then !s.caps else s.caps := by
    rw [Watched.next]
    simp only [presses]
  cases flag : s.decoder.capslockJaPressionado with
  | true =>
      rw [flag, if_pos rfl] at finished
      have kept : (s.next rom report).decoder.modCaps = if s.caps then 2 else 0 := by
        rw [Watched.next, finished]
        exact consistent.caps
      by_cases last : s.lastCode = 0x39
      · rw [if_neg (not_not.mpr last)] at next
        refine iff_of_true ⟨?_, ?_, ?_⟩ (iff_of_false (not_not.mpr last) Bool.noConfusion)
        · rw [finished, noCharacter]
          rfl
        · intro lookup read
          rw [finished] at read
          cases read
        · rw [kept, next]
      · rw [if_pos last] at next
        refine iff_of_false (fun decodes => ?_) fun both => absurd (both.mp last) Bool.noConfusion
        have agrees := decodes.caps
        rw [kept, next] at agrees
        exact capsValue_ne s.caps agrees
  | false =>
      rw [flag, if_neg Bool.false_ne_true, consistent.caps, capsValue_toggled] at finished
      have switched : (s.next rom report).decoder.modCaps = if !s.caps then 2 else 0 := by
        rw [Watched.next, finished]
      by_cases last : s.lastCode = 0x39
      · rw [if_neg (not_not.mpr last)] at next
        refine iff_of_false (fun decodes => ?_) fun both => both.mpr rfl last
        have agrees := decodes.caps
        rw [switched, next] at agrees
        exact capsValue_ne s.caps agrees.symm
      · rw [if_pos last] at next
        refine iff_of_true ⟨?_, ?_, ?_⟩ (iff_of_true last rfl)
        · rw [finished, noCharacter]
          rfl
        · intro lookup read
          rw [finished] at read
          cases read
        · rw [switched, next]

theorem decodes_key (consistent : Consistent s) (unknown : statusOf report.modifier = none)
    (key : report.code ≠ 0) (other : report.code ≠ 0x39) :
    Decodes rom s report (s.next rom report) ↔
      report.code.toNat < 0x80 ∧
        (keymapOf s.decoder.specialKeyStatus s.caps).table[report.code.toNat]? =
          (keymapOf 0 s.caps).table[report.code.toNat]? := by
  have finished := @finish_key rom report s.decoder unknown key other
  have read := @character_eq rom { s.decoder with keyDown := true, keyUp := false } s.caps
    report.code key consistent.status consistent.caps
  have notPressed : ¬ s.Presses report := fun pressed => other pressed.1
  have expected : characterOf rom report (s.next rom report).caps =
      some (Lookup.value rom ⟨keymapOf 0 s.caps, report.code⟩) := by
    rw [characterOf, if_neg, unknown, Watched.next, if_neg notPressed]
    · rfl
    · rintro (noKey | ⟨caps, -⟩)
      · exact key noKey
      · exact other caps
  constructor
  · intro decodes
    have inside : report.code.toNat < 0x80 := by
      have all := decodes.inside
      rw [finished, read] at all
      exact (Lookup.inside_iff _).mp (all _ rfl)
    have character := decodes.character
    rw [expected, finished, read] at character
    exact ⟨inside, (value_eq_iff inside).mp (Option.some.inj character)⟩
  · rintro ⟨inside, same⟩
    constructor
    · rw [expected, finished, read]
      exact congrArg some ((value_eq_iff inside).mpr same)
    · intro lookup isRead
      rw [finished, read] at isRead
      cases isRead
      exact (Lookup.inside_iff _).mpr inside
    · rw [Watched.next, if_neg notPressed, finished]
      exact consistent.caps

/-- A report decodes as it should if and only if it is clean. -/
theorem decodes_iff_clean (consistent : Consistent s) :
    Decodes rom s report (s.next rom report) ↔ Clean s report := by
  by_cases key : report.code = 0
  · obtain ⟨decodes, clean⟩ := @decodes_noKey rom s report consistent key
    exact iff_of_true decodes clean
  cases status : statusOf report.modifier with
  | some status' =>
      rw [decodes_known consistent key status]
      constructor
      · rintro ⟨notPressed, inside⟩
        refine ⟨fun pressed => absurd pressed notPressed, fun _ _ unknown => ?_, fun _ _ => inside,
          fun _ _ unknown => ?_⟩ <;>
        · rw [status] at unknown
          cases unknown
      · intro clean
        have notPressed : ¬ s.Presses report := by
          intro pressed
          have unknown := (clean.press pressed).1
          rw [status] at unknown
          cases unknown
        refine ⟨notPressed, ?_⟩
        by_cases caps : report.code = 0x39
        · rw [caps]
          decide
        · exact clean.inside key caps
  | none =>
      by_cases caps : report.code = 0x39
      · rw [decodes_caps consistent status caps]
        constructor
        · intro both
          refine ⟨fun pressed => ⟨status, both.mp pressed.2⟩, fun _ last _ => ?_,
            fun _ other => absurd caps other, fun _ other => absurd caps other⟩
          cases flag : s.decoder.capslockJaPressionado with
          | true => rfl
          | false => exact absurd last (both.mpr flag)
        · intro clean
          constructor
          · exact fun last => (clean.press ⟨caps, last⟩).2
          · intro flag last
            have held := clean.hold caps last status
            rw [flag] at held
            cases held
      · rw [decodes_key consistent status key caps]
        constructor
        · rintro ⟨inside, same⟩
          exact ⟨fun pressed => absurd pressed.1 caps, fun held => absurd held caps,
            fun _ _ => inside, fun _ _ _ => same⟩
        · exact fun clean => ⟨clean.inside key caps, clean.fresh key caps status⟩

theorem status_next (consistent : Consistent s) :
    (s.next rom report).decoder.specialKeyStatus ∈
      [0, KEY_CTRL, KEY_SHIFT, KEY_ALT, KEY_ALTGR] := by
  have kept := consistent.status
  rw [Watched.next]
  unfold Decoder.kbdFinish0x88
  split
  · split
    · exact List.mem_cons_self
    · exact kept
  · split
    · exact statusOf_mem (by assumption)
    · split
      · split <;> exact kept
      · exact kept

/-! ## What earlier reports leave -/

/-- The modifier that is remembered behind a report: its own, none when all keys are up, and else
the one from before. -/
def remembered (status : Byte) (report : Report) : Byte :=
  if report.modifier = 0 ∧ report.code = 0 then 0 else (statusOf report.modifier).getD status

/-- Caps lock counts as held until all keys are up, also behind a report with another key. -/
def heldCaps (held : Bool) (report : Report) : Bool :=
  if report.modifier = 0 ∧ report.code = 0 then false
  else held || decide (statusOf report.modifier = none ∧ report.code = 0x39)

/-- The decoder knows this much of the reports so far. -/
structure Decoder.Recalls (d : Decoder) (status : Byte) (held : Bool) : Prop where
  status : d.specialKeyStatus = status
  held : d.capslockJaPressionado = held
  up : d.specialKeyDown = false → d.specialKeyStatus = 0

theorem Decoder.Recalls.next {d : Decoder} {status : Byte} {held : Bool}
    (recalls : d.Recalls status held) (rom : Keymap → Byte → Byte) (report : Report) :
    (d.kbdFinish0x88 rom report).1.Recalls (remembered status report) (heldCaps held report) := by
  obtain ⟨rfl, rfl, up⟩ := recalls
  by_cases released : report.modifier = 0 ∧ report.code = 0
  · rw [remembered, if_pos released, heldCaps, if_pos released, Decoder.kbdFinish0x88,
      if_pos released]
    cases down : d.specialKeyDown with
    | true => exact ⟨rfl, rfl, fun _ => rfl⟩
    | false => exact ⟨up down, rfl, fun _ => up down⟩
  · rw [remembered, if_neg released, heldCaps, if_neg released]
    cases known : statusOf report.modifier with
    | some status =>
        rw [finish_known known]
        exact ⟨rfl, by simp, nofun⟩
    | none =>
        by_cases caps : report.code = 0x39
        · rw [finish_caps known caps]
          cases held : d.capslockJaPressionado with
          | true => exact ⟨rfl, by simp [held], up⟩
          | false => exact ⟨rfl, by simp [caps], up⟩
        · rw [Decoder.kbdFinish0x88, if_neg released, known]
          dsimp only
          have other : ¬ ((none : Option Byte) = none ∧ report.code = 0x39) := fun key => caps key.2
          rw [if_neg caps, decide_eq_false other, Bool.or_false]
          exact ⟨rfl, rfl, up⟩

theorem Decoder.Recalls.run (rom : Keymap → Byte → Byte) (history : List Report) :
    ∀ {s : Watched} {status : Byte} {held : Bool}, s.decoder.Recalls status held →
      (history.foldl (Watched.next rom) s).decoder.Recalls (history.foldl remembered status)
        (history.foldl heldCaps held) := by
  induction history with
  | nil => exact fun recalls => recalls
  | cons report rest inductionHypothesis =>
      exact fun recalls => inductionHypothesis (recalls.next rom report)

theorem initial_recalls : Decoder.initial.Recalls 0 false := ⟨rfl, rfl, fun _ => rfl⟩

/-- What `Clean` asks of the decoder, said of the reports before. -/
theorem clean_after_iff (rom : Keymap → Byte → Byte) (history : List Report) (report : Report) :
    Clean (history.foldl (Watched.next rom) .initial) report ↔
      let s := history.foldl (Watched.next rom) .initial
      (s.Presses report →
        statusOf report.modifier = none ∧ history.foldl heldCaps false = false) ∧
      (report.code = 0x39 → s.lastCode = 0x39 → statusOf report.modifier = none →
        history.foldl heldCaps false = true) ∧
      (report.code ≠ 0 → report.code ≠ 0x39 → report.code.toNat < 0x80) ∧
      (report.code ≠ 0 → report.code ≠ 0x39 → statusOf report.modifier = none →
        (keymapOf (history.foldl remembered 0) s.caps).table[report.code.toNat]? =
          (keymapOf 0 s.caps).table[report.code.toNat]?) := by
  obtain ⟨status, held, -⟩ := Decoder.Recalls.run (s := .initial) rom history initial_recalls
  dsimp only
  rw [← status, ← held]
  exact ⟨fun clean => ⟨clean.press, clean.hold, clean.inside, clean.fresh⟩,
    fun ⟨press, hold, inside, fresh⟩ => ⟨press, hold, inside, fresh⟩⟩

/-! ## All reports -/

/-- Every report of a sequence decodes from its own bytes and caps lock, with reads inside the
tables, if and only if every report is clean. -/
theorem reports_decode_iff (rom : Keymap → Byte → Byte) (reports : List Report) :
    EachStep (Watched.step rom) (Decodes rom) Watched.initial reports ↔
      Guarded (Watched.step rom) Clean Watched.initial reports := by
  apply eachStep_iff_guarded Consistent
  · intro s report stuck
    cases stuck
  · rintro s report _ consistent ⟨⟩
    exact decodes_iff_clean consistent
  · rintro s report _ consistent clean ⟨⟩
    exact ⟨status_next consistent, ((decodes_iff_clean consistent).mpr clean).caps⟩
  · exact consistent_initial

def characterAfter (rom : Keymap → Byte → Byte) (history : List Report) (report : Report) :
    Option Byte :=
  ((history.foldl (Watched.next rom) .initial).decoder.kbdFinish0x88 rom report).2.character

def capsAfter (rom : Keymap → Byte → Byte) (history : List Report) (report : Report) : Bool :=
  ((history.foldl (Watched.next rom) .initial).next rom report).caps

theorem character_fresh (consistent : Consistent s) (fresh : s.decoder.specialKeyStatus = 0)
    (other : report.code ≠ 0x39) :
    (s.decoder.kbdFinish0x88 rom report).2.character = characterOf rom report s.caps := by
  by_cases key : report.code = 0
  · rw [(finish_noKey key).1, characterOf, if_pos (Or.inl key)]
    rfl
  have hasCharacter : ¬ (report.code = 0 ∨ report.code = 0x39 ∧ statusOf report.modifier = none) := by
    rintro (noKey | ⟨caps, -⟩)
    · exact key noKey
    · exact other caps
  rw [characterOf, if_neg hasCharacter]
  cases status : statusOf report.modifier with
  | some status' =>
      have read := @character_eq rom { s.decoder with
          specialKeyStatus := status', specialKeyDown := true, specialKeyUp := false } s.caps
        report.code key (statusOf_mem status) consistent.caps
      rw [finish_known status, read]
      rfl
  | none =>
      have read := @character_eq rom { s.decoder with keyDown := true, keyUp := false } s.caps
        report.code key consistent.status consistent.caps
      rw [finish_key status key other, read]
      simp only [fresh, Option.getD_none]

/-- No other function of a report and caps lock can give the characters of all histories. -/
theorem characterOf_unique {f : Report → Bool → Option Byte}
    (fits : ∀ history report,
      characterAfter rom history report = f report (capsAfter rom history report))
    (other : report.code ≠ 0x39) (caps : Bool) : f report caps = characterOf rom report caps := by
  have notPressed : ∀ s : Watched, ¬ s.Presses report := fun s pressed => other pressed.1
  cases caps with
  | false =>
      have alone := fits [] report
      have off : capsAfter rom [] report = false := if_neg (notPressed _)
      rw [off] at alone
      exact alone.symm.trans (character_fresh consistent_initial rfl other)
  | true =>
      -- caps lock is pressed and released
      have after := fits [⟨0, 0x39⟩, ⟨0, 0⟩] report
      have on : capsAfter rom [⟨0, 0x39⟩, ⟨0, 0⟩] report = true := if_neg (notPressed _)
      have consistent : Consistent ([⟨0, 0x39⟩, ⟨0, 0⟩].foldl (Watched.next rom) .initial) :=
        ⟨List.mem_cons.mpr (Or.inl rfl), rfl⟩
      rw [on] at after
      exact after.symm.trans (character_fresh consistent rfl other)

/-- A key typed while shift is let go still comes as a capital, so no function of the report and
caps lock gives its character; and a key code of 0x80 is read behind the table. -/
theorem shift_outlives_report :
    (¬ ∃ f : Report → Bool → Option Byte, ∀ history report,
        characterAfter (fun _ _ => 0) history report =
          f report (capsAfter (fun _ _ => 0) history report)) ∧
      (Decoder.initial.kbdFinish0x88 (fun _ _ => 0) ⟨0, 0x80⟩).2.lookup = some ⟨.base, 0x80⟩ ∧
      ¬ ∀ reports, EachStep (Watched.step fun _ _ => 0) (Decodes fun _ _ => 0)
        Watched.initial reports := by
  refine ⟨?_, by decide, ?_⟩
  · rintro ⟨f, fits⟩
    have alone := fits [] ⟨0, 5⟩
    have behindShift := fits [⟨2, 4⟩] ⟨0, 5⟩
    have capsAlone : capsAfter (fun _ _ => 0) [] ⟨0, 5⟩ = false := by decide
    have capsBehind : capsAfter (fun _ _ => 0) [⟨2, 4⟩] ⟨0, 5⟩ = false := by decide
    have small : characterAfter (fun _ _ => 0) [] ⟨0, 5⟩ = some 0x62 := by decide
    have capital : characterAfter (fun _ _ => 0) [⟨2, 4⟩] ⟨0, 5⟩ = some 0x42 := by decide
    rw [small, capsAlone] at alone
    rw [capital, capsBehind, ← alone] at behindShift
    exact absurd behindShift (by decide)
  · intro all
    have inside := (all [⟨0, 0x80⟩] _ rfl).1.inside ⟨.base, 0x80⟩ (by decide)
    rw [Lookup.inside_iff] at inside
    exact absurd inside (by decide)

end OrionBios.UsbKeyboard
