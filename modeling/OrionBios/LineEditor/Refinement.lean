import OrionBios.LineEditor.Reference
import OrionBios.Transition.Runs

/-!
# The line editor refines the reference

The count of the lines, the cursor, the table and the line buffer say the same as the reference
editor: the line that is `k` back from the newest stands in slot `count - 1 - k` modulo sixteen.
-/

namespace OrionBios.LineEditor

open Buffers Libc Transition

/-! ## Strings in cells -/

/-- Some cells begin with a line and its terminator. -/
def Stores (cells : Nat → Char) (line : Line) : Prop :=
  bufferRead cells 0 (line.text.length + 1) = line.text ++ ['\x00']

variable {cells : Nat → Char} {line : Line}

theorem Stores.getElem (stores : Stores cells line) {index : Nat} (less : index < line.text.length) :
    cells index = line.text[index] := by
  have same : (bufferRead cells 0 (line.text.length + 1))[index]? =
      (line.text ++ ['\x00'])[index]? := by rw [stores]
  rw [List.getElem?_append_left less, List.getElem?_eq_getElem less] at same
  simpa [bufferRead, Nat.lt_succ_of_lt less] using same

theorem Stores.terminator (stores : Stores cells line) : cells line.text.length = '\x00' := by
  have same : (bufferRead cells 0 (line.text.length + 1))[line.text.length]? =
      (line.text ++ ['\x00'])[line.text.length]? := by rw [stores]
  rw [List.getElem?_concat_length] at same
  simpa [bufferRead] using same

theorem Stores.strlen_eq (stores : Stores cells line) : Editor.strlen cells = line.text.length := by
  have short : line.text.length < 2 ^ 32 := line.fits.trans (by decide)
  refine Local.strlenFrom_eq (fun index less zero => ?_) ?_ short
  · rw [Nat.zero_add, stores.getElem less] at zero
    exact line.noTerminator (zero ▸ List.getElem_mem less)
  · rw [Nat.zero_add]
    exact stores.terminator

theorem Stores.string_eq (stores : Stores cells line) : Editor.string cells = line.text := by
  have whole := stores
  rw [Stores, bufferRead_append] at whole
  rw [Editor.string, stores.strlen_eq]
  exact (List.append_inj whole (bufferRead_length ..)).1

theorem stores_write (cells : Nat → Char) (line : Line) :
    Stores (bufferWrite cells 0 (line.text ++ ['\x00'])) line := by
  have written := bufferRead_bufferWrite cells 0 (line.text ++ ['\x00'])
  rw [List.length_append, List.length_singleton] at written
  exact written

theorem stores_congr {cells cells' : Nat → Char}
    (same : ∀ column < LINE_MAX, cells column = cells' column) (line : Line) :
    Stores cells line ↔ Stores cells' line := by
  have read : bufferRead cells 0 (line.text.length + 1) =
      bufferRead cells' 0 (line.text.length + 1) := by
    apply bufferRead_congr
    intro index _ less
    rw [Nat.zero_add] at less
    exact same index (less.trans_le line.fits)
  rw [Stores, Stores, read]

/-- The first cell tells whether the line is empty. -/
theorem Stores.head_eq (stores : Stores cells line) : cells 0 = '\x00' ↔ line.text = [] := by
  constructor
  · intro zero
    by_contra nonempty
    have positive := List.length_pos_iff.mpr nonempty
    rw [stores.getElem positive] at zero
    exact line.noTerminator (zero ▸ List.getElem_mem positive)
  · intro empty
    have ends := stores.terminator
    rw [empty] at ends
    exact ends

/-! ## Editing -/

theorem Stores.begins (stores : Stores cells line) {count : Nat} (le : count ≤ line.text.length) :
    bufferRead cells 0 count = line.text.take count := by
  have whole : bufferRead cells 0 (line.text.length + 1) = line.text ++ ['\x00'] := stores
  obtain ⟨rest, length⟩ := Nat.exists_eq_add_of_le (Nat.le_add_right_of_le (k := 1) le)
  rw [length, bufferRead_append] at whole
  have first := congrArg (List.take count) whole
  rw [List.take_left' (bufferRead_length ..), List.take_append_of_le_length le] at first
  exact first

theorem Stores.backspace (stores : Stores cells line) :
    Stores (bufferWrite cells (line.text.length - 1) ['\x00']) line.backspace := by
  have begins := stores.begins (Nat.sub_le line.text.length 1)
  rw [← List.dropLast_eq_take] at begins
  have erased : bufferRead cells 0 line.backspace.text.length = line.backspace.text := by
    rw [Line.backspace, List.length_dropLast]
    exact begins
  have stored := bufferRead_extend erased ['\x00']
  rw [List.length_append, List.length_singleton] at stored
  rw [Stores, ← stored, Line.backspace, List.length_dropLast]

theorem Stores.insert (stores : Stores cells line) {letter : Char} (noNul : letter ≠ '\x00')
    (room : line.text.length < LINE_MAX - 1) :
    Stores (bufferWrite (bufferWrite cells line.text.length [letter]) (line.text.length + 1)
      ['\x00']) (line.insert letter noNul room) := by
  have begins := stores.begins (Nat.le_refl _)
  rw [List.take_length] at begins
  have inserted := bufferRead_extend begins [letter]
  have stored := bufferRead_extend inserted ['\x00']
  simp only [List.length_append, List.length_singleton] at stored
  rw [Stores, Line.insert]
  simp only [List.length_append, List.length_singleton]
  exact stored

theorem Line.backspace_of_empty (empty : line.text = []) : line.backspace = line := by
  obtain ⟨text, noTerminator, fits⟩ := line
  dsimp only at empty
  subst empty
  rfl

theorem stores_empty (cells : Nat → Char) : Stores (bufferWrite cells 0 ['\x00']) Line.empty :=
  stores_write cells Line.empty

theorem Stores.enter (stores : Stores cells line) :
    bufferWrite cells line.text.length ['\x00'] = cells := by
  funext index
  rcases Nat.lt_trichotomy index line.text.length with before | rfl | behind
  · exact bufferWrite_before before
  · rw [bufferWrite, if_pos (Nat.le_refl _), Nat.sub_self, stores.terminator]
    rfl
  · exact bufferWrite_behind behind

/-! ## The table -/

namespace Editor

variable {editor : Editor}

theorem slot_eq {count place : Nat} (counted : editor.histCount = count)
    (walks : editor.histCursor = place) (less : place < count)
    (bounded : count - 1 - place + HIST_SIZE < 2 ^ 31) :
    editor.slot = ((count - 1 - place) % HIST_SIZE : Nat) := by
  have sum : editor.histCount - 1 - editor.histCursor + HIST_SIZE =
      ((count - 1 - place + HIST_SIZE : Nat) : Int) := by
    rw [counted, walks]
    omega
  have same : int32 ((count - 1 - place + HIST_SIZE : Nat) : Int) =
      ((count - 1 - place + HIST_SIZE : Nat) : Int) := by
    apply Int.bmod_eq_of_le
    · omega
    · omega
  rw [slot, sum, same, ← Int.ofNat_tmod, Nat.add_mod_right]

theorem row_storeRow {history : Int → Char} {idx : Int} {text : List Char} {column : Nat}
    (inside : column < text.length) :
    storeRow history idx text (idx * LINE_MAX + column) = text[column] := by
  have offset : (idx * LINE_MAX + column - idx * LINE_MAX).toNat = column := by omega
  rw [storeRow, if_pos (by omega), offset, List.getD_eq_getElem _ _ inside]

theorem row_storeRow_of_ne {history : Int → Char} {idx idx' : Int} {text : List Char} {column : Nat}
    (fits : text.length ≤ LINE_MAX) (less : column < LINE_MAX) (differ : idx' ≠ idx) :
    storeRow history idx text (idx' * LINE_MAX + column) =
      history (idx' * LINE_MAX + column) := by
  unfold storeRow LINE_MAX at *
  split
  next le =>
    rw [List.getD_eq_default]
    omega
  · rfl

end Editor

theorem inside_touchLine {count : Nat} (le : count ≤ LINE_MAX) :
    ∀ access ∈ Editor.touchLine count, access.Inside := by
  intro access member
  obtain ⟨offset, inside, rfl⟩ := List.mem_map.mp member
  exact (List.mem_range.mp inside).trans_le le

theorem inside_touchRow {slot count : Nat} (less : slot < HIST_SIZE) (le : count ≤ LINE_MAX) :
    ∀ access ∈ Editor.touchRow slot count, access.Inside := by
  intro access member
  obtain ⟨column, inside, rfl⟩ := List.mem_map.mp member
  have bound := List.mem_range.mp inside
  unfold Access.Inside HIST_SIZE LINE_MAX at *
  dsimp only
  omega

/-! ## The relation -/

structure Shows (editor : Editor) (line : Line) : Prop where
  buf : Stores editor.buf line
  len : editor.len = line.text.length

/-- The count and the table hold the lines that were not empty. -/
structure Keeps (editor : Editor) (saved : List Line) : Prop where
  count : editor.histCount = saved.length
  row : ∀ place line, (saved.take HIST_SIZE)[place]? = some line →
    Stores (editor.row ((saved.length - 1 - place) % HIST_SIZE : Nat)) line

def cursorOf (place : Option Nat) : Int := place.elim (-1) fun place => place

structure Agrees (session : Session) (reference : Reference) : Prop where
  lines : session.lines = reference.entered.map (·.text)
  shows : Shows session.editor reference.line
  keeps : Keeps session.editor reference.saved
  cursor : session.editor.histCursor = cursorOf reference.place
  walks : ∀ place, reference.place = some place → place < reference.recallable.length
  inside : ∀ access ∈ session.editor.touched, access.Inside

section

variable {editor : Editor} {session : Session} {reference : Reference}

theorem inside_append {accesses more : List Access} (inside : ∀ access ∈ accesses, access.Inside)
    (inside' : ∀ access ∈ more, access.Inside) : ∀ access ∈ accesses ++ more, access.Inside := by
  intro access member
  rcases List.mem_append.mp member with before | behind
  · exact inside access before
  · exact inside' access behind

theorem inside_store {offset : Nat} (letter : Char) (less : offset < LINE_MAX)
    (inside : ∀ access ∈ editor.touched, access.Inside) :
    ∀ access ∈ (editor.store offset letter).touched, access.Inside := by
  apply inside_append inside
  intro access member
  rw [List.mem_singleton.mp member]
  exact less

theorem recallable_length : reference.recallable.length = min HIST_SIZE reference.saved.length := by
  unfold Reference.recallable
  rw [List.length_take]

theorem recall_shows {slot : Nat} {line : Line} (slotEq : editor.slot = slot)
    (less : slot < HIST_SIZE) (stores : Stores (editor.row slot) line)
    (inside : ∀ access ∈ editor.touched, access.Inside) :
    Shows editor.showRecalled line ∧ ∀ access ∈ editor.showRecalled.touched, access.Inside := by
  have text : Editor.string (editor.row editor.slot) = line.text := by
    rw [slotEq]
    exact stores.string_eq
  have stored := stores_write editor.buf line
  unfold Editor.showRecalled
  rw [text]
  refine ⟨⟨stored, stored.strlen_eq⟩, ?_⟩
  dsimp only
  rw [stored.strlen_eq, slotEq]
  exact inside_append (inside_append (inside_append inside (inside_touchRow less line.fits))
    (inside_touchLine line.fits)) (inside_touchLine line.fits)

theorem goTo_agrees (agrees : Agrees session reference) {place : Nat}
    (less : place < reference.recallable.length)
    (bounded : reference.saved.length - 1 - place + HIST_SIZE < 2 ^ 31) :
    Agrees { session with editor := Editor.showRecalled { session.editor with histCursor := place } }
      (reference.goTo place) := by
  have found := List.getElem?_eq_getElem less
  have among : place < reference.saved.length := by
    rw [recallable_length] at less
    exact less.trans_le (Nat.min_le_right _ _)
  have slotEq : Editor.slot { session.editor with histCursor := place } =
      ((reference.saved.length - 1 - place) % HIST_SIZE : Nat) :=
    Editor.slot_eq agrees.keeps.count rfl among bounded
  have row := agrees.keeps.row place _ found
  obtain ⟨shows, inside⟩ := recall_shows slotEq (Nat.mod_lt _ (by decide)) row agrees.inside
  have goTo : reference.goTo place =
      { reference with line := reference.recallable[place], place := some place } := by
    unfold Reference.goTo
    rw [found]
  rw [goTo]
  refine ⟨agrees.lines, shows, ⟨agrees.keeps.count, agrees.keeps.row⟩, rfl, ?_, inside⟩
  rintro place' ⟨⟩
  exact less

/-! ## The keys -/

theorem backspace_agrees (agrees : Agrees session reference) :
    Agrees { session with editor := session.editor.key KEY_BS }
      { reference with line := reference.line.backspace } := by
  have shows := agrees.shows
  unfold Editor.key
  rw [if_pos rfl]
  by_cases some : 0 < session.editor.len
  · rw [if_pos some]
    refine ⟨agrees.lines, ⟨?_, ?_⟩, ⟨agrees.keeps.count, agrees.keeps.row⟩, agrees.cursor,
      agrees.walks, ?_⟩
    · dsimp only [Editor.store]
      rw [shows.len]
      exact shows.buf.backspace
    · dsimp only
      rw [shows.len, Line.backspace, List.length_dropLast]
    · rw [shows.len]
      exact inside_store '\x00' ((Nat.sub_le _ _).trans_lt reference.line.fits) agrees.inside
  · rw [if_neg some]
    have empty : reference.line.text = [] := by
      rw [shows.len, Nat.pos_iff_ne_zero, not_not] at some
      exact List.length_eq_zero_iff.mp some
    rw [Line.backspace_of_empty empty]
    exact agrees

theorem insert_agrees (agrees : Agrees session reference) {c : Char} (noNul : c ≠ '\x00')
    (plain : c ≠ KEY_BS ∧ c ≠ KEY_UP ∧ c ≠ KEY_DOWN) :
    Agrees { session with editor := session.editor.key c }
      (if room : reference.line.text.length < LINE_MAX - 1 then
        { reference with line := reference.line.insert c noNul room }
      else reference) := by
  have shows := agrees.shows
  unfold Editor.key
  rw [if_neg plain.1, if_neg plain.2.1, if_neg plain.2.2, shows.len]
  by_cases room : reference.line.text.length < LINE_MAX - 1
  · rw [if_pos room, dif_pos room]
    refine ⟨agrees.lines, ⟨shows.buf.insert noNul room, ?_⟩,
      ⟨agrees.keeps.count, agrees.keeps.row⟩, agrees.cursor, agrees.walks, ?_⟩
    · dsimp only
      rw [Line.insert, List.length_append, List.length_singleton]
    · exact inside_store '\x00' (Nat.add_lt_of_lt_sub room)
        (inside_store c reference.line.fits agrees.inside)
  · rw [if_neg room, dif_neg room]
    exact agrees

theorem up_agrees (agrees : Agrees session reference)
    (bounded : reference.older < reference.recallable.length →
      reference.saved.length - 1 - reference.older + HIST_SIZE < 2 ^ 31) :
    Agrees { session with editor := session.editor.key KEY_UP }
      (reference.goTo reference.older) := by
  have older : session.editor.histCursor + 1 = reference.older := by
    rw [agrees.cursor, cursorOf, Reference.older]
    cases reference.place with
    | none => rfl
    | some place => rfl
  have moves : session.editor.histCursor + 1 < session.editor.histCount ∧
      session.editor.histCursor + 1 < HIST_SIZE ↔
        reference.older < reference.recallable.length := by
    rw [older, agrees.keeps.count, recallable_length]
    omega
  unfold Editor.key
  rw [if_neg (by decide), if_pos rfl]
  by_cases less : reference.older < reference.recallable.length
  · rw [if_pos (moves.mpr less), older]
    exact goTo_agrees agrees less (bounded less)
  · rw [if_neg (mt moves.mp less), Reference.goTo, List.getElem?_eq_none (Nat.le_of_not_lt less)]
    exact agrees

/-- What the reference does for the key that walks back to the newest line. -/
def Reference.newer (reference : Reference) : Reference :=
  match reference.place with
  | none => reference
  | some 0 => { reference with line := Line.empty, place := none }
  | some (place + 1) => reference.goTo place

theorem down_agrees (agrees : Agrees session reference)
    (bounded : ∀ place, reference.place = some (place + 1) →
      reference.saved.length - 1 - place + HIST_SIZE < 2 ^ 31) :
    Agrees { session with editor := session.editor.key KEY_DOWN } reference.newer := by
  have cursor := agrees.cursor
  unfold Editor.key Reference.newer
  rw [if_neg (by decide), if_neg (by decide), if_pos rfl]
  cases place : reference.place with
  | none =>
      rw [place] at cursor
      rw [cursor, if_neg (by decide), if_neg (by decide)]
      exact agrees
  | some current =>
      rw [place] at cursor
      cases current with
      | zero =>
          rw [cursor, if_neg (by decide), if_pos (by decide)]
          refine ⟨agrees.lines, ⟨stores_empty _, rfl⟩, ⟨agrees.keeps.count, agrees.keeps.row⟩, rfl,
            fun place none => absurd none (Option.some_ne_none place).symm,
            inside_store '\x00' (by decide) agrees.inside⟩
      | succ newer =>
          have positive : 0 < session.editor.histCursor := by
            rw [cursor]
            exact Int.natCast_pos.mpr (Nat.succ_pos newer)
          have less := agrees.walks (newer + 1) place
          have step : session.editor.histCursor - 1 = newer := by
            rw [cursor]
            exact Int.add_sub_cancel newer 1
          rw [if_pos positive, step]
          exact goTo_agrees agrees (Nat.lt_of_succ_lt less) (bounded newer place)

/-! ## The end of a line -/

theorem saved_append (entered : List Line) (line : Line) (line' : Line) (place : Option Nat) :
    Reference.saved { entered := entered ++ [line], line := line', place := place } =
      if line.text = [] then Reference.saved { entered := entered, line := line', place := place }
      else line :: Reference.saved { entered := entered, line := line', place := place } := by
  unfold Reference.saved
  dsimp only
  rw [List.filter_append, List.filter_singleton]
  by_cases empty : line.text = []
  · simp [empty]
  · simp [empty]

theorem historyAdd_keeps {saved : List Line} {line : Line} (keeps : Keeps editor saved)
    (stores : Stores editor.buf line) (nonempty : line.text ≠ [])
    (bounded : saved.length + 1 < 2 ^ 31) : Keeps editor.historyAdd (line :: saved) := by
  have first : editor.buf 0 ≠ '\x00' := mt stores.head_eq.mp nonempty
  have idx : editor.histCount.tmod HIST_SIZE = (saved.length % HIST_SIZE : Nat) := by
    rw [keeps.count, ← Int.ofNat_tmod]
  have text : (bufferRead editor.buf 0 (LINE_MAX - 1) ++ ['\x00']).length = LINE_MAX := by
    rw [List.length_append, bufferRead_length]
    rfl
  unfold Editor.historyAdd
  rw [if_neg first, idx]
  constructor
  · dsimp only
    rw [keeps.count]
    have next : (saved.length : Int) + 1 = ((saved.length + 1 : Nat) : Int) := rfl
    rw [next, List.length_cons]
    apply Int.bmod_eq_of_le
    · omega
    · omega
  · intro place other found
    rw [List.length_cons, Nat.add_sub_cancel]
    cases place with
    | zero =>
        have same : line = other := Option.some.inj found
        subst same
        rw [Nat.sub_zero, Stores, ← stores]
        apply bufferRead_congr
        intro column _ less
        rw [Nat.zero_add] at less
        have fits := line.fits
        have inside : column < (bufferRead editor.buf 0 (LINE_MAX - 1) ++ ['\x00']).length := by
          omega
        dsimp only [Editor.row]
        rw [Editor.row_storeRow inside]
        by_cases last : column < LINE_MAX - 1
        · rw [List.getElem_append_left (by rw [bufferRead_length]; exact last)]
          simp [bufferRead]
        · -- a line of 127 characters ends with the terminator the library call did not store
          have ends : column = line.text.length := by
            unfold LINE_MAX at *
            omega
          have cell : editor.buf column = '\x00' := ends.symm ▸ stores.terminator
          rw [List.getElem_append_right (by rw [bufferRead_length]; omega), cell,
            List.getElem_singleton]
    | succ place =>
        have earlier : (saved.take HIST_SIZE)[place]? = some other ∧ place + 1 < HIST_SIZE := by
          have less := (List.getElem?_eq_some_iff.mp found).1
          rw [List.length_take] at less
          have inside : place + 1 < HIST_SIZE := less.trans_le (Nat.min_le_left _ _)
          rw [List.getElem?_take_of_lt inside, List.getElem?_cons_succ] at found
          rw [List.getElem?_take_of_lt (Nat.lt_of_succ_lt inside)]
          exact ⟨found, inside⟩
        have among : place < saved.length := by
          have less := (List.getElem?_eq_some_iff.mp earlier.1).1
          rw [List.length_take] at less
          exact less.trans_le (Nat.min_le_right _ _)
        have position : saved.length - (place + 1) = saved.length - 1 - place := by omega
        have differ : (((saved.length - 1 - place) % HIST_SIZE : Nat) : Int) ≠
            (saved.length % HIST_SIZE : Nat) := by
          have apart := @mod_ne_of_lt HIST_SIZE (saved.length - 1 - place) 0 (place + 1)
            (Nat.succ_pos place) (by omega)
          have newest : saved.length - 1 - place + (place + 1) = saved.length := by omega
          rw [Nat.add_zero, newest] at apart
          exact fun same => apart (Int.ofNat_inj.mp same)
        rw [position]
        refine (stores_congr (fun column less => ?_) other).mp (keeps.row place other earlier.1)
        dsimp only [Editor.row]
        rw [Editor.row_storeRow_of_ne (Nat.le_of_eq text) less differ]

theorem historyAdd_touched {saved : List Line} (keeps : Keeps editor saved)
    (inside : ∀ access ∈ editor.touched, access.Inside) :
    ∀ access ∈ editor.historyAdd.touched, access.Inside := by
  unfold Editor.historyAdd
  split
  · exact inside_append inside (inside_touchLine (by decide))
  · have idx : editor.histCount.tmod HIST_SIZE = (saved.length % HIST_SIZE : Nat) := by
      rw [keeps.count, ← Int.ofNat_tmod]
    dsimp only
    rw [idx]
    exact inside_append (inside_append inside (inside_touchLine (Nat.sub_le _ _)))
      (inside_touchRow (Nat.mod_lt _ (by decide)) (Nat.le_refl _))

/-- `readline_with_history` begins anew. -/
theorem start_agrees {editor : Editor} {entered : List Line} {lines : List (List Char)}
    (same : lines = entered.map (·.text))
    (keeps : Keeps editor (Reference.saved ⟨entered, Line.empty, none⟩))
    (inside : ∀ access ∈ editor.touched, access.Inside) :
    Agrees { editor := editor.start, lines := lines } ⟨entered, Line.empty, none⟩ where
  lines := same
  shows := ⟨stores_empty _, rfl⟩
  keeps := ⟨keeps.count, keeps.row⟩
  cursor := rfl
  walks := fun place none => absurd none (Option.some_ne_none place).symm
  inside := inside_store '\x00' (by decide) inside

theorem enter_agrees (agrees : Agrees session reference) (left : Nat → Char)
    (bounded : reference.line.text ≠ [] → reference.saved.length + 1 < 2 ^ 31) :
    Agrees
      { editor := Editor.start { session.editor.enter.historyAdd with buf := left }
        lines := session.lines ++ [Editor.string session.editor.enter.buf] }
      { entered := reference.entered ++ [reference.line], line := Line.empty, place := none } := by
  have shows := agrees.shows
  have buf : session.editor.enter.buf = session.editor.buf := by
    unfold Editor.enter Editor.store
    rw [shows.len]
    exact shows.buf.enter
  have stores : Stores session.editor.enter.buf reference.line := buf.symm ▸ shows.buf
  have ended : Keeps session.editor.enter reference.saved :=
    ⟨agrees.keeps.count, agrees.keeps.row⟩
  have inside : ∀ access ∈ session.editor.enter.touched, access.Inside := by
    apply inside_store '\x00' _ agrees.inside
    rw [shows.len]
    exact reference.line.fits
  apply start_agrees
  · rw [stores.string_eq, agrees.lines, List.map_append]
    rfl
  · rw [saved_append]
    by_cases empty : reference.line.text = []
    · have unchanged : session.editor.enter.historyAdd =
          { session.editor.enter with
            touched := session.editor.enter.touched ++ Editor.touchLine 1 } := by
        unfold Editor.historyAdd
        rw [if_pos (stores.head_eq.mpr empty)]
      rw [if_pos empty, unchanged]
      exact ⟨ended.count, ended.row⟩
    · have added := historyAdd_keeps ended stores empty (bounded empty)
      rw [if_neg empty]
      exact ⟨added.count, added.row⟩
  · exact historyAdd_touched ended inside

/-! ## Runs -/

theorem step_agrees (agrees : Agrees session reference) {received : Received}
    (counted : reference.Counted received) :
    Agrees (session.step received) (reference.step received) := by
  unfold Session.step Reference.step
  by_cases enter : received.byte = KEY_ENTER
  · rw [if_pos enter, if_pos enter]
    exact enter_agrees agrees received.left (counted.counts enter)
  rw [if_neg enter, if_neg enter]
  by_cases backspace : received.byte = KEY_BS
  · rw [if_pos backspace, backspace]
    exact backspace_agrees agrees
  rw [if_neg backspace]
  by_cases up : received.byte = KEY_UP
  · rw [if_pos up, up]
    exact up_agrees agrees (counted.recallsOlder up)
  rw [if_neg up]
  by_cases down : received.byte = KEY_DOWN
  · rw [if_pos down, down]
    exact down_agrees agrees (counted.recallsNewer down)
  · rw [if_neg down]
    exact insert_agrees agrees received.noNul ⟨backspace, up, down⟩

theorem initial_agrees (history : Int → Char) (buf : Nat → Char) :
    Agrees (Session.initial history buf) Reference.initial := by
  apply start_agrees
  · rfl
  · exact ⟨rfl, fun place line none => absurd none (Option.some_ne_none line).symm⟩
  · exact fun access none => absurd none List.not_mem_nil

end

/-- The run of the reference for the bytes received. -/
def referenceStep (reference : Reference) (received : Received) : Option Reference :=
  some (reference.step received)

theorem run_agrees {session : Session} {reference : Reference} (agrees : Agrees session reference)
    (bytes : List Received) (counted : Guarded referenceStep Reference.Counted reference bytes) :
    Agrees (bytes.foldl Session.step session) (bytes.foldl Reference.step reference) := by
  induction bytes generalizing session reference with
  | nil => exact agrees
  | cons received bytes inductionHypothesis =>
      exact inductionHypothesis (step_agrees agrees counted.1) (counted.2 _ rfl)

/-- The editor looks like the reference editor from outside: it has returned the same lines, holds
the same line, and has stayed inside its two arrays. -/
structure Behaves (session : Session) (reference : Reference) : Prop where
  lines : session.lines = reference.entered.map (·.text)
  line : Editor.string session.editor.buf = reference.line.text
  inside : ∀ access ∈ session.editor.touched, access.Inside

theorem Agrees.behaves {session : Session} {reference : Reference}
    (agrees : Agrees session reference) : Behaves session reference where
  lines := agrees.lines
  line := agrees.shows.buf.string_eq
  inside := agrees.inside

/-! ## Runs of one line after the other -/

def typed (byte : Char) (noNul : byte ≠ '\x00') : Received where
  byte := byte
  noNul := noNul
  left := fun _ => '\x00'

/-- The line `a` and the key that ends it. -/
def lineOfA : List Received := [typed 'a' (by decide), typed KEY_ENTER (by decide)]

def linesOfA (count : Nat) : List Received := (List.replicate count lineOfA).flatten

/-- Some lines have been entered, and nothing is typed yet. -/
structure Fresh (reference : Reference) (count : Nat) : Prop where
  line : reference.line = Line.empty
  place : reference.place = none
  saved : reference.saved.length = count

theorem Fresh.lineOfA {reference : Reference} {count : Nat} (fresh : Fresh reference count)
    (bounded : count + 1 < 2 ^ 31) {rest : List Received} :
    (Guarded referenceStep Reference.Counted (lineOfA.foldl Reference.step reference) rest →
      Guarded referenceStep Reference.Counted reference (lineOfA ++ rest)) ∧
      Fresh (lineOfA.foldl Reference.step reference) (count + 1) := by
  obtain ⟨entered, line, place⟩ := reference
  obtain ⟨line, place, saved⟩ := fresh
  dsimp only at line place
  subst line place
  have written : Reference.step ⟨entered, Line.empty, none⟩ (typed 'a' (by decide)) =
      ⟨entered, Line.empty.insert 'a' (by decide) (by decide), none⟩ := rfl
  have ended : Reference.step ⟨entered, Line.empty.insert 'a' (by decide) (by decide), none⟩
      (typed KEY_ENTER (by decide)) =
      ⟨entered ++ [Line.empty.insert 'a' (by decide) (by decide)], Line.empty, none⟩ := rfl
  have after : LineEditor.lineOfA.foldl Reference.step ⟨entered, Line.empty, none⟩ =
      ⟨entered ++ [Line.empty.insert 'a' (by decide) (by decide)], Line.empty, none⟩ := by
    rw [LineEditor.lineOfA, List.foldl_cons, List.foldl_cons, List.foldl_nil, written, ended]
  have same : Reference.saved ⟨entered, Line.empty.insert 'a' (by decide) (by decide), none⟩ =
      Reference.saved ⟨entered, Line.empty, none⟩ := rfl
  rw [after]
  refine ⟨fun guarded => ⟨⟨fun enter => ?_, fun up => ?_, fun down => ?_⟩, ?_⟩, rfl, rfl, ?_⟩
  · exact absurd enter (by decide)
  · exact absurd up (by decide)
  · exact absurd down (by decide)
  · rintro next ⟨⟩
    rw [written]
    refine ⟨⟨fun _ _ => ?_, fun up => ?_, fun down => ?_⟩, ?_⟩
    · rw [same, saved]
      exact bounded
    · exact absurd up (by decide)
    · exact absurd down (by decide)
    · rintro next ⟨⟩
      rw [ended]
      exact guarded
  · rw [saved_append, if_neg (by decide), List.length_cons, saved]

theorem Fresh.linesOfA {reference : Reference} {start : Nat} (fresh : Fresh reference start)
    (count : Nat) (bounded : start + count < 2 ^ 31) :
    Guarded referenceStep Reference.Counted reference (linesOfA count) ∧
      Fresh ((LineEditor.linesOfA count).foldl Reference.step reference) (start + count) := by
  induction count generalizing reference start with
  | zero => exact ⟨trivial, fresh⟩
  | succ count inductionHypothesis =>
      obtain ⟨guarded, fresh⟩ := @Fresh.lineOfA _ _ fresh (by omega) (LineEditor.linesOfA count)
      obtain ⟨guarded', fresh'⟩ := inductionHypothesis fresh (by omega)
      have more : LineEditor.linesOfA (count + 1) =
          LineEditor.lineOfA ++ LineEditor.linesOfA count := by
        rw [LineEditor.linesOfA, List.replicate_succ, List.flatten_cons, LineEditor.linesOfA]
      rw [more, List.foldl_append]
      refine ⟨guarded guarded', ?_⟩
      rw [Nat.add_comm count 1, ← Nat.add_assoc]
      exact fresh'

/-! ## The count of the lines -/

/-- As long as the count of the lines and the slots computed from it fit an `int`, the editor
behaves as the reference. -/
theorem editor_behaves (history : Int → Char) (buf : Nat → Char) (bytes : List Received)
    (counted : Guarded referenceStep Reference.Counted Reference.initial bytes) :
    Behaves (bytes.foldl Session.step (Session.initial history buf))
      (bytes.foldl Reference.step Reference.initial) :=
  (run_agrees (initial_agrees history buf) bytes counted).behaves

theorem saved_length_le (reference : Reference) :
    reference.saved.length ≤ reference.entered.length := by
  unfold Reference.saved
  rw [List.length_reverse]
  exact List.length_filter_le _ _

theorem entered_step (reference : Reference) (received : Received) :
    (reference.step received).entered.length ≤ reference.entered.length + 1 := by
  unfold Reference.step Reference.goTo
  split
  · rw [List.length_append, List.length_singleton]
  all_goals
    repeat' split
    all_goals exact Nat.le_succ _

/-- Fewer keys than an `int` counts are always within the condition. -/
theorem counted_of_short {reference : Reference} {bytes : List Received}
    (short : reference.entered.length + bytes.length + HIST_SIZE < 2 ^ 31) :
    Guarded referenceStep Reference.Counted reference bytes := by
  induction bytes generalizing reference with
  | nil => trivial
  | cons received rest inductionHypothesis =>
      have saved := saved_length_le reference
      rw [List.length_cons] at short
      refine ⟨⟨fun _ _ => ?_, fun _ _ => ?_, fun _ _ _ => ?_⟩, fun next taken => ?_⟩
      · omega
      · omega
      · omega
      · cases taken
        have entered := entered_step reference received
        exact inductionHypothesis (by omega)

/-- `a` and `bc` are entered; the walk goes back to `a` and returns to `bc`, which becomes `bd`. -/
def recallingKeys : List Received :=
  [typed 'a' (by decide), typed KEY_ENTER (by decide), typed 'b' (by decide), typed 'c' (by decide),
    typed KEY_ENTER (by decide), typed KEY_UP (by decide), typed KEY_UP (by decide),
    typed KEY_DOWN (by decide), typed KEY_BS (by decide), typed 'd' (by decide),
    typed KEY_ENTER (by decide)]

theorem editor_behaves_recalling :
    ((recallingKeys.foldl Reference.step Reference.initial).entered.map fun line => line.text) =
        [['a'], ['b', 'c'], ['b', 'd']] ∧
      Behaves
        (recallingKeys.foldl Session.step (Session.initial (fun _ => '\x00') fun _ => '\x00'))
        (recallingKeys.foldl Reference.step Reference.initial) :=
  ⟨by decide +kernel, editor_behaves _ _ _ (counted_of_short (by decide))⟩

/-- With as many lines counted as an `int` can count, the slot of the newest is computed as -2. -/
theorem newest_outside {editor : Editor} (count : editor.histCount = 2147483647)
    (cursor : editor.histCursor = -1) :
    ¬∀ access ∈ (editor.key KEY_UP).touched, access.Inside := by
  intro inside
  have moves : editor.histCursor + 1 < editor.histCount ∧ editor.histCursor + 1 < HIST_SIZE := by
    rw [count, cursor]
    decide
  have slot : Editor.slot { editor with histCursor := editor.histCursor + 1 } = -2 := by
    unfold Editor.slot
    dsimp only
    rw [count, cursor]
    decide
  have outside := inside (.history (-2 * LINE_MAX + (0 : Nat))) (by
    unfold Editor.key
    rw [if_neg (by decide), if_pos rfl, if_pos moves]
    unfold Editor.showRecalled
    dsimp only
    rw [slot]
    apply List.mem_append_left
    apply List.mem_append_left
    apply List.mem_append_right
    exact List.mem_map.mpr ⟨0, List.mem_range.mpr (Nat.succ_pos _), rfl⟩)
  exact absurd outside.1 (by decide)

/-- After 2147483647 lines the next key for an older line reads in front of the table. -/
theorem recall_overruns :
    ¬Behaves
      ((linesOfA 2147483647 ++ [typed KEY_UP (by decide)]).foldl Session.step
        (Session.initial (fun _ => '\x00') fun _ => '\x00'))
      ((linesOfA 2147483647 ++ [typed KEY_UP (by decide)]).foldl Reference.step
        Reference.initial) := by
  generalize counted : 2147483647 = count
  have start : Fresh Reference.initial 0 := ⟨rfl, rfl, rfl⟩
  obtain ⟨guarded, fresh⟩ := start.linesOfA count (by omega)
  have agrees := run_agrees (initial_agrees (fun _ => '\x00') fun _ => '\x00')
    (linesOfA count) guarded
  rw [List.foldl_append, List.foldl_append]
  generalize (linesOfA count).foldl Session.step
    (Session.initial (fun _ => '\x00') fun _ => '\x00') = session at agrees ⊢
  generalize (linesOfA count).foldl Reference.step Reference.initial = reference at agrees fresh ⊢
  have histCount : session.editor.histCount = 2147483647 := by
    rw [agrees.keeps.count, fresh.saved, Nat.zero_add, ← counted]
    rfl
  have histCursor : session.editor.histCursor = -1 := by
    rw [agrees.cursor, fresh.place]
    rfl
  intro behaves
  exact newest_outside histCount histCursor behaves.inside

end OrionBios.LineEditor
