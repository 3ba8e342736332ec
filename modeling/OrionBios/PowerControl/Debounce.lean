import OrionBios.PowerControl.Model
import Mathlib.Data.List.SplitBy

/-!
# Debouncing on a clock that wraps

The three filtered inputs on the 32-bit clock of `millis`. A sample is one call of a filter: some
time goes by before its first reading of the clock, and some between its two readings. A stretch is
a longest run of samples of one level, and it lasts from the first reading of its first sample to
the second one of its last.
-/

namespace OrionBios.PowerControl.Debounce

abbrev Millis := BitVec 32

structure Sample where
  gaps : Nat × Nat
  level : Bool
  deriving DecidableEq

/-- The time from one sample's end to the end of the next. -/
def Sample.span (sample : Sample) : Nat := sample.gaps.1 + sample.gaps.2

/-- A filtered input: the level taken as real, the last raw level and when it changed. -/
structure Filter32 where
  stableState : Bool
  lastRaw : Bool
  lastChangeTime : Millis
  deriving DecidableEq

def sampled32 (raw : Bool) (now : Millis) (f : Filter32) : Filter32 :=
  if raw = f.lastRaw then f else { f with lastChangeTime := now, lastRaw := raw }

def filtered32 (debounceMs : Nat) (raw : Bool) (now : Millis) (f : Filter32) : Filter32 :=
  if debounceMs ≤ (now - f.lastChangeTime).toNat then { f with stableState := raw } else f

structure Input where
  filter : Filter32
  millis : Millis
  deriving DecidableEq

/-- As the program declares it, with the clock anywhere. -/
def Input.initial (millis : Millis) : Input := ⟨⟨true, true, 0⟩, millis⟩

/-- What the three filters do with a sample. -/
def Input.read (debounceMs : Nat) (input : Input) (sample : Sample) : Input :=
  let now := input.millis + BitVec.ofNat 32 sample.gaps.1
  let filter := sampled32 sample.level now input.filter
  let now := now + BitVec.ofNat 32 sample.gaps.2
  ⟨filtered32 debounceMs sample.level now filter, now⟩

def readCpuFeedbackFiltered : Input → Sample → Input := Input.read CPU_FEEDBACK_DEBOUNCE_MS

def readCpuPowerDownFiltered : Input → Sample → Input := Input.read CPU_POWERDOWN_DEBOUNCE_MS

structure Button where
  input : Input
  outputState : Bool
  deriving DecidableEq

def Button.initial (millis : Millis) : Button := ⟨.initial millis, false⟩

def dbounce (button : Button) (sample : Sample) : Button :=
  let input := button.input.read DEBOUNCE_MS sample
  if button.input.filter.stableState ∧ ¬ input.filter.stableState then
    ⟨input, !button.outputState⟩
  else ⟨input, button.outputState⟩

def toggles : Button → List Sample → Nat
  | _, [] => 0
  | button, sample :: rest =>
      (if (dbounce button sample).outputState = button.outputState then 0 else 1) +
        toggles (dbounce button sample) rest

/-! ## Stretches -/

/-- The longest runs of samples of one level. -/
def stretches (samples : List Sample) : List (List Sample) :=
  samples.splitBy fun first second => first.level == second.level

/-- The time spanned by samples, from the end of what is before them. -/
def spans : List Sample → Nat
  | [] => 0
  | sample :: rest => sample.span + spans rest

/-- How long a stretch lasts. -/
def duration : List Sample → Nat
  | [] => 0
  | first :: rest => first.gaps.2 + spans rest

def levelOf : List Sample → Bool
  | [] => true
  | first :: _ => first.level

/-- The level of the last stretch that lasts for the window, and HIGH before the first one. -/
def accepted (debounceMs : Nat) (stretches : List (List Sample)) : Bool :=
  stretches.foldl
    (fun level stretch => if debounceMs ≤ duration stretch then levelOf stretch else level) true

/-- No two samples are 2³¹ ms apart. -/
def Close (samples : List Sample) : Prop := ∀ sample ∈ samples, sample.span < 2 ^ 31

instance (samples : List Sample) : Decidable (Close samples) :=
  inferInstanceAs (Decidable (∀ sample ∈ samples, sample.span < 2 ^ 31))

/-- Stretches of levels that alternate, the first one against the given level. -/
def Alternating : Bool → List (List Sample) → Prop
  | _, [] => True
  | level, stretch :: rest =>
      stretch ≠ [] ∧ (∀ sample ∈ stretch, sample.level = !level) ∧ Alternating (!level) rest

theorem level_of_isChain {first : Sample} {rest : List Sample}
    (chain : (first :: rest).IsChain fun a b => (a.level == b.level) = true) :
    ∀ sample ∈ first :: rest, sample.level = first.level := by
  induction rest generalizing first with
  | nil =>
      intro sample member
      rw [List.mem_singleton.mp member]
  | cons second rest inductionHypothesis =>
      obtain ⟨same, chain⟩ := List.isChain_cons_cons.mp chain
      intro sample member
      rcases List.mem_cons.mp member with rfl | later
      · rfl
      · rw [inductionHypothesis chain sample later, ← beq_iff_eq.mp same]

theorem alternating_of_isChain : ∀ {parts : List (List Sample)} {level : Bool},
    (∀ part ∈ parts, part ≠ [] ∧ part.IsChain fun a b => (a.level == b.level) = true) →
      (parts.IsChain fun a b => ∃ ha hb, ((a.getLast ha).level == (b.head hb).level) = false) →
        (∀ first ∈ parts.head?, levelOf first = !level) → Alternating level parts := by
  intro parts
  induction parts with
  | nil => exact fun _ _ _ => trivial
  | cons part rest inductionHypothesis =>
      intro level uniform differ starts
      obtain ⟨some, chain⟩ := uniform part List.mem_cons_self
      obtain ⟨between, later⟩ := List.isChain_cons.mp differ
      have start : levelOf part = !level := starts part rfl
      obtain ⟨first, more, rfl⟩ := List.exists_cons_of_ne_nil some
      have same : ∀ sample ∈ first :: more, sample.level = !level := fun sample member =>
        (level_of_isChain chain sample member).trans start
      refine ⟨some, same, inductionHypothesis
        (fun other member => uniform other (List.mem_cons_of_mem _ member)) later ?_⟩
      intro next isNext
      obtain ⟨last, head, unequal⟩ := between next isNext
      obtain ⟨sample, others, rfl⟩ := List.exists_cons_of_ne_nil head
      rw [same _ (List.getLast_mem last)] at unequal
      exact (Bool.eq_not_of_ne (ne_of_beq_false unequal).symm)

theorem stretches_alternating (samples : List Sample) :
    ∃ level, Alternating level (stretches samples) := by
  refine ⟨!levelOf ((stretches samples).headD []), alternating_of_isChain ?_
    (List.isChain_getLast_head_splitBy (fun a b => a.level == b.level) samples) ?_⟩
  · intro part member
    exact ⟨List.ne_nil_of_mem_splitBy member, List.isChain_of_mem_splitBy member⟩
  · intro first isFirst
    rw [Bool.not_not, List.headD_eq_head?_getD, isFirst]
    rfl

theorem stretches_flatten (samples : List Sample) : (stretches samples).flatten = samples :=
  List.flatten_splitBy _ samples

/-! ## One stretch -/

variable {debounceMs : Nat} {input : Input} {level : Bool}

/-- Within a stretch: how long it has lasted, and the level that was taken as real before it. -/
structure Within (debounceMs : Nat) (level before : Bool) (elapsed : Nat) (input : Input) :
    Prop where
  lastRaw : input.filter.lastRaw = level
  time : input.millis = input.filter.lastChangeTime + BitVec.ofNat 32 elapsed
  stable : input.filter.stableState = if debounceMs ≤ elapsed then level else before

/-- The filter's second reading, as long as the clock has not come round before a first success. -/
theorem filtered32_within {before : Bool} {elapsed gap : Nat} {f : Filter32} {now : Millis}
    (short : debounceMs ≤ 2 ^ 31) (close : gap < 2 ^ 31) (lastRaw : f.lastRaw = level)
    (time : now = f.lastChangeTime + BitVec.ofNat 32 (elapsed + gap))
    (stable : f.stableState = if debounceMs ≤ elapsed then level else before) :
    Within debounceMs level before (elapsed + gap) ⟨filtered32 debounceMs level now f, now⟩ := by
  have distance : (now - f.lastChangeTime).toNat = (elapsed + gap) % 2 ^ 32 := by
    rw [time, BitVec.add_comm, BitVec.add_sub_cancel, BitVec.toNat_ofNat]
  unfold filtered32
  rw [distance]
  by_cases already : debounceMs ≤ elapsed
  · rw [if_pos already] at stable
    split
    · exact ⟨lastRaw, time, (if_pos (by omega)).symm⟩
    · refine ⟨lastRaw, time, ?_⟩
      rw [if_pos (by omega)]
      exact stable
  · rw [if_neg already] at stable
    rw [Nat.mod_eq_of_lt (by omega)]
    split
    · next long => exact ⟨lastRaw, time, (if_pos long).symm⟩
    · next brief =>
        refine ⟨lastRaw, time, ?_⟩
        rw [if_neg brief]
        exact stable

theorem Within.read {before : Bool} {elapsed : Nat} {sample : Sample}
    (short : debounceMs ≤ 2 ^ 31) (within : Within debounceMs level before elapsed input)
    (same : sample.level = level) (close : sample.span < 2 ^ 31) :
    Within debounceMs level before (elapsed + sample.span) (input.read debounceMs sample) := by
  obtain ⟨lastRaw, time, stable⟩ := within
  have kept : ∀ now, sampled32 sample.level now input.filter = input.filter := fun now =>
    if_pos (same.trans lastRaw.symm)
  unfold Input.read
  dsimp only
  rw [kept, same]
  refine filtered32_within short close lastRaw ?_ stable
  rw [time, Sample.span, BitVec.ofNat_add, BitVec.ofNat_add, BitVec.add_assoc, BitVec.add_assoc]

/-- The first sample of a stretch starts the time. -/
theorem Within.first {sample : Sample} (short : debounceMs ≤ 2 ^ 31) (some : 0 < debounceMs)
    (changes : input.filter.lastRaw = !sample.level) (close : sample.span < 2 ^ 31) :
    Within debounceMs sample.level input.filter.stableState sample.gaps.2
      (input.read debounceMs sample) := by
  have gap : sample.gaps.2 < 2 ^ 31 := Nat.lt_of_le_of_lt (Nat.le_add_left _ _) close
  unfold Input.read sampled32
  dsimp only
  rw [changes, if_neg (by cases sample.level <;> decide)]
  have within := @filtered32_within debounceMs sample.level input.filter.stableState 0 sample.gaps.2
    { input.filter with
      lastChangeTime := input.millis + BitVec.ofNat 32 sample.gaps.1
      lastRaw := sample.level }
    (input.millis + BitVec.ofNat 32 sample.gaps.1 + BitVec.ofNat 32 sample.gaps.2) short gap rfl
  rw [Nat.zero_add] at within
  exact within rfl (if_neg (Nat.not_le_of_lt some)).symm

theorem Within.readAll {before : Bool} {elapsed : Nat} {samples : List Sample}
    (short : debounceMs ≤ 2 ^ 31) (within : Within debounceMs level before elapsed input)
    (same : ∀ sample ∈ samples, sample.level = level) (close : Close samples) :
    Within debounceMs level before (elapsed + spans samples)
      (samples.foldl (Input.read debounceMs) input) := by
  induction samples generalizing input elapsed with
  | nil => exact within
  | cons sample rest inductionHypothesis =>
      have next := within.read short (same sample List.mem_cons_self)
        (close sample List.mem_cons_self)
      rw [spans, ← Nat.add_assoc]
      exact inductionHypothesis next
        (fun other member => same other (List.mem_cons_of_mem _ member))
        (fun other member => close other (List.mem_cons_of_mem _ member))

/-! ## All stretches -/

/-- The input stands before the first of the stretches. At the start this one may be HIGH, which is
the level that the filter was declared with. -/
def Ready (input : Input) (parts : List (List Sample)) : Prop :=
  Alternating input.filter.lastRaw parts ∨
    Alternating false parts ∧ input.filter.lastRaw = true ∧ input.filter.stableState = true

theorem ready_initial (millis : Millis) (samples : List Sample) :
    Ready (.initial millis) (stretches samples) := by
  obtain ⟨level, alternating⟩ := stretches_alternating samples
  cases level with
  | false => exact .inr ⟨alternating, rfl, rfl⟩
  | true => exact .inl alternating

/-- What a stretch makes of the level taken as real. -/
def accept (debounceMs : Nat) (level : Bool) (stretch : List Sample) : Bool :=
  if debounceMs ≤ duration stretch then levelOf stretch else level

theorem readAll_same {samples : List Sample} (same : ∀ sample ∈ samples, sample.level = true)
    (lastRaw : input.filter.lastRaw = true) (stable : input.filter.stableState = true) :
    (samples.foldl (Input.read debounceMs) input).filter.lastRaw = true ∧
      (samples.foldl (Input.read debounceMs) input).filter.stableState = true := by
  induction samples generalizing input with
  | nil => exact ⟨lastRaw, stable⟩
  | cons sample rest inductionHypothesis =>
      have high := same sample List.mem_cons_self
      have kept : ∀ now, sampled32 sample.level now input.filter = input.filter := fun now =>
        if_pos (high.trans lastRaw.symm)
      refine inductionHypothesis (fun other member => same other (List.mem_cons_of_mem _ member)) ?_ ?_
      all_goals
        unfold Input.read filtered32
        dsimp only
        rw [kept]
        split
      · exact lastRaw
      · exact lastRaw
      · exact high
      · exact stable

theorem Ready.stretch {stretch : List Sample} {more : List (List Sample)}
    (short : debounceMs ≤ 2 ^ 31) (some : 0 < debounceMs) (ready : Ready input (stretch :: more))
    (close : Close stretch) :
    (stretch.foldl (Input.read debounceMs) input).filter.stableState =
        accept debounceMs input.filter.stableState stretch ∧
      Ready (stretch.foldl (Input.read debounceMs) input) more := by
  rcases ready with ⟨notEmpty, same, others⟩ | ⟨⟨notEmpty, same, others⟩, lastRaw, stable⟩
  · obtain ⟨first, rest, rfl⟩ := List.exists_cons_of_ne_nil notEmpty
    have level := same first List.mem_cons_self
    have begun := Within.first short some (by rw [level, Bool.not_not])
      (close first List.mem_cons_self)
    obtain ⟨lastRaw, -, stable⟩ := begun.readAll short
      (fun sample member => (same sample (List.mem_cons_of_mem _ member)).trans level.symm)
      (fun sample member => close sample (List.mem_cons_of_mem _ member))
    refine ⟨stable, .inl ?_⟩
    rw [List.foldl_cons, lastRaw, level]
    exact others
  · have high := @readAll_same debounceMs _ _ same lastRaw stable
    have level : levelOf stretch = true := by
      obtain ⟨first, rest, rfl⟩ := List.exists_cons_of_ne_nil notEmpty
      exact same first List.mem_cons_self
    refine ⟨?_, .inl ?_⟩
    · rw [high.2, accept, level, stable, ite_self]
    · rw [high.1]
      exact others

theorem Ready.stretches {parts more : List (List Sample)} (short : debounceMs ≤ 2 ^ 31)
    (some : 0 < debounceMs) (ready : Ready input (parts ++ more)) (close : Close parts.flatten) :
    (parts.flatten.foldl (Input.read debounceMs) input).filter.stableState =
        parts.foldl (accept debounceMs) input.filter.stableState ∧
      Ready (parts.flatten.foldl (Input.read debounceMs) input) more := by
  induction parts generalizing input with
  | nil => exact ⟨rfl, ready⟩
  | cons stretch rest inductionHypothesis =>
      rw [List.flatten_cons] at close ⊢
      obtain ⟨stable, ready⟩ := Ready.stretch short some ready
        (fun sample member => close sample (List.mem_append_left _ member))
      rw [List.foldl_append, List.foldl_cons, ← stable]
      exact inductionHypothesis ready fun sample member =>
        close sample (List.mem_append_right _ member)

theorem stableState_eq (short : debounceMs ≤ 2 ^ 31) (some : 0 < debounceMs) (millis : Millis)
    {samples : List Sample} (close : Close samples) :
    (samples.foldl (Input.read debounceMs) (.initial millis)).filter.stableState =
      accepted debounceMs (Debounce.stretches samples) := by
  have ready := ready_initial millis samples
  have flat := stretches_flatten samples
  rw [← List.append_nil (Debounce.stretches samples)] at ready
  rw [← flat] at close
  have run := (Ready.stretches short some ready close).1
  rw [flat] at run
  exact run

/-! ## Toggles -/

variable {button : Button}

theorem dbounce_input (button : Button) (sample : Sample) :
    (dbounce button sample).input = button.input.read DEBOUNCE_MS sample := by
  unfold dbounce
  dsimp only
  split <;> rfl

theorem dbounce_toggles (button : Button) (sample : Sample) :
    (dbounce button sample).outputState ≠ button.outputState ↔
      button.input.filter.stableState = true ∧
        (button.input.read DEBOUNCE_MS sample).filter.stableState = false := by
  unfold dbounce
  dsimp only
  rw [← Bool.not_eq_true (Filter32.stableState _)]
  split
  · next falls => exact iff_of_true (Bool.not_ne_self _) falls
  · next stays => exact iff_of_false (fun differs => differs rfl) stays

theorem dbounceAll_input (button : Button) (samples : List Sample) :
    (samples.foldl dbounce button).input =
      samples.foldl (Input.read DEBOUNCE_MS) button.input := by
  induction samples generalizing button with
  | nil => rfl
  | cons sample rest inductionHypothesis =>
      rw [List.foldl_cons, inductionHypothesis, dbounce_input, List.foldl_cons]

theorem read_stableState (input : Input) (sample : Sample) :
    (input.read debounceMs sample).filter.stableState = input.filter.stableState ∨
      (input.read debounceMs sample).filter.stableState = sample.level := by
  unfold Input.read filtered32 sampled32
  dsimp only
  split <;> split <;> simp

theorem readAll_stableState {samples : List Sample}
    (same : ∀ sample ∈ samples, sample.level = level) :
    (samples.foldl (Input.read debounceMs) input).filter.stableState = input.filter.stableState ∨
      (samples.foldl (Input.read debounceMs) input).filter.stableState = level := by
  induction samples generalizing input with
  | nil => exact .inl rfl
  | cons sample rest inductionHypothesis =>
      have first := @read_stableState debounceMs input sample
      rw [same sample List.mem_cons_self] at first
      rcases @inductionHypothesis (input.read debounceMs sample)
        (fun other member => same other (List.mem_cons_of_mem _ member)) with kept | now
      · rw [List.foldl_cons, kept]
        exact first
      · exact .inr now

theorem toggles_level {samples : List Sample} (same : ∀ sample ∈ samples, sample.level = level) :
    toggles button samples =
      if button.input.filter.stableState = true ∧
        (samples.foldl (Input.read DEBOUNCE_MS) button.input).filter.stableState = false
      then 1 else 0 := by
  induction samples generalizing button with
  | nil =>
      rw [toggles, List.foldl_nil, if_neg]
      rintro ⟨set, clear⟩
      exact absurd (set.symm.trans clear) (by decide)
  | cons sample rest inductionHypothesis =>
      have others : ∀ other ∈ rest, other.level = level := fun other member =>
        same other (List.mem_cons_of_mem _ member)
      have first := @read_stableState DEBOUNCE_MS button.input sample
      have last := @readAll_stableState DEBOUNCE_MS
        (button.input.read DEBOUNCE_MS sample) _ _ others
      have flips := dbounce_toggles button sample
      rw [same sample List.mem_cons_self] at first
      rw [toggles, inductionHypothesis others, dbounce_input, List.foldl_cons]
      generalize (button.input.read DEBOUNCE_MS sample).filter.stableState = middle at *
      generalize (rest.foldl (Input.read DEBOUNCE_MS) _).filter.stableState = final at *
      generalize button.input.filter.stableState = before at *
      cases before <;> cases middle <;> cases final <;> cases level <;> simp_all

theorem spans_append (samples : List Sample) (sample : Sample) :
    spans (samples ++ [sample]) = spans samples + sample.span := by
  induction samples with
  | nil => exact Nat.add_comm _ _
  | cons first rest inductionHypothesis =>
      rw [List.cons_append, spans, spans, inductionHypothesis, Nat.add_assoc]

theorem duration_le_append (samples : List Sample) (sample : Sample) :
    duration samples ≤ duration (samples ++ [sample]) := by
  cases samples with
  | nil => exact Nat.zero_le _
  | cons first rest =>
      rw [List.cons_append, duration, duration, spans_append, ← Nat.add_assoc]
      exact Nat.le_add_right _ _

theorem Ready.init {part : List Sample} {sample : Sample} (ready : Ready input [part ++ [sample]])
    (some : part ≠ []) : Ready input [part] := by
  rcases ready with ⟨-, same, -⟩ | ⟨⟨-, same, -⟩, declared⟩
  · exact .inl ⟨some, fun other member => same other (List.mem_append_left _ member), trivial⟩
  · exact .inr
      ⟨⟨some, fun other member => same other (List.mem_append_left _ member), trivial⟩, declared⟩

theorem levelOf_append {level : Bool} {part : List Sample} {sample : Sample}
    (same : ∀ other ∈ part ++ [sample], other.level = level) :
    levelOf (part ++ [sample]) = sample.level := by
  rw [same sample (List.mem_append_right _ List.mem_cons_self)]
  cases part with
  | nil => exact same sample List.mem_cons_self
  | cons first rest => exact same first List.mem_cons_self

theorem change_at_window (short : debounceMs ≤ 2 ^ 31) (some : 0 < debounceMs) (millis : Millis)
    {earlier : List Sample} {sample : Sample} (close : Close (earlier ++ [sample]))
    (changes : ((earlier.foldl (Input.read debounceMs) (.initial millis)).read debounceMs
        sample).filter.stableState ≠
      (earlier.foldl (Input.read debounceMs) (.initial millis)).filter.stableState) :
    ((earlier.foldl (Input.read debounceMs) (.initial millis)).read debounceMs
        sample).filter.stableState = sample.level ∧
      ∃ others stretch, stretches (earlier ++ [sample]) = others ++ [stretch] ∧
        debounceMs ≤ duration stretch := by
  have ready := ready_initial millis (earlier ++ [sample])
  have flat := stretches_flatten (earlier ++ [sample])
  have notEmpty : stretches (earlier ++ [sample]) ≠ [] := fun none => by
    rw [none] at flat
    exact List.append_ne_nil_of_right_ne_nil earlier (List.cons_ne_nil sample []) flat.symm
  obtain ⟨others, stretch, isLast⟩ := List.eq_nil_or_concat _ |>.resolve_left notEmpty
  rw [List.concat_eq_append] at isLast
  rw [isLast] at ready flat
  rw [List.flatten_concat] at flat
  obtain ⟨stable, atLast⟩ := Ready.stretches short some ready fun other member =>
    close other (flat ▸ List.mem_append_left _ member)
  have inLast : Close stretch := fun other member =>
    close other (flat ▸ List.mem_append_right _ member)
  obtain ⟨ends, -⟩ := Ready.stretch short some atLast inLast
  obtain ⟨part, last, rfl⟩ : ∃ part last, stretch = part ++ [last] := by
    rcases List.eq_nil_or_concat stretch with rfl | ⟨part, last, isStretch⟩
    · rcases atLast with ⟨none, -⟩ | ⟨⟨none, -⟩, -⟩
      · exact absurd rfl none
      · exact absurd rfl none
    · exact ⟨part, last, isStretch.trans (List.concat_eq_append ..)⟩
  rw [← List.append_assoc] at flat
  obtain ⟨rfl, isSample⟩ := List.append_inj' flat rfl
  obtain rfl : last = sample := (List.cons.inj isSample).1
  have run : ((others.flatten ++ part).foldl (Input.read debounceMs) (.initial millis)).read
      debounceMs last = (part ++ [last]).foldl (Input.read debounceMs)
        (others.flatten.foldl (Input.read debounceMs) (.initial millis)) := by
    rw [List.foldl_append, List.foldl_append]
    rfl
  rw [run, ends] at changes ⊢
  by_cases long : debounceMs ≤ duration (part ++ [last])
  · refine ⟨?_, others, _, isLast, long⟩
    rw [accept, if_pos long]
    rcases atLast with ⟨-, same, -⟩ | ⟨⟨-, same, -⟩, -⟩
    · exact levelOf_append same
    · exact levelOf_append same
  · -- the stretch was no longer without the sample, so that nothing has changed
    refine absurd ?_ changes
    rw [accept, if_neg long, List.foldl_append]
    by_cases first : part = []
    · rw [first, List.foldl_nil]
    · have brief : ¬ debounceMs ≤ duration part := fun enough =>
        long (Nat.le_trans enough (duration_le_append part last))
      rw [(Ready.stretch short some (atLast.init first) fun other member =>
        inLast other (List.mem_append_left _ member)).1, accept, if_neg brief]

/-- The button toggles once in each LOW stretch that lasts and follows an accepted HIGH, and in no
other stretch; the two other filters change their state at the end of their window only. -/
theorem debounce_law (millis : Millis) (samples : List Sample) (close : Close samples) :
    (∀ before stretch after, stretches samples = before ++ stretch :: after →
      toggles (before.flatten.foldl dbounce (.initial millis)) stretch =
        if levelOf stretch = false ∧ DEBOUNCE_MS ≤ duration stretch ∧
          accepted DEBOUNCE_MS before = true then 1 else 0) ∧
      ∀ earlier sample, earlier ++ [sample] <+: samples →
        ∀ filter ∈ [(readCpuFeedbackFiltered, CPU_FEEDBACK_DEBOUNCE_MS),
            (readCpuPowerDownFiltered, CPU_POWERDOWN_DEBOUNCE_MS)],
          let before := earlier.foldl filter.1 (.initial millis)
          let after := filter.1 before sample
          after.filter.stableState ≠ before.filter.stableState →
            after.filter.stableState = sample.level ∧ ∃ others stretch,
              stretches (earlier ++ [sample]) = others ++ [stretch] ∧
                filter.2 ≤ duration stretch := by
  constructor
  · intro before stretch after split
    have flat := stretches_flatten samples
    have ready := ready_initial millis samples
    rw [split] at flat ready
    rw [List.flatten_append, List.flatten_cons] at flat
    have early : Close before.flatten := fun sample member =>
      close sample (flat ▸ List.mem_append_left _ member)
    have inside : Close stretch := fun sample member =>
      close sample (flat ▸ List.mem_append_right _ (List.mem_append_left _ member))
    have short : DEBOUNCE_MS ≤ 2 ^ 31 := by decide
    have window : 0 < DEBOUNCE_MS := by decide
    obtain ⟨stable, ready⟩ := Ready.stretches short window ready early
    obtain ⟨ends, -⟩ := Ready.stretch short window ready inside
    obtain ⟨level, some, same⟩ : ∃ level, stretch ≠ [] ∧
        ∀ sample ∈ stretch, sample.level = level := by
      rcases ready with ⟨some, same, -⟩ | ⟨⟨some, same, -⟩, -⟩
      · exact ⟨_, some, same⟩
      · exact ⟨_, some, same⟩
    have isLevel : levelOf stretch = level := by
      obtain ⟨first, rest, rfl⟩ := List.exists_cons_of_ne_nil some
      exact same first List.mem_cons_self
    have isAccepted : before.foldl (accept DEBOUNCE_MS) true = accepted DEBOUNCE_MS before := rfl
    rw [toggles_level same, dbounceAll_input]
    refine if_congr ?_ rfl rfl
    change (before.flatten.foldl _ (Input.initial millis)).filter.stableState = true ∧
      (stretch.foldl _ (before.flatten.foldl _ (Input.initial millis))).filter.stableState = false
        ↔ _
    rw [ends, stable, accept, isLevel]
    change before.foldl (accept DEBOUNCE_MS) true = true ∧
      (if _ then level else before.foldl (accept DEBOUNCE_MS) true) = false ↔ _
    rw [isAccepted]
    by_cases long : DEBOUNCE_MS ≤ duration stretch
    · rw [if_pos long]
      exact ⟨fun both => ⟨both.2, long, both.1⟩, fun all => ⟨all.2.2, all.1⟩⟩
    · rw [if_neg long]
      refine iff_of_false ?_ fun all => long all.2.1
      rintro ⟨set, clear⟩
      exact absurd (set.symm.trans clear) (by decide)
  · intro earlier sample isPrefix filter isFilter before after changes
    have close' : Close (earlier ++ [sample]) := fun other member =>
      close other (isPrefix.subset member)
    rcases List.mem_cons.mp isFilter with rfl | other
    · exact change_at_window (by decide) (by decide) millis close' changes
    · obtain rfl := List.mem_singleton.mp other
      exact change_at_window (by decide) (by decide) millis close' changes

/-- A press while the clock comes round. -/
theorem debounce_law_press :
    toggles (([⟨(0, 0), true⟩] : List Sample).foldl dbounce (.initial 0xFFFFFFF0))
      [⟨(10, 0), false⟩, ⟨(50, 0), false⟩, ⟨(50, 0), false⟩] = 1 :=
  (debounce_law 0xFFFFFFF0
    [⟨(0, 0), true⟩, ⟨(10, 0), false⟩, ⟨(50, 0), false⟩, ⟨(50, 0), false⟩] (by decide)).1
      [[⟨(0, 0), true⟩]] [⟨(10, 0), false⟩, ⟨(50, 0), false⟩, ⟨(50, 0), false⟩] [] rfl

/-! ## The clock that does not wrap -/

/-- A filter on the clock of the controller's model. -/
def readUnbounded (debounceMs : Nat) (s : Filter × Nat) (sample : Sample) : Filter × Nat :=
  let now := s.2 + sample.gaps.1
  let f := PowerControl.sampled sample.level now s.1
  let now := now + sample.gaps.2
  (PowerControl.filtered debounceMs sample.level now f, now)

theorem readUnbounded_cpu (raw : Bool) (gaps : Nat × Nat) (s : Controller) :
    readUnbounded CPU_FEEDBACK_DEBOUNCE_MS (s.cpuFb, s.millis) ⟨gaps, raw⟩ =
        ((PowerControl.readCpuFeedbackFiltered raw gaps s).cpuFb,
          (PowerControl.readCpuFeedbackFiltered raw gaps s).millis) ∧
      readUnbounded CPU_POWERDOWN_DEBOUNCE_MS (s.cpuPD, s.millis) ⟨gaps, raw⟩ =
        ((PowerControl.readCpuPowerDownFiltered raw gaps s).cpuPD,
          (PowerControl.readCpuPowerDownFiltered raw gaps s).millis) := ⟨rfl, rfl⟩

/-- A filter with its clock cut to 32 bits; a level that is not yet real has not been there for
long. -/
structure Wraps (debounceMs : Nat) (s : Filter × Nat) (input : Input) : Prop where
  stable : input.filter.stableState = s.1.stableState
  lastRaw : input.filter.lastRaw = s.1.lastRaw
  change : input.filter.lastChangeTime = BitVec.ofNat 32 s.1.lastChangeTime
  millis : input.millis = BitVec.ofNat 32 s.2
  past : s.1.lastChangeTime ≤ s.2
  recent : s.1.stableState = s.1.lastRaw ∨ s.2 < s.1.lastChangeTime + debounceMs

theorem Wraps.filtered {f : Filter} {g : Filter32} {now gap : Nat} {clock : Millis}
    (short : debounceMs ≤ 2 ^ 31) (close : gap < 2 ^ 31) (stable : g.stableState = f.stableState)
    (lastRaw : g.lastRaw = f.lastRaw)
    (change : g.lastChangeTime = BitVec.ofNat 32 f.lastChangeTime)
    (millis : clock = BitVec.ofNat 32 (now + gap)) (past : f.lastChangeTime ≤ now)
    (recent : f.stableState = f.lastRaw ∨ now < f.lastChangeTime + debounceMs) :
    Wraps debounceMs (PowerControl.filtered debounceMs f.lastRaw (now + gap) f, now + gap)
      ⟨filtered32 debounceMs f.lastRaw clock g, clock⟩ := by
  have distance : (clock - g.lastChangeTime).toNat = (now + gap - f.lastChangeTime) % 2 ^ 32 := by
    obtain ⟨apart, sum⟩ := Nat.exists_eq_add_of_le (Nat.le_trans past (Nat.le_add_right now gap))
    rw [millis, change, sum, BitVec.ofNat_add, BitVec.add_comm, BitVec.add_sub_cancel,
      BitVec.toNat_ofNat, Nat.add_sub_cancel_left]
  have later : f.lastChangeTime ≤ now + gap := Nat.le_trans past (Nat.le_add_right now gap)
  unfold PowerControl.filtered filtered32
  rw [distance]
  by_cases long : debounceMs ≤ now + gap - f.lastChangeTime
  · rw [if_pos long]
    split
    · exact ⟨rfl, lastRaw, change, millis, later, .inl rfl⟩
    · next wrapped =>
        -- the clock has come round since the level was taken as real
        have settled : f.stableState = f.lastRaw := by
          rcases recent with settled | soon
          · exact settled
          · rw [Nat.mod_eq_of_lt (by omega)] at wrapped
            exact absurd long wrapped
        exact ⟨stable.trans settled, lastRaw, change, millis, later, .inl rfl⟩
  · rw [if_neg long, if_neg (by rw [Nat.mod_eq_of_lt] <;> omega)]
    refine ⟨stable, lastRaw, change, millis, later, .inr ?_⟩
    dsimp only
    omega

theorem Wraps.read {s : Filter × Nat} {sample : Sample} (short : debounceMs ≤ 2 ^ 31)
    (some : 0 < debounceMs) (wraps : Wraps debounceMs s input) (close : sample.span < 2 ^ 31) :
    Wraps debounceMs (readUnbounded debounceMs s sample) (input.read debounceMs sample) := by
  obtain ⟨stable, lastRaw, change, millis, past, recent⟩ := wraps
  have first : input.millis + BitVec.ofNat 32 sample.gaps.1 =
      BitVec.ofNat 32 (s.2 + sample.gaps.1) := by
    rw [millis, BitVec.ofNat_add]
  have second : input.millis + BitVec.ofNat 32 sample.gaps.1 + BitVec.ofNat 32 sample.gaps.2 =
      BitVec.ofNat 32 (s.2 + sample.gaps.1 + sample.gaps.2) := by
    rw [first, BitVec.ofNat_add (s.2 + sample.gaps.1)]
  unfold readUnbounded Input.read PowerControl.sampled sampled32
  dsimp only
  rw [lastRaw]
  by_cases same : sample.level = s.1.lastRaw
  · rw [if_pos same, if_pos same, same]
    have total : s.2 + sample.gaps.1 + sample.gaps.2 = s.2 + sample.span := by
      rw [Sample.span, Nat.add_assoc]
    rw [total] at second ⊢
    exact Wraps.filtered short close stable lastRaw change second past recent
  · rw [if_neg same, if_neg same]
    exact Wraps.filtered (f := { s.1 with
        lastChangeTime := s.2 + sample.gaps.1
        lastRaw := sample.level })
      short (Nat.lt_of_le_of_lt (Nat.le_add_left _ _) close) stable rfl first second
      (Nat.le_refl _) (.inr (Nat.lt_add_of_pos_right some))

/-- On samples that are close the model's clock and the program's give the same stable states. -/
theorem unbounded_agrees {samples : List Sample} {s : Filter × Nat} (short : debounceMs ≤ 2 ^ 31)
    (some : 0 < debounceMs) (wraps : Wraps debounceMs s input) (close : Close samples) :
    Wraps debounceMs (samples.foldl (readUnbounded debounceMs) s)
      (samples.foldl (Input.read debounceMs) input) := by
  induction samples generalizing s input with
  | nil => exact wraps
  | cons sample rest inductionHypothesis =>
      exact inductionHypothesis (wraps.read short some (close sample List.mem_cons_self))
        fun other member => close other (List.mem_cons_of_mem _ member)

end OrionBios.PowerControl.Debounce
