import OrionBios.FatDescriptor.Coherence
import OrionBios.Seek.Model

/-!
# Where a seek goes

The target of a seek is a sum of integers. A seek is right when it goes to its target, as far as
the file lets it, or refuses a target that is no 32-bit position.
-/

namespace OrionBios.Seek

open FatDescriptor Transition

/-! ## The rule -/

/-- The base of a seek: 0, the position or the size. -/
def baseOf (whence : Int) (position size : Nat) : Option Nat :=
  if whence = 0 then some 0
  else if whence = 1 then some position
  else if whence = 2 then some size
  else none

def target (start : Nat) (offset : BitVec 32) : Int := start + offset.toInt

def InRange (start : Nat) (offset : BitVec 32) : Prop :=
  0 ≤ target start offset ∧ target start offset < 2 ^ 32

/-- A seek with the position before and after it; `grant` says how far a target is reached. -/
structure RightSeek (base : Option Nat) (offset : BitVec 32) (grant : Nat → Nat) (before after : Nat)
    (result : Option (BitVec 32)) : Prop where
  reaches : ∀ start, base = some start → InRange start offset →
    after = grant (target start offset).toNat ∧ result = some (BitVec.ofNat 32 after)
  refuses : (∀ start, base = some start → ¬ InRange start offset) → result = none ∧ after = before

/-- A seek on which FatFs meets no hard error. -/
inductive SeekCall where
  | fat (file : File) (d2 : BitVec 32) (answer : Answer) (works : file.fil.err = .FR_OK)
      (noError : answer.error = none)
  | proc (data : ProcData)
  | trap (argc : Int) (fp : FIL) (answer : Answer) (given : ¬ argc < 3) (works : fp.err = .FR_OK)
      (noError : answer.error = none)

/-- A file without write access ends at its size; another one grows to the target. -/
def grantOf (fp : FIL) (position : Nat) : Nat :=
  if fp.flag &&& FA_WRITE = 0 then min position fp.objsize else position

namespace SeekCall

def base (whence : Int) : SeekCall → Option Nat
  | .fat file .. => baseOf whence file.fil.fptr file.fil.objsize
  | .proc data => baseOf whence data.position.toNat data.size.toNat
  | .trap _ fp .. => baseOf whence fp.fptr fp.objsize

def Right (offset : BitVec 32) (whence : Int) (call : SeekCall) : Prop :=
  match call with
  | .fat file d2 answer .. =>
    RightSeek (call.base whence) offset (grantOf file.fil) file.fil.fptr
      (fatLseek offset whence d2 answer file).2.fil.fptr (fatLseek offset whence d2 answer file).1
  | .proc data =>
    RightSeek (call.base whence) offset (fun position => min position data.size.toNat)
      data.position.toNat (procLseek offset whence data).2.position.toNat
      (procLseek offset whence data).1
  | .trap argc fp answer .. =>
    RightSeek (call.base whence) offset (grantOf fp) fp.fptr
      (doLseek argc fp offset whence answer).2.fptr (doLseek argc fp offset whence answer).1

end SeekCall

def Room (fp : FIL) (answer : Answer) (position : Nat) : Prop :=
  fp.flag &&& FA_WRITE ≠ 0 → position ≤ max answer.room fp.objsize

/-- FatFs leaves the pointer at its place when it is sent there. -/
def Stays (fp : FIL) (answer : Answer) (place : BitVec 32) : Prop :=
  place.toNat = fp.fptr ∨
    fp.objsize < place.toNat ∧ fp.fptr = fp.objsize ∧
      (fp.flag &&& FA_WRITE = 0 ∨ answer.room ≤ fp.objsize)

/-- What a seek from `start` must meet. -/
def SafeFrom (offset : BitVec 32) (whence : Int) (start : Nat) : SeekCall → Prop
  | .fat file d2 answer .. => ∃ newPos, seekTarget offset whence file = some newPos ∧
      -- only the position 0 reads as `FR_OK`
      (InRange start offset ∧ newPos = 0 ∧
          (target start offset = 0 ∨ file.fil.flag &&& FA_WRITE = 0 ∧ file.fil.objsize = 0) ∧
          trapBase d2.toInt (f_tell file.fil) (f_size file.fil) = some 0 ∨
        -- what is sought with D2 in place of `whence` is refused, or does not move the pointer
        ¬ InRange start offset ∧ ∀ base, Sought file.fil newPos d2 base →
          file.fil.fptr ≠ 0 ∧ Stays file.fil answer (base + newPos))
  | .proc _ => InRange start offset
  | .trap _ fp answer .. => target start offset < 0 ∨
      target start offset < 2 ^ 31 ∧ Room fp answer (target start offset).toNat

def Safe (offset : BitVec 32) (whence : Int) (call : SeekCall) : Prop :=
  ∀ start, call.base whence = some start → SafeFrom offset whence start call

/-- A read copies bytes of the text only. -/
def ReadsInside (size : BitVec 32) (data : ProcData) : Prop :=
  ∀ i < (toRead size data).toNat, ∃ text, data.data = some text ∧
    data.position.toNat + i < text.length

/-! ## Sums of words -/

theorem add_toNat_emod (base offset : BitVec 32) :
    ((base + offset).toNat : Int) = target base.toNat offset % 2 ^ 32 := by
  unfold target
  rw [BitVec.toNat_add, BitVec.toInt_eq_toNat_cond]
  split <;> omega

theorem add_toNat {base offset : BitVec 32} (inside : InRange base.toNat offset) :
    (base + offset).toNat = (target base.toNat offset).toNat := by
  have sum := add_toNat_emod base offset
  rw [Int.emod_eq_of_lt inside.1 inside.2] at sum
  rw [← sum, Int.toNat_natCast]

theorem zero_toNat {offset : BitVec 32} (inside : InRange 0 offset) :
    offset.toNat = (target 0 offset).toNat := by
  have sum := add_toNat (show InRange (0 : BitVec 32).toNat offset from inside)
  rw [show 0 + offset = offset from BitVec.zero_add offset] at sum
  exact sum

theorem target_bounds {start : Nat} (small : start < 2 ^ 32) (offset : BitVec 32) :
    -2 ^ 31 ≤ target start offset ∧ target start offset < 2 ^ 32 + 2 ^ 31 := by
  have less := offset.isLt
  unfold target
  rw [BitVec.toInt_eq_toNat_cond]
  split
  · constructor <;> omega
  · constructor <;> omega

/-! ## The cases of the rule -/

variable {offset : BitVec 32} {whence : Int} {grant : Nat → Nat} {before after start : Nat}
  {result : Option (BitVec 32)}

theorem rightSeek_none :
    RightSeek none offset grant before after result ↔ result = none ∧ after = before := by
  constructor
  · exact fun right => right.refuses fun start base => by cases base
  · intro refused
    refine ⟨fun start base => ?_, fun _ => refused⟩
    cases base

theorem rightSeek_inside (inside : InRange start offset) :
    RightSeek (some start) offset grant before after result ↔
      after = grant (target start offset).toNat ∧ result = some (BitVec.ofNat 32 after) := by
  constructor
  · exact fun right => right.reaches start rfl inside
  · intro reached
    refine ⟨fun other base _ => ?_, fun outside => absurd inside (outside start rfl)⟩
    cases base
    exact reached

theorem rightSeek_outside (outside : ¬ InRange start offset) :
    RightSeek (some start) offset grant before after result ↔ result = none ∧ after = before := by
  constructor
  · refine fun right => right.refuses fun other base => ?_
    cases base
    exact outside
  · intro refused
    refine ⟨fun other base inside => ?_, fun _ => refused⟩
    cases base
    exact absurd inside outside

/-- Each `whence` names its base, also as a word. -/
theorem baseOf_cases (whence : Int) (position size : Nat) :
    baseOf whence position size = none ∧ whence ≠ 0 ∧ whence ≠ 1 ∧ whence ≠ 2 ∨
      baseOf whence position size = some 0 ∧ whence = 0 ∨
      baseOf whence position size = some position ∧ whence = 1 ∨
      baseOf whence position size = some size ∧ whence = 2 := by
  unfold baseOf
  by_cases zero : whence = 0
  · rw [if_pos zero]
    exact .inr (.inl ⟨rfl, zero⟩)
  · rw [if_neg zero]
    by_cases one : whence = 1
    · rw [if_pos one]
      exact .inr (.inr (.inl ⟨rfl, one⟩))
    · rw [if_neg one]
      by_cases two : whence = 2
      · rw [if_pos two]
        exact .inr (.inr (.inr ⟨rfl, two⟩))
      · rw [if_neg two]
        exact .inl ⟨rfl, zero, one, two⟩

/-! ## FatFs -/

theorem granted_readOnly {fp : FIL} (answer : Answer) (access : fp.flag &&& FA_WRITE = 0)
    (position : Nat) : granted fp answer position = min position fp.objsize := by
  unfold granted
  rw [if_pos access]
  split <;> omega

theorem granted_writes {fp : FIL} {answer : Answer} (access : fp.flag &&& FA_WRITE ≠ 0)
    (position : Nat) :
    granted fp answer position = min position (max answer.room fp.objsize) := by
  unfold granted
  rw [if_neg access]
  split <;> omega

theorem granted_iff (fp : FIL) (answer : Answer) (position : Nat) :
    granted fp answer position = grantOf fp position ↔ Room fp answer position := by
  unfold grantOf Room
  by_cases access : fp.flag &&& FA_WRITE = 0
  · rw [if_pos access, granted_readOnly answer access]
    exact iff_of_true rfl fun other => absurd access other
  · rw [if_neg access, granted_writes access, imp_iff_right access]
    omega

theorem granted_stays_iff (fp : FIL) (answer : Answer) (place : BitVec 32) :
    granted fp answer place.toNat = fp.fptr ↔ Stays fp answer place := by
  have within : fp.fptr ≤ fp.objsize := fp.within
  unfold Stays
  by_cases access : fp.flag &&& FA_WRITE = 0
  · rw [granted_readOnly answer access]
    simp only [access, true_or, and_true]
    omega
  · rw [granted_writes access, or_iff_right access]
    omega

theorem ofNat_eq_iff {position : Nat} (word : BitVec 32) (small : position < 2 ^ 32) :
    some word = some (BitVec.ofNat 32 position) ↔ word.toNat = position := by
  constructor
  · intro same
    rw [Option.some.inj same, BitVec.toNat_ofNat, Nat.mod_eq_of_lt small]
  · intro same
    rw [← same, BitVec.ofNat_toNat, BitVec.setWidth_eq]

/-! ## `fat_lseek` -/

theorem trapBase_le {fp : FIL} {base : BitVec 32}
    (known : trapBase whence (f_tell fp) (f_size fp) = some base) : base.toNat ≤ fp.objsize := by
  unfold trapBase at known
  repeat' split at known
  all_goals cases known
  · exact Nat.zero_le _
  · rw [f_tell_toNat]
    exact fp.within
  · exact Nat.le_of_eq (f_size_toNat fp)

theorem rewinds_zero_iff {fp : FIL} {d2 : BitVec 32} {answer : Answer} :
    Rewinds fp 0 d2 answer ↔ trapBase d2.toInt (f_tell fp) (f_size fp) = some 0 := by
  constructor
  · rintro ⟨base, sought, zero⟩
    have inside := trapBase_le sought.known
    rw [add_zero, granted, if_pos inside] at zero
    have same : base = 0 := BitVec.eq_of_toNat_eq zero
    rw [sought.known, same]
  · exact fun known => ⟨0, ⟨known, by decide⟩, if_pos (Nat.zero_le _)⟩

/-- A seek that goes to `newPos`. -/
theorem fatLseek_returns {file : File} {d2 : BitVec 32} {answer : Answer} {newPos : BitVec 32}
    (wanted : seekTarget offset whence file = some newPos) :
    (fatLseek offset whence d2 answer file).2.fil.fptr = (flseek file.fil newPos d2 answer).2.fptr ∧
      (fatLseek offset whence d2 answer file).1 =
        if (flseek file.fil newPos d2 answer).1 ≠ 0 then none else some newPos := by
  rw [fatLseek_goes wanted]
  split <;> exact ⟨rfl, rfl⟩

theorem fat_rightSeek_iff {file : File} {d2 : BitVec 32} {answer : Answer} (newPos : BitVec 32)
    (works : file.fil.err = .FR_OK) (noError : answer.error = none)
    (wanted : seekTarget offset whence file = some newPos) :
    RightSeek (some start) offset (grantOf file.fil) file.fil.fptr
        (fatLseek offset whence d2 answer file).2.fil.fptr
        (fatLseek offset whence d2 answer file).1 ↔
      SafeFrom offset whence start (.fat file d2 answer works noError) := by
  obtain ⟨pointer, returned⟩ := @fatLseek_returns _ _ file d2 answer newPos wanted
  have exact_iff : SafeFrom offset whence start (.fat file d2 answer works noError) ↔
      InRange start offset ∧ newPos = 0 ∧
          (target start offset = 0 ∨ file.fil.flag &&& FA_WRITE = 0 ∧ file.fil.objsize = 0) ∧
          trapBase d2.toInt (f_tell file.fil) (f_size file.fil) = some 0 ∨
        ¬ InRange start offset ∧ ∀ base, Sought file.fil newPos d2 base →
          file.fil.fptr ≠ 0 ∧ Stays file.fil answer (base + newPos) := by
    constructor
    · rintro ⟨other, same, safe⟩
      rw [wanted, Option.some_inj] at same
      subst same
      exact safe
    · exact fun safe => ⟨newPos, wanted, safe⟩
  rw [exact_iff, pointer, returned]
  by_cases inside : InRange start offset
  · rw [rightSeek_inside inside, and_iff_right inside, or_iff_left fun other => other.1 inside]
    have least : grantOf file.fil (target start offset).toNat = 0 ↔
        target start offset = 0 ∨ file.fil.flag &&& FA_WRITE = 0 ∧ file.fil.objsize = 0 := by
      have positive := inside.1
      unfold grantOf
      split
      · next access =>
        rw [and_iff_right access]
        omega
      · next access =>
        rw [or_iff_left fun other => access other.1]
        omega
    rw [← least, ← @rewinds_zero_iff file.fil d2 answer]
    by_cases zero : (flseek file.fil newPos d2 answer).1 ≠ 0
    · rw [if_pos zero]
      refine iff_of_false (fun both => Option.some_ne_none _ both.2.symm) ?_
      rintro ⟨rfl, -, rewinds⟩
      exact zero ((flseek_zero_iff works noError).mpr rewinds)
    · rw [if_neg zero]
      have rewinds := (flseek_zero_iff works noError).mp (not_not.mp zero)
      obtain ⟨start, -⟩ := flseek_rewinds works noError rewinds
      rw [start, Option.some_inj]
      constructor
      · rintro ⟨reached, rfl⟩
        exact ⟨rfl, reached.symm, rewinds⟩
      · rintro ⟨rfl, reached, -⟩
        exact ⟨reached.symm, rfl⟩
  · rw [rightSeek_outside inside, or_iff_right fun other => inside other.1, and_iff_right inside]
    by_cases sought : ∃ base, Sought file.fil newPos d2 base
    · obtain ⟨base, sought⟩ := sought
      have only : (∀ base, Sought file.fil newPos d2 base →
          file.fil.fptr ≠ 0 ∧ Stays file.fil answer (base + newPos)) ↔
            file.fil.fptr ≠ 0 ∧ Stays file.fil answer (base + newPos) := by
        constructor
        · exact fun all => all base sought
        · intro here other again
          rw [← sought.unique again]
          exact here
      have zero_iff : (flseek file.fil newPos d2 answer).1 = 0 ↔
          granted file.fil answer (base + newPos).toNat = 0 := by
        rw [flseek_zero_iff works noError]
        constructor
        · rintro ⟨other, again, zero⟩
          rw [sought.unique again]
          exact zero
        · exact fun zero => ⟨base, sought, zero⟩
      have place : (flseek file.fil newPos d2 answer).2.fptr =
          granted file.fil answer (base + newPos).toNat := by
        rw [flseek_sought sought]
        exact (f_lseek_granted (base + newPos) works noError).2
      have fails : (if (flseek file.fil newPos d2 answer).1 ≠ 0 then none else some newPos) = none ↔
          (flseek file.fil newPos d2 answer).1 ≠ 0 := by
        split
        · next failed => exact iff_of_true rfl failed
        · next zero => exact iff_of_false (Option.some_ne_none _) zero
      rw [only, ← granted_stays_iff, place, fails, ne_eq, zero_iff]
      constructor
      · rintro ⟨away, same⟩
        rw [same] at away
        exact ⟨away, same⟩
      · rintro ⟨away, same⟩
        rw [same]
        exact ⟨away, rfl⟩
    · have refused := not_exists.mp sought
      rw [flseek_unsought refused]
      exact iff_of_true ⟨rfl, rfl⟩ fun base other => absurd other (refused base)

theorem fat_right_iff {file : File} {d2 : BitVec 32} {answer : Answer}
    (works : file.fil.err = .FR_OK) (noError : answer.error = none) :
    (SeekCall.fat file d2 answer works noError).Right offset whence ↔
      Safe offset whence (.fat file d2 answer works noError) := by
  unfold SeekCall.Right Safe SeekCall.base
  dsimp only
  rcases baseOf_cases whence file.fil.fptr file.fil.objsize with
    ⟨base, zero, one, two⟩ | ⟨base, rfl⟩ | ⟨base, rfl⟩ | ⟨base, rfl⟩
  · have unknown : seekTarget offset whence file = none := by
      rw [seekTarget, if_neg zero, if_neg one, if_neg two]
    rw [base, rightSeek_none, fatLseek_nowhere unknown]
    refine iff_of_true ⟨rfl, rfl⟩ fun start other => ?_
    cases other
  · rw [base]
    simp only [Option.some.injEq, forall_eq']
    exact fat_rightSeek_iff offset works noError rfl
  · rw [base]
    simp only [Option.some.injEq, forall_eq']
    exact fat_rightSeek_iff (f_tell file.fil + offset) works noError rfl
  · rw [base]
    simp only [Option.some.injEq, forall_eq']
    exact fat_rightSeek_iff (file.privateData.size + offset) works noError rfl

/-! ## `proc_lseek` -/

theorem procLseek_goes {data : ProcData} {newPos : BitVec 32}
    (wanted : procTarget offset whence data = some newPos) :
    (procLseek offset whence data).1 = some (procLseek offset whence data).2.position ∧
      (procLseek offset whence data).2.position.toNat = min newPos.toNat data.size.toNat := by
  unfold procLseek
  rw [wanted]
  dsimp only
  refine ⟨rfl, ?_⟩
  by_cases beyond : data.size < newPos
  · have less : data.size.toNat < newPos.toNat := beyond
    rw [if_pos beyond]
    omega
  · have le : newPos.toNat ≤ data.size.toNat := Nat.le_of_not_lt beyond
    rw [if_neg beyond]
    omega

theorem proc_rightSeek_iff {data : ProcData} (newPos : BitVec 32)
    (wanted : procTarget offset whence data = some newPos)
    (sum : InRange start offset → newPos.toNat = (target start offset).toNat) :
    RightSeek (some start) offset (fun position => min position data.size.toNat)
        data.position.toNat (procLseek offset whence data).2.position.toNat
        (procLseek offset whence data).1 ↔ InRange start offset := by
  obtain ⟨returned, position⟩ := procLseek_goes wanted
  rw [returned]
  by_cases inside : InRange start offset
  · rw [rightSeek_inside inside, ofNat_eq_iff _ (BitVec.isLt _), position, sum inside]
    exact iff_of_true ⟨rfl, rfl⟩ inside
  · rw [rightSeek_outside inside]
    exact iff_of_false (fun refused => Option.some_ne_none _ refused.1) inside

theorem proc_right_iff (data : ProcData) :
    (SeekCall.proc data).Right offset whence ↔ Safe offset whence (.proc data) := by
  unfold SeekCall.Right Safe SeekCall.base
  dsimp only
  rcases baseOf_cases whence data.position.toNat data.size.toNat with
    ⟨base, zero, one, two⟩ | ⟨base, rfl⟩ | ⟨base, rfl⟩ | ⟨base, rfl⟩
  · have wanted : procTarget offset whence data = none := by
      rw [procTarget, if_neg zero, if_neg one, if_neg two]
    rw [base, rightSeek_none, procLseek, wanted]
    refine iff_of_true ⟨rfl, rfl⟩ fun start other => ?_
    cases other
  · rw [base]
    simp only [Option.some.injEq, forall_eq']
    refine proc_rightSeek_iff offset rfl fun inside => ?_
    exact zero_toNat inside
  · rw [base]
    simp only [Option.some.injEq, forall_eq']
    exact proc_rightSeek_iff (data.position + offset) rfl add_toNat
  · rw [base]
    simp only [Option.some.injEq, forall_eq']
    exact proc_rightSeek_iff (data.size + offset) rfl add_toNat

/-! ## `do_lseek` -/

theorem toInt_neg_iff (word : BitVec 32) : word.toInt < 0 ↔ 2 ^ 31 ≤ word.toNat := by
  have less := word.isLt
  rw [BitVec.toInt_eq_toNat_cond]
  split <;> omega

theorem trap_rightSeek_iff {fp : FIL} {answer : Answer} {argc : Int}
    (base offset : BitVec 32) (given : ¬ argc < 3) (works : fp.err = .FR_OK) (noError : answer.error = none)
    (wanted : trapBase whence (f_tell fp) (f_size fp) = some base) :
    RightSeek (some base.toNat) offset (grantOf fp) fp.fptr
        (doLseek argc fp offset whence answer).2.fptr (doLseek argc fp offset whence answer).1 ↔
      target base.toNat offset < 0 ∨
        target base.toNat offset < 2 ^ 31 ∧ Room fp answer (target base.toNat offset).toNat := by
  have word := add_toNat_emod base offset
  obtain ⟨least, most⟩ := target_bounds base.isLt offset
  unfold doLseek
  rw [if_neg given, wanted]
  dsimp only
  by_cases negative : (base + offset).toInt < 0
  · rw [if_pos negative]
    have high := (toInt_neg_iff _).mp negative
    by_cases inside : InRange base.toNat offset
    · have low : 2 ^ 31 ≤ target base.toNat offset := by
        rw [Int.emod_eq_of_lt inside.1 inside.2] at word
        omega
      rw [rightSeek_inside inside]
      refine iff_of_false (fun refused => Option.some_ne_none _ refused.2.symm) ?_
      rintro (other | ⟨other, _⟩) <;> omega
    · rw [rightSeek_outside inside]
      refine iff_of_true ⟨rfl, rfl⟩ (.inl ?_)
      by_contra positive
      unfold InRange at inside
      omega
  · rw [if_neg negative]
    have low : (base + offset).toNat < 2 ^ 31 :=
      Nat.lt_of_not_le fun high => negative ((toInt_neg_iff _).mpr high)
    obtain ⟨ok, pointer⟩ := f_lseek_granted (base + offset) works noError
    rw [if_neg (not_not_intro ok)]
    by_cases inside : InRange base.toNat offset
    · have sum := add_toNat inside
      have bound : target base.toNat offset < 2 ^ 31 := by
        have positive := inside.1
        omega
      have notNegative : ¬ target base.toNat offset < 0 := Int.not_lt.mpr inside.1
      rw [rightSeek_inside inside, pointer, sum, granted_iff, or_iff_right notNegative,
        and_iff_right bound]
      refine and_iff_left_of_imp fun room => ?_
      rw [f_tell, pointer, sum]
    · rw [rightSeek_outside inside]
      refine iff_of_false (fun refused => Option.some_ne_none _ refused.1) ?_
      unfold InRange at inside
      rintro (other | ⟨other, _⟩) <;> omega

theorem trap_right_iff {fp : FIL} {answer : Answer} {argc : Int} (given : ¬ argc < 3)
    (works : fp.err = .FR_OK) (noError : answer.error = none) :
    (SeekCall.trap argc fp answer given works noError).Right offset whence ↔
      Safe offset whence (.trap argc fp answer given works noError) := by
  have pointer := f_tell_toNat fp
  unfold SeekCall.Right Safe SeekCall.base
  dsimp only
  rcases baseOf_cases whence fp.fptr fp.objsize with
    ⟨base, zero, one, two⟩ | ⟨base, rfl⟩ | ⟨base, rfl⟩ | ⟨base, rfl⟩
  · have wanted : trapBase whence (f_tell fp) (f_size fp) = none := by
      rw [trapBase, if_neg zero, if_neg one, if_neg two]
    rw [base, rightSeek_none, doLseek, if_neg given, wanted]
    refine iff_of_true ⟨rfl, rfl⟩ fun start other => ?_
    cases other
  · rw [base]
    simp only [Option.some.injEq, forall_eq']
    exact trap_rightSeek_iff 0 offset given works noError rfl
  · rw [base]
    simp only [Option.some.injEq, forall_eq']
    have right := trap_rightSeek_iff (f_tell fp) offset given works noError
      (show trapBase 1 (f_tell fp) (f_size fp) = some (f_tell fp) from rfl)
    rw [pointer] at right
    exact right
  · rw [base]
    simp only [Option.some.injEq, forall_eq']
    have right := trap_rightSeek_iff (f_size fp) offset given works noError
      (show trapBase 2 (f_tell fp) (f_size fp) = some (f_size fp) from rfl)
    rw [f_size_toNat] at right
    exact right

/-! ## Reads of `/proc` -/

theorem toRead_toNat {data : ProcData} (inside : data.position ≤ data.size) (size : BitVec 32) :
    (toRead size data).toNat = min size.toNat (data.size.toNat - data.position.toNat) := by
  have available := BitVec.toNat_sub_of_le inside
  unfold toRead
  dsimp only
  by_cases small : size < data.size - data.position
  · have less : size.toNat < (data.size - data.position).toNat := small
    rw [if_pos small]
    omega
  · have le : (data.size - data.position).toNat ≤ size.toNat := Nat.le_of_not_lt small
    rw [if_neg small]
    omega

/-- The position never leaves the text. -/
theorem position_le {text : List Byte} {duplicated : Bool} {data : ProcData} {calls : List ProcCall}
    (run : exec procStep (procOpen text duplicated) calls = some data) :
    data.position ≤ data.size ∧ data.size = BitVec.ofNat 32 text.length ∧
      data.data = if duplicated then some text else none := by
  refine invariant_of_run (fun data : ProcData => data.position ≤ data.size ∧
    data.size = BitVec.ofNat 32 text.length ∧ data.data = if duplicated then some text else none)
    ?_ ⟨Nat.zero_le _, rfl, rfl⟩ run
  rintro data call next ⟨inside, size, same⟩ taken
  cases call with
  | read count =>
      cases taken
      unfold procRead
      dsimp only
      split
      · exact ⟨inside, size, same⟩
      · refine ⟨?_, size, same⟩
        have moved := toRead_toNat inside count
        have within : data.position.toNat ≤ data.size.toNat := inside
        have bound := data.size.isLt
        show (data.position + toRead count data).toNat ≤ data.size.toNat
        rw [BitVec.toNat_add, moved]
        omega
  | lseek offset whence =>
      cases taken
      unfold procLseek
      split
      · exact ⟨inside, size, same⟩
      · dsimp only
        refine ⟨?_, size, same⟩
        split
        · exact Nat.le_refl _
        · next clipped => exact Nat.le_of_not_lt clipped

theorem reads_inside_iff {text : List Byte} (small : text.length < 2 ^ 32) (duplicated : Bool) :
    (∀ calls data, exec procStep (procOpen text duplicated) calls = some data →
      ∀ size, ReadsInside size data) ↔ duplicated = true ∨ text = [] := by
  have length : (BitVec.ofNat 32 text.length).toNat = text.length := by
    rw [BitVec.toNat_ofNat, Nat.mod_eq_of_lt small]
  constructor
  · intro always
    by_contra neither
    obtain ⟨notDuplicated, notEmpty⟩ := not_or.mp neither
    have missing := Bool.eq_false_iff.mpr notDuplicated
    have positive := List.length_pos_iff.mpr notEmpty
    have inside : (procOpen text duplicated).position ≤ (procOpen text duplicated).size :=
      Nat.zero_le _
    have one : 0 < (toRead 1 (procOpen text duplicated)).toNat := by
      rw [toRead_toNat inside]
      show 0 < min 1 ((BitVec.ofNat 32 text.length).toNat - 0)
      rw [length]
      omega
    obtain ⟨other, some, _⟩ := always [] _ rfl 1 0 one
    rw [missing] at some
    cases some
  · intro given calls data run size i less
    obtain ⟨inside, sized, same⟩ := position_le run
    rw [toRead_toNat inside, sized, length] at less
    rcases given with rfl | rfl
    · exact ⟨text, same, by omega⟩
    · simp only [List.length_nil] at less
      omega

/-! ## The three functions -/

/-- Each seek is right exactly for the calls described, and reads of `/proc` stay in the text
wherever the seeks lead. -/
theorem seek_arithmetic (offset : BitVec 32) (whence : Int) (call : SeekCall) (text : List Byte)
    (small : text.length < 2 ^ 32) (duplicated : Bool) :
    (call.Right offset whence ↔ Safe offset whence call) ∧
      ((∀ calls data, exec procStep (procOpen text duplicated) calls = some data →
        ∀ size, ReadsInside size data) ↔ duplicated = true ∨ text = []) := by
  refine ⟨?_, reads_inside_iff small duplicated⟩
  cases call with
  | fat file d2 answer works noError => exact fat_right_iff works noError
  | proc data => exact proc_right_iff data
  | trap argc fp answer given works noError => exact trap_right_iff given works noError

/-- A `/proc` text of three bytes. -/
def shortText : ProcData := procOpen [97, 98, 99] true

theorem seek_arithmetic_end :
    (SeekCall.proc shortText).Right 5 0 ∧
      ∀ calls data, exec procStep shortText calls = some data → ∀ size, ReadsInside size data := by
  have both := seek_arithmetic 5 0 (.proc shortText) [97, 98, 99] (by decide) true
  refine ⟨both.1.mpr ?_, both.2.mpr (.inl rfl)⟩
  intro start base
  cases base
  show InRange 0 5
  unfold InRange
  decide

/-- A seek to -1 goes to the end. -/
theorem negative_seek_accepted :
    ¬ ∀ (offset : BitVec 32) (whence : Int) (call : SeekCall), call.Right offset whence := by
  intro always
  have right := always (-1) 0 (.proc shortText)
  have refused := right.refuses fun start base => by
    cases base
    unfold InRange
    decide
  exact absurd refused.1 (by decide)

end OrionBios.Seek
