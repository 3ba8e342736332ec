import Mathlib.Data.BitVec

/-!
# Parties on a bus of two wires

One wire is the clock, which the master moves. The other one carries the bits, and is low as soon
as one party pulls it down. It changes while the clock is low, but for the two conditions that a
transfer starts and stops with.
-/

namespace OrionBios.TwoWire

universe u v

abbrev Byte := BitVec 8

structure Party (State : Type u) where
  /-- The level that the party leaves the data wire at: `false` pulls it down. -/
  drives : State → Bool
  start : State → State
  stop : State → State
  /-- The clock rises at a level of the data wire. -/
  rise : Bool → State → State
  fall : State → State

variable {State : Type u} {Other : Type v}

namespace Party

variable (p : Party State) (q : Party Other)

/-- Two parties on the same wires. -/
def both : Party (State × Other) where
  drives s := p.drives s.1 && q.drives s.2
  start s := (p.start s.1, q.start s.2)
  stop s := (p.stop s.1, q.stop s.2)
  rise level s := (p.rise level s.1, q.rise level s.2)
  fall s := (p.fall s.1, q.fall s.2)

/-- A period of the clock, with the level that the master leaves the data wire at. -/
def cycle (bit : Bool) (s : State) : State := p.fall (p.rise (bit && p.drives s) s)

def cycles (bits : List Bool) (s : State) : State := bits.foldl (fun s bit => p.cycle bit s) s

/-- A period in which the master looks at the data wire. -/
def sample (s : State) : Bool × State :=
  (p.drives (p.rise (p.drives s) s), p.fall (p.rise (p.drives s) s))

def samples : Nat → State → List Bool × State
  | 0, s => ([], s)
  | count + 1, s =>
    let (bit, t) := p.sample s
    let (rest, u) := samples count t
    (bit :: rest, u)

/-- The party leaves the data wire alone in these periods. -/
def Releases : List Bool → State → Prop
  | [], _ => True
  | bit :: rest, s => p.drives s = true ∧ Releases rest (p.cycle bit s)

/-- The party does not take part. -/
structure Out (s : State) : Prop where
  drives : p.drives s = true
  rise : ∀ level, p.rise level s = s
  fall : p.fall s = s

end Party

/-! ## Two parties -/

section Both

variable {p : Party State} {q : Party Other} {s : State} {t : Other}

theorem cycle_both (bit : Bool) (free : p.drives s = true) (free' : q.drives t = true) :
    (p.both q).cycle bit (s, t) = (p.cycle bit s, q.cycle bit t) := by
  unfold Party.cycle Party.both
  simp only [free, free', Bool.and_self]

/-- While none pulls the data wire down, each party sees the bits of the master. -/
theorem cycles_both (bits : List Bool) (free : p.Releases bits s) (free' : q.Releases bits t) :
    (p.both q).cycles bits (s, t) = (p.cycles bits s, q.cycles bits t) := by
  induction bits generalizing s t with
  | nil => rfl
  | cons bit rest inductionHypothesis =>
      have next := inductionHypothesis free.2 free'.2
      rw [← cycle_both bit free.1 free'.1] at next
      exact next

theorem cycle_out_right (bit : Bool) (out : q.Out t) :
    (p.both q).cycle bit (s, t) = (p.cycle bit s, t) := by
  unfold Party.cycle Party.both
  simp only [out.drives, out.rise, out.fall, Bool.and_true]

theorem cycle_out_left (bit : Bool) (out : p.Out s) :
    (p.both q).cycle bit (s, t) = (s, q.cycle bit t) := by
  unfold Party.cycle Party.both
  simp only [out.drives, out.rise, out.fall, Bool.true_and]

theorem cycles_out_right (bits : List Bool) (out : q.Out t) :
    (p.both q).cycles bits (s, t) = (p.cycles bits s, t) := by
  induction bits generalizing s with
  | nil => rfl
  | cons bit rest inductionHypothesis =>
      have next := inductionHypothesis (s := p.cycle bit s)
      rw [← cycle_out_right bit out] at next
      exact next

theorem cycles_out_left (bits : List Bool) (out : p.Out s) :
    (p.both q).cycles bits (s, t) = (s, q.cycles bits t) := by
  induction bits generalizing t with
  | nil => rfl
  | cons bit rest inductionHypothesis =>
      have next := inductionHypothesis (t := q.cycle bit t)
      rw [← cycle_out_left bit out] at next
      exact next

theorem sample_out_right (out : q.Out t) :
    (p.both q).sample (s, t) = ((p.sample s).1, ((p.sample s).2, t)) := by
  unfold Party.sample Party.both
  simp only [out.drives, out.rise, out.fall, Bool.and_true]

theorem sample_out_left (out : p.Out s) :
    (p.both q).sample (s, t) = ((q.sample t).1, (s, (q.sample t).2)) := by
  unfold Party.sample Party.both
  simp only [out.drives, out.rise, out.fall, Bool.true_and]

theorem samples_out_right (count : Nat) (out : q.Out t) :
    (p.both q).samples count (s, t) = ((p.samples count s).1, ((p.samples count s).2, t)) := by
  induction count generalizing s with
  | zero => rfl
  | succ count inductionHypothesis =>
      simp only [Party.samples, sample_out_right out, inductionHypothesis]

theorem samples_out_left (count : Nat) (out : p.Out s) :
    (p.both q).samples count (s, t) = ((q.samples count t).1, (s, (q.samples count t).2)) := by
  induction count generalizing t with
  | zero => rfl
  | succ count inductionHypothesis =>
      simp only [Party.samples, sample_out_left out, inductionHypothesis]

end Both

/-! ## Bytes -/

def bitsOf (byte : Byte) : List Bool := (List.range 8).map fun i => byte.getLsbD (7 - i)

def byteOf (bits : List Bool) : Byte :=
  bits.foldl (fun byte bit => byte <<< 1 ||| if bit then 1 else 0) 0

theorem byteOf_bitsOf (byte : Byte) : byteOf (bitsOf byte) = byte := by
  revert byte
  decide

/-! ## Chips that are spoken to by their address -/

structure Chip (State : Type u) where
  address : BitVec 7
  /-- The chip answers to its address. -/
  answers : State → Bool
  begins : State → State
  addressed : Bool → State → State
  receive : Byte → State → Bool × State
  send : State → Byte × State
  ends : State → State

/-- Where a chip is in a transfer. -/
inductive Mode where
  | off
  /-- The byte is the first one after the start unless the chip is `named`. -/
  | receiving (named : Bool) (bits : List Bool)
  | acknowledging (reading : Bool)
  | sending (bit : Bool) (rest : List Bool)
  | listening
  | answered (more : Bool)
  deriving DecidableEq, Repr

structure Engine (State : Type u) where
  mode : Mode
  chip : State

namespace Chip

variable (c : Chip State)

/-- The bits of the next byte are put on the wire. -/
def sendNext (s : State) : Engine State :=
  match bitsOf (c.send s).1 with
  | [] => ⟨.listening, (c.send s).2⟩
  | bit :: rest => ⟨.sending bit rest, (c.send s).2⟩

def take (named : Bool) (byte : Byte) (s : State) : Engine State :=
  if named then
    ⟨if (c.receive byte s).1 then .acknowledging false else .off, (c.receive byte s).2⟩
  else if byte.extractLsb' 1 7 = c.address ∧ c.answers s = true then
    ⟨.acknowledging (byte.getLsbD 0), c.addressed (byte.getLsbD 0) s⟩
  else ⟨.off, s⟩

def fall (e : Engine State) : Engine State :=
  match e.mode with
  | .receiving named bits =>
    if bits.length = 8 then c.take named (byteOf bits) e.chip else e
  | .acknowledging false => ⟨.receiving true [], e.chip⟩
  | .acknowledging true => c.sendNext e.chip
  | .sending _ [] => ⟨.listening, e.chip⟩
  | .sending _ (bit :: rest) => ⟨.sending bit rest, e.chip⟩
  | .answered true => c.sendNext e.chip
  | .answered false => ⟨.off, e.chip⟩
  | .off | .listening => e

/-- The chip at the wires: it samples the data wire when the clock rises, and changes it when the
clock falls. -/
def party : Party (Engine State) where
  drives e :=
    match e.mode with
    | .acknowledging _ => false
    | .sending bit _ => bit
    | _ => true
  start e := ⟨.receiving false [], c.begins e.chip⟩
  stop e := ⟨.off, c.ends e.chip⟩
  rise level e :=
    match e.mode with
    | .receiving named bits => ⟨.receiving named (bits ++ [level]), e.chip⟩
    | .listening => ⟨.answered (!level), e.chip⟩
    | _ => e
  fall := c.fall

end Chip

variable {c : Chip State} {s : State}

theorem out_off : c.party.Out ⟨.off, s⟩ where
  drives := rfl
  rise _ := rfl
  fall := rfl

theorem cycles_receiving (named : Bool) (rest : List Bool) (bit : Bool) (front : List Bool)
    (whole : front.length + (rest.length + 1) = 8) :
    c.party.cycles (bit :: rest) ⟨.receiving named front, s⟩ =
        c.take named (byteOf (front ++ bit :: rest)) s ∧
      c.party.Releases (bit :: rest) ⟨.receiving named front, s⟩ := by
  have shifted : c.party.cycle bit ⟨.receiving named front, s⟩ =
      c.fall ⟨.receiving named (front ++ [bit]), s⟩ := by
    show c.fall ⟨.receiving named (front ++ [bit && true]), s⟩ = _
    rw [Bool.and_true]
  have length : (front ++ [bit]).length = front.length + 1 := List.length_append
  induction rest generalizing bit front with
  | nil =>
      have full : (front ++ [bit]).length = 8 := by
        rw [length]
        exact whole
      refine ⟨?_, rfl, trivial⟩
      show c.party.cycle bit _ = _
      rw [shifted, Chip.fall]
      exact if_pos full
  | cons bit' rest inductionHypothesis =>
      have notFull : ¬ (front ++ [bit]).length = 8 := by
        rw [length]
        rw [List.length_cons] at whole
        omega
      have stays : c.party.cycle bit ⟨.receiving named front, s⟩ =
          ⟨.receiving named (front ++ [bit]), s⟩ := by
        rw [shifted, Chip.fall]
        exact if_neg notFull
      have next := inductionHypothesis bit' (front ++ [bit])
        (by rw [length]; rw [List.length_cons] at whole; omega)
        (by
          show c.fall ⟨.receiving named (front ++ [bit] ++ [bit' && true]), s⟩ = _
          rw [Bool.and_true])
        List.length_append
      rw [List.append_assoc, List.singleton_append, ← stays] at next
      exact ⟨next.1, rfl, next.2⟩

theorem cycles_byte (named : Bool) (byte : Byte) :
    c.party.cycles (bitsOf byte) ⟨.receiving named [], s⟩ = c.take named byte s ∧
      c.party.Releases (bitsOf byte) ⟨.receiving named [], s⟩ := by
  have taken := cycles_receiving (c := c) (s := s) named (bitsOf byte).tail
    (byte.getLsbD 7) [] rfl
  have whole : byteOf ([] ++ byte.getLsbD 7 :: (bitsOf byte).tail) = byte := byteOf_bitsOf byte
  rw [whole] at taken
  exact taken

theorem samples_sending (rest : List Bool) (bit : Bool) :
    c.party.samples (rest.length + 1) ⟨.sending bit rest, s⟩ = (bit :: rest, ⟨.listening, s⟩) := by
  induction rest generalizing bit with
  | nil => rfl
  | cons bit' rest inductionHypothesis =>
      rw [List.length_cons, Party.samples]
      have next : c.party.sample ⟨.sending bit (bit' :: rest), s⟩ =
          (bit, ⟨.sending bit' rest, s⟩) := rfl
      rw [next]
      dsimp only
      rw [inductionHypothesis bit']

theorem samples_sendNext (s : State) :
    c.party.samples 8 (c.sendNext s) = (bitsOf (c.send s).1, ⟨.listening, (c.send s).2⟩) := by
  exact samples_sending (c := c) (s := (c.send s).2) (bitsOf (c.send s).1).tail
    ((c.send s).1.getLsbD 7)

end OrionBios.TwoWire
